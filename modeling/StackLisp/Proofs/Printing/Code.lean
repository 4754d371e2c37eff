import StackLisp.Proofs.Numeral.Plain
import StackLisp.Proofs.Printing.Spacing

/-!
# Rendering code

The text of an expression is laid out, with tokens that spell the expression. Each form of
code has this property if its parts have it, and if the reader cannot take the form for
another one: the operator of an application must not be a keyword.
-/

namespace StackLisp

open Grammar Lexical

/-! ## Atoms -/

/-- The integers that are read in a mode, and that can be written. -/
def Mode.Admits : Mode → Int → Prop
  | .code, n => Node.minInteger ≤ n ∧ n ≤ Node.maxInteger
  | .data, n => (Nat.toDigits 10 n.natAbs).length ≤ NumeralError.digitLimit

/-- Single nodes that can be told from their text. -/
inductive WellFormedAtom (mode : Mode) : Node → Prop
  | integer {n : Int} : mode.Admits n → WellFormedAtom mode (.integer n)
  | float {x : Numeral.Binary64} : x.isFinite = true → WellFormedAtom mode (.float x)
  | string {text : String} : Valid .string text.toList → WellFormedAtom mode (.string text)
  | symbol {name : String} : IsName name.toList → WellFormedAtom mode (.symbol name)

theorem valid_integerText (n : Int) : Valid .integer (Numeral.integerText n).toList := by
  rw [Numeral.toList_integerText]
  exact .integer (Numeral.isSign_signChars _) (Numeral.isDigits_toDigits _)

theorem valid_plainText {x : Numeral.Binary64} (h : x.isFinite = true) :
    Valid .float x.plainText.toList := by
  cases x with
  | finite negative rank =>
    obtain ⟨whole, part, htext, hdenotes⟩ := Numeral.exists_plainText negative rank
    rw [htext, ← List.append_assoc]
    exact .float (Numeral.isSign_signChars negative) hdenotes.wholeDigits hdenotes.partDigits
  | infinite negative => contradiction
  | nan => contradiction

theorem Mode.Admits.length_le {mode : Mode} {n : Int} (h : mode.Admits n) :
    (Nat.toDigits 10 n.natAbs).length ≤ NumeralError.digitLimit := by
  cases mode with
  | data => exact h
  | code =>
    rcases h with ⟨hmin, hmax⟩
    have hlen : (Nat.toDigits 10 n.natAbs).length ≤ 19 := by
      apply (Nat.length_toDigits_le_iff (by decide) (by decide)).mpr
      unfold Node.minInteger at hmin
      unfold Node.maxInteger at hmax
      omega
    exact hlen.trans (by decide)

/-- The text of an atom is one token, which stands for the atom. -/
theorem exists_token_of_atom {mode : Mode} {n : Node} (h : WellFormedAtom mode n) :
    ∃ t : Token, t.IsLexical ∧ IsAtom mode t n ∧ n.render = .ok t.text := by
  cases h with
  | @integer n hn =>
    have hwrite : Numeral.writeInteger n = .ok (Numeral.integerText n) :=
      if_neg (Nat.not_lt.mpr hn.length_le)
    refine ⟨.bare .integer (Numeral.integerText n), valid_integerText n, .integer rfl
      (Numeral.readInteger_of_writeInteger hwrite) ?_, ?_⟩
    · intro heq
      subst heq
      exact hn
    · rw [Node.render, hwrite]
      rfl
  | @float x hx =>
    exact ⟨.bare .float x.plainText, valid_plainText hx,
      .float rfl (Numeral.readFraction_plainText hx) fun _ => hx, rfl⟩
  | @string text ht => exact ⟨.bare .string text, ht, .string rfl, rfl⟩
  | @symbol name hn => exact ⟨.bare .symbol name, .symbol hn, .symbol rfl, rfl⟩

/-- What a token of the standard table stands for in code can be told from its text. -/
theorem wellFormedAtom_of_isAtom {t : Token} {n : Node} (ht : t.IsLexical)
    (h : IsAtom .code t n) : WellFormedAtom .code n := by
  cases h with
  | integer _ _ hr => exact .integer (hr rfl)
  | float _ _ hr => exact .float (hr rfl)
  | string hk =>
    rw [Token.IsLexical, hk] at ht
    exact .string ht
  | symbol hk =>
    rw [Token.IsLexical, hk] at ht
    cases ht with
    | symbol hn => exact .symbol hn

/-! ## Keywords -/

/-- The kind of a token is determined by its text. -/
theorem Lexical.Valid.kind_unique {j k : Kind} {a : List Char} (hj : Valid j a)
    (hk : Valid k a) : j = k := by
  have h1 := lexeme?_of_valid hj (ends_nil j) []
  have h2 := lexeme?_of_valid hk (ends_nil k) []
  exact congrArg Lexeme.kind (Option.some.inj (h1.symm.trans h2))

theorem valid_lambda : Valid .symbol "lambda".toList := .symbol (by decide)

theorem valid_quote : Valid .symbol "quote".toList := .symbol (by decide)

/-- Only symbols can be keywords. -/
theorem Token.IsLexical.kind_of_isKeyword {t : Token} (h : t.IsLexical)
    (hk : IsKeyword t.text) : t.kind = .symbol := by
  unfold Token.IsLexical at h
  rcases hk with hk | hk
  · rw [hk] at h
    exact h.kind_unique valid_lambda
  · rw [hk] at h
    exact h.kind_unique valid_quote

/-- An expression that is no keyword does not start with a keyword. -/
theorem not_isKeyword_of_isExpr {first : Token} {ts : List Token} {n : Node}
    (h : IsExpr (first :: ts) n) (hf : first.IsLexical)
    (hn : ∀ name, n = .symbol name → ¬ IsKeyword name) : ¬ IsKeyword first.text := by
  intro hk
  have hsym := hf.kind_of_isKeyword hk
  generalize hts : first :: ts = us at h
  have paren : ∀ {start : Token} {vs : List Token}, start.kind = .openParen →
      first :: ts ≠ start :: vs := by
    intro start vs hs heq
    rw [← (List.cons.inj heq).1, hsym] at hs
    contradiction
  cases h with
  | atom ha =>
    obtain ⟨rfl, _⟩ := List.cons.inj hts
    cases ha with
    | symbol _ => exact hn first.text rfl hk
    | integer hi _ _ => simp [hsym] at hi
    | float hi _ _ => simp [hsym] at hi
    | string hi => simp [hsym] at hi
  | lambda hh _ _ =>
    obtain ⟨start, vs, rfl, hs⟩ := hh.exists_cons
    exact paren hs hts
  | quote hs _ _ _ => exact paren hs hts
  | application hs _ _ _ _ => exact paren hs hts

/-! ## Forms -/

/-- A text that is laid out, and is the rendering of what its tokens spell. -/
structure RendersExpr (text : String) (ts : List Token) (n : Node) : Prop where
  rendered : n.render = .ok text
  laid : Laid text.toList ts
  spells : IsExpr ts n

def Prints (n : Node) : Prop := ∃ text ts, RendersExpr text ts n

/-- The same for expressions in a row. -/
structure RendersExprs (texts : List String) (ts : List Token) (ns : List Node) : Prop where
  rendered : Node.renderAll ns = .ok texts
  laid : Laid (Node.spaced texts).toList ts
  spells : Each IsExpr ts ns

def PrintsAll (ns : List Node) : Prop := ∃ texts ts, RendersExprs texts ts ns

theorem Laid.isLexical {cs : List Char} {ts : List Token} (h : Laid cs ts) :
    ∀ t ∈ ts, t.IsLexical := by
  induction h with
  | nil => simp
  | blank _ _ ih => exact ih
  | token ht _ _ ih =>
    intro t hm
    rcases List.mem_cons.mp hm with rfl | hm
    · exact ht
    · exact ih t hm

theorem laid_bare {k : Kind} {text : String} (h : Valid k text.toList) :
    Laid text.toList [Token.bare k text] :=
  Laid.singleton (t := Token.bare k text) h

section Forms
variable {names : List String} {ts : List Token} {f n : Node} {ns : List Node}

theorem PrintsAll.nil : PrintsAll [] := ⟨[], [], rfl, .nil, .nil⟩

theorem PrintsAll.cons (h : Prints n) (hs : PrintsAll ns) : PrintsAll (n :: ns) := by
  rcases h with ⟨text, ts, ht⟩
  rcases hs with ⟨texts, us, hu⟩
  exact ⟨text :: texts, ts ++ us, Node.renderAll_cons ht.rendered hu.rendered,
    laid_spaced_cons ht.laid hu.laid, .cons ht.spells hu.spells⟩

theorem printsAll_of_forall (h : ∀ n ∈ ns, Prints n) : PrintsAll ns := by
  induction ns with
  | nil => exact .nil
  | cons n ns ih =>
    exact .cons (h n List.mem_cons_self) (ih fun m hm => h m (List.mem_cons_of_mem n hm))

theorem Prints.atom (h : WellFormedAtom .code n) : Prints n := by
  obtain ⟨t, ht, ha, htext⟩ := exists_token_of_atom h
  exact ⟨t.text, [t], htext, .singleton ht, .atom ha⟩

theorem laid_names (h : ∀ name ∈ names, IsName name.toList) :
    Laid (Node.spaced names).toList (names.map (Token.bare .symbol)) := by
  induction names with
  | nil => exact .nil
  | cons name names ih =>
    have hname : Laid name.toList [Token.bare .symbol name] :=
      laid_bare (.symbol (h name List.mem_cons_self))
    exact laid_spaced_cons hname (ih fun a ha => h a (List.mem_cons_of_mem name ha))

theorem isHead_names (names : List String) (hd : names.Nodup) :
    IsHead (Token.opening :: Token.bare .symbol "lambda" :: Token.opening ::
      names.map (Token.bare .symbol) ++ [Token.closing]) names := by
  have hnames : (names.map (Token.bare .symbol)).map Token.text = names := by
    rw [List.map_map]
    exact List.map_id names
  have h : IsHead (Token.opening :: Token.bare .symbol "lambda" :: Token.opening ::
      names.map (Token.bare .symbol) ++ [Token.closing])
      ((names.map (Token.bare .symbol)).map Token.text) := by
    refine .mk rfl rfl rfl ?_ ?_ rfl
    · intro p hp
      obtain ⟨name, _, rfl⟩ := List.mem_map.mp hp
      rfl
    · rwa [hnames]
  rwa [hnames] at h

theorem Prints.lambda (hn : ∀ name ∈ names, IsName name.toList) (hd : names.Nodup)
    (h : Prints n) : Prints (.lambda names n) := by
  rcases h with ⟨text, ts, ht⟩
  have hparams := laid_parenthesized (laid_names hn)
  have hlaid := laid_parenthesized (laid_spaced_cons (laid_bare valid_lambda)
    (laid_spaced_cons hparams (laid_spaced_cons ht.laid laid_spaced_nil)))
  refine ⟨_, _, ?_, hlaid, ?_⟩
  · rw [Node.render, ht.rendered]
    rfl
  · have hspells : IsExpr _ (.lambda names n) :=
      .lambda (isHead_names names hd) ht.spells (rfl : Token.closing.kind = .closeParen)
    simpa using hspells

/-- A quote prints if its raw text is the normal spacing of tokens that spell its data. -/
theorem Prints.quote (hl : ∀ t ∈ ts, t.IsLexical) (h : Each IsDatum ts ns) :
    Prints (.quote (Token.joinText ts) ns) := by
  have hkeyword : Laid "quote".toList [Token.bare .symbol "quote"] := laid_bare valid_quote
  have hspace : Laid (' ' :: (Token.joinText ts).toList) ts := .blank rfl (laid_joinText hl)
  have hraw : Laid ("quote " ++ Token.joinText ts).toList (Token.bare .symbol "quote" :: ts) := by
    rw [String.toList_append]
    exact hkeyword.append hspace (terminal_blank rfl)
  exact ⟨_, _, rfl, laid_parenthesized hraw, .quote rfl rfl h rfl⟩

/-- An application prints if its operator is not one of the keywords. -/
theorem Prints.application (h : Prints f) (hf : ∀ name, f = .symbol name → ¬ IsKeyword name)
    (hs : PrintsAll ns) : Prints (.application f ns) := by
  rcases h with ⟨text, ts, ht⟩
  rcases hs with ⟨texts, us, hu⟩
  have hlaid := laid_parenthesized (laid_spaced_cons ht.laid hu.laid)
  obtain ⟨first, fs, rfl⟩ := List.exists_cons_of_ne_nil ht.spells.ne_nil
  have hfirst := ht.laid.isLexical first List.mem_cons_self
  have hkeyword := not_isKeyword_of_isExpr ht.spells hfirst hf
  refine ⟨_, _, ?_, hlaid, ?_⟩
  · rw [Node.render, ht.rendered, hu.rendered]
    rfl
  · exact .application rfl hkeyword ht.spells hu.spells rfl

end Forms

end StackLisp
