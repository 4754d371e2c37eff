import StackLisp.Proofs.Grammar.Licensed
import StackLisp.Proofs.Printing.Data

/-!
# Printing code respaces its tokens

The printer lays out spaces by the shape of a tree, and normal spacing lays them out by the
kinds of neighbouring tokens. The two agree on every expression: what is rendered is the
normal spacing of the tokens that spell it. Three things are lost when a tree is built, and
have to be assumed: the texts of parentheses, the text of a numeral that is not canonical,
and the space behind the keyword of a quote, which is printed even if the quote is empty.
-/

namespace StackLisp

open Numeral (readInteger writeInteger readFraction)

namespace Token

/-- A parenthesis is written as one. -/
structure HasParenText (t : Token) : Prop where
  openParen : t.kind = .openParen → t.text = "("
  closeParen : t.kind = .closeParen → t.text = ")"

/-- A numeral is the one that is written for its number. -/
structure IsCanonical (t : Token) : Prop where
  integer : t.kind = .integer → (readInteger t.text >>= writeInteger) = .ok t.text
  float : t.kind = .float → (readFraction t.text).map Numeral.Binary64.plainText = .ok t.text

end Token

namespace Grammar

/-- The expressions that an expression is made of, with their tokens. What is inside a quote
is data, and no such part. -/
inductive IsPart (us : List Token) (m : Node) : List Token → Node → Prop
  | self : IsExpr us m → IsPart us m us m
  | body {head body : List Token} {stop : Token} {names : List String} {n : Node} :
      IsHead head names → IsPart us m body n → stop.kind = .closeParen →
      IsPart us m (head ++ body ++ [stop]) (.lambda names n)
  | operator {start first stop : Token} {fs ts : List Token} {f : Node} {ns : List Node} :
      start.kind = .openParen → ¬ IsKeyword first.text → IsPart us m (first :: fs) f →
      Each IsExpr ts ns → stop.kind = .closeParen →
      IsPart us m (start :: (first :: fs) ++ ts ++ [stop]) (.application f ns)
  | operand {start first stop : Token} {fs before ts after : List Token} {f n : Node}
      {ns ms : List Node} :
      start.kind = .openParen → ¬ IsKeyword first.text → IsExpr (first :: fs) f →
      Each IsExpr before ns → IsPart us m ts n → Each IsExpr after ms →
      stop.kind = .closeParen →
      IsPart us m (start :: (first :: fs) ++ (before ++ (ts ++ after)) ++ [stop])
        (.application f (ns ++ n :: ms))

/-- Nothing is lost when the tree is built. -/
structure IsPlain (ts : List Token) (n : Node) : Prop where
  parens : ∀ t ∈ ts, t.HasParenText
  quotes : ∀ us raw ms, IsPart us (.quote raw ms) ts n → ms ≠ []
  numerals : ∀ t m, IsPart [t] m ts n → t.IsCanonical

section Parts
variable {R : List Token → Node → Prop} {ts us : List Token} {m n : Node} {ns : List Node}

theorem IsPlain.of_parts (h : IsPlain ts n) (hsub : us ⊆ ts)
    (hparts : ∀ vs k, IsPart vs k us m → IsPart vs k ts n) : IsPlain us m where
  parens t ht := h.parens t (hsub ht)
  quotes vs _ _ hp := h.quotes vs _ _ (hparts _ _ hp)
  numerals t _ hp := h.numerals t _ (hparts _ _ hp)

/-- The tokens of a part stand side by side. -/
theorem IsPart.isInfix (h : IsPart us m ts n) : us <:+: ts := by
  induction h with
  | self _ => exact List.infix_rfl
  | @body head body stop _ _ _ _ _ ih => exact ih.trans ⟨head, [stop], rfl⟩
  | @operator start first stop fs ts _ _ _ _ _ _ _ ih =>
    exact ih.trans ⟨[start], ts ++ [stop], by simp⟩
  | @operand start first stop fs before ts after _ _ _ _ _ _ _ _ _ _ _ ih =>
    exact ih.trans ⟨start :: first :: fs ++ before, after ++ [stop], by simp⟩

theorem IsPart.subset (h : IsPart us m ts n) : us ⊆ ts := h.isInfix.subset

/-- The parts of an expression stand at places of code in its tree. -/
theorem IsPart.inside (h : IsPart us m ts n) : Node.Inside .code n .code m := by
  induction h with
  | self _ => exact .root
  | body _ _ _ ih => exact .deeper .body ih
  | operator _ _ _ _ _ ih => exact .deeper .operator ih
  | operand _ _ _ _ _ _ _ ih => exact .deeper (.operand (by simp)) ih

theorem IsPart.isExpr (h : IsPart us m ts n) : IsExpr us m := by
  induction h with
  | self h => exact h
  | body _ _ _ ih | operator _ _ _ _ _ ih | operand _ _ _ _ _ _ _ ih => exact ih

/-- A token that is an expression on its own is an atom. -/
theorem IsExpr.isAtom {t : Token} (h : IsExpr [t] m) : IsAtom .code t m := by
  generalize hts : [t] = ts at h
  cases h with
  | atom ha =>
    cases hts
    exact ha
  | lambda hh _ _ =>
    cases hh
    simp at hts
  | quote _ _ _ _ | application _ _ _ _ _ =>
    simp at hts

theorem IsPart.of_application {f : Node} (h : IsPart us m ts (.application f ns)) :
    m = .application f ns ∨ (∃ fs, IsPart us m fs f) ∨ ∃ n ∈ ns, ∃ vs, IsPart us m vs n := by
  cases h with
  | self _ => exact .inl rfl
  | operator _ _ hf _ _ => exact .inr (.inl ⟨_, hf⟩)
  | operand _ _ _ _ hn _ _ => exact .inr (.inr ⟨_, by simp, _, hn⟩)

/-- A phrase of a sequence, with the phrases before and after it. -/
def Among (R : List Token → Node → Prop) (ts : List Token) (ns : List Node)
    (us : List Token) (m : Node) : Prop :=
  ∃ before after ns₁ ns₂, ts = before ++ (us ++ after) ∧ ns = ns₁ ++ m :: ns₂ ∧
    Each R before ns₁ ∧ Each R after ns₂

/-- Each phrase of a sequence stands among the others. -/
theorem Each.among (h : Each R ts ns) : Each (fun us m => R us m ∧ Among R ts ns us m) ts ns := by
  induction h with
  | nil => exact .nil
  | @cons ts us n ns hr hs ih =>
    refine .cons ⟨hr, [], us, [], ns, rfl, rfl, .nil, hs⟩ (ih.imp fun vs m hm => ⟨hm.1, ?_⟩)
    obtain ⟨before, after, ns₁, ns₂, rfl, rfl, hbefore, hafter⟩ := hm.2
    exact ⟨ts ++ before, after, n :: ns₁, ns₂, (List.append_assoc _ _ _).symm, rfl,
      .cons hr hbefore, hafter⟩

end Parts

variable {ts : List Token} {n : Node}

theorem IsExpr.standsAlone (h : IsExpr ts n) : Token.StandsAlone ts := by
  cases h with
  | atom ha => exact Token.standsAlone_singleton ha.kind_ne
  | lambda hh _ hr =>
    obtain ⟨start, us, rfl, hl⟩ := hh.exists_cons
    exact Token.standsAlone_parenthesized hl hr
  | quote hl _ _ hr => exact Token.standsAlone_parenthesized hl hr
  | application hl _ _ _ hr => exact Token.standsAlone_parenthesized hl hr

end Grammar

open Grammar

/-! ## The tokens of a form -/

namespace Token

/-- A keyword is no parenthesis. -/
theorem HasParenText.standsAlone {t : Token} (h : t.HasParenText) (hk : IsKeyword t.text) :
    StandsAlone [t] := by
  have hne : t.text ≠ "(" ∧ t.text ≠ ")" := by
    rcases hk with hk | hk
    · rw [hk]
      decide
    · rw [hk]
      decide
  exact standsAlone_singleton ⟨fun ho => hne.1 (h.openParen ho), fun hc => hne.2 (h.closeParen hc)⟩

theorem joinText_of_parens {start stop : Token} {ts : List Token} (hl : start.kind = .openParen)
    (hr : stop.kind = .closeParen) (hs : start.HasParenText) (ht : stop.HasParenText) :
    joinText (start :: ts ++ [stop]) = Node.parenthesized (joinText ts) := by
  have hshape : (start :: ts ++ [stop]).map shape = (opening :: ts ++ [closing]).map shape := by
    simp [shape, opening, closing, bare, hl, hr, hs.openParen hl, ht.closeParen hr]
  rw [joinText_eq_of_shape hshape, joinText_parenthesized]

theorem joinText_names {ps : List Token} (h : ∀ p ∈ ps, p.kind = .symbol) :
    joinText ps = Node.spaced (ps.map Token.text) := by
  induction ps with
  | nil => rfl
  | cons p ps ih =>
    have hrec := ih fun q hq => h q (List.mem_cons_of_mem p hq)
    cases ps with
    | nil => exact (Node.spaced_singleton p.text).symm
    | cons q qs =>
      have hapart : apart p q = true := by
        simp [apart, h p, h q]
      rw [joinText_cons_cons, hapart, if_pos rfl, hrec, List.map_cons (l := q :: qs),
        Node.spaced_cons (by simp)]

end Token

section Forms
variable {start keyword left right stop first : Token} {body fs ps ts : List Token}
  {f n : Node} {ns : List Node}

theorem render_atom {mode : Mode} {t : Token} (h : IsAtom mode t n) (hc : t.IsCanonical) :
    n.render = .ok t.text := by
  cases h with
  | @integer k hk hr _ =>
    have hwrite := hc.integer hk
    rw [hr] at hwrite
    have hwrite' : writeInteger k = .ok t.text := hwrite
    rw [Node.render, hwrite']
    rfl
  | @float x hk hr _ =>
    have hwrite := hc.float hk
    rw [hr] at hwrite
    have htext : x.plainText = t.text := Except.ok.inj hwrite
    rw [Node.render, htext]
  | string hk => rfl
  | symbol hk => rfl

theorem render_lambda (hplain : ∀ t ∈ start :: keyword :: left :: ps ++ [right] ++ body ++ [stop],
      t.HasParenText) (hs : start.kind = .openParen) (hw : keyword.text = "lambda")
    (hl : left.kind = .openParen) (hps : ∀ p ∈ ps, p.kind = .symbol)
    (hr : right.kind = .closeParen) (hbody : Respaced body n) (ht : stop.kind = .closeParen) :
    (Node.lambda (ps.map Token.text) n).render =
      .ok (Token.joinText (start :: keyword :: left :: ps ++ [right] ++ body ++ [stop])) := by
  have hsplit : start :: keyword :: left :: ps ++ [right] ++ body ++ [stop] =
      start :: ([keyword] ++ (left :: ps ++ [right] ++ body)) ++ [stop] := by
    simp
  have hkeyword : Token.StandsAlone [keyword] :=
    (hplain keyword (by simp)).standsAlone (.inl hw)
  have hparams : Token.StandsAlone (left :: ps ++ [right]) :=
    Token.standsAlone_parenthesized hl hr
  rw [hsplit, Token.joinText_of_parens hs ht (hplain start (by simp)) (hplain stop (by simp)),
    hkeyword.joinText_append (hparams.append hbody.standsAlone),
    hparams.joinText_append hbody.standsAlone,
    Token.joinText_of_parens hl hr (hplain left (by simp)) (hplain right (by simp)),
    Token.joinText_names hps, Token.joinText_singleton, hw, Node.render, hbody.text]
  rfl

theorem render_quote (hplain : ∀ t ∈ start :: keyword :: ts ++ [stop], t.HasParenText)
    (hs : start.kind = .openParen) (hw : keyword.text = "quote") (hd : Each IsDatum ts ns)
    (hne : ns ≠ []) (ht : stop.kind = .closeParen) :
    (Node.quote (Token.joinText ts) ns).render =
      .ok (Token.joinText (start :: keyword :: ts ++ [stop])) := by
  have hkeyword : Token.StandsAlone [keyword] :=
    (hplain keyword (by simp)).standsAlone (.inr hw)
  have hsplit : start :: keyword :: ts ++ [stop] = start :: ([keyword] ++ ts) ++ [stop] := rfl
  have hdata := hd.standsAlone (fun _ _ h => h.standsAlone) hne
  rw [hsplit, Token.joinText_of_parens hs ht (hplain start (by simp)) (hplain stop (by simp)),
    hkeyword.joinText_append hdata, Token.joinText_singleton, hw, Node.render]
  rfl

theorem render_application (hplain : ∀ t ∈ start :: (first :: fs) ++ ts ++ [stop], t.HasParenText)
    (hs : start.kind = .openParen) (hf : Respaced (first :: fs) f) (hns : Each Respaced ts ns)
    (ht : stop.kind = .closeParen) :
    (Node.application f ns).render =
      .ok (Token.joinText (start :: (first :: fs) ++ ts ++ [stop])) := by
  obtain ⟨texts, hall, hspaced⟩ := (Each.cons hf hns).exists_spaced
  obtain ⟨text, texts, rfl, htext, hall'⟩ := Node.exists_of_renderAll_cons hall
  have hsplit : start :: (first :: fs) ++ ts ++ [stop] =
      start :: (first :: fs ++ ts) ++ [stop] := by
    simp
  rw [hsplit, Token.joinText_of_parens hs ht (hplain start (by simp)) (hplain stop (by simp)),
    ← hspaced, Node.render, htext, hall']
  rfl

end Forms

/-- Rendering an expression gives the normal spacing of its tokens. -/
theorem render_eq_joinText {ts : List Token} {n : Node} (h : IsExpr ts n) (hp : IsPlain ts n) :
    n.render = .ok (Token.joinText ts) := by
  -- The derivation is carried along, since it is what divides a sequence into its phrases.
  refine (h.induct (motive := fun ts n => IsExpr ts n ∧
    (IsPlain ts n → n.render = .ok (Token.joinText ts))) ?atom ?lambda ?quote ?application).2 hp
  case atom =>
    intro t n ha
    have hself : IsExpr [t] n := .atom ha
    exact ⟨hself, fun hp => render_atom ha (hp.numerals t n (.self hself))⟩
  case lambda =>
    intro head body stop names n hh hb ih hr
    refine ⟨.lambda hh hb hr, fun hp => ?_⟩
    have hbody : IsPlain body n :=
      hp.of_parts (fun t ht => by simp [ht]) fun _ _ hpart => .body hh hpart hr
    have hrespaced : Respaced body n := ⟨hb.standsAlone, ih.2 hbody⟩
    obtain @⟨start, keyword, left, right, ps, hs, hw, hl, hps, _, hc⟩ := hh
    exact render_lambda hp.parens hs hw hl hps hc hrespaced hr
  case quote =>
    intro start keyword stop ts ns hs hw hd hr
    have hself : IsExpr _ _ := .quote hs hw hd hr
    exact ⟨hself, fun hp => render_quote hp.parens hs hw hd (hp.quotes _ _ _ (.self hself)) hr⟩
  case application =>
    intro start first stop fs ts f ns hs hk hf ihf hns ihs hr
    refine ⟨.application hs hk hf hns hr, fun hp => ?_⟩
    have hsub : first :: fs ⊆ start :: (first :: fs) ++ ts ++ [stop] := fun t ht =>
      List.mem_append_left _ (List.mem_append_left _ (List.mem_cons_of_mem start ht))
    have hoperator : IsPlain (first :: fs) f :=
      hp.of_parts hsub fun _ _ hpart => .operator hs hk hpart hns hr
    have hoperands : Each Respaced ts ns := by
      refine ihs.among.imp fun us m hm => ?_
      obtain ⟨hm, before, after, ns₁, ns₂, rfl, rfl, hbefore, hafter⟩ := hm
      have hplain : IsPlain us m :=
        hp.of_parts (fun t ht => by simp [ht]) fun _ _ hpart =>
          .operand hs hk hf (hbefore.imp fun _ _ h => h.1) hpart (hafter.imp fun _ _ h => h.1) hr
      exact ⟨hm.1.standsAlone, hm.2 hplain⟩
    exact render_application hp.parens hs ⟨hf.standsAlone, ihf.2 hoperator⟩ hoperands hr

/-- Rendering what tokens were parsed into gives their normal spacing, if parentheses are written
as such, no quote in the tree is empty and the numerals of code are canonical. -/
theorem render_of_parse {ts : List Token} {n : Node} (hparse : parse ts = .ok n)
    (hparens : ∀ t ∈ ts, t.HasParenText)
    (hquotes : ∀ raw, ¬ Node.Inside .code n .code (.quote raw []))
    (hnumerals : ∀ t m, IsPart [t] m ts n → t.IsCanonical) :
    n.render = .ok (Token.joinText ts) := by
  have hplain : IsPlain ts n := by
    refine ⟨hparens, ?_, hnumerals⟩
    rintro us raw ms hpart rfl
    exact hquotes raw hpart.inside
  exact render_eq_joinText (parse_eq_ok_iff_isExpr.mp hparse) hplain

/-- The tokens of `((lambda () -1) (quote () 007) 0.5)`, from a table that takes the keyword of
the lambda for a fraction. -/
def respacedTokens : List Token :=
  [.opening, .opening, .bare .float "lambda", .opening, .closing, .bare .integer "-1", .closing,
    .opening, .bare .symbol "quote", .opening, .closing, .bare .integer "007", .closing,
    .bare .float "0.5", .closing]

def half : Numeral.Binary64 := .finite false ⟨1022 * Nat.pow 2 52, by decide +kernel⟩

def respacedTree : Node :=
  .application (.lambda [] (.integer (-1))) [.quote "() 007" [.list [], .integer 7], .float half]

theorem render_of_parse_respacedTokens :
    parse respacedTokens = .ok respacedTree ∧
      respacedTree.render = .ok "((lambda () -1) (quote () 007) 0.5)" := by
  have hminus : Node.ofAtom .code (.bare .integer "-1") = .ok (.integer (-1)) := by
    rfl
  have hseven : Node.ofAtom .data (.bare .integer "007") = .ok (.integer 7) := by
    rfl
  have hread : readFraction "0.5" = .ok half := by
    decide +kernel
  have hhalf : Node.ofAtom .code (.bare .float "0.5") = .ok (.float half) := by
    simp [Node.ofAtom, Token.bare, hread, half, Numeral.Binary64.isFinite]
  unfold Token.bare at hminus hseven hhalf
  have hparse : parse respacedTokens = .ok respacedTree := by
    simp [parse, Reading.form, State.run, State.step, State.form, State.deliver, State.close,
      hminus, hseven, hhalf, respacedTokens, respacedTree, Token.opening, Token.closing,
      Token.bare, Token.joinText, Token.apart, bind, Except.bind, pure, Except.pure]
  have hparens : ∀ t ∈ respacedTokens, t.HasParenText := by
    have htexts : ∀ t ∈ respacedTokens,
        (t.kind = .openParen → t.text = "(") ∧ (t.kind = .closeParen → t.text = ")") := by
      decide
    exact fun t ht => ⟨(htexts t ht).1, (htexts t ht).2⟩
  -- The atoms of code are an integer and a fraction; the other numeral is inside the quote.
  have hplaces : ∀ m, Node.Inside .code respacedTree .code m →
      (∀ raw, m ≠ .quote raw []) ∧ ∀ k, m = .integer k → k = -1 := by
    intro m hm
    cases hm with
    | root => simp [respacedTree]
    | deeper hb hi =>
      cases hb with
      | operator =>
        cases hi with
        | root => simp
        | deeper hb hi =>
          cases hb with
          | body =>
            cases hi with
            | root => simp
            | deeper hb _ => cases hb
      | operand hmem =>
        simp only [List.mem_cons, List.not_mem_nil, or_false] at hmem
        rcases hmem with rfl | rfl
        · cases hi with
          | root => simp
          | deeper hb hi =>
            cases hb with
            | datum _ => exact absurd hi.mode_eq_data (by decide)
        · cases hi with
          | root => simp
          | deeper hb _ => cases hb
  have hnumerals : ∀ t m, IsPart [t] m respacedTokens respacedTree → t.IsCanonical := by
    intro t m hpart
    have ht : t ∈ respacedTokens := hpart.subset List.mem_cons_self
    have hkinds : ∀ t ∈ respacedTokens,
        (t.kind = .integer → t.text = "-1" ∨ t.text = "007") ∧
        (t.kind = .float → t.text = "lambda" ∨ t.text = "0.5") := by
      decide
    cases hpart.isExpr.isAtom with
    | integer hk hr _ =>
      have hn := (hplaces _ hpart.inside).2 _ rfl
      subst hn
      have htext : t.text = "-1" := by
        refine ((hkinds t ht).1 hk).resolve_right fun h => ?_
        have hne : readInteger "007" ≠ .ok (-1) := by
          decide
        exact hne (h ▸ hr)
      refine ⟨fun _ => ?_, fun h => ?_⟩
      · rw [htext]
        rfl
      · cases hk.symm.trans h
    | float hk hr _ =>
      have htext : t.text = "0.5" := by
        refine ((hkinds t ht).2 hk).resolve_left fun h => ?_
        have hfailed : ¬ (readFraction "lambda").toBool := by
          decide
        rw [h] at hr
        exact hfailed (hr ▸ rfl)
      refine ⟨fun h => ?_, fun _ => ?_⟩
      · cases hk.symm.trans h
      · rw [htext]
        decide +kernel
    | string hk | symbol hk =>
      refine ⟨fun h => ?_, fun h => ?_⟩
      · cases hk.symm.trans h
      · cases hk.symm.trans h
  have hrender := render_of_parse hparse hparens (fun raw h => (hplaces _ h).1 raw rfl) hnumerals
  have hjoin : Token.joinText respacedTokens = "((lambda () -1) (quote () 007) 0.5)" := by
    decide
  rw [hjoin] at hrender
  exact ⟨hparse, hrender⟩

end StackLisp
