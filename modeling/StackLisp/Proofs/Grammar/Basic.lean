import Mathlib.Data.List.Forall2
import Mathlib.Data.List.Nodup
import StackLisp.Reader.Forms

/-!
# The grammar of forms

The grammar says which lists of tokens spell which trees, without a reader. There are two
sorts of phrases, expressions and data, and both may be single tokens. Keywords are told by
their text alone; all other tokens are told by their kind. Places play no part.
-/

namespace StackLisp

/-- Two computations in a row succeed only if both do. -/
theorem exists_of_bind_eq_ok {ε α β : Type} {x : Except ε α} {f : α → Except ε β} {b : β}
    (h : (x >>= f) = .ok b) : ∃ a, x = .ok a ∧ f a = .ok b := by
  cases x with
  | error e => cases h
  | ok a => exact ⟨a, rfl, h⟩

theorem eq_ok_of_mapError {ε ε' α : Type} {x : Except ε α} {f : ε → ε'} {a : α}
    (h : x.mapError f = .ok a) : x = .ok a := by
  cases x with
  | error e => cases h
  | ok b =>
    cases h
    rfl

/-- The text of a node that is a single word. -/
def Node.word? : Node → Option String
  | .string text => some text
  | .symbol name => some name
  | _ => none

namespace Grammar

/-- The node that a single token stands for. Only the numbers of code are bounded. -/
inductive IsAtom (mode : Mode) (t : Token) : Node → Prop
  | integer {n : Int} : t.kind = .integer → Numeral.readInteger t.text = .ok n →
      (mode = .code → Node.minInteger ≤ n ∧ n ≤ Node.maxInteger) → IsAtom mode t (.integer n)
  | float {x : Numeral.Binary64} : t.kind = .float → Numeral.readFraction t.text = .ok x →
      (mode = .code → x.isFinite = true) → IsAtom mode t (.float x)
  | string : t.kind = .string → IsAtom mode t (.string t.text)
  | symbol : t.kind = .symbol → IsAtom mode t (.symbol t.text)

/-- A concatenation of phrases, with their nodes in the same order. -/
inductive Each (R : List Token → Node → Prop) : List Token → List Node → Prop
  | nil : Each R [] []
  | cons {ts us : List Token} {n : Node} {ns : List Node} :
      R ts n → Each R us ns → Each R (ts ++ us) (n :: ns)

inductive IsDatum : List Token → Node → Prop
  | atom {t : Token} {n : Node} : IsAtom .data t n → IsDatum [t] n
  | list {start stop : Token} {ts : List Token} {ns : List Node} :
      start.kind = .openParen → Each IsDatum ts ns → stop.kind = .closeParen →
      IsDatum (start :: ts ++ [stop]) (.list ns)

/-- The texts that make a special form of what follows an opening parenthesis. -/
def IsKeyword (text : String) : Prop := text = "lambda" ∨ text = "quote"

instance (text : String) : Decidable (IsKeyword text) :=
  inferInstanceAs (Decidable (text = "lambda" ∨ text = "quote"))

/-- A lambda up to the parenthesis that closes its parameters. -/
inductive IsHead : List Token → List String → Prop
  | mk {start keyword left right : Token} {ps : List Token} :
      start.kind = .openParen → keyword.text = "lambda" → left.kind = .openParen →
      (∀ p ∈ ps, p.kind = .symbol) → (ps.map Token.text).Nodup → right.kind = .closeParen →
      IsHead (start :: keyword :: left :: ps ++ [right]) (ps.map Token.text)

inductive IsExpr : List Token → Node → Prop
  | atom {t : Token} {n : Node} : IsAtom .code t n → IsExpr [t] n
  | lambda {head body : List Token} {stop : Token} {names : List String} {n : Node} :
      IsHead head names → IsExpr body n → stop.kind = .closeParen →
      IsExpr (head ++ body ++ [stop]) (.lambda names n)
  | quote {start keyword stop : Token} {ts : List Token} {ns : List Node} :
      start.kind = .openParen → keyword.text = "quote" → Each IsDatum ts ns →
      stop.kind = .closeParen →
      IsExpr (start :: keyword :: ts ++ [stop]) (.quote (Token.joinText ts) ns)
  | application {start first stop : Token} {fs ts : List Token} {f : Node} {ns : List Node} :
      start.kind = .openParen → ¬ IsKeyword first.text → IsExpr (first :: fs) f →
      Each IsExpr ts ns → stop.kind = .closeParen →
      IsExpr (start :: (first :: fs) ++ ts ++ [stop]) (.application f ns)

/-- The phrases of a mode. -/
def Spells : Mode → List Token → Node → Prop
  | .code => IsExpr
  | .data => IsDatum

/-! ## Sequences -/

section Sequences
variable {R S : List Token → Node → Prop} {ts us : List Token} {n : Node} {ns ms : List Node}

theorem Each.imp (h : Each R ts ns) (hRS : ∀ ts n, R ts n → S ts n) : Each S ts ns := by
  induction h with
  | nil => exact .nil
  | cons hr _ ih => exact .cons (hRS _ _ hr) ih

theorem Each.append (h : Each R ts ns) (hu : Each R us ms) : Each R (ts ++ us) (ns ++ ms) := by
  induction h with
  | nil => exact hu
  | cons hr _ ih =>
    rw [List.append_assoc]
    exact .cons hr ih

theorem Each.snoc (h : Each R ts ns) (hr : R us n) : Each R (ts ++ us) (ns ++ [n]) := by
  have h1 : Each R (us ++ []) [n] := .cons hr .nil
  rw [List.append_nil] at h1
  exact h.append h1

theorem Each.exists_of_mem (h : Each R ts ns) (hn : n ∈ ns) : ∃ us, us ⊆ ts ∧ R us n := by
  induction h with
  | nil => contradiction
  | @cons us vs m ms hr _ ih =>
    rcases List.mem_cons.mp hn with rfl | hn
    · exact ⟨us, List.subset_append_left us vs, hr⟩
    · obtain ⟨ws, hws, hw⟩ := ih hn
      exact ⟨ws, fun t ht => List.mem_append_right us (hws ht), hw⟩

/-- A sequence is a list of phrases, one for each node, written one after the other. -/
theorem each_iff_forall₂ :
    Each R ts ns ↔ ∃ tss : List (List Token), ts = tss.flatten ∧ List.Forall₂ R tss ns := by
  constructor
  · intro h
    induction h with
    | nil => exact ⟨[], rfl, .nil⟩
    | cons hr _ ih =>
      rcases ih with ⟨tss, rfl, hs⟩
      exact ⟨_ :: tss, rfl, .cons hr hs⟩
  · intro h
    rcases h with ⟨tss, rfl, h⟩
    induction h with
    | nil => exact .nil
    | cons hr _ ih => exact .cons hr ih

end Sequences

/-! ## Induction on phrases -/

/-- Induction on data: what holds of the items of a list may be used for the list. -/
theorem IsDatum.induct {motive : List Token → Node → Prop}
    (atom : ∀ {t : Token} {n : Node}, IsAtom .data t n → motive [t] n)
    (list : ∀ {start stop : Token} {ts : List Token} {ns : List Node},
      start.kind = .openParen → Each IsDatum ts ns → Each motive ts ns →
      stop.kind = .closeParen → motive (start :: ts ++ [stop]) (.list ns))
    {ts : List Token} {n : Node} (h : IsDatum ts n) : motive ts n :=
  @IsDatum.rec (fun ts n _ => motive ts n) (fun ts ns _ => Each motive ts ns)
    atom (fun hl hs hr ih => list hl hs ih hr) .nil (fun _ _ ih ihs => .cons ih ihs) ts n h

/-- Induction on expressions: what holds of the parts may be used for the whole. -/
theorem IsExpr.induct {motive : List Token → Node → Prop}
    (atom : ∀ {t : Token} {n : Node}, IsAtom .code t n → motive [t] n)
    (lambda : ∀ {head body : List Token} {stop : Token} {names : List String} {n : Node},
      IsHead head names → IsExpr body n → motive body n → stop.kind = .closeParen →
      motive (head ++ body ++ [stop]) (.lambda names n))
    (quote : ∀ {start keyword stop : Token} {ts : List Token} {ns : List Node},
      start.kind = .openParen → keyword.text = "quote" → Each IsDatum ts ns →
      stop.kind = .closeParen →
      motive (start :: keyword :: ts ++ [stop]) (.quote (Token.joinText ts) ns))
    (application : ∀ {start first stop : Token} {fs ts : List Token} {f : Node}
      {ns : List Node}, start.kind = .openParen → ¬ IsKeyword first.text →
      IsExpr (first :: fs) f → motive (first :: fs) f → Each IsExpr ts ns → Each motive ts ns →
      stop.kind = .closeParen →
      motive (start :: (first :: fs) ++ ts ++ [stop]) (.application f ns))
    {ts : List Token} {n : Node} (h : IsExpr ts n) : motive ts n :=
  @IsExpr.rec (fun ts n _ => motive ts n) (fun ts ns _ => Each motive ts ns)
    atom (fun hh hb hr ih => lambda hh hb ih hr) quote
    (fun hl hk hf hs hr ih ihs => application hl hk hf ih hs ihs hr) .nil
    (fun _ _ ih ihs => .cons ih ihs) ts n h

/-! ## Atoms and first tokens -/

theorem IsAtom.kind_ne {mode : Mode} {t : Token} {n : Node} (h : IsAtom mode t n) :
    t.kind ≠ .openParen ∧ t.kind ≠ .closeParen := by
  cases h with
  | integer hk => simp [hk]
  | float hk => simp [hk]
  | string hk => simp [hk]
  | symbol hk => simp [hk]

theorem inRange_iff {n : Int} :
    Node.inRange n = true ↔ Node.minInteger ≤ n ∧ n ≤ Node.maxInteger := by
  simp [Node.inRange]

theorem ofAtom_eq_ok_iff {mode : Mode} {t : Token} {n : Node} :
    Node.ofAtom mode t = .ok n ↔ IsAtom mode t n := by
  constructor
  · intro h
    unfold Node.ofAtom at h
    split at h
    · split at h
      · contradiction
      next m hm =>
        split at h
        · contradiction
        next hr =>
          cases h
          refine .integer ‹_› hm fun hc => inRange_iff.mp ?_
          simpa [hc] using hr
    · split at h
      · contradiction
      next x hx =>
        split at h
        · contradiction
        next hr =>
          cases h
          exact .float ‹_› hx fun hc => by simpa [hc] using hr
    · exact Except.ok.inj h ▸ .string ‹_›
    · exact Except.ok.inj h ▸ .symbol ‹_›
    · contradiction
    · contradiction
  · intro h
    cases h with
    | @integer m hk hn hr =>
      have hr' : ¬ (mode = .code ∧ Node.inRange m = false) := by
        intro h
        rcases h with ⟨hc, hf⟩
        rw [inRange_iff.mpr (hr hc)] at hf
        contradiction
      simp only [Node.ofAtom, hk, hn, if_neg hr']
    | @float x hk hx hr =>
      have hr' : ¬ (mode = .code ∧ x.isFinite = false) := by
        intro h
        rcases h with ⟨hc, hf⟩
        rw [hr hc] at hf
        contradiction
      simp only [Node.ofAtom, hk, hx, if_neg hr']
    | string hk => simp only [Node.ofAtom, hk]
    | symbol hk => simp only [Node.ofAtom, hk]

theorem IsHead.exists_cons {head : List Token} {names : List String} (h : IsHead head names) :
    ∃ start ts, head = start :: ts ∧ start.kind = .openParen := by
  obtain @⟨start, keyword, left, right, ps, hl, _, _, _, _, _⟩ := h
  exact ⟨start, _, rfl, hl⟩

theorem IsDatum.ne_nil {ts : List Token} {n : Node} (h : IsDatum ts n) : ts ≠ [] := by
  cases h with
  | atom _ => simp
  | list _ _ _ => simp

theorem IsExpr.ne_nil {ts : List Token} {n : Node} (h : IsExpr ts n) : ts ≠ [] := by
  cases h with
  | atom _ => simp
  | lambda _ _ _ => simp
  | quote _ _ _ _ => simp
  | application _ _ _ _ _ => simp

/-- A phrase that is a single word begins with this word. -/
theorem IsExpr.word_eq {first : Token} {fs : List Token} {n : Node}
    (h : IsExpr (first :: fs) n) : ∀ word ∈ n.word?, word = first.text := by
  generalize hts : first :: fs = ts at h
  intro word hword
  cases h with
  | atom ha =>
    cases hts
    cases ha with
    | integer _ _ _ | float _ _ _ => contradiction
    | string _ | symbol _ => exact (Option.some.inj hword).symm
  | lambda _ _ _ | quote _ _ _ _ | application _ _ _ _ _ => contradiction

end Grammar

end StackLisp
