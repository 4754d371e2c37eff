import StackLisp.Parse
import StackLisp.Reader.Cursor
import StackLisp.Proofs.Grammar.Soundness

/-!
# The reader accepts exactly the grammar

A list of tokens is parsed into a tree exactly if the grammar derives the tree from all of
it, and read into several trees exactly if it is a concatenation of such lists. Since the
reader is a function, the grammar is unambiguous: neither the tree of a phrase nor the
division of a text into phrases is open to choice.
-/

namespace StackLisp

open Grammar

variable {ts rest : List Token} {n : Node} {ns : List Node}

namespace Reading

theorem form_eq_ok_iff {mode : Mode} :
    form mode ts = .ok (n, rest) ↔ ∃ used, ts = used ++ rest ∧ Spells mode used n :=
  State.run_form_eq_ok_iff

theorem form_of_isExpr (h : IsExpr ts n) (rest : List Token) :
    form .code (ts ++ rest) = .ok (n, rest) :=
  form_eq_ok_iff.mpr ⟨ts, rfl, h⟩

theorem each_of_all (h : all ts = .ok (ns, rest)) : rest = [] ∧ Each IsExpr ts ns := by
  fun_induction all ts generalizing ns rest with
  | case1 ts hempty =>
    obtain rfl := List.isEmpty_iff.mp hempty
    cases h
    exact ⟨rfl, .nil⟩
  | case2 => contradiction
  | case3 ts _ m rest' hform ih =>
    obtain ⟨used, rfl, hs⟩ := form_eq_ok_iff.mp hform
    obtain ⟨⟨ms, rest''⟩, hall, h⟩ := exists_of_bind_eq_ok h
    cases h
    obtain ⟨hr, he⟩ := ih hall
    exact ⟨hr, .cons hs he⟩

/-- Forms in front of other tokens are read, and then those tokens are. -/
theorem all_append (h : Each IsExpr ts ns) (us : List Token) :
    all (ts ++ us) = (all us).map fun p => (ns ++ p.1, p.2) := by
  induction h with
  | nil =>
    rw [List.nil_append]
    cases all us <;> rfl
  | cons hs _ ih =>
    rw [List.append_assoc, all_of_form_ok (form_of_isExpr hs _), ih]
    cases all us <;> rfl

theorem all_of_each (h : Each IsExpr ts ns) : all ts = .ok (ns, []) := by
  have happend := all_append h []
  rw [all_nil, List.append_nil] at happend
  rw [happend, Except.map, List.append_nil]

end Reading

/-- A list of tokens is parsed into what it spells. -/
theorem parse_eq_ok_iff_isExpr : parse ts = .ok n ↔ IsExpr ts n := by
  constructor
  · intro h
    unfold parse at h
    split at h
    next => contradiction
    next m hform =>
      cases h
      obtain ⟨used, rfl, hs⟩ := Reading.form_eq_ok_iff.mp hform
      rw [List.append_nil]
      exact hs
    next => contradiction
  · intro h
    have hform := Reading.form_of_isExpr h []
    rw [List.append_nil] at hform
    rw [parse, hform]

theorem readForms_eq_ok_iff_each : readForms ts = .ok ns ↔ Each IsExpr ts ns := by
  constructor
  · intro h
    unfold readForms at h
    split at h
    next => contradiction
    next ms rest hall =>
      cases h
      exact (Reading.each_of_all hall).2
  · intro h
    rw [readForms, Reading.all_of_each h]

/-- A reader asked for all forms answers with those of its tokens. -/
theorem Reader.call_all_eq_ok_iff :
    ((Reader.ofTokens ts).call .all).1 = .ok (.forms ns) ↔ readForms ts = .ok ns := by
  have hrest : (Reader.ofTokens ts).rest = ts := List.drop_zero
  simp only [Reader.call, Reader.read, hrest, readForms]
  cases Reading.all ts with
  | error e => simp
  | ok p => simp

/-- The tree of a phrase is determined by its tokens. -/
theorem Grammar.IsExpr.unique {m : Node} (hm : IsExpr ts m) (hn : IsExpr ts n) : m = n := by
  rw [← parse_eq_ok_iff_isExpr] at hm hn
  exact Except.ok.inj (hm.symm.trans hn)

/-- No phrase is a proper beginning of another one. -/
theorem Grammar.IsExpr.append_inj {us vs ws : List Token} {m : Node} (hm : IsExpr ts m)
    (hn : IsExpr us n) (h : ts ++ vs = us ++ ws) : ts = us ∧ vs = ws := by
  have h1 := Reading.form_of_isExpr hm vs
  have h2 := Reading.form_of_isExpr hn ws
  rw [h, h2] at h1
  obtain ⟨-, rfl⟩ := Prod.mk.inj (Except.ok.inj h1)
  exact ⟨List.append_cancel_right h, rfl⟩

/-- Tokens can be divided into phrases in one way only. -/
theorem Grammar.division_unique {tss uss : List (List Token)} {ms : List Node}
    (hm : List.Forall₂ IsExpr tss ms) (hn : List.Forall₂ IsExpr uss ns)
    (h : tss.flatten = uss.flatten) : tss = uss := by
  induction hm generalizing uss ns with
  | nil =>
    cases hn with
    | nil => rfl
    | cons hu _ => simp [hu.ne_nil] at h
  | cons ht _ ih =>
    cases hn with
    | nil => simp [ht.ne_nil] at h
    | cons hu hus =>
      obtain ⟨rfl, hrest⟩ := ht.append_inj hu h
      rw [ih hus hrest]

/-- The reader accepts exactly its grammar, and the grammar is unambiguous. -/
theorem reader_accepts_exactly_grammar :
    (∀ ts n, parse ts = .ok n ↔ IsExpr ts n) ∧
    (∀ ts ns, readForms ts = .ok ns ↔
      ∃ tss : List (List Token), ts = tss.flatten ∧ List.Forall₂ IsExpr tss ns) ∧
    (∀ ts ns, ((Reader.ofTokens ts).call .all).1 = .ok (.forms ns) ↔ readForms ts = .ok ns) ∧
    (∀ ts m n, IsExpr ts m → IsExpr ts n → m = n) ∧
    (∀ (tss uss : List (List Token)) ms ns, List.Forall₂ IsExpr tss ms →
      List.Forall₂ IsExpr uss ns → tss.flatten = uss.flatten → tss = uss) := by
  refine ⟨?_, ?_, ?_, ?_, ?_⟩
  · exact fun _ _ => parse_eq_ok_iff_isExpr
  · exact fun _ _ => readForms_eq_ok_iff_each.trans each_iff_forall₂
  · exact fun _ _ => Reader.call_all_eq_ok_iff
  · exact fun _ _ _ => IsExpr.unique
  · exact fun _ _ _ _ => division_unique

end StackLisp
