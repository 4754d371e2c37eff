import Mathlib.Algebra.Group.Nat.Defs
import StackLisp.Numeral.Integer

/-!
# Integers that can be written

Reading an integer and writing it are bounded by the same number of digits, yet the text that
was read is not the text that is written: it has margins, a plus, leading zeros and grouped
digits of any script. None of these makes the canonical numeral the longer one. A sequence of
digits denotes less than the power of ten that has one zero for each of them, so an integer
that was read is written again, whatever its text.
-/

namespace StackLisp.Numeral

/-- The canonical numeral has not too many digits. -/
def IsWritable (n : Int) : Prop := (Nat.toDigits 10 n.natAbs).length ≤ NumeralError.digitLimit

instance (n : Int) : Decidable (IsWritable n) := Nat.decLe _ _

theorem isWritable_iff_lt {n : Int} :
    IsWritable n ↔ n.natAbs < 10 ^ NumeralError.digitLimit :=
  Nat.length_toDigits_le_iff (by decide) (by decide)

theorem writeInteger_of_isWritable {n : Int} (h : IsWritable n) :
    writeInteger n = .ok (integerText n) := by
  rw [writeInteger, if_neg (Nat.not_lt.mpr h)]

/-! ## What digits denote -/

theorem lt_ten_of_digits? {cs : List Char} {ds : List Nat} (h : digits? cs = some ds) :
    ∀ d ∈ ds, d < 10 := by
  fun_induction digits? cs generalizing ds with
  | case1 => contradiction
  | case2 c =>
    obtain ⟨d, hd, rfl⟩ := Option.map_eq_some_iff.mp h
    intro e he
    rw [List.mem_singleton.mp he]
    exact digit?_lt_ten hd
  | case3 c cs ih | case4 c cs _ _ ih =>
    obtain ⟨d, hd, h⟩ := Option.bind_eq_some_iff.mp h
    obtain ⟨es, hes, h⟩ := Option.bind_eq_some_iff.mp h
    cases h
    intro e he
    rcases List.mem_cons.mp he with rfl | he
    · exact digit?_lt_ten hd
    · exact ih hes e he

/-- Each digit multiplies the bound on what the digits before it denote by ten. -/
theorem foldl_digits_lt {ds : List Nat} (h : ∀ d ∈ ds, d < 10) (n : Nat) :
    ds.foldl (fun n d => 10 * n + d) n < (n + 1) * 10 ^ ds.length := by
  induction ds generalizing n with
  | nil => simp
  | cons d ds ih =>
    have hd : d < 10 := h d List.mem_cons_self
    have hrest := ih (fun e he => h e (List.mem_cons_of_mem d he)) (10 * n + d)
    have hbound : 10 * n + d + 1 ≤ (n + 1) * 10 := by
      omega
    calc List.foldl (fun n d => 10 * n + d) n (d :: ds)
        < (10 * n + d + 1) * 10 ^ ds.length := hrest
      _ ≤ (n + 1) * 10 * 10 ^ ds.length := Nat.mul_le_mul_right _ hbound
      _ = (n + 1) * 10 ^ (d :: ds).length := by
        rw [List.length_cons, Nat.pow_succ', Nat.mul_assoc]

theorem ofDigits_lt {ds : List Nat} (h : ∀ d ∈ ds, d < 10) : ofDigits ds < 10 ^ ds.length := by
  have hfold := foldl_digits_lt h 0
  rwa [Nat.zero_add, Nat.one_mul] at hfold

theorem natAbs_withSign (negative : Bool) (n : Nat) : (withSign negative n).natAbs = n := by
  cases negative with
  | false => rfl
  | true => exact Int.natAbs_neg n

/-- What a text denotes is denoted by a sequence of digits that is not too long. -/
theorem exists_digits_of_readInteger {text : String} {n : Int} (h : readInteger text = .ok n) :
    ∃ ds, (∀ d ∈ ds, d < 10) ∧ ds.length ≤ NumeralError.digitLimit ∧ n.natAbs = ofDigits ds := by
  unfold readInteger at h
  dsimp only at h
  split at h
  next => contradiction
  next ds hds =>
    split at h
    next => contradiction
    next hlimit =>
      split at h
      next =>
        cases h
        exact ⟨ds, lt_ten_of_digits? hds, Nat.not_lt.mp hlimit, natAbs_withSign _ _⟩
      next => contradiction

/-- An integer that was read can be written. -/
theorem isWritable_of_readInteger {text : String} {n : Int} (h : readInteger text = .ok n) :
    IsWritable n := by
  obtain ⟨ds, hds, hlength, habs⟩ := exists_digits_of_readInteger h
  rw [isWritable_iff_lt, habs]
  calc ofDigits ds < 10 ^ ds.length := ofDigits_lt hds
    _ ≤ 10 ^ NumeralError.digitLimit := Nat.pow_le_pow_right (by decide) hlength

end StackLisp.Numeral
