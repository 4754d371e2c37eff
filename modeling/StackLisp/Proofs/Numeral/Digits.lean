import Mathlib.Data.List.TakeDrop
import StackLisp.Numeral.Fraction
import StackLisp.Numeral.Integer

/-!
# Signs and digits

A sign and a run of ASCII digits, as they are written, are read back by all that numerals are
read with: no margin is found at their ends, the sign is split off, the run of digits is
taken as a whole, and it denotes the number whose digits it shows.
-/

namespace StackLisp.Numeral

open Text (isMargin trim)

def IsSign (cs : List Char) : Prop := cs = [] ∨ cs = ['-']

def IsDigits (cs : List Char) : Prop := cs ≠ [] ∧ ∀ c ∈ cs, c.isDigit = true

/-- The sign of a number, as it is written. -/
def signChars (negative : Bool) : List Char := if negative then ['-'] else []

/-- The value of an ASCII digit. -/
def digitValue (c : Char) : Nat := c.toNat - '0'.toNat

theorem isSign_signChars (negative : Bool) : IsSign (signChars negative) := by
  cases negative with
  | false => exact .inl rfl
  | true => exact .inr rfl

theorem isDigits_toDigits (n : Nat) : IsDigits (Nat.toDigits 10 n) :=
  ⟨Nat.toDigits_ne_nil, fun _ hc => Nat.isDigit_of_mem_toDigits (by decide) (by decide) hc⟩

theorem isDigits_append {ds es : List Char} (hd : IsDigits ds)
    (he : ∀ c ∈ es, c.isDigit = true) : IsDigits (ds ++ es) := by
  refine ⟨List.append_ne_nil_of_left_ne_nil hd.1 es, fun c hc => ?_⟩
  rcases List.mem_append.mp hc with h | h
  · exact hd.2 c h
  · exact he c h

theorem isDigit_iff {c : Char} : c.isDigit = true ↔ 48 ≤ c.toNat ∧ c.toNat ≤ 57 := by
  simp only [Char.isDigit, Bool.and_eq_true, decide_eq_true_eq, UInt32.le_iff_toNat_le,
    ge_iff_le]
  rfl

theorem digit?_of_isDigit {c : Char} (h : c.isDigit = true) : digit? c = some (digitValue c) := by
  obtain ⟨hlow, hhigh⟩ := isDigit_iff.mp h
  have hzero : (decide (0x30 ≤ c.toNat) && decide (c.toNat < 0x30 + 10)) = true := by
    simp only [Bool.and_eq_true, decide_eq_true_eq]
    omega
  have hfind : (zeros.find? fun z => z ≤ c.toNat && c.toNat < z + 10) = some 0x30 :=
    List.find?_cons_of_pos hzero
  rw [digit?, hfind]
  rfl

theorem isDigit_of_isDigit {c : Char} (h : c.isDigit = true) : isDigit c = true := by
  rw [isDigit, digit?_of_isDigit h]
  rfl

theorem isMargin_of_isDigit {c : Char} (h : c.isDigit = true) : isMargin c = false := by
  obtain ⟨hlow, hhigh⟩ := isDigit_iff.mp h
  have hspace : Text.isSpace c = false := Text.isSpace_eq_false (by omega) (by omega)
  rw [isMargin, hspace]
  rfl

/-! ## Reading digits -/

theorem digits?_of_isDigits {ds : List Char} (h : IsDigits ds) :
    digits? ds = some (ds.map digitValue) := by
  rcases h with ⟨hne, hd⟩
  fun_induction digits? ds with
  | case1 => contradiction
  | case2 c =>
    rw [digit?_of_isDigit (hd c List.mem_cons_self)]
    rfl
  | case3 c cs ih =>
    have hline := hd '_' (List.mem_cons_of_mem c List.mem_cons_self)
    contradiction
  | case4 c cs hnil _ ih =>
    have hrec := ih hnil fun d hm => hd d (List.mem_cons_of_mem c hm)
    rw [digit?_of_isDigit (hd c List.mem_cons_self), hrec]
    rfl

theorem ofDigits_map_digitValue (ds : List Char) :
    ofDigits (ds.map digitValue) = Nat.ofDigitChars 10 ds 0 := by
  rw [ofDigits, List.foldl_map]
  rfl

theorem digitSpan_append {ds rest : List Char} (hd : ∀ c ∈ ds, c.isDigit = true)
    (hr : ∀ c ∈ rest.head?, isDigit c = false ∧ c ≠ '_') : digitSpan (ds ++ rest) = (ds, rest) := by
  have hspan : ∀ c ∈ ds, (isDigit c || c == '_') = true := fun c hc => by
    rw [isDigit_of_isDigit (hd c hc), Bool.true_or]
  rw [digitSpan, List.span_eq_takeWhile_dropWhile, List.takeWhile_append_of_pos hspan,
    List.dropWhile_append_of_pos hspan]
  cases rest with
  | nil => rw [List.takeWhile_nil, List.dropWhile_nil, List.append_nil]
  | cons c rest =>
    obtain ⟨hc, hline⟩ := hr c rfl
    have hstop : (isDigit c || c == '_') = false := by simp [hc, hline]
    rw [List.takeWhile_cons_of_neg (by simp [hstop]), List.dropWhile_cons_of_neg (by simp [hstop]),
      List.append_nil]

/-! ## Signs and margins -/

theorem signed_append {ds rest : List Char} (negative : Bool) (hd : IsDigits ds) :
    signed (signChars negative ++ (ds ++ rest)) = (negative, ds ++ rest) := by
  cases negative with
  | true => rfl
  | false =>
    rcases hd with ⟨hne, hd⟩
    obtain ⟨d, ds, rfl⟩ := List.exists_cons_of_ne_nil hne
    have hdigit := hd d List.mem_cons_self
    change signed (d :: (ds ++ rest)) = _
    unfold signed
    split
    next h =>
      rw [(List.cons.inj h).1] at hdigit
      contradiction
    next h =>
      rw [(List.cons.inj h).1] at hdigit
      contradiction
    next => rfl

/-- A numeral does not start with a margin. -/
theorem dropWhile_isMargin {ds rest : List Char} (negative : Bool) (hd : IsDigits ds) :
    (signChars negative ++ (ds ++ rest)).dropWhile isMargin =
      signChars negative ++ (ds ++ rest) := by
  cases negative with
  | true => exact List.dropWhile_cons_of_neg (by decide)
  | false =>
    rcases hd with ⟨hne, hd⟩
    obtain ⟨d, ds, rfl⟩ := List.exists_cons_of_ne_nil hne
    exact List.dropWhile_cons_of_neg (by simp [isMargin_of_isDigit (hd d List.mem_cons_self)])

/-! ## Integers -/

theorem toList_integerText (n : Int) :
    (integerText n).toList = signChars (n < 0) ++ Nat.toDigits 10 n.natAbs := by
  cases n with
  | ofNat n =>
    rw [integerText, String.toList_ofList]
    simp [signChars]
  | negSucc n =>
    rw [integerText, String.toList_ofList]
    simp [signChars, Int.negSucc_lt_zero]

theorem withSign_natAbs (n : Int) : withSign (n < 0) n.natAbs = n := by
  unfold withSign
  split
  next h =>
    rw [decide_eq_true_eq] at h
    omega
  next h =>
    rw [decide_eq_true_eq] at h
    omega

/-- A sign and digits are an integer, unless there are too many digits. -/
theorem readInteger_digits {text : String} {negative : Bool} {ds : List Char}
    (h : text.toList = signChars negative ++ ds) (hd : IsDigits ds) :
    readInteger text =
      if NumeralError.digitLimit < ds.length then .error (.tooManyDigits ds.length)
      else .ok (withSign negative (Nat.ofDigitChars 10 ds 0)) := by
  have hspan : digitSpan (ds ++ []) = (ds, []) := digitSpan_append hd.2 (by simp)
  rw [← List.append_nil ds] at h
  rw [readInteger, h, dropWhile_isMargin _ hd, signed_append _ hd]
  dsimp only
  rw [hspan]
  dsimp only
  rw [digits?_of_isDigits hd]
  dsimp only
  rw [List.length_map, ofDigits_map_digitValue]
  rfl

/-- An integer that can be written is read back. -/
theorem readInteger_of_writeInteger {n : Int} {text : String} (h : writeInteger n = .ok text) :
    readInteger text = .ok n := by
  unfold writeInteger at h
  split at h
  · contradiction
  next hlimit =>
    cases h
    rw [readInteger_digits (toList_integerText n) (isDigits_toDigits n.natAbs), if_neg hlimit,
      Nat.ofDigitChars_ten_toDigits, withSign_natAbs]

end StackLisp.Numeral
