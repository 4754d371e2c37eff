import Mathlib.Algebra.Field.Rat
import Mathlib.Algebra.Order.Ring.Rat
import Mathlib.Tactic.FieldSimp
import Mathlib.Tactic.Positivity
import StackLisp.Proofs.Numeral.Scientific

/-!
# What texts of numbers spell

A decimal text spells a sign and a rational number, whatever binary number is nearest to it. Both
layouts of a finite number spell the same: its sign, also that of zero, and the value of its
shortest decimal. More than that, the plain text comes out of the scientific one when the digits
are laid out again without an exponent, and a point is supplied where there is none.
-/

namespace StackLisp.Numeral

/-! ## Values without rounding -/

/-- The number of a decimal. -/
def Decimal.toRat (x : Decimal) : ℚ := x.digits * 10 ^ x.exponent

/-- The number of a fraction, without rounding. -/
def Fraction.toRat (f : Fraction) : ℚ :=
  ofDigits (f.whole ++ f.part) * 10 ^ (f.exponent - f.part.length)

/-- The sign and the number that a text spells. -/
def spelled? (text : String) : Option (Bool × ℚ) :=
  let (negative, body) := signed text.toList
  (Fraction.ofChars? body).map fun f => (negative, f.toRat)

theorem Decimal.IsRatio.toRat_eq {x : Decimal} {n d : Nat} (h : x.IsRatio n d) (hd : 0 < d) :
    x.toRat = n / d := by
  have hd' : (d : ℚ) ≠ 0 := Nat.cast_ne_zero.mpr hd.ne'
  rw [eq_div_iff hd', Decimal.toRat]
  unfold Decimal.IsRatio at h
  split at h
  next e he =>
    rw [he, h, Int.ofNat_eq_natCast, zpow_natCast]
    push_cast
    rfl
  next e he =>
    have hpow : (10 : ℚ) ^ (e + 1) ≠ 0 := by
      positivity
    have hcast : (n : ℚ) * 10 ^ (e + 1) = x.digits * d := by
      exact_mod_cast h
    rw [he, zpow_negSucc, mul_right_comm, ← hcast, mul_inv_cancel_right₀ hpow]

theorem Fraction.Shows.toRat_eq {f : Fraction} {x : Decimal} (h : f.Shows x) :
    f.toRat = x.toRat := by
  rw [Fraction.toRat, Decimal.toRat, h.digits, h.exponent]

theorem spelled?_of_ofChars? {text : String} {negative : Bool} {ds rest : List Char}
    {f : Fraction} (h : text.toList = signChars negative ++ (ds ++ rest)) (hd : IsDigits ds)
    (hf : Fraction.ofChars? (ds ++ rest) = some f) :
    spelled? text = some (negative, f.toRat) := by
  rw [spelled?, h, signed_append negative hd]
  dsimp only
  rw [hf, Option.map_some]

theorem Denotes.toRat_eq {whole part : List Char} {x : Decimal} (h : Denotes whole part x) :
    Fraction.toRat ⟨whole.map digitValue, part.map digitValue, 0⟩ = x.toRat := by
  rw [h.ratio.toRat_eq (Nat.pow_pos (by decide)), Fraction.toRat, ← List.map_append,
    ofDigits_map_digitValue, List.length_map, zero_sub, zpow_neg, zpow_natCast, div_eq_mul_inv,
    Nat.cast_pow, Nat.cast_ofNat]

open Binary64

/-- The plain text spells the shortest decimal. -/
theorem spelled?_plainText (negative : Bool) (rank : Fin rankLimit) :
    spelled? (plainText (.finite negative rank)) = some (negative, (shortest rank).toRat) := by
  obtain ⟨whole, part, htext, hdenotes⟩ := exists_plainText negative rank
  rw [spelled?_of_ofChars? htext hdenotes.wholeDigits
    (ofChars?_digits hdenotes.wholeDigits hdenotes.partDigits), hdenotes.toRat_eq]

/-- The scientific text spells the shortest decimal. -/
theorem spelled?_scientificText (negative : Bool) (rank : Fin rankLimit) :
    spelled? (scientificText (.finite negative rank)) =
      some (negative, (shortest rank).toRat) := by
  by_cases hplain : (shortest rank).IsPlain
  · rw [scientificText_eq_plainText negative hplain, spelled?_plainText]
  · have hdigits := isDigits_digitChars (shortest rank)
    have htext := toList_scientificText negative hplain
    have hparts := ofChars?_scientificLayout (shortest rank)
    rw [scientificLayout_eq hdigits.1] at htext hparts
    rw [spelled?_of_ofChars? htext (isDigits_take_one hdigits) hparts,
      (shortest rank).shows_fraction.toRat_eq]

/-! ## Laying out again -/

/-- Digits with the point in its place, `exponent` places right of the last one, and no point if
nothing follows it. -/
def fixedLayout (ds : List Char) (exponent : Int) : List Char :=
  let place : Int := ds.length + exponent
  if place ≤ 0 then '0' :: pointed (List.replicate (-place).toNat '0' ++ ds)
  else ds.take place.toNat ++ List.replicate (place.toNat - ds.length) '0' ++
    pointed (ds.drop place.toNat)

/-- Lays out a text again without its exponent. -/
def expand? (cs : List Char) : Option (List Char) :=
  let (negative, body) := signed cs
  (Fraction.ofChars? body).map fun f =>
    signChars negative ++ fixedLayout (Nat.toDigits 10 (ofDigits (f.whole ++ f.part)))
      (f.exponent - f.part.length)

/-- A text is laid out again if it has an exponent, and a point is supplied if there is none. -/
def spellOut? (text : String) : Option String := do
  let cs ← if 'e' ∈ text.toList ∨ 'E' ∈ text.toList then expand? text.toList else some text.toList
  return String.ofList (if '.' ∈ cs then cs else cs ++ ".0".toList)

section Layout
variable {ds : List Char} {c : Char}

theorem not_mem_of_isDigits (h : IsDigits ds) (hc : c.isDigit = false) : c ∉ ds := by
  intro hm
  rw [h.2 c hm] at hc
  contradiction

theorem not_mem_signChars (negative : Bool) (hc : c ≠ '-') : c ∉ signChars negative := by
  cases negative with
  | true => exact List.not_mem_cons_of_ne_of_not_mem hc List.not_mem_nil
  | false => exact List.not_mem_nil

theorem pointed_of_ne_nil (h : ds ≠ []) : pointed ds = '.' :: ds := by
  obtain ⟨d, es, rfl⟩ := List.exists_cons_of_ne_nil h
  rfl

theorem fixedLayout_ofNat (h : IsDigits ds) (e : Nat) :
    fixedLayout ds (.ofNat e) = ds ++ List.replicate e '0' := by
  have hlength : 0 < ds.length := List.length_pos_iff.mpr h.1
  have hplace : ¬((ds.length : Int) + Int.ofNat e ≤ 0) := by
    rw [Int.ofNat_eq_natCast]
    omega
  have hnat : ((ds.length : Int) + Int.ofNat e).toNat = ds.length + e := rfl
  rw [fixedLayout, if_neg hplace, hnat, List.take_of_length_le (Nat.le_add_right _ _),
    List.drop_of_length_le (Nat.le_add_right _ _), Nat.add_sub_cancel_left, pointed,
    List.append_nil]

/-- A negative exponent puts a point somewhere in any case. -/
theorem fixedLayout_negSucc (h : IsDigits ds) (e : Nat) :
    fixedLayout ds (.negSucc e) = plainLayout ds (.negSucc e) := by
  rw [fixedLayout, plainLayout, Int.negSucc_eq]
  by_cases hinside : e + 1 < ds.length
  · have hplace : ¬((ds.length : Int) + -((e : Int) + 1) ≤ 0) := by
      omega
    have hnat : ((ds.length : Int) + -((e : Int) + 1)).toNat = ds.length - (e + 1) := by
      omega
    have hpart : ds.drop (ds.length - (e + 1)) ≠ [] := by
      rw [ne_eq, List.drop_eq_nil_iff]
      omega
    have hzeros : ds.length - (e + 1) - ds.length = 0 := by
      omega
    rw [if_neg hplace, if_pos hinside, hnat, pointed_of_ne_nil hpart, hzeros, List.replicate_zero,
      List.append_nil]
  · have hplace : (ds.length : Int) + -((e : Int) + 1) ≤ 0 := by
      omega
    have hzeros : (-((ds.length : Int) + -((e : Int) + 1))).toNat = e + 1 - ds.length := by
      omega
    have hpart : List.replicate (e + 1 - ds.length) '0' ++ ds ≠ [] :=
      List.append_ne_nil_of_right_ne_nil _ h.1
    rw [if_pos hplace, if_neg hinside, hzeros, pointed_of_ne_nil hpart, List.append_assoc]
    rfl

/-- A point is supplied to a layout without one. -/
theorem plainLayout_eq (h : IsDigits ds) (e : Int) :
    plainLayout ds e =
      if '.' ∈ fixedLayout ds e then fixedLayout ds e else fixedLayout ds e ++ ".0".toList := by
  cases e with
  | ofNat e =>
    have hdigits : IsDigits (ds ++ List.replicate e '0') :=
      isDigits_append h fun c hc => isDigit_of_mem_zeros hc
    rw [fixedLayout_ofNat h, if_neg (not_mem_of_isDigits hdigits rfl), plainLayout]
  | negSucc e =>
    obtain ⟨whole, part, hplain, -⟩ := exists_plainLayout h (.negSucc e)
    have hpoint : '.' ∈ plainLayout ds (.negSucc e) := by
      rw [hplain]
      exact List.mem_append_right whole List.mem_cons_self
    rw [fixedLayout_negSucc h, if_pos hpoint]

/-- An exponent is resolved into the place of the point. -/
theorem expand?_scientificText (negative : Bool) {rank : Fin rankLimit}
    (h : ¬(shortest rank).IsPlain) :
    expand? (scientificText (.finite negative rank)).toList = some (signChars negative ++
      fixedLayout (shortest rank).digitChars (shortest rank).exponent) := by
  have hdigits := isDigits_digitChars (shortest rank)
  have hshows := (shortest rank).shows_fraction
  have hparts := ofChars?_scientificLayout (shortest rank)
  rw [scientificLayout_eq hdigits.1] at hparts
  rw [toList_scientificText negative h, scientificLayout_eq hdigits.1, expand?,
    signed_append negative (isDigits_take_one hdigits)]
  dsimp only
  rw [hparts, Option.map_some, hshows.digits, hshows.exponent, Decimal.digitChars]

/-- The sign makes no difference to whether there is a point. -/
theorem point_signChars (negative : Bool) (cs : List Char) :
    (if '.' ∈ signChars negative ++ cs then signChars negative ++ cs
      else signChars negative ++ cs ++ ".0".toList) =
    signChars negative ++ if '.' ∈ cs then cs else cs ++ ".0".toList := by
  have hsign : '.' ∉ signChars negative := not_mem_signChars negative (by decide)
  by_cases hpoint : '.' ∈ cs
  · rw [if_pos (List.mem_append_right _ hpoint), if_pos hpoint]
  · rw [if_neg (List.not_mem_append hsign hpoint), if_neg hpoint, List.append_assoc]

end Layout

/-! ## The plain text from the scientific one -/

/-- The plain text has no letters. -/
theorem not_mem_plainText (negative : Bool) (rank : Fin rankLimit) {c : Char}
    (hdigit : c.isDigit = false) (hminus : c ≠ '-') (hpoint : c ≠ '.') :
    c ∉ (plainText (.finite negative rank)).toList := by
  obtain ⟨whole, part, htext, hdenotes⟩ := exists_plainText negative rank
  have hwhole : c ∉ whole := not_mem_of_isDigits hdenotes.wholeDigits hdigit
  have hpart : c ∉ '.' :: part :=
    List.not_mem_cons_of_ne_of_not_mem hpoint (not_mem_of_isDigits hdenotes.partDigits hdigit)
  rw [htext]
  exact List.not_mem_append (not_mem_signChars negative hminus) (List.not_mem_append hwhole hpart)

theorem point_mem_plainText (negative : Bool) (rank : Fin rankLimit) :
    '.' ∈ (plainText (.finite negative rank)).toList := by
  obtain ⟨whole, part, htext, -⟩ := exists_plainText negative rank
  rw [htext]
  simp

/-- A text that has a point and no exponent stays as it is. -/
theorem spellOut?_plainText (negative : Bool) (rank : Fin rankLimit) :
    spellOut? (plainText (.finite negative rank)) = some (plainText (.finite negative rank)) := by
  have hexponent : ¬('e' ∈ (plainText (.finite negative rank)).toList ∨
      'E' ∈ (plainText (.finite negative rank)).toList) :=
    not_or.mpr ⟨not_mem_plainText negative rank rfl (by decide) (by decide),
      not_mem_plainText negative rank rfl (by decide) (by decide)⟩
  rw [spellOut?, if_neg hexponent]
  dsimp only [Option.bind_eq_bind, Option.bind_some]
  rw [if_pos (point_mem_plainText negative rank), String.ofList_toList]
  rfl

/-- The plain text is the scientific one with its exponent resolved and a point supplied. -/
theorem spellOut?_scientificText (x : Binary64) :
    spellOut? x.scientificText = some x.plainText := by
  cases x with
  | finite negative rank =>
    by_cases hplain : (shortest rank).IsPlain
    · rw [scientificText_eq_plainText negative hplain]
      exact spellOut?_plainText negative rank
    · have hdigits := isDigits_digitChars (shortest rank)
      have hletter : 'e' ∈ (scientificText (.finite negative rank)).toList := by
        rw [toList_scientificText negative hplain, scientificLayout_eq hdigits.1]
        simp
      rw [spellOut?, if_pos (.inl hletter), expand?_scientificText negative hplain]
      dsimp only [Option.bind_eq_bind, Option.bind_some]
      rw [point_signChars, ← plainLayout_eq hdigits]
      rfl
  | infinite negative =>
    cases negative with
    | true => decide
    | false => decide
  | nan => decide

example : spellOut? "-1.5e-05" = some "-0.000015" := by decide

example : spellOut? "1e+16" = some "10000000000000000.0" := by decide

end StackLisp.Numeral
