import Mathlib.Order.Monotone.Basic
import StackLisp.Proofs.Numeral.Plain

/-!
# Fractions in the scientific layout

The scientific layout denotes the decimal that it was laid out from as well: its exponent is the
power of ten of the first digit, and counting the digits after the point gives the exponent of
the decimal back. A reader that brings exponents far beyond the digits back to a bound does not
touch it, since the powers of ten of finite numbers lie between -324 and 308. So the text of a
finite number in descriptions is read back as this number, too.
-/

namespace StackLisp.Numeral

open Binary64

/-! ## How far exponents go -/

namespace Shortest

theorem units_mono : Monotone units := monotone_nat_of_le_succ fun rank =>
  (units_lt_units_succ rank).le

theorem pow_le_low {rank : Nat} (hr : 0 < rank) : 10 ^ 751 ≤ low rank := by
  have hbelow := units_pred_lt hr
  have hunit : 10 ^ 751 ≤ halfUnit := by
    decide +kernel
  exact hunit.trans (Nat.le_mul_of_pos_left halfUnit (by omega))

theorem high_lt_pow (rank : Fin rankLimit) : high rank < 10 ^ 1384 := by
  have hlast : high rank ≤ (units rankLimit + units rankLimit) * halfUnit :=
    Nat.mul_le_mul_right halfUnit
      (Nat.add_le_add (units_mono rank.isLt.le) (units_mono rank.isLt))
  have hlimit : (units rankLimit + units rankLimit) * halfUnit < 10 ^ 1384 := by
    decide +kernel
  exact hlast.trans_lt hlimit

/-- A number that lies between two powers of ten has a first digit in between, wherever its
digits end. -/
theorem length_toDigits_bounds {point s a b : Nat} (hlow : 10 ^ a ≤ point * 10 ^ s)
    (hhigh : point * 10 ^ s < 10 ^ b) :
    a < (Nat.toDigits 10 point).length + s ∧ (Nat.toDigits 10 point).length + s ≤ b := by
  have hpos : 0 < point := by
    apply Nat.pos_of_ne_zero
    rintro rfl
    rw [Nat.zero_mul] at hlow
    exact absurd hlow (Nat.not_le.mpr (Nat.pow_pos (by decide)))
  constructor
  · have hdigits : point < 10 ^ (Nat.toDigits 10 point).length :=
      (Nat.length_toDigits_le_iff (by decide) Nat.length_toDigits_pos).mp le_rfl
    have hlt : 10 ^ a < 10 ^ ((Nat.toDigits 10 point).length + s) := by
      calc 10 ^ a ≤ point * 10 ^ s := hlow
        _ < 10 ^ (Nat.toDigits 10 point).length * 10 ^ s :=
          Nat.mul_lt_mul_of_pos_right hdigits (Nat.pow_pos (by decide))
        _ = 10 ^ ((Nat.toDigits 10 point).length + s) := (Nat.pow_add _ _ _).symm
    exact (Nat.pow_lt_pow_iff_right (by decide)).mp hlt
  · have hs : s < b := by
      apply (Nat.pow_lt_pow_iff_right (a := 10) (by decide)).mp
      exact (Nat.le_mul_of_pos_left _ hpos).trans_lt hhigh
    have hdigits : point < 10 ^ (b - s) := by
      apply Nat.lt_of_mul_lt_mul_right (a := 10 ^ s)
      rwa [← Nat.pow_add, Nat.sub_add_cancel hs.le]
    have hlength := (Nat.length_toDigits_le_iff (by decide) (Nat.sub_pos_of_lt hs)).mpr hdigits
    omega

end Shortest

/-- The first digit of a finite number is not far from the point. -/
theorem power_shortest (rank : Fin rankLimit) :
    -324 ≤ (shortest rank).power ∧ (shortest rank).power ≤ 308 := by
  rw [Decimal.power, Decimal.digitChars, shortest]
  split
  next => decide
  next h0 =>
    have hr : 0 < rank.val := Nat.pos_of_ne_zero h0
    have hround := Shortest.rounds_descend hr (Nat.toDigits 10 (Shortest.high rank)).length
    generalize Shortest.descend rank _ = found at hround
    rcases found with ⟨point, s⟩
    dsimp only at hround ⊢
    obtain ⟨hlow, hhigh, -⟩ := Shortest.rounds_iff.mp hround
    obtain ⟨hfirst, hlast⟩ := Shortest.length_toDigits_bounds
      ((Shortest.pow_le_low hr).trans hlow) (hhigh.trans_lt (Shortest.high_lt_pow rank))
    have hplaces : Shortest.places = 1075 := rfl
    rw [hplaces]
    omega

/-! ## The layout -/

/-- The digits of the exponent, at least two. -/
def exponentDigits (n : Nat) : List Char :=
  List.replicate (2 - (Nat.toDigits 10 n).length) '0' ++ Nat.toDigits 10 n

theorem isDigits_exponentDigits (n : Nat) : IsDigits (exponentDigits n) := by
  refine ⟨List.append_ne_nil_of_right_ne_nil _ Nat.toDigits_ne_nil, fun c hc => ?_⟩
  rcases List.mem_append.mp hc with hc | hc
  · exact isDigit_of_mem_zeros hc
  · exact (isDigits_toDigits n).2 c hc

theorem ofDigitChars_exponentDigits (n : Nat) :
    Nat.ofDigitChars 10 (exponentDigits n) 0 = n := by
  rw [exponentDigits, Nat.ofDigitChars_append, Nat.ofDigitChars_replicate_zero, Nat.mul_zero,
    Nat.ofDigitChars_ten_toDigits]

/-- The sign of the exponent, which is written in any case. -/
def exponentSign (power : Int) : Char := if power < 0 then '-' else '+'

theorem exponent?_of_power (power : Int) :
    Fraction.exponent? ('e' :: exponentSign power :: exponentDigits power.natAbs) =
      some power := by
  have hsigned : signed (exponentSign power :: exponentDigits power.natAbs) =
      (decide (power < 0), exponentDigits power.natAbs) := by
    unfold exponentSign
    split
    next hneg => rw [decide_eq_true hneg, signed]
    next hpos => rw [decide_eq_false hpos, signed]
  rw [Fraction.exponent?, if_pos (.inl rfl), hsigned]
  dsimp only
  rw [digits?_of_isDigits (isDigits_exponentDigits power.natAbs), Option.map_some,
    ofDigits_map_digitValue, ofDigitChars_exponentDigits, withSign_natAbs]

section Layout
variable {ds : List Char}

theorem scientificLayout_eq (h : ds ≠ []) (power : Int) :
    scientificLayout ds power = ds.take 1 ++ ((pointed (ds.drop 1) ++
      ['e', exponentSign power]) ++ exponentDigits power.natAbs) := by
  obtain ⟨d, es, rfl⟩ := List.exists_cons_of_ne_nil h
  cases es with
  | nil => simp [scientificLayout, pointed, exponentSign, exponentDigits]
  | cons e es => simp [scientificLayout, pointed, exponentSign, exponentDigits]

theorem isDigits_digitChars (x : Decimal) : IsDigits x.digitChars := isDigits_toDigits x.digits

theorem isDigits_take_one (h : IsDigits ds) : IsDigits (ds.take 1) := by
  obtain ⟨d, es, rfl⟩ := List.exists_cons_of_ne_nil h.1
  exact ⟨List.cons_ne_nil d [], List.forall_mem_singleton.mpr (h.2 d List.mem_cons_self)⟩

/-- What the scientific layout of a decimal is taken apart into. -/
def Decimal.fraction (x : Decimal) : Fraction :=
  ⟨(x.digitChars.take 1).map digitValue, (x.digitChars.drop 1).map digitValue, x.power⟩

theorem ofChars?_scientificLayout (x : Decimal) :
    Fraction.ofChars? (scientificLayout x.digitChars x.power) = some x.fraction := by
  have hdigits := isDigits_digitChars x
  rw [scientificLayout_eq hdigits.1, List.append_assoc]
  exact ofChars?_pointed (isDigits_take_one hdigits)
    (fun c hc => hdigits.2 c (List.mem_of_mem_drop hc)) (by simp; decide)
    (exponent?_of_power x.power)

/-- The fraction is written with the digits of the decimal, and no others. -/
structure Fraction.Shows (f : Fraction) (x : Decimal) : Prop where
  digits : ofDigits (f.whole ++ f.part) = x.digits
  exponent : f.exponent - f.part.length = x.exponent

theorem Decimal.shows_fraction (x : Decimal) : x.fraction.Shows x := by
  have hpos : 0 < x.digitChars.length := List.length_pos_iff.mpr (isDigits_digitChars x).1
  constructor
  · rw [Decimal.fraction, ← List.map_append, List.take_append_drop, ofDigits_map_digitValue,
      Decimal.digitChars, Nat.ofDigitChars_ten_toDigits]
  · rw [Decimal.fraction, List.length_map, List.length_drop]
    dsimp only
    rw [Decimal.power]
    omega

/-- An exponent that is not far from the point is read as it is. -/
theorem Decimal.value_fraction (x : Decimal) (negative : Bool) (hlow : -400 ≤ x.power)
    (hhigh : x.power ≤ 400) :
    x.fraction.value negative = ofDecimal negative x.digits x.exponent := by
  have hbound : 400 ≤ x.fraction.exponentBound := Nat.le_add_left 400 _
  have hpower : x.fraction.exponent = x.power := rfl
  have hmin : min x.fraction.exponent x.fraction.exponentBound = x.fraction.exponent := by
    omega
  have hmax : max (-(x.fraction.exponentBound : Int)) x.fraction.exponent =
      x.fraction.exponent := by
    omega
  rw [Fraction.value, hmin, hmax, x.shows_fraction.digits, x.shows_fraction.exponent]

end Layout

/-! ## Reading -/

theorem ofDecimal_shortest (negative : Bool) (rank : Fin rankLimit) :
    ofDecimal negative (shortest rank).digits (shortest rank).exponent =
      .finite negative rank := by
  cases hexponent : (shortest rank).exponent with
  | ofNat e =>
    apply ofRatio_of_isRatio negative Nat.one_pos
    rw [Decimal.IsRatio, hexponent]
    exact (Nat.mul_one _).symm
  | negSucc e =>
    apply ofRatio_of_isRatio negative (Nat.pow_pos (by decide))
    rw [Decimal.IsRatio, hexponent]

/-- The decimal is laid out plainly in descriptions, too. -/
def Decimal.IsPlain (x : Decimal) : Prop := -4 ≤ x.power ∧ x.power < 16

theorem scientificText_eq_plainText (negative : Bool) {rank : Fin rankLimit}
    (h : (shortest rank).IsPlain) :
    scientificText (.finite negative rank) = plainText (.finite negative rank) := by
  have hlayout : (shortest rank).scientific = (shortest rank).plain := if_pos h
  rw [← String.toList_inj, scientificText, plainText, toList_write, toList_write, hlayout]

theorem toList_scientificText (negative : Bool) {rank : Fin rankLimit}
    (h : ¬(shortest rank).IsPlain) :
    (scientificText (.finite negative rank)).toList =
      signChars negative ++ scientificLayout (shortest rank).digitChars (shortest rank).power := by
  have hlayout : (shortest rank).scientific =
      scientificLayout (shortest rank).digitChars (shortest rank).power := if_neg h
  rw [scientificText, toList_write, hlayout]

/-- The text of a finite number in descriptions is read as this number, too. -/
theorem readFraction_scientificText {x : Binary64} (h : x.isFinite = true) :
    readFraction x.scientificText = .ok x := by
  cases x with
  | finite negative rank =>
    by_cases hplain : (shortest rank).IsPlain
    · rw [scientificText_eq_plainText negative hplain]
      exact readFraction_plainText h
    · obtain ⟨hlow, hhigh⟩ := power_shortest rank
      have hdigits := isDigits_digitChars (shortest rank)
      have htext := toList_scientificText negative hplain
      have hparts := ofChars?_scientificLayout (shortest rank)
      have hvalue := (shortest rank).value_fraction negative (by omega) (by omega)
      rw [scientificLayout_eq hdigits.1] at htext hparts
      rw [readFraction_of_ofChars? htext (isDigits_take_one hdigits)
        (isDigits_exponentDigits _) hparts, hvalue, ofDecimal_shortest]
  | infinite negative => contradiction
  | nan => contradiction

end StackLisp.Numeral
