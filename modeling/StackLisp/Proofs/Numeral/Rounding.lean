import Mathlib.Tactic.Ring
import StackLisp.Numeral.Shortest

/-!
# Rounding to the nearest number

A rank above zero is a block and a multiple of the spacing of that block: every magnitude is
`m * 2 ^ s` units, and the one above it is `(m + 1) * 2 ^ s`. A ratio that lies between the
half way points around a magnitude is rounded to the rank of this magnitude. The only
difficulty is the first magnitude of a block, below which the spacing is half as wide: a
ratio just below it is scaled like the block before, and carries into the next one.
-/

namespace StackLisp.Numeral.Binary64

theorem units_eq (rank : Nat) :
    units rank = (rank - (rank / 2 ^ 52 - 1) * 2 ^ 52) * 2 ^ (rank / 2 ^ 52 - 1) := rfl

theorem nearestRank_def (n d : Nat) :
    nearestRank n d =
      ((n / d).log2 - 52) * 2 ^ 52 + divNearest n (d * 2 ^ ((n / d).log2 - 52)) := rfl

/-- The magnitude of a rank that is written as a block and a multiple. The multiple may be
one too many for the block. -/
theorem units_block {s m : Nat} (hm : s = 0 ∨ 2 ^ 52 ≤ m) (hlt : m ≤ 2 ^ 53) :
    units (s * 2 ^ 52 + m) = m * 2 ^ s := by
  rcases Nat.lt_or_ge m (2 ^ 53) with h | h
  · have hscale : (s * 2 ^ 52 + m) / 2 ^ 52 - 1 = s := by omega
    rw [units_eq, hscale, Nat.add_sub_cancel_left]
  · have hscale : (s * 2 ^ 52 + m) / 2 ^ 52 - 1 = s + 1 := by omega
    have hm : s * 2 ^ 52 + m - (s + 1) * 2 ^ 52 = 2 ^ 52 := by omega
    have h53 : m = 2 ^ 53 := Nat.le_antisymm hlt h
    rw [units_eq, hscale, hm, h53, Nat.pow_succ]
    ring

/-- Every rank is a block and a multiple that fits the block. -/
theorem exists_block (rank : Nat) :
    ∃ s m, rank = s * 2 ^ 52 + m ∧ (s = 0 ∨ 2 ^ 52 ≤ m) ∧ m < 2 ^ 53 :=
  ⟨rank / 2 ^ 52 - 1, rank - (rank / 2 ^ 52 - 1) * 2 ^ 52, by omega, by omega, by omega⟩

theorem units_lt_units_succ (rank : Nat) : units rank < units (rank + 1) := by
  obtain ⟨s, m, rfl, hm, hlt⟩ := exists_block rank
  have hsucc : units (s * 2 ^ 52 + (m + 1)) = (m + 1) * 2 ^ s :=
    units_block (by omega) (by omega)
  rw [Nat.add_assoc, hsucc, units_block hm hlt.le]
  exact Nat.mul_lt_mul_of_pos_right (Nat.lt_succ_self m) (Nat.two_pow_pos s)

/-- A quotient within one half of `m` is rounded to `m`; one half away from it only if `m` is
even. -/
theorem divNearest_eq {n d m : Nat} (hlow : 2 * (d * m) ≤ 2 * n + d)
    (hhigh : 2 * n ≤ 2 * (d * m) + d)
    (hodd : m % 2 = 1 → 2 * (d * m) < 2 * n + d ∧ 2 * n < 2 * (d * m) + d) (hd : 0 < d) :
    divNearest n d = m := by
  have hdiv := Nat.div_add_mod n d
  have hmod := Nat.mod_lt n hd
  have hle : n / d ≤ m := by
    apply Nat.le_of_not_lt
    intro h
    have hmul : d * (m + 1) ≤ d * (n / d) := Nat.mul_le_mul_left d h
    rw [Nat.mul_succ] at hmul
    omega
  have hge : m ≤ n / d + 1 := by
    apply Nat.le_of_not_lt
    intro h
    have hmul : d * (n / d + 1 + 1) ≤ d * m := Nat.mul_le_mul_left d h
    rw [Nat.mul_succ, Nat.mul_succ] at hmul
    omega
  rcases Nat.eq_or_lt_of_le hle with h | h
  · rw [h] at hdiv
    rw [divNearest, h, if_neg (by omega)]
    rfl
  · have hm : m = n / d + 1 := by omega
    have hmul : d * m = d * (n / d) + d := by rw [hm, Nat.mul_succ]
    rw [divNearest, if_pos (by omega), hm]

theorem log2_eq {n k : Nat} (hlow : 2 ^ k ≤ n) (hhigh : n < 2 ^ (k + 1)) : n.log2 = k :=
  (Nat.log2_eq_iff (by have := Nat.two_pow_pos k; omega)).mpr ⟨hlow, hhigh⟩

/-- The ratio `n / d` lies between the half way points around the magnitude of a rank, and is
one of them only if the rank is even. -/
structure IsNearest (n d rank : Nat) : Prop where
  low : d * (units (rank - 1) + units rank) ≤ 2 * n
  high : 2 * n ≤ d * (units rank + units (rank + 1))
  odd : rank % 2 = 1 → d * (units (rank - 1) + units rank) < 2 * n ∧
    2 * n < d * (units rank + units (rank + 1))

theorem nearestRank_of_block {n d s m : Nat} (hs : (n / d).log2 - 52 = s)
    (hm : divNearest n (d * 2 ^ s) = m) : nearestRank n d = s * 2 ^ 52 + m := by
  rw [nearestRank_def, hs, hm]

section Blocks
variable {n d s m : Nat}

theorem IsNearest.high_block (h : IsNearest n d (s * 2 ^ 52 + m)) (hm : s = 0 ∨ 2 ^ 52 ≤ m)
    (hlt : m < 2 ^ 53) :
    2 * n ≤ 2 * (d * 2 ^ s * m) + d * 2 ^ s ∧
      (m % 2 = 1 → 2 * n < 2 * (d * 2 ^ s * m) + d * 2 ^ s) := by
  have hsum : d * (units (s * 2 ^ 52 + m) + units (s * 2 ^ 52 + m + 1)) =
      2 * (d * 2 ^ s * m) + d * 2 ^ s := by
    have hsucc : units (s * 2 ^ 52 + (m + 1)) = (m + 1) * 2 ^ s :=
      units_block (by omega) (by omega)
    rw [Nat.add_assoc, hsucc, units_block hm hlt.le]
    ring
  rw [← hsum]
  exact ⟨h.high, fun hodd => (h.odd (by omega)).2⟩

/-- Inside a block the rank below has the same spacing. -/
theorem IsNearest.low_block (h : IsNearest n d (s * 2 ^ 52 + m)) (hpos : 0 < m)
    (hm : s = 0 ∨ 2 ^ 52 < m) (hlt : m < 2 ^ 53) :
    2 * (d * 2 ^ s * m) ≤ 2 * n + d * 2 ^ s ∧
      (m % 2 = 1 → 2 * (d * 2 ^ s * m) < 2 * n + d * 2 ^ s) := by
  obtain ⟨k, rfl⟩ := Nat.exists_eq_add_of_lt hpos
  have hpred : s * 2 ^ 52 + (0 + k + 1) - 1 = s * 2 ^ 52 + k := by omega
  have hsum : d * (units (s * 2 ^ 52 + (0 + k + 1) - 1) + units (s * 2 ^ 52 + (0 + k + 1))) +
      d * 2 ^ s = 2 * (d * 2 ^ s * (0 + k + 1)) := by
    rw [hpred, units_block (by omega) (by omega), units_block (by omega) hlt.le]
    ring
  rw [← hsum]
  exact ⟨Nat.add_le_add_right h.low _, fun hodd =>
    Nat.add_lt_add_right (h.odd (by omega)).1 _⟩

/-- Below the first magnitude of a block the spacing is that of the block before. -/
theorem IsNearest.low_first (h : IsNearest n d ((s + 1) * 2 ^ 52 + 2 ^ 52)) :
    2 * (d * 2 ^ s * 2 ^ 53) ≤ 2 * n + d * 2 ^ s := by
  have hpred : (s + 1) * 2 ^ 52 + 2 ^ 52 - 1 = s * 2 ^ 52 + (2 ^ 53 - 1) := by omega
  have hsum : d * (units ((s + 1) * 2 ^ 52 + 2 ^ 52 - 1) + units ((s + 1) * 2 ^ 52 + 2 ^ 52)) +
      d * 2 ^ s = 2 * (d * 2 ^ s * 2 ^ 53) := by
    rw [hpred, units_block (by omega) (by omega), units_block (by omega) (by omega), Nat.pow_succ]
    ring
  rw [← hsum]
  exact Nat.add_le_add_right h.low _

/-- A ratio that is near to a rank does not lie beyond the block of this rank. -/
theorem IsNearest.div_lt (h : IsNearest n d (s * 2 ^ 52 + m)) (hd : 0 < d)
    (hm : s = 0 ∨ 2 ^ 52 ≤ m) (hlt : m < 2 ^ 53) : n / d < 2 ^ (52 + s + 1) := by
  apply Nat.div_lt_of_lt_mul
  have hpow : d * 2 ^ (52 + s + 1) = 2 ^ 53 * (d * 2 ^ s) := by ring
  have hmul : d * 2 ^ s * m ≤ d * 2 ^ s * (2 ^ 53 - 1) := Nat.mul_le_mul_left _ (by omega)
  have hpos : 0 < d * 2 ^ s := Nat.mul_pos hd (Nat.two_pow_pos s)
  have hhigh := (h.high_block hm hlt).1
  omega

/-- A ratio that is scaled like the block of its rank is rounded to this rank. -/
theorem IsNearest.nearestRank_eq_of_scale (h : IsNearest n d (s * 2 ^ 52 + m)) (hd : 0 < d)
    (hpos : 0 < m) (hm : s = 0 ∨ 2 ^ 52 ≤ m) (hlt : m < 2 ^ 53)
    (hscale : (n / d).log2 - 52 = s) (hn : s = 0 ∨ 2 ^ 52 * (d * 2 ^ s) ≤ n) :
    nearestRank n d = s * 2 ^ 52 + m := by
  apply nearestRank_of_block hscale
  have hunit : 0 < d * 2 ^ s := Nat.mul_pos hd (Nat.two_pow_pos s)
  obtain ⟨hhigh, hodd⟩ := h.high_block hm hlt
  by_cases hinside : s = 0 ∨ 2 ^ 52 < m
  · obtain ⟨hlow, hodd'⟩ := h.low_block hpos hinside hlt
    exact divNearest_eq hlow hhigh (fun ho => ⟨hodd' ho, hodd ho⟩) hunit
  · have hfirst : m = 2 ^ 52 := by omega
    subst hfirst
    exact divNearest_eq (by omega) hhigh (by omega) hunit

/-- Among the magnitudes of a block only the first is near to ratios below the block. -/
theorem IsNearest.eq_first (h : IsNearest n d ((s + 1) * 2 ^ 52 + m)) (hd : 0 < d)
    (hm : 2 ^ 52 ≤ m) (hlt : m < 2 ^ 53) (hn : n < 2 ^ 53 * (d * 2 ^ s)) : m = 2 ^ 52 := by
  apply Nat.le_antisymm _ hm
  apply Nat.le_of_not_lt
  intro hgt
  have hlow := (h.low_block (by omega) (.inr hgt) hlt).1
  have hdouble : d * 2 ^ (s + 1) = 2 * (d * 2 ^ s) := by ring
  have hmul : d * 2 ^ (s + 1) * (2 ^ 52 + 1) ≤ d * 2 ^ (s + 1) * m :=
    Nat.mul_le_mul_left _ hgt
  have hpos : 0 < d * 2 ^ s := Nat.mul_pos hd (Nat.two_pow_pos s)
  omega

/-- A ratio just below a block is scaled like the block before, and carries. -/
theorem IsNearest.nearestRank_eq_of_carry (h : IsNearest n d ((s + 1) * 2 ^ 52 + 2 ^ 52))
    (hd : 0 < d) (hn : n < 2 ^ 53 * (d * 2 ^ s)) :
    nearestRank n d = (s + 1) * 2 ^ 52 + 2 ^ 52 := by
  have hpos : 0 < d * 2 ^ s := Nat.mul_pos hd (Nat.two_pow_pos s)
  have hlow := h.low_first
  have hlt : n / d < 2 ^ (52 + s + 1) := by
    apply Nat.div_lt_of_lt_mul
    have hpow : d * 2 ^ (52 + s + 1) = 2 ^ 53 * (d * 2 ^ s) := by ring
    rwa [hpow]
  have hge : 2 ^ (52 + s) ≤ n / d := by
    apply (Nat.le_div_iff_mul_le hd).mpr
    have hpow : 2 ^ (52 + s) * d = 2 ^ 52 * (d * 2 ^ s) := by ring
    omega
  have hscale : (n / d).log2 - 52 = s := by
    rw [log2_eq hge hlt]
    omega
  have hdiv : divNearest n (d * 2 ^ s) = 2 ^ 53 :=
    divNearest_eq hlow (by omega) (by omega) hpos
  rw [nearestRank_of_block hscale hdiv]
  omega

end Blocks

/-- A ratio is rounded to the rank whose magnitude it is nearest to. -/
theorem nearestRank_eq {n d rank : Nat} (hd : 0 < d) (hr : 0 < rank) (h : IsNearest n d rank) :
    nearestRank n d = rank := by
  obtain ⟨s, m, rfl, hm, hlt⟩ := exists_block rank
  have hpow : 2 ^ (52 + s) * d = 2 ^ 52 * (d * 2 ^ s) := by ring
  have hdiv : n / d < 2 ^ (52 + s + 1) := h.div_lt hd hm hlt
  rcases Nat.lt_or_ge (n / d) (2 ^ (52 + s)) with hlow | hlow
  · cases s with
    | zero =>
      have hscale : (n / d).log2 - 52 = 0 := by
        rcases Nat.eq_zero_or_pos (n / d) with h0 | h0
        · rw [h0]
          rfl
        · have hlog := (Nat.log2_lt h0.ne').mpr hdiv
          omega
      exact h.nearestRank_eq_of_scale hd (by omega) (.inl rfl) hlt hscale (.inl rfl)
    | succ s =>
      have hn : n < 2 ^ 53 * (d * 2 ^ s) := by
        have hdouble : d * 2 ^ (s + 1) = 2 * (d * 2 ^ s) := by ring
        have hmul := (Nat.div_lt_iff_lt_mul hd).mp hlow
        omega
      have hfirst : m = 2 ^ 52 := h.eq_first hd (by omega) hlt hn
      subst hfirst
      exact h.nearestRank_eq_of_carry hd hn
  · have hn : 2 ^ (52 + s) * d ≤ n := (Nat.le_div_iff_mul_le hd).mp hlow
    have hscale : (n / d).log2 - 52 = s := by
      rw [log2_eq hlow hdiv]
      omega
    rw [hpow] at hn
    exact h.nearestRank_eq_of_scale hd (by omega) hm hlt hscale (.inr hn)

theorem nearestRank_zero (d : Nat) : nearestRank 0 d = 0 := by
  simp [nearestRank_def, divNearest]

end StackLisp.Numeral.Binary64
