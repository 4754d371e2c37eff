import StackLisp.Proofs.Numeral.Rounding

/-!
# The shortest decimal rounds back

Every point that the descent through the grids can end with lies in the interval of the
rank, whichever grid it is taken from. Any decimal text with the value of this point is
therefore rounded to the rank again.
-/

namespace StackLisp.Numeral

open Binary64

namespace Shortest

theorem halfUnit_eq : halfUnit = 5 ^ (unitPlaces + 1) := by
  delta halfUnit places
  generalize unitPlaces + 1 = k
  rfl

theorem halfUnit_pos : 0 < halfUnit := by
  rw [halfUnit_eq]
  exact Nat.pow_pos (by decide)

theorem units_pred_lt {rank : Nat} (hr : 0 < rank) : units (rank - 1) < units rank := by
  have h := units_lt_units_succ (rank - 1)
  rwa [Nat.sub_add_cancel hr] at h

theorem rounds_center {rank : Nat} (hr : 0 < rank) : rounds rank (center rank) = true := by
  have hbelow := units_pred_lt hr
  have habove := units_lt_units_succ rank
  have hlow : low rank < center rank := Nat.mul_lt_mul_of_pos_right (by omega) halfUnit_pos
  have hhigh : center rank < high rank := Nat.mul_lt_mul_of_pos_right (by omega) halfUnit_pos
  unfold rounds
  split
  · simp [hlow.le, hhigh.le]
  · simp [hlow, hhigh]

theorem rounds_gridPoint? {rank spacing point : Nat} (h : gridPoint? rank spacing = some point) :
    rounds rank (point * spacing) = true := by
  unfold gridPoint? at h
  dsimp only at h
  split at h
  next hb =>
    cases h
    exact (Bool.and_eq_true_iff.mp hb).1
  next =>
    split at h
    next ha =>
      cases h
      exact ha
    next => contradiction

/-- Wherever the descent starts, the point it ends with rounds to the rank. -/
theorem rounds_descend {rank : Nat} (hr : 0 < rank) (start : Nat) :
    rounds rank ((descend rank start).1 * 10 ^ (descend rank start).2) = true := by
  induction start with
  | zero =>
    rw [descend, Nat.pow_zero, Nat.mul_one]
    exact rounds_center hr
  | succ start ih =>
    unfold descend
    split
    next hp => exact rounds_gridPoint? hp
    next => exact ih

theorem rounds_iff {rank x : Nat} :
    rounds rank x = true ↔ low rank ≤ x ∧ x ≤ high rank ∧
      (rank % 2 = 1 → low rank < x ∧ x < high rank) := by
  unfold rounds
  split
  next h => simp [h]
  next h =>
    rw [Bool.and_eq_true, decide_eq_true_eq, decide_eq_true_eq]
    exact ⟨fun hx => ⟨hx.1.le, hx.2.le, fun _ => hx⟩, fun hx => hx.2.2 (by omega)⟩

theorem two_mul_five_pow (n k : Nat) : 2 * (n * 2 ^ k) * 5 ^ (k + 1) = n * 10 ^ (k + 1) := by
  rw [show 10 = 2 * 5 from rfl, Nat.mul_pow, Nat.pow_succ 2 k]
  ring

/-- A point that rounds to a rank, written as a ratio, is nearest to the rank. The point
counts multiples of `10 ^ (-places)`. -/
theorem isNearest_of_rounds {rank x n d : Nat} (h : rounds rank x = true) (hd : 0 < d)
    (hx : n * 10 ^ places = x * d) : IsNearest (n * 2 ^ unitPlaces) d rank := by
  have hratio : 2 * (n * 2 ^ unitPlaces) * halfUnit = x * d := by
    rw [halfUnit_eq, two_mul_five_pow, ← hx, places]
  have hscale : ∀ u, d * u * halfUnit = u * halfUnit * d := fun u => by ring
  obtain ⟨hlow, hhigh, hodd⟩ := rounds_iff.mp h
  constructor
  · refine Nat.le_of_mul_le_mul_right ?_ halfUnit_pos
    rw [hratio, hscale]
    exact Nat.mul_le_mul_right d hlow
  · refine Nat.le_of_mul_le_mul_right ?_ halfUnit_pos
    rw [hratio, hscale]
    exact Nat.mul_le_mul_right d hhigh
  · intro ho
    constructor
    · apply Nat.lt_of_mul_lt_mul_right (a := halfUnit)
      rw [hratio, hscale]
      exact Nat.mul_lt_mul_of_pos_right (hodd ho).1 hd
    · apply Nat.lt_of_mul_lt_mul_right (a := halfUnit)
      rw [hratio, hscale]
      exact Nat.mul_lt_mul_of_pos_right (hodd ho).2 hd

end Shortest

/-- The number that a decimal stands for, as a ratio of whole numbers. -/
def Decimal.IsRatio (x : Decimal) (n d : Nat) : Prop :=
  match x.exponent with
  | .ofNat e => n = x.digits * 10 ^ e * d
  | .negSucc e => n * 10 ^ (e + 1) = x.digits * d

theorem Decimal.IsRatio.mul_pow {digits s p n d : Nat}
    (h : Decimal.IsRatio ⟨digits, s - p⟩ n d) : n * 10 ^ p = digits * 10 ^ s * d := by
  generalize he : (s : Int) - p = exponent at h
  cases exponent with
  | ofNat e =>
    have hs : s = p + e := by
      rw [Int.ofNat_eq_natCast] at he
      omega
    have hn : n = digits * 10 ^ e * d := h
    rw [hn, hs, Nat.pow_add]
    ring
  | negSucc e =>
    have hp : p = e + 1 + s := by omega
    have hn : n * 10 ^ (e + 1) = digits * d := h
    rw [hp, Nat.pow_add, ← Nat.mul_assoc, hn]
    ring

/-- Any ratio equal to the shortest decimal of a rank is rounded to the rank. -/
theorem nearestRank_of_isRatio {rank n d : Nat} (hd : 0 < d) (h : (shortest rank).IsRatio n d) :
    nearestRank (n * 2 ^ unitPlaces) d = rank := by
  rw [shortest] at h
  split at h
  next h0 =>
    have hn : n = 0 := by simpa [Decimal.IsRatio] using h
    rw [hn, Nat.zero_mul, h0]
    exact nearestRank_zero d
  next h0 =>
    have hr : 0 < rank := Nat.pos_of_ne_zero h0
    have hround := Shortest.rounds_descend hr (Nat.toDigits 10 (Shortest.high rank)).length
    generalize Shortest.descend rank _ = found at h hround
    rcases found with ⟨point, s⟩
    have hx : n * 10 ^ Shortest.places = point * 10 ^ s * d := Decimal.IsRatio.mul_pow h
    exact nearestRank_eq hd hr (Shortest.isNearest_of_rounds hround hd hx)

/-- The shortest decimal of a finite number, as any ratio, gives the number back. -/
theorem ofRatio_of_isRatio (negative : Bool) {rank : Fin rankLimit} {n d : Nat} (hd : 0 < d)
    (h : (shortest rank).IsRatio n d) : ofRatio negative n d = .finite negative rank := by
  have hrank := nearestRank_of_isRatio hd h
  rw [ofRatio, Nat.pow_eq]
  simp only [hrank, rank.isLt, dite_true]

end StackLisp.Numeral
