/-!
# Ranges of characters

A character class is written down as a list of inclusive ranges of code points. The same
ranges serve the tables of Unicode properties and the sets inside patterns.
-/

namespace StackLisp.Text

/-- The code points from `first` to `last`, both included. -/
structure CharRange where
  first : Nat
  last : Nat
  deriving DecidableEq, Repr

namespace CharRange

def contains (r : CharRange) (c : Char) : Bool :=
  r.first ≤ c.toNat && c.toNat ≤ r.last

/-- The range that holds one character. -/
def single (c : Char) : CharRange := ⟨c.toNat, c.toNat⟩

@[simp] theorem contains_iff (r : CharRange) (c : Char) :
    r.contains c = true ↔ r.first ≤ c.toNat ∧ c.toNat ≤ r.last := by
  simp [contains]

theorem contains_single (a c : Char) : (single a).contains c = true ↔ c = a := by
  rw [contains_iff, single]
  constructor
  · intro h
    exact Char.toNat_inj.mp (Nat.le_antisymm h.2 h.1)
  · rintro rfl
    exact ⟨Nat.le_refl _, Nat.le_refl _⟩

end CharRange

/-- Whether a character lies in one of the ranges. -/
def inRanges (rs : List CharRange) (c : Char) : Bool := rs.any (·.contains c)

@[simp] theorem inRanges_nil (c : Char) : inRanges [] c = false := rfl

@[simp] theorem inRanges_cons (r : CharRange) (rs : List CharRange) (c : Char) :
    inRanges (r :: rs) c = (r.contains c || inRanges rs c) := rfl

end StackLisp.Text
