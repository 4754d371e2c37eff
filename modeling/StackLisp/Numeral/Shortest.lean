import StackLisp.Numeral.Binary64

/-!
# The shortest decimal of a binary number

A binary number stands for every real number that rounds to it. Among the decimals in that
interval the one with the fewest digits is taken, and of several the one nearest to the
number itself, an exact half going to the even digit.

A magnitude is a whole multiple of `2 ^ (-1074)` and the ends of its interval are multiples
of half of that, so all of them are whole multiples of `10 ^ (-1075)`. In that measure the
search is a descent through grids: the coarsest grid `10 ^ s` with a point in the interval
has the decimal of fewest digits, and the grid `10 ^ 0` holds the magnitude itself, so the
descent always ends with a point.
-/

namespace StackLisp.Numeral

/-- The number `digits * 10 ^ exponent`. -/
structure Decimal where
  digits : Nat
  exponent : Int
  deriving DecidableEq, Repr

namespace Shortest

/-- All quantities below are multiples of `10 ^ (-places)`. -/
def places : Nat := Binary64.unitPlaces + 1

/-- Half a unit, in multiples of `10 ^ (-places)`. -/
def halfUnit : Nat := Nat.pow 5 places

/-- The magnitude of a rank. -/
def center (rank : Nat) : Nat := 2 * Binary64.units rank * halfUnit

/-- The point half way to the rank below. -/
def low (rank : Nat) : Nat := (Binary64.units (rank - 1) + Binary64.units rank) * halfUnit

/-- The point half way to the rank above. -/
def high (rank : Nat) : Nat := (Binary64.units rank + Binary64.units (rank + 1)) * halfUnit

/-- Whether a point rounds to the rank. The half way points round to even ranks. -/
def rounds (rank x : Nat) : Bool :=
  if rank % 2 = 0 then low rank ≤ x && x ≤ high rank else low rank < x && x < high rank

/-- The point of a grid that rounds to the rank and is nearest to its magnitude, given as a
multiple of the grid's spacing. Only the two neighbours of the magnitude can be nearest. -/
def gridPoint? (rank spacing : Nat) : Option Nat :=
  let below := center rank / spacing
  let fromBelow := center rank % spacing
  if rounds rank (below * spacing) &&
      (2 * fromBelow + below % 2 ≤ spacing || !rounds rank ((below + 1) * spacing)) then
    some below
  else if rounds rank ((below + 1) * spacing) then some (below + 1)
  else none

/-- The point of the coarsest grid among `10 ^ s`, …, `10 ^ 0` that has one, with the
exponent of its grid. -/
def descend (rank : Nat) : (s : Nat) → Nat × Nat
  | 0 => (center rank, 0)
  | s + 1 =>
    match gridPoint? rank (Nat.pow 10 (s + 1)) with
    | some point => (point, s + 1)
    | none => descend rank s

end Shortest

open Shortest in
/-- The shortest decimal of a magnitude. Zero has one digit as well. -/
def shortest (rank : Nat) : Decimal :=
  if rank = 0 then ⟨0, 0⟩
  else
    let (point, s) := descend rank (Nat.toDigits 10 (high rank)).length
    ⟨point, s - places⟩

end StackLisp.Numeral
