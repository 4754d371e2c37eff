/-!
# Binary floating point numbers of 64 bits

A finite number is a sign and a rank. The ranks count the finite magnitudes upwards from
zero, so neighbouring numbers have neighbouring ranks. Every finite magnitude is a whole
multiple of the smallest positive one, the unit: the multiple is `units rank`. All
arithmetic on magnitudes is therefore exact arithmetic on natural numbers. Powers are those
that compute, `Nat.pow`.

There is one number `nan`: neither a sign nor a payload of it can be observed.
-/

namespace StackLisp.Numeral

/-- The rank of the first magnitude beyond the finite ones. -/
def rankLimit : Nat := 2047 * Nat.pow 2 52

inductive Binary64 where
  | finite (negative : Bool) (rank : Fin rankLimit)
  | infinite (negative : Bool)
  | nan
  deriving DecidableEq, Repr

namespace Binary64

/-- The unit of magnitudes is `2 ^ (-unitPlaces)`. -/
def unitPlaces : Nat := 1074

/-- The magnitude of a rank, as a multiple of the unit. Ranks come in blocks of
`2 ^ 52`; the spacing of the magnitudes is one in the first two and doubles from block to
block after them. -/
def units (rank : Nat) : Nat :=
  let scale := rank / Nat.pow 2 52 - 1
  (rank - scale * Nat.pow 2 52) * Nat.pow 2 scale

/-- The quotient `n / d`, rounded to the nearest whole number and a half to the even one. -/
def divNearest (n d : Nat) : Nat :=
  n / d + if d < 2 * (n % d) + n / d % 2 then 1 else 0

/-- The rank whose magnitude is nearest to `n / d` units, an exact half going to the even
rank. It may lie beyond the finite ones. -/
def nearestRank (n d : Nat) : Nat :=
  let scale := (n / d).log2 - 52
  scale * Nat.pow 2 52 + divNearest n (d * Nat.pow 2 scale)

/-- The number nearest to `n / d`, with a sign. -/
def ofRatio (negative : Bool) (n d : Nat) : Binary64 :=
  let rank := nearestRank (n * Nat.pow 2 unitPlaces) d
  if h : rank < rankLimit then .finite negative ⟨rank, h⟩ else .infinite negative

/-- The number nearest to `n * 10 ^ exponent`, with a sign. -/
def ofDecimal (negative : Bool) (n : Nat) : (exponent : Int) → Binary64
  | .ofNat e => ofRatio negative (n * Nat.pow 10 e) 1
  | .negSucc e => ofRatio negative n (Nat.pow 10 (e + 1))

def isFinite : Binary64 → Bool
  | .finite .. => true
  | _ => false

/-- Numerical equality: the two zeros are equal, and `nan` is not even equal to itself. -/
def same : Binary64 → Binary64 → Bool
  | .finite s m, .finite t n => m == n && (s == t || m.val == 0)
  | .infinite s, .infinite t => s == t
  | _, _ => false

/-- Numerical equality with an integer, which is exact. -/
def sameInt (n : Int) : Binary64 → Bool
  | .finite negative rank =>
    n.natAbs * Nat.pow 2 unitPlaces == units rank && (negative == decide (n < 0) || n == 0)
  | _ => false

end Binary64

end StackLisp.Numeral
