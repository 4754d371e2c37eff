import StackLisp.Text.Blank
import StackLisp.Numeral.Digit
import StackLisp.Numeral.Error
import StackLisp.Numeral.Shortest

/-!
# Decimal fractions

The decimal text of a binary floating point number, read and written.

Reading admits margins, a sign, a point anywhere among the digits, an exponent, grouped
digits, and the names of infinity and of the undefined number in any case. Any length of
text is read, and rounded once, to the nearest number.

Two layouts are written from the same shortest digits. The plain one has a point with a
digit on each side of it, whatever the magnitude. The scientific one leaves the plain form
for very small and very large magnitudes.
-/

namespace StackLisp.Numeral

open Text (isMargin trim)

/-- A decimal text by its parts: the digits on both sides of the point and the exponent. -/
structure Fraction where
  whole : List Nat
  part : List Nat
  exponent : Int

namespace Fraction

/-- The digits of a group that may be empty. -/
def group? : List Char → Option (List Nat)
  | [] => some []
  | cs => digits? cs

/-- The exponent at the end of a text, which is absent or complete. -/
def exponent? : List Char → Option Int
  | [] => some 0
  | c :: cs =>
    if c = 'e' ∨ c = 'E' then
      let (negative, body) := signed cs
      (digits? body).map fun ds => withSign negative (ofDigits ds)
    else none

/-- Takes an unsigned text apart. There is a digit before or after the point. -/
def ofChars? (cs : List Char) : Option Fraction := do
  let (whole, rest) := digitSpan cs
  let (part, rest) :=
    match rest with
    | '.' :: rest => digitSpan rest
    | rest => ([], rest)
  if whole.isEmpty && part.isEmpty then none
  else return ⟨← group? whole, ← group? part, ← exponent? rest⟩

/-- An exponent this far beyond the digits decides the value alone: it is infinite or zero. -/
def exponentBound (f : Fraction) : Nat := f.whole.length + f.part.length + 400

/-- The value of a fraction. Exponents beyond the bound are brought back to it, where they
still give infinity or zero. -/
def value (negative : Bool) (f : Fraction) : Binary64 :=
  let exponent := max (-(f.exponentBound : Int)) (min f.exponent f.exponentBound)
  Binary64.ofDecimal negative (ofDigits (f.whole ++ f.part)) (exponent - f.part.length)

end Fraction

/-- The numbers that have names. -/
def named? (negative : Bool) (cs : List Char) : Option Binary64 :=
  let name := cs.map Char.toLower
  if name = "inf".toList ∨ name = "infinity".toList then some (.infinite negative)
  else if name = "nan".toList then some .nan
  else none

/-- The number that a text denotes. -/
def readFraction (text : String) : Except NumeralError Binary64 :=
  let (negative, body) := signed (trim isMargin text.toList)
  match named? negative body with
  | some x => .ok x
  | none =>
    match Fraction.ofChars? body with
    | some f => .ok (f.value negative)
    | none => .error (.notDecimal text)

/-- Lays out digits with a point, `exponent` places right of the last digit, and at least
one digit on each side of the point. -/
def plainLayout (ds : List Char) : (exponent : Int) → List Char
  | .ofNat e => ds ++ List.replicate e '0' ++ ".0".toList
  | .negSucc e =>
    let places := e + 1
    if places < ds.length then
      ds.take (ds.length - places) ++ '.' :: ds.drop (ds.length - places)
    else "0.".toList ++ List.replicate (places - ds.length) '0' ++ ds

/-- Lays out digits with the point after the first one and a power of ten. The exponent has
a sign and at least two digits. -/
def scientificLayout (ds : List Char) (power : Int) : List Char :=
  let mantissa :=
    match ds with
    | d :: e :: rest => d :: '.' :: e :: rest
    | ds => ds
  let sign := if power < 0 then '-' else '+'
  let exponent := Nat.toDigits 10 power.natAbs
  mantissa ++ 'e' :: sign :: List.replicate (2 - exponent.length) '0' ++ exponent

namespace Decimal

def digitChars (d : Decimal) : List Char := Nat.toDigits 10 d.digits

/-- The power of ten of the first digit. -/
def power (d : Decimal) : Int := d.digitChars.length - 1 + d.exponent

def plain (d : Decimal) : List Char := plainLayout d.digitChars d.exponent

/-- Magnitudes from `10 ^ (-4)` and below `10 ^ 16` are laid out plainly. -/
def scientific (d : Decimal) : List Char :=
  if -4 ≤ d.power ∧ d.power < 16 then d.plain else scientificLayout d.digitChars d.power

end Decimal

namespace Binary64

/-- The text of a number, given the layout of its magnitude and the ends of named ones. -/
def write (layout : Decimal → List Char) (nameEnd : List Char) : Binary64 → String
  | .finite negative rank =>
    String.ofList ((if negative then ['-'] else []) ++ layout (shortest rank))
  | .infinite negative =>
    String.ofList ((if negative then ['-'] else []) ++ "inf".toList ++ nameEnd)
  | .nan => String.ofList ("nan".toList ++ nameEnd)

/-- The text of a number in descriptions of trees. -/
def scientificText : Binary64 → String := write Decimal.scientific []

/-- The text of a number in source, which has a point always. -/
def plainText : Binary64 → String := write Decimal.plain ".0".toList

end Binary64

end StackLisp.Numeral
