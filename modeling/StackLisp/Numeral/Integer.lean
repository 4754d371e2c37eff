import StackLisp.Text.Blank
import StackLisp.Numeral.Digit
import StackLisp.Numeral.Error

/-!
# Decimal integers

Reading admits margins, a sign, leading zeros and grouped digits. Writing gives the one
canonical numeral: a minus for negative numbers and no leading zeros.
-/

namespace StackLisp.Numeral

open Text (isMargin)

/-- The integer that a text denotes. A group with too many digits is refused before what
follows it is looked at. -/
def readInteger (text : String) : Except NumeralError Int :=
  let (negative, body) := signed (text.toList.dropWhile isMargin)
  let (group, rest) := digitSpan body
  match digits? group with
  | none => .error (.notInteger text)
  | some ds =>
    if NumeralError.digitLimit < ds.length then .error (.tooManyDigits ds.length)
    else if rest.all isMargin then .ok (withSign negative (ofDigits ds))
    else .error (.notInteger text)

/-- The canonical numeral of an integer. -/
def integerText : Int → String
  | .ofNat n => String.ofList (Nat.toDigits 10 n)
  | .negSucc n => String.ofList ('-' :: Nat.toDigits 10 (n + 1))

/-- Writes an integer that has not too many digits. -/
def writeInteger (n : Int) : Except NumeralError String :=
  if NumeralError.digitLimit < (Nat.toDigits 10 n.natAbs).length then .error .tooLong
  else .ok (integerText n)

end StackLisp.Numeral
