import StackLisp.Text.Quoted

/-!
# What can be wrong with a numeral

Integers are converted to and from decimal text up to a bound on the number of digits.
Binary floating point numbers know no such bound.
-/

namespace StackLisp

inductive NumeralError where
  /-- A text that is no decimal integer. -/
  | notInteger (text : String)
  /-- A text that is no decimal fraction and no name of a number. -/
  | notDecimal (text : String)
  /-- A text with more digits than a decimal integer may have. -/
  | tooManyDigits (count : Nat)
  /-- An integer that has too many digits to be written down. -/
  | tooLong
  deriving DecidableEq, Repr

namespace NumeralError

/-- The greatest number of digits of an integer that is read or written. -/
def digitLimit : Nat := 4300

/-- How many characters of a refused integer text a message shows at most. -/
def shownLength : Nat := 200

def message : NumeralError → String
  | .notInteger text =>
    "invalid literal for int() with base 10: " ++
      String.ofList ((Text.quoted text).toList.take shownLength)
  | .notDecimal text => "could not convert string to float: " ++ Text.quoted text
  | .tooManyDigits count =>
    "Exceeds the limit (4300 digits) for integer string conversion: value has " ++ count.repr ++
      " digits; use sys.set_int_max_str_digits() to increase the limit"
  | .tooLong =>
    "Exceeds the limit (4300 digits) for integer string conversion; " ++
      "use sys.set_int_max_str_digits() to increase the limit"

end NumeralError

end StackLisp
