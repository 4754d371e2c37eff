import StackLisp.Text.Printable

/-!
# Quoted text

Messages and descriptions show a text between quotes, so that its ends and its invisible
characters can be seen. The quotes are single, unless the text holds a single quote and no
double one. A backslash, and the quote in use, are marked by a backslash; line feed,
carriage return and tab have letters of their own; any other unprintable character is
written by its code point in two, four or eight hexadecimal digits, whichever suffices.
-/

namespace StackLisp.Text.Quoted

/-- The lowest `width` hexadecimal digits of a number, in lower case. -/
def hex : (width : Nat) → Nat → List Char
  | 0, _ => []
  | width + 1, n => hex width (n / 16) ++ [Nat.digitChar (n % 16)]

/-- The code point of a character, as an escape. -/
def codePoint (c : Char) : List Char :=
  if c.toNat < 0x100 then '\\' :: 'x' :: hex 2 c.toNat
  else if c.toNat < 0x10000 then '\\' :: 'u' :: hex 4 c.toNat
  else '\\' :: 'U' :: hex 8 c.toNat

/-- How one character stands between the quotes `mark`. -/
def escape (mark c : Char) : List Char :=
  if c = mark ∨ c = '\\' then ['\\', c]
  else if c = '\n' then ['\\', 'n']
  else if c = '\r' then ['\\', 'r']
  else if c = '\t' then ['\\', 't']
  else if isPrintable c then [c]
  else codePoint c

/-- The quote around a text: a double one exactly if it saves marking a single one. -/
def mark (cs : List Char) : Char :=
  if cs.contains '\x27' && !cs.contains '\x22' then '\x22' else '\x27'

def encode (cs : List Char) : List Char :=
  mark cs :: cs.flatMap (escape (mark cs)) ++ [mark cs]

end Quoted

/-- A text between quotes. -/
def quoted (text : String) : String := String.ofList (Quoted.encode text.toList)

theorem toList_quoted (text : String) : (quoted text).toList = Quoted.encode text.toList :=
  String.toList_ofList

end StackLisp.Text
