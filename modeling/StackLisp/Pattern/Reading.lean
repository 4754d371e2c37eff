import StackLisp.Pattern.Basic

/-!
# The text of a pattern

A pattern is written as a regular expression: characters that stand for themselves, a point
for any character but the line feed, classes in brackets, and after each of them `?`, `*` or
`+` at will. A backslash takes the special meaning from a character. Alternatives, groups
and anchors are not part of it.
-/

namespace StackLisp.Pattern

open Text (CharRange)

/-- The character that stands behind a backslash. Letters and digits have no plain meaning
there, except those of the control characters. -/
def escaped? (c : Char) : Option Char :=
  if c = 'n' then some '\n'
  else if c = 't' then some '\t'
  else if c = 'r' then some '\r'
  else if c.isAlphanum then none
  else some c

/-- The characters that do not stand for themselves outside a class. -/
def isSpecial (c : Char) : Bool := "\\[.^$*+?\x7b()|".toList.contains c

/-- Any character but the line feed. -/
def anyInLine : CharSet := ⟨true, [.single '\n']⟩

def singleton (c : Char) : CharSet := ⟨false, [.single c]⟩

/-- Lets the last piece, which occurs once so far, occur the given number of times. -/
def repeatLast? (times : Times) : List Piece → Option (List Piece)
  | ⟨set, .once⟩ :: ps => some (⟨set, times⟩ :: ps)
  | _ => none

/-- Reads the text of a pattern. The pieces so far are given last first; `open?` is the
class that is being read, with its ranges so far. -/
def readPieces : (open? : Option CharSet) → List Piece → List Char → Option (List Piece)
  | none, ps, [] => some ps.reverse
  | none, ps, '\\' :: c :: cs => do
    readPieces none (⟨singleton (← escaped? c), .once⟩ :: ps) cs
  | none, ps, '[' :: '^' :: cs => readPieces (some ⟨true, []⟩) ps cs
  | none, ps, '[' :: cs => readPieces (some ⟨false, []⟩) ps cs
  | none, ps, '.' :: cs => readPieces none (⟨anyInLine, .once⟩ :: ps) cs
  | none, ps, '?' :: cs => do readPieces none (← repeatLast? .optional ps) cs
  | none, ps, '*' :: cs => do readPieces none (← repeatLast? .star ps) cs
  | none, ps, '+' :: cs => do readPieces none (← repeatLast? .plus ps) cs
  | none, ps, c :: cs =>
    if isSpecial c then none else readPieces none (⟨singleton c, .once⟩ :: ps) cs
  | some _, _, [] => none
  | some set, ps, ']' :: cs =>
    if set.ranges.isEmpty then none
    else readPieces none (⟨⟨set.negated, set.ranges.reverse⟩, .once⟩ :: ps) cs
  | some set, ps, '\\' :: c :: cs => do
    readPieces (some ⟨set.negated, .single (← escaped? c) :: set.ranges⟩) ps cs
  | some set, ps, a :: '-' :: ']' :: cs =>
    readPieces none
      (⟨⟨set.negated, (.single '-' :: .single a :: set.ranges).reverse⟩, .once⟩ :: ps) cs
  | some set, ps, a :: '-' :: b :: cs =>
    if b = '\\' || a = '\\' || b.toNat < a.toNat then none
    else readPieces (some ⟨set.negated, ⟨a.toNat, b.toNat⟩ :: set.ranges⟩) ps cs
  | some set, ps, a :: cs =>
    if a = '\\' then none
    else readPieces (some ⟨set.negated, .single a :: set.ranges⟩) ps cs

def ofText? (text : String) : Option Pattern :=
  (readPieces none [] text.toList).map (⟨text, ·⟩)

end StackLisp.Pattern
