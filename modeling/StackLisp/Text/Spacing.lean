import StackLisp.Text.Blank

/-!
# Normal spacing

Normal spacing of a source has one space where there was room, none at the ends, none after
an opening and none before a closing parenthesis. Strings are not exempt.
-/

namespace StackLisp.Text.Spacing

/-- Every run of spaces becomes one space. -/
def collapse : List Char → List Char
  | [] => []
  | c :: cs =>
    if isSpace c then
      match collapse cs with
      | ' ' :: rest => ' ' :: rest
      | rest => ' ' :: rest
    else c :: collapse cs

/-- Removes one space after each opening parenthesis. -/
def closeUpAfterOpen : List Char → List Char
  | '(' :: ' ' :: cs => '(' :: closeUpAfterOpen cs
  | c :: cs => c :: closeUpAfterOpen cs
  | [] => []

/-- Removes one space before each closing parenthesis. -/
def closeUpBeforeClose : List Char → List Char
  | ' ' :: ')' :: cs => ')' :: closeUpBeforeClose cs
  | c :: cs => c :: closeUpBeforeClose cs
  | [] => []

def normal (cs : List Char) : List Char :=
  closeUpBeforeClose (closeUpAfterOpen (trim isSpace (collapse cs)))

end Spacing

/-- A source in normal spacing. -/
def normalizeSpacing (source : String) : String := String.ofList (Spacing.normal source.toList)

@[simp] theorem toList_normalizeSpacing (source : String) :
    (normalizeSpacing source).toList = Spacing.normal source.toList := by
  simp [normalizeSpacing]

end StackLisp.Text
