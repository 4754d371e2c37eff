import StackLisp.Text.CharRange

/-!
# Patterns

A pattern is a sequence of pieces; a piece is a set of characters with the number of times
it may occur. Matching starts at the front of a text and is greedy with backtracking: each
piece takes as many characters as it can, and gives them back one by one as long as what
follows it finds no match.

Tokens may be described by other means too. All that scanning needs is a recognizer, which
looks at a text around a place and says how much it takes there.
-/

namespace StackLisp

open Text (CharRange inRanges)

/-- The characters inside, or with `negated` outside, some ranges. -/
structure CharSet where
  negated : Bool
  ranges : List CharRange
  deriving DecidableEq, Repr

def CharSet.contains (s : CharSet) (c : Char) : Bool := inRanges s.ranges c != s.negated

/-- How often a piece may occur. -/
inductive Times where
  | once | optional | star | plus
  deriving DecidableEq, Repr

structure Piece where
  set : CharSet
  times : Times
  deriving DecidableEq, Repr

/-- A pattern, with the text that it is written as. -/
structure Pattern where
  text : String
  pieces : List Piece
  deriving DecidableEq, Repr

namespace Pattern

/-- Divides a text into what is taken at the front and what is left. -/
abbrev Matcher := List Char → Option (List Char × List Char)

/-- Adds a character to what is taken. -/
def take (c : Char) : List Char × List Char → List Char × List Char
  | (taken, rest) => (c :: taken, rest)

/-- One character of the set, then the rest of the pattern. -/
def one (set : CharSet) (next : Matcher) : Matcher
  | [] => none
  | c :: cs => if set.contains c then (next cs).map (take c) else none

/-- Any number of characters of the set, the more the better, then the rest of the pattern. -/
def many (set : CharSet) (next : Matcher) : Matcher
  | [] => next []
  | c :: cs =>
    if set.contains c then
      match many set next cs with
      | some split => some (take c split)
      | none => next (c :: cs)
    else next (c :: cs)

/-- The first match of a sequence of pieces in the order of preference. -/
def matchPieces : List Piece → Matcher
  | [], cs => some ([], cs)
  | ⟨set, .once⟩ :: ps, cs => one set (matchPieces ps) cs
  | ⟨set, .optional⟩ :: ps, cs =>
    match one set (matchPieces ps) cs with
    | some split => some split
    | none => matchPieces ps cs
  | ⟨set, .star⟩ :: ps, cs => many set (matchPieces ps) cs
  | ⟨set, .plus⟩ :: ps, cs => one set (many set (matchPieces ps)) cs

/-- The match of a pattern at the front of a text, which may be empty. -/
def matchFront? (p : Pattern) : Matcher := matchPieces p.pieces

/-- A matcher that loses no character. -/
def Matcher.Divides (m : Matcher) : Prop :=
  ∀ cs taken rest, m cs = some (taken, rest) → taken ++ rest = cs

theorem divides_one {set : CharSet} {next : Matcher} (h : next.Divides) :
    Matcher.Divides (one set next) := by
  intro cs taken rest found
  cases cs with
  | nil => simp [one] at found
  | cons c cs =>
    rw [one] at found
    split at found
    · obtain ⟨⟨taken', rest'⟩, found', same⟩ := Option.map_eq_some_iff.mp found
      simp only [take, Prod.mk.injEq] at same
      obtain ⟨rfl, rfl⟩ := same
      simp [h cs taken' rest' found']
    · simp at found

theorem divides_many {set : CharSet} {next : Matcher} (h : next.Divides) :
    Matcher.Divides (many set next) := by
  intro cs
  induction cs with
  | nil => exact h []
  | cons c cs ih =>
    intro taken rest found
    rw [many] at found
    split at found
    · split at found
      · rename_i split' found'
        obtain ⟨taken', rest'⟩ := split'
        simp only [take, Option.some.injEq, Prod.mk.injEq] at found
        obtain ⟨rfl, rfl⟩ := found
        simp [ih taken' rest' found']
      · exact h _ _ _ found
    · exact h _ _ _ found

theorem divides_matchPieces (ps : List Piece) : Matcher.Divides (matchPieces ps) := by
  induction ps with
  | nil =>
    intro cs taken rest found
    simp only [matchPieces, Option.some.injEq, Prod.mk.injEq] at found
    obtain ⟨rfl, rfl⟩ := found
    rfl
  | cons p ps ih =>
    obtain ⟨set, times⟩ := p
    cases times with
    | once => exact divides_one ih
    | optional =>
      intro cs taken rest found
      simp only [matchPieces] at found
      split at found
      · rename_i found'
        exact divides_one ih cs taken rest (found' ▸ found)
      · exact ih cs taken rest found
    | star => exact divides_many ih
    | plus => exact divides_one (divides_many ih)

/-- What a pattern takes and what it leaves make up the text. -/
theorem append_of_matchFront? {p : Pattern} {cs taken rest : List Char}
    (h : p.matchFront? cs = some (taken, rest)) : taken ++ rest = cs :=
  divides_matchPieces p.pieces cs taken rest h

end Pattern

/-- Whatever matches at a place of a text, with the text that it is written as. It sees the
characters behind the place, the last one first, and divides those ahead of the place into
what it takes and what it leaves. -/
structure Recognizer where
  text : String
  divide? : (behind ahead : List Char) → Option (List Char × List Char)
  append_of_divide? : ∀ {behind ahead taken rest : List Char},
    divide? behind ahead = some (taken, rest) → taken ++ rest = ahead

/-- A pattern does not look behind. -/
def Pattern.recognizer (p : Pattern) : Recognizer :=
  ⟨p.text, fun _ => p.matchFront?, append_of_matchFront?⟩

instance : Coe Pattern Recognizer := ⟨Pattern.recognizer⟩

end StackLisp
