import StackLisp.Text.CharRange

/-!
# White space

Three sets of characters count as empty room, each in its own place: blanks separate
tokens in a source, spaces in the sense of Unicode are what spacing is normalised over,
and margins may surround a numeral.
-/

namespace StackLisp.Text

/-- Space, tab, carriage return and line feed separate tokens. -/
def isBlank (c : Char) : Bool := c == ' ' || c == '\t' || c == '\r' || c == '\n'

/-- The characters with the Unicode property White_Space, and the four separators U+001C
to U+001F beside them. -/
def spaceRanges : List CharRange :=
  [⟨0x9, 0xd⟩, ⟨0x1c, 0x20⟩, ⟨0x85, 0x85⟩, ⟨0xa0, 0xa0⟩, ⟨0x1680, 0x1680⟩, ⟨0x2000, 0x200a⟩,
    ⟨0x2028, 0x2029⟩, ⟨0x202f, 0x202f⟩, ⟨0x205f, 0x205f⟩, ⟨0x3000, 0x3000⟩]

def isSpace (c : Char) : Bool := inRanges spaceRanges c

/-- What may stand around a numeral: every space but the separators U+001C to U+001F. -/
def isMargin (c : Char) : Bool := isSpace c && !(CharRange.contains ⟨0x1c, 0x1f⟩ c)

/-- Drops what satisfies `p` at both ends. -/
def trim (p : Char → Bool) (cs : List Char) : List Char :=
  ((cs.dropWhile p).reverse.dropWhile p).reverse

theorem isSpace_eq_false {c : Char} (hlow : 0x20 < c.toNat) (hhigh : c.toNat < 0x85) :
    isSpace c = false := by
  apply Bool.eq_false_iff.mpr
  intro hs
  simp only [isSpace, spaceRanges, inRanges_cons, inRanges_nil, Bool.or_eq_true,
    CharRange.contains_iff, Bool.false_eq_true, or_false] at hs
  omega

theorem isSpace_of_isBlank {c : Char} (h : isBlank c = true) : isSpace c = true := by
  simp only [isBlank, Bool.or_eq_true, beq_iff_eq] at h
  rcases h with ((rfl | rfl) | rfl) | rfl <;> decide

end StackLisp.Text
