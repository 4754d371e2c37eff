import StackLisp.Proofs.Numeral.Exact
import StackLisp.Proofs.Printing.RoundTrip

/-!
# Printing fractions

A finite number is printed as one token, whatever its magnitude. Its text is that of descriptions
without the exponent, and nothing is rounded on the way: both texts spell the same rational
number. It follows that the token is read as the number that was printed.
-/

namespace StackLisp

open Grammar Lexical Numeral Binary64

/-- A source that is the text of a finite number is read as this number. -/
theorem parseSource_plainText {x : Binary64} (h : x.isFinite = true) :
    parseSource Table.standard x.plainText = .ok (.float x) := by
  have hatom : IsAtom .code ⟨.float, x.plainText, 1, 0, 0⟩ (.float x) :=
    .float rfl (readFraction_plainText h) fun _ => h
  rw [parseSource_of_scan (scan_of_valid (valid_plainText h)),
    parse_eq_ok_iff_isExpr.mpr (.atom hatom)]
  rfl

/-- Every finite number is printed with digits on both sides of a point, which is one token. The
text is the scientific one with its exponent resolved, and both texts spell the same sign and the
same rational number. Both are read as the number that was printed. -/
theorem finite_printed_exactly (negative : Bool) (rank : Fin rankLimit) :
    (∃ whole part, (plainText (.finite negative rank)).toList =
        signChars negative ++ (whole ++ '.' :: part) ∧ IsDigits whole ∧ IsDigits part) ∧
    scan Table.standard (plainText (.finite negative rank)) =
      .ok [⟨.float, plainText (.finite negative rank), 1, 0, 0⟩] ∧
    spellOut? (scientificText (.finite negative rank)) =
      some (plainText (.finite negative rank)) ∧
    (∃ value, spelled? (scientificText (.finite negative rank)) = some (negative, value) ∧
      spelled? (plainText (.finite negative rank)) = some (negative, value)) ∧
    readFraction (scientificText (.finite negative rank)) = .ok (.finite negative rank) ∧
    parseSource Table.standard (plainText (.finite negative rank)) =
      .ok (.float (.finite negative rank)) := by
  obtain ⟨whole, part, htext, hdenotes⟩ := exists_plainText negative rank
  have hvalue : ∃ value,
      spelled? (scientificText (.finite negative rank)) = some (negative, value) ∧
      spelled? (plainText (.finite negative rank)) = some (negative, value) :=
    ⟨_, spelled?_scientificText negative rank, spelled?_plainText negative rank⟩
  exact ⟨⟨whole, part, htext, hdenotes.wholeDigits, hdenotes.partDigits⟩,
    scan_of_valid (valid_plainText rfl), spellOut?_scientificText _, hvalue,
    readFraction_scientificText rfl, parseSource_plainText rfl⟩

end StackLisp
