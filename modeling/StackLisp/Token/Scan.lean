import StackLisp.Text.Blank
import StackLisp.Token.Table
import StackLisp.SourceError

/-!
# Scanning

Scanning divides a source into tokens. Blanks are skipped; at every other place the table
decides which token starts there. Lines are counted at the line feeds between tokens: a line
feed inside a token is part of its text and opens no new line.
-/

namespace StackLisp

/-- A place in a source: the offset, the line from 1, and the offset where the line starts. -/
structure Place where
  pos : Nat
  line : Nat
  lineStart : Nat
  deriving DecidableEq, Repr

namespace Place

/-- The start of a source. -/
def start : Place := ⟨0, 1, 0⟩

/-- The place behind a blank. -/
def skip (here : Place) (c : Char) : Place :=
  if c = '\n' then ⟨here.pos + 1, here.line + 1, here.pos + 1⟩
  else { here with pos := here.pos + 1 }

/-- The place behind a token. -/
def advance (here : Place) (length : Nat) : Place := { here with pos := here.pos + length }

def col (here : Place) : Nat := here.pos - here.lineStart

/-- The token of a lexeme that starts here. -/
def token (here : Place) (l : Lexeme) : Token :=
  ⟨l.kind, String.ofList l.text, here.line, here.col, here.pos⟩

/-- The error of a character that no token starts with. -/
def lexError (here : Place) (c : Char) : LexError :=
  ⟨here.pos, String.singleton c, here.line, here.col⟩

end Place

open Text (isBlank)

/-- The tokens of the characters from a place on. The characters behind the place are kept
with the last one first. -/
def scanFrom (table : Table) (here : Place) (behind : List Char) :
    List Char → Except LexError (List Token)
  | [] => .ok []
  | c :: cs =>
    if isBlank c then scanFrom table (here.skip c) (c :: behind) cs
    else
      match _ : table.lexeme? behind (c :: cs) with
      | none => .error (here.lexError c)
      | some l => do
        let ts ← scanFrom table (here.advance l.text.length) (l.text.reverse ++ behind) l.rest
        return here.token l :: ts
termination_by cs => cs.length
decreasing_by
  · exact Nat.lt_succ_self _
  · exact Table.length_rest_lt ‹_›

section Cases
variable {table : Table} {here : Place} {behind cs : List Char} {c : Char}

theorem scanFrom_blank (hc : isBlank c = true) :
    scanFrom table here behind (c :: cs) = scanFrom table (here.skip c) (c :: behind) cs := by
  rw [scanFrom, if_pos hc]

theorem scanFrom_lexeme {l : Lexeme} (hc : isBlank c = false)
    (hl : table.lexeme? behind (c :: cs) = some l) :
    scanFrom table here behind (c :: cs) =
      (scanFrom table (here.advance l.text.length) (l.text.reverse ++ behind) l.rest).map
        (here.token l :: ·) := by
  rw [scanFrom, hc, if_neg Bool.false_ne_true]
  split
  next hnone =>
    rw [hl] at hnone
    contradiction
  next l' hl' =>
    obtain rfl := Option.some.inj (hl.symm.trans hl')
    rfl

theorem scanFrom_stuck (hc : isBlank c = false) (h : table.lexeme? behind (c :: cs) = none) :
    scanFrom table here behind (c :: cs) = .error (here.lexError c) := by
  rw [scanFrom, hc, if_neg Bool.false_ne_true]
  split
  next => rfl
  next l hl =>
    rw [h] at hl
    contradiction

end Cases

/-- Divides a source into tokens. -/
def scan (table : Table) (source : String) : Except LexError (List Token) :=
  scanFrom table .start [] source.toList

end StackLisp
