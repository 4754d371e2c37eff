import StackLisp.Foreign
import StackLisp.Pattern.Reading
import StackLisp.Token.Basic

/-!
# Pattern tables

A table says what the tokens of a source look like: an ordered list of patterns, each with
the kind of its tokens. At every place the first pattern that takes at least one character
decides, so the order is a precedence. In the default table fractions come before integers
and both before symbols, because digits and the minus are symbol characters too.
-/

namespace StackLisp

/-- A kind of token and what its tokens look like. -/
structure TokenPattern where
  kind : Kind
  pattern : Recognizer

abbrev Table := List TokenPattern

/-- A token's kind and characters, and the characters after it. -/
structure Lexeme where
  kind : Kind
  text : List Char
  rest : List Char

namespace TokenPattern

/-- The match at a place of a text, if it takes a character. -/
def lexeme? (p : TokenPattern) (behind ahead : List Char) : Option Lexeme :=
  match p.pattern.divide? behind ahead with
  | some (c :: taken, rest) => some ⟨p.kind, c :: taken, rest⟩
  | _ => none

/-- The match at a position of a text. A position outside the text counts as the nearer end
of it. A match that ends where it was asked to start is none. -/
def matchAt? (p : TokenPattern) (text : String) (position : Int) : Option String :=
  let start := min position.toNat text.length
  match p.pattern.divide? (text.toList.take start).reverse (text.toList.drop start) with
  | some (taken, _) =>
    if ((start + taken.length : Nat) : Int) = position then none else some (String.ofList taken)
  | none => none

theorem append_of_lexeme? {p : TokenPattern} {behind ahead : List Char} {l : Lexeme}
    (h : p.lexeme? behind ahead = some l) : l.text ≠ [] ∧ l.text ++ l.rest = ahead := by
  rw [lexeme?] at h
  split at h
  · rename_i found
    obtain rfl := Option.some.inj h
    exact ⟨List.cons_ne_nil _ _, p.pattern.append_of_divide? found⟩
  · simp at h

end TokenPattern

/-- What a table can fail to be. -/
inductive TableError where
  /-- A value that is no kind of token stands in an entry. -/
  | notKind (value : Foreign)
  /-- The text of a pattern cannot be read. -/
  | notPattern (text : String)
  | empty

def TableError.message : TableError → String
  | .notKind value => "pattern table kind must be a TokenKind, got " ++ value.display
  | .notPattern text => "cannot read the pattern " ++ Text.quoted text
  | .empty => "pattern table must have at least one entry"

/-- An entry of a table before it is checked. -/
structure Entry where
  kind : Foreign ⊕ Kind
  pattern : String

namespace Table

def entry (e : Entry) : Except TableError TokenPattern :=
  match e.kind with
  | .inl value => .error (.notKind value)
  | .inr kind =>
    match Pattern.ofText? e.pattern with
    | some pattern => .ok ⟨kind, pattern⟩
    | none => .error (.notPattern e.pattern)

/-- Builds a table from entries. The first entry that is wrong counts. -/
def ofEntries (es : List Entry) : Except TableError Table := do
  let table ← es.mapM entry
  if table.isEmpty then throw .empty else return table

/-- The first pattern of the table that takes a character decides. -/
def lexeme? (table : Table) (behind ahead : List Char) : Option Lexeme :=
  table.findSome? (·.lexeme? behind ahead)

theorem append_of_lexeme? {table : Table} {behind ahead : List Char} {l : Lexeme}
    (h : lexeme? table behind ahead = some l) : l.text ≠ [] ∧ l.text ++ l.rest = ahead := by
  obtain ⟨p, _, found⟩ := List.exists_of_findSome?_eq_some h
  exact TokenPattern.append_of_lexeme? found

theorem length_rest_lt {table : Table} {behind ahead : List Char} {l : Lexeme}
    (h : lexeme? table behind ahead = some l) : l.rest.length < ahead.length := by
  obtain ⟨nonempty, rfl⟩ := append_of_lexeme? h
  have := List.length_pos_iff.mpr nonempty
  rw [List.length_append]
  omega

/-! ## The standard table -/

open Text (CharRange)

/-- The ASCII digits. -/
def digits : List CharRange := [⟨0x30, 0x39⟩]

/-- A minus, or nothing. -/
def minus? : Piece := ⟨Pattern.singleton '-', .optional⟩

def openParen : Pattern := ⟨"\\(", [⟨Pattern.singleton '(', .once⟩]⟩

def closeParen : Pattern := ⟨"\\)", [⟨Pattern.singleton ')', .once⟩]⟩

def float : Pattern :=
  ⟨"-?[0-9]+\\.[0-9]+",
    [minus?, ⟨⟨false, digits⟩, .plus⟩, ⟨Pattern.singleton '.', .once⟩, ⟨⟨false, digits⟩, .plus⟩]⟩

def integer : Pattern := ⟨"-?[0-9]+", [minus?, ⟨⟨false, digits⟩, .plus⟩]⟩

def string : Pattern :=
  ⟨"\"[^\"]*\"",
    [⟨Pattern.singleton '\x22', .once⟩, ⟨⟨true, [.single '\x22']⟩, .star⟩,
      ⟨Pattern.singleton '\x22', .once⟩]⟩

/-- Letters, digits and operator signs. -/
def symbol : Pattern :=
  ⟨"[A-Za-z0-9+=!^%*/<>-]+",
    [⟨⟨false, [⟨0x41, 0x5a⟩, ⟨0x61, 0x7a⟩, ⟨0x30, 0x39⟩] ++ "+=!^%*/<>-".toList.map .single⟩,
      .plus⟩]⟩

/-- The table of the language. Symbols stay last, since they would take numerals too. -/
def standard : Table :=
  [⟨.openParen, openParen⟩, ⟨.closeParen, closeParen⟩, ⟨.float, float⟩, ⟨.integer, integer⟩,
    ⟨.string, string⟩, ⟨.symbol, symbol⟩]

/-- The patterns of the standard table are what their texts say. -/
theorem ofText?_standard : ∀ p ∈ [openParen, closeParen, float, integer, string, symbol],
    Pattern.ofText? p.text = some p := by
  decide +kernel

end Table

end StackLisp
