import StackLisp.Text.Quoted
import StackLisp.Numeral.Integer

/-!
# Tokens

A token is a piece of source text, classified by its kind, with the place where it starts.
Tokens may also be made by hand: then kind, text and place need not fit together.
-/

namespace StackLisp

inductive Kind where
  | openParen | closeParen | float | integer | string | symbol
  deriving DecidableEq, Repr

namespace Kind

/-- All kinds, in the order in which they are listed. -/
def all : List Kind := [.openParen, .closeParen, .float, .integer, .string, .symbol]

/-- The name of a kind in tables and descriptions. -/
def name : Kind → String
  | .openParen => "OPAREN"
  | .closeParen => "CPAREN"
  | .float => "FLOAT"
  | .integer => "INTEGER"
  | .string => "STRING"
  | .symbol => "SYMBOL"

/-- The word for a kind. -/
def word : Kind → String
  | .openParen => "oparen"
  | .closeParen => "cparen"
  | .float => "float"
  | .integer => "integer"
  | .string => "string"
  | .symbol => "symbol"

def ofName? (name : String) : Option Kind := all.find? (·.name == name)

theorem mem_all (k : Kind) : k ∈ all := by cases k <;> decide

theorem ofName?_name (k : Kind) : ofName? k.name = some k := by cases k <;> decide

end Kind

/-- A token. Lines count from 1, columns and offsets from 0, in characters; a token that was
made by hand may have any numbers. -/
structure Token where
  kind : Kind
  text : String
  line : Int
  col : Int
  pos : Int
  deriving DecidableEq, Repr

namespace Token

/-- The description of a token, which leaves out the offset. -/
def display (t : Token) : String :=
  "Token(" ++ t.kind.name ++ ", " ++ Text.quoted t.text ++ ", " ++
    Numeral.integerText t.line ++ ":" ++ Numeral.integerText t.col ++ ")"

/-- Whether two neighbouring tokens are set apart: there is no space after an opening and
none before a closing parenthesis. -/
def apart (left right : Token) : Bool :=
  left.kind ≠ .openParen && right.kind ≠ .closeParen

/-- The texts of tokens in normal spacing. -/
def joinText : List Token → String
  | [] => ""
  | [t] => t.text
  | t :: u :: ts => t.text ++ (if apart t u then " " else "") ++ joinText (u :: ts)

@[simp] theorem joinText_nil : joinText [] = "" := rfl

@[simp] theorem joinText_singleton (t : Token) : joinText [t] = t.text := rfl

theorem joinText_cons_cons (t u : Token) (ts : List Token) :
    joinText (t :: u :: ts) =
      t.text ++ (if apart t u then " " else "") ++ joinText (u :: ts) := rfl

end Token

end StackLisp
