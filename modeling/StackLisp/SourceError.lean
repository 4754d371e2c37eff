import StackLisp.Token.Basic

/-!
# Errors in sources

A source is refused either because no token starts at some character, or because its tokens
do not form an expression. Every error says where; a line that is not positive means that
the place is unknown.
-/

namespace StackLisp

/-- A message with its place, if that is known. -/
def located (message : String) (line col : Int) : String :=
  if 0 < line then
    message ++ " at line " ++ Numeral.integerText line ++ ", col " ++ Numeral.integerText col
  else message

/-- No token starts at a character. The character may be unknown, and is empty then. -/
structure LexError where
  position : Int
  char : String
  line : Int
  col : Int
  deriving DecidableEq, Repr

namespace LexError

def reason (e : LexError) : String :=
  if e.char = "" then "no token matches" else "no token matches " ++ Text.quoted e.char

def message (e : LexError) : String := located e.reason e.line e.col

end LexError

/-- Why tokens do not form an expression. -/
inductive Reason where
  /-- The tokens end where a form, or the token described, is due. -/
  | endOfInput (expected : Option String)
  /-- The tokens end inside parentheses that were opened at a column. -/
  | unterminated (what : String) (col : Int)
  | unterminatedParameters (col : Int)
  | expected (what : String) (found : String)
  | unexpected (found : String)
  | integerRange (text : String)
  | floatRange (text : String)
  | notParameter (text : String)
  | duplicateParameter (text : String)
  | emptyApplication
  | trailing (text : String)
  /-- A reason in words of its own. -/
  | custom (text : String)
  deriving DecidableEq, Repr

namespace Reason

/-- Whether more tokens could mend the error. -/
def isIncomplete : Reason → Bool
  | .endOfInput _ | .unterminated .. | .unterminatedParameters _ => true
  | _ => false

def message : Reason → String
  | .endOfInput none => "unexpected end of input"
  | .endOfInput (some what) => "unexpected end of input, expected " ++ what
  | .unterminated what col =>
    "unterminated " ++ what ++ " opened at col " ++ Numeral.integerText col ++ ", expected ')'"
  | .unterminatedParameters col =>
    "unterminated lambda parameters opened at col " ++ Numeral.integerText col
  | .expected what found => "expected " ++ what ++ ", got " ++ Text.quoted found
  | .unexpected found => "unexpected " ++ Text.quoted found
  | .integerRange text => "integer literal out of range: " ++ text
  | .floatRange text => "float literal out of range: " ++ text
  | .notParameter text => "lambda parameter must be a symbol, got " ++ Text.quoted text
  | .duplicateParameter text => "duplicate lambda parameter " ++ Text.quoted text
  | .emptyApplication => "empty application '()'"
  | .trailing text => "unexpected trailing input " ++ Text.quoted text
  | .custom text => text

end Reason

/-- The tokens do not form an expression. The token is the one that cannot stand where it
does, or the last one of all if the tokens end too early. -/
structure ParseError where
  reason : Reason
  token : Option Token
  deriving DecidableEq, Repr

namespace ParseError

def line (e : ParseError) : Int := (e.token.map Token.line).getD 0

def col (e : ParseError) : Int := (e.token.map Token.col).getD 0

def message (e : ParseError) : String := located e.reason.message e.line e.col

end ParseError

/-- An error in a source. -/
inductive SourceError where
  | lex (error : LexError)
  | parse (error : ParseError)
  /-- An error of neither sort, in words of its own. -/
  | general (reason : String) (line col : Int)
  deriving DecidableEq, Repr

namespace SourceError

def line : SourceError → Int
  | .lex e => e.line
  | .parse e => e.line
  | .general _ line _ => line

def col : SourceError → Int
  | .lex e => e.col
  | .parse e => e.col
  | .general _ _ col => col

def message : SourceError → String
  | .lex e => e.message
  | .parse e => e.message
  | .general reason line col => located reason line col

end SourceError

end StackLisp
