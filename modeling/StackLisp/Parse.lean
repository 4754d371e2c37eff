import StackLisp.Token.Scan
import StackLisp.Reader.Forms

/-!
# Parsing

A source, or a list of tokens, is parsed into the one expression that it holds, or read into
all the forms that it holds.
-/

namespace StackLisp

/-- The error of a source that was to be read. -/
inductive SourceFailure where
  | lex (error : LexError)
  | read (error : ReadError)
  deriving DecidableEq, Repr

def SourceFailure.message : SourceFailure → String
  | .lex error => error.message
  | .read error => error.message

/-- The one expression that a list of tokens holds. -/
def parse (tokens : List Token) : Except ReadError Node :=
  match Reading.form .code tokens with
  | .error failure => .error (failure.cause.error tokens.getLast?)
  | .ok (node, []) => .ok node
  | .ok (_, t :: _) => .error (.parse ⟨.trailing t.text, some t⟩)

/-- All forms that a list of tokens holds. -/
def readForms (tokens : List Token) : Except ReadError (List Node) :=
  match Reading.all tokens with
  | .error failure => .error (failure.cause.error tokens.getLast?)
  | .ok (nodes, _) => .ok nodes

def parseSource (table : Table) (source : String) : Except SourceFailure Node := do
  let tokens ← (scan table source).mapError .lex
  (parse tokens).mapError .read

def readSource (table : Table) (source : String) : Except SourceFailure (List Node) := do
  let tokens ← (scan table source).mapError .lex
  (readForms tokens).mapError .read

theorem parseSource_of_scan {table : Table} {source : String} {ts : List Token}
    (h : scan table source = .ok ts) :
    parseSource table source = (parse ts).mapError .read := by
  rw [parseSource, h]
  rfl

theorem readSource_of_scan {table : Table} {source : String} {ts : List Token}
    (h : scan table source = .ok ts) :
    readSource table source = (readForms ts).mapError .read := by
  rw [readSource, h]
  rfl

theorem readSource_of_scan_error {table : Table} {source : String} {e : LexError}
    (h : scan table source = .error e) : readSource table source = .error (.lex e) := by
  rw [readSource, h]
  rfl

end StackLisp
