import StackLisp.Reader.Forms

/-!
# Readers

A reader holds all tokens and a cursor. It can be asked to read one thing after the other,
and goes on after an error: what a failed call had taken stays taken.
-/

namespace StackLisp

structure Reader where
  tokens : List Token
  cursor : Nat
  deriving DecidableEq, Repr

/-- What a reader can be asked for. -/
inductive Call where
  | atEnd
  /-- The token at an offset from the cursor, which is not taken. -/
  | peek (offset : Int)
  | token
  | expect (kind : Kind) (what : String)
  | form
  | datum
  | atom (mode : Mode)
  | lambda
  | quote
  | application
  /-- All forms up to the end. -/
  | all
  | untilClose (start : Token) (what : String) (mode : Mode)
  deriving DecidableEq, Repr

/-- What a reader answers. -/
inductive Answer where
  | bool (value : Bool)
  | token (token : Option Token)
  | form (node : Node)
  | forms (nodes : List Node)

inductive CallError where
  | read (error : ReadError)
  /-- A place before the first token was asked for. -/
  | outOfRange
  deriving DecidableEq, Repr

def CallError.message : CallError → String
  | .read error => error.message
  | .outOfRange => "tuple index out of range"

namespace Reader

/-- A reader in front of the first token. -/
def ofTokens (tokens : List Token) : Reader := ⟨tokens, 0⟩

def rest (r : Reader) : List Token := r.tokens.drop r.cursor

def atEnd (r : Reader) : Bool := r.tokens.length ≤ r.cursor

/-- The token at an offset from the cursor, none at or behind the end. A negative index
counts from the end, down to the first token. -/
def peek (r : Reader) (offset : Int) : Except CallError (Option Token) :=
  let index := r.cursor + offset
  if 0 ≤ index then .ok r.tokens[index.toNat]?
  else if 0 ≤ r.tokens.length + index then .ok r.tokens[(r.tokens.length + index).toNat]?
  else .error .outOfRange

/-- The reader in front of the last tokens. -/
def leave (r : Reader) (rest : List Token) : Reader :=
  { r with cursor := r.tokens.length - rest.length }

/-- The answer to a call that reads, and the reader after it. -/
def read {α : Type} (r : Reader) (reading : List Token → Except Failure (α × List Token))
    (answer : α → Answer) : Except CallError Answer × Reader :=
  match reading r.rest with
  | .ok (value, rest) => (.ok (answer value), r.leave rest)
  | .error failure =>
    (.error (.read (failure.cause.error r.tokens.getLast?)), r.leave failure.rest)

def call (r : Reader) : Call → Except CallError Answer × Reader
  | .atEnd => (.ok (.bool r.atEnd), r)
  | .peek offset => ((r.peek offset).map .token, r)
  | .token => r.read Reading.token fun t => .token (some t)
  | .expect kind what => r.read (Reading.expect kind what) fun t => .token (some t)
  | .form => r.read (Reading.form .code) .form
  | .datum => r.read (Reading.form .data) .form
  | .atom mode => r.read (Reading.atom mode) .form
  | .lambda => r.read Reading.lambda .form
  | .quote => r.read Reading.quote .form
  | .application => r.read Reading.application .form
  | .all => r.read Reading.all .forms
  | .untilClose start what mode => r.read (Reading.untilClose start what mode) .forms

/-- The answers to a sequence of calls, each with the reader after it. -/
def calls (r : Reader) : List Call → List (Except CallError Answer × Reader)
  | [] => []
  | c :: cs => r.call c :: (r.call c).2.calls cs

end Reader

end StackLisp
