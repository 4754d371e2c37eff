import StackLisp.Node.Basic
import StackLisp.Reader.Failure

/-!
# Atoms

An atom is a single token. Numbers of code are bounded: integers have 64 bits and fractions
are finite. Numbers among data are not.
-/

namespace StackLisp

/-- What is read: code, or the data inside a quote. -/
inductive Mode where
  | code | data
  deriving DecidableEq, Repr

/-- The node of an atom. A token is taken before it is looked into. -/
def Node.ofAtom (mode : Mode) (t : Token) : Except Refusal Node :=
  match t.kind with
  | .integer =>
    match Numeral.readInteger t.text with
    | .error error => .error (.numeral error)
    | .ok n =>
      if mode = .code ∧ Node.inRange n = false then .error (.after (.integerRange t.text))
      else .ok (.integer n)
  | .float =>
    match Numeral.readFraction t.text with
    | .error error => .error (.numeral error)
    | .ok x =>
      if mode = .code ∧ x.isFinite = false then .error (.after (.floatRange t.text))
      else .ok (.float x)
  | .string => .ok (.string t.text)
  | .symbol => .ok (.symbol t.text)
  | .openParen | .closeParen => .error (.after (.unexpected t.text))

end StackLisp
