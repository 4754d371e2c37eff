import StackLisp.SourceError

/-!
# Failed reading

Reading fails in one of three ways: the tokens end too early, a token cannot stand where it
does, or a numeral cannot be converted. A failure also says which tokens are left unread.
The token to blame for an early end is the last one of all, which is known only to who holds
all tokens; it is added when the failure becomes an error.
-/

namespace StackLisp

inductive Cause where
  /-- The tokens end too early. -/
  | incomplete (reason : Reason)
  /-- A token cannot stand where it does. -/
  | refused (reason : Reason) (token : Token)
  /-- A numeral cannot be converted. -/
  | numeral (error : NumeralError)
  deriving DecidableEq, Repr

structure Failure where
  cause : Cause
  rest : List Token
  deriving DecidableEq, Repr

/-- The error of a reading that failed. -/
inductive ReadError where
  | parse (error : ParseError)
  | numeral (error : NumeralError)
  deriving DecidableEq, Repr

def ReadError.message : ReadError → String
  | .parse error => error.message
  | .numeral error => error.message

/-- The error of a cause, given the last of all tokens. -/
def Cause.error (last : Option Token) : Cause → ReadError
  | .incomplete reason => .parse ⟨reason, last⟩
  | .refused reason token => .parse ⟨reason, some token⟩
  | .numeral error => .numeral error

/-- Why one token stops the reading. -/
inductive Refusal where
  /-- The token is still unread. -/
  | before (reason : Reason)
  /-- The token was taken before it was judged. -/
  | after (reason : Reason)
  /-- The token was taken, and its numeral could not be converted. -/
  | numeral (error : NumeralError)
  deriving DecidableEq, Repr

/-- The failure of refusing the first of some tokens. -/
def Refusal.failure (token : Token) (rest : List Token) : Refusal → Failure
  | .before reason => ⟨.refused reason token, token :: rest⟩
  | .after reason => ⟨.refused reason token, rest⟩
  | .numeral error => ⟨.numeral error, rest⟩

end StackLisp
