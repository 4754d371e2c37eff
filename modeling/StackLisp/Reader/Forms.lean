import StackLisp.Reader.State

/-!
# Reading forms

Each function reads one form, or a sequence of forms, from the front of some tokens, and
returns it with the tokens after it.
-/

namespace StackLisp

namespace Reading

/-- Takes any token. -/
def token : List Token → Except Failure (Token × List Token)
  | [] => .error ⟨.incomplete (.endOfInput none), []⟩
  | t :: ts => .ok (t, ts)

/-- Takes a token of a kind, which the message calls `what`. -/
def expect (kind : Kind) (what : String) : List Token → Except Failure (Token × List Token)
  | [] => .error ⟨.incomplete (.endOfInput (some what)), []⟩
  | t :: ts =>
    if t.kind = kind then .ok (t, ts)
    else .error ⟨.refused (.expected what t.text) t, t :: ts⟩

def atom (mode : Mode) : List Token → Except Failure (Node × List Token)
  | [] => .error ⟨.incomplete (.endOfInput none), []⟩
  | t :: ts =>
    match Node.ofAtom mode t with
    | .ok node => .ok (node, ts)
    | .error refusal => .error (refusal.failure t ts)

/-- Reads one form of code, or one datum. -/
def form (mode : Mode) : List Token → Except Failure (Node × List Token) :=
  State.run ⟨.form mode, []⟩

/-- Takes the parenthesis that opens a form. -/
def openParen : List Token → Except Failure (Token × List Token) := expect .openParen "'('"

/-- Reads a lambda, whatever its keyword is. -/
def lambda (ts : List Token) : Except Failure (Node × List Token) := do
  let (start, ts) ← openParen ts
  let (_, ts) ← token ts
  State.run ⟨.parameters start, []⟩ ts

/-- Reads a quote, whatever its keyword is. -/
def quote (ts : List Token) : Except Failure (Node × List Token) := do
  let (start, ts) ← openParen ts
  let (_, ts) ← token ts
  State.run ⟨.form .data, [.quote start [] []]⟩ ts

/-- Reads an application, even if it starts like a special form. -/
def application (ts : List Token) : Except Failure (Node × List Token) := do
  let (start, ts) ← openParen ts
  State.run ⟨.form .code, [.operator start]⟩ ts

theorem length_rest_lt_of_form {mode : Mode} {ts rest : List Token} {node : Node}
    (h : form mode ts = .ok (node, rest)) : rest.length < ts.length :=
  State.length_rest_lt_of_run h

/-- Reads forms up to the end of the tokens. -/
def all (ts : List Token) : Except Failure (List Node × List Token) :=
  if ts.isEmpty then .ok ([], [])
  else
    match _ : form .code ts with
    | .error failure => .error failure
    | .ok (node, rest) => do
      let (nodes, rest) ← all rest
      return (node :: nodes, rest)
termination_by ts.length
decreasing_by exact length_rest_lt_of_form ‹_›

theorem all_nil : all [] = .ok ([], []) := by
  rw [all]
  rfl

theorem all_of_form_ok {ts rest : List Token} {node : Node}
    (h : form .code ts = .ok (node, rest)) :
    all ts = (all rest).map fun p => (node :: p.1, p.2) := by
  cases ts with
  | nil => contradiction
  | cons t ts =>
    rw [all, List.isEmpty_cons, if_neg Bool.false_ne_true]
    split
    next failure hf =>
      rw [h] at hf
      contradiction
    next node' rest' hf =>
      rw [h] at hf
      cases hf
      rfl

theorem all_of_form_error {ts : List Token} {failure : Failure} (hne : ts ≠ [])
    (h : form .code ts = .error failure) : all ts = .error failure := by
  cases ts with
  | nil => contradiction
  | cons t ts =>
    rw [all, List.isEmpty_cons, if_neg Bool.false_ne_true]
    split
    next failure' hf =>
      rw [h] at hf
      cases hf
      rfl
    next node rest hf =>
      rw [h] at hf
      contradiction

/-- Reads forms or data up to and including the parenthesis that closes what `start` opened,
which the message calls `what`. -/
def untilClose (start : Token) (what : String) (mode : Mode) :
    List Token → Except Failure (List Node × List Token)
  | [] => .error ⟨.incomplete (.unterminated what start.col), []⟩
  | t :: ts =>
    if t.kind = .closeParen then .ok ([], ts)
    else
      match _ : form mode (t :: ts) with
      | .error failure => .error failure
      | .ok (node, rest) => do
        let (nodes, rest) ← untilClose start what mode rest
        return (node :: nodes, rest)
termination_by ts => ts.length
decreasing_by exact length_rest_lt_of_form ‹_›

end Reading

end StackLisp
