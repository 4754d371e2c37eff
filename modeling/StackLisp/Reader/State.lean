import StackLisp.Reader.Atom

/-!
# Reading token by token

The reader takes one token at a time. Between two tokens its state is what may come next,
and a stack of the forms that are open, the innermost first. A finished node is handed to
the innermost open form; reading ends when a node is finished and no form is open.

After an opening parenthesis in code one token decides the form, by its text alone and
whatever its kind: `lambda` and `quote` open the two special forms, anything else starts the
operator of an application.
-/

namespace StackLisp

/-- An open form that waits for a node. Nodes and tokens are kept last first. -/
inductive Frame where
  /-- An application whose operator is being read. -/
  | operator (start : Token)
  | operands (start : Token) (operator : Node) (operands : List Node)
  /-- A lambda whose body is being read. -/
  | body (parameters : List String)
  /-- A quote, with the tokens after its keyword and the data they form. -/
  | quote (start : Token) (tokens : List Token) (datums : List Node)
  /-- A list among data, with the tokens after its parenthesis and the items they form. -/
  | list (start : Token) (tokens : List Token) (items : List Node)

/-- What may come next. -/
inductive Expecting where
  /-- A form, or what closes the innermost open form. -/
  | form (mode : Mode)
  /-- What follows an opening parenthesis in code. -/
  | opened (start : Token)
  /-- The parenthesis that opens the parameters of the lambda opened by `start`. -/
  | parameters (start : Token)
  /-- A further parameter of that lambda, or the parenthesis that closes its parameters. -/
  | parameter (start : Token) (names : List String)
  /-- The parenthesis that closes a lambda. -/
  | lambdaEnd (parameters : List String) (body : Node)

structure State where
  expecting : Expecting
  frames : List Frame

/-- What a token leads to. -/
inductive Outcome where
  | next (state : State)
  | done (node : Node)

namespace State

/-- Hands a finished node, which the tokens form, to the innermost open form. -/
def deliver (node : Node) (tokens : List Token) : List Frame → Outcome
  | [] => .done node
  | .operator start :: frames => .next ⟨.form .code, .operands start node [] :: frames⟩
  | .operands start operator operands :: frames =>
    .next ⟨.form .code, .operands start operator (node :: operands) :: frames⟩
  | .body parameters :: frames => .next ⟨.lambdaEnd parameters node, frames⟩
  | .quote start tokens' datums :: frames =>
    .next ⟨.form .data, .quote start (tokens ++ tokens') (node :: datums) :: frames⟩
  | .list start tokens' items :: frames =>
    .next ⟨.form .data, .list start (tokens ++ tokens') (node :: items) :: frames⟩

/-- Closes the innermost open form. -/
def close (t : Token) : List Frame → Except Refusal Outcome
  | .operator _ :: _ => .error (.before .emptyApplication)
  | .operands _ operator operands :: frames =>
    .ok (deliver (.application operator operands.reverse) [] frames)
  | .quote _ tokens datums :: frames =>
    .ok (deliver (.quote (Token.joinText tokens.reverse) datums.reverse) [] frames)
  | .list start tokens items :: frames =>
    .ok (deliver (.list items.reverse) (t :: tokens ++ [start]) frames)
  | .body _ :: _ | [] => .error (.after (.unexpected t.text))

/-- Takes the first token of a form, or the parenthesis that closes the innermost one. -/
def form (mode : Mode) (frames : List Frame) (t : Token) : Except Refusal Outcome :=
  match t.kind, mode with
  | .openParen, .code => .ok (.next ⟨.opened t, frames⟩)
  | .openParen, .data => .ok (.next ⟨.form .data, .list t [] [] :: frames⟩)
  | .closeParen, _ => close t frames
  | _, _ => do
    let node ← Node.ofAtom mode t
    return deliver node [t] frames

/-- Takes one token. -/
def step (s : State) (t : Token) : Except Refusal Outcome :=
  match s.expecting with
  | .form mode => form mode s.frames t
  | .opened start =>
    if t.text = "lambda" then .ok (.next ⟨.parameters start, s.frames⟩)
    else if t.text = "quote" then .ok (.next ⟨.form .data, .quote start [] [] :: s.frames⟩)
    else form .code (.operator start :: s.frames) t
  | .parameters start =>
    if t.kind = .openParen then .ok (.next ⟨.parameter start [], s.frames⟩)
    else .error (.before (.expected "'(' to open lambda parameters" t.text))
  | .parameter start names =>
    match t.kind with
    | .closeParen => .ok (.next ⟨.form .code, .body names.reverse :: s.frames⟩)
    | .symbol =>
      if t.text ∈ names then .error (.before (.duplicateParameter t.text))
      else .ok (.next ⟨.parameter start (t.text :: names), s.frames⟩)
    | _ => .error (.before (.notParameter t.text))
  | .lambdaEnd parameters body =>
    if t.kind = .closeParen then .ok (deliver (.lambda parameters body) [] s.frames)
    else .error (.before (.expected "')' to close lambda" t.text))

/-- Why the tokens may not end here. -/
def endReason (s : State) : Reason :=
  match s.expecting with
  | .form _ =>
    match s.frames with
    | .operands start _ _ :: _ => .unterminated "list" start.col
    | .quote start _ _ :: _ => .unterminated "quote" start.col
    | .list start _ _ :: _ => .unterminated "quoted list" start.col
    | _ => .endOfInput none
  | .opened _ => .endOfInput none
  | .parameters _ => .endOfInput (some "'(' to open lambda parameters")
  | .parameter start _ => .unterminatedParameters start.col
  | .lambdaEnd _ _ => .endOfInput (some "')' to close lambda")

/-- Takes tokens until a node is finished. -/
def run : State → List Token → Except Failure (Node × List Token)
  | s, [] => .error ⟨.incomplete s.endReason, []⟩
  | s, t :: ts =>
    match s.step t with
    | .ok (.next s') => run s' ts
    | .ok (.done node) => .ok (node, ts)
    | .error refusal => .error (refusal.failure t ts)

theorem length_rest_lt_of_run {s : State} {ts rest : List Token} {node : Node}
    (h : s.run ts = .ok (node, rest)) : rest.length < ts.length := by
  induction ts generalizing s with
  | nil => simp [run] at h
  | cons t ts ih =>
    rw [run] at h
    split at h
    · exact Nat.lt_succ_of_lt (ih h)
    · simp only [Except.ok.injEq, Prod.mk.injEq] at h
      simp [h.2]
    · simp at h

end State

end StackLisp
