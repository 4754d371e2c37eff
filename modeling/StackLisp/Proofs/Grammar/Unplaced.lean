import StackLisp.Proofs.Grammar.ViablePrefix

/-!
# Reading without places

Where the tokens stand plays no part in reading. Given the same tokens without their places, the
reader goes through the same states without the places in them, and comes to the same end: it
answers with the same nodes, or it fails in the same way and leaves as many tokens. The places
only show in the error, as the token that is blamed and the column of a parenthesis that was
left open.
-/

namespace StackLisp

namespace Token

/-- A token without its place. -/
def unplaced (t : Token) : Token := bare t.kind t.text

@[simp] theorem kind_unplaced (t : Token) : t.unplaced.kind = t.kind := rfl

theorem map_shape_unplaced (ts : List Token) :
    (ts.map unplaced).map shape = ts.map shape := by
  rw [List.map_map]
  rfl

theorem map_unplaced_eq_of_shape {ts us : List Token} (h : us.map shape = ts.map shape) :
    us.map unplaced = ts.map unplaced := by
  have hbare : unplaced = (fun p : Kind × String => bare p.1 p.2) ∘ shape := rfl
  rw [hbare, ← List.map_map, h, List.map_map]

@[simp] theorem joinText_unplaced (ts : List Token) :
    joinText (ts.map unplaced) = joinText ts :=
  joinText_eq_of_shape (map_shape_unplaced ts)

end Token

/-! ## Forgetting places -/

def Frame.unplaced : Frame → Frame
  | .operator start => .operator start.unplaced
  | .operands start f ns => .operands start.unplaced f ns
  | .body names => .body names
  | .quote start ts ns => .quote start.unplaced (ts.map Token.unplaced) ns
  | .list start ts ns => .list start.unplaced (ts.map Token.unplaced) ns

def Expecting.unplaced : Expecting → Expecting
  | .form mode => .form mode
  | .opened start => .opened start.unplaced
  | .parameters start => .parameters start.unplaced
  | .parameter start names => .parameter start.unplaced names
  | .lambdaEnd names n => .lambdaEnd names n

def State.unplaced (s : State) : State :=
  ⟨s.expecting.unplaced, s.frames.map Frame.unplaced⟩

def Outcome.unplaced : Outcome → Outcome
  | .next s => .next s.unplaced
  | .done n => .done n

def Reason.unplaced : Reason → Reason
  | .unterminated what _ => .unterminated what 0
  | .unterminatedParameters _ => .unterminatedParameters 0
  | r => r

/-- Only an early end is told by a place. -/
theorem Reason.unplaced_of_isIncomplete {r : Reason} (h : r.isIncomplete = false) :
    r.unplaced = r := by
  cases r with
  | unterminated _ _ | unterminatedParameters _ => contradiction
  | _ => rfl

def Cause.unplaced : Cause → Cause
  | .incomplete reason => .incomplete reason.unplaced
  | .refused reason token => .refused reason.unplaced token.unplaced
  | .numeral error => .numeral error

def Failure.unplaced (f : Failure) : Failure :=
  ⟨f.cause.unplaced, f.rest.map Token.unplaced⟩

/-- What was read and what was left, without places. -/
def Reading.unplaced {α : Type} :
    Except Failure (α × List Token) → Except Failure (α × List Token)
  | .ok (a, rest) => .ok (a, rest.map Token.unplaced)
  | .error failure => .error failure.unplaced

/-! ## The moves of the reader -/

namespace State

theorem deliver_unplaced (n : Node) (ts : List Token) (frames : List Frame) :
    deliver n (ts.map Token.unplaced) (frames.map Frame.unplaced) =
      (deliver n ts frames).unplaced := by
  cases frames with
  | nil => rfl
  | cons f frames =>
    cases f with
    | operator _ | operands _ _ _ | body _ => rfl
    | quote start us ns | list start us ns =>
      simp only [List.map_cons, Frame.unplaced, deliver, Outcome.unplaced, State.unplaced,
        Expecting.unplaced, List.map_append]

theorem close_unplaced (t : Token) (frames : List Frame) :
    close t.unplaced (frames.map Frame.unplaced) = (close t frames).map Outcome.unplaced := by
  cases frames with
  | nil => rfl
  | cons f frames =>
    cases f with
    | operator _ | body _ => rfl
    | operands start f ns =>
      exact congrArg Except.ok (deliver_unplaced (.application f ns.reverse) [] frames)
    | quote start us ns =>
      have hjoin : Token.joinText (us.map Token.unplaced).reverse = Token.joinText us.reverse := by
        rw [← List.map_reverse, Token.joinText_unplaced]
      have hd := deliver_unplaced (.quote (Token.joinText us.reverse) ns.reverse) [] frames
      simp only [List.map_cons, Frame.unplaced, close, hjoin]
      exact congrArg Except.ok hd
    | list start us ns =>
      have hd := deliver_unplaced (.list ns.reverse) (t :: us ++ [start]) frames
      rw [List.map_append] at hd
      exact congrArg Except.ok hd

theorem form_unplaced (mode : Mode) (frames : List Frame) (t : Token) :
    form mode (frames.map Frame.unplaced) t.unplaced =
      (form mode frames t).map Outcome.unplaced := by
  cases hk : t.kind with
  | openParen =>
    cases mode with
    | code =>
      rw [form_open hk, form_open (t := t.unplaced) hk]
      rfl
    | data =>
      rw [form_open_data hk, form_open_data (t := t.unplaced) hk]
      rfl
  | closeParen =>
    rw [form_close hk, form_close (t := t.unplaced) hk, close_unplaced]
  | _ =>
    have hatom : Node.ofAtom mode t.unplaced = Node.ofAtom mode t := rfl
    rw [form_of_ne_parens (by simp [hk]) (by simp [hk]),
      form_of_ne_parens (by simp [hk]) (by simp [hk]), hatom]
    cases Node.ofAtom mode t with
    | error r => rfl
    | ok n => exact congrArg Except.ok (deliver_unplaced n [t] frames)

/-- A step without places is the same step, with its places forgotten. A refusal is the same. -/
theorem step_unplaced (s : State) (t : Token) :
    s.unplaced.step t.unplaced = (s.step t).map Outcome.unplaced := by
  rcases s with ⟨expecting, frames⟩
  cases expecting with
  | form mode => exact form_unplaced mode frames t
  | opened start =>
    have hform := form_unplaced .code (.operator start :: frames) t
    simp only [step, apply_ite (Except.map Outcome.unplaced), ← hform]
    rfl
  | parameters start =>
    simp only [step, apply_ite (Except.map Outcome.unplaced)]
    rfl
  | parameter start names =>
    simp only [step, State.unplaced, Expecting.unplaced, Token.kind_unplaced]
    split
    · rfl
    · rw [apply_ite (Except.map Outcome.unplaced)]
      rfl
    · rfl
  | lambdaEnd names n =>
    have hd : .ok (deliver (.lambda names n) [] (frames.map Frame.unplaced)) =
        Except.map Outcome.unplaced (ε := Refusal) (.ok (deliver (.lambda names n) [] frames)) :=
      congrArg Except.ok (deliver_unplaced (.lambda names n) [] frames)
    simp only [step, apply_ite (Except.map Outcome.unplaced), ← hd]
    rfl

theorem endReason_unplaced (s : State) : s.unplaced.endReason = s.endReason.unplaced := by
  rcases s with ⟨expecting, frames⟩
  cases expecting with
  | form mode =>
    cases frames with
    | nil => rfl
    | cons f frames => cases f <;> rfl
  | opened _ | parameters _ | parameter _ _ | lambdaEnd _ _ => rfl

end State

/-- The reasons to refuse a token tell of no place. -/
theorem Refusal.failure_unplaced {r : Refusal} (h : r.Final) (t : Token) (ts : List Token) :
    r.failure t.unplaced (ts.map Token.unplaced) = (r.failure t ts).unplaced := by
  cases r with
  | before reason =>
    have hreason := Reason.unplaced_of_isIncomplete (h reason rfl).1
    simp only [failure, Failure.unplaced, Cause.unplaced, hreason, List.map_cons]
  | after reason =>
    have hreason := Reason.unplaced_of_isIncomplete (h reason rfl).1
    simp only [failure, Failure.unplaced, Cause.unplaced, hreason]
  | numeral error => rfl

/-! ## Reading -/

theorem State.run_unplaced (s : State) (ts : List Token) :
    s.unplaced.run (ts.map Token.unplaced) = Reading.unplaced (s.run ts) := by
  induction ts generalizing s with
  | nil =>
    rw [List.map_nil, run, run, endReason_unplaced]
    rfl
  | cons t ts ih =>
    rw [List.map_cons, run, run, step_unplaced]
    cases ht : s.step t with
    | error r => exact congrArg Except.error (Refusal.failure_unplaced (final_of_step ht) t ts)
    | ok o =>
      cases o with
      | next s' => exact ih s'
      | done n => rfl

theorem Reading.form_unplaced (mode : Mode) (ts : List Token) :
    form mode (ts.map Token.unplaced) = unplaced (form mode ts) :=
  State.run_unplaced ⟨.form mode, []⟩ ts

/-- All forms of some tokens are read alike without their places. -/
theorem Reading.all_unplaced (ts : List Token) :
    all (ts.map Token.unplaced) = unplaced (all ts) := by
  fun_induction all ts with
  | case1 ts hempty =>
    rw [List.isEmpty_iff.mp hempty, List.map_nil, all_nil]
    rfl
  | case2 ts hne failure hform =>
    have hform' : form .code (ts.map Token.unplaced) = .error failure.unplaced := by
      rw [form_unplaced, hform]
      rfl
    have hne' : ts.map Token.unplaced ≠ [] := by
      simpa using hne
    rw [all_of_form_error hne' hform']
    rfl
  | case3 ts hne n rest hform ih =>
    have hform' : form .code (ts.map Token.unplaced) = .ok (n, rest.map Token.unplaced) := by
      rw [form_unplaced, hform]
      rfl
    rw [all_of_form_ok hform', ih]
    cases all rest with
    | error failure => rfl
    | ok p => rfl

/-- Tokens of the same shapes fail to be read alike. -/
theorem Reading.exists_all_eq_error_of_shape {ts us : List Token} {failure : Failure}
    (hs : us.map Token.shape = ts.map Token.shape) (h : all ts = .error failure) :
    ∃ failure', all us = .error failure' ∧ failure'.unplaced = failure.unplaced := by
  have heq : unplaced (all us) = unplaced (all ts) := by
    rw [← all_unplaced, ← all_unplaced, Token.map_unplaced_eq_of_shape hs]
  rw [h] at heq
  cases hus : all us with
  | ok p =>
    rw [hus] at heq
    contradiction
  | error failure' =>
    rw [hus] at heq
    exact ⟨failure', rfl, Except.error.inj heq⟩

end StackLisp
