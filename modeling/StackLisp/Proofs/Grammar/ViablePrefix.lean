import StackLisp.Parse
import StackLisp.Proofs.Grammar.Completeness
import StackLisp.Proofs.Grammar.Shape

/-!
# Errors come at the earliest token

From every state of the reader some tokens lead to a finished node: it suffices to close
what is open. So the tokens of a text may be the beginning of an acceptable text exactly as
long as no step has refused one of them, and an error that a step raises names the first
token that cannot be mended by what follows.
-/

namespace StackLisp

namespace Reason

/-- The message says that the tokens ended too early. -/
def IsTruncation (r : Reason) : Prop :=
  "unexpected end of input".toList <+: r.message.toList ∨
    "unterminated".toList <+: r.message.toList

theorem not_endOfInput_prefix_quoted (text : String) :
    ¬ "unexpected end of input".toList <+: ("unexpected " ++ Text.quoted text).toList := by
  have hmark : Text.Quoted.mark text.toList ≠ 'e' := by
    unfold Text.Quoted.mark
    split
    · simp
    · simp
  simp [Text.toList_quoted, Text.Quoted.encode, hmark.symm]

/-- The wording of a reason agrees with its sort, unless the words are its own. -/
theorem isTruncation_iff {r : Reason} (h : ∀ text, r ≠ .custom text) :
    r.IsTruncation ↔ r.isIncomplete = true := by
  unfold IsTruncation message
  cases r with
  | custom text => exact absurd rfl (h text)
  | endOfInput expected =>
    refine iff_of_true (.inl ?_) rfl
    cases expected with
    | none => exact List.prefix_rfl
    | some what => simp
  | unterminated what col => exact iff_of_true (.inr (by simp)) rfl
  | unterminatedParameters col => exact iff_of_true (.inr (by simp)) rfl
  | unexpected found =>
    have hend := not_endOfInput_prefix_quoted found
    exact iff_of_false (not_or.mpr ⟨hend, by simp⟩) (by simp [isIncomplete])
  | _ => exact iff_of_false (by simp) (by simp [isIncomplete])

end Reason

namespace Refusal

/-- The reason of a refusal that has one. -/
def reason? : Refusal → Option Reason
  | .before r | .after r => some r
  | .numeral _ => none

/-- A reason to refuse a token is never that the tokens have ended. -/
def Final (r : Refusal) : Prop :=
  ∀ reason ∈ r.reason?, reason.isIncomplete = false ∧ ∀ text, reason ≠ .custom text

theorem final_before {r : Reason} (h : r.isIncomplete = false) (hc : ∀ text, r ≠ .custom text) :
    Final (.before r) := by
  intro reason hr
  cases hr
  exact ⟨h, hc⟩

theorem final_after {r : Reason} (h : r.isIncomplete = false) (hc : ∀ text, r ≠ .custom text) :
    Final (.after r) := final_before h hc

end Refusal

namespace State

variable {s s' : State} {t : Token} {ts us : List Token} {frames : List Frame} {mode : Mode}
  {r : Refusal}

/-! ## Runs -/

/-- The tokens lead from one state to another. -/
inductive Steps : State → List Token → State → Prop
  | nil {s : State} : Steps s [] s
  | cons {s s' s'' : State} {t : Token} {ts : List Token} :
      s.step t = .ok (.next s') → Steps s' ts s'' → Steps s (t :: ts) s''

theorem run_append_of_steps (h : Steps s ts s') (us : List Token) :
    s.run (ts ++ us) = s'.run us := by
  induction h with
  | nil => rfl
  | cons ht _ ih =>
    rw [List.cons_append, run_cons_of_step ht, Outcome.resume_next, ih]

/-- How a list of tokens is worked off: all of it leads to another state, or some token
finishes a node, or some token is refused. -/
inductive Ending (s : State) : List Token → Prop
  | goesOn {ts : List Token} {s' : State} : Steps s ts s' → Ending s ts
  | done {ts : List Token} {t : Token} {us : List Token} {s' : State} {n : Node} :
      Steps s ts s' → s'.step t = .ok (.done n) → Ending s (ts ++ t :: us)
  | refused {ts : List Token} {t : Token} {us : List Token} {s' : State} {r : Refusal} :
      Steps s ts s' → s'.step t = .error r → Ending s (ts ++ t :: us)

theorem ending (s : State) (ts : List Token) : Ending s ts := by
  induction ts generalizing s with
  | nil => exact .goesOn .nil
  | cons t ts ih =>
    cases ht : s.step t with
    | error r => exact .refused .nil ht
    | ok o =>
      cases o with
      | done n => exact .done .nil ht
      | next s' =>
        cases ih s' with
        | goesOn hs => exact .goesOn (.cons ht hs)
        | done hs hd => exact .done (.cons ht hs) hd
        | refused hs hr => exact .refused (.cons ht hs) hr

/-! ## Every state can be completed -/

/-- A token that completes a form which lacks a node. -/
def symbolToken : Token := .bare .symbol "x"

/-- A parenthesis closes the innermost open form as soon as it has been handed a node. -/
theorem exists_resume_close (f : Frame) (frames : List Frame) (n : Node) (ts : List Token) :
    ∃ m us, ∀ rest, (deliver n ts (f :: frames)).resume (.closing :: rest) =
      (deliver m us frames).resume rest := by
  cases f with
  | operator start => exact ⟨_, _, fun _ => run_cons_of_step rfl⟩
  | operands start operator operands => exact ⟨_, _, fun _ => run_cons_of_step rfl⟩
  | body names => exact ⟨_, _, fun _ => run_cons_of_step rfl⟩
  | quote start us ns => exact ⟨_, _, fun _ => run_cons_of_step rfl⟩
  | list start us ns => exact ⟨_, _, fun _ => run_cons_of_step rfl⟩

theorem exists_resume_deliver (frames : List Frame) (n : Node) (ts : List Token) :
    ∃ m, (deliver n ts frames).resume (List.replicate frames.length .closing) =
      .ok (m, []) := by
  induction frames generalizing n ts with
  | nil => exact ⟨n, rfl⟩
  | cons f frames ih =>
    obtain ⟨m, us, hclose⟩ := exists_resume_close f frames n ts
    obtain ⟨m', hm⟩ := ih m us
    refine ⟨m', ?_⟩
    rw [List.length_cons, List.replicate_succ, hclose, hm]

theorem step_form_symbol (mode : Mode) (frames : List Frame) :
    step ⟨.form mode, frames⟩ symbolToken = .ok (deliver (.symbol "x") [symbolToken] frames) :=
  form_of_atom (.symbol rfl : Grammar.IsAtom mode symbolToken (.symbol "x"))

theorem exists_run_form (mode : Mode) (frames : List Frame) :
    ∃ us n, run ⟨.form mode, frames⟩ us = .ok (n, []) := by
  obtain ⟨n, hn⟩ := exists_resume_deliver frames (.symbol "x") [symbolToken]
  refine ⟨symbolToken :: List.replicate frames.length .closing, n, ?_⟩
  rw [run_cons_of_step (step_form_symbol mode frames), hn]

/-- Some tokens complete what has been read so far, whatever it is. -/
theorem exists_run (s : State) : ∃ us n, s.run us = .ok (n, []) := by
  rcases s with ⟨expecting, frames⟩
  cases expecting with
  | form mode => exact exists_run_form mode frames
  | opened start =>
    obtain ⟨n, hn⟩ :=
      exists_resume_deliver (.operator start :: frames) (.symbol "x") [symbolToken]
    refine ⟨symbolToken :: List.replicate (frames.length + 1) .closing, n, ?_⟩
    have hx : ¬ Grammar.IsKeyword symbolToken.text := by
      simp [Grammar.IsKeyword, symbolToken, Token.bare]
    rw [run_opened hx, run_cons_of_step (step_form_symbol _ _)]
    exact hn
  | parameters start =>
    obtain ⟨us, n, hn⟩ := exists_run_form .code (.body [] :: frames)
    refine ⟨.opening :: .closing :: us, n, ?_⟩
    rw [run_cons_of_step rfl, Outcome.resume_next, run_cons_of_step rfl]
    exact hn
  | parameter start names =>
    obtain ⟨us, n, hn⟩ := exists_run_form .code (.body names.reverse :: frames)
    refine ⟨.closing :: us, n, ?_⟩
    rw [run_cons_of_step rfl]
    exact hn
  | lambdaEnd names n =>
    obtain ⟨m, hm⟩ := exists_resume_deliver frames (.lambda names n) []
    refine ⟨.closing :: List.replicate frames.length .closing, m, ?_⟩
    rw [run_cons_of_step rfl]
    exact hm

/-! ## Reasons -/

theorem isIncomplete_endReason (s : State) :
    s.endReason.isIncomplete = true ∧ ∀ text, s.endReason ≠ .custom text := by
  rcases s with ⟨expecting, frames⟩
  cases expecting with
  | form mode =>
    rcases frames with _ | ⟨f, frames⟩
    · simp [endReason, Reason.isIncomplete]
    · cases f <;> simp [endReason, Reason.isIncomplete]
  | _ => simp [endReason, Reason.isIncomplete]

end State

/-- How a token is refused. Only what is no atom is taken before it is refused. -/
inductive Token.Refused (t : Token) : Refusal → Prop
  | expected (what : String) : Refused t (.before (.expected what t.text))
  | notParameter : Refused t (.before (.notParameter t.text))
  | duplicateParameter : Refused t (.before (.duplicateParameter t.text))
  | emptyApplication : Refused t (.before .emptyApplication)
  | unexpected : Refused t (.after (.unexpected t.text))
  | integerRange : Refused t (.after (.integerRange t.text))
  | floatRange : Refused t (.after (.floatRange t.text))
  | numeral {mode : Mode} {error : NumeralError} :
      Node.ofAtom mode t = .error (.numeral error) → Refused t (.numeral error)

/-- A token is refused for what it is. -/
theorem Token.Refused.final {t : Token} {r : Refusal} (h : t.Refused r) : r.Final := by
  cases h with
  | expected _ | notParameter | duplicateParameter | emptyApplication =>
    exact Refusal.final_before rfl nofun
  | unexpected | integerRange | floatRange => exact Refusal.final_after rfl nofun
  | numeral _ => exact nofun

theorem Node.refused_of_ofAtom {mode : Mode} {t : Token} {r : Refusal}
    (h : Node.ofAtom mode t = .error r) : t.Refused r := by
  have hatom := h
  unfold Node.ofAtom at h
  split at h
  · split at h
    · cases h
      exact .numeral hatom
    · split at h
      · exact Except.error.inj h ▸ .integerRange
      · contradiction
  · split at h
    · cases h
      exact .numeral hatom
    · split at h
      · exact Except.error.inj h ▸ .floatRange
      · contradiction
  · contradiction
  · contradiction
  · exact Except.error.inj h ▸ .unexpected
  · exact Except.error.inj h ▸ .unexpected

namespace State

variable {s s' : State} {t : Token} {ts us : List Token} {frames : List Frame} {mode : Mode}
  {r : Refusal}

theorem refused_of_close (h : close t frames = .error r) : t.Refused r := by
  unfold close at h
  split at h
  · exact Except.error.inj h ▸ .emptyApplication
  · contradiction
  · contradiction
  · contradiction
  · exact Except.error.inj h ▸ .unexpected
  · exact Except.error.inj h ▸ .unexpected

theorem refused_of_form (h : form mode frames t = .error r) : t.Refused r := by
  unfold form at h
  split at h
  · contradiction
  · contradiction
  · exact refused_of_close h
  · simp only [bind, Except.bind] at h
    split at h
    next hn => exact Except.error.inj h ▸ Node.refused_of_ofAtom hn
    next => contradiction

theorem refused_of_step (h : s.step t = .error r) : t.Refused r := by
  unfold step at h
  split at h
  · exact refused_of_form h
  · split at h
    · contradiction
    · split at h
      · contradiction
      · exact refused_of_form h
  · split at h
    · contradiction
    · exact Except.error.inj h ▸ .expected _
  · split at h
    · contradiction
    · split at h
      · exact Except.error.inj h ▸ .duplicateParameter
      · contradiction
    · exact Except.error.inj h ▸ .notParameter
  · split at h
    · contradiction
    · exact Except.error.inj h ▸ .expected _

theorem final_of_step (h : s.step t = .error r) : r.Final := (refused_of_step h).final

end State

/-! ## Verdicts on token lists -/

/-- The error of a refused token, which depends neither on the tokens after it nor on the last
of all. -/
def Refusal.error (t : Token) : Refusal → ReadError
  | .before reason | .after reason => .parse ⟨reason, some t⟩
  | .numeral error => .numeral error

theorem Refusal.cause_failure (t : Token) (us : List Token) (last : Option Token) (r : Refusal) :
    (r.failure t us).cause.error last = r.error t := by
  cases r <;> rfl

/-- A parse error that blames a token and does not say that the tokens ended. -/
def ReadError.Blames (t : Token) (error : ReadError) : Prop :=
  ∀ e, error = .parse e → e.token = some t ∧ ¬ e.reason.IsTruncation

theorem Refusal.blames {r : Refusal} (h : r.Final) (t : Token) : (r.error t).Blames t := by
  intro e he
  cases r with
  | numeral error => contradiction
  | before reason | after reason =>
    obtain ⟨hi, hc⟩ := h reason rfl
    cases he
    exact ⟨rfl, by simp [Reason.isTruncation_iff hc, hi]⟩

/-- The state in which the parsing of an expression begins. -/
def State.start : State := ⟨.form .code, []⟩

section Parsing
variable {ts : List Token} {t : Token} {s : State} {n : Node} {r : Refusal}

open State (Steps start)

theorem parse_of_steps_refused (h : Steps start ts s) (ht : s.step t = .error r)
    (us : List Token) : parse (ts ++ t :: us) = .error (r.error t) := by
  have hform : Reading.form .code (ts ++ t :: us) = .error (r.failure t us) :=
    (State.run_append_of_steps h (t :: us)).trans (State.run_cons_of_refused ht)
  rw [parse, hform]
  exact congrArg Except.error (r.cause_failure t us _)

end Parsing

end StackLisp
