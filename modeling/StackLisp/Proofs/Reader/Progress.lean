import StackLisp.Proofs.Grammar.Window

/-!
# Readers move forward

A reader may be asked for anything, in any order, also in the middle of a form where an earlier
call has failed. Whatever it answers, its tokens stay what they are, and its cursor stays among
them and does not move back. What counts is what a reading leaves: an end of the tokens that it
was given, and after a success a shorter one. The loops of the reader end for this reason, since
each round of a loop reads something.
-/

namespace StackLisp

namespace Reading

variable {α β : Type} {least more : Nat} {ts rest : List Token}

/-- What is left of some tokens is an end of them, and a success has taken a number of them at
least. -/
inductive Leaves (least : Nat) (ts : List Token) : Except Failure (α × List Token) → Prop
  | ok {a : α} {rest : List Token} (used : List Token) :
      used ++ rest = ts → least ≤ used.length → Leaves least ts (.ok (a, rest))
  | error {failure : Failure} : failure.rest <:+ ts → Leaves least ts (.error failure)

/-- What is left of an end is left of all tokens. -/
theorem Leaves.behind {used : List Token} {x : Except Failure (α × List Token)}
    (h : Leaves more rest x) (hu : used ++ rest = ts) :
    Leaves (used.length + more) ts x := by
  cases h with
  | ok used' hr hm =>
    refine .ok (used ++ used') ?_ ?_
    · rw [List.append_assoc, hr, hu]
    · rw [List.length_append]
      exact Nat.add_le_add_left hm used.length
  | error hr => exact .error (hr.trans ⟨used, hu⟩)

theorem Leaves.mono {x : Except Failure (α × List Token)} (h : Leaves more ts x)
    (hle : least ≤ more) : Leaves least ts x := by
  cases h with
  | ok used hu hm => exact .ok used hu (Nat.le_trans hle hm)
  | error hr => exact .error hr

/-- Two readings in a row. -/
theorem Leaves.bind {x : Except Failure (α × List Token)}
    {f : α × List Token → Except Failure (β × List Token)} (h : Leaves least ts x)
    (hf : ∀ a rest, Leaves more rest (f (a, rest))) : Leaves (least + more) ts (x >>= f) := by
  cases h with
  | @ok a rest used hu hm =>
    exact ((hf a rest).behind hu).mono (Nat.add_le_add_right hm more)
  | error hr => exact .error hr

/-! ## Single tokens -/

/-- One token is taken, or none if the reading fails. -/
inductive TakesOne (ts : List Token) : Except Failure (Token × List Token) → Prop
  | ok {t : Token} {rest : List Token} : t :: rest = ts → TakesOne ts (.ok (t, rest))
  | error {cause : Cause} : TakesOne ts (.error ⟨cause, ts⟩)

theorem TakesOne.leaves {x : Except Failure (Token × List Token)} (h : TakesOne ts x) :
    Leaves 1 ts x := by
  cases h with
  | @ok t rest ht => exact .ok [t] ht (Nat.le_refl 1)
  | error => exact .error List.suffix_rfl

theorem takesOne_token (ts : List Token) : TakesOne ts (token ts) := by
  cases ts with
  | nil => exact .error
  | cons t ts => exact .ok rfl

theorem takesOne_expect (kind : Kind) (what : String) (ts : List Token) :
    TakesOne ts (expect kind what ts) := by
  cases ts with
  | nil => exact .error
  | cons t ts =>
    rw [expect]
    split
    · exact .ok rfl
    · exact .error

/-- A refused token is left with those behind it, or these are left. -/
theorem leaves_refused {t : Token} (r : Refusal) (least : Nat) (ts : List Token) :
    Leaves (α := α) least (t :: ts) (.error (r.failure t ts)) := by
  cases r with
  | before reason => exact .error List.suffix_rfl
  | after reason | numeral error => exact .error (List.suffix_cons t ts)

theorem leaves_atom (mode : Mode) (ts : List Token) : Leaves 1 ts (atom mode ts) := by
  cases ts with
  | nil => exact .error List.suffix_rfl
  | cons t ts =>
    rw [atom]
    split
    · exact .ok [t] rfl (Nat.le_refl 1)
    · exact leaves_refused _ 1 ts

/-! ## Forms -/

/-- Each token is taken, and finishes a node or does not, or it is refused. -/
theorem leaves_run (s : State) (ts : List Token) : Leaves 1 ts (s.run ts) := by
  induction ts generalizing s with
  | nil => exact .error List.suffix_rfl
  | cons t ts ih =>
    unfold State.run
    split
    next s' _ =>
      have hu : [t] ++ ts = t :: ts := rfl
      exact ((ih s').behind hu).mono (Nat.le_add_left 1 1)
    next => exact .ok [t] rfl (Nat.le_refl 1)
    next r _ => exact leaves_refused r 1 ts

theorem leaves_lambda (ts : List Token) : Leaves 1 ts (lambda ts) := by
  have hopen := (takesOne_expect .openParen "'('" ts).leaves
  have hlambda : Leaves (1 + (1 + 1)) ts (lambda ts) := hopen.bind fun start rest =>
    (takesOne_token rest).leaves.bind fun _ rest => leaves_run ⟨.parameters start, []⟩ rest
  exact hlambda.mono (Nat.le_add_right 1 2)

theorem leaves_quote (ts : List Token) : Leaves 1 ts (quote ts) := by
  have hopen := (takesOne_expect .openParen "'('" ts).leaves
  have hquote : Leaves (1 + (1 + 1)) ts (quote ts) := hopen.bind fun start rest =>
    (takesOne_token rest).leaves.bind fun _ rest =>
      leaves_run ⟨.form .data, [.quote start [] []]⟩ rest
  exact hquote.mono (Nat.le_add_right 1 2)

theorem leaves_application (ts : List Token) : Leaves 1 ts (application ts) := by
  have hopen := (takesOne_expect .openParen "'('" ts).leaves
  have happlication : Leaves (1 + 1) ts (application ts) := hopen.bind fun start rest =>
    leaves_run ⟨.form .code, [.operator start]⟩ rest
  exact happlication.mono (Nat.le_add_right 1 1)

/-! ## Sequences -/

/-- Reading one node and then a sequence of nodes. -/
theorem leaves_cons {mode : Mode} {n : Node} {x : Except Failure (List Node × List Token)}
    (hform : form mode ts = .ok (n, rest)) (hx : Leaves least rest x) :
    Leaves 1 ts (x >>= fun p => pure (n :: p.1, p.2)) := by
  have hleaves := leaves_run ⟨.form mode, []⟩ ts
  rw [← form, hform] at hleaves
  cases hleaves with
  | ok used hu hm =>
    have hcons : Leaves (least + 0) rest (x >>= fun p => pure (n :: p.1, p.2)) :=
      hx.bind fun _ rest => .ok [] (List.nil_append rest) (Nat.le_refl 0)
    exact (hcons.behind hu).mono (Nat.le_trans hm (Nat.le_add_right _ _))

theorem leaves_failed {mode : Mode} {failure : Failure} (hform : form mode ts = .error failure) :
    Leaves (α := α) least ts (.error failure) := by
  have hleaves := leaves_run ⟨.form mode, []⟩ ts
  rw [← form, hform] at hleaves
  cases hleaves with
  | error hr => exact .error hr

theorem leaves_untilClose (start : Token) (what : String) (mode : Mode) (ts : List Token) :
    Leaves 1 ts (untilClose start what mode ts) := by
  fun_induction untilClose start what mode ts with
  | case1 => exact .error List.suffix_rfl
  | case2 t ts _ => exact .ok [t] rfl (Nat.le_refl 1)
  | case3 t ts _ failure hform => exact leaves_failed hform
  | case4 t ts _ n rest hform ih => exact leaves_cons hform ih

theorem leaves_all (ts : List Token) : Leaves 0 ts (all ts) := by
  fun_induction all ts with
  | case1 ts hempty => exact .ok ts (List.append_nil ts) (Nat.zero_le _)
  | case2 ts _ failure hform => exact leaves_failed hform
  | case3 ts _ n rest hform ih => exact (leaves_cons hform ih).mono (Nat.zero_le 1)

end Reading

/-! ## Calls -/

/-- How a call moves the cursor of a reader, if it succeeds and if it fails. -/
def Call.Moves (succeeds : Bool) (before after : Reader) : Call → Prop
  | .atEnd | .peek _ => after = before
  | .token | .expect _ _ => after.cursor = if succeeds then before.cursor + 1 else before.cursor
  | .form | .datum | .atom _ | .lambda | .quote | .application | .untilClose .. =>
    succeeds = true → before.cursor < after.cursor
  | .all => succeeds = true → after.cursor = before.tokens.length

namespace Reader

open Reading (Leaves TakesOne)

variable {α : Type} {r s t : Reader} {least : Nat} {rest used : List Token}

/-- The cursor stands in front of a token or at the end. -/
def Inside (r : Reader) : Prop := r.cursor ≤ r.tokens.length

/-- The second reader has the tokens of the first, and may stand further ahead. -/
structure Ahead (r s : Reader) : Prop where
  tokens : s.tokens = r.tokens
  forward : r.cursor ≤ s.cursor
  inside : s.Inside

theorem Ahead.refl (h : r.Inside) : r.Ahead r := ⟨rfl, Nat.le_refl _, h⟩

theorem Ahead.trans (h : r.Ahead s) (h' : s.Ahead t) : r.Ahead t :=
  ⟨h'.tokens.trans h.tokens, Nat.le_trans h.forward h'.forward, h'.inside⟩

/-- Where a reader goes that leaves an end of the tokens in front of it. -/
theorem leave_cursor (h : r.Inside) (hu : used ++ rest = r.rest) :
    (r.leave rest).cursor = r.cursor + used.length ∧ (r.leave rest).Inside := by
  have hlength := congrArg List.length hu
  rw [Reader.rest, List.length_append, List.length_drop] at hlength
  unfold Inside at *
  dsimp only [leave]
  omega

/-- What a call that reads leaves says how far it moves the cursor. -/
theorem ahead_read {reading : List Token → Except Failure (α × List Token)} {answer : α → Answer}
    (h : r.Inside) (hl : Leaves least r.rest (reading r.rest)) :
    r.Ahead (r.read reading answer).2 ∧ ((r.read reading answer).1.isOk = true →
      r.cursor + least ≤ (r.read reading answer).2.cursor) := by
  unfold read
  generalize reading r.rest = x at hl
  cases hl with
  | ok used hu hm =>
    obtain ⟨hcursor, hinside⟩ := leave_cursor h hu
    refine ⟨⟨rfl, ?_, hinside⟩, fun _ => ?_⟩
    · exact hcursor ▸ Nat.le_add_right _ _
    · exact hcursor ▸ Nat.add_le_add_left hm _
  | error hr =>
    obtain ⟨used, hu⟩ := hr
    obtain ⟨hcursor, hinside⟩ := leave_cursor h hu
    refine ⟨⟨rfl, ?_, hinside⟩, nofun⟩
    exact hcursor ▸ Nat.le_add_right _ _

/-- What a call that takes a single token leaves says where the cursor is. -/
theorem ahead_read_of_takesOne {reading : List Token → Except Failure (Token × List Token)}
    {answer : Token → Answer} (h : r.Inside) (hl : TakesOne r.rest (reading r.rest)) :
    r.Ahead (r.read reading answer).2 ∧ (r.read reading answer).2.cursor =
      if (r.read reading answer).1.isOk then r.cursor + 1 else r.cursor := by
  refine ⟨(ahead_read h hl.leaves).1, ?_⟩
  unfold read
  generalize reading r.rest = x at hl
  cases hl with
  | @ok u rest hu =>
    have hu : [u] ++ rest = r.rest := hu
    exact (leave_cursor h hu).1
  | error =>
    have hnone : [] ++ r.rest = r.rest := rfl
    exact (leave_cursor h hnone).1

theorem cursor_read_all (h : (r.read Reading.all .forms).1.isOk = true) :
    (r.read Reading.all .forms).2.cursor = r.tokens.length := by
  unfold read at h ⊢
  split
  next nodes rest hall =>
    obtain ⟨rfl, _⟩ := Reading.each_of_all hall
    rfl
  next failure hall =>
    rw [hall] at h
    contradiction

/-- One call: the reader goes ahead, and as far as the call says. -/
theorem ahead_call (h : r.Inside) (c : Call) :
    r.Ahead (r.call c).2 ∧ c.Moves (r.call c).1.isOk r (r.call c).2 := by
  -- Calls that read nothing, calls of one token, and the readings, which take one at least.
  cases c with
  | atEnd | peek _ => exact ⟨.refl h, rfl⟩
  | token => exact ahead_read_of_takesOne h (Reading.takesOne_token _)
  | expect kind what => exact ahead_read_of_takesOne h (Reading.takesOne_expect kind what _)
  | form | datum => exact ahead_read h (Reading.leaves_run _ _)
  | atom mode => exact ahead_read h (Reading.leaves_atom mode _)
  | lambda => exact ahead_read h (Reading.leaves_lambda _)
  | quote => exact ahead_read h (Reading.leaves_quote _)
  | application => exact ahead_read h (Reading.leaves_application _)
  | untilClose start what mode => exact ahead_read h (Reading.leaves_untilClose start what mode _)
  | all => exact ⟨(ahead_read h (Reading.leaves_all _)).1, cursor_read_all⟩

/-! ## Runs -/

/-- The reader after a sequence of calls. -/
def after (r : Reader) : List Call → Reader
  | [] => r
  | c :: cs => (r.call c).2.after cs

theorem after_append (r : Reader) (cs more : List Call) :
    r.after (cs ++ more) = (r.after cs).after more := by
  induction cs generalizing r with
  | nil => rfl
  | cons c cs ih => exact ih _

/-- Each call of a sequence is answered by the reader after those before it. -/
theorem calls_append (r : Reader) (cs more : List Call) :
    r.calls (cs ++ more) = r.calls cs ++ (r.after cs).calls more := by
  induction cs generalizing r with
  | nil => rfl
  | cons c cs ih => exact congrArg (r.call c :: ·) (ih _)

theorem ahead_after (h : r.Inside) (cs : List Call) : r.Ahead (r.after cs) := by
  induction cs generalizing r with
  | nil => exact .refl h
  | cons c cs ih =>
    have hcall := (ahead_call h c).1
    exact hcall.trans (ih hcall.inside)

end Reader

/-- In any sequence of calls the tokens of a reader stay the same, and the cursor stays among them
and does not move back. Each call is answered by the reader that the calls before it have left.
It does not move the cursor, or it takes one token exactly if it succeeds, or at least one if it
succeeds, or all of them if it succeeds, as its sort is. -/
theorem reader_moves_forward (ts : List Token) (cs : List Call) :
    let start := Reader.ofTokens ts
    let r := start.after cs
    r.tokens = ts ∧ r.cursor ≤ ts.length ∧
      (∀ more, r.cursor ≤ (start.after (cs ++ more)).cursor) ∧
      ∀ c, start.calls (cs ++ [c]) = start.calls cs ++ [r.call c] ∧
        start.after (cs ++ [c]) = (r.call c).2 ∧ c.Moves (r.call c).1.isOk r (r.call c).2 := by
  intro start r
  have hstart : start.Inside := Nat.zero_le ts.length
  have hrun : start.Ahead r := Reader.ahead_after hstart cs
  refine ⟨hrun.tokens, ?_, ?_, ?_⟩
  · have hinside := hrun.inside
    rw [Reader.Inside, hrun.tokens] at hinside
    exact hinside
  · intro more
    rw [Reader.after_append]
    exact (Reader.ahead_after hrun.inside more).forward
  · intro c
    rw [Reader.calls_append, Reader.after_append]
    exact ⟨rfl, rfl, (Reader.ahead_call hrun.inside c).2⟩

/-- A lambda that fails at its third token has taken two, and the reader goes on from there. -/
example : ((Reader.ofTokens [.opening, .bare .integer "5", .closing]).calls
    [.lambda, .token, .form, .all]).map (·.2.cursor) = [2, 3, 3, 3] := by
  cbv

end StackLisp
