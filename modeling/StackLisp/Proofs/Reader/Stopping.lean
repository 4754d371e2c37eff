import StackLisp.Proofs.Numeral.Oversized
import StackLisp.Proofs.Reader.Progress

/-!
# Where a failed call leaves a reader

A caller may go on after an error, so it matters where the reader stands then. If the tokens have
ended too early it stands at their end, and the last of all tokens is blamed. If a token cannot
stand where it does, it is the next one, for it is looked at before it is taken; only atoms are
taken first, and an atom that is refused is the token just behind the cursor, as is a numeral
that cannot be converted. All of this is decided by the one step that fails, however many forms
are open around it, and the readings that are made of others hand it on.
-/

namespace StackLisp

/-- The token was taken as an atom before it was refused: it is a number out of range, or a
parenthesis where an atom is due. -/
def Reason.IsOfAtom : Reason → Prop
  | .integerRange _ | .floatRange _ | .unexpected _ => True
  | .endOfInput _ | .unterminated .. | .unterminatedParameters _ | .expected .. | .notParameter _
  | .duplicateParameter _ | .emptyApplication | .trailing _ | .custom _ => False

/-! ## Readings -/

namespace Reading

variable {α β : Type} {ts us rest : List Token} {t : Token} {r : Refusal} {failure : Failure}
  {mode : Mode}

/-- Where among the tokens that it was given a reading has failed. -/
inductive Stopped (ts : List Token) : Failure → Prop
  | early {reason : Reason} : reason.IsTruncation → Stopped ts ⟨.incomplete reason, []⟩
  | before {reason : Reason} {t : Token} {rest : List Token} : ¬ reason.IsTruncation →
      ¬ reason.IsOfAtom → t :: rest <:+ ts → Stopped ts ⟨.refused reason t, t :: rest⟩
  | after {reason : Reason} {t : Token} {rest : List Token} : ¬ reason.IsTruncation →
      reason.IsOfAtom → t :: rest <:+ ts → Stopped ts ⟨.refused reason t, rest⟩
  | numeral {e : NumeralError} {t : Token} {rest : List Token} : t.Unconvertible e →
      t :: rest <:+ ts → Stopped ts ⟨.numeral e, rest⟩

/-- If the reading fails, it is known where. -/
def Stops (ts : List Token) (x : Except Failure α) : Prop :=
  ∀ failure, x = .error failure → Stopped ts failure

theorem Stopped.behind (h : Stopped rest failure) (hr : rest <:+ ts) : Stopped ts failure := by
  cases h with
  | early hreason => exact .early hreason
  | before htrunc hreason hsuffix => exact .before htrunc hreason (hsuffix.trans hr)
  | after htrunc hreason hsuffix => exact .after htrunc hreason (hsuffix.trans hr)
  | numeral hu hsuffix => exact .numeral hu (hsuffix.trans hr)

theorem stops_ok (a : α) : Stops ts (.ok a) := by
  rintro _ ⟨⟩

theorem stops_error (h : Stopped ts failure) : Stops (α := α) ts (.error failure) := by
  rintro _ ⟨⟩
  exact h

theorem stops_early {reason : Reason} (hi : reason.isIncomplete = true)
    (hc : ∀ text, reason ≠ .custom text) :
    Stops (α := α) ts (.error ⟨.incomplete reason, []⟩) :=
  stops_error (.early ((Reason.isTruncation_iff hc).mpr hi))

/-- A reading that goes on behind another one stops where that one does, or behind it. -/
theorem Stops.bind {least : Nat} {x : Except Failure (α × List Token)}
    {f : α × List Token → Except Failure β} (h : Stops ts x) (hl : Leaves least ts x)
    (hf : ∀ a rest, Stops rest (f (a, rest))) : Stops ts (x >>= f) := by
  cases hl with
  | @ok a rest used hu _ => exact fun failure he => (hf a rest failure he).behind ⟨used, hu⟩
  | error _ =>
    rintro _ ⟨⟩
    exact h _ rfl

/-- A token that is refused is the first one left, or the one before it. -/
theorem stopped_of_refused (h : t.Refused r) (ts : List Token) :
    Stopped (t :: ts) (r.failure t ts) := by
  have hfinal : ∀ reason ∈ r.reason?, ¬ reason.IsTruncation := by
    intro reason hreason
    obtain ⟨hi, hc⟩ := h.final reason hreason
    simp [Reason.isTruncation_iff hc, hi]
  -- Only atoms are taken before they are refused.
  cases h with
  | expected _ | notParameter | duplicateParameter | emptyApplication =>
    exact .before (hfinal _ rfl) id List.suffix_rfl
  | unexpected | integerRange | floatRange =>
    exact .after (hfinal _ rfl) trivial List.suffix_rfl
  | numeral hatom => exact .numeral (Node.unconvertible_of_ofAtom hatom) List.suffix_rfl

theorem stops_token (ts : List Token) : Stops ts (token ts) := by
  cases ts with
  | nil => exact stops_early rfl nofun
  | cons t ts => exact stops_ok _

theorem stops_expect (kind : Kind) (what : String) (ts : List Token) :
    Stops ts (expect kind what ts) := by
  cases ts with
  | nil => exact stops_early rfl nofun
  | cons t ts =>
    rw [expect]
    split
    · exact stops_ok _
    · exact stops_error (stopped_of_refused (.expected what) ts)

theorem stops_atom (mode : Mode) (ts : List Token) : Stops ts (atom mode ts) := by
  cases ts with
  | nil => exact stops_early rfl nofun
  | cons t ts =>
    rw [atom]
    split
    next => exact stops_ok _
    next r hatom => exact stops_error (stopped_of_refused (Node.refused_of_ofAtom hatom) ts)

/-- Each token is taken, and finishes a node or does not, or it is refused. -/
theorem stops_run (s : State) (ts : List Token) : Stops ts (s.run ts) := by
  induction ts generalizing s with
  | nil =>
    obtain ⟨hi, hc⟩ := s.isIncomplete_endReason
    exact stops_early hi hc
  | cons t ts ih =>
    unfold State.run
    split
    next s' _ => exact fun failure h => (ih s' failure h).behind (List.suffix_cons t ts)
    next => exact stops_ok _
    next r hstep => exact stops_error (stopped_of_refused (State.refused_of_step hstep) ts)

theorem stops_lambda (ts : List Token) : Stops ts (lambda ts) := by
  have hopen := takesOne_expect .openParen "'('" ts
  refine (stops_expect .openParen "'('" ts).bind hopen.leaves fun start rest => ?_
  exact (stops_token rest).bind (takesOne_token rest).leaves fun _ rest => stops_run _ rest

theorem stops_quote (ts : List Token) : Stops ts (quote ts) := by
  have hopen := takesOne_expect .openParen "'('" ts
  refine (stops_expect .openParen "'('" ts).bind hopen.leaves fun start rest => ?_
  exact (stops_token rest).bind (takesOne_token rest).leaves fun _ rest => stops_run _ rest

theorem stops_application (ts : List Token) : Stops ts (application ts) := by
  have hopen := takesOne_expect .openParen "'('" ts
  exact (stops_expect .openParen "'('" ts).bind hopen.leaves fun start rest => stops_run _ rest

/-- Reading a sequence stops in the form at its front, or in what follows. -/
theorem stops_cons {n : Node} {x : Except Failure (List Node × List Token)}
    (hform : form mode ts = .ok (n, rest)) (hx : Stops rest x) :
    Stops ts (x >>= fun p => pure (n :: p.1, p.2)) := by
  have hleaves := leaves_run ⟨.form mode, []⟩ ts
  rw [← form, hform] at hleaves
  cases hleaves with
  | ok used hu _ =>
    intro failure h
    cases x with
    | ok p => cases h
    | error failure' =>
      cases h
      exact (hx _ rfl).behind ⟨used, hu⟩

theorem stops_failed (hform : form mode ts = .error failure) :
    Stops (α := α) ts (.error failure) :=
  stops_error (stops_run ⟨.form mode, []⟩ ts failure hform)

theorem stops_untilClose (start : Token) (what : String) (mode : Mode) (ts : List Token) :
    Stops ts (untilClose start what mode ts) := by
  fun_induction untilClose start what mode ts with
  | case1 => exact stops_early rfl (by simp)
  | case2 t ts _ => exact stops_ok _
  | case3 t ts _ failure hform => exact stops_failed hform
  | case4 t ts _ n rest hform ih => exact stops_cons hform ih

theorem stops_all (ts : List Token) : Stops ts (all ts) := by
  fun_induction all ts with
  | case1 ts _ => exact stops_ok _
  | case2 ts _ failure hform => exact stops_failed hform
  | case3 ts _ n rest hform ih => exact stops_cons hform ih

end Reading

/-! ## Calls -/

/-- The call reads something, and may fail. -/
def Call.Reads : Call → Prop
  | .atEnd | .peek _ => False
  | .token | .expect .. | .form | .datum | .atom _ | .lambda | .quote | .application | .all
  | .untilClose .. => True

namespace Reader

open Reading (Stopped Stops)

variable {α : Type} {r r' : Reader} {t : Token} {rest : List Token}

/-- Where a reader stands after an error: at the end, at the token that is blamed, or just
behind it. -/
inductive StandsAt (r : Reader) : ReadError → Prop
  | ending {e : ParseError} : e.reason.IsTruncation → r.cursor = r.tokens.length →
      e.token = r.tokens.getLast? → (e.token = none ↔ r.tokens = []) → StandsAt r (.parse e)
  | behind {e : ParseError} {t : Token} {k : Nat} : ¬ e.reason.IsTruncation →
      e.reason.IsOfAtom → e.token = some t → r.tokens[k]? = some t → r.cursor = k + 1 →
      StandsAt r (.parse e)
  | before {e : ParseError} {t : Token} : ¬ e.reason.IsTruncation → ¬ e.reason.IsOfAtom →
      e.token = some t → r.tokens[r.cursor]? = some t → StandsAt r (.parse e)
  | numeral {e : NumeralError} {t : Token} {k : Nat} : t.Unconvertible e →
      r.tokens[k]? = some t → r.cursor = k + 1 → StandsAt r (.numeral e)

/-- A reader that leaves an end of its tokens stands in front of it. -/
theorem exists_leave (h : t :: rest <:+ r.tokens) : ∃ k, r.tokens[k]? = some t ∧
    (r.leave (t :: rest)).cursor = k ∧ (r.leave rest).cursor = k + 1 := by
  obtain ⟨before, hsplit⟩ := h
  have hlength := congrArg List.length hsplit
  rw [List.length_append, List.length_cons] at hlength
  refine ⟨before.length, by simp [← hsplit], ?_, ?_⟩
  · dsimp only [leave, List.length_cons]
    omega
  · dsimp only [leave]
    omega

/-- A reader stands where the reading has stopped. -/
theorem standsAt_leave {failure : Failure} (h : Stopped r.tokens failure) :
    (r.leave failure.rest).StandsAt (failure.cause.error r.tokens.getLast?) := by
  cases h with
  | early hreason => exact .ending hreason rfl rfl List.getLast?_eq_none_iff
  | before htrunc hreason hsuffix =>
    obtain ⟨k, ht, hcursor, -⟩ := exists_leave hsuffix
    exact .before htrunc hreason rfl (hcursor ▸ ht)
  | after htrunc hreason hsuffix =>
    obtain ⟨k, ht, -, hcursor⟩ := exists_leave hsuffix
    exact .behind htrunc hreason rfl ht hcursor
  | numeral hu hsuffix =>
    obtain ⟨k, ht, -, hcursor⟩ := exists_leave hsuffix
    exact .numeral hu ht hcursor

/-- The error of a call that reads, and the reader after it. -/
theorem exists_of_read_error {reading : List Token → Except Failure (α × List Token)}
    {answer : α → Answer} {error : CallError} (hstops : Stops r.rest (reading r.rest))
    (h : r.read reading answer = (.error error, r')) :
    ∃ e, error = .read e ∧ r'.tokens = r.tokens ∧ r'.StandsAt e := by
  unfold read at h
  split at h
  next => cases h
  next failure hfailure =>
    cases h
    have hsuffix : r.rest <:+ r.tokens := List.drop_suffix r.cursor r.tokens
    exact ⟨_, rfl, rfl, standsAt_leave ((hstops failure hfailure).behind hsuffix)⟩

end Reader

/-- A call that reads fails with an error of the reader, and leaves it in one of four places. If
the tokens have ended too early it stands at their end, and the last of them is blamed, if there
is one. If an atom is refused it stands just behind the token that is blamed, and if another token
is refused it stands in front of it. If a numeral cannot be converted it stands just behind it.
The tokens stay the same. -/
theorem failed_call_leaves_reader {r r' : Reader} {c : Call} {error : CallError} (hc : c.Reads)
    (h : r.call c = (.error error, r')) :
    ∃ e, error = .read e ∧ r'.tokens = r.tokens ∧ r'.StandsAt e := by
  cases c with
  | atEnd | peek _ => contradiction
  | token => exact Reader.exists_of_read_error (Reading.stops_token _) h
  | expect kind what => exact Reader.exists_of_read_error (Reading.stops_expect kind what _) h
  | form | datum => exact Reader.exists_of_read_error (Reading.stops_run _ _) h
  | atom mode => exact Reader.exists_of_read_error (Reading.stops_atom mode _) h
  | lambda => exact Reader.exists_of_read_error (Reading.stops_lambda _) h
  | quote => exact Reader.exists_of_read_error (Reading.stops_quote _) h
  | application => exact Reader.exists_of_read_error (Reading.stops_application _) h
  | all => exact Reader.exists_of_read_error (Reading.stops_all _) h
  | untilClose start what mode =>
    exact Reader.exists_of_read_error (Reading.stops_untilClose start what mode _) h

/-- A reader in front of `(f 9223372036854775808)`, behind a parenthesis that closes nothing. -/
def overflowReader : Reader :=
  ⟨[.closing, .opening, .bare .symbol "f", .bare .integer "9223372036854775808", .closing], 1⟩

theorem failed_call_leaves_reader_overflowReader :
    Call.form.Reads ∧ ∃ e r', overflowReader.call .form = (.error (.read (.parse e)), r') ∧
      e.reason = .integerRange "9223372036854775808" ∧ r'.tokens = overflowReader.tokens ∧
      r'.StandsAt (.parse e) ∧ r'.cursor = 4 ∧ e.token = r'.tokens[3]? := by
  have hreads : Call.form.Reads := trivial
  have hcall : overflowReader.call .form =
      (.error (.read (.parse ⟨.integerRange "9223372036854775808",
        some (.bare .integer "9223372036854775808")⟩)), ⟨overflowReader.tokens, 4⟩) := rfl
  obtain ⟨_, ⟨⟩, htokens, hstands⟩ := failed_call_leaves_reader hreads hcall
  exact ⟨hreads, _, _, hcall, rfl, htokens, hstands, rfl, rfl⟩

end StackLisp
