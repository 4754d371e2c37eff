import StackLisp.Proofs.Reader.Progress

/-!
# Forms are read part by part

The reader keeps open forms on a stack, but what it does can be told without one. Two tokens tell
what a form is. An application is an operator and the forms up to the parenthesis; a quote, and a
list among data, are the data up to the parenthesis; a lambda is its parameters, its body and the
parenthesis. Each is read by reading its parts in this order, and fails as the first part does that
fails. For the forms around a part are looked at only before its first token and behind its last.
-/

namespace StackLisp

open Grammar (Spells)

namespace State

variable {s s' : State} {t : Token} {ts rest : List Token} {frames outer : List Frame} {mode : Mode}
  {n : Node} {failure : Failure}

/-! ## Forms inside of others -/

/-- The same state inside of other open forms. -/
def within (s : State) (outer : List Frame) : State := ⟨s.expecting, s.frames ++ outer⟩

/-- A form has been begun and is not finished. -/
def Begun (s : State) : Prop := ∀ mode, s.expecting = .form mode → s.frames ≠ []

/-- What a token leads to, and what it leads to inside of other open forms. Where a form is
finished nothing is said, for there the innermost of those takes it. -/
inductive Agree (outer : List Frame) : Except Refusal Outcome → Except Refusal Outcome → Prop
  | refused {r : Refusal} : Agree outer (.error r) (.error r)
  | next {s : State} : s.Begun → Agree outer (.ok (.next s)) (.ok (.next (s.within outer)))
  | done {n : Node} {o : Outcome} : Agree outer (.ok (.done n)) (.ok o)

theorem begun_cons {e : Expecting} {f : Frame} : Begun ⟨e, f :: frames⟩ :=
  fun _ _ => List.cons_ne_nil f frames

theorem begun_of_ne {e : Expecting} (h : ∀ mode, e ≠ .form mode) : Begun ⟨e, frames⟩ :=
  fun mode he => absurd he (h mode)

theorem agree_deliver (n : Node) (us : List Token) (frames outer : List Frame) :
    Agree outer (.ok (deliver n us frames)) (.ok (deliver n us (frames ++ outer))) := by
  cases frames with
  | nil => exact .done
  | cons f frames =>
    cases f with
    | body _ => exact .next (begun_of_ne (by simp))
    | operator _ | operands _ _ _ | quote _ _ _ | list _ _ _ => exact .next begun_cons

theorem agree_close (h : frames ≠ []) (t : Token) (outer : List Frame) :
    Agree outer (close t frames) (close t (frames ++ outer)) := by
  cases frames with
  | nil => contradiction
  | cons f frames =>
    cases f with
    | operator _ | body _ => exact .refused
    | operands _ _ _ | quote _ _ _ | list _ _ _ => exact agree_deliver _ _ _ _

theorem agree_form (h : t.kind = .closeParen → frames ≠ []) (mode : Mode) (outer : List Frame) :
    Agree outer (form mode frames t) (form mode (frames ++ outer) t) := by
  by_cases hc : t.kind = .closeParen
  · rw [form_close hc, form_close hc]
    exact agree_close (h hc) t outer
  · by_cases ho : t.kind = .openParen
    · cases mode with
      | code =>
        rw [form_open ho, form_open ho]
        exact .next (begun_of_ne (by simp))
      | data =>
        rw [form_open_data ho, form_open_data ho]
        exact .next begun_cons
    · rw [form_of_ne_parens ho hc, form_of_ne_parens ho hc]
      cases Node.ofAtom mode t with
      | ok n => exact agree_deliver n [t] frames outer
      | error r => exact .refused

theorem agree_step (h : s.Begun) (t : Token) (outer : List Frame) :
    Agree outer (s.step t) ((s.within outer).step t) := by
  obtain ⟨e, frames⟩ := s
  rw [within]
  cases e with
  | form mode => exact agree_form (fun _ => h mode rfl) mode outer
  | opened start =>
    by_cases hl : t.text = "lambda"
    · simp only [step, hl, if_true]
      exact .next (begun_of_ne (by simp))
    · by_cases hq : t.text = "quote"
      · simp only [step, hq, if_true]
        exact .next begun_cons
      · simp only [step, hl, hq, if_false]
        exact agree_form (fun _ => List.cons_ne_nil _ _) .code outer
  | parameters start =>
    by_cases hk : t.kind = .openParen
    · simp only [step, hk, if_true]
      exact .next (begun_of_ne (by simp))
    · simp only [step, hk, if_false]
      exact .refused
  | parameter start names =>
    cases hk : t.kind with
    | closeParen =>
      simp only [step, hk]
      exact .next begun_cons
    | symbol =>
      by_cases hmem : t.text ∈ names
      · simp only [step, hk, hmem, if_true]
        exact .refused
      · simp only [step, hk, hmem, if_false]
        exact .next (begun_of_ne (by simp))
    | openParen | float | integer | string =>
      simp only [step, hk]
      exact .refused
  | lambdaEnd names body =>
    by_cases hk : t.kind = .closeParen
    · simp only [step, hk, if_true]
      exact agree_deliver _ _ _ _
    · simp only [step, hk, if_false]
      exact .refused

theorem endReason_within (h : s.Begun) (outer : List Frame) :
    (s.within outer).endReason = s.endReason := by
  obtain ⟨e, frames⟩ := s
  cases e with
  | form mode =>
    cases frames with
    | nil => exact absurd rfl (h mode rfl)
    | cons f frames => cases f <;> rfl
  | opened _ | parameters _ | parameter _ _ | lambdaEnd _ _ => rfl

/-- A form that was begun fails inside of others as it fails alone. -/
theorem run_within_error (hs : s.Begun) (h : s.run ts = .error failure) :
    (s.within outer).run ts = .error failure := by
  induction ts generalizing s with
  | nil =>
    rw [run, endReason_within hs]
    exact h
  | cons t ts ih =>
    have hstep := agree_step hs t outer
    rw [run] at h ⊢
    generalize s.step t = x at h hstep
    generalize (s.within outer).step t = y at hstep ⊢
    cases hstep with
    | refused => exact h
    | next hbegun => exact ih hbegun h
    | done => contradiction

/-- So does a form that begins. -/
theorem run_form_error (hc : t.kind ≠ .closeParen)
    (h : run ⟨.form mode, []⟩ (t :: ts) = .error failure) (outer : List Frame) :
    run ⟨.form mode, outer⟩ (t :: ts) = .error failure := by
  have hstep : Agree outer (step ⟨.form mode, []⟩ t) (step ⟨.form mode, outer⟩ t) :=
    agree_form (fun hk => absurd hk hc) mode outer
  rw [run] at h ⊢
  generalize step ⟨.form mode, []⟩ t = x at h hstep
  generalize step ⟨.form mode, outer⟩ t = y at hstep ⊢
  cases hstep with
  | refused => exact h
  | next hbegun => exact run_within_error hbegun h
  | done => contradiction

/-- A part of a form of code is read as a form of its own, and then handed to it. -/
theorem run_part {f : Frame} (hmode : f.mode = .code)
    (hend : endReason ⟨.form .code, [f]⟩ = .endOfInput none)
    (hts : ∀ t ∈ ts.head?, t.kind ≠ .closeParen) :
    run ⟨.form .code, [f]⟩ ts = (do
      let (n, rest) ← Reading.form .code ts
      (deliver n [] [f]).resume rest) := by
  cases hform : Reading.form .code ts with
  | error failure =>
    cases ts with
    | nil =>
      rw [run, hend]
      exact hform
    | cons t ts => exact run_form_error (hts t rfl) hform [f]
  | ok p =>
    obtain ⟨n, rest⟩ := p
    obtain ⟨used, rfl, hs⟩ := Reading.form_eq_ok_iff.mp hform
    have hfits : Fits .code [f] := fits_cons.mpr hmode
    rw [delivers_of_spells hs _ rest hfits, deliver_code hfits n used.reverse []]
    rfl

/-! ## Nodes up to a parenthesis -/

/-- A form that gathers nodes up to the parenthesis that closes it. Its tokens and its nodes are
kept last first, and are put in order when the form becomes a node itself. -/
structure Gathers (mode : Mode) (start : Token) (what : String)
    (gather : List Token → List Node → Frame) (node : List Token → List Node → Node) : Prop where
  mode_eq : ∀ us ms, (gather us ms).mode = mode
  deliver_eq : ∀ n ts us ms, deliver n ts [gather us ms] =
    .next ⟨.form mode, [gather (ts ++ us) (n :: ms)]⟩
  close_eq : ∀ t us ms, close t [gather us ms] = .ok (.done (node us.reverse ms.reverse))
  endReason_eq : ∀ us ms, endReason ⟨.form mode, [gather us ms]⟩ = .unterminated what start.col

/-- The tokens that were taken, but for the last one. -/
def taken (ts rest : List Token) : List Token := ts.take (ts.length - rest.length - 1)

theorem taken_append {used rest' : List Token} (h : rest'.length < rest.length) :
    taken (used ++ rest) rest' = used ++ taken rest rest' := by
  have hlength : (used ++ rest).length - rest'.length - 1 =
      used.length + (rest.length - rest'.length - 1) := by
    rw [List.length_append]
    omega
  rw [taken, hlength, List.take_length_add_append, taken]

variable {start : Token} {what : String} {gather : List Token → List Node → Frame}
  {node : List Token → List Node → Node}

theorem Gathers.run_of_form (h : Gathers mode start what gather node)
    (hform : Reading.form mode ts = .ok (n, rest)) (us : List Token) (ms : List Node) :
    ∃ used, ts = used ++ rest ∧ run ⟨.form mode, [gather us ms]⟩ ts =
      run ⟨.form mode, [gather (used.reverse ++ us) (n :: ms)]⟩ rest := by
  obtain ⟨used, rfl, hs⟩ := Reading.form_eq_ok_iff.mp hform
  have hfits : Fits mode [gather us ms] := fits_cons.mpr (h.mode_eq us ms)
  refine ⟨used, rfl, ?_⟩
  rw [delivers_of_spells hs _ rest hfits, h.deliver_eq, Outcome.resume_next]

theorem Gathers.run_eq (h : Gathers mode start what gather node) (us : List Token)
    (ms : List Node) (ts : List Token) :
    run ⟨.form mode, [gather us ms]⟩ ts = (Reading.untilClose start what mode ts).map
      fun p => (node (us.reverse ++ taken ts p.2) (ms.reverse ++ p.1), p.2) := by
  fun_induction Reading.untilClose start what mode ts generalizing us ms with
  | case1 =>
    rw [run, h.endReason_eq]
    rfl
  | case2 t ts hclose =>
    have hstep : step ⟨.form mode, [gather us ms]⟩ t = .ok (.done (node us.reverse ms.reverse)) :=
      (form_close hclose).trans (h.close_eq t us ms)
    have hnone : taken (t :: ts) ts = [] := by simp [taken]
    rw [run_cons_of_step hstep, Except.map, hnone, List.append_nil, List.append_nil]
    rfl
  | case3 t ts hclose failure hform => exact run_form_error hclose hform _
  | case4 t ts hclose n rest hform ih =>
    obtain ⟨used, hused, hrun⟩ := h.run_of_form hform us ms
    rw [hrun, ih]
    have hleaves := Reading.leaves_untilClose start what mode rest
    generalize Reading.untilClose start what mode rest = x at hleaves
    cases hleaves with
    | error _ => rfl
    | @ok ns rest' used' hused' hpos =>
      have hlt : rest'.length < rest.length := by
        rw [← hused', List.length_append]
        omega
      rw [hused]
      simp only [Except.map, bind, Except.bind, pure, Except.pure, taken_append hlt,
        List.reverse_append, List.reverse_reverse, List.reverse_cons, List.append_assoc,
        List.singleton_append]

theorem gathers_list (start : Token) :
    Gathers .data start "quoted list" (.list start) fun _ ns => .list ns :=
  ⟨fun _ _ => rfl, fun _ _ _ _ => rfl, fun _ _ _ => rfl, fun _ _ => rfl⟩

theorem gathers_quote (start : Token) :
    Gathers .data start "quote" (.quote start) fun us ns => .quote (Token.joinText us) ns :=
  ⟨fun _ _ => rfl, fun _ _ _ _ => rfl, fun _ _ _ => rfl, fun _ _ => rfl⟩

theorem gathers_operands (start : Token) (f : Node) :
    Gathers .code start "list" (fun _ ns => .operands start f ns) fun _ ns => .application f ns :=
  ⟨fun _ _ => rfl, fun _ _ _ _ => rfl, fun _ _ _ => rfl, fun _ _ => rfl⟩

end State

namespace Reading

open State (taken)

variable {start keyword t : Token} {ts : List Token} {mode : Mode}

theorem openParen_cons (h : start.kind = .openParen) (ts : List Token) :
    openParen (start :: ts) = .ok (start, ts) := if_pos h

theorem lambda_cons (h : start.kind = .openParen) (keyword : Token) (ts : List Token) :
    lambda (start :: keyword :: ts) = State.run ⟨.parameters start, []⟩ ts := by
  rw [lambda, openParen_cons h]
  rfl

theorem quote_cons (h : start.kind = .openParen) (keyword : Token) (ts : List Token) :
    quote (start :: keyword :: ts) = State.run ⟨.form .data, [.quote start [] []]⟩ ts := by
  rw [quote, openParen_cons h]
  rfl

theorem application_cons (h : start.kind = .openParen) (ts : List Token) :
    application (start :: ts) = State.run ⟨.form .code, [.operator start]⟩ ts := by
  rw [application, openParen_cons h]
  rfl

/-! ## What a form is -/

theorem form_of_ne_openParen (h : t.kind ≠ .openParen) (ts : List Token) :
    form mode (t :: ts) = atom mode (t :: ts) := by
  have hstep : State.step ⟨.form mode, []⟩ t = State.form mode [] t := rfl
  rw [form, atom, State.run, hstep]
  by_cases hc : t.kind = .closeParen
  · rw [State.form_close hc, Node.ofAtom, hc]
    rfl
  · rw [State.form_of_ne_parens h hc]
    cases Node.ofAtom mode t <;> rfl

/-- In code the text behind an opening parenthesis decides what is read. -/
theorem form_openParen (h : start.kind = .openParen) (ts : List Token) :
    form .code (start :: ts) =
      if ts.head?.map Token.text = some "lambda" then lambda (start :: ts)
      else if ts.head?.map Token.text = some "quote" then quote (start :: ts)
      else application (start :: ts) := by
  have hstep : State.step ⟨.form .code, []⟩ start = .ok (.next ⟨.opened start, []⟩) :=
    State.form_open h
  rw [form, State.run_cons_of_step hstep, Outcome.resume_next, application_cons h]
  cases ts with
  | nil => rfl
  | cons keyword ts =>
    rw [lambda_cons h, quote_cons h]
    simp only [List.head?_cons, Option.map_some, Option.some.injEq, State.run, State.step]
    by_cases hl : keyword.text = "lambda"
    · rw [if_pos hl, if_pos hl]
    · by_cases hq : keyword.text = "quote"
      · rw [if_neg hl, if_neg hl, if_pos hq, if_pos hq]
      · rw [if_neg hl, if_neg hl, if_neg hq, if_neg hq]

/-! ## What a form is made of -/

theorem list_by_parts (h : start.kind = .openParen) (ts : List Token) :
    form .data (start :: ts) =
      (untilClose start "quoted list" .data ts).map fun p => (.list p.1, p.2) := by
  have hstep : State.step ⟨.form .data, []⟩ start =
      .ok (.next ⟨.form .data, [.list start [] []]⟩) := State.form_open_data h
  rw [form, State.run_cons_of_step hstep, Outcome.resume_next, (State.gathers_list start).run_eq]
  rfl

/-- A quote keeps its tokens up to the parenthesis as well as the data. -/
theorem quote_by_parts (h : start.kind = .openParen) (keyword : Token) (ts : List Token) :
    quote (start :: keyword :: ts) = (untilClose start "quote" .data ts).map
      fun p => (.quote (Token.joinText (taken ts p.2)) p.1, p.2) := by
  rw [quote_cons h, (State.gathers_quote start).run_eq]
  rfl

theorem application_empty (h : start.kind = .openParen) (ht : t.kind = .closeParen)
    (ts : List Token) :
    application (start :: t :: ts) = .error ⟨.refused .emptyApplication t, t :: ts⟩ := by
  have hstep : State.step ⟨.form .code, [.operator start]⟩ t =
      .error (.before .emptyApplication) := State.form_close ht
  rw [application_cons h, State.run_cons_of_refused hstep, Refusal.failure]

theorem application_by_parts (h : start.kind = .openParen)
    (hts : ∀ t ∈ ts.head?, t.kind ≠ .closeParen) :
    application (start :: ts) = (do
      let (f, rest) ← form .code ts
      (untilClose start "list" .code rest).map fun p => (.application f p.1, p.2)) := by
  rw [application_cons h, State.run_part rfl rfl hts]
  exact bind_congr fun p => (State.gathers_operands start p.1).run_eq [] [] p.2

/-- Takes the parameters of a lambda up to the parenthesis, behind others, which are kept last
first. -/
def parameters (start : Token) (names : List String) :
    List Token → Except Failure (List String × List Token)
  | [] => .error ⟨.incomplete (.unterminatedParameters start.col), []⟩
  | t :: ts =>
    match t.kind with
    | .closeParen => .ok (names.reverse, ts)
    | .symbol =>
      if t.text ∈ names then .error ⟨.refused (.duplicateParameter t.text) t, t :: ts⟩
      else parameters start (t.text :: names) ts
    | _ => .error ⟨.refused (.notParameter t.text) t, t :: ts⟩

theorem run_parameters_eq (start : Token) (names : List String) (ts : List Token) :
    State.run ⟨.parameter start names, []⟩ ts = (do
      let (names, rest) ← parameters start names ts
      State.run ⟨.form .code, [.body names]⟩ rest) := by
  induction ts generalizing names with
  | nil => rfl
  | cons t ts ih =>
    cases hk : t.kind with
    | closeParen =>
      simp only [State.run, State.step, parameters, hk]
      rfl
    | symbol =>
      by_cases hmem : t.text ∈ names
      · simp only [State.run, State.step, parameters, hk, hmem, if_true]
        rfl
      · simp only [State.run, State.step, parameters, hk, hmem, if_false]
        exact ih _
    | openParen | float | integer | string =>
      simp only [State.run, State.step, parameters, hk]
      rfl

theorem run_lambdaEnd_eq (names : List String) (body : Node) (ts : List Token) :
    State.run ⟨.lambdaEnd names body, []⟩ ts =
      (expect .closeParen "')' to close lambda" ts).map fun p => (.lambda names body, p.2) := by
  cases ts with
  | nil => rfl
  | cons t ts =>
    by_cases hk : t.kind = .closeParen
    · simp only [State.run, State.step, expect, hk, if_true]
      rfl
    · simp only [State.run, State.step, expect, hk, if_false]
      rfl

theorem run_body_eq (names : List String) (ts : List Token) :
    State.run ⟨.form .code, [.body names]⟩ ts = (do
      let (body, rest) ← form .code ts
      (expect .closeParen "')' to close lambda" rest).map
        fun p => (.lambda names body, p.2)) := by
  by_cases hclose : ∃ t ∈ ts.head?, t.kind = .closeParen
  · -- A parenthesis in the place of the body is refused as it is where no form is open.
    obtain ⟨t, ht, hk⟩ := hclose
    obtain ⟨ts, rfl⟩ := List.head?_eq_some_iff.mp ht
    have hbody : State.step ⟨.form .code, [.body names]⟩ t = .error (.after (.unexpected t.text)) :=
      State.form_close hk
    have hform : State.step ⟨.form .code, []⟩ t = .error (.after (.unexpected t.text)) :=
      State.form_close hk
    rw [State.run_cons_of_refused hbody, form, State.run_cons_of_refused hform]
    rfl
  · have hts : ∀ t ∈ ts.head?, t.kind ≠ .closeParen := fun t ht hk => hclose ⟨t, ht, hk⟩
    rw [State.run_part rfl rfl hts]
    exact bind_congr fun p => run_lambdaEnd_eq names p.1 p.2

/-- A lambda is its parameters in parentheses, its body and the parenthesis that closes it. -/
theorem lambda_by_parts (h : start.kind = .openParen) (keyword : Token) (ts : List Token) :
    lambda (start :: keyword :: ts) = (do
      let (_, rest) ← expect .openParen "'(' to open lambda parameters" ts
      let (names, rest) ← parameters start [] rest
      let (body, rest) ← form .code rest
      (expect .closeParen "')' to close lambda" rest).map
        fun p => (.lambda names body, p.2)) := by
  rw [lambda_cons h]
  cases ts with
  | nil => rfl
  | cons t ts =>
    by_cases hk : t.kind = .openParen
    · simp only [State.run, State.step, expect, hk, if_true, run_parameters_eq, run_body_eq]
      rfl
    · simp only [State.run, State.step, expect, hk, if_false]
      rfl

end Reading

/-- The call that reads what stands in front of some tokens as code. -/
def Call.ofForm : List Token → Call
  | [] => .atom .code
  | start :: ts =>
    if start.kind = .openParen then
      if ts.head?.map Token.text = some "lambda" then .lambda
      else if ts.head?.map Token.text = some "quote" then .quote
      else .application
    else .atom .code

/-- Asked for a form, a reader answers as if it were asked for what stands at its cursor. -/
theorem Reader.call_form (r : Reader) : r.call .form = r.call (.ofForm r.rest) := by
  have hread : ∀ reading, Reading.form .code r.rest = reading r.rest →
      r.call .form = r.read reading .form := by
    intro reading h
    rw [call, read, read, h]
  cases hrest : r.rest with
  | nil => exact hread (Reading.atom .code) (by rw [hrest]; rfl)
  | cons start ts =>
    rw [Call.ofForm]
    by_cases h : start.kind = .openParen
    · have hform := Reading.form_openParen h ts
      rw [← hrest] at hform
      rw [if_pos h]
      by_cases hl : ts.head?.map Token.text = some "lambda"
      · rw [if_pos hl] at hform ⊢
        exact hread _ hform
      · by_cases hq : ts.head?.map Token.text = some "quote"
        · rw [if_neg hl, if_pos hq] at hform ⊢
          exact hread _ hform
        · rw [if_neg hl, if_neg hq] at hform ⊢
          exact hread _ hform
    · have hform : Reading.form .code (start :: ts) = Reading.atom .code (start :: ts) :=
        Reading.form_of_ne_openParen h ts
      rw [← hrest] at hform
      rw [if_neg h]
      exact hread _ hform

end StackLisp
