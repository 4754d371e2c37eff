import StackLisp.Proofs.Grammar.Basic

/-!
# Phrases are read

Whatever the grammar derives is read, in front of any further tokens and with any forms open
around it. A phrase in front of a stack of open forms has the effect of handing its node to
the innermost of them. This is proved for single phrases and for sequences at once, with the
tokens that follow and the stack left general.
-/

namespace StackLisp

namespace Outcome

/-- Goes on after a token. -/
def resume : Outcome → List Token → Except Failure (Node × List Token)
  | .next s, ts => s.run ts
  | .done n, ts => .ok (n, ts)

@[simp] theorem resume_next (s : State) (ts : List Token) : (next s).resume ts = s.run ts := rfl

end Outcome

/-- The mode in which an open form waits for its next node. -/
def Frame.mode : Frame → Mode
  | .operator _ | .operands .. | .body _ => .code
  | .quote .. | .list .. => .data

namespace State

variable {s : State} {t : Token} {ts rest : List Token} {frames : List Frame} {mode : Mode}

theorem run_cons_of_step {o : Outcome} (h : s.step t = .ok o) :
    s.run (t :: ts) = o.resume ts := by
  rw [run, h]
  cases o <;> rfl

theorem run_cons_of_refused {r : Refusal} (h : s.step t = .error r) :
    s.run (t :: ts) = .error (r.failure t ts) := by
  rw [run, h]

/-- The innermost open form, if there is one, waits in the given mode. -/
def Fits (mode : Mode) (frames : List Frame) : Prop := ∀ f ∈ frames.head?, f.mode = mode

@[simp] theorem fits_nil : Fits mode [] := by simp [Fits]

@[simp] theorem fits_cons {f : Frame} : Fits mode (f :: frames) ↔ f.mode = mode := by
  simp [Fits]

/-- Only data keep the tokens that a node is formed of. -/
theorem deliver_code (h : Fits .code frames) (n : Node) (ts us : List Token) :
    deliver n ts frames = deliver n us frames := by
  cases frames with
  | nil => rfl
  | cons f fs =>
    rw [fits_cons] at h
    cases f with
    | operator _ => rfl
    | operands _ _ _ => rfl
    | body _ => rfl
    | quote _ _ _ => simp [Frame.mode] at h
    | list _ _ _ => simp [Frame.mode] at h

theorem form_open (h : t.kind = .openParen) :
    form .code frames t = .ok (.next ⟨.opened t, frames⟩) := by
  simp only [form, h]

theorem form_open_data (h : t.kind = .openParen) :
    form .data frames t = .ok (.next ⟨.form .data, .list t [] [] :: frames⟩) := by
  simp only [form, h]

theorem form_close (h : t.kind = .closeParen) : form mode frames t = close t frames := by
  cases mode <;> simp only [form, h]

theorem form_of_ne_parens (ho : t.kind ≠ .openParen) (hc : t.kind ≠ .closeParen) :
    form mode frames t = (do
      let n ← Node.ofAtom mode t
      return deliver n [t] frames) := by
  unfold form
  split
  · contradiction
  · contradiction
  · contradiction
  · rfl

theorem form_of_atom {n : Node} (h : Grammar.IsAtom mode t n) :
    form mode frames t = .ok (deliver n [t] frames) := by
  rw [form_of_ne_parens h.kind_ne.1 h.kind_ne.2, Grammar.ofAtom_eq_ok_iff.mpr h]
  rfl

/-- A token that is no keyword starts the operator of an application. -/
theorem run_opened {start : Token} (h : ¬ Grammar.IsKeyword t.text) :
    run ⟨.opened start, frames⟩ (t :: ts) =
      run ⟨.form .code, .operator start :: frames⟩ (t :: ts) := by
  have hl : t.text ≠ "lambda" := fun e => h (.inl e)
  have hq : t.text ≠ "quote" := fun e => h (.inr e)
  simp only [run, step, hl, hq, if_false]

/-- The tokens are read as one node, in front of any others and under any open forms that
wait in the mode. -/
def Delivers (mode : Mode) (ts : List Token) (n : Node) : Prop :=
  ∀ frames rest, Fits mode frames →
    run ⟨.form mode, frames⟩ (ts ++ rest) = (deliver n ts.reverse frames).resume rest

theorem delivers_atom {n : Node} (h : Grammar.IsAtom mode t n) : Delivers mode [t] n := by
  intro frames rest _
  have hs : step ⟨.form mode, frames⟩ t = .ok (deliver n [t] frames) := form_of_atom h
  exact run_cons_of_step hs

/-- An open form that gathers the nodes handed to it gathers those of a sequence. -/
theorem run_each {R : List Token → Node → Prop} {ns : List Node}
    (gather : List Token → List Node → Frame)
    (hmode : ∀ us ms, (gather us ms).mode = mode)
    (hgather : ∀ n ts us ms, deliver n ts (gather us ms :: frames) =
      .next ⟨.form mode, gather (ts ++ us) (n :: ms) :: frames⟩)
    (hR : ∀ ts n, R ts n → Delivers mode ts n) (h : Grammar.Each R ts ns)
    (us : List Token) (ms : List Node) :
    run ⟨.form mode, gather us ms :: frames⟩ (ts ++ rest) =
      run ⟨.form mode, gather (ts.reverse ++ us) (ns.reverse ++ ms) :: frames⟩ rest := by
  induction h generalizing us ms with
  | nil => rfl
  | @cons ts' us' n ns hr _ ih =>
    have hd := hR ts' n hr (gather us ms :: frames) (us' ++ rest) (by simp [hmode])
    rw [List.append_assoc, hd, hgather, Outcome.resume_next, ih]
    simp only [List.reverse_append, List.reverse_cons, List.append_assoc, List.singleton_append]

theorem delivers_list {start stop : Token} {ns : List Node} (hl : start.kind = .openParen)
    (h : Grammar.Each (Delivers .data) ts ns) (hr : stop.kind = .closeParen) :
    Delivers .data (start :: ts ++ [stop]) (.list ns) := by
  intro frames rest _
  have hopen : step ⟨.form .data, frames⟩ start =
      .ok (.next ⟨.form .data, .list start [] [] :: frames⟩) := form_open_data hl
  have hclose : step ⟨.form .data, .list start ts.reverse ns.reverse :: frames⟩ stop =
      .ok (deliver (.list ns) (stop :: ts.reverse ++ [start]) frames) := by
    simp only [step, form_close hr, close, List.reverse_reverse]
  rw [List.cons_append, List.cons_append, List.append_assoc, run_cons_of_step hopen,
    Outcome.resume_next, run_each (.list start) (fun _ _ => rfl) (fun _ _ _ _ => rfl)
      (fun _ _ hd => hd) h [] [], List.append_nil, List.append_nil, List.singleton_append,
    run_cons_of_step hclose]
  simp only [List.reverse_append, List.reverse_cons, List.reverse_nil, List.nil_append,
    List.cons_append]

theorem delivers_of_isDatum {n : Node} (h : Grammar.IsDatum ts n) : Delivers .data ts n := by
  refine h.induct ?atom ?list
  case atom => exact delivers_atom
  case list =>
    intro start stop ts ns hl _ ih hr
    exact delivers_list hl ih hr

/-- Parameters are gathered last first. -/
theorem run_parameters {start : Token} {ps : List Token} {names : List String}
    (hk : ∀ p ∈ ps, p.kind = .symbol) (hn : (ps.map Token.text).Nodup)
    (hd : ∀ p ∈ ps, p.text ∉ names) :
    run ⟨.parameter start names, frames⟩ (ps ++ rest) =
      run ⟨.parameter start ((ps.map Token.text).reverse ++ names), frames⟩ rest := by
  induction ps generalizing names with
  | nil => rfl
  | cons p ps ih =>
    rw [List.map_cons, List.nodup_cons] at hn
    have hp : step ⟨.parameter start names, frames⟩ p =
        .ok (.next ⟨.parameter start (p.text :: names), frames⟩) := by
      simp only [step, hk p (by simp), hd p (by simp), if_false]
    have hd' : ∀ q ∈ ps, q.text ∉ p.text :: names := by
      intro q hq hmem
      rcases List.mem_cons.mp hmem with he | hmem
      · exact hn.1 (he ▸ List.mem_map_of_mem hq)
      · exact hd q (by simp [hq]) hmem
    rw [List.cons_append, run_cons_of_step hp, Outcome.resume_next,
      ih (fun q hq => hk q (by simp [hq])) hn.2 hd']
    simp only [List.map_cons, List.reverse_cons, List.append_assoc, List.singleton_append]

theorem run_head {head : List Token} {names : List String} (h : Grammar.IsHead head names) :
    run ⟨.form .code, frames⟩ (head ++ rest) =
      run ⟨.form .code, .body names :: frames⟩ rest := by
  obtain @⟨start, keyword, left, right, ps, hl, hw, hp, hk, hn, hr⟩ := h
  have h1 : step ⟨.form .code, frames⟩ start = .ok (.next ⟨.opened start, frames⟩) :=
    form_open hl
  have h2 : step ⟨.opened start, frames⟩ keyword =
      .ok (.next ⟨.parameters start, frames⟩) := by
    simp only [step, hw, if_true]
  have h3 : step ⟨.parameters start, frames⟩ left =
      .ok (.next ⟨.parameter start [], frames⟩) := by
    simp only [step, hp, if_true]
  have h4 : step ⟨.parameter start (ps.map Token.text).reverse, frames⟩ right =
      .ok (.next ⟨.form .code, .body (ps.map Token.text) :: frames⟩) := by
    simp only [step, hr, List.reverse_reverse]
  simp only [List.cons_append, List.append_assoc]
  rw [run_cons_of_step h1, Outcome.resume_next, run_cons_of_step h2, Outcome.resume_next,
    run_cons_of_step h3, Outcome.resume_next, run_parameters hk hn (by simp), List.append_nil,
    run_cons_of_step h4, Outcome.resume_next, List.nil_append]

theorem delivers_lambda {head body : List Token} {stop : Token} {names : List String}
    {n : Node} (hh : Grammar.IsHead head names) (hb : Delivers .code body n)
    (hr : stop.kind = .closeParen) :
    Delivers .code (head ++ body ++ [stop]) (.lambda names n) := by
  intro frames rest hf
  have hstop : step ⟨.lambdaEnd names n, frames⟩ stop =
      .ok (deliver (.lambda names n) [] frames) := by
    simp only [step, hr, if_true]
  have hbody := hb (.body names :: frames) (stop :: rest) (by simp [Frame.mode])
  rw [List.append_assoc, List.append_assoc, run_head hh, List.append_assoc,
    List.singleton_append, hbody, deliver, Outcome.resume_next, run_cons_of_step hstop,
    deliver_code hf]

/-- The parenthesis and the keyword of a quote open it. -/
theorem run_quote_head {start keyword : Token} (hl : start.kind = .openParen)
    (hw : keyword.text = "quote") :
    run ⟨.form .code, frames⟩ (start :: keyword :: ts) =
      run ⟨.form .data, .quote start [] [] :: frames⟩ ts := by
  have h1 : step ⟨.form .code, frames⟩ start = .ok (.next ⟨.opened start, frames⟩) :=
    form_open hl
  have h2 : step ⟨.opened start, frames⟩ keyword =
      .ok (.next ⟨.form .data, .quote start [] [] :: frames⟩) := by
    have hne : "quote" ≠ "lambda" := by decide
    simp only [step, hw, hne, if_true, if_false]
  rw [run_cons_of_step h1, Outcome.resume_next, run_cons_of_step h2, Outcome.resume_next]

theorem delivers_quote {start keyword stop : Token} {ns : List Node}
    (hl : start.kind = .openParen) (hw : keyword.text = "quote")
    (h : Grammar.Each Grammar.IsDatum ts ns) (hr : stop.kind = .closeParen) :
    Delivers .code (start :: keyword :: ts ++ [stop]) (.quote (Token.joinText ts) ns) := by
  intro frames rest hf
  have hclose : step ⟨.form .data, .quote start ts.reverse ns.reverse :: frames⟩ stop =
      .ok (deliver (.quote (Token.joinText ts) ns) [] frames) := by
    simp only [step, form_close hr, close, List.reverse_reverse]
  simp only [List.cons_append, List.append_assoc]
  rw [run_quote_head hl hw,
    run_each (.quote start) (fun _ _ => rfl) (fun _ _ _ _ => rfl)
      (fun _ _ => delivers_of_isDatum) h [] [], List.append_nil, List.append_nil,
    List.nil_append, run_cons_of_step hclose, deliver_code hf]

theorem delivers_application {start first stop : Token} {fs : List Token} {f : Node}
    {ns : List Node} (hl : start.kind = .openParen) (hfirst : ¬ Grammar.IsKeyword first.text)
    (hf : Delivers .code (first :: fs) f) (h : Grammar.Each (Delivers .code) ts ns)
    (hr : stop.kind = .closeParen) :
    Delivers .code (start :: (first :: fs) ++ ts ++ [stop]) (.application f ns) := by
  intro frames rest hfits
  have h1 : step ⟨.form .code, frames⟩ start = .ok (.next ⟨.opened start, frames⟩) :=
    form_open hl
  have hop := hf (.operator start :: frames) (ts ++ stop :: rest) (by simp [Frame.mode])
  have hstop : step ⟨.form .code, .operands start f ns.reverse :: frames⟩ stop =
      .ok (deliver (.application f ns) [] frames) := by
    simp only [step, form_close hr, close, List.reverse_reverse]
  simp only [List.cons_append, List.append_assoc, List.nil_append] at hop ⊢
  rw [run_cons_of_step h1, Outcome.resume_next, run_opened hfirst, hop, deliver,
    Outcome.resume_next, run_each (fun _ ms => .operands start f ms) (fun _ _ => rfl)
      (fun _ _ _ _ => rfl) (fun _ _ hd => hd) h [] [], List.append_nil,
    run_cons_of_step hstop, deliver_code hfits]

theorem delivers_of_isExpr {n : Node} (h : Grammar.IsExpr ts n) : Delivers .code ts n := by
  refine h.induct ?atom ?lambda ?quote ?application
  case atom => exact delivers_atom
  case lambda =>
    intro head body stop names n hh _ ih hr
    exact delivers_lambda hh ih hr
  case quote =>
    intro start keyword stop ts ns hl hw hs hr
    exact delivers_quote hl hw hs hr
  case application =>
    intro start first stop fs ts f ns hl hfirst _ ih _ ihs hr
    exact delivers_application hl hfirst ih ihs hr

theorem delivers_of_spells {n : Node} (h : Grammar.Spells mode ts n) : Delivers mode ts n := by
  cases mode with
  | code => exact delivers_of_isExpr h
  | data => exact delivers_of_isDatum h

/-- A phrase is read from the front of any tokens, and nothing after it is looked at. -/
theorem run_of_spells {n : Node} (h : Grammar.Spells mode ts n) (rest : List Token) :
    run ⟨.form mode, []⟩ (ts ++ rest) = .ok (n, rest) :=
  delivers_of_spells h [] rest fits_nil

end State

end StackLisp
