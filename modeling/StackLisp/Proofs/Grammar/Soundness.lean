import StackLisp.Proofs.Grammar.Completeness

/-!
# What is read is a phrase

Between two tokens the reader's state describes the tokens taken so far: each open form holds
what the grammar says about its part of them. Every step keeps this, so a node is finished
only when the tokens taken spell it.

The operator of an application may not begin with a keyword. The form that begins it lies
above the application on the stack, so the invariant ties the first token of each open form
to the form below.
-/

namespace StackLisp

/-- The mode of the place where an open form stands. -/
def Frame.outer : Frame → Mode
  | .list .. => .data
  | _ => .code

namespace State

open Grammar

/-- The tokens that an open form has taken, from its opening parenthesis on. -/
inductive Opened : Frame → List Token → Prop
  | operator {start : Token} : start.kind = .openParen → Opened (.operator start) [start]
  | operands {start first : Token} {fs ts : List Token} {f : Node} {ns : List Node} :
      start.kind = .openParen → ¬ IsKeyword first.text → IsExpr (first :: fs) f →
      Each IsExpr ts ns.reverse → Opened (.operands start f ns) (start :: (first :: fs) ++ ts)
  | body {head : List Token} {names : List String} :
      IsHead head names → Opened (.body names) head
  | quote {start keyword : Token} {ts : List Token} {ns : List Node} :
      start.kind = .openParen → keyword.text = "quote" → Each IsDatum ts.reverse ns.reverse →
      Opened (.quote start ts ns) (start :: keyword :: ts.reverse)
  | list {start : Token} {ts : List Token} {ns : List Node} :
      start.kind = .openParen → Each IsDatum ts.reverse ns.reverse →
      Opened (.list start ts ns) (start :: ts.reverse)

/-- Tokens with this beginning may form what the innermost open form waits for. -/
def MayStart (frames : List Frame) (ts : List Token) : Prop :=
  ∀ start, frames.head? = some (.operator start) → ∀ t ∈ ts.head?, ¬ IsKeyword t.text

/-- The tokens that a stack of open forms has taken, which is to end in a phrase of the mode
`root` and waits for one of another mode. -/
inductive Pending (root : Mode) : Mode → List Frame → List Token → Prop
  | nil : Pending root root [] []
  | cons {f : Frame} {frames : List Frame} {pre ts : List Token} {mode : Mode} :
      Pending root f.outer frames pre → Opened f ts → MayStart frames ts → f.mode = mode →
      Pending root mode (f :: frames) (pre ++ ts)

/-- The tokens that lead to a state. -/
inductive Reached (root : Mode) : State → List Token → Prop
  | form {mode : Mode} {frames : List Frame} {pre : List Token} :
      Pending root mode frames pre → (∀ ts, MayStart frames ts) →
      Reached root ⟨.form mode, frames⟩ pre
  | opened {start : Token} {frames : List Frame} {pre : List Token} :
      Pending root .code frames pre → MayStart frames [start] → start.kind = .openParen →
      Reached root ⟨.opened start, frames⟩ (pre ++ [start])
  | parameters {start keyword : Token} {frames : List Frame} {pre : List Token} :
      Pending root .code frames pre → MayStart frames [start] → start.kind = .openParen →
      keyword.text = "lambda" →
      Reached root ⟨.parameters start, frames⟩ (pre ++ [start, keyword])
  | parameter {start keyword left : Token} {ps : List Token} {frames : List Frame}
      {pre : List Token} :
      Pending root .code frames pre → MayStart frames [start] → start.kind = .openParen →
      keyword.text = "lambda" → left.kind = .openParen → (∀ p ∈ ps, p.kind = .symbol) →
      (ps.map Token.text).Nodup →
      Reached root ⟨.parameter start (ps.map Token.text).reverse, frames⟩
        (pre ++ start :: keyword :: left :: ps)
  | lambdaEnd {head body : List Token} {names : List String} {n : Node} {frames : List Frame}
      {pre : List Token} :
      Pending root .code frames pre → MayStart frames head → IsHead head names →
      IsExpr body n → Reached root ⟨.lambdaEnd names n, frames⟩ (pre ++ (head ++ body))

/-- What the grammar says about an outcome and the tokens that led to it. -/
def Holds (root : Mode) (pre : List Token) : Outcome → Prop
  | .next s => Reached root s pre
  | .done n => Spells root pre n

variable {root mode : Mode} {frames : List Frame} {pre ts : List Token} {t : Token} {n : Node}

theorem mayStart_of_head_eq {us : List Token} (h : MayStart frames ts)
    (he : us.head? = ts.head?) : MayStart frames us := by
  intro start hs
  rw [he]
  exact h start hs

theorem mayStart_cons {f : Frame} (hf : ∀ start, f ≠ .operator start) (ts : List Token) :
    MayStart (f :: frames) ts := by
  intro start hs
  exact absurd (Option.some.inj hs) (hf start)

/-- An open form that is no operator may be followed by anything. -/
theorem reached_form {f : Frame} (ho : Opened f ts) (hp : Pending root f.outer frames pre)
    (hm : MayStart frames ts) (hf : ∀ start, f ≠ .operator start) :
    Reached root ⟨.form f.mode, f :: frames⟩ (pre ++ ts) :=
  .form (.cons hp ho hm rfl) (mayStart_cons hf)

/-- The data of an open form are kept last first. -/
theorem each_reverse_cons {us : List Token} {ns : List Node}
    (hs : Each IsDatum us.reverse ns.reverse) (hn : IsDatum ts n) :
    Each IsDatum (ts.reverse ++ us).reverse (n :: ns).reverse := by
  rw [List.reverse_append, List.reverse_reverse, List.reverse_cons]
  exact hs.snoc hn

/-- Handing on a finished node keeps the invariant. Among data the tokens are handed on with
the node, last first. -/
theorem deliver_holds {us : List Token} (h : Pending root mode frames pre)
    (hn : Spells mode ts n) (hstart : MayStart frames ts) (hus : mode = .data → us = ts.reverse) :
    Holds root (pre ++ ts) (deliver n us frames) := by
  cases h with
  | nil => exact hn
  | @cons f frames pre ts' _ hp ho hm hmode =>
    rw [List.append_assoc]
    cases ho with
    | operator hk =>
      cases hmode
      cases ts with
      | nil => exact absurd rfl hn.ne_nil
      | cons first fs =>
        have hfirst : ¬ IsKeyword first.text := hstart _ rfl first (by simp)
        have ho : Opened (.operands _ n []) (_ :: (first :: fs) ++ []) :=
          .operands hk hfirst hn .nil
        rw [List.append_nil] at ho
        exact reached_form ho hp (mayStart_of_head_eq hm rfl) (by simp)
    | @operands start first fs ts' f ns hk hfirst hf hs =>
      cases hmode
      have hs' : Each IsExpr (ts' ++ ts) (n :: ns).reverse := by
        rw [List.reverse_cons]
        exact hs.snoc hn
      have ho := Opened.operands hk hfirst hf hs'
      rw [← List.append_assoc] at ho
      exact reached_form ho hp (mayStart_of_head_eq hm rfl) (by simp)
    | body hh =>
      cases hmode
      exact .lambdaEnd hp hm hh hn
    | quote hk hw hs =>
      cases hmode
      have ho := Opened.quote hk hw (each_reverse_cons hs hn)
      rw [List.reverse_append, List.reverse_reverse, ← hus rfl] at ho
      exact reached_form ho hp (mayStart_of_head_eq hm rfl) (by simp)
    | list hk hs =>
      cases hmode
      have ho := Opened.list hk (each_reverse_cons hs hn)
      rw [List.reverse_append, List.reverse_reverse, ← hus rfl] at ho
      exact reached_form ho hp (mayStart_of_head_eq hm rfl) (by simp)

theorem close_holds {o : Outcome} (h : Pending root mode frames pre) (hk : t.kind = .closeParen)
    (ho : close t frames = .ok o) : Holds root (pre ++ [t]) o := by
  cases h with
  | nil => simp [close] at ho
  | @cons f frames pre ts _ hp hf hm hmode =>
    rw [List.append_assoc]
    cases hf with
    | operator _ => simp [close] at ho
    | body _ => simp [close] at ho
    | operands hs hfirst hx hxs =>
      cases ho
      exact deliver_holds hp (.application hs hfirst hx hxs hk) (mayStart_of_head_eq hm rfl)
        (fun h => by contradiction)
    | quote hs hw hxs =>
      cases ho
      exact deliver_holds hp (.quote hs hw hxs hk) (mayStart_of_head_eq hm rfl)
        (fun h => by contradiction)
    | list hs hxs =>
      cases ho
      exact deliver_holds hp (.list hs hxs hk) (mayStart_of_head_eq hm rfl) (by simp)

theorem form_holds {o : Outcome} (h : Pending root mode frames pre) (hm : MayStart frames [t])
    (ho : form mode frames t = .ok o) : Holds root (pre ++ [t]) o := by
  cases hk : t.kind with
  | openParen =>
    cases mode with
    | code =>
      rw [form_open hk] at ho
      cases ho
      exact .opened h hm hk
    | data =>
      rw [form_open_data hk] at ho
      cases ho
      exact reached_form (.list hk .nil) h hm (by simp)
  | closeParen =>
    rw [form_close hk] at ho
    exact close_holds h hk ho
  | _ =>
    have ha : ∃ n, Node.ofAtom mode t = .ok n ∧ o = deliver n [t] frames := by
      rw [form_of_ne_parens (by simp [hk]) (by simp [hk])] at ho
      obtain ⟨n, hn, ho⟩ := exists_of_bind_eq_ok ho
      exact ⟨n, hn, (Except.ok.inj ho).symm⟩
    rcases ha with ⟨n, hn, rfl⟩
    have hatom := ofAtom_eq_ok_iff.mp hn
    have hspells : Spells mode [t] n := by
      cases mode with
      | code => exact .atom hatom
      | data => exact .atom hatom
    exact deliver_holds h hspells hm (fun _ => rfl)

/-- The token after an opening parenthesis decides the form. -/
theorem opened_holds {start : Token} {o : Outcome} (hp : Pending root .code frames pre)
    (hm : MayStart frames [start]) (hk : start.kind = .openParen)
    (ho : step ⟨.opened start, frames⟩ t = .ok o) : Holds root (pre ++ [start] ++ [t]) o := by
  simp only [step] at ho
  split at ho
  next hw =>
    cases ho
    rw [List.append_assoc]
    exact .parameters hp hm hk hw
  next hl =>
    split at ho
    next hw =>
      cases ho
      rw [List.append_assoc]
      exact reached_form (.quote hk hw .nil) hp (mayStart_of_head_eq hm rfl) (by simp)
    next hq =>
      have hp' : Pending root .code (.operator start :: frames) (pre ++ [start]) :=
        .cons hp (.operator hk) hm rfl
      have hm' : MayStart (.operator start :: frames) [t] := by
        intro _ _ u hu
        cases hu
        exact fun hkw => hkw.elim hl hq
      exact form_holds hp' hm' ho

/-- A further parameter is a new name, and a closing parenthesis ends the head of the
lambda. -/
theorem parameter_holds {start keyword left : Token} {ps : List Token} {o : Outcome}
    (hp : Pending root .code frames pre) (hm : MayStart frames [start])
    (hk : start.kind = .openParen) (hw : keyword.text = "lambda") (hl : left.kind = .openParen)
    (hps : ∀ p ∈ ps, p.kind = .symbol) (hnd : (ps.map Token.text).Nodup)
    (ho : step ⟨.parameter start (ps.map Token.text).reverse, frames⟩ t = .ok o) :
    Holds root (pre ++ start :: keyword :: left :: ps ++ [t]) o := by
  simp only [step] at ho
  rw [List.append_assoc]
  split at ho
  next hr =>
    cases ho
    rw [List.reverse_reverse]
    have hh : IsHead (start :: keyword :: left :: ps ++ [t]) (ps.map Token.text) :=
      .mk hk hw hl hps hnd hr
    exact reached_form (.body hh) hp (mayStart_of_head_eq hm rfl) (by simp)
  next hsym =>
    split at ho
    next => contradiction
    next hnew =>
      cases ho
      have hps' : ∀ p ∈ ps ++ [t], p.kind = .symbol := by
        intro p hmem
        rcases List.mem_append.mp hmem with h | h
        · exact hps p h
        · exact List.mem_singleton.mp h ▸ hsym
      have hnd' : ((ps ++ [t]).map Token.text).Nodup := by
        rw [List.mem_reverse] at hnew
        rw [List.map_append, List.map_singleton, List.nodup_append]
        refine ⟨hnd, List.nodup_singleton _, ?_⟩
        intro a ha b hb heq
        exact hnew (List.mem_singleton.mp hb ▸ heq ▸ ha)
      have hr : Reached root ⟨.parameter start ((ps ++ [t]).map Token.text).reverse, frames⟩
          (pre ++ start :: keyword :: left :: (ps ++ [t])) :=
        .parameter hp hm hk hw hl hps' hnd'
      rw [List.map_append, List.reverse_append] at hr
      exact hr
  next => contradiction

/-- A step of a reached state leads to a reached state, or to the node that the tokens
spell. -/
theorem step_holds {s : State} {o : Outcome} (h : Reached root s pre) (ho : s.step t = .ok o) :
    Holds root (pre ++ [t]) o := by
  cases h with
  | form hp hm => exact form_holds hp (hm _) ho
  | opened hp hm hk => exact opened_holds hp hm hk ho
  | @parameters start keyword frames pre hp hm hk hw =>
    simp only [step] at ho
    split at ho
    next hl =>
      cases ho
      rw [List.append_assoc]
      exact @Reached.parameter root start keyword t [] frames pre hp hm hk hw hl (by simp)
        List.nodup_nil
    next => contradiction
  | parameter hp hm hk hw hl hps hnd => exact parameter_holds hp hm hk hw hl hps hnd ho
  | lambdaEnd hp hm hh hb =>
    simp only [step] at ho
    split at ho
    next hr =>
      cases ho
      obtain ⟨start, ts, rfl, _⟩ := hh.exists_cons
      rw [List.append_assoc]
      exact deliver_holds hp (.lambda hh hb hr) (mayStart_of_head_eq hm rfl)
        (fun h => by contradiction)
    next => contradiction

/-- A run that finishes a node has taken, with what led to its state, tokens that spell the
node. -/
theorem exists_spells_of_run {s : State} {rest : List Token} (h : Reached root s pre)
    (hrun : s.run ts = .ok (n, rest)) :
    ∃ used, ts = used ++ rest ∧ Spells root (pre ++ used) n := by
  induction ts generalizing s pre with
  | nil => simp [run] at hrun
  | cons t ts ih =>
    cases ho : s.step t with
    | error r =>
      rw [run_cons_of_refused ho] at hrun
      contradiction
    | ok o =>
      have hh := step_holds h ho
      rw [run_cons_of_step ho] at hrun
      cases o with
      | next s' =>
        obtain ⟨used, rfl, hs⟩ := ih hh hrun
        rw [List.append_assoc] at hs
        exact ⟨t :: used, rfl, hs⟩
      | done m =>
        cases hrun
        exact ⟨[t], rfl, hh⟩

theorem reached_start (mode : Mode) : Reached mode ⟨.form mode, []⟩ [] :=
  .form .nil (by simp [MayStart])

/-- Reading a form finds a phrase at the front of the tokens, and only that. -/
theorem run_form_eq_ok_iff {rest : List Token} :
    run ⟨.form mode, []⟩ ts = .ok (n, rest) ↔
      ∃ used, ts = used ++ rest ∧ Spells mode used n := by
  constructor
  · exact exists_spells_of_run (reached_start mode)
  · intro h
    rcases h with ⟨used, rfl, h⟩
    exact run_of_spells h rest

end State

end StackLisp
