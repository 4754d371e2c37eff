import StackLisp.Proofs.Stages.Total

/-!
# Foreign values in trees

Rendering and lowering stop at a foreign value. They differ in where they go and in what order.
Rendering goes into applications, lambdas and lists, and takes the operands of an application
from the first to the last; lowering goes into applications only, and takes the operands from the
last to the first. Both take the operator at the end, and neither looks at the data of a quote.
So a stage fails exactly if it can reach a foreign value, and the one it names is the first on
its way; all that can fail besides is the writing of an integer that is too long.
-/

namespace StackLisp

open Numeral (IsWritable)

/-- The stages that stop at a foreign value. -/
inductive Stage where
  | rendering | lowering
  deriving DecidableEq, Repr

namespace Stage

/-- The error of a stage that stops at a foreign value. -/
def error : Stage → Foreign → NodeError
  | .rendering, v => .notRendered v.typeName
  | .lowering, v => .notLowered v.typeName

/-- The nodes directly below a node to which a stage goes, in this order. -/
def visits : Stage → Node → List Node
  | .rendering, .application f ns => ns ++ [f]
  | .rendering, .lambda _ body => [body]
  | .rendering, .list ns => ns
  | .lowering, .application f ns => ns.reverse ++ [f]
  | _, _ => []

/-- A node is on the way of a stage through a tree. -/
inductive Reaches (stage : Stage) : Node → Node → Prop
  | root {n : Node} : Reaches stage n n
  | deeper {n m k : Node} : m ∈ stage.visits n → Reaches stage m k → Reaches stage n k

/-- No foreign value is on the way. -/
def Clear (stage : Stage) (n : Node) : Prop := ∀ v, ¬ stage.Reaches n (.foreign v)

/-- The first foreign value on the way. -/
inductive MeetsFirst (stage : Stage) : Node → Foreign → Prop
  | root {v : Foreign} : MeetsFirst stage (.foreign v) v
  | deeper {n m : Node} {v : Foreign} {before after : List Node} :
      stage.visits n = before ++ m :: after → (∀ k ∈ before, stage.Clear k) →
      MeetsFirst stage m v → MeetsFirst stage n v

/-- The result of a stage is an error exactly if a foreign value is on the way, and the error
names the first one. -/
structure Blames {α : Type} (stage : Stage) (n : Node) (x : Except NodeError α) : Prop where
  fails_iff : (∃ e, x = .error e) ↔ ∃ v, stage.Reaches n (.foreign v)
  error_iff : ∀ e, x = .error e ↔ ∃ v, stage.MeetsFirst n v ∧ e = stage.error v

/-- The result of a stage on some trees that it visits one after the other. -/
inductive Answers {α : Type} (stage : Stage) (ns : List Node) : Except NodeError α → Prop
  | ok {a : α} : (∀ n ∈ ns, stage.Clear n) → Answers stage ns (.ok a)
  | foreign {before after : List Node} {n : Node} {v : Foreign} : ns = before ++ n :: after →
      (∀ m ∈ before, stage.Clear m) → stage.MeetsFirst n v →
      Answers stage ns (.error (stage.error v))
  | numeral {n : Node} {k : Int} {e : NumeralError} : stage = .rendering →
      n ∈ ns → stage.Reaches n (.integer k) → ¬ IsWritable k →
      Answers stage ns (.error (.numeral e))

variable {α β : Type} {stage : Stage} {n m : Node} {ns ms : List Node} {v w : Foreign}
  {opcodes : Opcodes}

/-! ## The first on the way -/

theorem visits_foreign (stage : Stage) (v : Foreign) : stage.visits (.foreign v) = [] := by
  cases stage <;> rfl

theorem MeetsFirst.reaches (h : stage.MeetsFirst n v) : stage.Reaches n (.foreign v) := by
  induction h with
  | root => exact .root
  | deeper hvisits _ _ ih => exact .deeper (by simp [hvisits]) ih

theorem MeetsFirst.eq_of_foreign (h : stage.MeetsFirst (.foreign v) w) : v = w := by
  cases h with
  | root => rfl
  | deeper hvisits _ _ =>
    rw [visits_foreign] at hvisits
    simp at hvisits

/-- The first node of a list that has a property is the same however it is found. -/
theorem eq_of_split {P : Node → Prop} {before before' after after' : List Node}
    (h : before ++ n :: after = before' ++ m :: after') (hbefore : ∀ k ∈ before, ¬ P k)
    (hbefore' : ∀ k ∈ before', ¬ P k) (hn : P n) (hm : P m) : n = m := by
  classical
  have hfind : (before ++ n :: after).find? (fun k => P k) = some n :=
    List.find?_eq_some_iff_append.mpr
      ⟨decide_eq_true hn, before, after, rfl, by simpa using hbefore⟩
  have hfind' : (before ++ n :: after).find? (fun k => P k) = some m :=
    List.find?_eq_some_iff_append.mpr
      ⟨decide_eq_true hm, before', after', h, by simpa using hbefore'⟩
  exact Option.some.inj (hfind.symm.trans hfind')

theorem MeetsFirst.unique (hv : stage.MeetsFirst n v) (hw : stage.MeetsFirst n w) : v = w := by
  induction hv with
  | root => exact hw.eq_of_foreign
  | @deeper n m v before after hvisits hclear hm ih =>
    cases hw with
    | root => exact (MeetsFirst.deeper hvisits hclear hm).eq_of_foreign.symm
    | @deeper _ m' _ before' after' hvisits' hclear' hm' =>
      -- Both have gone to the first node from which a foreign value is reached.
      have hsame : m = m' := by
        refine eq_of_split (P := fun k => ∃ u, stage.Reaches k (.foreign u))
          (hvisits.symm.trans hvisits') ?_ ?_ ⟨v, hm.reaches⟩ ⟨w, hm'.reaches⟩
        · exact fun k hk hu => hu.elim (hclear k hk)
        · exact fun k hk hu => hu.elim (hclear' k hk)
      subst hsame
      exact ih hm'

/-! ## Results in a row -/

theorem Answers.map {x : Except NodeError α} (h : stage.Answers ns x) (f : α → β) :
    stage.Answers ns (x >>= fun a => pure (f a)) := by
  cases h with
  | ok hclear => exact .ok hclear
  | foreign hns hclear hfirst => exact .foreign hns hclear hfirst
  | numeral hs hn hk hlong => exact .numeral hs hn hk hlong

theorem Answers.bind {x : Except NodeError α} {f : α → Except NodeError β}
    (h : stage.Answers ns x) (hf : ∀ a, stage.Answers ms (f a)) :
    stage.Answers (ns ++ ms) (x >>= f) := by
  cases h with
  | @ok a hclear =>
    have hrest : stage.Answers ms (Except.ok a >>= f) := hf a
    generalize Except.ok a >>= f = y at hrest
    cases hrest with
    | ok hclear' => exact .ok (List.forall_mem_append.mpr ⟨hclear, hclear'⟩)
    | foreign hms hclear' hfirst =>
      rw [hms, ← List.append_assoc]
      exact .foreign rfl (List.forall_mem_append.mpr ⟨hclear, hclear'⟩) hfirst
    | numeral hs hn hk hlong => exact .numeral hs (List.mem_append_right ns hn) hk hlong
  | foreign hns hclear hfirst =>
    rw [hns, List.append_assoc, List.cons_append]
    exact .foreign rfl hclear hfirst
  | numeral hs hn hk hlong => exact .numeral hs (List.mem_append_left ms hn) hk hlong

/-- What a stage meets below a node it meets from the node on. -/
theorem Answers.above {x : Except NodeError α} (h : stage.Answers (stage.visits n) x)
    (hn : ∀ v, n ≠ .foreign v) : stage.Answers [n] x := by
  cases h with
  | ok hclear =>
    refine .ok fun k hk v hreaches => ?_
    rw [List.mem_singleton.mp hk] at hreaches
    cases hreaches with
    | root => exact hn v rfl
    | deeper hm hreaches => exact hclear _ hm v hreaches
  | foreign hvisits hclear hfirst =>
    have hroot : stage.MeetsFirst n _ := .deeper hvisits hclear hfirst
    exact .foreign (List.nil_append [n]).symm (List.forall_mem_nil _) hroot
  | numeral hs hm hk hlong => exact .numeral hs List.mem_cons_self (.deeper hm hk) hlong

theorem answers_nil (a : α) : stage.Answers [] (.ok a) := .ok (List.forall_mem_nil _)

theorem answers_foreign (stage : Stage) (v : Foreign) :
    stage.Answers (α := α) [.foreign v] (.error (stage.error v)) :=
  .foreign (List.nil_append [_]).symm (List.forall_mem_nil _) .root

/-! ## Rendering -/

theorem answers_renderAll (h : ∀ n ∈ ns, rendering.Answers [n] n.render) :
    rendering.Answers ns (Node.renderAll ns) := by
  induction ns with
  | nil => exact answers_nil []
  | cons n ns ih =>
    obtain ⟨hn, hns⟩ := List.forall_mem_cons.mp h
    rw [Node.renderAll]
    exact hn.bind fun _ => (ih hns).map _

theorem answers_render (n : Node) : rendering.Answers [n] n.render := by
  refine Node.below_induct (motive := fun _ n => rendering.Answers [n] n.render) ?_ .code n
  intro mode n ih
  cases n with
  | application f ns =>
    have hoperands := answers_renderAll fun m hm => ih mode m (.operand hm)
    rw [Node.render]
    exact (hoperands.bind fun _ => (ih mode f .operator).map _).above (by simp)
  | lambda names body =>
    rw [Node.render]
    exact ((ih mode body .body).map _).above (by simp)
  | list ns =>
    have hitems := answers_renderAll fun m hm => ih mode m (.item hm)
    rw [Node.render]
    exact (hitems.map _).above (by simp)
  | integer k =>
    by_cases hk : IsWritable k
    · rw [Node.render, Numeral.writeInteger_of_isWritable hk]
      exact (answers_nil _).above (by simp)
    · rw [Node.render, Numeral.writeInteger, if_pos (Nat.not_le.mp hk)]
      exact .numeral rfl List.mem_cons_self .root hk
  | quote _ _ | float _ | string _ | symbol _ => exact (answers_nil _).above (by simp)
  | foreign v => exact answers_foreign _ v

/-! ## Lowering -/

theorem answers_emitEach (h : ∀ n ∈ ns, lowering.Answers [n] (Code.emit opcodes n)) :
    lowering.Answers ns.reverse (Code.emitEach opcodes ns) := by
  induction ns with
  | nil => exact answers_nil []
  | cons n ns ih =>
    obtain ⟨hn, hns⟩ := List.forall_mem_cons.mp h
    rw [Code.emitEach, List.reverse_cons]
    exact (ih hns).bind fun _ => hn.map _

theorem answers_emit (opcodes : Opcodes) (n : Node) :
    lowering.Answers [n] (Code.emit opcodes n) := by
  refine Node.below_induct (motive := fun _ n => lowering.Answers [n] (Code.emit opcodes n))
    ?_ .code n
  intro mode n ih
  cases n with
  | application f ns =>
    have hoperands := answers_emitEach fun m hm => ih mode m (.operand hm)
    rw [Code.emit]
    exact (hoperands.bind fun _ => (ih mode f .operator).map _).above (by simp)
  | lambda _ _ | quote _ _ | list _ | integer _ | float _ | string _ | symbol _ =>
    exact (answers_nil _).above (by simp)
  | foreign v => exact answers_foreign _ v

/-! ## What is blamed -/

theorem Answers.clear {a : α} (h : stage.Answers [n] (.ok a)) : stage.Clear n := by
  cases h with
  | ok hclear => exact hclear n List.mem_cons_self

theorem Answers.blames {x : Except NodeError α} (h : stage.Answers [n] x)
    (hk : stage = .rendering → ∀ k, stage.Reaches n (.integer k) → IsWritable k) :
    stage.Blames n x := by
  cases h with
  | ok hclear =>
    have hnone := hclear n List.mem_cons_self
    refine ⟨iff_of_false nofun fun h => h.elim hnone, fun e => iff_of_false nofun ?_⟩
    rintro ⟨v, hv, -⟩
    exact hnone v hv.reaches
  | @foreign before after m v hns hclear hfirst =>
    obtain rfl : n = m := by
      cases before with
      | nil => exact (List.cons.inj hns).1
      | cons _ _ => simp at hns
    refine ⟨iff_of_true ⟨_, rfl⟩ ⟨v, hfirst.reaches⟩, fun e => ?_⟩
    constructor
    · intro he
      exact ⟨v, hfirst, (Except.error.inj he).symm⟩
    · rintro ⟨w, hw, rfl⟩
      rw [hw.unique hfirst]
  | numeral hs hm hreaches hlong =>
    rw [List.mem_singleton.mp hm] at hreaches
    exact absurd (hk hs _ hreaches) hlong

/-- Rendering goes everywhere where lowering goes. -/
theorem Reaches.rendering (h : lowering.Reaches n m) : rendering.Reaches n m := by
  induction h with
  | root => exact .root
  | @deeper n m k hm _ ih =>
    refine .deeper ?_ ih
    cases n with
    | application f ns => simpa [visits] using hm
    | _ => simp [visits] at hm

end Stage

open Stage (rendering lowering)

/-- If the integers on its way can be written, rendering fails exactly if it reaches a foreign
value, and names the type of the first one. So does lowering, with any opcodes and whatever the
integers are. If a tree can be rendered it can be lowered. -/
theorem foreign_value_blamed (n : Node) (opcodes : Opcodes) :
    ((∀ k, rendering.Reaches n (.integer k) → IsWritable k) → rendering.Blames n n.render) ∧
    lowering.Blames n (Code.emit opcodes n) ∧
    (Returns n.render → Returns (Code.emit opcodes n)) := by
  have hrender := Stage.answers_render n
  have hemit : lowering.Blames n (Code.emit opcodes n) :=
    (Stage.answers_emit opcodes n).blames nofun
  refine ⟨fun hk => hrender.blames fun _ => hk, hemit, ?_⟩
  rintro ⟨text, htext⟩
  rw [htext] at hrender
  cases hfields : Code.emit opcodes n with
  | ok fields => exact returns_ok fields
  | error e =>
    obtain ⟨v, hv⟩ := hemit.fails_iff.mp ⟨e, hfields⟩
    exact absurd hv.rendering (hrender.clear v)

/-- A value that is none of the plain ones. -/
def stranger : Foreign := .other "object" "<object object>"

/-- A tree with foreign values below a lambda, in a quote and as an operator. -/
def misfits : Node :=
  .application (.foreign (.int 5))
    [.lambda ["x"] (.foreign stranger), .quote "y" [.foreign .null], .integer 7]

theorem foreign_value_blamed_misfits :
    (∀ k, rendering.Reaches misfits (.integer k) → IsWritable k) ∧
    rendering.MeetsFirst misfits stranger ∧ misfits.render = .error (.notRendered "object") ∧
    lowering.MeetsFirst misfits (.int 5) ∧
    Code.emit Code.builtin misfits = .error (.notLowered "int") := by
  have hwritable : ∀ k, rendering.Reaches misfits (.integer k) → IsWritable k := by
    rintro k (_ | ⟨hm, h⟩)
    have hvisits : rendering.visits misfits = [.lambda ["x"] (.foreign stranger),
        .quote "y" [.foreign .null], .integer 7, .foreign (.int 5)] := rfl
    rw [hvisits] at hm
    simp only [List.mem_cons, List.not_mem_nil, or_false] at hm
    rcases hm with rfl | rfl | rfl | rfl
    · rcases h with _ | ⟨hm, h⟩
      rw [List.mem_singleton.mp hm] at h
      rcases h with _ | ⟨hm, _⟩
      contradiction
    · rcases h with _ | ⟨hm, _⟩
      contradiction
    · rcases h with _ | ⟨hm, _⟩
      · decide
      · contradiction
    · rcases h with _ | ⟨hm, _⟩
      contradiction
  have hstranger : rendering.MeetsFirst misfits stranger := by
    have hlambda : rendering.MeetsFirst (.lambda ["x"] (.foreign stranger)) stranger :=
      .deeper (List.nil_append [_]).symm (List.forall_mem_nil _) .root
    exact .deeper (List.nil_append (_ :: _)).symm (List.forall_mem_nil _) hlambda
  have hfive : lowering.MeetsFirst misfits (.int 5) := by
    have hvisits : lowering.visits misfits = [.integer 7, .quote "y" [.foreign .null],
        .lambda ["x"] (.foreign stranger)] ++ [.foreign (.int 5)] := rfl
    refine .deeper hvisits (fun k hk v h => ?_) .root
    simp only [List.mem_cons, List.not_mem_nil, or_false] at hk
    rcases hk with rfl | rfl | rfl
    all_goals
      rcases h with _ | ⟨hm, _⟩
      contradiction
  obtain ⟨hrender, hemit, -⟩ := foreign_value_blamed misfits Code.builtin
  exact ⟨hwritable, hstranger, ((hrender hwritable).error_iff _).mpr ⟨_, hstranger, rfl⟩, hfive,
    (hemit.error_iff _).mpr ⟨_, hfive, rfl⟩⟩

end StackLisp
