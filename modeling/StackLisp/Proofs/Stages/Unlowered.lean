import StackLisp.Code
import StackLisp.Proofs.Stages.Sound

/-!
# What is not lowered

Lambdas, quotes, lists, fractions and strings emit nothing, and nobody looks into them. So one of
them is as good as any other, wherever it stands: if some of them are exchanged in a tree, in the
place of operators or of operands, then the code stays the same, and so does the error if there is
one. They cannot be left out, though, because an operand counts even if it emits nothing.
-/

namespace StackLisp

namespace Node

/-- The nodes that emit nothing. -/
def IsUnlowered : Node → Prop
  | .lambda .. | .quote .. | .list _ | .float _ | .string _ => True
  | .application .. | .integer _ | .symbol _ | .foreign _ => False

/-- Some subtrees of a tree that are not lowered are exchanged for others that are not lowered.
A change below one of them is an exchange of the whole, and is not told apart from it. -/
inductive Exchanged : Node → Node → Prop
  | same {n : Node} : Exchanged n n
  | unlowered {n m : Node} : n.IsUnlowered → m.IsUnlowered → Exchanged n m
  | application {f g : Node} {ns ms : List Node} : Exchanged f g → List.Forall₂ Exchanged ns ms →
      Exchanged (.application f ns) (.application g ms)

end Node

namespace Code

open Node

variable {opcodes : Opcodes} {n m f g : Node} {ns ms : List Node}

theorem emit_of_isUnlowered (h : n.IsUnlowered) : emit opcodes n = .ok [] := by
  cases n with
  | lambda _ _ | quote _ _ | list _ | float _ | string _ => rfl
  | application _ _ | integer _ | symbol _ | foreign _ => exact h.elim

theorem emitEach_congr (h : List.Forall₂ (fun n m => emit opcodes n = emit opcodes m) ns ms) :
    emitEach opcodes ns = emitEach opcodes ms := by
  induction h with
  | nil => rfl
  | cons hfirst _ ih => rw [emitEach, emitEach, ih, hfirst]

/-- The code of an application depends on the code of its parts and on how many they are. -/
theorem emit_application_congr (hf : emit opcodes f = emit opcodes g)
    (h : List.Forall₂ (fun n m => emit opcodes n = emit opcodes m) ns ms) :
    emit opcodes (.application f ns) = emit opcodes (.application g ms) := by
  rw [emit, emit, hf, emitEach_congr h, h.length_eq]

theorem emit_of_exchanged (h : Exchanged n m) : emit opcodes n = emit opcodes m := by
  refine below_induct (motive := fun _ n => ∀ m, Exchanged n m → emit opcodes n = emit opcodes m)
    ?_ .code n m h
  intro mode n ih m h
  cases h with
  | same => rfl
  | unlowered hn hm => rw [emit_of_isUnlowered hn, emit_of_isUnlowered hm]
  | @application f g ns ms hf hns =>
    have hoperands := (List.forall₂_and_left ns ms).mpr
      ⟨fun k hk => ih mode k (.operand hk), hns⟩
    exact emit_application_congr (ih mode f .operator g hf)
      (hoperands.imp fun _ k hk => hk.1 k hk.2)

/-- Exchanging what is not lowered changes neither the fields nor the text of the code, nor the
error of a tree that cannot be lowered. -/
theorem unlowered_exchangeable (h : Exchanged n m) (opcodes : Opcodes) :
    emit opcodes n = emit opcodes m ∧ lower opcodes n = lower opcodes m := by
  have hfields : emit opcodes n = emit opcodes m := emit_of_exchanged h
  refine ⟨hfields, ?_⟩
  rw [lower, lower, hfields]

/-- An application of three operands, one of which is applied without an operator that is
lowered. -/
def plainOperands : Node :=
  .application (.symbol "+") [.application (.lambda ["x"] (.symbol "x")) [.integer 7],
    .list [], .string "\"s\""]

/-- The same with foreign values in what is not lowered. -/
def foreignOperands : Node :=
  .application (.symbol "+") [.application (.quote "a" [.foreign .null]) [.integer 7],
    .lambda [] (.foreign (.bool true)), .list [.foreign (.int 5)]]

theorem unlowered_exchangeable_foreignOperands :
    Exchanged plainOperands foreignOperands ∧
    emit builtin foreignOperands = .ok [.number 10, .number 7, .number 2, .number 2] ∧
    lower builtin foreignOperands = .ok "10, 7, 2, 2" := by
  have hoperand : Exchanged (.application (.lambda ["x"] (.symbol "x")) [.integer 7])
      (.application (.quote "a" [.foreign .null]) [.integer 7]) :=
    .application (.unlowered trivial trivial) (.cons .same .nil)
  have h : Exchanged plainOperands foreignOperands :=
    .application .same (.cons hoperand
      (.cons (.unlowered trivial trivial) (.cons (.unlowered trivial trivial) .nil)))
  obtain ⟨hfields, htext⟩ := unlowered_exchangeable h builtin
  exact ⟨h, hfields.symm.trans rfl, htext.symm.trans rfl⟩

end Code

end StackLisp
