import StackLisp.Proofs.Stages.Total

/-!
# Resolving names

Opcodes take the place of names, and that is all they do. Code that is emitted with opcodes is
the code that is emitted without any, with each name that has an opcode replaced by it; the
numbers stay, also one that looks like an opcode. So whether a tree can be lowered does not
depend on the opcodes, nor does the number of its fields, nor where among the fields of an
application those of its operands stand.
-/

namespace StackLisp

/-- The field, or the opcode of its name if it is a name that has one. -/
def Field.resolved (opcodes : Opcodes) : Field → Field
  | .number k => .number k
  | .name text =>
    match opcodes.lookup text with
    | some k => .number k
    | none => .name text

namespace Code

mutual

/-- The number of fields of a tree, whatever the opcodes are. -/
def fieldCount : Node → Nat
  | .application operator operands =>
    fieldCountAll operands + fieldCount operator +
      if maxBinaryOperands < operands.length then fieldCount operator else 0
  | .integer _ => 2
  | .symbol _ => 1
  | .lambda .. | .quote .. | .list _ | .float _ | .string _ | .foreign _ => 0

def fieldCountAll : List Node → Nat
  | [] => 0
  | n :: ns => fieldCount n + fieldCountAll ns

end

variable {opcodes : Opcodes} {n : Node} {ns : List Node} {fields : List Field}
  {pushed : List (List Field)}

/-! ## Names -/

theorem emitEach_eq_map
    (h : ∀ n ∈ ns, emit opcodes n = (emit [] n).map (List.map (Field.resolved opcodes))) :
    emitEach opcodes ns = (emitEach [] ns).map (List.map (List.map (Field.resolved opcodes))) := by
  induction ns with
  | nil => rfl
  | cons n ns ih =>
    obtain ⟨hn, hns⟩ := List.forall_mem_cons.mp h
    rw [emitEach, emitEach, ih hns, hn]
    cases emitEach [] ns with
    | error e => rfl
    | ok later =>
      cases emit [] n with
      | error e => rfl
      | ok first => rfl

/-- An operator that is repeated is resolved in both places. -/
theorem map_applied (r : Field → Field) (applied : List Field) (count : Nat) :
    (pushed.reverse.flatten ++ applied ++
        if maxBinaryOperands < count then applied else []).map r =
      (pushed.map (List.map r)).reverse.flatten ++ applied.map r ++
        if maxBinaryOperands < count then applied.map r else [] := by
  rw [List.map_append, List.map_append, List.map_flatten, List.map_reverse]
  split
  · rfl
  · rfl

theorem emit_eq_map (opcodes : Opcodes) (n : Node) :
    emit opcodes n = (emit [] n).map (List.map (Field.resolved opcodes)) := by
  refine Node.below_induct (motive := fun _ n =>
    emit opcodes n = (emit [] n).map (List.map (Field.resolved opcodes))) ?_ .code n
  intro mode n ih
  cases n with
  | application f ns =>
    have hoperands := emitEach_eq_map fun m hm => ih mode m (.operand hm)
    rw [emit, emit, hoperands, ih mode f .operator]
    cases emitEach [] ns with
    | error e => rfl
    | ok pushed =>
      cases emit [] f with
      | error e => rfl
      | ok applied => exact congrArg Except.ok (map_applied _ applied ns.length).symm
  | lambda _ _ | quote _ _ | list _ | integer _ | float _ | string _ | symbol _ | foreign _ => rfl

/-! ## Places -/

/-- The first operand comes last. -/
theorem flatten_pushed (first : List Field) (later : List (List Field)) :
    (first :: later).reverse.flatten = later.reverse.flatten ++ first := by
  rw [List.reverse_cons, List.flatten_append, List.flatten_singleton]

theorem length_of_emitEach
    (h : ∀ n ∈ ns, ∀ fields, emit opcodes n = .ok fields → fields.length = fieldCount n)
    (hemit : emitEach opcodes ns = .ok pushed) :
    pushed.reverse.flatten.length = fieldCountAll ns := by
  induction ns generalizing pushed with
  | nil =>
    cases hemit
    rfl
  | cons n ns ih =>
    obtain ⟨hn, hns⟩ := List.forall_mem_cons.mp h
    rw [emitEach] at hemit
    obtain ⟨later, hlater, hemit⟩ := exists_of_bind_eq_ok hemit
    obtain ⟨first, hfirst, hemit⟩ := exists_of_bind_eq_ok hemit
    cases hemit
    have hlength := ih hns hlater
    rw [flatten_pushed, List.length_append, hlength, hn first hfirst, fieldCountAll, Nat.add_comm]

theorem length_of_emit (h : emit opcodes n = .ok fields) : fields.length = fieldCount n := by
  refine Node.below_induct (motive := fun _ n => ∀ fields, emit opcodes n = .ok fields →
    fields.length = fieldCount n) ?_ .code n fields h
  intro mode n ih fields h
  cases n with
  | application f ns =>
    rw [emit] at h
    obtain ⟨pushed, hpushed, h⟩ := exists_of_bind_eq_ok h
    obtain ⟨applied, happlied, h⟩ := exists_of_bind_eq_ok h
    cases h
    have hoperands := length_of_emitEach (fun m hm => ih mode m (.operand hm)) hpushed
    have hoperator := ih mode f .operator applied happlied
    rw [List.length_append, List.length_append, hoperands, hoperator, fieldCount]
    split
    · rw [hoperator]
    · rfl
  | lambda _ _ | quote _ _ | list _ | integer _ | float _ | string _ | symbol _ =>
    cases h
    rfl
  | foreign _ => contradiction

/-- The fields of one of several trees stand behind those of the trees after it. -/
theorem exists_split_of_emitEach {before after : List Node}
    (h : emitEach opcodes (before ++ n :: after) = .ok pushed) :
    ∃ front own back, pushed.reverse.flatten = front ++ own ++ back ∧
      emit opcodes n = .ok own ∧ front.length = fieldCountAll after := by
  induction before generalizing pushed with
  | nil =>
    rw [List.nil_append, emitEach] at h
    obtain ⟨later, hlater, h⟩ := exists_of_bind_eq_ok h
    obtain ⟨own, hown, h⟩ := exists_of_bind_eq_ok h
    cases h
    refine ⟨later.reverse.flatten, own, [], ?_, hown, ?_⟩
    · rw [flatten_pushed, List.append_nil]
    · exact length_of_emitEach (fun _ _ _ => length_of_emit) hlater
  | cons m before ih =>
    rw [List.cons_append, emitEach] at h
    obtain ⟨later, hlater, h⟩ := exists_of_bind_eq_ok h
    obtain ⟨first, hfirst, h⟩ := exists_of_bind_eq_ok h
    cases h
    -- The trees before it have their fields behind its own, and do not move those in front.
    obtain ⟨front, own, back, hsplit, hown, hfront⟩ := ih hlater
    refine ⟨front, own, back ++ first, ?_, hown, hfront⟩
    rw [flatten_pushed, hsplit, List.append_assoc]

/-- The fields of an operand are found at a place that only the trees tell. -/
theorem extract_of_emit {f : Node} {before after : List Node}
    (h : emit opcodes (.application f (before ++ n :: after)) = .ok fields) :
    emit opcodes n = .ok (fields.extract (fieldCountAll after)
      (fieldCountAll after + fieldCount n)) := by
  rw [emit] at h
  obtain ⟨pushed, hpushed, h⟩ := exists_of_bind_eq_ok h
  obtain ⟨applied, -, h⟩ := exists_of_bind_eq_ok h
  cases h
  obtain ⟨front, own, back, hsplit, hown, hfront⟩ := exists_split_of_emitEach hpushed
  have hlength := length_of_emit hown
  rw [hown, hsplit, List.extract_eq_take_drop, Nat.add_sub_cancel_left]
  simp only [List.append_assoc]
  rw [← hfront, List.drop_left, ← hlength, List.take_left]

/-- Opcodes replace names in the code that is emitted without any, and do nothing else: a tree
fails to be lowered as it does without them, and its numbers stay. So neither the number of its
fields depends on them, nor the place at which those of an operand stand. -/
theorem emit_resolves_names (opcodes : Opcodes) (n : Node) :
    (∀ e, emit opcodes n = .error e ↔ emit [] n = .error e) ∧
    (∀ fields, emit [] n = .ok fields →
      emit opcodes n = .ok (fields.map (Field.resolved opcodes))) ∧
    (∀ fields, emit opcodes n = .ok fields → fields.length = fieldCount n) ∧
    ∀ f before m after fields, n = .application f (before ++ m :: after) →
      emit opcodes n = .ok fields → emit opcodes m =
        .ok (fields.extract (fieldCountAll after) (fieldCountAll after + fieldCount m)) := by
  have hmap := emit_eq_map opcodes n
  refine ⟨?_, ?_, fun _ => length_of_emit, ?_⟩
  · intro e
    rw [hmap]
    cases emit [] n with
    | error e' => exact Iff.rfl
    | ok fields => exact iff_of_false nofun nofun
  · intro fields h
    rw [hmap, h]
    rfl
  · rintro f before m after fields rfl h
    exact extract_of_emit h

end Code

end StackLisp
