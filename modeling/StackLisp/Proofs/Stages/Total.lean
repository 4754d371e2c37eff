import StackLisp.Code
import StackLisp.Node.Display
import StackLisp.Node.Render
import StackLisp.Proofs.Stages.Sound

/-!
# Stages that return

Rendering, describing and lowering are partial: each has errors of its own. On a sound tree
none of them fails. All three work their way down the tree, so it is enough to look at one
place and to suppose that they return directly below it. Emitting fields is less than lowering,
since the fields must be written in the end; the numbers among them are integers of the tree,
opcodes, and the opcode that pushes.
-/

namespace StackLisp

/-- A computation comes to a value. -/
def Returns {ε α : Type} (x : Except ε α) : Prop := ∃ a, x = .ok a

section Returns
variable {ε ε' α β : Type}

theorem returns_ok (a : α) : Returns (.ok a : Except ε α) := ⟨a, rfl⟩

theorem Returns.bind {x : Except ε α} {f : α → Except ε β} (hx : Returns x)
    (hf : ∀ a, x = .ok a → Returns (f a)) : Returns (x >>= f) := by
  rcases hx with ⟨a, rfl⟩
  exact hf a rfl

theorem Returns.mapError {x : Except ε α} (hx : Returns x) (f : ε → ε') :
    Returns (x.mapError f) := by
  rcases hx with ⟨a, rfl⟩
  exact returns_ok a

/-- A computation on a list returns if it returns on each element, in whatever order. -/
theorem returns_of_forall {f : α → Except ε β} {g : List α → Except ε (List β)}
    (hnil : Returns (g []))
    (hcons : ∀ a as, Returns (f a) → Returns (g as) → Returns (g (a :: as)))
    {as : List α} (h : ∀ a ∈ as, Returns (f a)) : Returns (g as) := by
  induction as with
  | nil => exact hnil
  | cons a as ih =>
    have hrest := ih fun b hb => h b (List.mem_cons_of_mem a hb)
    exact hcons a as (h a List.mem_cons_self) hrest

end Returns

variable {mode : Mode} {n : Node} {ns : List Node} {opcodes : Opcodes}

namespace Node

theorem returns_renderAll (h : ∀ n ∈ ns, Returns n.render) : Returns (renderAll ns) := by
  refine returns_of_forall (f := Node.render) (returns_ok []) ?_ h
  intro n ns hn hns
  rw [renderAll]
  exact hn.bind fun _ _ => hns.bind fun _ _ => returns_ok _

theorem Sound.render (h : n.Sound mode) : Returns n.render := by
  refine h.induct (motive := fun n => Returns n.render) ?_
  intro mode n hproper hbelow
  cases n with
  | application f ns =>
    have hoperands := returns_renderAll fun m hm => hbelow mode m (.operand hm)
    rw [Node.render]
    exact hoperands.bind fun _ _ => (hbelow mode f .operator).bind fun _ _ => returns_ok _
  | lambda names body =>
    rw [Node.render]
    exact (hbelow mode body .body).bind fun _ _ => returns_ok _
  | list ns =>
    have hitems := returns_renderAll fun m hm => hbelow mode m (.item hm)
    rw [Node.render]
    exact hitems.bind fun _ _ => returns_ok _
  | integer k =>
    rw [Node.render, Numeral.writeInteger_of_isWritable hproper]
    exact returns_ok _
  | quote _ _ | float _ | string _ | symbol _ => exact returns_ok _
  | foreign _ => contradiction

theorem returns_displayAll (h : ∀ n ∈ ns, Returns n.display) : Returns (displayAll ns) := by
  refine returns_of_forall (f := Node.display) (returns_ok []) ?_ h
  intro n ns hn hns
  rw [displayAll]
  exact hn.bind fun _ _ => hns.bind fun _ _ => returns_ok _

theorem Sound.display (h : n.Sound mode) : Returns n.display := by
  refine h.induct (motive := fun n => Returns n.display) ?_
  intro mode n hproper hbelow
  cases n with
  | application f ns =>
    have hoperands := returns_displayAll fun m hm => hbelow mode m (.operand hm)
    rw [Node.display]
    exact (hbelow mode f .operator).bind fun _ _ => hoperands.bind fun _ _ => returns_ok _
  | lambda names body =>
    rw [Node.display]
    exact (hbelow mode body .body).bind fun _ _ => returns_ok _
  | quote raw ns =>
    have hdatums := returns_displayAll fun m hm => hbelow .data m (.datum hm)
    rw [Node.display]
    exact hdatums.bind fun _ _ => returns_ok _
  | list ns =>
    have hitems := returns_displayAll fun m hm => hbelow mode m (.item hm)
    rw [Node.display]
    exact hitems.bind fun _ _ => returns_ok _
  | integer k =>
    rw [Node.display, Numeral.writeInteger_of_isWritable hproper]
    exact returns_ok _
  | float _ | string _ | symbol _ | foreign _ => exact returns_ok _

end Node

namespace Code

theorem returns_emitEach (h : ∀ n ∈ ns, Returns (emit opcodes n)) :
    Returns (emitEach opcodes ns) := by
  refine returns_of_forall (f := emit opcodes) (returns_ok []) ?_ h
  intro n ns hn hns
  rw [emitEach]
  exact hns.bind fun _ _ => hn.bind fun _ _ => returns_ok _

theorem returns_emit (h : n.Sound mode) (opcodes : Opcodes) : Returns (emit opcodes n) := by
  refine h.induct (motive := fun n => Returns (emit opcodes n)) ?_
  intro mode n hproper hbelow
  cases n with
  | application f ns =>
    have hoperands := returns_emitEach fun m hm => hbelow mode m (.operand hm)
    rw [emit]
    exact hoperands.bind fun _ _ => (hbelow mode f .operator).bind fun _ _ => returns_ok _
  | lambda _ _ | quote _ _ | list _ | integer _ | float _ | string _ | symbol _ =>
    exact returns_ok _
  | foreign _ => contradiction

/-! ## Writing the fields -/

/-- Where the numbers of lowered code come from. -/
inductive Origin (opcodes : Opcodes) (mode : Mode) (n : Node) : Int → Prop
  | push : Origin opcodes mode n pushLiteral
  | opcode {name : String} {k : Int} : opcodes.lookup name = some k → Origin opcodes mode n k
  | literal {inner : Mode} {k : Int} :
      Node.Inside mode n inner (.integer k) → Origin opcodes mode n k

theorem exists_of_emitEach {pushed : List (List Field)} (h : emitEach opcodes ns = .ok pushed) :
    ∀ fields ∈ pushed, ∃ n ∈ ns, emit opcodes n = .ok fields := by
  induction ns generalizing pushed with
  | nil =>
    cases h
    nofun
  | cons n ns ih =>
    rw [emitEach] at h
    obtain ⟨later, hlater, h⟩ := exists_of_bind_eq_ok h
    obtain ⟨first, hfirst, h⟩ := exists_of_bind_eq_ok h
    cases h
    intro fields hfields
    rcases List.mem_cons.mp hfields with rfl | hfields
    · exact ⟨n, List.mem_cons_self, hfirst⟩
    · obtain ⟨m, hm, hemit⟩ := ih hlater fields hfields
      exact ⟨m, List.mem_cons_of_mem n hm, hemit⟩

/-- A field of an application is a field of its operator or of an operand. -/
theorem exists_of_emit_application {f : Node} {fields : List Field}
    (h : emit opcodes (.application f ns) = .ok fields) {field : Field} (hf : field ∈ fields) :
    ∃ m, Node.Below mode (.application f ns) mode m ∧
      ∃ fields', emit opcodes m = .ok fields' ∧ field ∈ fields' := by
  rw [emit] at h
  obtain ⟨pushed, hpushed, h⟩ := exists_of_bind_eq_ok h
  obtain ⟨applied, happlied, h⟩ := exists_of_bind_eq_ok h
  cases h
  -- The fields of the operator may be there twice.
  have hsplit : (∃ l ∈ pushed, field ∈ l) ∨ field ∈ applied := by
    simp only [List.mem_append, List.mem_flatten, List.mem_reverse] at hf
    rcases hf with (hf | hf) | hf
    · exact .inl hf
    · exact .inr hf
    · split at hf
      · exact .inr hf
      · contradiction
  rcases hsplit with ⟨l, hl, hf⟩ | hf
  · obtain ⟨m, hm, hemit⟩ := exists_of_emitEach hpushed l hl
    exact ⟨m, .operand hm, l, hemit, hf⟩
  · exact ⟨f, .operator, applied, happlied, hf⟩

/-- The fields of an atom. -/
inductive EmittedBy (opcodes : Opcodes) : Node → Field → Prop
  | push {k : Int} : EmittedBy opcodes (.integer k) (.number pushLiteral)
  | literal {k : Int} : EmittedBy opcodes (.integer k) (.number k)
  | symbol {name : String} : EmittedBy opcodes (.symbol name) (resolve opcodes name)

/-- Every field is emitted by an atom somewhere in the tree. -/
theorem exists_emittedBy (mode : Mode) (n : Node) {fields : List Field}
    (h : emit opcodes n = .ok fields) {field : Field} (hf : field ∈ fields) :
    ∃ inner m, Node.Inside mode n inner m ∧ EmittedBy opcodes m field := by
  refine Node.below_induct (motive := fun mode n => ∀ fields, emit opcodes n = .ok fields →
    field ∈ fields → ∃ inner m, Node.Inside mode n inner m ∧ EmittedBy opcodes m field)
    ?_ mode n fields h hf
  intro mode n ih fields h hf
  cases n with
  | application f ns =>
    obtain ⟨m, hb, fields', hemit, hf⟩ := exists_of_emit_application h hf
    obtain ⟨inner, k, hi, hk⟩ := ih mode m hb fields' hemit hf
    exact ⟨inner, k, .deeper hb hi, hk⟩
  | integer i =>
    cases h
    rcases List.mem_pair.mp hf with rfl | rfl
    · exact ⟨mode, _, .root, .push⟩
    · exact ⟨mode, _, .root, .literal⟩
  | symbol name =>
    cases h
    rw [List.mem_singleton.mp hf]
    exact ⟨mode, _, .root, .symbol⟩
  | lambda _ _ | quote _ _ | list _ | float _ | string _ =>
    cases h
    contradiction
  | foreign _ => contradiction

theorem origin_of_emit (mode : Mode) (n : Node) {fields : List Field}
    (h : emit opcodes n = .ok fields) {k : Int} (hk : .number k ∈ fields) :
    Origin opcodes mode n k := by
  obtain ⟨inner, m, hi, hm⟩ := exists_emittedBy mode n h hk
  generalize hfield : Field.number k = field at hm
  cases hm with
  | push =>
    cases hfield
    exact .push
  | literal =>
    cases hfield
    exact .literal hi
  | symbol =>
    unfold resolve at hfield
    split at hfield
    next hlookup =>
      cases hfield
      exact .opcode hlookup
    next => contradiction

/-- A name that is emitted is a symbol of the tree. -/
theorem exists_symbol_of_emit (mode : Mode) (n : Node) {fields : List Field}
    (h : emit opcodes n = .ok fields) {name : String} (hn : .name name ∈ fields) :
    ∃ inner, Node.Inside mode n inner (.symbol name) := by
  obtain ⟨inner, m, hi, hm⟩ := exists_emittedBy mode n h hn
  generalize hfield : Field.name name = field at hm
  cases hm with
  | push | literal => contradiction
  | symbol =>
    unfold resolve at hfield
    split at hfield
    next => contradiction
    next =>
      cases hfield
      exact ⟨inner, hi⟩

theorem isWritable_of_lookup (h : ∀ entry ∈ opcodes, Numeral.IsWritable entry.2) (name : String)
    (k : Int) (hk : opcodes.lookup name = some k) : Numeral.IsWritable k :=
  h (name, k) (Opcodes.mem_of_lookup hk)

theorem Origin.isWritable {k : Int} (h : Origin opcodes mode n k) (hn : n.Sound mode)
    (ho : ∀ name k, opcodes.lookup name = some k → Numeral.IsWritable k) :
    Numeral.IsWritable k := by
  cases h with
  | push => decide
  | opcode hk => exact ho _ k hk
  | literal hi => exact hn _ _ hi

theorem returns_fieldText {field : Field} (h : ∀ k, field = .number k → Numeral.IsWritable k) :
    Returns (fieldText field) := by
  cases field with
  | name text => exact returns_ok text
  | number k =>
    rw [fieldText, Numeral.writeInteger_of_isWritable (h k rfl)]
    exact returns_ok _

theorem returns_lower (h : n.Sound mode)
    (ho : ∀ name k, opcodes.lookup name = some k → Numeral.IsWritable k) :
    Returns (lower opcodes n) := by
  -- No number is looked at while it is emitted, so each one is traced back to where it is from.
  have htexts : ∀ fields, emit opcodes n = .ok fields → Returns (fields.mapM fieldText) := by
    intro fields hemit
    refine returns_of_forall (f := fieldText) (returns_ok []) ?_ ?_
    · intro field fields hfield hfields
      rw [List.mapM_cons]
      exact hfield.bind fun _ _ => hfields.bind fun _ _ => returns_ok _
    · intro field hfield
      refine returns_fieldText fun k hk => ?_
      subst hk
      exact (origin_of_emit mode n hemit hfield).isWritable h ho
  rw [lower]
  exact (returns_emit h opcodes).bind fun fields hemit =>
    (htexts fields hemit).bind fun _ _ => returns_ok _

end Code

end StackLisp
