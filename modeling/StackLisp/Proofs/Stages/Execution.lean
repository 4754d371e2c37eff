import Mathlib.Data.List.Nodup
import StackLisp.Code

/-!
# Running lowered code

A stack machine takes the fields of lowered code one by one. It pushes literals and the values of
names, and an opcode works on the two values on top. Whatever these values and operations are,
the code of a tree of binary operations leaves the value of the tree on the stack, and on its way
there no opcode finds fewer than two values. This holds above any stack, and so it passes from
the operands to the application.

One such machine puts trees together. It shows that different trees have different code, although
a literal may look like an opcode, also like the one that pushes. What is needed is that no two
names share an opcode and that none has the one that pushes.
-/

namespace StackLisp

namespace Opcodes

/-- No opcode belongs to two names. -/
def IsInjective (opcodes : Opcodes) : Prop :=
  ∀ a b k, opcodes.lookup a = some k → opcodes.lookup b = some k → a = b

/-- The name of an opcode. -/
def nameOf (opcodes : Opcodes) (k : Int) : String :=
  ((opcodes.find? fun entry => opcodes.lookup entry.1 = some k).map Prod.fst).getD ""

theorem nameOf_eq {opcodes : Opcodes} (h : opcodes.IsInjective) {name : String} {k : Int}
    (hk : opcodes.lookup name = some k) : opcodes.nameOf k = name := by
  unfold nameOf
  cases hfind : opcodes.find? fun entry => opcodes.lookup entry.1 = some k with
  | none =>
    have hnone := List.find?_eq_none.mp hfind (name, k) (mem_of_lookup hk)
    simp [hk] at hnone
  | some entry =>
    have hentry := List.find?_some hfind
    exact h entry.1 name k (by simpa using hentry) hk

/-- Entries with different opcodes share none. -/
theorem isInjective_of_nodup {opcodes : Opcodes} (h : (opcodes.map Prod.snd).Nodup) :
    opcodes.IsInjective := by
  intro a b k ha hb
  have hentry := List.inj_on_of_nodup_map h (mem_of_lookup ha) (mem_of_lookup hb) rfl
  exact congrArg Prod.fst hentry

end Opcodes

namespace Code

/-- A tree of binary operations: the operators have opcodes, and the other symbols have none. -/
inductive IsBinary (opcodes : Opcodes) : Node → Prop
  | integer (k : Int) : IsBinary opcodes (.integer k)
  | symbol {name : String} : opcodes.lookup name = none → IsBinary opcodes (.symbol name)
  | application {name : String} {k : Int} {x y : Node} : opcodes.lookup name = some k →
      IsBinary opcodes x → IsBinary opcodes y →
      IsBinary opcodes (.application (.symbol name) [x, y])

/-- What a stack machine computes with. An operation is applied to the value on top of the stack
and the one below it. -/
structure Operations (α : Type) where
  literal : Field → α
  name : String → α
  apply : Int → α → α → α

/-- A tree of binary operations has a value. -/
inductive HasValue {α : Type} (opcodes : Opcodes) (ops : Operations α) : Node → α → Prop
  | integer (k : Int) : HasValue opcodes ops (.integer k) (ops.literal (.number k))
  | symbol {name : String} : opcodes.lookup name = none →
      HasValue opcodes ops (.symbol name) (ops.name name)
  | application {name : String} {k : Int} {x y : Node} {a b : α} :
      opcodes.lookup name = some k → HasValue opcodes ops x a → HasValue opcodes ops y b →
      HasValue opcodes ops (.application (.symbol name) [x, y]) (ops.apply k a b)

/-- A stack machine between two fields: the values on its stack, from the top down, and whether
the next field is a literal. -/
structure Machine (α : Type) where
  stack : List α
  pushing : Bool

namespace Machine

variable {α : Type} {ops : Operations α} {k : Int} {stack : List α}

/-- Takes a field. An opcode that finds fewer than two values gets the machine stuck. -/
def step (ops : Operations α) : Machine α → Field → Option (Machine α)
  | ⟨stack, true⟩, field => some ⟨ops.literal field :: stack, false⟩
  | ⟨stack, false⟩, .name text => some ⟨ops.name text :: stack, false⟩
  | ⟨stack, false⟩, .number k =>
    if k = pushLiteral then some ⟨stack, true⟩
    else
      match stack with
      | a :: b :: stack => some ⟨ops.apply k a b :: stack, false⟩
      | _ => none

/-- Takes one field after the other. -/
def run (ops : Operations α) (m : Machine α) (fields : List Field) : Option (Machine α) :=
  fields.foldlM (step ops) m

theorem run_append (m : Machine α) (fields more : List Field) :
    m.run ops (fields ++ more) = (m.run ops fields).bind fun m' => m'.run ops more :=
  List.foldlM_append

theorem run_name (text : String) :
    run ops ⟨stack, false⟩ [.name text] = some ⟨ops.name text :: stack, false⟩ := rfl

theorem run_push (field : Field) :
    run ops ⟨stack, false⟩ [.number pushLiteral, field] =
      some ⟨ops.literal field :: stack, false⟩ := rfl

theorem run_opcode (hk : k ≠ pushLiteral) (a b : α) :
    run ops ⟨a :: b :: stack, false⟩ [.number k] = some ⟨ops.apply k a b :: stack, false⟩ := by
  simp [run, step, hk]

end Machine

section Binary
variable {α : Type} {ops : Operations α} {opcodes : Opcodes} {m n : Node} {a : α}

open Machine (run run_append run_name run_push run_opcode)

/-- The second operand comes first. -/
theorem emit_binary {name : String} {k : Int} {x y : Node} {first second : List Field}
    (hk : opcodes.lookup name = some k) (hx : emit opcodes x = .ok first)
    (hy : emit opcodes y = .ok second) :
    emit opcodes (.application (.symbol name) [x, y]) =
      .ok (second ++ (first ++ [.number k])) := by
  have hoperator : emit opcodes (.symbol name) = .ok [.number k] := by
    rw [emit, resolve, hk]
  have hoperands : emitEach opcodes [x, y] = .ok [first, second] := by
    rw [emitEach, emitEach, emitEach, hx, hy]
    rfl
  rw [emit, hoperands, hoperator]
  simp [bind, Except.bind, pure, Except.pure, maxBinaryOperands]

/-- The code of a tree leaves its value on top of whatever is on the stack. -/
theorem HasValue.exists_run (h : HasValue opcodes ops n a)
    (hpush : ∀ name, opcodes.lookup name ≠ some pushLiteral) :
    ∃ fields, emit opcodes n = .ok fields ∧
      ∀ stack, run ops ⟨stack, false⟩ fields = some ⟨a :: stack, false⟩ := by
  induction h with
  | integer k => exact ⟨_, rfl, fun _ => run_push (.number k)⟩
  | @symbol name hnone =>
    have hemit : emit opcodes (.symbol name) = .ok [.name name] := by
      rw [emit, resolve, hnone]
    exact ⟨_, hemit, fun _ => run_name name⟩
  | @application name k x y a b hk _ _ ihx ihy =>
    obtain ⟨first, hx, hfirst⟩ := ihx
    obtain ⟨second, hy, hsecond⟩ := ihy
    refine ⟨_, emit_binary hk hx hy, fun stack => ?_⟩
    have hne : k ≠ pushLiteral := by
      rintro rfl
      exact hpush name hk
    -- The first operand runs above the value of the second, which the opcode finds below.
    rw [run_append, hsecond, Option.bind_some, run_append, hfirst, Option.bind_some,
      run_opcode hne]

theorem IsBinary.exists_hasValue (h : IsBinary opcodes n) (ops : Operations α) :
    ∃ a, HasValue opcodes ops n a := by
  induction h with
  | integer k => exact ⟨_, .integer k⟩
  | symbol hnone => exact ⟨_, .symbol hnone⟩
  | application hk _ _ ihx ihy =>
    obtain ⟨a, ha⟩ := ihx
    obtain ⟨b, hb⟩ := ihy
    exact ⟨_, .application hk ha hb⟩

/-- The operations that put trees together. -/
def trees (opcodes : Opcodes) : Operations Node where
  literal
    | .number k => .integer k
    | .name text => .symbol text
  name := .symbol
  apply k x y := .application (.symbol (opcodes.nameOf k)) [x, y]

/-- A tree of binary operations is its own value. -/
theorem IsBinary.hasValue_trees (h : IsBinary opcodes n) (hinj : opcodes.IsInjective) :
    HasValue opcodes (trees opcodes) n n := by
  induction h with
  | integer k => exact .integer k
  | symbol hnone => exact .symbol hnone
  | @application name k x y hk _ _ ihx ihy =>
    have happly : (trees opcodes).apply k x y = .application (.symbol name) [x, y] :=
      congrArg (fun text => Node.application (.symbol text) [x, y]) (Opcodes.nameOf_eq hinj hk)
    have hvalue := HasValue.application hk ihx ihy
    rwa [happly] at hvalue

/-- A tree is found again in its code. -/
theorem IsBinary.eq_of_emit_eq (hinj : opcodes.IsInjective)
    (hpush : ∀ name, opcodes.lookup name ≠ some pushLiteral) (hm : IsBinary opcodes m)
    (hn : IsBinary opcodes n) (h : emit opcodes m = emit opcodes n) : m = n := by
  obtain ⟨fields, hemit, hrun⟩ := (hm.hasValue_trees hinj).exists_run hpush
  obtain ⟨fields', hemit', hrun'⟩ := (hn.hasValue_trees hinj).exists_run hpush
  rw [h, hemit'] at hemit
  cases hemit
  have hstacks := (hrun []).symm.trans (hrun' [])
  simpa using hstacks

end Binary

/-- Let no two names share an opcode, and none have the one that pushes. Then the code of a tree
of binary operations runs on every stack machine without getting it stuck, from an empty stack
to one on which the value of the tree is all there is; and no two such trees have the same
code. -/
theorem binary_code_unambiguous {opcodes : Opcodes} (hinj : opcodes.IsInjective)
    (hpush : ∀ name, opcodes.lookup name ≠ some pushLiteral) :
    (∀ n, IsBinary opcodes n → ∃ fields, emit opcodes n = .ok fields ∧
      ∀ (α : Type) (ops : Operations α), ∃ a, HasValue opcodes ops n a ∧
        Machine.run ops ⟨[], false⟩ fields = some ⟨[a], false⟩) ∧
    ∀ m n, IsBinary opcodes m → IsBinary opcodes n → emit opcodes m = emit opcodes n → m = n := by
  refine ⟨?_, fun _ _ => IsBinary.eq_of_emit_eq hinj hpush⟩
  intro n hn
  -- The code comes before the machine, so some machine must do to tell that there is any.
  obtain ⟨fields, hemit, -⟩ := (hn.hasValue_trees hinj).exists_run hpush
  refine ⟨fields, hemit, fun α ops => ?_⟩
  obtain ⟨a, ha⟩ := hn.exists_hasValue ops
  obtain ⟨fields', hemit', hrun⟩ := ha.exists_run hpush
  rw [hemit] at hemit'
  cases hemit'
  exact ⟨a, ha, hrun []⟩

/-- The tree of `(- 10 (* x 10))`, where each integer looks like the opcode that pushes. -/
def pushLookalikes : Node :=
  .application (.symbol "-")
    [.integer pushLiteral, .application (.symbol "*") [.symbol "x", .integer pushLiteral]]

theorem binary_code_unambiguous_pushLookalikes :
    builtin.IsInjective ∧ (∀ name, builtin.lookup name ≠ some pushLiteral) ∧
    (∃ fields, emit builtin pushLookalikes = .ok fields ∧
      fields = [.number 10, .number 10, .name "x", .number 4, .number 10, .number 10,
        .number 3] ∧
      ∀ (α : Type) (ops : Operations α), ∃ a, HasValue builtin ops pushLookalikes a ∧
        Machine.run ops ⟨[], false⟩ fields = some ⟨[a], false⟩) ∧
    ∀ n, IsBinary builtin n → emit builtin n = emit builtin pushLookalikes →
      n = pushLookalikes := by
  have hinj : builtin.IsInjective := Opcodes.isInjective_of_nodup (by decide)
  have hnone : ∀ entry ∈ builtin, entry.2 ≠ pushLiteral := by
    decide
  have hpush : ∀ name, builtin.lookup name ≠ some pushLiteral := fun name h =>
    hnone _ (Opcodes.mem_of_lookup h) rfl
  have htree : IsBinary builtin pushLookalikes :=
    .application (k := 3) rfl (.integer _) (.application (k := 4) rfl (.symbol rfl) (.integer _))
  obtain ⟨hrun, hunique⟩ := binary_code_unambiguous hinj hpush
  obtain ⟨fields, hemit, hvalue⟩ := hrun _ htree
  refine ⟨hinj, hpush, ⟨fields, hemit, ?_, hvalue⟩, fun n hn => hunique n _ hn htree⟩
  exact (Except.ok.inj hemit).symm

end Code

end StackLisp
