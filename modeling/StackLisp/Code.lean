import StackLisp.Node.Basic
import StackLisp.Node.Error

/-!
# Code of a stack machine

Lowering flattens a tree into the fields that a stack machine would work through: the
operands of an application are pushed from the last to the first, then comes its operator.
An integer is a push instruction followed by the value. A symbol is its opcode if it has
one, and stays a name otherwise. Everything else emits nothing, yet it counts as an operand:
an application of more than two operands repeats its operator's fields.
-/

namespace StackLisp

/-- One field of lowered code. -/
inductive Field where
  | number (value : Int)
  | name (text : String)
  deriving DecidableEq, Repr

/-- The opcodes of symbols. Of several entries for a name the first counts. -/
abbrev Opcodes := List (String × Int)

theorem Opcodes.mem_of_lookup {opcodes : Opcodes} {name : String} {k : Int}
    (h : opcodes.lookup name = some k) : (name, k) ∈ opcodes := by
  obtain ⟨before, after, hsplit, -⟩ := List.lookup_eq_some_iff.mp h
  simp [hsplit]

namespace Code

/-- The opcode that pushes the field after it. -/
def pushLiteral : Int := 10

/-- Applications with more operands than this repeat their operator. -/
def maxBinaryOperands : Nat := 2

/-- The opcodes of the language. -/
def builtin : Opcodes :=
  [("+", 2), ("-", 3), ("*", 4), ("/", 5), ("%", 6), (">", 7), ("<", 8), ("=", 9)]

/-- The field of a symbol. -/
def resolve (opcodes : Opcodes) (name : String) : Field :=
  match opcodes.lookup name with
  | some opcode => .number opcode
  | none => .name name

mutual

/-- The fields of a tree. -/
def emit (opcodes : Opcodes) : Node → Except NodeError (List Field)
  | .application operator operands => do
    let pushed ← emitEach opcodes operands
    let applied ← emit opcodes operator
    return pushed.reverse.flatten ++ applied ++
      if maxBinaryOperands < operands.length then applied else []
  | .integer n => .ok [.number pushLiteral, .number n]
  | .symbol name => .ok [resolve opcodes name]
  | .lambda .. | .quote .. | .list _ | .float _ | .string _ => .ok []
  | .foreign v => .error (.notLowered v.typeName)

/-- The fields of each operand. The last operand is emitted first, which shows in the error
if several operands cannot be emitted. -/
def emitEach (opcodes : Opcodes) : List Node → Except NodeError (List (List Field))
  | [] => .ok []
  | n :: ns => do
    let later ← emitEach opcodes ns
    let first ← emit opcodes n
    return first :: later

end

/-- The text of a field. -/
def fieldText : Field → Except NodeError String
  | .number n => (Numeral.writeInteger n).mapError .numeral
  | .name s => .ok s

/-- The text of lowered code: its fields, separated by commas. -/
def lower (opcodes : Opcodes) (n : Node) : Except NodeError String := do
  let fields ← emit opcodes n
  let texts ← fields.mapM fieldText
  return ", ".intercalate texts

end Code

end StackLisp
