import StackLisp.Node.Basic
import StackLisp.Node.Error

/-!
# Rendering

Rendering writes a tree as source in normal spacing. Numbers get their canonical numeral,
strings and quotes the text they were read from. The operands of an application are rendered
before its operator, which shows in the error if several parts cannot be rendered.
-/

namespace StackLisp.Node

/-- Texts with single spaces between them. -/
def spaced (texts : List String) : String := " ".intercalate texts

def parenthesized (text : String) : String := "(" ++ text ++ ")"

mutual

def render : Node → Except NodeError String
  | .application operator operands => do
    let operands ← renderAll operands
    let operator ← operator.render
    return parenthesized (spaced (operator :: operands))
  | .lambda parameters body => do
    let body ← body.render
    return parenthesized (spaced ["lambda", parenthesized (spaced parameters), body])
  | .quote raw _ => .ok (parenthesized ("quote " ++ raw))
  | .list items => do
    let items ← renderAll items
    return parenthesized (spaced items)
  | .integer n => (Numeral.writeInteger n).mapError .numeral
  | .float x => .ok x.plainText
  | .string s => .ok s
  | .symbol s => .ok s
  | .foreign v => .error (.notRendered v.typeName)

def renderAll : List Node → Except NodeError (List String)
  | [] => .ok []
  | n :: ns => do
    let text ← n.render
    let texts ← renderAll ns
    return text :: texts

end

end StackLisp.Node
