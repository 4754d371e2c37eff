import StackLisp.Node.Basic

/-!
# Descriptions of trees

The description of a tree names every node and its parts. It fails only where an integer is
too long to be written.
-/

namespace StackLisp.Node

/-- A sequence of descriptions in parentheses. A single one is followed by a comma. -/
def tuple : List String → String
  | [] => "()"
  | [s] => "(" ++ s ++ ",)"
  | ss => "(" ++ ", ".intercalate ss ++ ")"

mutual

def display : Node → Except NumeralError String
  | .application operator operands => do
    let operator ← operator.display
    let operands ← displayAll operands
    return "Application(operator=" ++ operator ++ ", operands=" ++ tuple operands ++ ")"
  | .lambda parameters body => do
    let body ← body.display
    let parameters := tuple (parameters.map Text.quoted)
    return "LambdaExpr(parameters=" ++ parameters ++ ", body=" ++ body ++ ")"
  | .quote raw datums => do
    let datums ← displayAll datums
    return "QuotedExpr(raw=" ++ Text.quoted raw ++ ", datums=" ++ tuple datums ++ ")"
  | .list items => do
    let items ← displayAll items
    return "DatumList(items=" ++ tuple items ++ ")"
  | .integer n => do
    let n ← Numeral.writeInteger n
    return "IntegerLiteral(value=" ++ n ++ ")"
  | .float x => .ok ("FloatLiteral(value=" ++ x.scientificText ++ ")")
  | .string s => .ok ("StringLiteral(value=" ++ Text.quoted s ++ ")")
  | .symbol s => .ok ("SymbolRef(name=" ++ Text.quoted s ++ ")")
  | .foreign v => .ok v.display

def displayAll : List Node → Except NumeralError (List String)
  | [] => .ok []
  | n :: ns => do
    let n ← n.display
    let ns ← displayAll ns
    return n :: ns

end

end StackLisp.Node
