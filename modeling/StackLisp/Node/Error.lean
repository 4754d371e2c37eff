import StackLisp.Numeral.Error

/-!
# What can be wrong with a tree

A tree that was read from tokens can always be printed and lowered. A tree that was put
together by hand may hold a foreign value where a node is needed, or an integer that is too
long to be written.
-/

namespace StackLisp

inductive NodeError where
  /-- A foreign value of the named type was to be rendered. -/
  | notRendered (typeName : String)
  /-- A foreign value of the named type was to be lowered. -/
  | notLowered (typeName : String)
  | numeral (error : NumeralError)
  deriving DecidableEq, Repr

def NodeError.message : NodeError → String
  | .notRendered typeName => "cannot render " ++ typeName
  | .notLowered typeName => "cannot lower " ++ typeName
  | .numeral error => error.message

end StackLisp
