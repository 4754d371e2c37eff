import StackLisp.Foreign

/-!
# Syntax trees

A tree is code or data. Applications, lambdas and quotes are code; lists stand for the
parentheses inside a quote, where nothing is special and everything is data. A quote keeps
its data twice, as trees and as the text that is printed back. A tree that was put together
by hand may hold foreign values in the place of nodes.
-/

namespace StackLisp

open Numeral (Binary64)

inductive Node where
  /-- `(operator operand ...)` -/
  | application (operator : Node) (operands : List Node)
  /-- `(lambda (parameter ...) body)` -/
  | lambda (parameters : List String) (body : Node)
  /-- `(quote datum ...)`, with the text between the keyword and the closing parenthesis. -/
  | quote (raw : String) (datums : List Node)
  /-- A list among data. -/
  | list (items : List Node)
  | integer (value : Int)
  | float (value : Binary64)
  /-- A string, with its quotes. -/
  | string (text : String)
  | symbol (name : String)
  | foreign (value : Foreign)
  deriving Inhabited

namespace Node

/-- The least integer of code, `-2 ^ 63`. -/
def minInteger : Int := -0x8000000000000000

/-- The greatest integer of code, `2 ^ 63 - 1`. -/
def maxInteger : Int := 0x7fffffffffffffff

/-- Whether an integer has 64 bits, as those of code do. -/
def inRange (n : Int) : Bool := minInteger ≤ n && n ≤ maxInteger

mutual

/-- Equality of trees. Nodes of different sorts differ, even where their texts agree; numbers
of the same sort are compared by their value. -/
def same : Node → Node → Bool
  | .application f xs, .application g ys => same f g && sameAll xs ys
  | .lambda ps b, .lambda qs c => ps == qs && same b c
  | .quote r xs, .quote s ys => r == s && sameAll xs ys
  | .list xs, .list ys => sameAll xs ys
  | .integer m, .integer n => m == n
  | .float x, .float y => x.same y
  | .string s, .string t => s == t
  | .symbol a, .symbol b => a == b
  | .foreign v, .foreign w => v.same w
  | _, _ => false

def sameAll : List Node → List Node → Bool
  | [], [] => true
  | x :: xs, y :: ys => same x y && sameAll xs ys
  | _, _ => false

end

end Node

end StackLisp
