import StackLisp.Text.Quoted
import StackLisp.Numeral.Integer
import StackLisp.Numeral.Fraction

/-!
# Foreign values

A tree or a pattern table may be put together by hand, and then any value can stand where a
node or a token kind belongs. Such a value is never worked on. It is only named by its type,
described, or compared with another one.
-/

namespace StackLisp

open Numeral

inductive Foreign where
  | null
  | bool (value : Bool)
  | int (value : Int)
  | float (value : Binary64)
  | text (value : String)
  | list (items : List Foreign)
  /-- Named fields, in the order in which they were given. -/
  | record (fields : List (String × Foreign))
  /-- A value of any other type, told by the name of its type and by its description. -/
  | other (type description : String)
  deriving Inhabited

namespace Foreign

def typeName : Foreign → String
  | .null => "NoneType"
  | .bool _ => "bool"
  | .int _ => "int"
  | .float _ => "float"
  | .text _ => "str"
  | .list _ => "list"
  | .record _ => "dict"
  | .other type _ => type

mutual

def display : Foreign → String
  | .null => "None"
  | .bool true => "True"
  | .bool false => "False"
  | .int n => integerText n
  | .float x => x.scientificText
  | .text s => Text.quoted s
  | .list items => "[" ++ ", ".intercalate (displayItems items) ++ "]"
  | .record fields => "\x7b" ++ ", ".intercalate (displayFields fields) ++ "\x7d"
  | .other _ description => description

def displayItems : List Foreign → List String
  | [] => []
  | v :: vs => v.display :: displayItems vs

def displayFields : List (String × Foreign) → List String
  | [] => []
  | (name, v) :: vs => (Text.quoted name ++ ": " ++ v.display) :: displayFields vs

end

/-- The integer that a truth value or an integer counts as. -/
def int? : Foreign → Option Int
  | .bool b => some (if b then 1 else 0)
  | .int n => some n
  | _ => none

mutual

/-- Equality of values: numbers of all types are compared by their value, and the order of
fields does not matter. -/
def same : Foreign → Foreign → Bool
  | .null, .null => true
  | .text s, .text t => s == t
  | .float x, .float y => x.same y
  | .float x, .int n => x.sameInt n
  | .float x, .bool b => x.sameInt (if b then 1 else 0)
  | .int n, .float x => x.sameInt n
  | .bool b, .float x => x.sameInt (if b then 1 else 0)
  | .list xs, .list ys => sameItems xs ys
  | .record xs, .record ys => xs.length == ys.length && sameFields xs ys
  | .other s d, .other t e => s == t && d == e
  | v, w => v.int?.isSome && v.int? == w.int?

def sameItems : List Foreign → List Foreign → Bool
  | [], [] => true
  | x :: xs, y :: ys => same x y && sameItems xs ys
  | _, _ => false

/-- Whether each of the fields is matched by one of the same name. -/
def sameFields : List (String × Foreign) → List (String × Foreign) → Bool
  | [], _ => true
  | (name, x) :: xs, ys =>
    (match ys.lookup name with
      | some y => same x y
      | none => false) && sameFields xs ys

end

end Foreign

end StackLisp
