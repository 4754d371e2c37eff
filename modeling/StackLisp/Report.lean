import StackLisp.Parse
import StackLisp.Node.Display
import StackLisp.Node.Render
import StackLisp.Code

/-!
# Reports

A report shows a source in each stage of its way to code: the tokens, the tree, the source
rendered again, and the lowered code. A source that fails in any stage has no report.
-/

namespace StackLisp

/-- Anything that can go wrong between a source and its code. -/
inductive StageError where
  | source (error : SourceFailure)
  | node (error : NodeError)
  deriving DecidableEq, Repr

def StageError.message : StageError → String
  | .source error => error.message
  | .node error => error.message

namespace Report

/-- One stage under its title. -/
def stage (title body : String) : String := "=== " ++ title ++ " ===\n" ++ body ++ "\n"

/-- The report of a source. -/
def ofSource (table : Table) (source : String) : Except StageError String := do
  let tokens ← (scan table source).mapError (.source ∘ .lex)
  let tree ← (parse tokens).mapError (.source ∘ .read)
  let description ← tree.display.mapError (.node ∘ .numeral)
  let rendered ← tree.render.mapError .node
  let lowered ← (Code.lower Code.builtin tree).mapError .node
  return "\n".intercalate
    [stage "Token Stream" ("\n".intercalate (tokens.map Token.display)),
      stage "Syntax Tree" description,
      stage "Rendered" rendered,
      stage "Lowered" lowered]

/-- Makes the report of a source and appends it to a text, if there is one. The text is left
alone if there is no report. -/
def write (table : Table) (source : String) (out : Option String) :
    Except StageError String × Option String :=
  match ofSource table source with
  | .ok report => (.ok report, out.map (· ++ report))
  | .error error => (.error error, out)

end Report

end StackLisp
