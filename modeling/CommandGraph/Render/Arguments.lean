/-
CommandGraph/Render/Arguments.lean

Writing the arguments of one statement.

Arguments that are omitted, turned off or empty leave no trace in the text around them.
A value that is out of reach is shown as an error; if it is part of a cycle, this is
also the reason why strict generation fails.  What a branch holds is decided by the
caller, who follows the connections that leave it.
-/
import CommandGraph.Expr.Eval
import CommandGraph.Occurrence.Walk
import CommandGraph.Render.Text

namespace CommandGraph

/-! ### The state of a generation -/

/-- Why strict generation rejects a graph. -/
inductive GenerateError where
  | cyclicFlow (node : String)
  | resolve (error : ResolveError)
  deriving DecidableEq

def GenerateError.message : GenerateError → String
  | cyclicFlow node => "Cyclic flow connection at node '" ++ node ++ "'"
  | resolve error => error.message

/-- The state of a generation. -/
structure Progress where
  /-- The nodes that have been entered, the last one first. -/
  reached : List String := []
  /-- The reasons to reject the graph, the last one first. -/
  problems : List GenerateError := []

/-- A step of a generation. -/
abbrev RenderM :=
  StateM Progress

/-- Records a reason to reject the graph. -/
def reject (error : GenerateError) : RenderM Unit :=
  modify fun progress => { progress with problems := error :: progress.problems }

/-- The bounds and the layout of generated text. -/
structure RenderOptions where
  /-- The text in front of a line per level of nesting. -/
  indent : String := "    "
  /-- The bounds on embedded code that is run while writing. -/
  limits : ScriptLimits := {}

namespace Occurrence

/-! ### Texts of single arguments -/

/-- The result of embedded code that stands in the text. -/
def inlineResult (limits : ScriptLimits) (code : String) : String :=
  match evaluateText code [] limits with
  | .ok value => value.display
  | .error error => Render.errorMarker error.message

/-- A value that is present as it is written, without leading text. -/
def writtenValue (limits : ScriptLimits) (text : String) : Primitive → String
  | .string => Render.quote text
  | .embeddedCode => inlineResult limits text
  | _ => text

/-- The text of a value.  A missing one is omitted if it is optional. -/
def renderScalar (limits : ScriptLimits) (node : Grammar) (subtype : Primitive)
    (reading : Reading) : RenderM (Option String) :=
  match reading with
  | .error error => do
    -- the marker is written in both modes; only strict generation looks at the problem
    if error.isFatal then
      reject (.resolve error)
    return some (Render.errorMarker error.message)
  | .ok value =>
    match (value.map Scalar.display).filter (!·.isEmpty) with
    | some text => return some (node.withLead (writtenValue limits text subtype))
    | none =>
      if node.isOptional then return none else return some (node.withLead subtype.fallback)

/-- The text of a subcommand. -/
def subcommandText (node : Grammar) (param : Option String) (args : List String) : String :=
  let name := node.writtenName ++ Render.bracketed param
  let args := Render.nonEmpty args
  if !node.hasBlockStyle then name ++ "(" ++ ", ".intercalate args ++ ")"
  else if args.isEmpty then name
  else name ++ " " ++ " ".intercalate args

/-- The text of an array. -/
def arrayText (node : Grammar) (items : List String) : String :=
  let ((opening, closing), separator) := node.arrayStyle
  opening ++ separator.intercalate (Render.nonEmpty items) ++ closing

/-- The text of repeated items, if there is one. -/
def repeatedText (node : Grammar) (items : List String) : Option String :=
  let items := Render.nonEmpty items
  if items.isEmpty then none else some (node.itemJoiner.intercalate items)

/-! ### The text of a tree -/

mutual

/-- The text of an argument, or nothing if it is omitted.  `branch` gives what the branch at a
key holds. -/
def render (options : RenderOptions) (branch : Key → RenderM String) :
    Occurrence → RenderM (Option String)
  | scalar node _ subtype reading => renderScalar options.limits node subtype reading
  | literal _ _ text => return if text == hiddenKeyword then none else some text
  | optional _ _ enabled content => do
    -- a walk that is not full leaves out what is turned off, so that this runs no branch for it
    let text ← renderOption options branch content
    return if enabled then text else none
  | repeated node _ _ items => do
    let texts ← renderList options branch items
    return repeatedText node texts
  | choice _ _ _ content => renderOption options branch content
  | block _ _ children => do
    let texts ← renderList options branch children
    return some (Render.braced ("\n".intercalate (Render.nonEmpty texts)) options.indent)
  | Occurrence.branch _ key => do
    let body ← branch key
    return some (Render.braced body options.indent)
  | subcommand node _ param args => do
    let paramText ← renderOption options branch param
    let texts ← renderList options branch args
    return some (subcommandText node paramText texts)
  | group _ _ children => do
    let texts ← renderList options branch children
    return some (" ".intercalate (Render.nonEmpty texts))
  | array node _ items => do
    let texts ← renderList options branch items
    return some (arrayText node texts)
  | base node _ param => do
    let paramText ← renderOption options branch param
    return some (node.writtenName ++ Render.bracketed paramText)

def renderOption (options : RenderOptions) (branch : Key → RenderM String) :
    Option Occurrence → RenderM (Option String)
  | none => return none
  | some o => render options branch o

/-- The texts of the arguments that are not omitted. -/
def renderList (options : RenderOptions) (branch : Key → RenderM String) :
    List Occurrence → RenderM (List String)
  | [] => return []
  | o :: os => do
    let text ← render options branch o
    let texts ← renderList options branch os
    return text.toList ++ texts

end

end Occurrence

/-! ### Statements -/

namespace Command

/-- A statement: the literal, the parameter in brackets, the suffix and the arguments. -/
def line (c : Command) (param : Option String) (args : List String) : String :=
  let start := c.literal ++ Render.bracketed param ++ c.suffix.getD ""
  let args := Render.nonEmpty args
  if args.isEmpty then start else start ++ " " ++ " ".intercalate args

/-- The text of a statement whose values are looked up in `source`. -/
def render (c : Command) (options : RenderOptions) (source : Source)
    (branch : Key → RenderM String) : RenderM String := do
  let arguments := c.walk source false
  let param ← Occurrence.renderOption options branch arguments.param
  let args ← Occurrence.renderList options branch arguments.args
  return c.line param args

end Command

end CommandGraph
