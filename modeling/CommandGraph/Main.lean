/-
CommandGraph/Main.lean

The command line: loads a library and a graph and writes the text of the graph.

Two files are named, a library and a saved graph; options may stand anywhere among
them, and a value follows its option or is attached to it with an equals sign.
-/
import CommandGraph.Graph.Refresh
import CommandGraph.Graph.Snapshot
import CommandGraph.Number.Decimal
import CommandGraph.Render.Generate

namespace CommandGraph

/-! ### Arguments -/

/-- What the command line asks for. -/
structure CommandLine where
  library : Option String := none
  graph : Option String := none
  /-- The file to write to instead of standard output. -/
  output : Option String := none
  /-- The number of spaces per level. -/
  indent : Nat := 4
  /-- Whether cycles are errors. -/
  strict : Bool := false
  /-- Whether kept results are computed anew first. -/
  refresh : Bool := false

namespace CommandLine

/-- How the program is called. -/
def usage : String :=
  "usage: LIBRARY GRAPH [-o|--output FILE] [--indent N] [--strict] [--refresh]"

/-- Adds a file. -/
def addFile (line : CommandLine) (path : String) : Option CommandLine :=
  match line.library, line.graph with
  | none, _ => some { line with library := some path }
  | some _, none => some { line with graph := some path }
  | some _, some _ => none

/-- Sets an option that takes a value. -/
def setValue (line : CommandLine) (option value : String) : Option CommandLine :=
  match option with
  | "-o" | "--output" => some { line with output := some value }
  | "--indent" => (Natural.ofText? value.toList).map fun indent => { line with indent }
  | _ => none

/-- An option and the value attached to it. -/
def attached? (argument : String) : Option (String × String) :=
  let cs := argument.toList
  match cs.dropWhile (· != '=') with
  | '=' :: value => some (String.ofList (cs.takeWhile (· != '=')), String.ofList value)
  | _ => none

/-- Reads arguments into what has been read before. -/
def add (line : CommandLine) : List String → Option CommandLine
  | [] => some line
  | "--strict" :: rest => add { line with strict := true } rest
  | "--refresh" :: rest => add { line with refresh := true } rest
  | argument :: rest =>
    if not (['-'].isPrefixOf argument.toList) then do add (← line.addFile argument) rest
    else match attached? argument with
      | some (option, value) => do add (← line.setValue option value) rest
      | none => match rest with
        | value :: rest => do add (← line.setValue argument value) rest
        | [] => none

/-- The two files and the options, if the arguments are complete. -/
def ofArguments? (arguments : List String) : Option (String × String × CommandLine) := do
  let line ← add {} arguments
  return (← line.library, ← line.graph, line)

end CommandLine

end CommandGraph

open CommandGraph

/-! ### The program -/

/-- Reads a file. -/
def readText (what path : String) : IO String := do
  try
    IO.FS.readFile path
  catch e =>
    throw (IO.userError s!"Failed to read {what} '{path}': {e}")

/-- The value of a result, or a failure with its message. -/
def orFail {ε α : Type} (what : String) (message : ε → String) : Except ε α → IO α
  | .ok value => return value
  | .error e => throw (IO.userError (what ++ ": " ++ message e))

/-- Recomputes the kept results of a graph and reports what fails. -/
def refreshed (g : Graph) (limits : ScriptLimits) : IO Graph := do
  let (g, failures) := g.refreshEvaluations limits
  for failure in failures do
    IO.eprintln s!"embedded code of node '{failure.place.node}' failed: {failure.error.message}"
  return g

/-- The text of the graph that the command line names. -/
def generated (libraryPath graphPath : String) (line : CommandLine) : IO String := do
  let libraryText ← readText "command library" libraryPath
  let graphText ← readText "graph snapshot" graphPath
  let library ← orFail "Failed to load command library" LibraryError.message
    (Library.ofText libraryText)
  let loaded ← orFail "Failed to load graph" GraphError.message (Graph.ofText library graphText)
  let options : RenderOptions := { indent := String.ofList (List.replicate line.indent ' ') }
  let g ← if line.refresh then refreshed loaded options.limits else pure loaded
  if line.strict then
    orFail "Generation failed" GenerateError.message (g.tryGenerate options)
  else
    return g.generate options

/-- Runs the command line. -/
def main (arguments : List String) : IO UInt32 := do
  match CommandLine.ofArguments? arguments with
  | none =>
    IO.eprintln CommandLine.usage
    return 2
  | some (libraryPath, graphPath, line) =>
    try
      let text ← generated libraryPath graphPath line
      match line.output with
      | some path => IO.FS.writeFile path (text ++ "\n")
      | none => IO.println text
      return 0
    catch e =>
      IO.eprintln s!"\nError: {e}"
      return 1
