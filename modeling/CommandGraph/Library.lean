/-
CommandGraph/Library.lean

Command libraries: the commands that a graph may use, by name.

A library is read from JSON records.  The type keeps the invariant that every command is filed
under its own name.
-/
import CommandGraph.Command
import CommandGraph.Grammar.Json
import CommandGraph.Json.Reader
import Std.Data.ExtTreeMap

namespace CommandGraph

/-! ### Commands as records -/

namespace Command

/-- The members of a command in their order. -/
def memberNames : List String :=
  ["name", "command", "category", "suffix", "arrayParam", "args"]

/-- A command as JSON. -/
def toJson (c : Command) : Json :=
  .object (
    [("name", .string c.name)] ++ Grammar.textMember "command" c.literal? ++
    [("category", .string c.category.tag)] ++ Grammar.textMember "suffix" c.suffix ++
    c.param.toList.map (("arrayParam", Grammar.toJson ·)) ++
    [("args", .array (Grammar.toJsonList c.args))])

/-- The command that a JSON value stands for. -/
def ofJson? (value : Json) : Option Command := do
  let record ← Record.ofJson? memberNames value
  return {
    name := ← record.required? "name" Json.string?
    literal? := ← record.optional? "command" Json.string?
    category := ← record.withDefault? "category" .statement fun value =>
      value.name?.bind Category.ofTag?
    suffix := ← record.optional? "suffix" Json.string?
    param := ← record.optional? "arrayParam" Grammar.ofJson?
    args := ← record.withDefault? "args" [] Grammar.listOfJson? }

end Command

/-! ### Libraries -/

/-- Why a library cannot be loaded or a command is not found. -/
inductive LibraryError where
  | malformed
  | duplicateCommand (name : String)
  | unknownCommand (name : String)
  deriving DecidableEq

def LibraryError.message : LibraryError → String
  | malformed => "Failed to parse command library JSON"
  | duplicateCommand name => "Command '" ++ name ++ "' is defined more than once in the library"
  | unknownCommand name => "Command '" ++ name ++ "' is not registered in the library"

/-- Commands by name. -/
structure Library where
  commands : Std.ExtTreeMap String Command
  filed : ∀ {name : String} {c : Command}, commands[name]? = some c → c.name = name

namespace Library

/-- The library without commands. -/
def empty : Library where
  commands := ∅
  filed h := by simp at h

/-- A library with one more command. -/
def register (library : Library) (c : Command) : Except LibraryError Library :=
  if c.name ∈ library.commands then .error (.duplicateCommand c.name)
  else .ok {
    commands := library.commands.insert c.name c
    filed := fun {name d} h => by
      rw [Std.ExtTreeMap.getElem?_insert] at h
      split at h
      · simp_all
      · exact library.filed h }

/-- The library of the given commands. -/
def ofCommands (commands : List Command) : Except LibraryError Library :=
  commands.foldlM register empty

/-- The library that a JSON array of commands stands for.  The array is read as a whole before
names are compared. -/
def ofText (text : String) : Except LibraryError Library :=
  match (Json.ofText? text).bind (Json.list? Command.ofJson?) with
  | some commands => ofCommands commands
  | none => .error .malformed

/-- The command with the given name. -/
def get (library : Library) (name : String) : Except LibraryError Command :=
  match library.commands[name]? with
  | some c => .ok c
  | none => .error (.unknownCommand name)

/-- The commands in the order of their names. -/
def toList (library : Library) : List Command :=
  library.commands.toList.map (·.2)

def size (library : Library) : Nat :=
  library.commands.size

end Library

end CommandGraph
