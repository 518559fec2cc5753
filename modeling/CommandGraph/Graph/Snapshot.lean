/-
CommandGraph/Graph/Snapshot.lean

Snapshots: graphs as they are saved.

A saved node names its command and holds its values; sockets are projected again when
the snapshot is loaded, and values that are missing get their defaults.  Connections
are taken as they are, even those whose ends are not sockets.
-/
import CommandGraph.Command
import CommandGraph.Graph.Edit
import CommandGraph.Json.Writer

namespace CommandGraph

/-- A node as it is saved. -/
structure SavedNode where
  id : String
  /-- The name of the command in the library. -/
  command : String
  name : String := ""
  position : Position := {}
  values : Values := ∅
  expanded : Bool := true
  visible : Bool := true

/-- A graph as it is saved. -/
structure Snapshot where
  nodes : List SavedNode := []
  connections : List Connection := []

/-! ### Equality -/

namespace Snapshot

/-- Equality of points, coordinate by coordinate as doubles. -/
def equalPositions (p q : Position) : Bool :=
  p.x == q.x && p.y == q.y

/-- Equality of saved nodes. -/
def equalNodes (a b : SavedNode) : Bool :=
  a.id == b.id && a.command == b.command && a.name == b.name &&
    equalPositions a.position b.position && a.values.toList == b.values.toList &&
    a.expanded == b.expanded && a.visible == b.visible

/-- Equality of snapshots. -/
def equal (s t : Snapshot) : Bool :=
  s.nodes.length == t.nodes.length && (s.nodes.zip t.nodes).all (fun (a, b) => equalNodes a b) &&
    s.connections == t.connections

end Snapshot

/-! ### Values -/

def Scalar.toJson : Scalar → Json
  | flag b => .bool b
  | int n => .int n.toInt
  | text s => .string s

/-- The stored value that a JSON value stands for. -/
def Scalar.ofJson? : Json → Option Scalar
  | .bool b => some (flag b)
  | .int n =>
    if Int64.minValue.toInt ≤ n ∧ n ≤ Int64.maxValue.toInt then some (int (Int64.ofInt n))
    else none
  | .string s => some (text s)
  | _ => none

/-- Stored values as an object, in the order of keys. -/
def Values.toJson (values : Values) : Json :=
  .object (values.toList.map fun (key, value) => (key.text, value.toJson))

/-- The stored value that a member of an object stands for. -/
def Values.entryOfMember? (member : String × Json) : Option (Key × Scalar) := do
  return (← (Key.ofText member.1).toOption, ← Scalar.ofJson? member.2)

/-- The entries that an object stands for. -/
def Values.entriesOfJson? : Json → Option (List (Key × Scalar))
  | .object members => members.mapM entryOfMember?
  | _ => none

/-- The stored values that an object stands for. -/
def Values.ofJson? (value : Json) : Option Values :=
  (entriesOfJson? value).map ofEntries

/-! ### Nodes and connections -/

def Position.toJson (p : Position) : Json :=
  .object [("x", .float p.x), ("y", .float p.y)]

def Position.ofJson? (value : Json) : Option Position := do
  let record ← Record.ofJson? ["x", "y"] value
  return {
    x := ← record.required? "x" Json.float?
    y := ← record.required? "y" Json.float? }

def Key.ofJson? (value : Json) : Option Key :=
  value.string?.bind fun text => (Key.ofText text).toOption

def Connection.toJson (c : Connection) : Json :=
  .object [
    ("source", .string c.source.node), ("sourceKey", .string c.source.key.text),
    ("target", .string c.target.node), ("targetKey", .string c.target.key.text)]

def Connection.ofJson? (value : Json) : Option Connection := do
  let record ← Record.ofJson? ["source", "sourceKey", "target", "targetKey"] value
  let source ← record.required? "source" Json.string?
  let sourceKey ← record.required? "sourceKey" Key.ofJson?
  let target ← record.required? "target" Json.string?
  let targetKey ← record.required? "targetKey" Key.ofJson?
  return { source := ⟨source, sourceKey⟩, target := ⟨target, targetKey⟩ }

namespace SavedNode

/-- The members of a saved node in their order. -/
def memberNames : List String :=
  ["id", "command", "name", "position", "values", "expanded", "visible"]

def toJson (node : SavedNode) : Json :=
  .object [
    ("id", .string node.id), ("command", .string node.command), ("name", .string node.name),
    ("position", node.position.toJson), ("values", node.values.toJson),
    ("expanded", .bool node.expanded), ("visible", .bool node.visible)]

def ofJson? (value : Json) : Option SavedNode := do
  let record ← Record.ofJson? memberNames value
  return {
    id := ← record.required? "id" Json.string?
    command := ← record.required? "command" Json.string?
    name := ← record.withDefault? "name" "" Json.string?
    position := ← record.withDefault? "position" {} Position.ofJson?
    values := ← record.withDefault? "values" ∅ Values.ofJson?
    expanded := ← record.withDefault? "expanded" true Json.bool?
    visible := ← record.withDefault? "visible" true Json.bool? }

end SavedNode

/-! ### Snapshots -/

namespace Snapshot

def toJson (s : Snapshot) : Json :=
  .object [
    ("nodes", .array (s.nodes.map SavedNode.toJson)),
    ("connections", .array (s.connections.map Connection.toJson))]

def ofJson? (value : Json) : Option Snapshot := do
  let record ← Record.ofJson? ["nodes", "connections"] value
  return {
    nodes := ← record.withDefault? "nodes" [] (Json.list? SavedNode.ofJson?)
    connections := ← record.withDefault? "connections" [] (Json.list? Connection.ofJson?) }

/-- A snapshot as indented JSON text. -/
def toText (s : Snapshot) : String :=
  s.toJson.pretty

/-- The snapshot that a text stands for. -/
def ofText (text : String) : Except GraphError Snapshot :=
  match (Json.ofText? text).bind ofJson? with
  | some s => .ok s
  | none => .error .malformedSnapshot

end Snapshot

/-! ### Saving and loading -/

def Node.save (node : Node) : SavedNode where
  id := node.id
  command := node.command.name
  name := node.name
  position := node.position
  values := node.values
  expanded := node.expanded
  visible := node.visible

/-- The node that a saved node stands for, once its command is found. -/
def SavedNode.restore (saved : SavedNode) (c : Command) : Node :=
  Node.refresh {
    id := saved.id
    name := saved.name
    command := c
    values := c.fillDefaults saved.values
    expanded := saved.expanded
    visible := saved.visible
    position := saved.position
    sockets := {} }

namespace Graph

def save (g : Graph) : Snapshot where
  nodes := g.nodes.map Node.save
  connections := g.connections

/-- Adds a saved node to a graph. -/
def restoreNode (library : Library) (g : Graph) (saved : SavedNode) : Except GraphError Graph :=
  match library.get saved.command with
  | .error error => .error (.library error)
  | .ok c => g.addNode (saved.restore c)

/-- The graph that a snapshot stands for. -/
def load (library : Library) (s : Snapshot) : Except GraphError Graph := do
  let g ← s.nodes.foldlM (restoreNode library) {}
  return { g with connections := s.connections }

/-- A graph as indented JSON text. -/
def toText (g : Graph) : String :=
  g.save.toText

/-- The graph that a text stands for. -/
def ofText (library : Library) (text : String) : Except GraphError Graph := do
  load library (← Snapshot.ofText text)

end Graph

end CommandGraph
