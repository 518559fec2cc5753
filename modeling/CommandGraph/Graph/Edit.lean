/-
CommandGraph/Graph/Edit.lean

Editing graphs.

An edit returns the new graph or the reason why it is refused.  Edits of a node's state
project its sockets anew and drop the connections whose socket is gone.
-/
import CommandGraph.Command
import CommandGraph.Graph.Basic
import CommandGraph.Library

namespace CommandGraph

/-! ### Why an edit is refused -/

/-- What a key was expected to address. -/
inductive Site where
  | repeatableOrArray
  | choice
  deriving DecidableEq

def Site.describe : Site → String
  | repeatableOrArray => "repeatable or array"
  | choice => "choice"

def Direction.describe : Direction → String
  | input => "input"
  | output => "output"

/-- Why an edit is refused. -/
inductive GraphError where
  | nodeNotFound (id : String)
  | duplicateNode (id : String)
  | socketNotFound (place : Place) (direction : Direction)
  | socketOccupied (place : Place)
  | channelMismatch (source target : Channel)
  | dataTypeMismatch (source target : Primitive)
  | flowFanOut (place : Place)
  | invalidKey (place : Place) (expected : Site)
  | unknownOption (key : Key) (option : String)
  | malformedSnapshot
  | library (error : LibraryError)
  deriving DecidableEq

def GraphError.message : GraphError → String
  | nodeNotFound id => "Node '" ++ id ++ "' not found in the graph"
  | duplicateNode id => "Node id '" ++ id ++ "' is already used by another node"
  | socketNotFound place direction =>
    "Node '" ++ place.node ++ "' has no " ++ direction.describe ++ " socket at key '" ++
      place.key.text ++ "'"
  | socketOccupied place =>
    "Input socket '" ++ place.key.text ++ "' on node '" ++ place.node ++
      "' already has an incoming connection"
  | channelMismatch source target =>
    "Cannot connect a " ++ source.name ++ " socket to a " ++ target.name ++ " socket"
  | dataTypeMismatch source target =>
    "Data type mismatch: '" ++ source.tag ++ "' cannot feed '" ++ target.tag ++ "'"
  | flowFanOut place =>
    "Flow output '" ++ place.key.text ++ "' on node '" ++ place.node ++
      "' is already connected"
  | invalidKey place expected =>
    "Key '" ++ place.key.text ++ "' on node '" ++ place.node ++ "' does not address a " ++
      expected.describe
  | unknownOption key option =>
    "Option '" ++ option ++ "' is not declared by the choice at '" ++ key.text ++ "'"
  | malformedSnapshot => "Graph snapshot JSON error"
  | library error => error.message

/-! ### Places in a node -/

namespace Node

/-- The first occurrence at a key, children before their parents.  Optional arguments that are
turned off can be addressed, too. -/
def locate? (node : Node) (key : Key) : Option Occurrence :=
  (node.command.walk (.ofValues node.values) true).all.find? (·.key = key)

/-- Whether a key lies at or below an item of `key` whose index is at least `count`. -/
def isBeyond (key : Key) (count : Nat) (other : Key) : Bool :=
  other.isUnder key &&
    -- the segment behind `key` itself tells to which of the items the other key belongs
    match other.segments[key.segments.length]? with
    | some (.ordinal i) => count ≤ i
    | _ => false

/-- The values with a new number of items at a key: what belongs to items beyond it is gone,
and new items have their defaults. -/
def resize (node : Node) (key : Key) (count : Nat) : Node :=
  let kept := node.values.keep (!isBeyond key count ·)
  { node with values := node.command.fillDefaults (kept.insert key.count (.ofCount count)) }

/-- The values with an option selected at a key, its arguments with their defaults. -/
def select (node : Node) (key : Key) (option : String) : Node :=
  { node with values := node.command.fillDefaults (node.values.insert key (.text option)) }

end Node

/-- Whether an occurrence has a number of items that can be changed. -/
def Occurrence.isResizable : Occurrence → Bool
  | repeated .. | array .. => true
  | _ => false

/-- The options of a choice, and whether it may select none. -/
def Occurrence.options? : Occurrence → Option (List Grammar × Bool)
  | choice (.choice attrs options) .. => some (options, attrs.optional)
  | _ => none

namespace Graph

/-! ### Nodes -/

/-- The node with the given id, which has to exist. -/
def require (g : Graph) (id : String) : Except GraphError Node :=
  match g.node? id with
  | some node => .ok node
  | none => .error (.nodeNotFound id)

/-- Adds a node at the end. -/
def addNode (g : Graph) (node : Node) : Except GraphError Graph :=
  match g.node? node.id with
  | some _ => .error (.duplicateNode node.id)
  | none => .ok { g with nodes := g.nodes ++ [node] }

/-- Whether a connection starts or ends at a node. -/
def touches (id : String) (c : Connection) : Bool :=
  c.source.node = id || c.target.node = id

/-- Removes a node and every connection that touches it. -/
def removeNode (g : Graph) (id : String) : Except GraphError Graph := do
  let _ ← g.require id
  return {
    nodes := g.nodes.eraseP (·.id = id)
    connections := g.connections.filter (!touches id ·) }

/-- The graph with one node in place of another of the same id. -/
def replace (g : Graph) (node : Node) : Graph :=
  { g with nodes := g.nodes.map fun other => if other.id = node.id then node else other }

/-- Whether the ends of a connection at a node are among the node's sockets. -/
def attached (node : Node) (c : Connection) : Bool :=
  (c.source.node ≠ node.id || (node.sockets.output? c.source.key).isSome) &&
    (c.target.node ≠ node.id || (node.sockets.input? c.target.key).isSome)

/-- Puts a changed node in its place: its sockets are projected, and connections to sockets that
are gone are dropped. -/
def update (g : Graph) (node : Node) : Graph :=
  let node := node.refresh
  -- connections between other nodes pass the filter: `attached` looks at ends in `node` only
  { g.replace node with connections := g.connections.filter (attached node) }

/-! ### Connections -/

/-- The socket at a place, which has to exist. -/
def requireSocket (g : Graph) (place : Place) (direction : Direction) :
    Except GraphError Socket := do
  let node ← g.require place.node
  match node.sockets.find? place.key direction with
  | some socket => return socket
  | none => throw (.socketNotFound place direction)

/-- Whether an output may feed an input.  A flow output leads to one place only. -/
def compatible (g : Graph) (source : Place) (output input : Channel) : Except GraphError Unit :=
  match output, input with
  | .flow, .flow =>
    if (g.outgoing source).isEmpty then .ok () else .error (.flowFanOut source)
  | .data (some given), .data (some wanted) =>
    if given = wanted then .ok () else .error (.dataTypeMismatch given wanted)
  | .data _, .data _ => .ok ()
  | output, input => .error (.channelMismatch output input)

/-- Adds a connection. -/
def connect (g : Graph) (source target : Place) : Except GraphError Graph := do
  let output ← g.requireSocket source .output
  let input ← g.requireSocket target .input
  -- of several reasons to refuse, a mismatch of the channels is reported before an occupied input
  g.compatible source output.channel input.channel
  match g.incoming? target with
  | some _ => throw (.socketOccupied target)
  | none => return { g with connections := g.connections ++ [{ source, target }] }

/-- Removes the connection that feeds a socket, if there is one; the connection and the rest. -/
def disconnect? (g : Graph) (target : Place) : Option (Connection × Graph) :=
  (g.incoming? target).map fun c =>
    (c, { g with connections := g.connections.eraseP (·.target = target) })

/-! ### State of a node -/

def setValue (g : Graph) (place : Place) (value : Scalar) : Except GraphError Graph := do
  let node ← g.require place.node
  return g.update { node with values := node.values.insert place.key value }

def setExpanded (g : Graph) (id : String) (expanded : Bool) : Except GraphError Graph := do
  let node ← g.require id
  return g.update { node with expanded }

def setVisible (g : Graph) (id : String) (visible : Bool) : Except GraphError Graph := do
  let node ← g.require id
  -- sockets do not depend on visibility, so that nothing is projected or dropped
  return g.replace { node with visible }

/-- Changes the number of items of a repeated argument or an array. -/
def setCount (g : Graph) (place : Place) (count : Nat) : Except GraphError Graph := do
  let node ← g.require place.node
  if (node.locate? place.key).any Occurrence.isResizable then
    return g.update (node.resize place.key count)
  else throw (.invalidKey place .repeatableOrArray)

/-- Selects an option of a choice by its identifier, or none of an optional choice. -/
def selectOption (g : Graph) (place : Place) (option : String) : Except GraphError Graph := do
  let node ← g.require place.node
  match (node.locate? place.key).bind Occurrence.options? with
  | none => throw (.invalidKey place .choice)
  | some (options, optional) =>
    if (Grammar.option? options option).isSome || (option == noOption && optional) then
      return g.update (node.select place.key option)
    else throw (.unknownOption place.key option)

end Graph

end CommandGraph
