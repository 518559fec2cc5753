/-
CommandGraph/Socket.lean

Sockets: the points of a node where connections start and end.

Every value of the argument tree has an input and an output of its type, and every
branch a pair for the flow of execution.  Optional arguments keep their sockets while
they are turned off, so that the tree is walked in full.  A statement has a pair for
its own execution; a node that is collapsed shows no sockets of its arguments.
-/
import CommandGraph.Grammar.Basic
import CommandGraph.Key.Basic
import CommandGraph.Occurrence.Walk

namespace CommandGraph

/-! ### Sockets and sets of them -/

/-- The side of a node on which a socket lies. -/
inductive Direction where
  | input
  | output
  deriving DecidableEq

/-- What travels through a socket.  Data without a type fits every type. -/
inductive Channel where
  | flow
  | data (type : Option Primitive)
  deriving DecidableEq

namespace Channel

/-- The kind of a channel. -/
def name : Channel → String
  | flow => "flow"
  | data _ => "data"

/-- A channel with its type. -/
def display : Channel → String
  | flow => "flow"
  | data (some type) => type.tag
  | data none => "any"

end Channel

/-- A point where connections start or end. -/
structure Socket where
  key : Key
  direction : Direction
  channel : Channel
  label : String
  deriving DecidableEq

def Socket.isFlow (socket : Socket) : Bool :=
  socket.channel = .flow

/-- The sockets of a node. -/
structure SocketSet where
  inputs : List Socket := []
  outputs : List Socket := []
  deriving DecidableEq

namespace SocketSet

/-- Sorts sockets by the side on which they lie. -/
def ofList (sockets : List Socket) : SocketSet where
  inputs := sockets.filter (·.direction = .input)
  outputs := sockets.filter (·.direction = .output)

def input? (set : SocketSet) (key : Key) : Option Socket :=
  set.inputs.find? (·.key = key)

def output? (set : SocketSet) (key : Key) : Option Socket :=
  set.outputs.find? (·.key = key)

/-- The socket at a key on the given side. -/
def find? (set : SocketSet) (key : Key) : Direction → Option Socket
  | .input => set.input? key
  | .output => set.output? key

def size (set : SocketSet) : Nat :=
  set.inputs.length + set.outputs.length

def isEmpty (set : SocketSet) : Bool :=
  set.inputs.isEmpty && set.outputs.isEmpty

end SocketSet

/-! ### The sockets of a command -/

namespace Occurrence

/-- An input and an output at one key. -/
def socketPair (key : Key) (input output : Channel) (inputLabel outputLabel : String) :
    List Socket :=
  [{ key, direction := .input, channel := input, label := inputLabel },
    { key, direction := .output, channel := output, label := outputLabel }]

/-- The sockets of a value.  Code takes any data; what embedded code gives is its result. -/
def scalarSockets (node : Grammar) (key : Key) : Primitive → List Socket
  | .embeddedCode =>
    socketPair key (.data (some .embeddedCode)) (.data none) node.displayLabel "Result"
  | .rawCode => socketPair key (.data none) (.data none) node.displayLabel node.displayLabel
  | subtype =>
    socketPair key (.data (some subtype)) (.data (some subtype)) node.displayLabel
      node.displayLabel

/-- A socket of the item of repeated code with the given number. -/
def numberSocket (number : Nat) (socket : Socket) : Socket :=
  let side := match socket.direction with
    | .input => "In"
    | .output => "Out"
  { socket with label := s!"Code {number} {side}" }

/-- The sockets of the items of repeated code, numbered from `number` on. -/
def numberItems (number : Nat) : List (List Socket) → List Socket
  | [] => []
  | sockets :: items => sockets.map (numberSocket number) ++ numberItems (number + 1) items

mutual

/-- The sockets of an argument. -/
def sockets : Occurrence → List Socket
  | scalar node key subtype _ => scalarSockets node key subtype
  | literal .. => []
  | optional _ _ _ content => socketsOfOption content
  | repeated node _ _ items =>
    -- items of repeated code have no names: their sockets are told apart by number
    if node.subtype? = some .rawCode then numberItems 1 (socketsOfList items)
    else (socketsOfList items).flatten
  | choice _ _ _ content => socketsOfOption content
  | block _ _ children => (socketsOfList children).flatten
  | branch node key => socketPair key .flow .flow node.displayLabel node.displayLabel
  | subcommand _ _ param args => socketsOfOption param ++ (socketsOfList args).flatten
  | group _ _ children => (socketsOfList children).flatten
  | array _ _ items => (socketsOfList items).flatten
  | base _ _ param => socketsOfOption param

def socketsOfOption : Option Occurrence → List Socket
  | none => []
  | some o => o.sockets

/-- The sockets of each of several arguments. -/
def socketsOfList : List Occurrence → List (List Socket)
  | [] => []
  | o :: os => o.sockets :: socketsOfList os

end

end Occurrence

namespace Command

/-- The sockets for the execution of the command itself. -/
def flowSockets (c : Command) : List Socket :=
  if c.category.isStatement then Occurrence.socketPair .flow .flow .flow "In" "Out" else []

/-- The sockets of the command's arguments. -/
def argumentSockets (c : Command) (values : Values) : List Socket :=
  let arguments := c.walk (.ofValues values) true
  Occurrence.socketsOfOption arguments.param ++ (Occurrence.socketsOfList arguments.args).flatten

/-- The sockets of the command. -/
def sockets (c : Command) (values : Values) (expanded : Bool) : SocketSet :=
  .ofList (c.flowSockets ++
    if expanded || !c.hasArguments then c.argumentSockets values else [])

end Command

end CommandGraph
