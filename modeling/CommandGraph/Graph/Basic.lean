/-
CommandGraph/Graph/Basic.lean

Graphs: commands placed as nodes, and connections between their sockets.

A graph is a list of nodes and a list of connections, both in the order in which they
were added.  The order of connections matters where several compete: of the
connections into one socket, and of the flow connections out of one, the first counts.
-/
import CommandGraph.Key.Text
import CommandGraph.Socket

namespace CommandGraph

/-! ### Nodes -/

/-- A point on the canvas.  It is kept, never interpreted. -/
structure Position where
  x : Float := 0
  y : Float := 0

/-- A command placed in a graph. -/
structure Node where
  id : String
  name : String
  command : Command
  values : Values
  /-- Whether the sockets of arguments are shown. -/
  expanded : Bool
  /-- Hidden nodes write nothing but still pass execution on. -/
  visible : Bool
  position : Position
  /-- The sockets, as projected from the values when these were last changed. -/
  sockets : SocketSet

namespace Node

/-- The node with its sockets projected from its values. -/
def refresh (node : Node) : Node :=
  { node with sockets := node.command.sockets node.values node.expanded }

def isStatement (node : Node) : Bool :=
  node.command.category.isStatement

/-- Whether the node provides the results of its embedded code. -/
def isEvaluate (node : Node) : Bool :=
  node.command.category = .evaluate

@[simp] theorem id_refresh (node : Node) : node.refresh.id = node.id := rfl

end Node

/-! ### Places and connections -/

/-- A key of a node. -/
structure Place where
  node : String
  key : Key
  deriving DecidableEq

/-- A connection from an output socket to an input socket. -/
structure Connection where
  source : Place
  target : Place
  deriving DecidableEq

/-- A connection as text. -/
def Connection.id (c : Connection) : String :=
  c.source.node ++ ":" ++ c.source.key.text ++ "->" ++ c.target.node ++ ":" ++ c.target.key.text

/-! ### Graphs -/

/-- Nodes and the connections between them. -/
structure Graph where
  nodes : List Node := []
  connections : List Connection := []

namespace Graph

/-- The node with the given id. -/
def node? (g : Graph) (id : String) : Option Node :=
  g.nodes.find? (·.id = id)

/-- The connection that feeds an input socket. -/
def incoming? (g : Graph) (target : Place) : Option Connection :=
  g.connections.find? (·.target = target)

/-- The connections that leave an output socket. -/
def outgoing (g : Graph) (source : Place) : List Connection :=
  g.connections.filter (·.source = source)

/-- The ids of the nodes. -/
def ids (g : Graph) : List String :=
  g.nodes.map (·.id)

theorem mem_of_node? {g : Graph} {id : String} {node : Node} (h : g.node? id = some node) :
    node ∈ g.nodes :=
  List.mem_of_find?_eq_some h

theorem id_of_node? {g : Graph} {id : String} {node : Node} (h : g.node? id = some node) :
    node.id = id := by
  simpa using List.find?_some h

theorem target_of_incoming? {g : Graph} {target : Place} {c : Connection}
    (h : g.incoming? target = some c) : c.target = target := by
  simpa using List.find?_some h

theorem mem_of_incoming? {g : Graph} {target : Place} {c : Connection}
    (h : g.incoming? target = some c) : c ∈ g.connections :=
  List.mem_of_find?_eq_some h

end Graph

end CommandGraph
