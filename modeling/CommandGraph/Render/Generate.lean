/-
CommandGraph/Render/Generate.lean

The text of a whole graph: chains of statements along flow connections.

A chain starts at a node and follows the first flow connection out of each.  Every
visible node adds one text, into which its branches pull the chains that they lead to.
The path holds the nodes that a place in the text lies behind or inside of; a node that
is met again on it closes a cycle and ends the chain with a marker.

Cycles that no chain leads into are looked for afterwards, depth first from one node, over nodes
that nothing has reached so far.  The stack of the search holds the nodes of the current path,
each with the successors that are left to visit; a successor that lies on the path closes a cycle.

The chains of a graph follow each other with an empty line between them, and behind
them the markers of these cycles.
-/
import CommandGraph.Graph.Resolve
import CommandGraph.Render.Arguments

namespace CommandGraph

/-! ### Chains -/

namespace Graph

/-- The node that a flow output leads to. -/
def follow? (g : Graph) (source : Place) : Option String :=
  (g.outgoing source).head?.map (·.target.node)

/-- What marks a cycle of flow connections. -/
def cycleMarker (id : String) : String :=
  Render.errorMarker ("cyclic flow connection at node '" ++ id ++ "'")

/-- Reports a cycle of flow connections. -/
def rejectCycle (id : String) : RenderM String := do
  reject (.cyclicFlow id)
  return cycleMarker id

/-- Notes that a node has been entered. -/
def enter (id : String) : RenderM Unit :=
  modify fun progress => { progress with reached := id :: progress.reached }

/-- The texts of the nodes from `id` on, behind or inside of the nodes on the path. -/
def chain (g : Graph) (options : RenderOptions) (path : List String) (id : String) :
    RenderM (List String) :=
  if _hp : id ∈ path then return [← rejectCycle id]
  else
    match _hn : g.node? id with
    | none => return []
    | some node => do
      enter id
      -- a branch lies inside of the node, so that leading back to it is a cycle as well
      let branch (key : Key) : RenderM String :=
        match g.follow? ⟨id, key⟩ with
        | some target => return "\n".intercalate (← chain g options (id :: path) target)
        | none => return ""
      let text ←
        if node.visible then node.command.render options (g.view options.limits id) branch
        else pure ""
      -- a hidden node writes nothing, nor do its branches, but the chain goes on behind it
      let rest ← match g.follow? ⟨id, .flow⟩ with
        | some next => chain g options (id :: path) next
        | none => pure []
      return if text.isEmpty then rest else text :: rest
termination_by countOpen g.ids path
decreasing_by
  all_goals
    exact countOpen_cons_lt _hp (List.mem_map.2 ⟨node, mem_of_node? _hn, id_of_node? _hn⟩)

/-- The text of the chain that starts at a node. -/
def chainText (g : Graph) (options : RenderOptions) (id : String) : RenderM String :=
  return "\n".intercalate (← g.chain options [] id)

/-- Whether a chain starts at a node: a statement that no existing node leads to. -/
def isRoot (g : Graph) (node : Node) : Bool :=
  node.isStatement &&
    match g.incoming? ⟨node.id, .flow⟩ with
    | none => true
    | some c => (g.node? c.source.node).isNone

/-- The nodes where chains start. -/
def roots (g : Graph) : List Node :=
  g.nodes.filter g.isRoot

end Graph

/-! ### Cycles that no chain leads into -/

/-- A node of the current path and its successors that are left to visit. -/
structure Frame where
  node : String
  pending : List String

namespace Graph

/-- Whether a key of a node is a flow output. -/
def isFlowOutput (g : Graph) (place : Place) : Bool :=
  place.key = .flow ||
    ((g.node? place.node).bind (·.sockets.output? place.key)).any Socket.isFlow

/-- The nodes that the flow outputs of a node lead to, in the order of connections. -/
def flowTargets (g : Graph) (id : String) : List String :=
  (g.connections.filter fun c =>
    c.source.node = id && g.isFlowOutput c.source && (g.node? c.target.node).isSome).map
    (·.target.node)

/-- How many successors and frames are left on a stack. -/
def stackSize : List Frame → Nat
  | [] => 0
  | frame :: stack => frame.pending.length + 1 + stackSize stack

/-- Continues a search with the given stack: the node that closes a cycle, if one does, and
what has been reached. -/
def searchCycle (g : Graph) (stack : List Frame) (reached : List String) :
    Option String × List String :=
  match stack with
  | [] => (none, reached)
  -- everything behind this node has been searched: back to where it was found
  | ⟨_, []⟩ :: stack => searchCycle g stack reached
  | ⟨node, id :: pending⟩ :: stack =>
    -- the stack is the current path, and is looked at before what has been reached
    if id ∈ node :: stack.map Frame.node then (some id, reached)
    else if _h : id ∉ reached ∧ id ∈ g.ids then
      searchCycle g (⟨id, g.flowTargets id⟩ :: ⟨node, pending⟩ :: stack) (id :: reached)
    else searchCycle g (⟨node, pending⟩ :: stack) reached
termination_by (countOpen g.ids reached, stackSize stack)
decreasing_by
  · exact Prod.Lex.right _ (by simp [stackSize])
  · exact Prod.Lex.left _ _ (countOpen_cons_lt _h.1 _h.2)
  · exact Prod.Lex.right _ (by simp [stackSize])

/-- Looks for a cycle that a node leads to.  What is visited counts as reached. -/
def findCycle (g : Graph) (reached : List String) (start : String) :
    Option String × List String :=
  g.searchCycle [⟨start, g.flowTargets start⟩] (start :: reached)

/-- Looks for a cycle from a node, unless it has been reached; its marker, if there is one. -/
def unreachedCycle (g : Graph) (node : Node) : RenderM (List String) := do
  let progress ← get
  if !node.isStatement || node.id ∈ progress.reached then return []
  else
    let (cycle, reached) := g.findCycle progress.reached node.id
    -- kept even where a cycle was found, so that no node is searched twice
    set { progress with reached }
    match cycle with
    | some id => return [← rejectCycle id]
    | none => return []

/-- The markers of the cycles that no chain leads into. -/
def unreachedCycles (g : Graph) : RenderM (List String) :=
  return (← g.nodes.mapM g.unreachedCycle).flatten

/-! ### The whole graph -/

/-- The text of a graph. -/
def render (g : Graph) (options : RenderOptions) : RenderM String := do
  let chains ← g.roots.mapM fun node => g.chainText options node.id
  let markers ← g.unreachedCycles
  return "\n\n".intercalate (Render.nonEmpty chains ++ markers)

/-- The text of a graph, and the first reason to reject it. -/
def run (g : Graph) (options : RenderOptions) : String × Option GenerateError :=
  let (text, progress) := (g.render options).run {}
  (text, progress.problems.getLast?)

/-- The text of a graph.  Problems are shown as comments in their place. -/
def generate (g : Graph) (options : RenderOptions) : String :=
  (g.run options).1

/-- The text of a graph, unless a flow cycle or a cycle of data connections rejects it. -/
def tryGenerate (g : Graph) (options : RenderOptions) : Except GenerateError String :=
  match g.run options with
  | (_, some error) => .error error
  | (text, none) => .ok text

end Graph

end CommandGraph
