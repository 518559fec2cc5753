/-
CommandGraph/Proofs/Graph/InPlace.lean

Edits of a node's state, carried out in place.

The edits of a graph return a new graph, so that one that is refused cannot have changed anything.
A graph that is changed in place gives no such promise: the node is written first, then it is
looked up again and its sockets are projected, then connections are dropped, and a step that fails
leaves behind whatever the steps before it have written.  `StateEdit.inPlace` is an edit as a
sequence of such steps, cut wherever one of them can fail.

Where ids are distinct the two agree (`StateEdit.carryOut_inPlace`): every check comes before the
first write, and the node that is looked up again is the one that has been written.  With an id
that occurs twice they do not, since a write in place reaches the first of the nodes alone.

`StateEdit.Confined` says what an edit amounts to beyond the node that it is for, and
`StateEdit.atomic_and_confined` has both: all of an edit happens or nothing of it, and what happens
is confined to one node and to the connections that the node severs.
-/
import CommandGraph.Proofs.Graph.Sites

namespace CommandGraph

/-- An edit of the state of a node. -/
inductive StateEdit where
  | setValue (key : Key) (value : Scalar)
  | setExpanded (expanded : Bool)
  | setVisible (visible : Bool)
  | setCount (key : Key) (count : Nat)
  | select (key : Key) (option : String)

namespace StateEdit

/-- The outcome of an edit of the node with the given id. -/
def apply (g : Graph) (id : String) : StateEdit → Except GraphError Graph
  | setValue key value => g.setValue ⟨id, key⟩ value
  | setExpanded expanded => g.setExpanded id expanded
  | setVisible visible => g.setVisible id visible
  | setCount key count => g.setCount ⟨id, key⟩ count
  | select key option => g.selectOption ⟨id, key⟩ option

/-- Whether an edit projects the sockets of its node anew. -/
def projects : StateEdit → Bool
  | setVisible _ => false
  | _ => true

end StateEdit

/-! ### Steps in place -/

/-- A graph with one node written over the first one of the same id. -/
def Graph.overwrite (g : Graph) (node : Node) : Graph :=
  { g with nodes := g.nodes.set (g.nodes.findIdx (·.id = node.id)) node }

/-- Steps on a graph that is changed in place: what has been written stays when a later step
fails. -/
abbrev InPlace :=
  ExceptT GraphError (StateM Graph)

namespace InPlace

/-- The node with the given id, as it is by now. -/
def require (id : String) : InPlace Node := do
  (← get).require id

/-- Writes a node over the first one of the same id. -/
def write (node : Node) : InPlace Unit :=
  modify (·.overwrite node)

/-- Looks up a node again, projects its sockets, and drops the connections whose socket is gone. -/
def refresh (id : String) : InPlace Unit := do
  let node := (← require id).refresh
  write node
  modify fun g => { g with connections := g.connections.filter (Graph.attached node) }

end InPlace

open InPlace in
/-- Carries out an edit of the node with the given id. -/
def StateEdit.inPlace (id : String) : StateEdit → InPlace Unit
  | setValue key value => do
    let node ← require id
    write { node with values := node.values.insert key value }
    refresh id
  | setExpanded expanded => do
    write { ← require id with expanded }
    refresh id
  | setVisible visible => do
    write { ← require id with visible }
  | setCount key count => do
    let node ← require id
    if (node.locate? key).any Occurrence.isResizable then
      write (node.resize key count)
      refresh id
    else throw (.invalidKey ⟨id, key⟩ .repeatableOrArray)
  | select key option => do
    let node ← require id
    match (node.locate? key).bind Occurrence.options? with
    | none => throw (.invalidKey ⟨id, key⟩ .choice)
    | some (options, optional) =>
      if (Grammar.option? options option).isSome || (option == noOption && optional) then
        write (node.select key option)
        refresh id
      else throw (.unknownOption key option)

namespace InPlace

variable {g : Graph} {id : String} {node : Node}

/-- The outcome of some steps, and the graph that they leave behind. -/
def runOn {α : Type} (steps : InPlace α) (g : Graph) : Except GraphError α × Graph :=
  steps.run.run g

theorem runOn_bind_ok {α β : Type} {steps : InPlace α} {a : α} {left : Graph}
    (h : steps.runOn g = (.ok a, left)) (next : α → InPlace β) :
    (steps >>= next).runOn g = (next a).runOn left := by
  unfold runOn at *
  rw [ExceptT.run_bind, StateT.run_bind, h]
  rfl

/-- Steps that fail keep the following ones from being taken. -/
theorem runOn_bind_error {α β : Type} {steps : InPlace α} {error : GraphError} {left : Graph}
    (h : steps.runOn g = (.error error, left)) (next : α → InPlace β) :
    (steps >>= next).runOn g = (.error error, left) := by
  unfold runOn at *
  rw [ExceptT.run_bind, StateT.run_bind, h]
  rfl

theorem runOn_require (g : Graph) (id : String) : (require id).runOn g = (g.require id, g) :=
  rfl

theorem runOn_write (g : Graph) (node : Node) : (write node).runOn g = (.ok (), g.overwrite node) :=
  rfl

/-! ### Writing over a node -/

/-- Where ids are distinct, writing over the first node of an id is writing over all of them. -/
theorem set_findIdx_eq_map {nodes : List Node} (unique : (nodes.map (·.id)).Nodup) (node : Node) :
    nodes.set (nodes.findIdx (·.id = node.id)) node =
      nodes.map fun other => if other.id = node.id then node else other := by
  induction nodes with
  | nil => rfl
  | cons first rest ih =>
    rw [List.map_cons, List.nodup_cons] at unique
    rw [List.findIdx_cons, List.map_cons]
    by_cases same : first.id = node.id
    · -- no other node has this id, so that the rest of the list stays as it is
      have others : ∀ other ∈ rest, (if other.id = node.id then node else other) = id other := by
        intro other mem
        refine if_neg fun e => unique.1 ?_
        rw [same, ← e]
        exact List.mem_map_of_mem mem
      rw [List.map_congr_left others, List.map_id, if_pos same, decide_eq_true same]
      rfl
    · rw [if_neg same, decide_eq_false same, ← ih unique.2]
      rfl

/-- Ids being distinct, there is no other node to write over. -/
theorem overwrite_eq_replace (unique : g.ids.Nodup) (node : Node) :
    g.overwrite node = g.replace node :=
  congrArg (fun nodes => { g with nodes }) (set_findIdx_eq_map unique node)

/-- Of two nodes that are written in the place of the same one, the second stays. -/
theorem replace_replace {first second : Node} (same : first.id = second.id) :
    (g.replace first).replace second = g.replace second := by
  have nodes_eq : (g.replace first).nodes.map
      (fun other => if other.id = second.id then second else other) =
        g.nodes.map fun other => if other.id = second.id then second else other := by
    rw [Graph.replace, List.map_map]
    refine List.map_congr_left fun other _ => ?_
    by_cases e : other.id = first.id
    · simp [e, same]
    · simp [e, ← same]
  exact congrArg (fun nodes => { g with nodes }) nodes_eq

/-! ### Carrying out edits -/

/-- Whether some steps carry out an edit with the given outcome: they leave behind what it leads
to, and the graph as it was if it is refused. -/
def CarryOut (g : Graph) (outcome : Except GraphError Graph) (steps : InPlace Unit) : Prop :=
  steps.runOn g = (outcome.map fun _ => (), g.after outcome)

namespace CarryOut

/-- A refusal leaves the graph as it was. -/
theorem throw (g : Graph) (error : GraphError) : CarryOut g (throw error) (throw error) :=
  rfl

/-- An edit that begins by looking up a node. -/
theorem require_bind {outcome : Node → Except GraphError Graph} {steps : Node → InPlace Unit}
    (h : ∀ node, g.node? id = some node → CarryOut g (outcome node) (steps node)) :
    CarryOut g (g.require id >>= outcome) (require id >>= steps) := by
  cases looked_up : g.require id with
  | error e =>
    have refused : (require id).runOn g = (.error e, g) := by
      rw [runOn_require, looked_up]
    exact runOn_bind_error refused steps
  | ok node =>
    have required : (require id).runOn g = (.ok node, g) := by
      rw [runOn_require, looked_up]
    rw [CarryOut, runOn_bind_ok required]
    exact h node (Graph.require_eq_ok_iff.1 looked_up)

theorem replace (unique : g.ids.Nodup) (node : Node) :
    CarryOut g (pure (g.replace node)) (write node) := by
  rw [CarryOut, runOn_write, overwrite_eq_replace unique]
  rfl

/-- What is refreshed is the node that has been written. -/
theorem update (unique : g.ids.Nodup) {before after : Node} (found : g.node? id = some before)
    (same : after.id = before.id) :
    CarryOut g (pure (g.update after)) (do write after; refresh id) := by
  have written : (write after).runOn g = (.ok (), g.replace after) := by
    rw [runOn_write, overwrite_eq_replace unique]
  have at_id : id = after.id := (Graph.id_of_node? found).symm.trans same.symm
  -- ids being distinct, the lookup cannot come upon another node
  have looked_up : (require id).runOn (g.replace after) = (.ok after, g.replace after) := by
    have found_again : (g.replace after).node? id = some after := by
      rw [Graph.node?_replace, if_pos at_id, found, Option.map_some]
    rw [runOn_require, Graph.require_eq_ok_iff.2 found_again]
  have unique_still : (g.replace after).ids.Nodup := by
    rwa [Graph.ids_replace]
  have projected : (write after.refresh).runOn (g.replace after) =
      (.ok (), g.replace after.refresh) := by
    rw [runOn_write, overwrite_eq_replace unique_still, replace_replace after.id_refresh.symm]
  rw [CarryOut, runOn_bind_ok written, refresh, runOn_bind_ok looked_up, runOn_bind_ok projected]
  rfl

end CarryOut

end InPlace

namespace StateEdit

open InPlace

variable {g : Graph} {id : String}

/-- Where ids are distinct, the steps of each edit carry it out. -/
theorem carryOut_inPlace (unique : g.ids.Nodup) (id : String) (e : StateEdit) :
    CarryOut g (e.apply g id) (e.inPlace id) := by
  -- a refusal is thrown before anything has been written, so that no case has to undo a write
  cases e with
  | setValue key value => exact .require_bind fun node found => .update unique found rfl
  | setExpanded expanded => exact .require_bind fun node found => .update unique found rfl
  | setVisible visible => exact .require_bind fun node found => .replace unique _
  | setCount key count =>
    refine .require_bind fun node found => ?_
    split
    · exact .update unique found rfl
    · exact .throw g _
  | select key option =>
    refine .require_bind fun node found => ?_
    dsimp only
    rcases (node.locate? key).bind Occurrence.options? with - | ⟨options, optional⟩
    · exact .throw g _
    · dsimp only
      split
      · exact .update unique found rfl
      · exact .throw g _

end StateEdit

/-! ### What an edit changes -/

/-- Whether a connection leaves a node from a key that is none of its output sockets, or enters it
at a key that is none of its input sockets. -/
def Node.Severs (node : Node) (c : Connection) : Prop :=
  (c.source.node = node.id ∧ ∀ s ∈ node.sockets.outputs, s.key ≠ c.source.key) ∨
    (c.target.node = node.id ∧ ∀ s ∈ node.sockets.inputs, s.key ≠ c.target.key)

instance (node : Node) : DecidablePred node.Severs :=
  fun _ => inferInstanceAs (Decidable (_ ∨ _))

/-- Connections stay attached to a node if the node does not sever them. -/
theorem Graph.attached_eq (node : Node) :
    attached node = fun c => decide (¬ node.Severs c) := by
  funext c
  have output : (node.sockets.output? c.source.key).isSome = true ↔
      ∃ s ∈ node.sockets.outputs, s.key = c.source.key := by
    simp [SocketSet.output?]
  have input : (node.sockets.input? c.target.key).isSome = true ↔
      ∃ s ∈ node.sockets.inputs, s.key = c.target.key := by
    simp [SocketSet.input?]
  rw [Bool.eq_iff_iff, attached, Bool.and_eq_true, Bool.or_eq_true, Bool.or_eq_true, output, input]
  simp only [decide_eq_true_eq, Node.Severs]
  grind

/-- What an edit of one node amounts to. -/
structure StateEdit.Confined (e : StateEdit) (before after : Node) (g edited : Graph) : Prop where
  id_eq : after.id = before.id
  name_eq : after.name = before.name
  command_eq : after.command = before.command
  position_eq : after.position = before.position
  sockets_eq : after.sockets =
    if e.projects then before.command.sockets after.values after.expanded else before.sockets
  nodes_eq : edited.nodes = g.nodes.map fun other => if other.id = before.id then after else other
  connections_eq : edited.connections =
    if e.projects then g.connections.filter fun c => ¬ after.Severs c else g.connections

namespace StateEdit

variable {g edited : Graph} {id : String}

/-- What all edits but the one of visibility come to. -/
theorem confined_update {e : StateEdit} {node after : Node} (projects : e.projects = true)
    (rewrite : node.Rewrite {} after) (name_eq : after.name = node.name)
    (position_eq : after.position = node.position) :
    e.Confined node after.refresh g (g.update after) where
  id_eq := rewrite.id_eq
  name_eq := name_eq
  command_eq := rewrite.command_eq
  position_eq := position_eq
  sockets_eq := by
    rw [projects, if_pos rfl, ← rewrite.command_eq]
    rfl
  nodes_eq := by
    rw [← rewrite.id_eq]
    rfl
  connections_eq := by
    rw [projects, if_pos rfl, ← Graph.attached_eq]
    rfl

/-- An edit that succeeds is confined to its node. -/
theorem exists_confined {e : StateEdit} (ok : e.apply g id = .ok edited) :
    ∃ before after, g.node? id = some before ∧ edited.node? id = some after ∧
      e.Confined before after g edited := by
  cases e with
  | setValue key value =>
    -- the policy without conditions asks for nothing about the value
    obtain ⟨node, found, rfl⟩ := Graph.setValue_eq_ok_iff.1 ok
    exact ⟨node, _, found, Graph.node?_update found rfl,
      confined_update rfl (.value value trivial) rfl rfl⟩
  | setExpanded expanded =>
    obtain ⟨node, required, ok⟩ := bind_eq_ok.1 ok
    obtain rfl := Except.ok.inj ok
    have found := Graph.require_eq_ok_iff.1 required
    exact ⟨node, _, found, Graph.node?_update found rfl,
      confined_update rfl (.expanded expanded) rfl rfl⟩
  | setVisible visible =>
    obtain ⟨node, required, ok⟩ := bind_eq_ok.1 ok
    obtain rfl := Except.ok.inj ok
    have found := Graph.require_eq_ok_iff.1 required
    have at_id : id = node.id := (Graph.id_of_node? found).symm
    -- the sockets stay as they are, and so no connection is dropped
    refine ⟨node, { node with visible }, found, ?_, rfl, rfl, rfl, rfl, rfl, rfl, rfl⟩
    rw [Graph.node?_replace, if_pos at_id, found, Option.map_some]
  | setCount key count =>
    obtain ⟨node, found, -, rfl⟩ := Graph.setCount_eq_ok_iff.1 ok
    exact ⟨node, _, found, Graph.node?_update found rfl,
      confined_update rfl (.resize key count) rfl rfl⟩
  | select key option =>
    obtain ⟨node, found, -, rfl⟩ := Graph.selectOption_eq_ok_iff.1 ok
    exact ⟨node, _, found, Graph.node?_update found rfl,
      confined_update rfl (.select key option) rfl rfl⟩

/-- Ids being distinct, an edit in place that is refused has changed nothing, and one that succeeds
has changed one node, and dropped those connections that the node severs by now. -/
theorem atomic_and_confined (unique : g.ids.Nodup) (id : String) (e : StateEdit) :
    (∀ error, e.apply g id = .error error → (e.inPlace id).runOn g = (.error error, g)) ∧
      ∀ edited, e.apply g id = .ok edited →
        (e.inPlace id).runOn g = (.ok (), edited) ∧
          ∃ before after, g.node? id = some before ∧ edited.node? id = some after ∧
            e.Confined before after g edited := by
  have run : (e.inPlace id).runOn g = _ := carryOut_inPlace unique id e
  constructor
  · intro error refused
    -- the graph after a refusal is the one before it
    rw [run, refused]
    rfl
  · intro edited ok
    refine ⟨?_, exists_confined ok⟩
    rw [run, ok]
    rfl

/-! ### Two statements of one text -/

/-- A text that a statement hands on, and where it goes. -/
def textKey : Key :=
  (Key.root.ordinal 0).named "text"

/-- Two statements of the same text. -/
def sharedText : Graph :=
  let shows : Command := {
    name := "show"
    args := [.primitive { name := some "text" } .string none] }
  .ofEdits [
    .create {} shows {} "first",
    .create { next := 2 } shows {} "second",
    .connect ⟨"node-1", textKey⟩ ⟨"node-2", textKey⟩]

/-- Collapsing a node drops the connection of its argument; selecting an option of what is no choice
is refused. -/
theorem atomic_and_confined_sharedText :
    sharedText.connections = [⟨⟨"node-1", textKey⟩, ⟨"node-2", textKey⟩⟩] ∧
      (∃ edited, ((setExpanded false).inPlace "node-1").runOn sharedText = (.ok (), edited) ∧
        edited.connections = []) ∧
      ((select textKey "text").inPlace "node-1").runOn sharedText =
        (.error (.invalidKey ⟨"node-1", textKey⟩ .choice), sharedText) := by
  have unique : sharedText.ids.Nodup := by decide +kernel
  have collapse : ∃ edited, (setExpanded false).apply sharedText "node-1" = .ok edited ∧
      edited.connections = [] := ⟨_, rfl, by decide +kernel⟩
  obtain ⟨edited, ok, dropped⟩ := collapse
  refine ⟨by decide +kernel, ⟨edited, ?_, dropped⟩, ?_⟩
  · exact ((atomic_and_confined unique "node-1" (setExpanded false)).2 edited ok).1
  · exact (atomic_and_confined unique "node-1" (select textKey "text")).1 _ rfl

end StateEdit

end CommandGraph
