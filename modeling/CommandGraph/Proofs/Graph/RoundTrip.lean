/-
CommandGraph/Proofs/Graph/RoundTrip.lean

Loading what was saved.

A graph whose ids identify its nodes and whose commands are in the library is loaded from
its own snapshot as `Graph.completed`: every node is the same but for defaults where it
had no values, and for the sockets that come with them (`Graph.load_save_eq_completed`).  Nodes with
complete values are loaded as they were.  All nodes of an edited graph are of this kind,
unless a value was set that decides the shape of a node, that is, a count or a selection
(`Graph.Edited.isComplete`).
-/
import CommandGraph.Graph.Snapshot
import CommandGraph.Proofs.Command.Completion
import CommandGraph.Proofs.Graph.WellFormed
import CommandGraph.Render.Generate

namespace CommandGraph

/-- Whether a library has a command under its name. -/
def Library.Knows (library : Library) (c : Command) : Prop :=
  library.get c.name = .ok c

namespace Node

/-! ### Nodes -/

/-- The node with defaults where it has no values. -/
def complete (node : Node) : Node :=
  Node.refresh { node with values := node.command.fillDefaults node.values }

/-- Whether filling in defaults leaves the values of the node unchanged. -/
def IsComplete (node : Node) : Prop :=
  node.command.fillDefaults node.values = node.values

/-- The values of the node that decide its shape: counts and selections. -/
def DecidesShape (node : Node) (key : Key) : Prop :=
  key ∈ node.command.shapeKeys node.values

/-- What is restored from a saved node is the node with its values completed. -/
theorem restore_save (node : Node) : node.save.restore node.command = node.complete := rfl

/-- Filling in defaults twice is filling them in once. -/
theorem isComplete_complete (node : Node) : node.complete.IsComplete :=
  node.command.completes_fillDefaults.idem node.values

/-- A node with complete values, whose sockets are those of its values, is loaded as it was. -/
theorem complete_eq_self {node : Node} (h : node.IsComplete)
    (sockets_eq : node.sockets = node.command.sockets node.values node.expanded) :
    node.complete = node := by
  rw [complete, show node.command.fillDefaults node.values = node.values from h, refresh,
    ← sockets_eq]

/-- Setting a value that decides no shape keeps the values complete. -/
theorem IsComplete.insert {node : Node} (h : node.IsComplete) {key : Key}
    (free : ¬ node.DecidesShape key) (value : Scalar) :
    IsComplete { node with values := node.values.insert key value } := by
  refine node.command.completes_fillDefaults.stable h (fun k _ mem => ?_) fun k decides _ => ?_
  · exact Std.ExtTreeMap.mem_insert.2 (.inr mem)
  · show (node.values.insert key value)[k]? = _
    rw [Values.getElem?_insert_eq, if_neg]
    rintro rfl
    exact free decides

/-- Kept results do not matter for defaults, which are at other keys. -/
theorem IsComplete.of_alikeOffResults {node other : Node} (h : node.IsComplete)
    (alike : node.AlikeOffResults other) : other.IsComplete := by
  rw [IsComplete, alike.command_eq]
  refine node.command.completes_fillDefaults.stable h (fun k unmarked mem => ?_)
    fun k decides _ => alike.values_eq k (Command.marker?_of_mem_shapeKeys decides)
  rw [Std.ExtTreeMap.mem_iff_isSome_getElem?] at mem ⊢
  rwa [alike.values_eq k unmarked]

/-- How a node is loaded from the snapshot that it was saved in. -/
structure LoadedAs (node loaded : Node) : Prop where
  /-- The id, the name, the command, the position and the flags are the same. -/
  state_eq : loaded = { node with values := loaded.values, sockets := loaded.sockets }
  values_eq : loaded.values = node.command.fillDefaults node.values
  /-- No value is lost or changed. -/
  within : node.values.Within loaded.values
  sockets_eq : loaded.sockets = loaded.command.sockets loaded.values loaded.expanded
  /-- Values and sockets are the same, too, if no value has been missing, and only then. -/
  eq_iff : loaded = node ↔ node.IsComplete

/-- Whatever its values are, a node with projected sockets is loaded with its values completed. -/
theorem loadedAs_complete {node : Node}
    (sockets_eq : node.sockets = node.command.sockets node.values node.expanded) :
    node.LoadedAs node.complete where
  state_eq := rfl
  values_eq := rfl
  within := node.command.completes_fillDefaults.within node.values
  sockets_eq := rfl
  eq_iff := by
    constructor
    · intro e
      exact e ▸ node.isComplete_complete
    · intro h
      exact complete_eq_self h sockets_eq

end Node

namespace Graph

/-! ### Graphs -/

/-- The graph with defaults where its nodes have no values. -/
def completed (g : Graph) : Graph :=
  { g with nodes := g.nodes.map Node.complete }

/-- The nodes of a snapshot are restored one after the other, behind those that are there
already. -/
theorem foldlM_restoreNode {library : Library} {nodes : List Node} {g : Graph}
    (known : ∀ node ∈ nodes, library.Knows node.command)
    (nodup : (g.ids ++ nodes.map (·.id)).Nodup) :
    (nodes.map Node.save).foldlM (restoreNode library) g =
      .ok { g with nodes := g.nodes ++ nodes.map Node.complete } := by
  induction nodes generalizing g with
  | nil => simp [pure, Except.pure]
  | cons node nodes ih =>
    -- the nodes that are loaded so far have other ids than those that are still to come
    have unused : g.node? node.id = none := by
      rw [node?_eq_none_iff]
      intro mem
      exact (List.nodup_append.1 nodup).2.2 _ mem _ List.mem_cons_self rfl
    have restored : restoreNode library g node.save = .ok (g.addition node.complete) := by
      rw [restoreNode, show library.get node.save.command = .ok node.command from
        known node List.mem_cons_self]
      show g.addNode (node.save.restore node.command) = _
      rw [Node.restore_save, addNode, show node.complete.id = node.id from rfl, unused]
      rfl
    rw [List.map_cons, List.foldlM_cons, restored]
    show (nodes.map Node.save).foldlM (restoreNode library) (g.addition node.complete) = _
    rw [ih fun n mem => known n (List.mem_cons_of_mem _ mem)]
    · simp [addition]
    · rw [ids_addition, List.append_assoc]
      exact nodup

/-- A graph is loaded from its snapshot with its values completed. -/
theorem load_save_eq_completed {library : Library} {g : Graph} (ids : g.ids.Nodup)
    (known : ∀ node ∈ g.nodes, library.Knows node.command) :
    load library g.save = .ok g.completed := by
  rw [load, save, foldlM_restoreNode known (by simpa [Graph.ids] using ids)]
  rfl

/-- A graph of complete nodes is its own completion. -/
theorem completed_eq_self {g : Graph} (wf : g.WellFormed) (h : ∀ node ∈ g.nodes, node.IsComplete) :
    g.completed = g := by
  have nodes : g.nodes.map Node.complete = g.nodes := by
    conv_rhs => rw [← List.map_id g.nodes]
    exact List.map_congr_left fun node mem =>
      Node.complete_eq_self (h node mem) (wf.sockets_eq node mem)
  rw [completed, nodes]

/-! ### Edits that keep values complete -/

/-- The values of all nodes are complete as long as no count and no selection is set as a value. -/
theorem Edited.isComplete {g : Graph} {known : Command → Prop}
    (h : Edited { command := known, value := fun node key => ¬ node.DecidesShape key } g) :
    ∀ node ∈ g.nodes, node.IsComplete := by
  -- new nodes start with defaults; a resize and a selection fill them in again; a value that
  -- decides no shape calls for none
  refine h.forall_nodes (fun made _ => ?_) (fun _ complete => complete)
    (fun complete rewrite => ?_) (fun _ complete => complete) fun complete alike => ?_
  · obtain ⟨command_eq, values_eq, -⟩ := Factory.create?_eq_some made
    rw [Node.IsComplete, command_eq, values_eq]
    exact (Command.completes_fillDefaults _).idem ∅
  · cases rewrite with
    | value value ok => exact complete.insert ok value
    | expanded expanded => exact complete
    | resize key count => exact (Command.completes_fillDefaults _).idem _
    | select key option => exact (Command.completes_fillDefaults _).idem _
  · exact complete.of_alikeOffResults alike

/-- An edited graph is loaded from its snapshot with the same connections and the same nodes, but
for values that were missing.  None is missing as long as no count and no selection is set as a
value; the graph is then loaded as it was and gives the same text. -/
theorem Edited.load_save {library : Library} {g : Graph}
    (h : Edited { command := library.Knows } g) :
    ∃ loaded, load library g.save = .ok loaded ∧
      loaded.connections = g.connections ∧
      List.Forall₂ Node.LoadedAs g.nodes loaded.nodes ∧
      (Edited { command := library.Knows, value := fun node key => ¬ node.DecidesShape key } g →
        loaded = g ∧ ∀ options, loaded.generate options = g.generate options) := by
  have wf := h.wellFormed
  -- ids stay distinct and commands stay known under edits, which is all that loading asks for
  refine ⟨g.completed, load_save_eq_completed wf.ids_nodup h.command, rfl, ?_, fun restricted => ?_⟩
  · refine List.forall₂_map_right_iff.2 (List.forall₂_same.2 fun node mem => ?_)
    exact Node.loadedAs_complete (wf.sockets_eq node mem)
  · have same := completed_eq_self wf restricted.isComplete
    exact ⟨same, fun options => by rw [same]⟩

/-! ### A count that is set as a value -/

/-- A command with any number of numbers, each of them behind a choice. -/
def pick : Command where
  name := "pick"
  args := [.choice { repeatable := true } [.primitive { name := some "n" } .numeric none]]

/-- The library of `pick` alone. -/
def pickLibrary : Library where
  commands := (∅ : Std.ExtTreeMap String Command).insert "pick" pick
  filed := by
    intro name c h
    rw [Std.ExtTreeMap.getElem?_insert] at h
    split at h
    · next e =>
      rw [← Option.some.inj h, ← Std.LawfulEqCmp.eq_of_compare e]
      rfl
    · simp at h

/-- Where `pick` keeps the number of its items. -/
def pickCount : Key :=
  (Key.root.ordinal 0).named "choice" |>.count

/-- A node of `pick` with one item, as it is made. -/
def onePick : Graph :=
  ofEdits [.create {} pick {} "pick"]

/-- The node with its count set to two as a value. -/
def twoPicks : Graph :=
  ofEdits [.create {} pick {} "pick", .setValue ⟨"node-1", pickCount⟩ (.int 2)]

theorem knows_pick : pickLibrary.Knows pick := rfl

theorem edited_onePick :
    Edited { command := pickLibrary.Knows, value := fun node key => ¬ node.DecidesShape key }
      onePick :=
  .ofEdits (by simp [Edit.Allowed, knows_pick])

/-- Setting a count as a value is an edit, which the looser policy allows. -/
theorem edited_twoPicks : Edited { command := pickLibrary.Knows } twoPicks :=
  .ofEdits (by simp [Edit.Allowed, knows_pick])

/-- With the count untouched the graph is loaded as it was. -/
theorem load_save_onePick :
    onePick.generate {} = "pick 0" ∧
      ∃ loaded, load pickLibrary onePick.save = .ok loaded ∧
        List.Forall₂ Node.LoadedAs onePick.nodes loaded.nodes ∧
        loaded = onePick ∧ ∀ options, loaded.generate options = onePick.generate options := by
  have edited : Edited { command := pickLibrary.Knows } onePick := by
    refine edited_onePick.mono ?_ ?_
    · exact fun _ known => known
    · exact fun _ _ _ => trivial
  obtain ⟨loaded, found, -, nodes, restricted⟩ := edited.load_save
  exact ⟨by decide +kernel, loaded, found, nodes, restricted edited_onePick⟩

/-- Where a count is set as a value, the items that come with it are missing in the graph, but not
in the one that is loaded: values, sockets and text are different. -/
theorem load_twoPicks_ne :
    Edited { command := pickLibrary.Knows } twoPicks ∧
      ∃ loaded, load pickLibrary twoPicks.save = .ok loaded ∧
        loaded.nodes.map Node.values ≠ twoPicks.nodes.map Node.values ∧
        loaded.nodes.map Node.sockets ≠ twoPicks.nodes.map Node.sockets ∧
        twoPicks.generate {} = "pick 0" ∧ loaded.generate {} = "pick 0 0" := by
  refine ⟨edited_twoPicks, twoPicks.completed,
    load_save_eq_completed edited_twoPicks.wellFormed.ids_nodup edited_twoPicks.command,
    fun same => ?_, by decide +kernel, by decide +kernel, by decide +kernel⟩
  -- the two maps of values differ in their sizes already
  have sizes := congrArg (List.map Std.ExtTreeMap.size) same
  revert sizes
  decide +kernel

end Graph

end CommandGraph
