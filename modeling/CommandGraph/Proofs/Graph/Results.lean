/-
CommandGraph/Proofs/Graph/Results.lean

What forgetting and keeping results leaves alone.

A refresh changes values at result keys only (`Graph.alikeOffResults_refresh`): the graph
has the same connections and, at every index, a node that differs in kept results at most.
-/
import CommandGraph.Proofs.Graph.Lookup
import CommandGraph.Proofs.Occurrence.Reread
import Mathlib.Data.List.Forall2

namespace CommandGraph

/-! ### Nodes -/

/-- Whether two nodes differ in kept results only. -/
structure Node.AlikeOffResults (node other : Node) : Prop where
  state_eq : other = { node with values := other.values }
  values_eq (key : Key) (h : key.marker? ≠ some .result) : other.values[key]? = node.values[key]?

namespace Node.AlikeOffResults

variable {node other : Node}

/-- A node that is left alone, as every node is that evaluates nothing. -/
theorem refl (node : Node) : node.AlikeOffResults node := ⟨rfl, fun _ _ => rfl⟩

/-- A refresh changes a node several times: it forgets, and then keeps one result after the
other. -/
theorem trans {third : Node} (h : node.AlikeOffResults other)
    (k : other.AlikeOffResults third) : node.AlikeOffResults third where
  state_eq := by
    rw [k.state_eq, h.state_eq]
  values_eq key hk := (k.values_eq key hk).trans (h.values_eq key hk)

/-- The fields besides the values are those of `state_eq`; connections and sockets look at these. -/
theorem id_eq (h : node.AlikeOffResults other) : other.id = node.id := by
  rw [h.state_eq]

theorem command_eq (h : node.AlikeOffResults other) : other.command = node.command := by
  rw [h.state_eq]

theorem expanded_eq (h : node.AlikeOffResults other) : other.expanded = node.expanded := by
  rw [h.state_eq]

theorem visible_eq (h : node.AlikeOffResults other) : other.visible = node.visible := by
  rw [h.state_eq]

theorem sockets_eq (h : node.AlikeOffResults other) : other.sockets = node.sockets := by
  rw [h.state_eq]

end Node.AlikeOffResults

/-! ### What a refresh does to a node -/

/-- Forgetting drops entries at result keys. -/
theorem Node.alikeOffResults_forget (node : Node) : node.AlikeOffResults node.forget := by
  rw [Node.forget]
  split
  · refine ⟨rfl, fun key hk => ?_⟩
    show (node.values.keep _)[key]? = _
    rw [Values.getElem?_keep, if_pos (by simpa using hk)]
  · exact .refl node

/-- A result is kept at a key with a marker of its own, where no argument has its value. -/
theorem Key.marker?_result (key : Key) : key.result.marker? = some .result :=
  Key.marker?_marked key .result

/-- Nodes that differ in kept results have the same sockets coming to them. -/
theorem Node.AlikeOffResults.projected_eq {node other : Node} (h : node.AlikeOffResults other) :
    other.command.sockets other.values other.expanded =
      node.command.sockets node.values node.expanded := by
  have walks : node.command.walk (.ofValues other.values) true =
      node.command.walk (.ofValues node.values) true :=
    Command.walk_congr fun key hk => congrArg Except.ok (h.values_eq key hk).symm
  rw [h.command_eq, h.expanded_eq, Command.sockets, Command.sockets, Command.argumentSockets,
    Command.argumentSockets, walks]

/-- Keeping a result writes at a result key. -/
theorem Node.alikeOffResults_keepResult (node : Node) (key : Key) (value : Datum) :
    node.AlikeOffResults (node.keepResult key value) := by
  refine ⟨rfl, fun other hk => ?_⟩
  show (node.values.insert key.result _)[other]? = _
  rw [Values.getElem?_insert_eq, if_neg]
  rintro rfl
  exact hk (Key.marker?_result key)

/-! ### Graphs -/

/-- Whether two graphs differ in kept results only. -/
structure Graph.AlikeOffResults (g other : Graph) : Prop where
  nodes : List.Forall₂ Node.AlikeOffResults g.nodes other.nodes
  connections_eq : other.connections = g.connections

namespace Graph.AlikeOffResults

variable {g other : Graph}

theorem refl (g : Graph) : g.AlikeOffResults g :=
  ⟨List.forall₂_same.2 fun node _ => .refl node, rfl⟩

/-- The changes of two edits, node by node. -/
theorem trans {third : Graph} (h : g.AlikeOffResults other) (k : other.AlikeOffResults third) :
    g.AlikeOffResults third := by
  refine ⟨?_, k.connections_eq.trans h.connections_eq⟩
  have nodes := h.nodes
  have more := k.nodes
  generalize g.nodes = before, other.nodes = after, third.nodes = last at nodes more ⊢
  -- on the list of nodes, along both chains of changes at once
  induction nodes generalizing last with
  | nil => exact more
  | cons first _ ih =>
    cases more with
    | cons next rest => exact .cons (first.trans next) (ih _ rest)

/-- Nodes keep their ids, and their order. -/
theorem ids_eq (h : g.AlikeOffResults other) : other.ids = g.ids := by
  have nodes := h.nodes
  rw [Graph.ids, Graph.ids]
  generalize g.nodes = before, other.nodes = after at nodes ⊢
  induction nodes with
  | nil => rfl
  | cons first _ ih => rw [List.map_cons, List.map_cons, first.id_eq, ih]

/-- The nodes found in graphs that differ in kept results differ in kept results. -/
theorem rel_node? (h : g.AlikeOffResults other) (id : String) :
    Option.Rel Node.AlikeOffResults (g.node? id) (other.node? id) := by
  have nodes := h.nodes
  rw [Graph.node?, Graph.node?]
  generalize g.nodes = before, other.nodes = after at nodes ⊢
  induction nodes with
  | nil => exact .none
  | cons first _ ih =>
    rw [List.find?_cons, List.find?_cons, first.id_eq]
    split
    · exact .some first
    · exact ih

/-- Every node comes from one of the graph before. -/
theorem exists_of_mem (h : g.AlikeOffResults other) {after : Node} (mem : after ∈ other.nodes) :
    ∃ node ∈ g.nodes, node.AlikeOffResults after := by
  have nodes := h.nodes
  generalize g.nodes = before, other.nodes = last at nodes mem ⊢
  induction nodes with
  | nil => simp at mem
  | cons first _ ih =>
    rcases List.mem_cons.1 mem with rfl | mem
    · exact ⟨_, List.mem_cons_self, first⟩
    · obtain ⟨node, mem, rel⟩ := ih mem
      exact ⟨node, List.mem_cons_of_mem _ mem, rel⟩

/-- A node that is found is found again, with other results. -/
theorem node?_eq_some (h : g.AlikeOffResults other) {id : String} {node : Node}
    (found : g.node? id = some node) :
    ∃ after, other.node? id = some after ∧ node.AlikeOffResults after := by
  have rel := h.rel_node? id
  rw [found] at rel
  generalize other.node? id = result at rel
  cases rel with
  | some alike => exact ⟨_, rfl, alike⟩

/-- A node that is not there does not appear with a refresh. -/
theorem node?_eq_none (h : g.AlikeOffResults other) {id : String} (found : g.node? id = none) :
    other.node? id = none := by
  rw [node?_eq_none_iff, h.ids_eq, ← node?_eq_none_iff, found]

/-- Connections see the same sockets. -/
theorem socket?_eq (h : g.AlikeOffResults other) (place : Place) (direction : Direction) :
    other.socket? place direction = g.socket? place direction := by
  rw [socket?, socket?]
  cases found : g.node? place.node with
  | none => rw [h.node?_eq_none found]
  | some node =>
    obtain ⟨after, found_after, alike⟩ := h.node?_eq_some found
    rw [found_after, Option.bind_some, Option.bind_some, alike.sockets_eq]

/-- Channels go by the command of a node, which stays as it is. -/
theorem channel?_eq (h : g.AlikeOffResults other) (place : Place) (direction : Direction) :
    other.channel? place direction = g.channel? place direction := by
  rw [channel?, channel?]
  cases found : g.node? place.node with
  | none => rw [h.node?_eq_none found]
  | some node =>
    obtain ⟨after, found_after, alike⟩ := h.node?_eq_some found
    rw [found_after, Option.bind_some, Option.bind_some, alike.command_eq]

end Graph.AlikeOffResults

namespace Graph

/-! ### What a refresh does to a graph -/

/-- The first part of a refresh, which forgets all results, leaves everything else alone. -/
theorem alikeOffResults_forget (g : Graph) : g.AlikeOffResults g.forgetResults :=
  ⟨List.forall₂_map_right_iff.2 (List.forall₂_same.2 fun node _ => node.alikeOffResults_forget),
    rfl⟩

/-- One node in place of another that differs in kept results. -/
theorem alikeOffResults_replace {g : Graph} (ids : g.ids.Nodup) {node after : Node}
    (mem : node ∈ g.nodes) (alike : node.AlikeOffResults after) :
    g.AlikeOffResults (g.replace after) := by
  refine ⟨List.forall₂_map_right_iff.2 (List.forall₂_same.2 fun other h => ?_), rfl⟩
  show other.AlikeOffResults (if other.id = after.id then after else other)
  split
  · next e =>
    -- ids identify nodes, so that it is this node that is replaced
    have same : other = node := by
      refine Option.some.inj ?_
      rw [← node?_of_mem ids h, e, alike.id_eq, node?_of_mem ids mem]
    exact same ▸ alike
  · exact .refl other

/-- One step of the second part: the node of the place gets its result, and everything else that can
come out of running its code leaves the graph alone. -/
theorem alikeOffResults_keepOutcome {g : Graph} (ids : g.ids.Nodup)
    (outcome : Place × Except EvaluationError (Option Datum)) :
    g.AlikeOffResults (g.keepOutcome outcome) := by
  rw [keepOutcome.eq_def]
  split
  · next place value =>
    rw [keepResult]
    split
    · next node found =>
      exact alikeOffResults_replace ids (mem_of_node? found)
        (node.alikeOffResults_keepResult _ value)
    · exact .refl g
  · exact .refl g

/-- The second part of a refresh keeps results one by one, and nothing but results. -/
theorem alikeOffResults_foldl {g : Graph} (ids : g.ids.Nodup)
    (outcomes : List (Place × Except EvaluationError (Option Datum))) :
    g.AlikeOffResults (outcomes.foldl keepOutcome g) := by
  induction outcomes generalizing g with
  | nil => exact .refl g
  | cons outcome outcomes ih =>
    have first := alikeOffResults_keepOutcome ids outcome
    exact first.trans (ih (first.ids_eq.symm ▸ ids))

/-- A refresh changes kept results only. -/
theorem alikeOffResults_refresh {g : Graph} (ids : g.ids.Nodup) (limits : ScriptLimits) :
    g.AlikeOffResults (g.refreshEvaluations limits).1 := by
  have forgotten := g.alikeOffResults_forget
  exact forgotten.trans (alikeOffResults_foldl (forgotten.ids_eq.symm ▸ ids) _)

end Graph

end CommandGraph
