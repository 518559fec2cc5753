/-
CommandGraph/Proofs/Graph/Lookup.lean

Looking up nodes and sockets in edited graphs.

Ids identify nodes, so `node?` finds a node as soon as it is one of the nodes, and each
way to change the nodes of a graph has a lemma that says what `node?` finds afterwards.
`socket?` and `channel?` look up what lies at a place.
-/
import CommandGraph.Proofs.Graph.Edited
import CommandGraph.Proofs.Socket.Channels

namespace CommandGraph

namespace Graph

/-! ### Nodes -/

/-- The nodes of graphs whose ids are distinct are found by their ids. -/
theorem node?_of_mem {g : Graph} (h : g.ids.Nodup) {node : Node} (mem : node ∈ g.nodes) :
    g.node? node.id = some node := by
  rw [ids] at h
  rw [node?]
  generalize g.nodes = nodes at h mem
  induction nodes with
  | nil => simp at mem
  | cons first rest ih =>
    rw [List.map_cons, List.nodup_cons] at h
    rw [List.find?_cons]
    rcases List.mem_cons.1 mem with rfl | mem
    · simp
    · have ne : first.id ≠ node.id := by
        intro e
        exact h.1 (e ▸ List.mem_map_of_mem mem)
      rw [show decide (first.id = node.id) = false by simpa using ne]
      exact ih h.2 mem

theorem mem_ids_of_node? {g : Graph} {id : String} {node : Node} (found : g.node? id = some node) :
    id ∈ g.ids :=
  List.mem_map.2 ⟨node, mem_of_node? found, id_of_node? found⟩

theorem node?_eq_none_iff {g : Graph} {id : String} : g.node? id = none ↔ id ∉ g.ids := by
  simp [node?, ids]

/-- A new node is found under its id, and the others as before. -/
theorem node?_addition {g : Graph} {node : Node} (unused : g.node? node.id = none) (id : String) :
    (g.addition node).node? id = if id = node.id then some node else g.node? id := by
  rw [node?, addition, List.find?_append]
  show (g.node? id).or _ = _
  by_cases e : id = node.id
  · subst e
    simp [unused]
  · have ne : node.id ≠ id := Ne.symm e
    simp [e, ne]

/-- A node that is replaced is found under its id, if there has been one. -/
theorem node?_replace (g : Graph) (node : Node) (id : String) :
    (g.replace node).node? id =
      if id = node.id then (g.node? id).map fun _ => node else g.node? id := by
  rw [node?, replace, List.find?_map]
  -- the new node has the id of the one it stands for, so that the same index is found
  have same : (fun other => decide (other.id = id)) ∘
      (fun other => if other.id = node.id then node else other) =
        fun other : Node => decide (other.id = id) := by
    funext other
    show decide ((if other.id = node.id then node else other).id = id) = _
    split
    · next e => rw [e]
    · rfl
  rw [same]
  show (g.node? id).map _ = _
  cases found : g.node? id with
  | none => simp
  | some other =>
    have e := id_of_node? found
    simp only [Option.map_some, e]
    split <;> rfl

/-- Nodes with other ids are found as before when one is removed. -/
theorem node?_removal {g : Graph} {id other : String} (ne : other ≠ id) :
    (g.removal id).node? other = g.node? other := by
  rw [node?, node?, removal]
  generalize g.nodes = nodes
  induction nodes with
  | nil => rfl
  | cons first rest ih =>
    -- the node that is dropped is the first one with the id, which is not looked for
    by_cases e : first.id = id
    · have first_ne : first.id ≠ other := fun he => ne (he.symm.trans e)
      simp [e, Ne.symm ne]
    · rw [List.eraseP_cons_of_neg (by simpa using e), List.find?_cons, List.find?_cons, ih]

/-! ### Ids -/

theorem ids_addition (g : Graph) (node : Node) : (g.addition node).ids = g.ids ++ [node.id] := by
  simp [ids, addition]

theorem ids_replace (g : Graph) (node : Node) : (g.replace node).ids = g.ids := by
  rw [ids, ids, replace, List.map_map]
  refine List.map_congr_left fun other _ => ?_
  show (if other.id = node.id then node else other).id = other.id
  split
  · next e => exact e.symm
  · rfl

theorem ids_update (g : Graph) (node : Node) : (g.update node).ids = g.ids :=
  ids_replace g node.refresh

theorem ids_removal_sublist (g : Graph) (id : String) : (g.removal id).ids.Sublist g.ids :=
  (List.eraseP_sublist).map _

/-! ### Sockets and channels of places -/

/-- The socket at a place. -/
def socket? (g : Graph) (place : Place) (direction : Direction) : Option Socket :=
  (g.node? place.node).bind (·.sockets.find? place.key direction)

/-- What travels through the sockets at a place, going by the command alone. -/
def channel? (g : Graph) (place : Place) (direction : Direction) : Option Channel :=
  (g.node? place.node).bind (·.command.channel? place.key direction)

theorem socket?_eq_some {g : Graph} {place : Place} {direction : Direction} {s : Socket}
    (h : g.socket? place direction = some s) :
    ∃ node, g.node? place.node = some node ∧ node.sockets.find? place.key direction = some s :=
  Option.bind_eq_some_iff.1 h

theorem socket?_of_node? {g : Graph} {place : Place} {node : Node}
    (h : g.node? place.node = some node) (direction : Direction) :
    g.socket? place direction = node.sockets.find? place.key direction := by
  rw [socket?, h, Option.bind_some]

/-- The channels at the places of a node are those of its command. -/
theorem channel?_of_node? {g : Graph} {place : Place} {node : Node}
    (h : g.node? place.node = some node) (direction : Direction) :
    g.channel? place direction = node.command.channel? place.key direction := by
  rw [channel?, h, Option.bind_some]

/-- Sockets of a place depend on the node that is found only. -/
theorem socket?_congr {g edited : Graph} {place : Place}
    (h : edited.node? place.node = g.node? place.node) (direction : Direction) :
    edited.socket? place direction = g.socket? place direction := by
  rw [socket?, socket?, h]

/-- Channels of a place depend on the node that is found only. -/
theorem channel?_congr {g edited : Graph} {place : Place}
    (h : edited.node? place.node = g.node? place.node) (direction : Direction) :
    edited.channel? place direction = g.channel? place direction := by
  rw [channel?, channel?, h]

/-- Replacing a node by one with the same sockets keeps all sockets. -/
theorem socket?_replace {g : Graph} {old : Node} (node : Node)
    (found : g.node? node.id = some old) (sockets_eq : node.sockets = old.sockets) (place : Place)
    (direction : Direction) :
    (g.replace node).socket? place direction = g.socket? place direction := by
  rw [socket?, node?_replace, socket?]
  split
  · next e => rw [e, found, Option.map_some, Option.bind_some, Option.bind_some, sockets_eq]
  · rfl

/-- Replacing a node by one of the same command keeps all channels. -/
theorem channel?_replace {g : Graph} {old : Node} (node : Node)
    (found : g.node? node.id = some old) (command_eq : node.command = old.command) (place : Place)
    (direction : Direction) :
    (g.replace node).channel? place direction = g.channel? place direction := by
  rw [channel?, node?_replace, channel?]
  split
  · next e => rw [e, found, Option.map_some, Option.bind_some, Option.bind_some, command_eq]
  · rfl

/-- A requirement for a socket succeeds with the socket at the place. -/
theorem requireSocket_eq_ok_iff {g : Graph} {place : Place} {direction : Direction} {s : Socket} :
    g.requireSocket place direction = .ok s ↔ g.socket? place direction = some s := by
  rw [requireSocket, require, socket?]
  cases found : g.node? place.node with
  | none => simp [bind, Except.bind]
  | some node =>
    simp only [bind, Except.bind, Option.bind_some]
    cases node.sockets.find? place.key direction with
    | none => simp [throw, throwThe, MonadExceptOf.throw]
    | some socket => simp [pure, Except.pure]

end Graph

end CommandGraph
