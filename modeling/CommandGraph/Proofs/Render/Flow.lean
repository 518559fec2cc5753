/-
CommandGraph/Proofs/Render/Flow.lean

Where the text goes along flow connections.

The text of a node goes on along its exits: the connections out of its branches and the
one behind it.  `Graph.Reached` holds of the nodes that roots lead to in this way, and
generation enters just these (`Graph.WellFormed.mem_entered`).

Where flow connections form no cycle, what a chain enters behind a node does not depend on
its path (`Graph.WellFormed.entries_eq`).  So the entered nodes are, up to their order,

    roots ++ targets of the exits of the entered nodes

(`Graph.WellFormed.perm_entered`), where the exits of a node count as often as the node.
-/
import CommandGraph.Proofs.Occurrence.Apart
import CommandGraph.Proofs.Render.Logged
import Mathlib.Data.List.Nodup
import Mathlib.Data.List.Perm.Basic

namespace CommandGraph

/-- Where nothing leads back to itself, search along a relation into finitely many elements
ends. -/
theorem acc_of_acyclic {α : Type} [DecidableEq α] {r : α → α → Prop} (elements : List α)
    (mem : ∀ {a b}, r a b → b ∈ elements) (acyclic : ∀ a, ¬ Relation.TransGen r a a) (a : α) :
    Acc r a := by
  have behind (path : List α) : ∀ a, (∀ p ∈ path, Relation.TransGen r a p) → Acc r a := by
    induction path using path_induction elements with
    | step path ih =>
      intro a leads
      -- the path holds what `a` leads to, so that `a` is new to it
      refine Acc.intro a fun b h => ih a (mem h) (fun met => acyclic a (leads a met)) b ?_
      intro p hp
      rcases List.mem_cons.1 hp with rfl | hp
      · exact .single h
      · exact .head h (leads p hp)
  exact behind [] a fun p hp => absurd hp List.not_mem_nil

/-! ### Branches -/

namespace Command

/-- No two branches of a command have the same key. -/
theorem branchKeys_nodup (c : Command) (source : Source) (full : Bool) :
    (Occurrence.branchKeys (c.walk source full).all).Nodup := by
  refine List.pairwise_filterMap.2 ?_
  -- occurrences may share a key, but not if they are leaves, as branches are
  have leaves := List.pairwise_filter.1 (c.leaves_apart source full)
  refine leaves.imp fun {o p} apart key h other h' => ?_
  obtain ⟨leaf, rfl⟩ := Occurrence.isLeaf_of_branchKey? h
  obtain ⟨leaf', rfl⟩ := Occurrence.isLeaf_of_branchKey? h'
  exact (apart leaf leaf').ne

end Command

namespace Graph

/-! ### Flow connections -/

/-- Whether a connection goes from a flow output. -/
def CarriesFlow (g : Graph) (c : Connection) : Prop :=
  ∃ output, g.socket? c.source .output = some output ∧ output.channel = .flow

/-- Whether a flow connection goes from a node to another. -/
inductive Leads (g : Graph) : String → String → Prop
  | intro {c : Connection} (mem : c ∈ g.connections) (flow : g.CarriesFlow c) :
    Leads g c.source.node c.target.node

/-- Whether flow connections form no cycle. -/
def FlowAcyclic (g : Graph) : Prop :=
  ∀ id, ¬ Relation.TransGen g.Leads id id

/-- The nodes right behind a node or right inside of it. -/
def nexts (g : Graph) (limits : ScriptLimits) (id : String) : List String :=
  (g.exits limits id).map (·.target.node)

/-- The nodes that the text gets to. -/
inductive Reached (g : Graph) (limits : ScriptLimits) : String → Prop
  | root {node : Node} (root : node ∈ g.roots) : Reached g limits node.id
  | exit {id : String} {c : Connection} (reached : Reached g limits id)
    (exit : c ∈ g.exits limits id) : Reached g limits c.target.node

/-- Whether the text goes on along a connection. -/
def Followed (g : Graph) (limits : ScriptLimits) (c : Connection) : Prop :=
  g.Reached limits c.source.node ∧ c ∈ g.exits limits c.source.node

section

variable {g : Graph} {limits : ScriptLimits} {id : String} {c : Connection}

/-- An exit is a connection out of the node, at a key that is written. -/
theorem of_mem_exits (h : c ∈ g.exits limits id) :
    c ∈ g.connections ∧ c.source.node = id ∧ c.source.key ∈ g.writtenKeys limits id := by
  obtain ⟨key, written, first⟩ := List.mem_flatMap.1 h
  obtain ⟨mem, e⟩ := mem_outgoing.1 (List.mem_of_mem_head? (Option.mem_toList.1 first))
  rw [e]
  exact ⟨mem, rfl, written⟩

theorem Reached.followed (h : g.Reached limits id) (exit : c ∈ g.exits limits id) :
    g.Followed limits c := by
  obtain ⟨-, rfl, -⟩ := of_mem_exits exit
  exact ⟨h, exit⟩

/-- Text goes on with other nodes at keys that carry flow. -/
theorem channel?_of_mem_writtenKeys {key : Key} (h : key ∈ g.writtenKeys limits id) :
    g.channel? ⟨id, key⟩ .output = some .flow := by
  rw [writtenKeys] at h
  split at h
  · cases h
  · next node found =>
    rw [channel?_of_node? found]
    rcases List.mem_append.1 h with h | h
    · split at h
      · exact Command.channel?_of_mem_branchKeys h .output
      · cases h
    · obtain rfl := List.mem_singleton.1 h
      exact if_pos rfl

/-- No key of a node is written twice. -/
theorem writtenKeys_nodup (g : Graph) (limits : ScriptLimits) (id : String) :
    (g.writtenKeys limits id).Nodup := by
  rw [writtenKeys]
  split
  · exact List.nodup_nil
  · next node found =>
    refine List.nodup_append.2 ⟨?_, List.pairwise_singleton _ _, ?_⟩
    · split
      · exact Command.branchKeys_nodup _ _ _
      · exact List.nodup_nil
    -- keys of arguments have no markers, unlike the one behind the node
    · intro key h other h' e
      rw [e, List.mem_singleton.1 h'] at h
      split at h
      · obtain ⟨o, ho, isBranch⟩ := List.mem_filterMap.1 h
        exact Command.ne_flow_of_mem_walk ho (Occurrence.isLeaf_of_branchKey? isBranch).2
      · cases h

/-- No connection is an exit twice. -/
theorem exits_nodup (g : Graph) (limits : ScriptLimits) (id : String) :
    (g.exits limits id).Nodup := by
  refine List.nodup_flatMap.2 ⟨fun key _ => ?_, ?_⟩
  · cases (g.outgoing ⟨id, key⟩).head? with
    | none => exact List.nodup_nil
    | some c => exact List.nodup_singleton c
  · refine (g.writtenKeys_nodup limits id).imp fun {key other} ne => ?_
    -- a connection tells from which key it goes
    have source_eq {key : Key} {c : Connection}
        (h : c ∈ (g.outgoing ⟨id, key⟩).head?.toList) : c.source = ⟨id, key⟩ :=
      (mem_outgoing.1 (List.mem_of_mem_head? (Option.mem_toList.1 h))).2
    intro c h h'
    have e := (source_eq h).symm.trans (source_eq h')
    exact ne (Place.mk.inj e).2

end

/-! ### Roots -/

/-- Chains start at the statements whose execution inputs are not connected. -/
theorem WellFormed.isRoot_eq {g : Graph} (h : g.WellFormed) (node : Node) :
    g.isRoot node = (node.isStatement && (g.incoming? ⟨node.id, .flow⟩).isNone) := by
  rw [isRoot]
  cases fed : g.incoming? ⟨node.id, .flow⟩ with
  | none => rfl
  | some c =>
    obtain ⟨source, found⟩ := h.node?_source (mem_of_incoming? fed)
    simp only [found]
    rfl

/-! ### Entered nodes -/

/-- A chain enters only what the text gets to. -/
theorem reached_of_mem_entries {g : Graph} {limits : ScriptLimits} {path : List String}
    {id other : String} (reached : g.Reached limits id) (mem : other ∈ g.entries limits path id) :
    g.Reached limits other := by
  induction path using path_induction g.ids generalizing id with
  | step path ih =>
    by_cases met : id ∈ path
    · rw [entries_of_mem met] at mem
      cases mem
    cases found : g.node? id with
    | none =>
      rw [entries_of_node?_eq_none found] at mem
      cases mem
    | some node =>
      rw [entries_of_node? met found] at mem
      rcases List.mem_cons.1 mem with rfl | mem
      · exact reached
      · obtain ⟨c, exit, mem⟩ := List.mem_flatMap.1 mem
        exact ih id (mem_ids_of_node? found) met (reached.exit exit) mem

theorem mem_entries_self {g : Graph} {limits : ScriptLimits} {path : List String} {id : String}
    {node : Node} (new : id ∉ path) (found : g.node? id = some node) :
    id ∈ g.entries limits path id := by
  rw [entries_of_node? new found]
  exact List.mem_cons_self

namespace WellFormed

variable {g : Graph}

/-- A chain enters what is behind the nodes that it enters, unless this is on its path. -/
theorem mem_entries_of_mem_exits (h : g.WellFormed) {limits : ScriptLimits} {path : List String}
    {id other : String} (mem : other ∈ g.entries limits path id) {c : Connection}
    (exit : c ∈ g.exits limits other) :
    c.target.node ∈ g.entries limits path id ∨ c.target.node ∈ path := by
  induction path using path_induction g.ids generalizing id with
  | step path ih =>
    by_cases met : id ∈ path
    · rw [entries_of_mem met] at mem
      cases mem
    cases found : g.node? id with
    | none =>
      rw [entries_of_node?_eq_none found] at mem
      cases mem
    | some node =>
      obtain ⟨target, found_target⟩ := h.node?_target (of_mem_exits exit).1
      have self : id ∈ g.entries limits path id := mem_entries_self met found
      -- what is entered behind the node, or is the node itself, is entered from the node
      have inside {d : Connection} (exit' : d ∈ g.exits limits id)
          (inner : c.target.node ∈ g.entries limits (id :: path) d.target.node ∨
            c.target.node ∈ id :: path) :
          c.target.node ∈ g.entries limits path id ∨ c.target.node ∈ path := by
        rcases inner with inner | inner
        · rw [entries_of_node? met found]
          exact .inl (List.mem_cons_of_mem _ (List.mem_flatMap.2 ⟨d, exit', inner⟩))
        · rcases List.mem_cons.1 inner with e | inner
          · exact .inl (e.symm ▸ self)
          · exact .inr inner
      rw [entries_of_node? met found] at mem
      rcases List.mem_cons.1 mem with rfl | mem
      · refine inside exit ?_
        -- the node behind is on the path already, or it is entered next
        by_cases again : c.target.node ∈ other :: path
        · exact .inr again
        · exact .inl (mem_entries_self again found_target)
      · obtain ⟨d, exit', mem⟩ := List.mem_flatMap.1 mem
        exact inside exit' (ih id (mem_ids_of_node? found) met mem)

/-- Generation enters the nodes that the text gets to. -/
theorem mem_entered (h : g.WellFormed) {options : RenderOptions} {id : String} :
    id ∈ g.entered options ↔ g.Reached options.limits id := by
  rw [entered_eq, List.mem_flatMap]
  constructor
  · rintro ⟨node, root, mem⟩
    exact reached_of_mem_entries (.root root) mem
  · intro reached
    induction reached with
    | @root node root =>
      have found := node?_of_mem h.ids_nodup (List.mem_filter.1 root).1
      exact ⟨node, root, mem_entries_self List.not_mem_nil found⟩
    | exit _ exit ih =>
      obtain ⟨node, root, mem⟩ := ih
      rcases h.mem_entries_of_mem_exits mem exit with mem | mem
      · exact ⟨node, root, mem⟩
      · cases mem

end WellFormed

/-! ### Graphs without flow cycles -/

/-- A graph whose connections lead to what those of an acyclic graph lead to is acyclic. -/
theorem FlowAcyclic.of_leads {g other : Graph} (acyclic : g.FlowAcyclic)
    (leads : ∀ id next, other.Leads id next → Relation.TransGen g.Leads id next) :
    other.FlowAcyclic :=
  fun id cycle => acyclic id (Relation.TransGen.closed leads _ _ cycle)

/-- Connections that all lead upwards are on no cycle. -/
theorem flowAcyclic_of_rank {g : Graph} (rank : String → Nat)
    (rises : ∀ c ∈ g.connections, rank c.source.node < rank c.target.node) : g.FlowAcyclic := by
  have above {id next : String} (leads : Relation.TransGen g.Leads id next) :
      rank id < rank next := by
    induction leads with
    | single leads =>
      cases leads with
      | intro mem => exact rises _ mem
    | tail _ leads ih =>
      cases leads with
      | intro mem => exact Nat.lt_trans ih (rises _ mem)
  exact fun id cycle => Nat.lt_irrefl _ (above cycle)

/-- A single connection between different nodes is on no cycle. -/
theorem flowAcyclic_of_connections_eq {g : Graph} {c : Connection} (single : g.connections = [c])
    (ne : c.source.node ≠ c.target.node) : g.FlowAcyclic := by
  refine flowAcyclic_of_rank (fun id => if id = c.target.node then 1 else 0) fun d mem => ?_
  rw [single, List.mem_singleton] at mem
  rw [mem, if_neg ne, if_pos rfl]
  exact Nat.zero_lt_one

namespace WellFormed

variable {g : Graph}

theorem carriesFlow_of_channel? (h : g.WellFormed) {c : Connection} (mem : c ∈ g.connections)
    (flow : g.channel? c.source .output = some .flow) : g.CarriesFlow c := by
  obtain ⟨output, input, found, -, -⟩ := h.joins c mem
  refine ⟨output, found, ?_⟩
  rw [h.channel?_eq found] at flow
  exact Option.some.inj flow

theorem carriesFlow_of_mem_exits (h : g.WellFormed) {limits : ScriptLimits} {id : String}
    {c : Connection} (exit : c ∈ g.exits limits id) : g.CarriesFlow c := by
  obtain ⟨mem, rfl, written⟩ := of_mem_exits exit
  exact h.carriesFlow_of_channel? mem (channel?_of_mem_writtenKeys written)

theorem leads_of_mem_exits (h : g.WellFormed) {limits : ScriptLimits} {id : String}
    {c : Connection} (exit : c ∈ g.exits limits id) : g.Leads id c.target.node := by
  have flow := h.carriesFlow_of_mem_exits exit
  obtain ⟨mem, rfl, -⟩ := of_mem_exits exit
  exact .intro mem flow

/-- Flow leads from nodes to nodes. -/
theorem mem_ids_of_leads (h : g.WellFormed) {id next : String} (leads : g.Leads id next) :
    id ∈ g.ids ∧ next ∈ g.ids := by
  have mem_ids {id : String} (found : ∃ node, g.node? id = some node) : id ∈ g.ids := by
    obtain ⟨node, found⟩ := found
    exact mem_ids_of_node? found
  cases leads with
  | intro mem => exact ⟨mem_ids (h.node?_source mem), mem_ids (h.node?_target mem)⟩

/-- Without a cycle, flow has a beginning. -/
theorem acc_leads (h : g.WellFormed) (acyclic : g.FlowAcyclic) (id : String) : Acc g.Leads id :=
  acc_of_acyclic g.ids (fun leads => (h.mem_ids_of_leads leads).2) acyclic id

/-- Without a cycle, flow has an end. -/
theorem acc_swap_leads (h : g.WellFormed) (acyclic : g.FlowAcyclic) (id : String) :
    Acc (Function.swap g.Leads) id :=
  acc_of_acyclic g.ids (fun leads => (h.mem_ids_of_leads leads).1)
    (fun id cycle => acyclic id (Relation.transGen_swap.1 cycle)) id

/-- What a chain enters does not depend on a path of nodes that lead to it. -/
theorem entries_eq (h : g.WellFormed) (acyclic : g.FlowAcyclic) {limits : ScriptLimits}
    {path : List String} {id : String} (leads : ∀ p ∈ path, Relation.TransGen g.Leads p id) :
    g.entries limits path id = g.entries limits [] id := by
  induction h.acc_swap_leads acyclic id generalizing path with
  | intro id _ ih =>
    cases found : g.node? id with
    | none => rw [entries_of_node?_eq_none found, entries_of_node?_eq_none found]
    | some node =>
      -- all of the path leads to the node, so that the node is not on it
      have new : id ∉ path := fun met => acyclic id (leads id met)
      rw [entries_of_node? new found, entries_of_node? List.not_mem_nil found]
      refine congrArg (id :: ·) (List.flatMap_congr fun c exit => ?_)
      have next := h.leads_of_mem_exits exit
      have behind {path : List String} (leads : ∀ p ∈ path, Relation.TransGen g.Leads p id) :
          g.entries limits (id :: path) c.target.node = g.entries limits [] c.target.node := by
        refine ih _ next fun p hp => ?_
        rcases List.mem_cons.1 hp with rfl | hp
        · exact .single next
        · exact .tail (leads p hp) next
      rw [behind leads, behind fun p hp => absurd hp List.not_mem_nil]

/-- A chain enters its first node, and then what the nodes right behind it enter. -/
theorem entries_eq_cons (h : g.WellFormed) (acyclic : g.FlowAcyclic) {limits : ScriptLimits}
    {id : String} {node : Node} (found : g.node? id = some node) :
    g.entries limits [] id =
      id :: (g.nexts limits id).flatMap (g.entries limits []) := by
  rw [entries_of_node? List.not_mem_nil found, nexts, List.flatMap_map]
  refine congrArg (id :: ·) (List.flatMap_congr fun c exit => h.entries_eq acyclic ?_)
  intro p hp
  rw [List.mem_singleton.1 hp]
  exact .single (h.leads_of_mem_exits exit)

end WellFormed

/-! ### Entered nodes up to order -/

/-- If what is behind each of some nodes is, up to order, the node and the successors of all of
this, then so is what is behind them together. -/
theorem perm_flatMap {f nexts : String → List String} {ids : List String}
    (h : ∀ id ∈ ids, (f id).Perm (id :: (f id).flatMap nexts)) :
    (ids.flatMap f).Perm (ids ++ (ids.flatMap f).flatMap nexts) := by
  have split := List.map_append_flatMap_perm ids id fun id => (f id).flatMap nexts
  rw [List.map_id, ← List.flatMap_assoc] at split
  exact (List.Perm.flatMap_left ids h).trans split.symm

namespace WellFormed

variable {g : Graph}

/-- What a chain enters is its first node, and the targets of the exits of all that it enters. -/
theorem perm_entries (h : g.WellFormed) (acyclic : g.FlowAcyclic) {limits : ScriptLimits}
    {id : String} {node : Node} (found : g.node? id = some node) :
    (g.entries limits [] id).Perm
      (id :: (g.entries limits [] id).flatMap (g.nexts limits)) := by
  induction h.acc_swap_leads acyclic id generalizing node with
  | intro id _ ih =>
    rw [h.entries_eq_cons acyclic found, List.flatMap_cons]
    refine (perm_flatMap fun next mem => ?_).cons id
    obtain ⟨c, exit, rfl⟩ := List.mem_map.1 mem
    obtain ⟨target, found_target⟩ := h.node?_target (of_mem_exits exit).1
    exact ih _ (h.leads_of_mem_exits exit) found_target

/-- The nodes that generation enters are the roots and the targets of the connections out of the
entered nodes. -/
theorem perm_entered (h : g.WellFormed) (acyclic : g.FlowAcyclic) (options : RenderOptions) :
    (g.entered options).Perm
      (g.roots.map (·.id) ++ (g.entered options).flatMap (g.nexts options.limits)) := by
  have roots : g.entered options =
      (g.roots.map (·.id)).flatMap (g.entries options.limits []) := by
    rw [entered_eq, List.flatMap_map]
  rw [roots]
  refine perm_flatMap fun id mem => ?_
  obtain ⟨node, root, rfl⟩ := List.mem_map.1 mem
  exact h.perm_entries acyclic (node?_of_mem h.ids_nodup (List.mem_filter.1 root).1)

end WellFormed

end Graph

end CommandGraph
