/-
CommandGraph/Proofs/Graph/WellFormed.lean

Editing keeps graphs well-formed.

`Graph.WellFormed` says that ids identify nodes, that the sockets of a node are those its
values give rise to, and that every connection joins an output to an input that fits it,
with at most one connection into an input and out of a flow output.

Edits of a node look only at whether a socket is still there, not at what it carries.
That is enough because a key determines what the sockets at it carry, whatever the values
are (`Graph.WellFormed.channel?_eq`).  All edits but a new connection are instances of
`Graph.WellFormed.of_sublist`, which is about graphs with fewer connections.
-/
import CommandGraph.Proofs.Graph.Results
import Mathlib.Data.List.Nodup

namespace CommandGraph

/-- Whether an output of the first channel may feed an input of the second. -/
inductive Channel.Fits : Channel → Channel → Prop
  | flow : Fits .flow .flow
  | data {given wanted : Option Primitive} (h : given = wanted ∨ given = none ∨ wanted = none) :
    Fits (.data given) (.data wanted)

namespace Graph

/-- Whether a connection joins an output to an input that it fits. -/
def Joins (g : Graph) (c : Connection) : Prop :=
  ∃ output input, g.socket? c.source .output = some output ∧
    g.socket? c.target .input = some input ∧ output.channel.Fits input.channel

/-- What editing keeps up. -/
structure WellFormed (g : Graph) : Prop where
  ids_nodup : g.ids.Nodup
  sockets_eq : ∀ node ∈ g.nodes, node.sockets = node.command.sockets node.values node.expanded
  targets_nodup : g.targets.Nodup
  outgoing_le_one : ∀ (source : Place) (output : Socket),
    g.socket? source .output = some output → output.channel = .flow →
      (g.outgoing source).length ≤ 1
  joins : ∀ c ∈ g.connections, g.Joins c

/-! ### Sockets of well-formed graphs -/

namespace WellFormed

variable {g : Graph}

/-- A key determines what the socket found at it carries. -/
theorem channel?_eq (h : g.WellFormed) {place : Place} {direction : Direction} {s : Socket}
    (found : g.socket? place direction = some s) :
    g.channel? place direction = some s.channel := by
  obtain ⟨node, found_node, found_socket⟩ := socket?_eq_some found
  rw [channel?_of_node? found_node]
  rw [h.sockets_eq node (mem_of_node? found_node)] at found_socket
  exact (Command.channel?_of_find? found_socket).2.2

/-- Connections start at nodes that are there. -/
theorem node?_source (h : g.WellFormed) {c : Connection} (mem : c ∈ g.connections) :
    ∃ node, g.node? c.source.node = some node := by
  obtain ⟨output, input, found, -, -⟩ := h.joins c mem
  obtain ⟨node, found, -⟩ := socket?_eq_some found
  exact ⟨node, found⟩

theorem node?_target (h : g.WellFormed) {c : Connection} (mem : c ∈ g.connections) :
    ∃ node, g.node? c.target.node = some node := by
  obtain ⟨output, input, -, found, -⟩ := h.joins c mem
  obtain ⟨node, found, -⟩ := socket?_eq_some found
  exact ⟨node, found⟩

end WellFormed

theorem mem_outgoing {g : Graph} {source : Place} {c : Connection} :
    c ∈ g.outgoing source ↔ c ∈ g.connections ∧ c.source = source := by
  simp [outgoing]

/-- A graph with fewer connections is well-formed, if all of them still have their sockets and what
their keys carry is as before. -/
theorem WellFormed.of_sublist {g edited : Graph} (h : g.WellFormed)
    (ids_nodup : edited.ids.Nodup)
    (sockets_eq : ∀ node ∈ edited.nodes,
      node.sockets = node.command.sockets node.values node.expanded)
    (sub : edited.connections.Sublist g.connections)
    (attached : ∀ c ∈ edited.connections,
      (edited.socket? c.source .output).isSome ∧ (edited.socket? c.target .input).isSome)
    (same : ∀ c ∈ edited.connections,
      edited.channel? c.source .output = g.channel? c.source .output ∧
        edited.channel? c.target .input = g.channel? c.target .input) : edited.WellFormed := by
  have carries {place : Place} {direction : Direction} {s : Socket}
      (found : edited.socket? place direction = some s) :
      edited.channel? place direction = some s.channel := by
    obtain ⟨node, found_node, found_socket⟩ := socket?_eq_some found
    rw [channel?_of_node? found_node]
    rw [sockets_eq node (mem_of_node? found_node)] at found_socket
    exact (Command.channel?_of_find? found_socket).2.2
  -- targets stay distinct in fewer connections; flow outputs and the fit of all ends are left
  refine ⟨ids_nodup, sockets_eq, h.targets_nodup.sublist (sub.map _), ?_, ?_⟩
  · intro source output found flow
    refine Nat.le_of_not_lt fun many => ?_
    -- a connection that leaves the socket shows that its key carried flow before, too
    obtain ⟨c, leaving⟩ := List.exists_mem_of_length_pos (Nat.lt_trans Nat.zero_lt_one many)
    obtain ⟨mem, rfl⟩ := mem_outgoing.1 leaving
    obtain ⟨before, input, found_before, -, -⟩ := h.joins c (sub.subset mem)
    have same_channel : before.channel = .flow := by
      rw [← flow]
      refine Option.some.inj ?_
      rw [← h.channel?_eq found_before, ← carries found, (same c mem).1]
    have bound := h.outgoing_le_one c.source before found_before same_channel
    have le : (edited.outgoing c.source).length ≤ (g.outgoing c.source).length :=
      (sub.filter _).length_le
    omega
  · intro c mem
    obtain ⟨output, found_output⟩ := Option.isSome_iff_exists.1 (attached c mem).1
    obtain ⟨input, found_input⟩ := Option.isSome_iff_exists.1 (attached c mem).2
    obtain ⟨before, after, found_before, found_after, fits⟩ := h.joins c (sub.subset mem)
    have output_eq : before.channel = output.channel := by
      refine Option.some.inj ?_
      rw [← h.channel?_eq found_before, ← carries found_output, (same c mem).1]
    have input_eq : after.channel = input.channel := by
      refine Option.some.inj ?_
      rw [← h.channel?_eq found_after, ← carries found_input, (same c mem).2]
    exact ⟨output, input, found_output, found_input, output_eq ▸ input_eq ▸ fits⟩

/-- A graph with fewer connections is well-formed, if the nodes of these connections are found as
before. -/
theorem WellFormed.of_node?_eq {g edited : Graph} (h : g.WellFormed)
    (ids_nodup : edited.ids.Nodup)
    (sockets_eq : ∀ node ∈ edited.nodes,
      node.sockets = node.command.sockets node.values node.expanded)
    (sub : edited.connections.Sublist g.connections)
    (found : ∀ c ∈ edited.connections, edited.node? c.source.node = g.node? c.source.node ∧
      edited.node? c.target.node = g.node? c.target.node) : edited.WellFormed := by
  refine h.of_sublist ids_nodup sockets_eq sub (fun c mem => ?_) fun c mem => ?_
  · obtain ⟨output, input, found_output, found_input, -⟩ := h.joins c (sub.subset mem)
    rw [socket?_congr (found c mem).1, socket?_congr (found c mem).2, found_output, found_input]
    exact ⟨rfl, rfl⟩
  · exact ⟨channel?_congr (found c mem).1 _, channel?_congr (found c mem).2 _⟩

/-! ### Nodes -/

namespace WellFormed

variable {g : Graph}

theorem empty : WellFormed {} where
  ids_nodup := List.nodup_nil
  sockets_eq _ mem := absurd mem List.not_mem_nil
  targets_nodup := List.nodup_nil
  outgoing_le_one _ _ found := by cases found
  joins _ mem := absurd mem List.not_mem_nil

/-- A node with a new id and sockets of its own values can be added. -/
theorem addition (h : g.WellFormed) (node : Node) (unused : g.node? node.id = none)
    (sockets_eq : node.sockets = node.command.sockets node.values node.expanded) :
    (g.addition node).WellFormed := by
  refine h.of_node?_eq ?_ ?_ (List.Sublist.refl _) fun c mem => ?_
  · rw [ids_addition]
    refine List.nodup_append.2 ⟨h.ids_nodup, List.pairwise_singleton _ _, ?_⟩
    intro id mem other mem'
    rw [List.mem_singleton.1 mem']
    rintro rfl
    exact node?_eq_none_iff.1 unused mem
  · intro other mem
    rcases List.mem_append.1 mem with mem | mem
    · exact h.sockets_eq other mem
    · rw [List.mem_singleton.1 mem]
      exact sockets_eq
  -- the ends of connections are at nodes that were there before, which the new one is not
  · have ne {id : String} (found : ∃ other, g.node? id = some other) :
        (g.addition node).node? id = g.node? id := by
      rw [node?_addition unused, if_neg]
      rintro rfl
      obtain ⟨other, found⟩ := found
      rw [unused] at found
      cases found
    exact ⟨ne (h.node?_source mem), ne (h.node?_target mem)⟩

/-- A node can be removed together with its connections. -/
theorem removal (h : g.WellFormed) (id : String) : (g.removal id).WellFormed := by
  refine h.of_node?_eq (h.ids_nodup.sublist (ids_removal_sublist g id)) ?_ List.filter_sublist
    fun c mem => ?_
  · intro node mem
    exact h.sockets_eq node (List.mem_of_mem_eraseP mem)
  · have apart := (List.mem_filter.1 mem).2
    rw [touches, Bool.not_eq_true', Bool.or_eq_false_iff] at apart
    exact ⟨node?_removal (by simpa using apart.1), node?_removal (by simpa using apart.2)⟩

theorem disconnect (h : g.WellFormed) (target : Place) :
    WellFormed { g with connections := g.connections.eraseP (·.target = target) } :=
  h.of_node?_eq h.ids_nodup h.sockets_eq List.eraseP_sublist fun _ _ => ⟨rfl, rfl⟩

/-! ### State of a node -/

/-- A node whose sockets are those of its values can take the place of another one. -/
theorem sockets_eq_replace (h : g.WellFormed) (node : Node)
    (sockets_eq : node.sockets = node.command.sockets node.values node.expanded) :
    ∀ other ∈ (g.replace node).nodes,
      other.sockets = other.command.sockets other.values other.expanded := by
  intro other mem
  obtain ⟨before, mem_before, rfl⟩ := List.mem_map.1 mem
  split
  · exact sockets_eq
  · exact h.sockets_eq before mem_before

/-- The state of a node can be rewritten, as the connections whose sockets go are dropped. -/
theorem update {policy : Edit.Policy} (h : g.WellFormed) {old node : Node}
    (found : g.node? old.id = some old)
    (rewrite : old.Rewrite policy node) : (g.update node).WellFormed := by
  have found_node : g.node? node.refresh.id = some old := by
    rw [Node.id_refresh, rewrite.id_eq, found]
  refine h.of_sublist ?_ (h.sockets_eq_replace node.refresh rfl) List.filter_sublist
    (fun c mem => ?_) fun c _ => ?_
  · rw [ids_update]
    exact h.ids_nodup
  · obtain ⟨mem, kept⟩ := List.mem_filter.1 mem
    obtain ⟨output, input, found_output, found_input, -⟩ := h.joins c mem
    rw [attached, Bool.and_eq_true, Bool.or_eq_true, Bool.or_eq_true] at kept
    -- a connection stays if its sockets at the updated node do; its other end is not touched
    have lookup (id : String) : (g.update node).node? id =
        if id = node.refresh.id then some node.refresh else g.node? id := by
      show (g.replace node.refresh).node? id = _
      rw [node?_replace]
      split
      · next e => rw [e, found_node, Option.map_some]
      · rfl
    rw [socket?, lookup, socket?, lookup]
    constructor
    · split
      · next e => exact kept.1.resolve_left (by simp [e])
      · rw [← socket?, found_output]
        rfl
    · split
      · next e => exact kept.2.resolve_left (by simp [e])
      · rw [← socket?, found_input]
        rfl
  · exact ⟨channel?_replace node.refresh found_node rewrite.command_eq _ _,
      channel?_replace node.refresh found_node rewrite.command_eq _ _⟩

/-- Showing or hiding a node changes none of its sockets. -/
theorem setVisible (h : g.WellFormed) {node : Node} (visible : Bool)
    (found : g.node? node.id = some node) : (g.replace { node with visible }).WellFormed := by
  have sockets_eq := h.sockets_eq node (mem_of_node? found)
  refine h.of_sublist ?_ (h.sockets_eq_replace { node with visible } sockets_eq)
    (List.Sublist.refl _) (fun c mem => ?_) fun c _ => ?_
  · rw [ids_replace]
    exact h.ids_nodup
  · obtain ⟨output, input, found_output, found_input, -⟩ := h.joins c mem
    rw [socket?_replace { node with visible } found rfl,
      socket?_replace { node with visible } found rfl, found_output, found_input]
    exact ⟨rfl, rfl⟩
  · exact ⟨channel?_replace { node with visible } found rfl _ _,
      channel?_replace { node with visible } found rfl _ _⟩

/-! ### Kept results -/

/-- Sockets do not depend on kept results, so that a refresh keeps a graph well-formed. -/
theorem of_alikeOffResults (h : g.WellFormed) {other : Graph} (alike : g.AlikeOffResults other) :
    other.WellFormed := by
  refine h.of_sublist ?_ ?_ ?_ (fun c mem => ?_) fun c mem => ?_
  · rw [alike.ids_eq]
    exact h.ids_nodup
  · intro after mem
    obtain ⟨node, mem_before, rel⟩ := alike.exists_of_mem mem
    rw [rel.projected_eq, rel.sockets_eq, h.sockets_eq node mem_before]
  · rw [alike.connections_eq]
  · rw [alike.connections_eq] at mem
    obtain ⟨output, input, found_output, found_input, -⟩ := h.joins c mem
    rw [alike.socket?_eq, alike.socket?_eq, found_output, found_input]
    exact ⟨rfl, rfl⟩
  · exact ⟨alike.channel?_eq _ _, alike.channel?_eq _ _⟩

end WellFormed

/-! ### Connections -/

/-- What a connection needs in order to join the others. -/
structure Joinable (g : Graph) (c : Connection) : Prop where
  joins : g.Joins c
  outgoing_eq_nil : ∀ output, g.socket? c.source .output = some output →
    output.channel = .flow → g.outgoing c.source = []
  not_mem_targets : c.target ∉ g.targets

/-- A place is free if it is no target. -/
theorem incoming?_eq_none_iff {g : Graph} {target : Place} :
    g.incoming? target = none ↔ target ∉ g.targets := by
  simp [incoming?, targets]

/-- A place is fed by the connection that ends there. -/
theorem WellFormed.incoming?_eq_some_iff {g : Graph} (h : g.WellFormed) {place : Place}
    {c : Connection} :
    g.incoming? place = some c ↔ c ∈ g.connections ∧ c.target = place := by
  refine ⟨fun fed => ⟨mem_of_incoming? fed, target_of_incoming? fed⟩, ?_⟩
  rintro ⟨mem, rfl⟩
  cases fed : g.incoming? c.target with
  | none => exact absurd (List.mem_map_of_mem mem) (incoming?_eq_none_iff.1 fed)
  | some d =>
    exact congrArg some (List.inj_on_of_nodup_map h.targets_nodup (mem_of_incoming? fed) mem
      (target_of_incoming? fed))

/-- Two channels fit if nothing speaks against the connection, which for flow is another connection
out of the same place. -/
theorem compatible_eq_ok_iff {g : Graph} {source : Place} {output input : Channel} :
    g.compatible source output input = .ok () ↔
      output.Fits input ∧ (output = .flow → g.outgoing source = []) := by
  constructor
  · intro h
    rw [compatible.eq_def] at h
    -- flow to flow, data with types at both ends, data with a type missing, and flow with data
    split at h
    · split at h
      · next empty => exact ⟨.flow, fun _ => List.isEmpty_iff.1 empty⟩
      · cases h
    · split at h
      · next given wanted e => exact ⟨.data (.inl (congrArg some e)), fun flow => by cases flow⟩
      · cases h
    · next given wanted typed =>
      refine ⟨.data ?_, fun flow => by cases flow⟩
      cases given with
      | none => exact .inr (.inl rfl)
      | some given =>
        cases wanted with
        | none => exact .inr (.inr rfl)
        | some wanted => exact (typed given wanted rfl rfl).elim
    · cases h
  · rintro ⟨fits, empty⟩
    cases fits with
    | flow => rw [compatible, empty rfl, List.isEmpty_nil, if_pos rfl]
    | @data given wanted same =>
      cases given with
      | none => rfl
      | some given =>
        cases wanted with
        | none => rfl
        | some wanted =>
          have e : given = wanted := by simpa using same
          rw [compatible, if_pos e]

/-- Connecting succeeds on exactly the connections that can join the others. -/
theorem connect_eq_ok_iff {g : Graph} {source target : Place} :
    g.connect source target = .ok (g.linked ⟨source, target⟩) ↔ g.Joinable ⟨source, target⟩ := by
  constructor
  · intro h
    rw [connect] at h
    obtain ⟨output, found_output, h⟩ := bind_eq_ok.1 h
    obtain ⟨input, found_input, h⟩ := bind_eq_ok.1 h
    obtain ⟨⟨⟩, fits, h⟩ := bind_eq_ok.1 h
    rw [requireSocket_eq_ok_iff] at found_output found_input
    obtain ⟨fits, empty⟩ := compatible_eq_ok_iff.1 fits
    refine ⟨⟨output, input, found_output, found_input, fits⟩, fun other found flow => ?_, ?_⟩
    · obtain rfl := Option.some.inj (found_output.symm.trans found)
      exact empty flow
    · split at h
      · cases h
      · next unused => exact incoming?_eq_none_iff.1 unused
  · rintro ⟨⟨output, input, found_output, found_input, fits⟩, empty, unused⟩
    rw [connect]
    refine bind_eq_ok.2 ⟨output, requireSocket_eq_ok_iff.2 found_output, ?_⟩
    refine bind_eq_ok.2 ⟨input, requireSocket_eq_ok_iff.2 found_input, ?_⟩
    have compatible := compatible_eq_ok_iff.2 ⟨fits, empty output found_output⟩
    refine bind_eq_ok.2 ⟨(), compatible, ?_⟩
    rw [incoming?_eq_none_iff.2 unused]
    rfl

/-- Connecting is refused exactly where the connection cannot join the others. -/
theorem connect_eq_error_iff {g : Graph} {source target : Place} :
    (∃ error, g.connect source target = .error error) ↔ ¬ g.Joinable ⟨source, target⟩ := by
  rw [← connect_eq_ok_iff]
  cases outcome : g.connect source target with
  | error error => simp
  | ok edited => simp [connect_eq_linked outcome]

theorem targets_linked (g : Graph) (c : Connection) :
    (g.linked c).targets = g.targets ++ [c.target] := by
  rw [targets, linked, List.map_append]
  rfl

theorem outgoing_linked (g : Graph) (c : Connection) (source : Place) :
    (g.linked c).outgoing source =
      g.outgoing source ++ if c.source = source then [c] else [] := by
  rw [outgoing, linked, List.filter_append, ← outgoing]
  by_cases e : c.source = source <;> simp [e]

/-- A well-formed graph stays so with one more connection exactly if that one can join the
others. -/
theorem WellFormed.linked_iff {g : Graph} (h : g.WellFormed) {c : Connection} :
    (g.linked c).WellFormed ↔ g.Joinable c := by
  constructor
  · -- the new connection fits, and is the only one out of its flow output and into its target
    intro wf
    have last : c ∈ (g.linked c).connections := List.mem_append_right _ (List.mem_singleton.2 rfl)
    refine ⟨wf.joins c last, fun output found flow => ?_, fun mem => ?_⟩
    · have le := wf.outgoing_le_one c.source output found flow
      rw [outgoing_linked, if_pos rfl, List.length_append, List.length_singleton] at le
      exact List.eq_nil_of_length_eq_zero (by omega)
    · have nodup := wf.targets_nodup
      rw [targets_linked, List.nodup_append] at nodup
      exact nodup.2.2 _ mem _ (List.mem_singleton.2 rfl) rfl
  · rintro ⟨joins, empty, unused⟩
    refine ⟨h.ids_nodup, h.sockets_eq, ?_, fun source output found flow => ?_, fun d mem => ?_⟩
    · rw [targets_linked]
      refine List.nodup_append.2 ⟨h.targets_nodup, List.pairwise_singleton _ _, ?_⟩
      intro target mem other mem'
      rw [List.mem_singleton.1 mem']
      rintro rfl
      exact unused mem
    · rw [outgoing_linked]
      split
      · next e =>
        subst e
        rw [empty output found flow]
        exact Nat.le_refl 1
      · rw [List.append_nil]
        exact h.outgoing_le_one source output found flow
    · rcases List.mem_append.1 mem with mem | mem
      · exact h.joins d mem
      · rw [List.mem_singleton.1 mem]
        exact joins

/-! ### Edited graphs -/

/-- A step keeps a graph well-formed. -/
theorem WellFormed.step {policy : Edit.Policy} {g edited : Graph} (h : g.WellFormed)
    (step : Step policy g edited) : edited.WellFormed := by
  cases step with
  | stay => exact h
  | create made ok unused =>
    obtain ⟨-, -, refreshed⟩ := Factory.create?_eq_some made
    exact h.addition _ unused (congrArg Node.sockets refreshed).symm
  | @copy source id node found unused =>
    exact h.addition { node with id } unused (h.sockets_eq node (mem_of_node? found))
  | remove found => exact h.removal _
  | connect ok => exact h.linked_iff.2 (connect_eq_ok_iff.1 ok)
  | disconnect target => exact h.disconnect target
  | update found rewrite => exact h.update found rewrite
  | setVisible visible found => exact h.setVisible visible found
  | refresh limits => exact h.of_alikeOffResults (alikeOffResults_refresh h.ids_nodup limits)

/-- All graphs that edits lead to are well-formed. -/
theorem Edited.wellFormed {policy : Edit.Policy} {g : Graph} (h : Edited policy g) :
    g.WellFormed :=
  h.invariant WellFormed.empty WellFormed.step

/-- What new nodes have and edits of single nodes keep holds of all nodes of edited graphs. -/
theorem Edited.forall_nodes {policy : Edit.Policy} {P : Node → Prop}
    (created : ∀ {factory following : Factory} {c : Command} {position : Position} {name : String}
      {node : Node}, factory.create? c position name = some (node, following) →
        policy.command c → P node)
    (copied : ∀ {node : Node} (id : String), P node → P { node with id })
    (rewritten : ∀ {node after : Node}, P node → node.Rewrite policy after → P after.refresh)
    (hidden : ∀ {node : Node} (visible : Bool), P node → P { node with visible })
    (refreshed : ∀ {node other : Node}, P node → node.AlikeOffResults other → P other)
    {g : Graph} (h : Edited policy g) : ∀ node ∈ g.nodes, P node := by
  -- that a refresh replaces each node by one that is alike takes distinct ids
  have with_ids : g.WellFormed ∧ ∀ node ∈ g.nodes, P node := by
    refine h.invariant (P := fun g => g.WellFormed ∧ ∀ node ∈ g.nodes, P node)
      ⟨.empty, fun _ mem => absurd mem List.not_mem_nil⟩ ?_
    rintro g edited ⟨wf, ih⟩ step
    refine ⟨wf.step step, ?_⟩
    have added {node : Node} (hn : P node) : ∀ other ∈ (g.addition node).nodes, P other := by
      intro other mem
      rcases List.mem_append.1 mem with mem | mem
      · exact ih other mem
      · exact List.mem_singleton.1 mem ▸ hn
    have replaced {node : Node} (hn : P node) : ∀ other ∈ (g.replace node).nodes, P other := by
      intro other mem
      obtain ⟨before, mem_before, rfl⟩ := List.mem_map.1 mem
      split
      · exact hn
      · exact ih before mem_before
    cases step with
    | stay => exact ih
    | create made ok unused => exact added (created made ok)
    | copy found unused => exact added (copied _ (ih _ (mem_of_node? found)))
    | remove found => exact fun node mem => ih node (List.mem_of_mem_eraseP mem)
    | connect ok => exact ih
    | disconnect target => exact ih
    | update found rewrite => exact replaced (rewritten (ih _ (mem_of_node? found)) rewrite)
    | setVisible visible found => exact replaced (hidden visible (ih _ (mem_of_node? found)))
    | refresh limits =>
      intro other mem
      obtain ⟨node, mem_before, alike⟩ :=
        (alikeOffResults_refresh wf.ids_nodup limits).exists_of_mem mem
      exact refreshed (ih node mem_before) alike
  exact with_ids.2

/-- The nodes of an edited graph have commands that its policy allows. -/
theorem Edited.command {policy : Edit.Policy} {g : Graph} (h : Edited policy g) :
    ∀ node ∈ g.nodes, policy.command node.command := by
  refine h.forall_nodes (P := fun node => policy.command node.command) (fun made ok => ?_)
    (fun _ ok => ok) (fun ok rewrite => ?_) (fun _ ok => ok) fun ok alike => ?_
  · rw [(Factory.create?_eq_some made).1]
    exact ok
  · exact rewrite.command_eq.symm ▸ ok
  · rw [alike.command_eq]
    exact ok

/-- Every edited graph is well-formed, and a connection is refused exactly if the graph would not
be well-formed with it. -/
theorem Edited.wellFormed_and_connect {g : Graph} (h : Edited {} g) :
    g.WellFormed ∧ ∀ source target : Place,
      (∃ error, g.connect source target = .error error) ↔
        ¬ (g.linked ⟨source, target⟩).WellFormed := by
  refine ⟨h.wellFormed, fun source target => ?_⟩
  rw [h.wellFormed.linked_iff]
  exact connect_eq_error_iff

/-! ### Two statements in a row -/

/-- Two statements in a row. -/
def chainOfTwo : Graph :=
  ofEdits [
    .create {} { name := "first" } {} "first",
    .create { next := 2 } { name := "second" } {} "second",
    .connect ⟨"node-1", .flow⟩ ⟨"node-2", .flow⟩]

theorem edited_chainOfTwo : Edited {} chainOfTwo :=
  .ofEdits (by simp [Edit.Allowed])

theorem wellFormed_and_connect_chainOfTwo :
    chainOfTwo.connections = [⟨⟨"node-1", .flow⟩, ⟨"node-2", .flow⟩⟩] ∧
      chainOfTwo.WellFormed ∧ ∀ source target : Place,
        (∃ error, chainOfTwo.connect source target = .error error) ↔
          ¬ (chainOfTwo.linked ⟨source, target⟩).WellFormed :=
  ⟨by decide, edited_chainOfTwo.wellFormed_and_connect⟩

end Graph

end CommandGraph
