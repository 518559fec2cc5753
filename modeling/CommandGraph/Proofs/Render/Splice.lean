/-
CommandGraph/Proofs/Render/Splice.lean

Taking hidden statements out of a chain.

A hidden statement bridges two places if a connection leads from the one into its execution
and another from its execution to the other one, no other flow touches it, and no data comes
from it (`Graph.Bridges`).  If it is removed and the two places are connected instead, then the
graph stays well-formed and bypasses the statement (`Graph.Bridges.bypasses`).  So if flow
connections form no cycle, a graph has the same text without its bridges
(`Graph.Edited.splice`).

The new connection comes last, wherever the removed ones were.
-/
import CommandGraph.Proofs.Render.Bypass
import CommandGraph.Proofs.Render.Statements

namespace CommandGraph.Graph

/-! ### Bridges -/

/-- Whether a hidden node leads from one place to another.  No other flow connections touch it, and
no data comes from it. -/
structure Bridges (g : Graph) (id : String) (source target : Place) : Prop where
  hidden : ∃ node, g.node? id = some node ∧ node.visible = false
  before : ⟨source, ⟨id, .flow⟩⟩ ∈ g.connections
  behind : ⟨⟨id, .flow⟩, target⟩ ∈ g.connections
  only {c : Connection} (mem : c ∈ g.connections) (flow : g.CarriesFlow c)
    (touching : touches id c = true) : c = ⟨source, ⟨id, .flow⟩⟩ ∨ c = ⟨⟨id, .flow⟩, target⟩
  no_data {c : Connection} (mem : c ∈ g.connections) (leaving : c.source.node = id) :
    g.CarriesFlow c

/-- The graph with a connection in the place of a node. -/
def spliced (g : Graph) (id : String) (source target : Place) : Graph :=
  (g.removal id).linked ⟨source, target⟩

/-- Where the text gets past a node. -/
def skip (id next : String) (other : String) : String :=
  if other = id then next else other

/-- Past the node the text gets to where it leads. -/
theorem skip_self (id next : String) : skip id next id = next :=
  if_pos rfl

theorem skip_of_ne {id next other : String} (ne : other ≠ id) : skip id next other = other :=
  if_neg ne

theorem skip_eq_self_iff {id next other : String} (ne : next ≠ id) :
    skip id next other = other ↔ other ≠ id := by
  refine ⟨?_, skip_of_ne⟩
  rintro kept rfl
  exact ne ((skip_self other next).symm.trans kept)

theorem touches_eq_false_iff {id : String} {c : Connection} :
    touches id c = false ↔ c.source.node ≠ id ∧ c.target.node ≠ id := by
  simp [touches]

/-- Where ids are distinct, taking out a node leaves all others. -/
theorem eraseP_eq_filter {nodes : List Node} (nodup : (nodes.map (·.id)).Nodup) (id : String) :
    nodes.eraseP (·.id = id) = nodes.filter fun node => node.id ≠ id := by
  induction nodes with
  | nil => rfl
  | cons node nodes ih =>
    rw [List.map_cons, List.nodup_cons] at nodup
    by_cases e : node.id = id
    · have others : ∀ other ∈ nodes, other.id ≠ id := fun other mem same =>
        nodup.1 (List.mem_map.2 ⟨other, mem, same.trans e.symm⟩)
      rw [List.eraseP_cons_of_pos (by simpa using e), List.filter_cons_of_neg (by simpa using e)]
      exact (List.filter_eq_self.2 fun other mem => by simpa using others other mem).symm
    · rw [List.eraseP_cons_of_neg (by simpa using e), List.filter_cons_of_pos (by simpa using e),
        ih nodup.2]

variable {g : Graph} {id : String} {source target : Place}

/-- The connections after splicing are those apart from the node, and the new one. -/
theorem mem_spliced {c : Connection} :
    c ∈ (g.spliced id source target).connections ↔
      (c ∈ g.connections ∧ touches id c = false) ∨ c = ⟨source, target⟩ := by
  simp [spliced, linked, removal]

theorem node?_spliced {other : String} (ne : other ≠ id) :
    (g.spliced id source target).node? other = g.node? other :=
  node?_removal ne

namespace Bridges

/-! ### Connections of a bridge -/

theorem carriesFlow_before (b : g.Bridges id source target) (h : g.WellFormed) :
    g.CarriesFlow ⟨source, ⟨id, .flow⟩⟩ :=
  h.carriesFlow_of_target b.before rfl

theorem carriesFlow_behind (b : g.Bridges id source target) :
    g.CarriesFlow ⟨⟨id, .flow⟩, target⟩ :=
  b.no_data b.behind rfl

theorem leads_before (b : g.Bridges id source target) (h : g.WellFormed) :
    g.Leads source.node id :=
  .intro b.before (b.carriesFlow_before h)

theorem leads_behind (b : g.Bridges id source target) : g.Leads id target.node :=
  .intro b.behind b.carriesFlow_behind

/-- The connection into the node comes from another node. -/
theorem source_ne (b : g.Bridges id source target) (h : g.WellFormed) (acyclic : g.FlowAcyclic) :
    source.node ≠ id := by
  intro e
  have cycle := b.leads_before h
  rw [e] at cycle
  exact acyclic id (.single cycle)

theorem target_ne (b : g.Bridges id source target) (acyclic : g.FlowAcyclic) :
    target.node ≠ id := by
  intro e
  have cycle := b.leads_behind
  rw [e] at cycle
  exact acyclic id (.single cycle)

/-- Of the flow that comes to the node, there is just the connection before it. -/
theorem eq_before (b : g.Bridges id source target) (acyclic : g.FlowAcyclic) {c : Connection}
    (mem : c ∈ g.connections) (flow : g.CarriesFlow c) (entering : c.target.node = id) :
    c = ⟨source, ⟨id, .flow⟩⟩ := by
  have touching : touches id c = true := by simp [touches, entering]
  rcases b.only mem flow touching with e | rfl
  · exact e
  · exact absurd entering (b.target_ne acyclic)

section

variable (b : g.Bridges id source target) (h : g.WellFormed) (acyclic : g.FlowAcyclic)
include b h acyclic

/-- Of what leaves the node, there is just the connection behind it. -/
theorem eq_behind {c : Connection} (mem : c ∈ g.connections) (leaving : c.source.node = id) :
    c = ⟨⟨id, .flow⟩, target⟩ := by
  have touching : touches id c = true := by simp [touches, leaving]
  rcases b.only mem (b.no_data mem leaving) touching with rfl | e
  · exact absurd leaving (b.source_ne h acyclic)
  · exact e

/-! ### The graph without the bridge -/

/-- The places that a node bridges can be connected once it is removed. -/
theorem joinable : (g.removal id).Joinable ⟨source, target⟩ := by
  have source_ne := b.source_ne h acyclic
  have target_ne := b.target_ne acyclic
  have before := b.carriesFlow_before h
  obtain ⟨input, found_input, input_flow⟩ :=
    h.exists_input_of_carriesFlow b.behind b.carriesFlow_behind
  refine ⟨?_, fun _ _ _ => List.eq_nil_iff_forall_not_mem.2 fun c leaving => ?_, fun fed => ?_⟩
  · obtain ⟨output, found_output, output_flow⟩ := before
    refine ⟨output, input, ?_, ?_, ?_⟩
    · rw [socket?_congr (node?_removal source_ne), found_output]
    · rw [socket?_congr (node?_removal target_ne), found_input]
    · rw [output_flow, input_flow]
      exact .flow
  -- what has left the one place and what has fed the other one is gone with the node
  · obtain ⟨mem, from_source⟩ := mem_outgoing.1 leaving
    obtain ⟨mem, apart⟩ := List.mem_filter.1 mem
    obtain rfl := h.eq_of_source_eq b.before mem before from_source
    exact (touches_eq_false_iff.1 (by simpa using apart)).2 rfl
  · obtain ⟨c, mem, e⟩ := List.mem_map.1 fed
    obtain ⟨mem, apart⟩ := List.mem_filter.1 mem
    obtain rfl := List.inj_on_of_nodup_map h.targets_nodup mem b.behind e
    exact (touches_eq_false_iff.1 (by simpa using apart)).1 rfl

theorem wellFormed_spliced : (g.spliced id source target).WellFormed :=
  (h.removal id).linked_iff.2 (b.joinable h acyclic)

/-- A new connection leads to what the node has led to. -/
theorem flowAcyclic_spliced : (g.spliced id source target).FlowAcyclic := by
  refine acyclic.of_leads fun from_ next leads => ?_
  cases leads with
  | @intro c mem flow =>
    rcases mem_spliced.1 mem with ⟨mem, apart⟩ | rfl
    · obtain ⟨output, found, output_flow⟩ := flow
      rw [socket?_congr (node?_spliced (touches_eq_false_iff.1 apart).1)] at found
      exact .single (.intro mem ⟨output, found, output_flow⟩)
    · exact .tail (.single (b.leads_before h)) b.leads_behind

/-- The node is passed by, to where its connection leads. -/
theorem passedBy : g.PassedBy (skip id target.node) id where
  hidden := by
    obtain ⟨node, found, hidden⟩ := b.hidden
    exact ⟨node, found, h.isStatement_of_target b.before (b.carriesFlow_before h) rfl found, hidden⟩
  before := ⟨_, b.before, rfl, skip_of_ne (b.source_ne h acyclic)⟩
  behind := by
    refine ⟨_, b.behind, rfl, ?_, fun d mem leaving => b.eq_behind h acyclic mem leaving⟩
    rw [skip_self, skip_of_ne (b.target_ne acyclic)]

/-- Other nodes are fed as before, but past the node. -/
theorem source_spliced {place : Place} (ne : place.node ≠ id) :
    ((g.spliced id source target).incoming? place).map (·.source) =
      (g.incoming? place).map fun c => g.origin (skip id target.node) c.source := by
  have wf := b.wellFormed_spliced h acyclic
  cases fed : g.incoming? place with
  | none =>
    have free : (g.spliced id source target).incoming? place = none := by
      refine Option.eq_none_iff_forall_ne_some.2 fun c fed' => ?_
      obtain ⟨mem, at_place⟩ := wf.incoming?_eq_some_iff.1 fed'
      rcases mem_spliced.1 mem with ⟨mem, -⟩ | rfl
      · cases fed.symm.trans (h.incoming?_eq_some_iff.2 ⟨mem, at_place⟩)
      · cases fed.symm.trans (h.incoming?_eq_some_iff.2 ⟨b.behind, at_place⟩)
    rw [free]
    rfl
  | some c =>
    obtain ⟨mem, rfl⟩ := h.incoming?_eq_some_iff.1 fed
    -- what the node has fed is fed by what has fed the node
    by_cases leaving : c.source.node = id
    · obtain rfl := b.eq_behind h acyclic mem leaving
      have new : (⟨source, target⟩ : Connection) ∈ (g.spliced id source target).connections :=
        mem_spliced.2 (.inr rfl)
      have fed_before : g.incoming? ⟨id, .flow⟩ = some ⟨source, ⟨id, .flow⟩⟩ :=
        h.incoming?_eq_some_iff.2 ⟨b.before, rfl⟩
      rw [wf.incoming?_eq_some_iff.2 ⟨new, rfl⟩, Option.map_some, Option.map_some, origin,
        if_neg fun kept => (skip_eq_self_iff (b.target_ne acyclic)).1 kept rfl, fed_before]
      rfl
    · have apart := touches_eq_false_iff.2 ⟨leaving, ne⟩
      rw [wf.incoming?_eq_some_iff.2 ⟨mem_spliced.2 (.inl ⟨mem, apart⟩), rfl⟩, Option.map_some,
        Option.map_some, origin_of_kept (skip_of_ne leaving)]

/-- Other nodes lead on as before, but past the node. -/
theorem follow?_spliced {other : String} {key : Key} (ne : other ≠ id)
    (flow : g.channel? ⟨other, key⟩ .output = some .flow) :
    (g.spliced id source target).follow? ⟨other, key⟩ =
      (g.follow? ⟨other, key⟩).map (skip id target.node) := by
  have wf := b.wellFormed_spliced h acyclic
  have flow' : (g.spliced id source target).channel? ⟨other, key⟩ .output = some .flow := by
    rw [channel?_congr (node?_spliced ne), flow]
  refine Option.ext fun next => ?_
  rw [wf.follow?_eq_some_iff flow', Option.map_eq_some_iff]
  constructor
  · rintro ⟨c, mem, leaving, rfl⟩
    rcases mem_spliced.1 mem with ⟨mem, apart⟩ | rfl
    · refine ⟨_, (h.follow?_eq_some_iff flow).2 ⟨c, mem, leaving, rfl⟩, ?_⟩
      exact skip_of_ne (touches_eq_false_iff.1 apart).2
    · exact ⟨id, (h.follow?_eq_some_iff flow).2 ⟨_, b.before, leaving, rfl⟩, skip_self _ _⟩
  · rintro ⟨between, follows, rfl⟩
    obtain ⟨c, mem, leaving, rfl⟩ := (h.follow?_eq_some_iff flow).1 follows
    by_cases entering : c.target.node = id
    · have carries := h.carriesFlow_of_channel? mem (leaving ▸ flow)
      obtain rfl := b.eq_before acyclic mem carries entering
      exact ⟨_, mem_spliced.2 (.inr rfl), leaving, (skip_self _ _).symm⟩
    · have other_source : c.source.node = other := congrArg Place.node leaving
      have apart := touches_eq_false_iff.2 ⟨other_source ▸ ne, entering⟩
      exact ⟨c, mem_spliced.2 (.inl ⟨mem, apart⟩), leaving, (skip_of_ne entering).symm⟩

/-- **A graph bypasses its bridges.** -/
theorem bypasses : g.Bypasses (g.spliced id source target) (skip id target.node) where
  nodes_eq := by
    show g.nodes.eraseP _ = _
    rw [eraseP_eq_filter h.ids_nodup]
    exact List.filter_congr fun node _ =>
      decide_eq_decide.2 (skip_eq_self_iff (b.target_ne acyclic)).symm
  passedBy {other} left_out := by
    have e : other = id := by
      by_contra ne
      exact left_out (skip_of_ne ne)
    exact e ▸ b.passedBy h acyclic
  source_eq place kept :=
    b.source_spliced h acyclic ((skip_eq_self_iff (b.target_ne acyclic)).1 kept)
  follow?_eq kept :=
    b.follow?_spliced h acyclic ((skip_eq_self_iff (b.target_ne acyclic)).1 kept)

end

end Bridges

/-! ### Hiding is splicing -/

/-- **Hiding is splicing.**  If, in an edited graph whose flow connections form no cycle, a hidden
node leads from one place to another, then the node can be removed and the two places connected,
and the graph still has the same text, or is rejected for the same reason. -/
theorem Edited.splice (h : Edited {} g) (acyclic : g.FlowAcyclic)
    (b : g.Bridges id source target) :
    ∃ removed spliced, g.removeNode id = .ok removed ∧
      removed.connect source target = .ok spliced ∧
      ∀ options, spliced.generate options = g.generate options ∧
        spliced.tryGenerate options = g.tryGenerate options := by
  have wf := h.wellFormed
  obtain ⟨node, found, -⟩ := b.hidden
  have removes : g.removeNode id = .ok (g.removal id) := by
    rw [removeNode, require, found]
    rfl
  have connects := connect_eq_ok_iff.2 (b.joinable wf acyclic)
  refine ⟨_, g.spliced id source target, removes, connects, ?_⟩
  exact (b.bypasses wf acyclic).generate_eq wf (b.wellFormed_spliced wf acyclic) acyclic
    (b.flowAcyclic_spliced wf acyclic)

/-- A hidden statement that gets a number, first in the body of a loop. -/
def hiddenStep : Graph :=
  ofEdits [
    .create {} { name := "n", category := .data, args := [.primitive {} .numeric none] } {} "n",
    .create { next := 2 } { name := "loop", args := [.branch { name := some "body" }] } {} "loop",
    .create { next := 3 } { name := "step", args := [.primitive {} .numeric none] } {} "step",
    .create { next := 4 } { name := "end" } {} "end",
    .connect ⟨"node-2", (Key.root.ordinal 0).named "body"⟩ ⟨"node-3", .flow⟩,
    .connect ⟨"node-3", .flow⟩ ⟨"node-4", .flow⟩,
    .connect ⟨"node-1", (Key.root.ordinal 0).named "numeric"⟩
      ⟨"node-3", (Key.root.ordinal 0).named "numeric"⟩,
    .setVisible "node-3" false]

theorem edited_hiddenStep : Edited {} hiddenStep :=
  .ofEdits (by simp [Edit.Allowed])

/-- The connections are those of the flow through the hidden step, and one that brings a number. -/
theorem connections_hiddenStep :
    hiddenStep.connections = [
      ⟨⟨"node-2", (Key.root.ordinal 0).named "body"⟩, ⟨"node-3", .flow⟩⟩,
      ⟨⟨"node-3", .flow⟩, ⟨"node-4", .flow⟩⟩,
      ⟨⟨"node-1", (Key.root.ordinal 0).named "numeric"⟩,
        ⟨"node-3", (Key.root.ordinal 0).named "numeric"⟩⟩] := by
  decide +kernel

/-- The hidden step leads from the body of the loop to the end. -/
theorem bridges_hiddenStep :
    hiddenStep.Bridges "node-3" ⟨"node-2", (Key.root.ordinal 0).named "body"⟩
      ⟨"node-4", .flow⟩ where
  hidden := by
    obtain ⟨node, found⟩ := Option.isSome_iff_exists.1
      (show (hiddenStep.node? "node-3").isSome by decide +kernel)
    have visible : (hiddenStep.node? "node-3").map (·.visible) = some false := by decide +kernel
    rw [found] at visible
    exact ⟨node, found, Option.some.inj visible⟩
  before := by
    rw [connections_hiddenStep]
    exact List.mem_cons_self
  behind := by
    rw [connections_hiddenStep]
    exact List.mem_cons_of_mem _ List.mem_cons_self
  only mem flow _ := by
    rw [connections_hiddenStep] at mem
    simp only [List.mem_cons, List.not_mem_nil, or_false] at mem
    rcases mem with rfl | rfl | rfl
    · exact .inl rfl
    · exact .inr rfl
    · -- the number is fed by data, not by flow
      obtain ⟨output, found, carries⟩ := flow
      have channel := edited_hiddenStep.wellFormed.channel?_eq found
      rw [carries] at channel
      exact absurd channel (by decide +kernel)
  no_data {c} mem leaving := by
    refine edited_hiddenStep.wellFormed.carriesFlow_of_channel? mem ?_
    rw [connections_hiddenStep] at mem
    simp only [List.mem_cons, List.not_mem_nil, or_false] at mem
    rcases mem with rfl | rfl | rfl
    · exact absurd leaving (by decide)
    · decide +kernel
    · exact absurd leaving (by decide)

theorem splice_hiddenStep :
    hiddenStep.generate {} = "loop \x7b\n    end\n\x7d" ∧
      ∃ removed spliced, hiddenStep.removeNode "node-3" = .ok removed ∧
        removed.connect ⟨"node-2", (Key.root.ordinal 0).named "body"⟩ ⟨"node-4", .flow⟩ =
          .ok spliced ∧
        ∀ options, spliced.generate options = hiddenStep.generate options ∧
          spliced.tryGenerate options = hiddenStep.tryGenerate options := by
  have acyclic : hiddenStep.FlowAcyclic := by
    refine flowAcyclic_of_rank (["node-1", "node-2", "node-3", "node-4"].idxOf ·) ?_
    rw [connections_hiddenStep]
    decide
  exact ⟨by decide +kernel, edited_hiddenStep.splice acyclic bridges_hiddenStep⟩

end CommandGraph.Graph
