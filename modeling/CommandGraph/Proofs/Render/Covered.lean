/-
CommandGraph/Proofs/Render/Covered.lean

When no statement is lost.

The text leaves out what is hidden and what is turned off, together with all that is
connected there.  If nothing is hidden and no branch lies inside an optional argument, then
it goes on along all flow connections out of the nodes that it gets to
(`Graph.Regular.exit_of_carriesFlow`).  So it gets to a statement as soon as it gets to
the one before it, and statements that have none before them are roots: in a graph whose
flow connections form no cycle, no statement is lost
(`Graph.Edited.mem_entered_of_isStatement`).
-/
import CommandGraph.Proofs.Render.Alike
import CommandGraph.Proofs.Render.Flow

namespace CommandGraph

/-! ### Branches that are written -/

/-- Whether the branches of a command are written in any case: only statements have some, and none
lies inside an optional argument.  All options have identifiers, so that connections do not change
what is selected. -/
structure Command.RunsBranches (c : Command) : Prop where
  named : c.hasNamedOptions = true
  required : c.requiresBranches = true
  statement : c.hasBranch = true → c.category.isStatement = true

namespace Graph

variable {g : Graph} {c : Connection}

/-! ### Flow between statements -/

/-- A connection into the execution of a statement carries flow. -/
theorem WellFormed.carriesFlow_of_target (h : g.WellFormed) (mem : c ∈ g.connections)
    (target : c.target.key = .flow) : g.CarriesFlow c := by
  obtain ⟨output, input, found, found_input, fits⟩ := h.joins c mem
  refine ⟨output, found, ?_⟩
  obtain ⟨node, found_node, -⟩ := socket?_eq_some found_input
  have carries := h.channel?_eq found_input
  rw [channel?_of_node? found_node, Command.channel?, if_pos target] at carries
  rw [← Option.some.inj carries] at fits
  generalize output.channel = channel at fits ⊢
  cases fits
  rfl

/-- Of the connections out of a flow output, there is only the first one. -/
theorem WellFormed.head?_outgoing (h : g.WellFormed) (mem : c ∈ g.connections)
    (flow : g.CarriesFlow c) : (g.outgoing c.source).head? = some c := by
  obtain ⟨output, found, flow⟩ := flow
  have single := h.outgoing_le_one c.source output found flow
  have leaving : c ∈ g.outgoing c.source := mem_outgoing.2 ⟨mem, rfl⟩
  cases e : g.outgoing c.source with
  | nil =>
    rw [e] at leaving
    cases leaving
  | cons first rest =>
    rw [e, List.length_cons] at single
    have none_left : rest = [] := List.eq_nil_of_length_eq_zero (by omega)
    rw [e, none_left] at leaving
    rw [List.mem_singleton.1 leaving, List.head?_cons]

/-- No two connections leave the same flow output. -/
theorem WellFormed.eq_of_source_eq (h : g.WellFormed) {d : Connection} (mem : c ∈ g.connections)
    (mem' : d ∈ g.connections) (flow : g.CarriesFlow c) (e : d.source = c.source) : d = c := by
  have flow' : g.CarriesFlow d := by
    rw [CarriesFlow, e]
    exact flow
  refine Option.some.inj ?_
  rw [← h.head?_outgoing mem' flow', ← h.head?_outgoing mem flow, e]

namespace Regular

/-- The branches of a visible node that a full walk over its stored values meets are written, also
under the values that are looked up for the text. -/
theorem mem_writtenKeys_of_full (h : g.Regular) {id : String} {node : Node}
    (found : g.node? id = some node) (visible : node.visible = true)
    (required : node.command.requiresBranches = true) (limits : ScriptLimits) {key : Key}
    (branch : key ∈ Occurrence.branchKeys (node.command.walk (.ofValues node.values) true).all) :
    key ∈ g.writtenKeys limits id := by
  obtain rfl := id_of_node? found
  have knows : node.Knows (g.view limits node.id) :=
    h.knows found fun p hp => absurd hp List.not_mem_nil
  -- connections change what is read, but not which branches there are
  have same : Occurrence.branchKeys (node.command.walk (g.view limits node.id) false).all =
      Occurrence.branchKeys (node.command.walk (.ofValues node.values) false).all := by
    rw [Node.walk_eq_reread (h.named node (mem_of_node? found)) knows,
      Occurrence.branchKeys_reread]
  refine mem_writtenKeys_of_branch found visible ?_
  rw [same]
  exact Command.mem_branchKeys_of_full required branch

/-- The text goes on along all flow connections out of a visible node, and only statements have
some. -/
theorem exit_of_carriesFlow (h : g.Regular) (mem : c ∈ g.connections) (flow : g.CarriesFlow c)
    {node : Node} (found : g.node? c.source.node = some node) (visible : node.visible = true)
    (runs : node.command.RunsBranches) (limits : ScriptLimits) :
    node.isStatement = true ∧ c ∈ g.exits limits c.source.node := by
  have first := h.wellFormed.head?_outgoing mem flow
  have exit (written : c.source.key ∈ g.writtenKeys limits c.source.node) :
      c ∈ g.exits limits c.source.node := by
    refine List.mem_flatMap.2 ⟨c.source.key, written, ?_⟩
    rw [show (⟨c.source.node, c.source.key⟩ : Place) = c.source from rfl, first]
    exact List.mem_singleton.2 rfl
  obtain ⟨output, found_output, carries⟩ := flow
  rw [socket?_of_node? found, h.wellFormed.sockets_eq node (mem_of_node? found)] at found_output
  -- flow comes from behind the node or from one of its branches
  rcases Command.flow_or_branch_of_find? found_output carries with ⟨key_eq, statement⟩ | branch
  · refine ⟨statement, exit ?_⟩
    rw [key_eq]
    exact flow_mem_writtenKeys found limits
  · exact ⟨runs.statement (Command.hasBranch_of_mem_branchKeys branch),
      exit (h.mem_writtenKeys_of_full found visible runs.required limits branch)⟩

end Regular

/-- A statement that is no root has another node before it. -/
theorem WellFormed.isRoot_or_led (h : g.WellFormed) {node : Node}
    (statement : node.isStatement = true) :
    g.isRoot node = true ∨ ∃ c ∈ g.connections, g.CarriesFlow c ∧ c.target.node = node.id := by
  cases fed : g.incoming? ⟨node.id, .flow⟩ with
  | none =>
    left
    rw [isRoot, statement, fed]
    rfl
  | some c =>
    have mem := mem_of_incoming? fed
    have target := target_of_incoming? fed
    exact .inr ⟨c, mem, h.carriesFlow_of_target mem (congrArg Place.key target),
      congrArg Place.node target⟩

/-! ### No statement is lost -/

/-- No statement is lost.  If the branches of all commands are written in any case, then in an
edited graph without hidden nodes whose flow connections form no cycle, generation enters all
statements. -/
theorem Edited.mem_entered_of_isStatement
    (h : Edited { command := Command.RunsBranches } g)
    (visible : ∀ node ∈ g.nodes, node.visible = true) (acyclic : g.FlowAcyclic)
    (options : RenderOptions) {node : Node} (mem : node ∈ g.nodes)
    (statement : node.isStatement = true) : node.id ∈ g.entered options := by
  have named : Edited { command := fun c => c.hasNamedOptions = true } g :=
    h.mono (fun _ => Command.RunsBranches.named) fun _ _ _ => trivial
  have regular := named.regular
  have wf := regular.wellFormed
  rw [wf.mem_entered]
  -- by induction along flow: what leads to the statement is a statement that is entered
  generalize e : node.id = id
  induction wf.acc_leads acyclic id generalizing node with
  | intro id _ ih =>
    subst e
    rcases wf.isRoot_or_led statement with root | ⟨c, mem_c, flow, target⟩
    · exact .root (List.mem_filter.2 ⟨mem, root⟩)
    · obtain ⟨source, found⟩ := wf.node?_source mem_c
      have mem_source := mem_of_node? found
      obtain ⟨source_statement, exit⟩ := regular.exit_of_carriesFlow mem_c flow found
        (visible source mem_source) (h.command source mem_source) options.limits
      have leads : g.Leads c.source.node node.id := target ▸ .intro mem_c flow
      rw [← target]
      exact (ih _ leads mem_source source_statement (id_of_node? found)).exit exit

/-! ### A loop of one step -/

/-- A statement in the body of another one. -/
def loopOfOne : Graph :=
  ofEdits [
    .create {} { name := "step" } {} "step",
    .create { next := 2 } { name := "loop", args := [.branch { name := some "body" }] } {} "loop",
    .connect ⟨"node-2", (Key.root.ordinal 0).named "body"⟩ ⟨"node-1", .flow⟩]

/-- The step in the body of the loop is entered. -/
theorem mem_entered_loopOfOne :
    loopOfOne.entered {} = ["node-2", "node-1"] ∧ "node-1" ∈ loopOfOne.entered {} := by
  have edited : Edited { command := Command.RunsBranches } loopOfOne := by
    refine .ofEdits fun e mem g => ?_
    simp only [List.mem_cons, List.not_mem_nil, or_false] at mem
    rcases mem with rfl | rfl | rfl
    · exact ⟨by decide, by decide, by decide⟩
    · exact ⟨by decide, by decide, by decide⟩
    · trivial
  have single : loopOfOne.connections =
      [⟨⟨"node-2", (Key.root.ordinal 0).named "body"⟩, ⟨"node-1", .flow⟩⟩] := by decide
  have visible : ∀ node ∈ loopOfOne.nodes, node.visible = true := by decide +kernel
  obtain ⟨node, mem, statement, e⟩ :
      ∃ node ∈ loopOfOne.nodes, node.isStatement = true ∧ node.id = "node-1" := by
    decide +kernel
  refine ⟨by decide +kernel, e ▸ edited.mem_entered_of_isStatement visible ?_ {} mem statement⟩
  exact flowAcyclic_of_connections_eq single (by decide)

end Graph

end CommandGraph
