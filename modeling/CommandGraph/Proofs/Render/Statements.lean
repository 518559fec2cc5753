/-
CommandGraph/Proofs/Render/Statements.lean

When nothing but statements is written.

Chains start at statements, and execution inputs are those of statements, too.  But branches
have flow inputs in nodes of all categories.  So the text gets to a node that is no statement
exactly if it goes on along a connection that ends at a branch of this node
(`Graph.Edited.mem_entered_iff_of_not_isStatement`), and to no such node as long as only
statements have branches.
-/
import CommandGraph.Proofs.Render.Flow

namespace CommandGraph.Graph

variable {g : Graph}

/-! ### Where flow ends -/

/-- Roots are statements. -/
theorem isStatement_of_mem_roots {node : Node} (root : node ∈ g.roots) :
    node.isStatement = true := by
  have start := (List.mem_filter.1 root).2
  rw [isRoot, Bool.and_eq_true] at start
  exact start.1

namespace WellFormed

/-- A flow connection ends at an input for flow. -/
theorem exists_input_of_carriesFlow (h : g.WellFormed) {c : Connection} (mem : c ∈ g.connections)
    (flow : g.CarriesFlow c) :
    ∃ input, g.socket? c.target .input = some input ∧ input.channel = .flow := by
  obtain ⟨output, found_output, carries⟩ := flow
  obtain ⟨other, input, found_other, found_input, fits⟩ := h.joins c mem
  obtain rfl := Option.some.inj (found_output.symm.trans found_other)
  refine ⟨input, found_input, ?_⟩
  rw [carries] at fits
  generalize input.channel = channel at fits ⊢
  cases fits
  rfl

/-- A flow connection ends at the execution input of a statement or at a branch. -/
theorem flow_or_branch_of_target (h : g.WellFormed) {c : Connection} (mem : c ∈ g.connections)
    (flow : g.CarriesFlow c) {node : Node} (found : g.node? c.target.node = some node) :
    (c.target.key = .flow ∧ node.isStatement = true) ∨
      c.target.key ∈
        Occurrence.branchKeys (node.command.walk (.ofValues node.values) true).all := by
  obtain ⟨input, found_input, input_flow⟩ := h.exists_input_of_carriesFlow mem flow
  rw [socket?_of_node? found, h.sockets_eq node (mem_of_node? found)] at found_input
  exact Command.flow_or_branch_of_find? found_input input_flow

/-- Nodes with a connection into an execution input are statements. -/
theorem isStatement_of_target (h : g.WellFormed) {c : Connection} (mem : c ∈ g.connections)
    (flow : g.CarriesFlow c) (target : c.target.key = .flow) {node : Node}
    (found : g.node? c.target.node = some node) : node.isStatement = true := by
  rcases h.flow_or_branch_of_target mem flow found with ⟨-, statement⟩ | branch
  · exact statement
  · -- keys of arguments have no markers, unlike the one of the execution input
    obtain ⟨o, walked, isBranch⟩ := List.mem_filterMap.1 branch
    have key := (Occurrence.isLeaf_of_branchKey? isBranch).2
    exact absurd (key.trans target) (Command.ne_flow_of_mem_walk walked)

end WellFormed

/-! ### Nodes that are no statements -/

/-- Which nodes that are no statements are entered.  In an edited graph, generation enters such a
node exactly if a connection that the text follows ends at a branch of the node; so it enters none
whose command has no branches. -/
theorem Edited.mem_entered_iff_of_not_isStatement (h : Edited {} g) (options : RenderOptions)
    {node : Node} (mem : node ∈ g.nodes) (passive : node.isStatement = false) :
    (node.id ∈ g.entered options ↔
        ∃ c, g.Followed options.limits c ∧ c.target.node = node.id ∧
          c.target.key ∈
            Occurrence.branchKeys (node.command.walk (.ofValues node.values) true).all) ∧
      (node.command.hasBranch = false → node.id ∉ g.entered options) := by
  have wf := h.wellFormed
  have found := node?_of_mem wf.ids_nodup mem
  have entered_iff : node.id ∈ g.entered options ↔
      ∃ c, g.Followed options.limits c ∧ c.target.node = node.id ∧
        c.target.key ∈
          Occurrence.branchKeys (node.command.walk (.ofValues node.values) true).all := by
    rw [wf.mem_entered]
    constructor
    · intro reached
      generalize e : node.id = id at reached
      -- a node is reached as a root, which is a statement, or along an exit
      cases reached with
      | @root other root =>
        have same := node?_of_mem wf.ids_nodup (List.mem_filter.1 root).1
        rw [← e, found] at same
        have statement := isStatement_of_mem_roots root
        rw [← Option.some.inj same, passive] at statement
        cases statement
      | @exit _ c reached exit =>
        have mem_c := (of_mem_exits exit).1
        rw [e] at found
        rcases wf.flow_or_branch_of_target mem_c (wf.carriesFlow_of_mem_exits exit) found with
          ⟨-, statement⟩ | branch
        · rw [passive] at statement
          cases statement
        · exact ⟨c, reached.followed exit, rfl, branch⟩
    · rintro ⟨c, followed, target, -⟩
      exact target ▸ followed.1.exit followed.2
  refine ⟨entered_iff, fun branchless entered => ?_⟩
  obtain ⟨c, -, -, branch⟩ := entered_iff.1 entered
  rw [Command.hasBranch_of_mem_branchKeys branch] at branchless
  cases branchless

/-! ### Data that is written -/

/-- A statement that leads into the branch of a node that holds data. -/
def intoData : Graph :=
  ofEdits [
    .create {} { name := "U" } {} "u",
    .create { next := 2 }
      { name := "D", category := .data, args := [.branch { name := some "body" }] } {} "d",
    .connect ⟨"node-1", .flow⟩ ⟨"node-2", (Key.root.ordinal 0).named "body"⟩]

theorem edited_intoData : Edited {} intoData :=
  .ofEdits (by simp [Edit.Allowed])

/-- The data node is entered through its branch. -/
theorem mem_entered_iff_intoData :
    ∃ node ∈ intoData.nodes, node.isStatement = false ∧
      (node.id ∈ intoData.entered {} ↔
        ∃ c, intoData.Followed {} c ∧ c.target.node = node.id ∧
          c.target.key ∈
            Occurrence.branchKeys (node.command.walk (.ofValues node.values) true).all) ∧
      (node.command.hasBranch = false → node.id ∉ intoData.entered {}) := by
  obtain ⟨node, mem, passive⟩ : ∃ node ∈ intoData.nodes, node.isStatement = false := by
    decide +kernel
  exact ⟨node, mem, passive, edited_intoData.mem_entered_iff_of_not_isStatement {} mem passive⟩

/-- A node that holds data is entered, and contributes a line. -/
theorem entered_intoData :
    Edited {} intoData ∧
      (∃ node ∈ intoData.nodes, node.id = "node-2" ∧ node.command.category = .data) ∧
      intoData.entered {} = ["node-1", "node-2"] ∧
      intoData.generate {} = "U\nD \x7b\x7d" :=
  ⟨edited_intoData, by decide +kernel, by decide +kernel, by decide +kernel⟩

end CommandGraph.Graph
