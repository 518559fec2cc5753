/-
CommandGraph/Proofs/Render/Once.lean

When no statement is written twice.

In a graph whose flow connections form no cycle, a node is entered more than once exactly
if it is a root and a connection that the text follows leads there as well, or if two such
connections do (`Graph.Edited.entered_nodup_iff`).

Neither happens as long as connections end at the execution inputs of nodes.  But the
branches of a statement have flow inputs, too: a connection that ends at one of them does
not keep the statement from being a root (`Graph.entered_intoBranch`).
-/
import CommandGraph.Proofs.Render.Flow

namespace CommandGraph

/-- What only one element of a list gives rise to is there as often as this element. -/
theorem count_flatMap_of_forall {α β : Type} [DecidableEq α] [DecidableEq β] {f : α → List β}
    {as : List α} {a : α} {b : β} (only : ∀ other ∈ as, b ∈ f other → other = a) :
    (as.flatMap f).count b = as.count a * (f a).count b := by
  induction as with
  | nil => rw [List.flatMap_nil, List.count_nil, List.count_nil, Nat.zero_mul]
  | cons other as ih =>
    rw [List.flatMap_cons, List.count_append, List.count_cons,
      ih fun other mem => only other (List.mem_cons_of_mem _ mem), Nat.add_mul]
    by_cases e : other = a
    · rw [e, beq_self_eq_true, if_pos rfl, Nat.one_mul, Nat.add_comm]
    · have absent : (f other).count b = 0 :=
        List.count_eq_zero.2 fun h => e (only other List.mem_cons_self h)
      rw [absent, if_neg (by simpa using e), Nat.zero_mul, Nat.zero_add, Nat.add_zero]

namespace Graph

/-! ### Reaching a node in one way -/

/-- Whether the text gets to each node in one way: as a root or along a single connection. -/
structure ReachedOnce (g : Graph) (limits : ScriptLimits) : Prop where
  not_root {c : Connection} (followed : g.Followed limits c) {node : Node} (root : node ∈ g.roots) :
    c.target.node ≠ node.id
  unique {c d : Connection} (followed : g.Followed limits c) (followed' : g.Followed limits d)
    (e : c.target.node = d.target.node) : c = d

namespace WellFormed

variable {g : Graph}

/-- If nothing is entered twice, each node is reached in one way. -/
theorem reachedOnce_of_entered_nodup (h : g.WellFormed) (acyclic : g.FlowAcyclic)
    {options : RenderOptions} (nodup : (g.entered options).Nodup) :
    g.ReachedOnce options.limits := by
  have both := (h.perm_entered acyclic options).nodup_iff.1 nodup
  obtain ⟨-, targets, apart⟩ := List.nodup_append.1 both
  -- successors are told apart as targets of connections, of which there is one for each
  have targets_eq : (g.entered options).flatMap (g.nexts options.limits) =
      ((g.entered options).flatMap (g.exits options.limits)).map (·.target.node) := by
    rw [List.map_flatMap]
    rfl
  rw [targets_eq] at targets apart
  have mem {c : Connection} (followed : g.Followed options.limits c) :
      c ∈ (g.entered options).flatMap (g.exits options.limits) :=
    List.mem_flatMap.2 ⟨_, h.mem_entered.2 followed.1, followed.2⟩
  constructor
  · intro c followed node root e
    exact apart _ (List.mem_map_of_mem root) _ (List.mem_map_of_mem (mem followed)) e.symm
  · intro c d followed followed' e
    exact List.inj_on_of_nodup_map targets (mem followed) (mem followed') e

/-- If each node is reached in one way, nothing is entered twice. -/
theorem entered_nodup (h : g.WellFormed) (acyclic : g.FlowAcyclic) {options : RenderOptions}
    (once : g.ReachedOnce options.limits) : (g.entered options).Nodup := by
  refine List.nodup_iff_count.2 fun id => ?_
  -- by induction along flow: the sources of connections to a node are entered once at most
  induction h.acc_leads acyclic id with
  | intro id _ ih =>
    rw [(h.perm_entered acyclic options).count_eq, List.count_append]
    by_cases led : id ∈ (g.entered options).flatMap (g.nexts options.limits)
    · obtain ⟨source, entered, isNext⟩ := List.mem_flatMap.1 led
      obtain ⟨c, exit, rfl⟩ := List.mem_map.1 isNext
      have followed {other : String} {d : Connection} (entered : other ∈ g.entered options)
          (exit : d ∈ g.exits options.limits other) : g.Followed options.limits d :=
        (h.mem_entered.1 entered).followed exit
      -- a root that is led to would be reached in two ways
      have no_root : (g.roots.map (·.id)).count c.target.node = 0 := by
        refine List.count_eq_zero.2 fun mem => ?_
        obtain ⟨node, root, e⟩ := List.mem_map.1 mem
        exact once.not_root (followed entered exit) root e.symm
      have only : ∀ other ∈ g.entered options,
          c.target.node ∈ g.nexts options.limits other → other = source := by
        intro other entered' isNext'
        obtain ⟨d, exit', e⟩ := List.mem_map.1 isNext'
        rw [← (of_mem_exits exit).2.1, ← (of_mem_exits exit').2.1,
          once.unique (followed entered' exit') (followed entered exit) e]
      have next_once : (g.nexts options.limits source).count c.target.node ≤ 1 := by
        refine List.nodup_iff_count.1 (List.Nodup.map_on ?_ (g.exits_nodup _ source)) _
        intro d exit d' exit' e
        exact once.unique (followed entered exit) (followed entered exit') e
      have source_once := ih source (h.leads_of_mem_exits exit)
      rw [no_root, Nat.zero_add, count_flatMap_of_forall only]
      exact Nat.mul_le_mul source_once next_once
    · have roots_nodup : (g.roots.map (·.id)).Nodup :=
        h.ids_nodup.sublist (List.filter_sublist.map _)
      rw [List.count_eq_zero.2 led, Nat.add_zero]
      exact List.nodup_iff_count.1 roots_nodup id

/-- A node with a connection into its execution is no root. -/
theorem isRoot_eq_false (h : g.WellFormed) {c : Connection} (mem : c ∈ g.connections)
    {node : Node} (target : c.target = ⟨node.id, .flow⟩) : g.isRoot node = false := by
  rw [h.isRoot_eq, h.incoming?_eq_some_iff.2 ⟨mem, target⟩]
  exact Bool.and_false _

/-! ### Connections into execution inputs -/

/-- If the text goes on into execution inputs only, each node is reached in one way. -/
theorem reachedOnce_of_flow (h : g.WellFormed) {limits : ScriptLimits}
    (flow : ∀ c, g.Followed limits c → c.target.key = .flow) : g.ReachedOnce limits := by
  have target_eq {c : Connection} (followed : g.Followed limits c) :
      c ∈ g.connections ∧ c.target = ⟨c.target.node, .flow⟩ := by
    refine ⟨(of_mem_exits followed.2).1, ?_⟩
    rw [← flow c followed]
  constructor
  · intro c followed node root e
    obtain ⟨mem, target⟩ := target_eq followed
    rw [e] at target
    have isRoot := (List.mem_filter.1 root).2
    rw [h.isRoot_eq_false mem target] at isRoot
    cases isRoot
  · intro c d followed followed' e
    obtain ⟨mem, target⟩ := target_eq followed
    obtain ⟨mem', target'⟩ := target_eq followed'
    refine List.inj_on_of_nodup_map h.targets_nodup mem mem' ?_
    rw [target, target', e]

end WellFormed

/-! ### Entering nodes once -/

/-- When no node is entered twice.  In an edited graph whose flow connections form no cycle, this
is so exactly if the text gets to each node in one way, and in particular if all connections that
it follows end at the execution inputs of their targets. -/
theorem Edited.entered_nodup_iff {g : Graph} (h : Edited {} g) (acyclic : g.FlowAcyclic)
    (options : RenderOptions) :
    ((g.entered options).Nodup ↔ g.ReachedOnce options.limits) ∧
      ((∀ c, g.Followed options.limits c → c.target.key = .flow) →
        (g.entered options).Nodup) := by
  have wf := h.wellFormed
  constructor
  · constructor
    · exact wf.reachedOnce_of_entered_nodup acyclic
    · exact wf.entered_nodup acyclic
  · intro flow
    exact wf.entered_nodup acyclic (wf.reachedOnce_of_flow flow)

/-- Two statements in a row are entered once each. -/
theorem entered_nodup_chainOfTwo :
    chainOfTwo.entered {} = ["node-1", "node-2"] ∧ (chainOfTwo.entered {}).Nodup := by
  have single : chainOfTwo.connections = [⟨⟨"node-1", .flow⟩, ⟨"node-2", .flow⟩⟩] := by decide
  have acyclic : chainOfTwo.FlowAcyclic := flowAcyclic_of_connections_eq single (by decide)
  refine ⟨by decide +kernel, (edited_chainOfTwo.entered_nodup_iff acyclic {}).2 ?_⟩
  intro c followed
  have mem := (of_mem_exits followed.2).1
  rw [single] at mem
  rw [List.mem_singleton.1 mem]

/-! ### A statement that is entered twice -/

/-- A statement that leads into the branch of another one. -/
def intoBranch : Graph :=
  ofEdits [
    .create {} { name := "U" } {} "u",
    .create { next := 2 } { name := "V", args := [.branch { name := some "body" }] } {} "v",
    .connect ⟨"node-1", .flow⟩ ⟨"node-2", (Key.root.ordinal 0).named "body"⟩]

/-- A node is entered twice, and its text is there twice, although flow connections form no
cycle: it is a root, and the other root leads to its branch. -/
theorem entered_intoBranch :
    Edited {} intoBranch ∧ intoBranch.FlowAcyclic ∧
      intoBranch.entered {} = ["node-1", "node-2", "node-2"] ∧
      ¬ (intoBranch.entered {}).Nodup ∧
      intoBranch.generate {} = "U\nV \x7b\x7d\n\nV \x7b\x7d" := by
  have single : intoBranch.connections =
      [⟨⟨"node-1", .flow⟩, ⟨"node-2", (Key.root.ordinal 0).named "body"⟩⟩] := by decide
  have entered : intoBranch.entered {} = ["node-1", "node-2", "node-2"] := by decide +kernel
  refine ⟨.ofEdits (by simp [Edit.Allowed]), flowAcyclic_of_connections_eq single (by decide),
    entered, ?_, by decide +kernel⟩
  rw [entered]
  decide

end Graph

end CommandGraph
