/-
CommandGraph/Proofs/Render/Cycles.lean

Which flow cycles are reported.

A flow cycle can be met in two ways: by a chain that comes back to a node of its path
(`Graph.loops`), or by the searches from the statements that no chain has entered
(`Graph.foundFrom`).  Whatever is reported is on a cycle, and the searches report no node
twice.

A cycle is reported exactly if the text goes round it, or if a statement that the text does
not get to leads to it past the nodes that the text gets to (`Graph.Edited.cyclicFlow_iff`).
So all cycles are reported if the text goes on along the flow connections of all nodes that
it gets to.  But there may be connections that it does not go on along, out of a branch
that is turned off; as its node counts as reached nevertheless, a cycle through this branch
can stay unnoticed (`Graph.tryGenerate_turnedOffLoop`).
-/
import CommandGraph.Proofs.Render.Covered
import CommandGraph.Proofs.Render.Search

namespace CommandGraph

open Relation

/-! ### Reported nodes -/

/-- The node at which a cycle is reported. -/
def GenerateError.cyclicFlow? : GenerateError → Option String
  | cyclicFlow id => some id
  | resolve _ => none

theorem GenerateError.cyclicFlow?_eq_some {error : GenerateError} {id : String} :
    error.cyclicFlow? = some id ↔ error = .cyclicFlow id := by
  cases error <;> simp [cyclicFlow?]

/-- The nodes at which cycles have been reported, the last one first. -/
def Progress.cycles (progress : Progress) : List String :=
  progress.problems.filterMap GenerateError.cyclicFlow?

theorem Progress.mem_cycles {progress : Progress} {id : String} :
    id ∈ progress.cycles ↔ .cyclicFlow id ∈ progress.problems := by
  simp [cycles, GenerateError.cyclicFlow?_eq_some]

namespace Graph

/-! ### Cycles that chains go round -/

/-- Whether the text goes on from a node to another. -/
def GoesOn (g : Graph) (limits : ScriptLimits) (id next : String) : Prop :=
  next ∈ g.nexts limits id

/-- The nodes that a chain meets again. -/
def loops (g : Graph) (limits : ScriptLimits) (path : List String) (id : String) : List String :=
  g.trace limits (fun id => [id]) (fun _ => []) path id

section

variable {g : Graph} {limits : ScriptLimits} {path : List String} {id other next : String}

theorem Reached.goesOn (reached : g.Reached limits id) (h : g.GoesOn limits id next) :
    g.Reached limits next := by
  obtain ⟨c, exit, rfl⟩ := List.mem_map.1 h
  exact reached.exit exit

/-- A chain meets those nodes again that it goes round. -/
theorem cycle_of_mem_loops (reached : g.Reached limits id)
    (leads : ∀ p ∈ path, TransGen (g.GoesOn limits) p id) (mem : other ∈ g.loops limits path id) :
    g.Reached limits other ∧ TransGen (g.GoesOn limits) other other := by
  induction path using path_induction g.ids generalizing id with
  | step path ih =>
    -- the chain is back at a node of its path, and this node leads to itself
    by_cases met : id ∈ path
    · rw [loops, trace_of_mem met, List.mem_singleton] at mem
      exact mem ▸ ⟨reached, leads id met⟩
    cases found : g.node? id with
    | none =>
      rw [loops, trace_of_node?_eq_none met found] at mem
      cases mem
    | some node =>
      rw [loops, trace_of_node? met found, List.nil_append] at mem
      obtain ⟨c, exit, mem⟩ := List.mem_flatMap.1 mem
      have on : g.GoesOn limits id c.target.node := List.mem_map_of_mem exit
      refine ih id (mem_ids_of_node? found) met (reached.goesOn on) (fun p hp => ?_) mem
      rcases List.mem_cons.1 hp with rfl | hp
      · exact .single on
      · exact .tail (leads p hp) on

/-- If a chain meets no node again, then the text comes to an end behind its start. -/
theorem acc_of_loops_eq_nil (none_met : g.loops limits path id = []) :
    Acc (Function.swap (g.GoesOn limits)) id := by
  induction path using path_induction g.ids generalizing id with
  | step path ih =>
    by_cases met : id ∈ path
    · rw [loops, trace_of_mem met] at none_met
      cases none_met
    refine Acc.intro id fun next on => ?_
    obtain ⟨c, exit, rfl⟩ := List.mem_map.1 on
    cases found : g.node? id with
    | none =>
      obtain ⟨-, -, written⟩ := of_mem_exits exit
      rw [writtenKeys, found] at written
      cases written
    | some node =>
      rw [loops, trace_of_node? met found, List.nil_append, List.flatMap_eq_nil_iff] at none_met
      exact ih id (mem_ids_of_node? found) met (none_met c exit)

end

/-- Whether the text gets to a cycle and goes round it. -/
def WrittenCycle (g : Graph) (limits : ScriptLimits) : Prop :=
  ∃ id, g.Reached limits id ∧ TransGen (g.GoesOn limits) id id

/-- What is noted when all chains have been written. -/
def afterChains (g : Graph) (options : RenderOptions) : Progress :=
  ((g.roots.mapM fun node => g.chainText options node.id).run {}).2

/-- The chains report the nodes that they meet again, root by root. -/
theorem cycles_afterChains (g : Graph) (options : RenderOptions) :
    (g.afterChains options).cycles =
      (g.roots.flatMap fun node => g.loops options.limits [] node.id).reverse := by
  have chains : Logs Progress.cycles (g.roots.mapM fun node => g.chainText options node.id)
      (g.roots.flatMap fun node => g.loops options.limits [] node.id) :=
    logs_roots (fun _ _ => rfl) (fun _ _ => rfl) (fun _ _ => rfl) g options
  rw [afterChains, chains]
  exact List.append_nil _

/-- What the chains report is on a cycle that the text gets to and goes round. -/
theorem cycle_of_mem_cycles {g : Graph} {options : RenderOptions} {id : String}
    (mem : id ∈ (g.afterChains options).cycles) :
    g.Reached options.limits id ∧ TransGen (g.GoesOn options.limits) id id := by
  rw [cycles_afterChains, List.mem_reverse] at mem
  obtain ⟨node, root, mem⟩ := List.mem_flatMap.1 mem
  exact cycle_of_mem_loops (.root root) (fun p hp => absurd hp List.not_mem_nil) mem

/-- If the chains report nothing, then the text goes round no cycle. -/
theorem not_writtenCycle {g : Graph} {options : RenderOptions}
    (none_met : (g.afterChains options).cycles = []) : ¬ g.WrittenCycle options.limits := by
  rw [cycles_afterChains, List.reverse_eq_nil_iff, List.flatMap_eq_nil_iff] at none_met
  rintro ⟨id, reached, cycle⟩
  have ends : Acc (Function.swap (g.GoesOn options.limits)) id := by
    clear cycle
    induction reached with
    | root root => exact acc_of_loops_eq_nil (none_met _ root)
    | exit _ exit ih => exact ih.inv (List.mem_map_of_mem exit)
  exact not_transGen_self ends (transGen_swap.2 cycle)

/-! ### Cycles that searches find -/

/-- The nodes on cycles that are found in searches from each of some nodes in turn. -/
def foundFrom (g : Graph) (reached : List String) : List Node → List String
  | [] => []
  | node :: nodes =>
    if !node.isStatement || node.id ∈ reached then foundFrom g reached nodes
    else
      (g.findCycle reached node.id).1.toList ++ foundFrom g (g.findCycle reached node.id).2 nodes

section

variable {g : Graph} {old reached : List String} {nodes : List Node} {id next : String}

theorem Onward.mono (kept : old ⊆ reached) : g.Onward reached ≤ g.Onward old :=
  fun _ _ onward => ⟨onward.1, fun before => onward.2 (kept before)⟩

/-- Ways onward end if they do up to nodes onward from which they end. -/
theorem Ends.trans (h : g.Ends reached id) (settled : ∀ id ∈ reached, id ∈ old ∨ g.Ends old id) :
    g.Ends old id := by
  induction h with
  | intro id _ ih =>
    refine ends_of_forall fun next mem => ?_
    by_cases before : next ∈ reached
    · exact settled next before
    · exact .inr (ih next ⟨mem, before⟩)

/-- A search starts at each statement that has not been reached. -/
theorem foundFrom_cons (node : Node) :
    g.foundFrom reached (node :: nodes) =
      if !node.isStatement || node.id ∈ reached then g.foundFrom reached nodes
      else (g.findCycle reached node.id).1.toList ++
        g.foundFrom (g.findCycle reached node.id).2 nodes :=
  rfl

/-- No node is found twice, and none that has been reached before. -/
theorem foundFrom_nodup (reached : List String) (nodes : List Node) :
    (g.foundFrom reached nodes).Nodup ∧ ∀ id ∈ g.foundFrom reached nodes, id ∉ reached := by
  induction nodes generalizing reached with
  | nil => exact ⟨List.nodup_nil, fun _ mem => absurd mem List.not_mem_nil⟩
  | cons node nodes ih =>
    rw [foundFrom_cons]
    split
    · exact ih reached
    · next searched =>
      rw [Bool.or_eq_true, not_or, decide_eq_true_eq] at searched
      have answer := g.findCycle_answer searched.2
      generalize g.findCycle reached node.id = result at answer
      cases answer with
      | none kept =>
        -- a search only adds to what has been reached, so that later ones find other nodes
        obtain ⟨nodup, new⟩ := ih _
        exact ⟨nodup, fun id mem before => new id mem (kept before)⟩
      | @cycle id after kept mem led cycle =>
        obtain ⟨nodup, new⟩ := ih after
        obtain ⟨_, -, back⟩ := TransGen.tail'_iff.1 cycle
        refine ⟨List.nodup_cons.2 ⟨fun again => new id again mem, nodup⟩, ?_⟩
        intro other mem_other
        rcases List.mem_cons.1 mem_other with rfl | mem_other
        · exact back.2
        · exact fun before => new other mem_other (kept before)

/-- What is found is on a cycle onward from one of the statements. -/
theorem cycle_of_mem_foundFrom (kept : old ⊆ reached) (mem : id ∈ g.foundFrom reached nodes) :
    ∃ node ∈ nodes, node.isStatement = true ∧ node.id ∉ old ∧
      ReflTransGen (g.Onward old) node.id id ∧ TransGen (g.Onward old) id id := by
  induction nodes generalizing reached with
  | nil => cases mem
  | cons node nodes ih =>
    -- what a later search finds lies onward from a later statement
    have later {after : List String} (sub : old ⊆ after) (mem : id ∈ g.foundFrom after nodes) :
        ∃ start ∈ node :: nodes, start.isStatement = true ∧ start.id ∉ old ∧
          ReflTransGen (g.Onward old) start.id id ∧ TransGen (g.Onward old) id id := by
      obtain ⟨start, mem_start, rest⟩ := ih sub mem
      exact ⟨start, List.mem_cons_of_mem _ mem_start, rest⟩
    rw [foundFrom_cons] at mem
    split at mem
    · exact later kept mem
    · next searched =>
      rw [Bool.or_eq_true, not_or, decide_eq_true_eq] at searched
      have answer := g.findCycle_answer searched.2
      generalize g.findCycle reached node.id = result at answer mem
      cases answer with
      | none more => exact later (List.Subset.trans kept more) mem
      | cycle more _ led cycle =>
        rcases List.mem_cons.1 mem with rfl | mem
        · refine ⟨node, List.mem_cons_self, by simpa using searched.1,
            fun before => searched.2 (kept before), ?_, ?_⟩
          · exact ReflTransGen.mono (Onward.mono kept) _ _ led
          · exact TransGen.mono (Onward.mono kept) _ _ cycle
        · exact later (List.Subset.trans kept more) mem

/-- If nothing is found, then all ways onward from the statements end. -/
theorem ends_of_foundFrom_eq_nil (settled : ∀ id ∈ reached, id ∈ old ∨ g.Ends old id)
    (none_found : g.foundFrom reached nodes = []) :
    ∀ node ∈ nodes, node.isStatement = true → node.id ∈ old ∨ g.Ends old node.id := by
  induction nodes generalizing reached with
  | nil => exact fun _ mem => absurd mem List.not_mem_nil
  | cons node nodes ih =>
    rw [foundFrom_cons] at none_found
    intro other mem statement
    split at none_found
    · -- a statement that is passed over has been settled by an earlier search
      next skipped =>
      rcases List.mem_cons.1 mem with rfl | mem
      · rw [statement, Bool.not_true, Bool.false_or, decide_eq_true_eq] at skipped
        exact settled _ skipped
      · exact ih settled none_found other mem statement
    · next searched =>
      rw [Bool.or_eq_true, not_or, decide_eq_true_eq] at searched
      have answer := g.findCycle_answer searched.2
      generalize g.findCycle reached node.id = result at answer none_found
      cases answer with
      | cycle => cases none_found
      | @none after _ start_mem ends =>
        -- what the search has visited ends, up to what had been reached before
        have after_settled : ∀ id ∈ after, id ∈ old ∨ g.Ends old id := by
          intro id mem_id
          rcases ends id mem_id with before | ends
          · exact settled id before
          · exact .inr (ends.trans settled)
        rcases List.mem_cons.1 mem with rfl | mem
        · exact after_settled _ start_mem
        · exact ih after_settled none_found other mem statement

end

section

variable {g : Graph} {node : Node} {progress : Progress}

/-! ### Searches as steps -/

theorem unreachedCycle_of_skipped
    (skipped : (!node.isStatement || node.id ∈ progress.reached) = true) :
    (g.unreachedCycle node).run progress = ([], progress) := by
  rw [unreachedCycle, StateT.run_bind, StateT.run_get, pure_bind, if_pos skipped]
  rfl

/-- Any other search notes what it has reached, and reports what it finds. -/
theorem unreachedCycle_of_searched
    (searched : ¬ (!node.isStatement || node.id ∈ progress.reached) = true) :
    (g.unreachedCycle node).run progress =
      ((g.findCycle progress.reached node.id).1.toList.map cycleMarker,
        { reached := (g.findCycle progress.reached node.id).2
          problems := (g.findCycle progress.reached node.id).1.toList.map .cyclicFlow ++
            progress.problems }) := by
  rw [unreachedCycle, StateT.run_bind, StateT.run_get, pure_bind, if_neg searched]
  rcases g.findCycle progress.reached node.id with ⟨_ | id, reached⟩ <;> rfl

/-- The searches report what they find. -/
theorem mapM_unreachedCycle (nodes : List Node) (progress : Progress) :
    ((nodes.mapM g.unreachedCycle).run progress).1.flatten =
        (g.foundFrom progress.reached nodes).map cycleMarker ∧
      ((nodes.mapM g.unreachedCycle).run progress).2.problems =
        ((g.foundFrom progress.reached nodes).map .cyclicFlow).reverse ++ progress.problems := by
  induction nodes generalizing progress with
  | nil => exact ⟨rfl, rfl⟩
  | cons node nodes ih =>
    rw [List.mapM_cons]
    -- the first search hands over what has been reached to the others
    show (((g.unreachedCycle node).run progress).1 ::
          ((nodes.mapM g.unreachedCycle).run
            ((g.unreachedCycle node).run progress).2).1).flatten = _ ∧
      ((nodes.mapM g.unreachedCycle).run ((g.unreachedCycle node).run progress).2).2.problems = _
    obtain ⟨markers, problems⟩ := ih ((g.unreachedCycle node).run progress).2
    rw [List.flatten_cons, markers, problems, foundFrom_cons]
    split
    · next skipped =>
      rw [unreachedCycle_of_skipped skipped]
      exact ⟨rfl, rfl⟩
    · next searched =>
      rw [unreachedCycle_of_searched searched, List.map_append, List.map_append,
        List.reverse_append, List.append_assoc]
      refine ⟨rfl, congrArg _ ?_⟩
      cases (g.findCycle progress.reached node.id).1 <;> rfl

end

/-! ### Reports -/

/-- The reasons to reject a graph, the last one first. -/
def problems (g : Graph) (options : RenderOptions) : List GenerateError :=
  ((g.render options).run {}).2.problems

/-- The markers behind the chains of a graph. -/
def markers (g : Graph) (options : RenderOptions) : List String :=
  (g.unreachedCycles.run (g.afterChains options)).1

/-- The nodes at which the searches from a graph's statements report cycles. -/
def found (g : Graph) (options : RenderOptions) : List String :=
  g.foundFrom (g.afterChains options).reached g.nodes

theorem markers_eq (g : Graph) (options : RenderOptions) :
    g.markers options = (g.found options).map cycleMarker :=
  (mapM_unreachedCycle g.nodes (g.afterChains options)).1

/-- The problems are those of the chains, and one for each node that is found. -/
theorem problems_eq (g : Graph) (options : RenderOptions) :
    g.problems options =
      ((g.found options).map .cyclicFlow).reverse ++ (g.afterChains options).problems :=
  (mapM_unreachedCycle g.nodes (g.afterChains options)).2

/-- A cycle is reported by a search or by a chain. -/
theorem cyclicFlow_mem_problems {g : Graph} {options : RenderOptions} {id : String} :
    .cyclicFlow id ∈ g.problems options ↔
      id ∈ g.found options ∨ id ∈ (g.afterChains options).cycles := by
  rw [problems_eq, List.mem_append, List.mem_reverse, Progress.mem_cycles]
  simp

/-- The text consists of the chains and the markers, and the first problem is the last one in the
list. -/
theorem run_eq (g : Graph) (options : RenderOptions) :
    g.run options =
      ("\n\n".intercalate (Render.nonEmpty
          ((g.roots.mapM fun node => g.chainText options node.id).run {}).1 ++ g.markers options),
        (g.problems options).getLast?) :=
  rfl

theorem exists_error_of_mem_problems {g : Graph} {options : RenderOptions} {error : GenerateError}
    (mem : error ∈ g.problems options) : ∃ first, g.tryGenerate options = .error first := by
  obtain ⟨first, e⟩ : ∃ first, (g.problems options).getLast? = some first :=
    ⟨_, List.getLast?_eq_some_getLast (List.ne_nil_of_mem mem)⟩
  rw [tryGenerate, run_eq, e]
  exact ⟨first, rfl⟩

/-- Whether a flow connection goes from a node to one that the text does not get to. -/
def LeadsPast (g : Graph) (limits : ScriptLimits) (id next : String) : Prop :=
  g.Leads id next ∧ ¬ g.Reached limits next

/-- Whether a statement that the text does not get to leads to a cycle, past all nodes that it
gets to. -/
def UnwrittenCycle (g : Graph) (limits : ScriptLimits) : Prop :=
  ∃ node ∈ g.nodes, node.isStatement = true ∧ ¬ g.Reached limits node.id ∧
    ∃ id, ReflTransGen (g.LeadsPast limits) node.id id ∧ TransGen (g.LeadsPast limits) id id

/-- Whether the text goes on along all flow connections out of nodes that it gets to, and only
statements have some. -/
def FollowsFlow (g : Graph) (limits : ScriptLimits) : Prop :=
  ∀ c ∈ g.connections, g.CarriesFlow c →
    (∃ node, g.node? c.source.node = some node ∧ node.isStatement = true) ∧
      (g.Reached limits c.source.node → c ∈ g.exits limits c.source.node)

theorem FollowsFlow.goesOn {g : Graph} {limits : ScriptLimits} (h : g.FollowsFlow limits)
    {id next : String} (reached : g.Reached limits id) (leads : g.Leads id next) :
    g.GoesOn limits id next := by
  cases leads with
  | @intro c mem flow => exact List.mem_map_of_mem ((h c mem flow).2 reached)

/-- Where all flow is followed, no cycle goes unnoticed. -/
theorem FollowsFlow.cycle {g : Graph} {limits : ScriptLimits} (h : g.FollowsFlow limits)
    {id : String} (cycle : TransGen g.Leads id id) :
    g.WrittenCycle limits ∨ g.UnwrittenCycle limits := by
  by_cases reached : g.Reached limits id
  · -- text that gets to the cycle goes round it
    have follow {next : String} (leads : TransGen g.Leads id next) :
        g.Reached limits next ∧ TransGen (g.GoesOn limits) id next := by
      induction leads with
      | single leads =>
        have on := h.goesOn reached leads
        exact ⟨reached.goesOn on, .single on⟩
      | tail _ leads ih =>
        have on := h.goesOn ih.1 leads
        exact ⟨ih.1.goesOn on, .tail ih.2 on⟩
    exact .inl ⟨id, reached, (follow cycle).2⟩
  · -- text that does not get to a node does not get to what leads there
    have past {next : String} (leads : TransGen g.Leads id next)
        (unreached : ¬ g.Reached limits next) : TransGen (g.LeadsPast limits) id next := by
      induction leads with
      | single leads => exact .single ⟨leads, unreached⟩
      | tail _ leads ih =>
        refine .tail (ih fun before => unreached ?_) ⟨leads, unreached⟩
        exact before.goesOn (h.goesOn before leads)
    obtain ⟨next, leads, -⟩ := TransGen.head'_iff.1 cycle
    obtain ⟨node, found, statement⟩ : ∃ node, g.node? id = some node ∧ node.isStatement = true := by
      cases leads with
      | @intro c mem flow => exact (h c mem flow).1
    obtain rfl := id_of_node? found
    exact .inr ⟨node, mem_of_node? found, statement, reached, node.id, .refl, past cycle reached⟩

namespace WellFormed

variable {g : Graph}

theorem mem_flowTargets (h : g.WellFormed) {id next : String} :
    next ∈ g.flowTargets id ↔ g.Leads id next := by
  constructor
  · intro successor
    obtain ⟨c, leaving, rfl⟩ := List.mem_map.1 successor
    obtain ⟨mem, kept⟩ := List.mem_filter.1 leaving
    rw [Bool.and_eq_true, Bool.and_eq_true, decide_eq_true_eq] at kept
    obtain ⟨⟨rfl, flow⟩, -⟩ := kept
    obtain ⟨output, input, found, -, -⟩ := h.joins c mem
    refine .intro mem ⟨output, found, ?_⟩
    rw [isFlowOutput, Bool.or_eq_true, decide_eq_true_eq] at flow
    rcases flow with execution | carries
    · have channel := h.channel?_eq found
      obtain ⟨node, found_node, -⟩ := socket?_eq_some found
      rw [channel?_of_node? found_node, Command.channel?, if_pos execution] at channel
      exact (Option.some.inj channel).symm
    · rw [show (g.node? c.source.node).bind (·.sockets.output? c.source.key) = some output from
          found,
        Option.any_some, Socket.isFlow, decide_eq_true_eq] at carries
      exact carries
  · rintro ⟨mem, output, found, flow⟩
    rename_i c
    refine List.mem_map.2 ⟨c, List.mem_filter.2 ⟨mem, ?_⟩, rfl⟩
    obtain ⟨target, found_target⟩ := h.node?_target mem
    rw [found_target, decide_eq_true rfl, isFlowOutput,
      show (g.node? c.source.node).bind (·.sockets.output? c.source.key) = some output from found,
      Option.any_some, Socket.isFlow, decide_eq_true flow, Bool.or_true]
    rfl

theorem onward_iff (h : g.WellFormed) {options : RenderOptions} {id next : String} :
    g.Onward (g.afterChains options).reached id next ↔ g.LeadsPast options.limits id next := by
  rw [Onward, LeadsPast, h.mem_flowTargets, ← h.mem_entered, entered, List.mem_reverse]
  rfl

/-- A cycle is reported exactly if the text goes round one, or if a statement that it does not get
to leads to one past all nodes that it gets to. -/
theorem exists_cyclicFlow_iff (h : g.WellFormed) (options : RenderOptions) :
    (∃ id, .cyclicFlow id ∈ g.problems options) ↔
      g.WrittenCycle options.limits ∨ g.UnwrittenCycle options.limits := by
  have onward : g.Onward (g.afterChains options).reached = g.LeadsPast options.limits := by
    funext id next
    exact propext h.onward_iff
  have reached_iff {id : String} :
      id ∈ (g.afterChains options).reached ↔ g.Reached options.limits id := by
    rw [← h.mem_entered, entered, List.mem_reverse]
    rfl
  constructor
  · rintro ⟨id, mem⟩
    rcases cyclicFlow_mem_problems.1 mem with found | met
    · obtain ⟨node, mem, statement, new, led, cycle⟩ :=
        cycle_of_mem_foundFrom (List.Subset.refl _) found
      rw [reached_iff] at new
      rw [onward] at led cycle
      exact .inr ⟨node, mem, statement, new, id, led, cycle⟩
    · exact .inl ⟨id, cycle_of_mem_cycles met⟩
  · intro cyclic
    by_contra silent
    have none_met : (g.afterChains options).cycles = [] :=
      List.eq_nil_iff_forall_not_mem.2 fun id mem =>
        silent ⟨id, cyclicFlow_mem_problems.2 (.inr mem)⟩
    have none_found : g.found options = [] :=
      List.eq_nil_iff_forall_not_mem.2 fun id mem =>
        silent ⟨id, cyclicFlow_mem_problems.2 (.inl mem)⟩
    rcases cyclic with written | ⟨node, mem, statement, new, id, led, cycle⟩
    · exact not_writtenCycle none_met written
    · have ends := ends_of_foundFrom_eq_nil (fun _ => .inl) none_found node mem statement
      rw [reached_iff] at ends
      rw [← onward] at led cycle
      exact not_transGen_self ((ends.resolve_left new).behind led) (transGen_swap.2 cycle)

/-- Cycles are reported at nodes that are on a cycle. -/
theorem cycle_of_cyclicFlow (h : g.WellFormed) {options : RenderOptions} {id : String}
    (mem : .cyclicFlow id ∈ g.problems options) : TransGen g.Leads id id := by
  rcases cyclicFlow_mem_problems.1 mem with found | met
  · obtain ⟨node, -, -, -, -, cycle⟩ := cycle_of_mem_foundFrom (List.Subset.refl _) found
    exact TransGen.mono (fun _ _ onward => (h.onward_iff.1 onward).1) _ _ cycle
  · refine TransGen.mono (fun _ _ on => ?_) _ _ (cycle_of_mem_cycles met).2
    obtain ⟨c, exit, rfl⟩ := List.mem_map.1 on
    exact h.leads_of_mem_exits exit

end WellFormed

/-- If the branches of all commands are written in any case and no node is hidden, then all flow is
followed. -/
theorem Regular.followsFlow {g : Graph} (h : g.Regular)
    (runs : ∀ node ∈ g.nodes, node.command.RunsBranches)
    (visible : ∀ node ∈ g.nodes, node.visible = true) (limits : ScriptLimits) :
    g.FollowsFlow limits := by
  intro c mem flow
  obtain ⟨node, found⟩ := h.wellFormed.node?_source mem
  have mem_node := mem_of_node? found
  obtain ⟨statement, exit⟩ :=
    h.exit_of_carriesFlow mem flow found (visible node mem_node) (runs node mem_node) limits
  exact ⟨⟨node, found, statement⟩, fun _ => exit⟩

/-- Which flow cycles are reported in an edited graph.  All reports are about nodes on cycles, and
there is one marker at most for each of them behind the chains.  There is a report exactly if the
text goes round a cycle, or if a statement that it does not get to leads to one past all nodes that
it gets to; so, if all flow is followed, no graph with a flow cycle passes strict generation. -/
theorem Edited.cyclicFlow_iff {g : Graph} (h : Edited {} g) (options : RenderOptions) :
    (∀ id, .cyclicFlow id ∈ g.problems options → TransGen g.Leads id id) ∧
      (∃ ids : List String, ids.Nodup ∧ g.markers options = ids.map cycleMarker ∧
        ∀ id ∈ ids, .cyclicFlow id ∈ g.problems options) ∧
      ((∃ id, .cyclicFlow id ∈ g.problems options) ↔
        g.WrittenCycle options.limits ∨ g.UnwrittenCycle options.limits) ∧
      (g.FollowsFlow options.limits → (∃ id, TransGen g.Leads id id) →
        ∃ error, g.tryGenerate options = .error error) := by
  have wf := h.wellFormed
  have reported := wf.exists_cyclicFlow_iff options
  refine ⟨fun id mem => wf.cycle_of_cyclicFlow mem, ?_, reported, ?_⟩
  · exact ⟨g.found options, (foundFrom_nodup _ _).1, markers_eq g options,
      fun id mem => cyclicFlow_mem_problems.2 (.inl mem)⟩
  · rintro follows ⟨id, cycle⟩
    obtain ⟨_, mem⟩ := reported.2 (follows.cycle cycle)
    exact exists_error_of_mem_problems mem

/-- Two statements that lead to each other. -/
def loopOfTwo : Graph :=
  ofEdits [
    .create {} { name := "first" } {} "first",
    .create { next := 2 } { name := "second" } {} "second",
    .connect ⟨"node-1", .flow⟩ ⟨"node-2", .flow⟩,
    .connect ⟨"node-2", .flow⟩ ⟨"node-1", .flow⟩]

theorem cyclicFlow_loopOfTwo :
    TransGen loopOfTwo.Leads "node-1" "node-1" ∧
      (∃ id, .cyclicFlow id ∈ loopOfTwo.problems {}) ∧
      ∃ error, loopOfTwo.tryGenerate {} = .error error := by
  have edited : Edited { command := Command.RunsBranches } loopOfTwo := by
    refine .ofEdits fun e mem g => ?_
    simp only [List.mem_cons, List.not_mem_nil, or_false] at mem
    rcases mem with rfl | rfl | rfl | rfl
    · exact ⟨by decide, by decide, by decide⟩
    · exact ⟨by decide, by decide, by decide⟩
    · trivial
    · trivial
  have edited_freely : Edited {} loopOfTwo :=
    edited.mono (fun _ _ => trivial) fun _ _ _ => trivial
  have named : Edited { command := fun c => c.hasNamedOptions = true } loopOfTwo :=
    edited.mono (fun _ => Command.RunsBranches.named) fun _ _ _ => trivial
  have leads {id next : String} (h : next ∈ loopOfTwo.flowTargets id) : loopOfTwo.Leads id next :=
    edited.wellFormed.mem_flowTargets.1 h
  have cycle : TransGen loopOfTwo.Leads "node-1" "node-1" :=
    .tail (.single (leads (show "node-2" ∈ _ by decide +kernel))) (leads (by decide +kernel))
  have visible : ∀ node ∈ loopOfTwo.nodes, node.visible = true := by decide +kernel
  have follows := named.regular.followsFlow edited.command visible {}
  obtain ⟨-, -, reported, complete⟩ := edited_freely.cyclicFlow_iff {}
  exact ⟨cycle, reported.2 (follows.cycle cycle), complete follows ⟨_, cycle⟩⟩

/-! ### A cycle that goes unnoticed -/

/-- A statement whose optional body, which is turned off, holds a statement that leads back
to it. -/
def turnedOffLoop : Graph :=
  ofEdits [
    .create {} { name := "H", args := [.branch { name := some "body", optional := true }] } {} "h",
    .create { next := 2 } { name := "X" } {} "x",
    .connect ⟨"node-1", (Key.root.ordinal 0).named "body"⟩ ⟨"node-2", .flow⟩,
    .connect ⟨"node-2", .flow⟩ ⟨"node-1", (Key.root.ordinal 0).named "body"⟩]

/-- No search finds the loop. -/
theorem found_turnedOffLoop : turnedOffLoop.found {} = [] := by
  have reached : (turnedOffLoop.afterChains {}).reached = ["node-1"] := by decide +kernel
  have targets : turnedOffLoop.flowTargets "node-2" = ["node-1"] := by decide +kernel
  obtain ⟨first, second, nodes, first_id, second_id⟩ : ∃ first second,
      turnedOffLoop.nodes = [first, second] ∧ first.id = "node-1" ∧ second.id = "node-2" :=
    ⟨_, _, rfl, by decide, by decide⟩
  simp [found, reached, nodes, foundFrom, first_id, second_id, findCycle, targets, searchCycle]

/-- A flow cycle passes strict generation: one of its nodes is a root, although a connection
leads into it, and counts as reached, although the cycle is not followed. -/
theorem tryGenerate_turnedOffLoop :
    Edited {} turnedOffLoop ∧ TransGen turnedOffLoop.Leads "node-1" "node-1" ∧
      turnedOffLoop.problems {} = [] ∧ turnedOffLoop.tryGenerate {} = .ok "H" := by
  have edited : Edited {} turnedOffLoop := .ofEdits (by simp [Edit.Allowed])
  have leads {id next : String} (h : next ∈ turnedOffLoop.flowTargets id) :
      turnedOffLoop.Leads id next :=
    edited.wellFormed.mem_flowTargets.1 h
  have cycle : TransGen turnedOffLoop.Leads "node-1" "node-1" :=
    .tail (.single (leads (show "node-2" ∈ _ by decide +kernel))) (leads (by decide +kernel))
  have problems : turnedOffLoop.problems {} = [] := by
    rw [problems_eq, found_turnedOffLoop]
    decide +kernel
  refine ⟨edited, cycle, problems, ?_⟩
  rw [tryGenerate, run_eq, problems, markers_eq, found_turnedOffLoop]
  decide +kernel

end Graph

end CommandGraph
