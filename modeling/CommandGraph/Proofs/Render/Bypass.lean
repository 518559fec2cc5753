/-
CommandGraph/Proofs/Render/Bypass.lean

Graphs that do without hidden statements.

A hidden statement writes nothing and passes on the text from the one connection into it to the
one out of it.  `Graph.Bypasses g other past` says that `other` is `g` without some statements of
this kind: connections into them lead past them in `other`, and where text gets to `id` in `g`,
it gets to `past id` in `other`.  The order of connections is left open.

All remaining places have the same values in both graphs (`Graph.Bypasses.resolve_eq`).  If flow
connections form no cycle in either of them, then every chain has the same text, whatever nodes
lead to it (`Graph.Bypasses.sameOutcome_chain`), so that both graphs have the same text and are
rejected for the same reason (`Graph.Bypasses.run_eq`).
-/
import CommandGraph.Proofs.Render.Cycles
import CommandGraph.Proofs.Render.Effects

namespace CommandGraph

open Relation

theorem Node.isEvaluate_eq_false {node : Node} (statement : node.isStatement = true) :
    node.isEvaluate = false := by
  rw [Node.isStatement] at statement
  rw [Node.isEvaluate]
  cases category : node.command.category with
  | statement => rfl
  | data | evaluate =>
    rw [category] at statement
    cases statement

namespace Graph

variable {g other : Graph}

/-! ### Connections of well-formed graphs -/

namespace WellFormed

/-- A flow output leads to the node at which its connection ends. -/
theorem follow?_eq_some_iff (h : g.WellFormed) {place : Place}
    (flow : g.channel? place .output = some .flow) {next : String} :
    g.follow? place = some next ↔
      ∃ c ∈ g.connections, c.source = place ∧ c.target.node = next := by
  constructor
  · intro follows
    obtain ⟨c, first, e⟩ := Option.map_eq_some_iff.1 follows
    obtain ⟨mem, source⟩ := mem_outgoing.1 (List.mem_of_mem_head? first)
    exact ⟨c, mem, source, e⟩
  · rintro ⟨c, mem, rfl, rfl⟩
    rw [follow?, h.head?_outgoing mem (h.carriesFlow_of_channel? mem flow)]
    rfl

theorem leads_of_follow? (h : g.WellFormed) {id next : String} {key : Key}
    (flow : g.channel? ⟨id, key⟩ .output = some .flow)
    (follows : g.follow? ⟨id, key⟩ = some next) : g.Leads id next := by
  obtain ⟨c, mem, source, rfl⟩ := (h.follow?_eq_some_iff flow).1 follows
  rw [← source] at flow
  have leads := Leads.intro mem (h.carriesFlow_of_channel? mem flow)
  rwa [source] at leads

end WellFormed

theorem channel?_flow {id : String} {node : Node} (found : g.node? id = some node)
    (direction : Direction) : g.channel? ⟨id, .flow⟩ direction = some .flow := by
  rw [channel?_of_node? found, Command.channel?, if_pos rfl]

/-! ### Statements that are passed by -/

/-- Whether a node is a hidden statement with a connection from another node into its execution
input and a single connection out of it, which leads on to where the text gets past it. -/
structure PassedBy (g : Graph) (past : String → String) (id : String) : Prop where
  hidden : ∃ node, g.node? id = some node ∧ node.isStatement = true ∧ node.visible = false
  before : ∃ c ∈ g.connections, c.target = ⟨id, .flow⟩ ∧ past c.source.node = c.source.node
  behind : ∃ c ∈ g.connections, c.source = ⟨id, .flow⟩ ∧ past c.target.node = past id ∧
    ∀ d ∈ g.connections, d.source.node = id → d = c

/-- Where a connection from a place comes from if nodes are left out. -/
def origin (g : Graph) (past : String → String) (source : Place) : Place :=
  if past source.node = source.node then source
  else ((g.incoming? source).map (·.source)).getD source

/-- Whether a graph is another one without the nodes that the text of this one gets past. -/
structure Bypasses (g other : Graph) (past : String → String) : Prop where
  nodes_eq : other.nodes = g.nodes.filter fun node => past node.id = node.id
  passedBy {id : String} (left_out : past id ≠ id) : g.PassedBy past id
  source_eq (place : Place) (kept : past place.node = place.node) :
    (other.incoming? place).map (·.source) =
      (g.incoming? place).map fun c => g.origin past c.source
  follow?_eq {id : String} {key : Key} (kept : past id = id)
    (flow : g.channel? ⟨id, key⟩ .output = some .flow) :
    other.follow? ⟨id, key⟩ = (g.follow? ⟨id, key⟩).map past

variable {past : String → String}

theorem origin_of_kept {source : Place} (kept : past source.node = source.node) :
    g.origin past source = source :=
  if_pos kept

/-- The only connection out of a node that is passed by comes from the connection into it. -/
theorem PassedBy.origin_eq (h : g.WellFormed) {c : Connection} (mem : c ∈ g.connections)
    (left_out : past c.source.node ≠ c.source.node) (passed : g.PassedBy past c.source.node) :
    ∃ d, g.incoming? c.source = some d ∧ past d.source.node = d.source.node ∧
      g.origin past c.source = d.source := by
  obtain ⟨d, mem_d, target, kept⟩ := passed.before
  obtain ⟨e, -, source, -, only⟩ := passed.behind
  rw [← only c mem rfl] at source
  have fed : g.incoming? c.source = some d :=
    h.incoming?_eq_some_iff.2 ⟨mem_d, target.trans source.symm⟩
  refine ⟨d, fed, kept, ?_⟩
  rw [origin, if_neg left_out, fed]
  rfl

namespace Bypasses

theorem node?_eq (b : g.Bypasses other past) {id : String} (kept : past id = id) :
    other.node? id = g.node? id := by
  rw [node?, node?, b.nodes_eq, List.find?_filter]
  refine congrArg (List.find? · g.nodes) (funext fun node => ?_)
  by_cases e : node.id = id
  · simp [e, kept]
  · simp [e]

end Bypasses

/-! ### Values -/

/-- What a connection from a place brings along, for the places on a path. -/
def fetch (g : Graph) (limits : ScriptLimits) (path : List Place) (source : Place) : Reading :=
  match g.node? source.node with
  | none => .ok none
  | some node =>
    if node.isEvaluate then
      node.evaluated limits (fun key => g.resolveFrom limits path ⟨node.id, key⟩) source.key
    else g.resolveFrom limits path ⟨node.id, source.key⟩

/-- Statements pass on what they get. -/
theorem fetch_of_isStatement {limits : ScriptLimits} {path : List Place} {source : Place}
    {node : Node} (found : g.node? source.node = some node) (statement : node.isStatement = true) :
    g.fetch limits path source = g.resolveFrom limits path source := by
  rw [fetch, found]
  show (if node.isEvaluate = true then _ else _) = _
  rw [node.isEvaluate_eq_false statement, if_neg Bool.false_ne_true, id_of_node? found]

/-- The value of a place that is fed is what its connection brings along. -/
theorem WellFormed.resolveFrom_eq_fetch (h : g.WellFormed) {limits : ScriptLimits}
    {path : List Place} {place : Place} {c : Connection} (new : place ∉ path)
    (fed : g.incoming? place = some c) :
    g.resolveFrom limits path place = g.fetch limits (place :: path) c.source := by
  obtain ⟨node, found⟩ := h.node?_target (mem_of_incoming? fed)
  rw [target_of_incoming? fed] at found
  obtain ⟨source, from_node⟩ := h.node?_source (mem_of_incoming? fed)
  rw [resolveFrom_of_incoming? found new fed from_node, fetch, from_node]

/-- Whether the same places wait on two paths, except for places of nodes that are left out.  If
one of those waits, so does the place that it feeds. -/
structure SameWaiting (g : Graph) (past : String → String) (path path' : List Place) : Prop where
  mem_iff {place : Place} (kept : past place.node = place.node) : place ∈ path' ↔ place ∈ path
  target_mem {c : Connection} (mem : c ∈ g.connections)
    (left_out : past c.source.node ≠ c.source.node) (waits : c.source ∈ path) : c.target ∈ path

namespace SameWaiting

variable {path path' : List Place}

theorem nil (g : Graph) (past : String → String) : g.SameWaiting past [] [] where
  mem_iff _ := Iff.rfl
  target_mem _ _ waits := absurd waits List.not_mem_nil

theorem cons (same : g.SameWaiting past path path') {place : Place}
    (kept : past place.node = place.node) :
    g.SameWaiting past (place :: path) (place :: path') where
  mem_iff kept' := by rw [List.mem_cons, List.mem_cons, same.mem_iff kept']
  target_mem mem left_out waits := by
    rcases List.mem_cons.1 waits with rfl | waits
    · exact absurd kept left_out
    · exact List.mem_cons_of_mem _ (same.target_mem mem left_out waits)

/-- The place of a node that is left out waits on one of the paths only. -/
theorem cons_left_out (same : g.SameWaiting past path path') {c : Connection}
    (left_out : past c.source.node ≠ c.source.node)
    (only : ∀ d ∈ g.connections, d.source = c.source → d = c) (waits : c.target ∈ path) :
    g.SameWaiting past (c.source :: path) path' where
  mem_iff {place} kept := by
    have ne : place ≠ c.source := fun e => left_out (e ▸ kept)
    rw [same.mem_iff kept, List.mem_cons, or_iff_right ne]
  target_mem {d} mem left_out' waits' := by
    refine List.mem_cons_of_mem _ ?_
    rcases List.mem_cons.1 waits' with e | waits'
    · rw [only d mem e]
      exact waits
    · exact same.target_mem mem left_out' waits'

end SameWaiting

/-- Whether the values of two graphs agree for the places on two paths.  What comes to a node that
is left out in the one graph comes from where the other graph gets it. -/
structure Agree (g other : Graph) (past : String → String) (limits : ScriptLimits)
    (path path' : List Place) : Prop where
  kept (place : Place) (kept : past place.node = place.node) :
    other.resolveFrom limits path' place = g.resolveFrom limits path place
  left_out {c : Connection} (mem : c ∈ g.connections)
    (left_out : past c.source.node ≠ c.source.node) (waits : c.target ∈ path)
    (new : c.source ∉ path) :
    other.fetch limits path' (g.origin past c.source) = g.resolveFrom limits path c.source

namespace Bypasses

variable {limits : ScriptLimits} {path path' : List Place}

/-- Connections from nodes that stay bring along the same value. -/
theorem fetch_eq (b : g.Bypasses other past) (agree : g.Agree other past limits path path')
    {source : Place} (kept : past source.node = source.node) :
    other.fetch limits path' source = g.fetch limits path source := by
  rw [fetch, fetch, b.node?_eq kept]
  cases found : g.node? source.node with
  | none => rfl
  | some node =>
    have at_node (key : Key) : other.resolveFrom limits path' ⟨node.id, key⟩ =
        g.resolveFrom limits path ⟨node.id, key⟩ := by
      refine agree.kept _ ?_
      rw [id_of_node? found]
      exact kept
    simp only [at_node]

/-- A connection to a place that waits brings along the same value. -/
theorem fetch_origin (b : g.Bypasses other past) (agree : g.Agree other past limits path path')
    {c : Connection} (mem : c ∈ g.connections) (waits : c.target ∈ path)
    (new : past c.source.node ≠ c.source.node → c.source ∉ path) :
    other.fetch limits path' (g.origin past c.source) = g.fetch limits path c.source := by
  by_cases kept : past c.source.node = c.source.node
  · rw [origin_of_kept kept]
    exact b.fetch_eq agree kept
  · obtain ⟨node, found, statement, -⟩ := (b.passedBy kept).hidden
    rw [fetch_of_isStatement found statement]
    exact agree.left_out mem kept waits (new kept)

/-- Values agree for paths on which the same places wait. -/
theorem agree (b : g.Bypasses other past) (h : g.WellFormed) (h' : other.WellFormed)
    (limits : ScriptLimits) (same : g.SameWaiting past path path') :
    g.Agree other past limits path path' := by
  induction path using path_induction g.targets generalizing path' with
  | step path ih =>
    -- a place that stays is looked up alike in both graphs; one that is left out is looked up in
    -- the first graph alone
    refine ⟨fun place kept => ?_, fun {c} mem left_out waits new => ?_⟩
    · cases found : g.node? place.node with
      | none =>
        rw [resolveFrom_of_node?_eq_none found,
          resolveFrom_of_node?_eq_none ((b.node?_eq kept).trans found)]
      | some node =>
        have found' := (b.node?_eq kept).trans found
        have source_eq := b.source_eq place kept
        -- a cycle shows in both graphs, since the same places wait
        by_cases met : place ∈ path
        · rw [resolveFrom_of_mem found met, resolveFrom_of_mem found' ((same.mem_iff kept).2 met)]
        have met' : place ∉ path' := fun waits => met ((same.mem_iff kept).1 waits)
        cases fed : g.incoming? place with
        | none =>
          rw [fed] at source_eq
          rw [resolveFrom_of_incoming?_eq_none found met fed,
            resolveFrom_of_incoming?_eq_none found' met' (Option.map_eq_none_iff.1 source_eq)]
        | some c =>
          rw [fed] at source_eq
          obtain ⟨d, fed', source⟩ := Option.map_eq_some_iff.1 source_eq
          obtain ⟨mem, rfl⟩ := h.incoming?_eq_some_iff.1 fed
          rw [h'.resolveFrom_eq_fetch met' fed', h.resolveFrom_eq_fetch met fed, source]
          have longer := ih c.target (mem_targets fed) met (same.cons kept)
          refine b.fetch_origin longer mem List.mem_cons_self fun left_out waits => ?_
          -- the place that feeds this one can only wait if this one does
          rcases List.mem_cons.1 waits with e | waits
          · exact left_out (e ▸ kept)
          · exact met (same.target_mem mem left_out waits)
    · have passed := b.passedBy left_out
      obtain ⟨d, fed, kept, origin_eq⟩ := passed.origin_eq h mem left_out
      obtain ⟨e, -, -, -, only⟩ := passed.behind
      rw [h.resolveFrom_eq_fetch new fed, origin_eq]
      refine b.fetch_eq (ih c.source (mem_targets fed) new ?_) kept
      refine same.cons_left_out left_out (fun d mem_d from_same => ?_) waits
      rw [only c mem rfl, only d mem_d (congrArg Place.node from_same)]

/-- All remaining places have the same values. -/
theorem resolve_eq (b : g.Bypasses other past) (h : g.WellFormed) (h' : other.WellFormed)
    (limits : ScriptLimits) (place : Place) (kept : past place.node = place.node) :
    other.resolve limits place = g.resolve limits place :=
  (b.agree h h' limits (.nil g past)).kept place kept

theorem view_eq (b : g.Bypasses other past) (h : g.WellFormed) (h' : other.WellFormed)
    (limits : ScriptLimits) {id : String} (kept : past id = id) :
    other.view limits id = g.view limits id :=
  funext fun key => b.resolve_eq h h' limits ⟨id, key⟩ kept

end Bypasses

/-! ### Chains -/

/-- Whether two steps give the same and report the same problems, whatever they enter. -/
def SameOutcome (α : Type) (step after : RenderM α) : Prop :=
  ∀ progress progress' : Progress, progress'.problems = progress.problems →
    (after.run progress').1 = (step.run progress).1 ∧
      (after.run progress').2.problems = (step.run progress).2.problems

namespace SameOutcome

variable {α β : Type}

theorem bind {step after : RenderM α} {next next' : α → RenderM β}
    (first : SameOutcome α step after) (second : ∀ a, SameOutcome β (next a) (next' a)) :
    SameOutcome β (step >>= next) (after >>= next') := by
  intro progress progress' problems
  obtain ⟨result, problems⟩ := first progress progress' problems
  rw [StateT.run_bind, StateT.run_bind]
  show ((next' (after.run progress').1).run (after.run progress').2).1 = _ ∧
    ((next' (after.run progress').1).run (after.run progress').2).2.problems = _
  rw [result]
  exact second _ _ _ problems

/-- Having the same outcome goes along with putting steps together. -/
theorem matches_ : Matches SameOutcome where
  pure _ _ _ problems := ⟨rfl, problems⟩
  bind := bind

theorem reject (error : GenerateError) : SameOutcome Unit (reject error) (reject error) :=
  fun _ _ problems => ⟨rfl, congrArg (error :: ·) problems⟩

theorem enter (id : String) : SameOutcome Unit (enter id) (enter id) :=
  fun _ _ problems => ⟨rfl, problems⟩

/-- That a node is entered has no outcome. -/
theorem enter_left {step after : RenderM α} (h : SameOutcome α step after) (id : String) :
    SameOutcome α (Graph.enter id >>= fun _ => step) after :=
  fun _ _ problems => h _ _ problems

end SameOutcome

section

variable {options : RenderOptions} {path path' : List String} {id : String}

/-- A hidden node has the texts of the nodes behind it. -/
theorem chain_of_hidden {node : Node} (new : id ∉ path) (found : g.node? id = some node)
    (hidden : node.visible = false) :
    g.chain options path id = enter id >>= fun _ => g.textsBehind options path id := by
  rw [chain_of_node? new found, nodeText, hidden]
  rfl

namespace Bypasses

/-- A node is written alike in both graphs if the chains behind it and inside of it are. -/
theorem sameOutcome_node (b : g.Bypasses other past) (h : g.WellFormed) (h' : other.WellFormed)
    {node : Node} (found : g.node? id = some node) (kept : past id = id)
    (next : ∀ key target, g.channel? ⟨id, key⟩ .output = some .flow →
      g.follow? ⟨id, key⟩ = some target → other.follow? ⟨id, key⟩ = some (past target) →
        SameOutcome _ (g.chain options (id :: path) target)
          (other.chain options (id :: path') (past target))) :
    SameOutcome _ (g.nodeText options path id node) (other.nodeText options path' id node) ∧
      SameOutcome _ (g.textsBehind options path id) (other.textsBehind options path' id) := by
  have law := SameOutcome.matches_
  constructor
  · rw [nodeText, nodeText]
    cases node.visible with
    | false => exact law.pure ""
    | true =>
      rw [b.view_eq h h' options.limits kept]
      show SameOutcome _ (node.command.render options _ _) (node.command.render options _ _)
      rw [← node.command.renderM_eq_render options _ (g.branchText options path id)]
      refine Command.renderM_matches law (fun error => .reject _) (fun key mem => ?_) options
      have flow : g.channel? ⟨id, key⟩ .output = some .flow := by
        rw [channel?_of_node? found]
        exact Command.channel?_of_mem_branchKeys mem .output
      have follows := b.follow?_eq kept flow
      rw [branchText, branchText, follows]
      cases target : g.follow? ⟨id, key⟩ with
      | none => exact law.pure ""
      | some target' =>
        rw [target] at follows
        exact law.map (next key target' flow target follows) _
  · have flow := channel?_flow found .output
    have follows := b.follow?_eq kept flow
    rw [textsBehind, textsBehind, follows]
    cases target : g.follow? ⟨id, .flow⟩ with
    | none => exact law.pure []
    | some target' =>
      rw [target] at follows
      exact next .flow target' flow target follows

/-- **Chains are written alike.**  If flow connections form no cycles, a chain in one graph and the
chain past left-out nodes in the other one have the same text. -/
theorem sameOutcome_chain (b : g.Bypasses other past) (h : g.WellFormed) (h' : other.WellFormed)
    (acyclic : g.FlowAcyclic) (acyclic' : other.FlowAcyclic)
    (leads : ∀ p ∈ path, TransGen g.Leads p id)
    (leads' : ∀ p ∈ path', TransGen other.Leads p (past id)) :
    SameOutcome _ (g.chain options path id) (other.chain options path' (past id)) := by
  -- the induction follows the flow of the first graph, which has an end
  induction h.acc_swap_leads acyclic id generalizing path path' with
  | intro id _ ih =>
    -- all nodes of a path lead to the node, so that the node is not on the path
    have new : id ∉ path := fun met => acyclic id (leads id met)
    have new' : past id ∉ path' := fun met => acyclic' _ (leads' _ met)
    have behind {next : String} (step : g.Leads id next) :
        ∀ p ∈ id :: path, TransGen g.Leads p next :=
      List.forall_mem_cons.2 ⟨.single step, fun p hp => .tail (leads p hp) step⟩
    by_cases kept : past id = id
    · rw [kept] at new' leads' ⊢
      cases found : g.node? id with
      | none =>
        rw [chain_of_node?_eq_none new found,
          chain_of_node?_eq_none new' ((b.node?_eq kept).trans found)]
        exact SameOutcome.matches_.pure []
      | some node =>
        have found' := (b.node?_eq kept).trans found
        have next (key : Key) (target : String) (flow : g.channel? ⟨id, key⟩ .output = some .flow)
            (follows : g.follow? ⟨id, key⟩ = some target)
            (follows' : other.follow? ⟨id, key⟩ = some (past target)) :
            SameOutcome _ (g.chain options (id :: path) target)
              (other.chain options (id :: path') (past target)) := by
          have flow' : other.channel? ⟨id, key⟩ .output = some .flow := by
            rw [channel?_of_node? found', ← channel?_of_node? found, flow]
          have step := h.leads_of_follow? flow follows
          have step' := h'.leads_of_follow? flow' follows'
          refine ih target step (behind step) (List.forall_mem_cons.2 ⟨.single step', ?_⟩)
          exact fun p hp => .tail (leads' p hp) step'
        obtain ⟨text, rest⟩ := b.sameOutcome_node h h' found kept next
        rw [chain_of_node? new found, chain_of_node? new' found']
        exact (SameOutcome.enter id).bind fun _ => text.bind fun text =>
          SameOutcome.matches_.map rest _
    · -- a node that is left out writes nothing, and the text goes on behind it
      obtain ⟨node, found, -, hidden⟩ := (b.passedBy kept).hidden
      obtain ⟨c, mem, source, past_eq, -⟩ := (b.passedBy kept).behind
      have flow := channel?_flow found .output
      have follows : g.follow? ⟨id, .flow⟩ = some c.target.node :=
        (h.follow?_eq_some_iff flow).2 ⟨c, mem, source, rfl⟩
      have step := h.leads_of_follow? flow follows
      rw [chain_of_hidden new found hidden, textsBehind, follows]
      rw [← past_eq] at leads' ⊢
      exact (ih c.target.node step (behind step) leads').enter_left id

end Bypasses

end

/-! ### The whole text -/

/-- Where flow connections form no cycle, the text consists of the chains of the roots. -/
theorem WellFormed.run_eq_of_flowAcyclic (h : g.WellFormed) (acyclic : g.FlowAcyclic)
    (options : RenderOptions) :
    g.run options =
      ("\n\n".intercalate (Render.nonEmpty
          (((g.roots.map (·.id)).mapM (g.chainText options)).run {}).1),
        (((g.roots.map (·.id)).mapM (g.chainText options)).run {}).2.problems.getLast?) := by
  have none_found : g.found options = [] := by
    refine List.eq_nil_iff_forall_not_mem.2 fun id mem => acyclic id ?_
    exact h.cycle_of_cyclicFlow (cyclicFlow_mem_problems.2 (.inl mem))
  rw [run_eq, markers_eq, problems_eq, none_found, afterChains, mapM_roots]
  simp

namespace Bypasses

/-- Chains start at the same nodes, none of which is left out. -/
theorem roots_eq (b : g.Bypasses other past) (h : g.WellFormed) (h' : other.WellFormed) :
    other.roots = g.roots ∧ ∀ node ∈ g.roots, past node.id = node.id := by
  have not_root {node : Node} (left_out : past node.id ≠ node.id) : g.isRoot node = false := by
    obtain ⟨c, mem, target, -⟩ := (b.passedBy left_out).before
    rw [h.isRoot_eq, h.incoming?_eq_some_iff.2 ⟨mem, target⟩]
    exact Bool.and_false _
  have kept {node : Node} (root : g.isRoot node = true) : past node.id = node.id := by
    by_contra left_out
    rw [not_root left_out] at root
    cases root
  refine ⟨?_, fun node mem => kept (List.mem_filter.1 mem).2⟩
  rw [roots, roots, b.nodes_eq, List.filter_filter]
  refine List.filter_congr fun node _ => ?_
  by_cases e : past node.id = node.id
  · have fed := congrArg Option.isNone (b.source_eq ⟨node.id, .flow⟩ e)
    rw [Option.isNone_map, Option.isNone_map] at fed
    rw [h.isRoot_eq, h'.isRoot_eq, fed, decide_eq_true e, Bool.and_true]
  · rw [not_root e, decide_eq_false e, Bool.and_false]

/-- **The same text.**  A graph has the same text without the nodes that are left out, and is
rejected for the same reason. -/
theorem run_eq (b : g.Bypasses other past) (h : g.WellFormed) (h' : other.WellFormed)
    (acyclic : g.FlowAcyclic) (acyclic' : other.FlowAcyclic) (options : RenderOptions) :
    other.run options = g.run options := by
  obtain ⟨roots, kept⟩ := b.roots_eq h h'
  have chains : SameOutcome _ ((g.roots.map (·.id)).mapM (g.chainText options))
      ((g.roots.map (·.id)).mapM (other.chainText options)) := by
    refine SameOutcome.matches_.mapM fun id mem => ?_
    obtain ⟨node, root, rfl⟩ := List.mem_map.1 mem
    have chain : SameOutcome _ (g.chain options [] node.id)
        (other.chain options [] (past node.id)) :=
      b.sameOutcome_chain h h' acyclic acyclic' (fun _ hp => by cases hp) fun _ hp => by cases hp
    rw [kept node root] at chain
    exact SameOutcome.matches_.map chain _
  obtain ⟨texts, problems⟩ := chains {} {} rfl
  rw [h.run_eq_of_flowAcyclic acyclic, h'.run_eq_of_flowAcyclic acyclic', roots, texts, problems]

/-- A graph has the same text without the nodes that are left out, in both ways of generating it. -/
theorem generate_eq (b : g.Bypasses other past) (h : g.WellFormed) (h' : other.WellFormed)
    (acyclic : g.FlowAcyclic) (acyclic' : other.FlowAcyclic) (options : RenderOptions) :
    other.generate options = g.generate options ∧
      other.tryGenerate options = g.tryGenerate options := by
  have run := b.run_eq h h' acyclic acyclic' options
  constructor
  · rw [generate, generate, run]
  · rw [tryGenerate, tryGenerate, run]

end Bypasses

end Graph

end CommandGraph
