/-
CommandGraph/Proofs/Render/Alike.lean

The text of graphs that differ in kept results only.

If values are looked up alike in two such graphs, apart from the results themselves, then
the same nodes are walked, the same chains are followed and the same cycles are found, so
that generation gives the same text for the same reasons (`Graph.AlikeOffResults.render_eq`).
This is so for a graph without results and the one that a refresh makes of it
(`Graph.Edited.refresh_agrees`).
-/
import CommandGraph.Proofs.Graph.Refreshed
import CommandGraph.Proofs.Render.Chain

namespace CommandGraph.Graph

/-- Whether values are looked up alike in two graphs, apart from kept results. -/
def SameViews (limits : ScriptLimits) (g other : Graph) : Prop :=
  ∀ (id : String) (key : Key), key.marker? ≠ some .result →
    other.view limits id key = g.view limits id key

namespace AlikeOffResults

variable {g other : Graph}

/-! ### Flow connections -/

/-- The connections are the same, and with them all that is read off connections alone. -/
theorem outgoing_eq (h : g.AlikeOffResults other) (source : Place) :
    other.outgoing source = g.outgoing source := by
  rw [outgoing, outgoing, h.connections_eq]

theorem follow?_eq (h : g.AlikeOffResults other) (source : Place) :
    other.follow? source = g.follow? source := by
  rw [follow?, follow?, h.outgoing_eq]

theorem isSome_node?_eq (h : g.AlikeOffResults other) (id : String) :
    (other.node? id).isSome = (g.node? id).isSome := by
  cases found : g.node? id with
  | none => rw [h.node?_eq_none found]
  | some node =>
    obtain ⟨after, found_after, -⟩ := h.node?_eq_some found
    rw [found_after]
    rfl

/-- The search for cycles goes to the same nodes: whether a socket is a flow output does not depend
on kept results. -/
theorem flowTargets_eq (h : g.AlikeOffResults other) (id : String) :
    other.flowTargets id = g.flowTargets id := by
  have flows (c : Connection) : other.isFlowOutput c.source = g.isFlowOutput c.source := by
    rw [isFlowOutput, isFlowOutput]
    have sockets := h.socket?_eq c.source .output
    rw [socket?, socket?] at sockets
    exact congrArg (c.source.key = .flow || ·.any Socket.isFlow) sockets
  rw [flowTargets, flowTargets, h.connections_eq]
  refine congrArg (List.map _) (List.filter_congr fun c _ => ?_)
  rw [flows, h.isSome_node?_eq]

/-- The search takes the same rounds.  The induction is along the search in the one graph; each of
its cases is the same case of the other one. -/
theorem searchCycle_eq (h : g.AlikeOffResults other) (stack : List Frame) (reached : List String) :
    other.searchCycle stack reached = g.searchCycle stack reached := by
  induction stack, reached using searchCycle.induct g with
  | case1 reached => rw [searchCycle, searchCycle]
  | case2 reached node stack ih => rw [searchCycle, searchCycle, ih]
  | case3 reached stack node id pending met =>
    rw [searchCycle, searchCycle, if_pos met, if_pos met]
  | case4 reached stack node id pending met open_ ih =>
    rw [searchCycle, searchCycle, if_neg met, if_neg met, dif_pos open_,
      dif_pos (by rw [h.ids_eq]; exact open_), h.flowTargets_eq, ih]
  | case5 reached stack node id pending met closed ih =>
    rw [searchCycle, searchCycle, if_neg met, if_neg met, dif_neg closed,
      dif_neg (by rw [h.ids_eq]; exact closed), ih]

/-! ### Chains -/

/-- The chains are written alike, by induction along the path.  A chain is put together from what
its branches hold, from the text of its node and from what lies behind, so that these three are
compared first. -/
theorem chain_eq (h : g.AlikeOffResults other) {options : RenderOptions}
    (views : SameViews options.limits g other) (path : List String) (id : String) :
    other.chain options path id = g.chain options path id := by
  induction path using path_induction g.ids generalizing id with
  | step path ih =>
    -- a node of the path closes a cycle in both graphs, and both miss the same nodes
    by_cases met : id ∈ path
    · rw [chain_of_mem met, chain_of_mem met]
    cases found : g.node? id with
    | none =>
      rw [chain_of_node?_eq_none met found, chain_of_node?_eq_none met (h.node?_eq_none found)]
    | some node =>
      obtain ⟨after, found_after, rel⟩ := h.node?_eq_some found
      -- below the node the path is longer, so that fewer nodes are left to visit
      have deeper (target : String) :
          other.chain options (id :: path) target = g.chain options (id :: path) target := by
        exact ih id (mem_ids_of_node? found) met target
      have branches : other.branchText options path id = g.branchText options path id := by
        funext key
        rw [branchText, branchText, h.follow?_eq]
        split
        · rw [deeper]
        · rfl
      -- arguments are walked under values that are looked up, never under results that are kept
      have text : other.nodeText options path id after = g.nodeText options path id node := by
        have walks : node.command.walk (other.view options.limits id) false =
            node.command.walk (g.view options.limits id) false :=
          Command.walk_congr fun key hk => (views id key hk).symm
        rw [nodeText, nodeText, rel.visible_eq, rel.command_eq, branches, Command.render,
          Command.render, walks]
      have behind : other.textsBehind options path id = g.textsBehind options path id := by
        rw [textsBehind, textsBehind, h.follow?_eq]
        split
        · rw [deeper]
        · rfl
      rw [chain_of_node? met found, chain_of_node? met found_after, text, behind]

/-! ### The whole text -/

theorem isStatement_eq {node after : Node} (rel : node.AlikeOffResults after) :
    after.isStatement = node.isStatement := by
  rw [Node.isStatement, Node.isStatement, rel.command_eq]

theorem isRoot_eq (h : g.AlikeOffResults other) {node after : Node}
    (rel : node.AlikeOffResults after) : other.isRoot after = g.isRoot node := by
  rw [isRoot, isRoot, isStatement_eq rel, rel.id_eq, incoming?, incoming?, h.connections_eq]
  split
  · rfl
  · rw [← Option.not_isSome, ← Option.not_isSome, h.isSome_node?_eq]

/-- The roots as a list: their ids are the same, in the same order. -/
theorem roots_eq (h : g.AlikeOffResults other) :
    other.roots.map (·.id) = g.roots.map (·.id) := by
  have nodes := h.nodes
  rw [roots, roots]
  have same : ∀ {node after : Node}, node.AlikeOffResults after →
      other.isRoot after = g.isRoot node := h.isRoot_eq
  -- on the list of nodes, where the graphs in the condition have to stay as they are
  generalize g.nodes = before, other.nodes = afterwards at nodes ⊢
  induction nodes with
  | nil => rfl
  | cons first _ ih =>
    rw [List.filter_cons, List.filter_cons, same first]
    split
    · rw [List.map_cons, List.map_cons, first.id_eq, ih]
    · exact ih

/-- The markers behind the chains are the same. -/
theorem unreachedCycles_eq (h : g.AlikeOffResults other) :
    other.unreachedCycles = g.unreachedCycles := by
  -- which nodes are searched depends on what is reached so far, hence step by step
  have each {node after : Node} (rel : node.AlikeOffResults after) :
      other.unreachedCycle after = g.unreachedCycle node := by
    have search (reached : List String) :
        other.findCycle reached after.id = g.findCycle reached node.id := by
      rw [findCycle, findCycle, rel.id_eq, h.searchCycle_eq, h.flowTargets_eq]
    rw [unreachedCycle, unreachedCycle, isStatement_eq rel, rel.id_eq]
    simp only [← rel.id_eq, search]
  have all : other.nodes.mapM other.unreachedCycle = g.nodes.mapM g.unreachedCycle := by
    have nodes := h.nodes
    generalize other.unreachedCycle = f, g.unreachedCycle = f' at each ⊢
    generalize g.nodes = before, other.nodes = afterwards at nodes ⊢
    induction nodes with
    | nil => rfl
    | cons first _ ih => rw [List.mapM_cons, List.mapM_cons, each first, ih]
  rw [unreachedCycles, unreachedCycles, all]

/-- Graphs that differ in kept results only have the same text if values are looked up alike. -/
theorem render_eq (h : g.AlikeOffResults other) {options : RenderOptions}
    (views : SameViews options.limits g other) : other.render options = g.render options := by
  -- nodes that differ in kept results have the same id, and a chain starts at an id
  have chains : other.roots.mapM (fun node => other.chainText options node.id) =
      g.roots.mapM fun node => g.chainText options node.id := by
    have texts : other.chainText options = g.chainText options := by
      funext id
      rw [chainText, chainText, h.chain_eq views]
    rw [mapM_roots, mapM_roots, h.roots_eq, texts]
  rw [render, render, chains, h.unreachedCycles_eq]

end AlikeOffResults

/-! ### Refreshed graphs -/

/-- A graph that has been edited into shape is regular, as the resolution of values asks for. -/
theorem Edited.regular {g : Graph}
    (h : Edited { command := fun c => c.hasNamedOptions = true } g) : g.Regular where
  wellFormed := h.wellFormed
  named := h.command

/-- Kept results agree with running the code.  In an edited graph whose options all have
identifiers, a refresh changes neither what is looked up anywhere nor the text, compared with the
graph that has kept no results at all. -/
theorem Edited.refresh_agrees {g : Graph}
    (h : Edited { command := fun c => c.hasNamedOptions = true } g) (limits : ScriptLimits) :
    (∀ place : Place, place.key.marker? ≠ some .result →
      (g.refreshEvaluations limits).1.resolve limits place =
        g.forgetResults.resolve limits place) ∧
      ∀ options : RenderOptions, options.limits = limits →
        (g.refreshEvaluations limits).1.generate options = g.forgetResults.generate options ∧
          (g.refreshEvaluations limits).1.tryGenerate options =
            g.forgetResults.tryGenerate options := by
  have regular : g.forgetResults.Regular := h.regular.of_alikeOffResults g.alikeOffResults_forget
  have caches := caches_refresh h.wellFormed.ids_nodup limits
  have resolved : ∀ place : Place, place.key.marker? ≠ some .result →
      (g.refreshEvaluations limits).1.resolve limits place =
        g.forgetResults.resolve limits place := by
    intro place unmarked
    exact regular.resolveFrom_of_caches g.forgetful_forgetResults caches unmarked
      (feedsAll_nil _ place)
  refine ⟨resolved, ?_⟩
  rintro options rfl
  -- the text depends on the values that are looked up, none of which is a kept result
  have views : SameViews options.limits g.forgetResults
      (g.refreshEvaluations options.limits).1 := fun id key unmarked => resolved ⟨id, key⟩ unmarked
  have texts := caches.alike.render_eq views
  constructor
  · rw [generate, generate, run, run, texts]
  · rw [tryGenerate, tryGenerate, run, run, texts]

/-- A node that evaluates code, and a statement that shows the result. -/
def shownResult : Graph :=
  ofEdits [
    .create {} {
      name := "evaluate"
      category := .evaluate
      args := [.primitive { name := some "code" } .embeddedCode none] } {} "evaluate",
    .create { next := 2 } {
      name := "show"
      args := [.primitive { name := some "text" } .expression none] } {} "show",
    .setValue ⟨"node-1", (Key.root.ordinal 0).named "code"⟩ (.text "!true"),
    .connect ⟨"node-1", (Key.root.ordinal 0).named "code"⟩
      ⟨"node-2", (Key.root.ordinal 0).named "text"⟩]

theorem edited_shownResult :
    Edited { command := fun c => c.hasNamedOptions = true } shownResult :=
  .ofEdits (by simp [Edit.Allowed, Command.hasNamedOptions, Command.toGrammar,
    Grammar.hasNamedOptions, Grammar.allHaveNamedOptions, Grammar.someHasNamedOptions])

/-- A statement that shows the result of a node: the two graphs look its text up alike, and write
the same. -/
theorem refresh_agrees_shownResult :
    shownResult.connections.length = 1 ∧
      (shownResult.refreshEvaluations {}).1.resolve {}
          ⟨"node-2", (Key.root.ordinal 0).named "text"⟩ =
        shownResult.forgetResults.resolve {} ⟨"node-2", (Key.root.ordinal 0).named "text"⟩ ∧
      (shownResult.refreshEvaluations {}).1.generate {} =
        shownResult.forgetResults.generate {} := by
  obtain ⟨resolved, texts⟩ := edited_shownResult.refresh_agrees {}
  exact ⟨by decide +kernel, resolved _ (by decide), (texts {} rfl).1⟩

end CommandGraph.Graph
