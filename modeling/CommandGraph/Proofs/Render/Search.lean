/-
CommandGraph/Proofs/Render/Search.lean

The search for a flow cycle.

The search from a node visits what is onward from it: what flow outputs lead to, unless it
has been reached before the search.  `Graph.Searching` is the invariant of its stack, which
is a path of nodes onward from each other.  A successor that is left behind does not come
up again: either it has been reached before, or all ways onward from it end, or it is the
node that is being visited right now.

So the search either ends on a cycle onward from its start, or all ways onward from what it
has visited end (`Graph.findCycle_answer`).
-/
import CommandGraph.Render.Generate
import Mathlib.Logic.Relation

namespace CommandGraph.Graph

open Relation

/-! ### Ways onward -/

/-- Whether a flow output of a node leads to one that has not been reached. -/
def Onward (g : Graph) (reached : List String) (id next : String) : Prop :=
  next ∈ g.flowTargets id ∧ next ∉ reached

/-- Whether all ways onward from a node end. -/
def Ends (g : Graph) (reached : List String) (id : String) : Prop :=
  Acc (Function.swap (g.Onward reached)) id

/-- Flow outputs lead to nodes of the graph. -/
theorem mem_ids_of_mem_flowTargets {g : Graph} {id next : String} (h : next ∈ g.flowTargets id) :
    next ∈ g.ids := by
  obtain ⟨c, kept, rfl⟩ := List.mem_map.1 h
  obtain ⟨-, kept⟩ := List.mem_filter.1 kept
  rw [Bool.and_eq_true] at kept
  obtain ⟨node, found⟩ := Option.isSome_iff_exists.1 kept.2
  exact List.mem_map.2 ⟨node, mem_of_node? found, id_of_node? found⟩

/-! ### Stacks -/

/-- Whether the successors of the nodes on a stack are left to visit or dealt with.  `above` is the
node that is visited from the top of the stack. -/
def Handled (g : Graph) (old : List String) : Option String → List Frame → Prop
  | _, [] => True
  | above, ⟨node, pending⟩ :: stack =>
    pending ⊆ g.flowTargets node ∧
      (∀ next ∈ g.flowTargets node,
        next ∈ pending ∨ next ∈ old ∨ g.Ends old next ∨ above = some next) ∧
      Handled g old (some node) stack

/-- What holds throughout a search.  `old` is what has been reached before. -/
structure Searching (g : Graph) (old : List String) (start : String) (stack : List Frame)
    (reached : List String) : Prop where
  kept : old ⊆ reached
  start_mem : start ∈ reached
  new : ∀ id ∈ stack.map Frame.node, id ∈ reached ∧ id ∉ old
  led : ∀ id ∈ stack.map Frame.node, ReflTransGen (g.Onward old) start id
  path : (stack.map Frame.node).Pairwise fun id below => TransGen (g.Onward old) below id
  handled : g.Handled old none stack
  settled : ∀ id ∈ reached, id ∈ old ∨ id ∈ stack.map Frame.node ∨ g.Ends old id

section

variable {g : Graph} {old reached : List String} {start node id : String} {pending : List String}
  {stack : List Frame}

/-- All ways onward from a node end if they do behind all of its successors. -/
theorem ends_of_forall (h : ∀ next ∈ g.flowTargets node, next ∈ old ∨ g.Ends old next) :
    g.Ends old node :=
  Acc.intro node fun _ onward => (h _ onward.1).resolve_left onward.2

/-- If all ways onward from a node end, they do so behind it. -/
theorem Ends.behind (h : g.Ends old id) {next : String}
    (led : ReflTransGen (g.Onward old) id next) : g.Ends old next := by
  induction led with
  | refl => exact h
  | tail _ step ih => exact ih.inv step

/-- A node from which all ways onward end is dealt with below it on the stack. -/
theorem Handled.of_ends (h : g.Handled old (some node) stack) (ends : g.Ends old node) :
    g.Handled old none stack := by
  cases stack with
  | nil => trivial
  | cons frame stack =>
    obtain ⟨sub, handled, below⟩ := h
    refine ⟨sub, fun next mem => ?_, below⟩
    rcases handled next mem with left | before | done | visited
    · exact .inl left
    · exact .inr (.inl before)
    · exact .inr (.inr (.inl done))
    · obtain rfl := Option.some.inj visited
      exact .inr (.inr (.inl ends))

/-- A node without successors that are left to visit is done. -/
theorem Searching.finish (h : g.Searching old start (⟨node, []⟩ :: stack) reached) :
    g.Searching old start stack reached := by
  obtain ⟨-, handled, below⟩ := h.handled
  have ends : g.Ends old node := by
    refine ends_of_forall fun next mem => ?_
    rcases handled next mem with left | before | done | visited
    · cases left
    · exact .inl before
    · exact .inr done
    · cases visited
  refine ⟨h.kept, h.start_mem, fun id mem => h.new id (List.mem_cons_of_mem _ mem),
    fun id mem => h.led id (List.mem_cons_of_mem _ mem), (List.pairwise_cons.1 h.path).2,
    below.of_ends ends, fun id mem => ?_⟩
  rcases h.settled id mem with before | on_path | done
  · exact .inl before
  · rcases List.mem_cons.1 on_path with rfl | lower
    · exact .inr (.inr ends)
    · exact .inr (.inl lower)
  · exact .inr (.inr done)

/-- A successor that is on the path closes a cycle. -/
theorem Searching.close (h : g.Searching old start (⟨node, id :: pending⟩ :: stack) reached)
    (met : id ∈ node :: stack.map Frame.node) :
    id ∈ reached ∧ ReflTransGen (g.Onward old) start id ∧ TransGen (g.Onward old) id id := by
  obtain ⟨mem_reached, new⟩ := h.new id met
  have back : g.Onward old node id := ⟨h.handled.1 List.mem_cons_self, new⟩
  refine ⟨mem_reached, h.led id met, ?_⟩
  rcases List.mem_cons.1 met with rfl | below
  · exact .single back
  · exact .tail ((List.pairwise_cons.1 h.path).1 id below) back

/-- A successor that has not been reached is visited. -/
theorem Searching.visit (h : g.Searching old start (⟨node, id :: pending⟩ :: stack) reached)
    (unreached : id ∉ reached) :
    g.Searching old start (⟨id, g.flowTargets id⟩ :: ⟨node, pending⟩ :: stack)
      (id :: reached) := by
  have fresh : id ∉ old := fun before => unreached (h.kept before)
  obtain ⟨sub, handled, below⟩ := h.handled
  have onward : g.Onward old node id := ⟨sub List.mem_cons_self, fresh⟩
  refine ⟨List.subset_cons_of_subset id h.kept, List.mem_cons_of_mem _ h.start_mem,
    fun other mem => ?_, fun other mem => ?_, List.pairwise_cons.2 ⟨fun other mem => ?_, h.path⟩,
    ⟨List.Subset.refl _, fun next mem => .inl mem,
      fun next mem => sub (List.mem_cons_of_mem _ mem), fun next mem => ?_, below⟩,
    fun other mem => ?_⟩
  · rcases List.mem_cons.1 mem with rfl | mem
    · exact ⟨List.mem_cons_self, fresh⟩
    · exact (h.new other mem).imp_left (List.mem_cons_of_mem _)
  · rcases List.mem_cons.1 mem with rfl | mem
    · exact (h.led node List.mem_cons_self).tail onward
    · exact h.led other mem
  · rcases List.mem_cons.1 mem with rfl | mem
    · exact .single onward
    · exact .tail ((List.pairwise_cons.1 h.path).1 other mem) onward
  · rcases handled next mem with left | before | done | visited
    · rcases List.mem_cons.1 left with rfl | left
      · exact .inr (.inr (.inr rfl))
      · exact .inl left
    · exact .inr (.inl before)
    · exact .inr (.inr (.inl done))
    · cases visited
  · rcases List.mem_cons.1 mem with rfl | mem
    · exact .inr (.inl List.mem_cons_self)
    · exact (h.settled other mem).imp_right (.imp_left (List.mem_cons_of_mem _))

/-- A successor that has been reached and is not on the path is passed over. -/
theorem Searching.skip (h : g.Searching old start (⟨node, id :: pending⟩ :: stack) reached)
    (mem_reached : id ∈ reached) (off_path : id ∉ node :: stack.map Frame.node) :
    g.Searching old start (⟨node, pending⟩ :: stack) reached := by
  obtain ⟨sub, handled, below⟩ := h.handled
  refine ⟨h.kept, h.start_mem, h.new, h.led, h.path,
    ⟨fun next mem => sub (List.mem_cons_of_mem _ mem), fun next mem => ?_, below⟩, h.settled⟩
  rcases handled next mem with left | before | done | visited
  · rcases List.mem_cons.1 left with rfl | left
    · exact .inr ((h.settled next mem_reached).imp_right fun other =>
        .inl (other.resolve_left off_path))
    · exact .inl left
  · exact .inr (.inl before)
  · exact .inr (.inr (.inl done))
  · cases visited

theorem searching_start (new : start ∉ old) :
    g.Searching old start [⟨start, g.flowTargets start⟩] (start :: old) := by
  refine ⟨List.subset_cons_self start old, List.mem_cons_self, fun id mem => ?_,
    fun id mem => ?_, List.pairwise_singleton _ _,
    ⟨List.Subset.refl _, fun next mem => .inl mem, trivial⟩, fun id mem => ?_⟩
  · rw [List.mem_singleton.1 mem]
    exact ⟨List.mem_cons_self, new⟩
  · rw [List.mem_singleton.1 mem]
  · rcases List.mem_cons.1 mem with rfl | mem
    · exact .inr (.inl List.mem_cons_self)
    · exact .inl mem

end

/-! ### Answers -/

/-- What a search from a node answers, and what has been reached then. -/
inductive Answer (g : Graph) (old : List String) (start : String) :
    Option String × List String → Prop
  /-- The start leads to a cycle. -/
  | cycle {id : String} {reached : List String} (kept : old ⊆ reached) (mem : id ∈ reached)
    (led : ReflTransGen (g.Onward old) start id) (cycle : TransGen (g.Onward old) id id) :
    Answer g old start (some id, reached)
  /-- All ways onward from the start end. -/
  | none {reached : List String} (kept : old ⊆ reached) (start_mem : start ∈ reached)
    (ends : ∀ id ∈ reached, id ∈ old ∨ g.Ends old id) :
    Answer g old start (Option.none, reached)

section

variable {g : Graph} {old reached : List String} {start : String} {stack : List Frame}

/-- How a search goes on from its stack to its answer. -/
inductive SearchRun (g : Graph) : List Frame → List String → Option String × List String → Prop
  | done (reached : List String) : SearchRun g [] reached (none, reached)
  | finish {node : String} {stack : List Frame} {reached : List String}
    {answer : Option String × List String} (rest : SearchRun g stack reached answer) :
    SearchRun g (⟨node, []⟩ :: stack) reached answer
  | close {node id : String} {pending reached : List String} {stack : List Frame}
    (met : id ∈ node :: stack.map Frame.node) :
    SearchRun g (⟨node, id :: pending⟩ :: stack) reached (some id, reached)
  | visit {node id : String} {pending reached : List String} {stack : List Frame}
    {answer : Option String × List String} (off_path : id ∉ node :: stack.map Frame.node)
    (new : id ∉ reached) (mem : id ∈ g.ids)
    (rest : SearchRun g (⟨id, g.flowTargets id⟩ :: ⟨node, pending⟩ :: stack) (id :: reached)
      answer) :
    SearchRun g (⟨node, id :: pending⟩ :: stack) reached answer
  | skip {node id : String} {pending reached : List String} {stack : List Frame}
    {answer : Option String × List String} (off_path : id ∉ node :: stack.map Frame.node)
    (before : id ∈ reached) (rest : SearchRun g (⟨node, pending⟩ :: stack) reached answer) :
    SearchRun g (⟨node, id :: pending⟩ :: stack) reached answer

/-! ### Runs of the search -/

/-- Whatever a search meets is a node, so that it skips nothing but what it has reached. -/
theorem Searching.run (h : g.Searching old start stack reached) :
    g.SearchRun stack reached (g.searchCycle stack reached) := by
  induction stack, reached using searchCycle.induct g with
  | case1 reached =>
    rw [searchCycle]
    exact .done reached
  | case2 reached node stack ih =>
    rw [searchCycle]
    exact .finish (ih h.finish)
  | case3 reached node id pending stack met =>
    rw [searchCycle, if_pos met]
    exact .close met
  | case4 reached node id pending stack off_path fresh ih =>
    rw [searchCycle, if_neg off_path, dif_pos fresh]
    exact .visit off_path fresh.1 fresh.2 (ih (h.visit fresh.1))
  | case5 reached node id pending stack off_path seen ih =>
    rw [searchCycle, if_neg off_path, dif_neg seen]
    -- a successor is a node, so that it can only be skipped if it has been reached
    have mem_ids := mem_ids_of_mem_flowTargets (h.handled.1 List.mem_cons_self)
    have mem_reached : id ∈ reached := Decidable.byContradiction fun new => seen ⟨new, mem_ids⟩
    exact .skip off_path mem_reached (ih (h.skip mem_reached off_path))

/-- Each run of the search answers as it should. -/
theorem SearchRun.answer {result : Option String × List String}
    (run : g.SearchRun stack reached result) (h : g.Searching old start stack reached) :
    g.Answer old start result := by
  induction run with
  | done reached =>
    refine .none h.kept h.start_mem fun id mem => ?_
    rcases h.settled id mem with before | on_path | ends
    · exact .inl before
    · cases on_path
    · exact .inr ends
  | finish _ ih => exact ih h.finish
  | close met =>
    obtain ⟨mem, led, cycle⟩ := h.close met
    exact .cycle h.kept mem led cycle
  | visit _ new _ _ ih => exact ih (h.visit new)
  | skip off_path before _ ih => exact ih (h.skip before off_path)

theorem findCycle_run (new : start ∉ old) :
    g.SearchRun [⟨start, g.flowTargets start⟩] (start :: old) (g.findCycle old start) :=
  (searching_start new).run

/-- A search from a node that has not been reached ends on a cycle onward from it, or all ways
onward from what it has visited end. -/
theorem findCycle_answer (new : start ∉ old) : g.Answer old start (g.findCycle old start) :=
  (findCycle_run new).answer (searching_start new)

end

end CommandGraph.Graph
