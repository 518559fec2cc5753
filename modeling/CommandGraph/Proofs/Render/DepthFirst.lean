/-
CommandGraph/Proofs/Render/DepthFirst.lean

The search for a flow cycle, round by round.

A search goes on in a loop.  It holds its path and, in a stack of their own, the nodes that are
left to visit: those from the start, which is the only one at first, and above them the
successors of each node of the path.  In a round it takes a node from the top of the stack and
visits it, passes it over or finds it on its path; where nothing is left on top, it takes a node
off its path.  `Graph.searchRounds` is this loop, with a bound on its rounds and nothing else to
end it.

Each round leaves less to be done (`Graph.roundsLeft`): a node is visited once, and what it adds
to the stack are connections out of it, which no other node has.  So the loop ends within as many
rounds as there are nodes and connections, and four more.

What is found is a cycle of nodes that the start leads to past what has been reached before
(`Graph.FreshCycle`).  If nothing is found, no search that is cut short has left out a successor:
all successors of what has been reached anew have been reached, too (`Graph.Explored`).  So the
search has reached all that the start leads to, and nothing else (`Graph.findCycle_explores`).
-/
import CommandGraph.Proofs.Graph.Resolution
import CommandGraph.Proofs.Render.Search
import Mathlib.Data.List.Chain

namespace CommandGraph

open Relation

/-! ### Counting what is left -/

/-- What has not been visited is what remains after one more visit, and what that visit is to. -/
theorem countOpen_eq_add_count {α : Type} [DecidableEq α] {visited : List α} {a : α}
    (h : a ∉ visited) (elements : List α) :
    countOpen elements visited = countOpen elements (a :: visited) + elements.count a := by
  induction elements with
  | nil => rfl
  | cons b elements ih =>
    unfold countOpen at *
    -- either the element is the one that is visited, or it counts on both sides alike
    rcases Decidable.em (b = a) with rfl | ne
    · rw [List.countP_cons_of_pos (by simpa using h), List.countP_cons_of_neg (by simp),
        List.count_cons_self]
      omega
    · rw [List.count_cons_of_ne ne]
      by_cases hb : b ∈ visited
      · rw [List.countP_cons_of_neg (by simpa using hb), List.countP_cons_of_neg (by simp [hb])]
        exact ih
      · rw [List.countP_cons_of_pos (by simpa using hb),
          List.countP_cons_of_pos (by simp [hb, ne])]
        omega

/-- There is a round for a step after which less is left. -/
theorem exists_round {later before rounds : Nat} (less : later < before)
    (enough : before ≤ rounds) : ∃ others, rounds = others + 1 ∧ later ≤ others := by
  obtain ⟨others, rfl⟩ := Nat.exists_eq_add_one_of_ne_zero
    (Nat.ne_zero_of_lt (Nat.lt_of_lt_of_le less enough))
  exact ⟨others, rfl, Nat.le_of_lt_succ (Nat.lt_of_lt_of_le less enough)⟩

namespace Graph

/-! ### Rounds -/

/-- A search in at most so many rounds, from its path, the nodes that are left to visit and what has
been reached. -/
def searchRounds (g : Graph) :
    Nat → List String → List (List String) → List String → Option (Option String × List String)
  | 0, _, _, _ => none
  | _ + 1, _, [], reached => some (none, reached)
  | rounds + 1, path, [] :: pending, reached => g.searchRounds rounds path.tail pending reached
  | rounds + 1, path, (id :: ids) :: pending, reached =>
    if id ∈ path then some (some id, reached)
    else if id ∈ reached then g.searchRounds rounds path (ids :: pending) reached
    else
      g.searchRounds rounds (id :: path) (g.flowTargets id :: ids :: pending) (id :: reached)

/-- The nodes where connections start. -/
def sources (g : Graph) : List String :=
  g.connections.map (·.source.node)

/-- How many rounds a search has left at most: one for each frame and each successor that is left on
its stack, and one for each node and each connection of a node that has not been reached. -/
def roundsLeft (g : Graph) (stack : List Frame) (reached : List String) : Nat :=
  stackSize stack + countOpen g.ids reached + countOpen g.sources reached

section

variable {g : Graph} {stack : List Frame} {reached pending : List String} {node id : String}

/-! ### Rounds that are left -/

/-- A node has at most as many successors as connections out of it. -/
theorem length_flowTargets_le (g : Graph) (id : String) :
    (g.flowTargets id).length ≤ g.sources.count id := by
  rw [flowTargets, List.length_map, ← List.countP_eq_length_filter, sources, List.count,
    List.countP_map]
  refine List.countP_mono_left fun c _ leaving => ?_
  rw [Bool.and_eq_true, Bool.and_eq_true, decide_eq_true_eq] at leaving
  exact beq_iff_eq.2 leaving.1.1

/-- The successors of a node are on the stack from now on, while the connections to them no longer
count. -/
theorem roundsLeft_visit (new : id ∉ reached) (mem : id ∈ g.ids) :
    g.roundsLeft (⟨id, g.flowTargets id⟩ :: ⟨node, pending⟩ :: stack) (id :: reached) <
      g.roundsLeft (⟨node, id :: pending⟩ :: stack) reached := by
  have fewer : countOpen g.ids (id :: reached) < countOpen g.ids reached :=
    countOpen_cons_lt new mem
  have leaving := countOpen_eq_add_count new g.sources
  have targets := g.length_flowTargets_le id
  simp only [roundsLeft, stackSize, List.length_cons]
  omega

/-- At the start there is a round for each other node and for each connection. -/
theorem roundsLeft_start {start : String} {old : List String} (new : start ∉ old) :
    g.roundsLeft [⟨start, g.flowTargets start⟩] (start :: old) ≤
      g.nodes.length + g.connections.length + 1 := by
  have leaving := countOpen_eq_add_count new g.sources
  have targets := g.length_flowTargets_le start
  have nodes : countOpen g.ids (start :: old) ≤ g.nodes.length :=
    List.countP_le_length.trans_eq (List.length_map _)
  have connections : countOpen g.sources old ≤ g.connections.length :=
    List.countP_le_length.trans_eq (List.length_map _)
  simp only [roundsLeft, stackSize]
  omega

/-- The loop does what the search does, if it has a round for each step of it and two more to come
to its end. -/
theorem SearchRun.rounds {answer : Option String × List String}
    (run : g.SearchRun stack reached answer) {rounds : Nat}
    (enough : g.roundsLeft stack reached ≤ rounds) :
    g.searchRounds (rounds + 2) (stack.map Frame.node) (stack.map Frame.pending ++ [[]]) reached =
      some answer := by
  -- each step of the search takes one round and leaves less for those that follow
  induction run generalizing rounds with
  | done reached => rfl
  | @finish node stack reached answer _ ih =>
    have less : g.roundsLeft stack reached < g.roundsLeft (⟨node, []⟩ :: stack) reached := by
      simp only [roundsLeft, stackSize, List.length_nil]
      omega
    obtain ⟨others, rfl, fits⟩ := exists_round less enough
    exact ih fits
  | close met => exact if_pos met
  | @visit node id pending reached stack answer off_path new mem _ ih =>
    obtain ⟨others, rfl, fits⟩ := exists_round (roundsLeft_visit new mem) enough
    exact (if_neg off_path).trans ((if_neg new).trans (ih fits))
  | @skip node id pending reached stack answer off_path before _ ih =>
    have less : g.roundsLeft (⟨node, pending⟩ :: stack) reached <
        g.roundsLeft (⟨node, id :: pending⟩ :: stack) reached := by
      simp only [roundsLeft, stackSize, List.length_cons]
      omega
    obtain ⟨others, rfl, fits⟩ := exists_round less enough
    exact (if_neg off_path).trans ((if_pos before).trans (ih fits))

end

/-! ### What is reached -/

/-- What holds of what a search has reached.  The successors that it has not reached are left on its
stack. -/
structure Explored (g : Graph) (old : List String) (start : String) (stack : List Frame)
    (reached : List String) : Prop where
  led : ∀ id ∈ reached, id ∈ old ∨ ReflTransGen (g.Onward old) start id
  covered : ∀ id ∈ reached, id ∈ old ∨
    ∀ next ∈ g.flowTargets id, next ∈ reached ∨ next ∈ stack.flatMap Frame.pending

section

variable {g : Graph} {old reached : List String} {start id : String} {stack rest : List Frame}

/-- Only what has been reached is taken off the stack. -/
theorem Explored.take (h : g.Explored old start stack reached)
    (taken : ∀ next ∈ stack.flatMap Frame.pending,
      next ∈ reached ∨ next ∈ rest.flatMap Frame.pending) :
    g.Explored old start rest reached where
  led := h.led
  covered id mem := (h.covered id mem).imp_right fun covered next successor =>
    (covered next successor).elim .inl (taken next)

/-- All successors of a node that is visited are put on the stack. -/
theorem Explored.put (h : g.Explored old start stack reached)
    (led : ReflTransGen (g.Onward old) start id) :
    g.Explored old start (⟨id, g.flowTargets id⟩ :: stack) (id :: reached) where
  led other mem := by
    rcases List.mem_cons.1 mem with rfl | mem
    · exact .inr led
    · exact h.led other mem
  covered other mem := by
    rw [List.flatMap_cons]
    rcases List.mem_cons.1 mem with rfl | mem
    · exact .inr fun next successor => .inr (List.mem_append_left _ successor)
    · exact (h.covered other mem).imp_right fun covered next successor =>
        (covered next successor).imp (List.mem_cons_of_mem _) (List.mem_append_right _)

theorem explored_start (g : Graph) (old : List String) (start : String) :
    g.Explored old start [⟨start, g.flowTargets start⟩] (start :: old) := by
  refine Explored.put ⟨fun id mem => .inl mem, fun id mem => .inl mem⟩ .refl

/-- A search that finds nothing leaves nothing on its stack. -/
theorem SearchRun.explored {answer : Option String × List String}
    (run : g.SearchRun stack reached answer) (h : g.Searching old start stack reached)
    (explored : g.Explored old start stack reached) (nothing : answer.1 = none) :
    g.Explored old start [] answer.2 := by
  induction run with
  | done reached => exact explored
  | finish _ ih => exact ih h.finish (explored.take fun next mem => .inr mem) nothing
  | close met => cases nothing
  | visit _ new _ _ ih =>
    have visited := h.visit new
    refine ih visited ((explored.put (visited.led _ List.mem_cons_self)).take ?_) nothing
    intro next mem
    simp only [List.flatMap_cons, List.cons_append, List.mem_append, List.mem_cons] at mem ⊢
    tauto
  | skip off_path before _ ih =>
    refine ih (h.skip before off_path) (explored.take fun next mem => ?_) nothing
    rcases List.mem_cons.1 mem with rfl | mem
    · exact .inl before
    · exact .inr mem

/-- A search that finds nothing reaches what the start leads to past what has been reached before,
and nothing else. -/
theorem Explored.mem_iff (h : g.Explored old start [] reached) (kept : old ⊆ reached)
    (start_mem : start ∈ reached) (new : start ∉ old) :
    id ∈ reached ↔ id ∈ old ∨ ReflTransGen (g.Onward old) start id := by
  have followed (led : ReflTransGen (g.Onward old) start id) : id ∈ reached ∧ id ∉ old := by
    induction led with
    | refl => exact ⟨start_mem, new⟩
    | tail _ onward ih =>
      refine ⟨?_, onward.2⟩
      have next := (h.covered _ ih.1).resolve_left ih.2 _ onward.1
      exact next.resolve_right List.not_mem_nil
  exact ⟨h.led id, fun mem => mem.elim (kept ·) fun led => (followed led).1⟩

end

/-! ### Cycles -/

/-- Whether nodes that a start leads to past what has been reached form a cycle: flow outputs lead
from each of them to the next one, and from the last one to the first. -/
structure FreshCycle (g : Graph) (old : List String) (start id : String) (others : List String) :
    Prop where
  links : (id :: others ++ [id]).IsChain fun node next => next ∈ g.flowTargets node
  fresh : ∀ node ∈ id :: others, node ∉ old ∧ ReflTransGen (g.Onward old) start node

section

variable {g : Graph} {old others : List String} {start id : String}

theorem not_mem_of_onward (new : start ∉ old) (led : ReflTransGen (g.Onward old) start id) :
    id ∉ old := by
  rcases ReflTransGen.cases_tail led with rfl | ⟨_, -, onward⟩
  · exact new
  · exact onward.2

/-- A node that leads back to itself is on a cycle of fresh nodes. -/
theorem exists_freshCycle (new : start ∉ old) (led : ReflTransGen (g.Onward old) start id)
    (cycle : TransGen (g.Onward old) id id) : ∃ others, g.FreshCycle old start id others := by
  obtain ⟨last, around, back⟩ := TransGen.tail'_iff.1 cycle
  obtain ⟨others, links, e⟩ := List.exists_isChain_cons_of_relationReflTransGen around
  refine ⟨others, ?_, fun node mem => ?_⟩
  · refine List.isChain_append.2 ⟨links.imp fun _ _ onward => onward.1, .singleton id, ?_⟩
    rw [List.getLast?_eq_some_getLast (List.cons_ne_nil _ _), e]
    rintro _ ⟨⟩ _ ⟨⟩
    exact back.1
  · have led : ReflTransGen (g.Onward old) start node :=
      links.induction (ReflTransGen (g.Onward old) start) _ (fun _ _ onward led => led.tail onward)
        (fun _ => led) node mem
    exact ⟨not_mem_of_onward new led, led⟩

/-- The links of a fresh cycle lead from its first node back to it. -/
theorem FreshCycle.cycle (h : g.FreshCycle old start id others) :
    TransGen (g.Onward old) id id := by
  have fresh_next : ∀ node ∈ id :: others ++ [id], node ∉ old := by
    intro node mem
    rcases List.mem_append.1 mem with mem | mem
    · exact (h.fresh node mem).1
    · rw [List.mem_singleton.1 mem]
      exact (h.fresh id List.mem_cons_self).1
  have onward : (id :: others ++ [id]).IsChain (g.Onward old) :=
    h.links.imp_of_mem_imp fun _ next _ mem successor => ⟨successor, fresh_next next mem⟩
  obtain ⟨links, -, back⟩ := List.isChain_append.1 onward
  have last := List.getLast?_eq_some_getLast (List.cons_ne_nil id others)
  exact TransGen.tail'_iff.2
    ⟨_, List.relationReflTransGen_of_exists_isChain_cons others links rfl, back _ last id rfl⟩

/-- Where all ways onward from a start end, it leads to no cycle. -/
theorem Ends.not_freshCycle (ends : g.Ends old start) : ¬ g.FreshCycle old start id others := by
  intro h
  have led := (h.fresh id List.mem_cons_self).2
  exact not_transGen_self (ends.behind led) (transGen_swap.2 h.cycle)

end

/-! ### The search from a start -/

/-- **The search for a cycle is a depth-first search.**  Its loop ends, within as many rounds as the
graph has nodes and connections, and four more.  What it finds is a node on a cycle of nodes that
the start leads to past what has been reached before.  If it finds nothing, there is no such cycle,
and it has reached just what the start leads to in this way. -/
theorem findCycle_explores {g : Graph} {old : List String} {start : String} (new : start ∉ old) :
    (∀ rounds, g.nodes.length + g.connections.length + 4 ≤ rounds →
      g.searchRounds rounds [] [[start]] old = some (g.findCycle old start)) ∧
    (∀ id, (g.findCycle old start).1 = some id →
      id ∉ old ∧ ∃ others, g.FreshCycle old start id others) ∧
    ((g.findCycle old start).1 = none →
      (¬ ∃ id others, g.FreshCycle old start id others) ∧
      ∀ id, id ∈ (g.findCycle old start).2 ↔
        id ∈ old ∨ ReflTransGen (g.Onward old) start id) := by
  have run := findCycle_run (g := g) new
  have answer := findCycle_answer (g := g) new
  refine ⟨fun rounds enough => ?_, ?_⟩
  · -- the first round visits the start
    obtain ⟨rounds, rfl⟩ := Nat.exists_eq_add_of_le' (Nat.le_of_add_left_le enough)
    have left := roundsLeft_start (g := g) new
    have fits : g.roundsLeft [⟨start, g.flowTargets start⟩] (start :: old) ≤ rounds + 1 := by omega
    exact (if_neg List.not_mem_nil).trans ((if_neg new).trans (run.rounds fits))
  have explored := run.explored (searching_start new) (explored_start g old start)
  generalize g.findCycle old start = result at answer explored
  cases answer with
  | @cycle id reached kept mem led cycle =>
    refine ⟨fun found e => ?_, fun nothing => ?_⟩
    · obtain rfl := Option.some.inj e
      exact ⟨not_mem_of_onward new led, exists_freshCycle new led cycle⟩
    · cases nothing
  | @none reached kept start_mem ends =>
    have ends_start := (ends start start_mem).resolve_left new
    refine ⟨fun found e => ?_, fun _ => ⟨?_, fun id => ?_⟩⟩
    · cases e
    · exact fun ⟨_, _, cycle⟩ => ends_start.not_freshCycle cycle
    · exact (explored rfl).mem_iff kept start_mem new

/-! ### Ways that cross -/

/-- A statement with another one in its body and one behind it, which both lead to a fourth one,
from where it goes back into the body. -/
def crossing : Graph where
  nodes := [
    Node.refresh {
      id := "outer"
      name := "outer"
      command := { name := "outer", args := [.branch { name := some "body" }] }
      values := ∅
      expanded := true
      visible := true
      position := {}
      sockets := {} },
    simple "inner",
    simple "behind",
    simple "last"]
  connections := [
    ⟨⟨"outer", .flow⟩, ⟨"behind", .flow⟩⟩,
    ⟨⟨"behind", .flow⟩, ⟨"last", .flow⟩⟩,
    ⟨⟨"outer", (Key.root.ordinal 0).named "body"⟩, ⟨"inner", .flow⟩⟩,
    ⟨⟨"inner", .flow⟩, ⟨"last", .flow⟩⟩,
    ⟨⟨"last", .flow⟩, ⟨"inner", .flow⟩⟩]
where
  /-- A statement without arguments. -/
  simple (id : String) : Node :=
    { id
      name := id
      command := { name := id }
      values := ∅
      expanded := false
      visible := true
      position := {}
      sockets := {} }

/-- The cycle is found at the node where the search gets into it, but not if this node has been
reached before. -/
theorem findCycle_explores_crossing :
    ("outer" ∉ ([] : List String) ∧ (crossing.findCycle [] "outer").1 = some "last" ∧
      ∃ others, crossing.FreshCycle [] "outer" "last" others) ∧
    ("outer" ∉ ["last"] ∧ (crossing.findCycle ["last"] "outer").1 = none ∧
      (¬ ∃ id others, crossing.FreshCycle ["last"] "outer" id others) ∧
      ReflTransGen (crossing.Onward ["last"]) "outer" "inner") := by
  have rounds : crossing.nodes.length + crossing.connections.length + 4 = 13 := rfl
  have new : "outer" ∉ ([] : List String) := List.not_mem_nil
  have new_last : "outer" ∉ ["last"] := by decide
  obtain ⟨ends, found, -⟩ := crossing.findCycle_explores new
  obtain ⟨ends_last, -, nothing⟩ := crossing.findCycle_explores new_last
  have searched : crossing.searchRounds 13 [] [["outer"]] [] =
      some (some "last", ["inner", "last", "behind", "outer"]) := by decide +kernel
  have searched_last : crossing.searchRounds 13 [] [["outer"]] ["last"] =
      some (none, ["inner", "behind", "outer", "last"]) := by decide +kernel
  have e := Option.some.inj ((ends 13 rounds.le).symm.trans searched)
  have e_last := Option.some.inj ((ends_last 13 rounds.le).symm.trans searched_last)
  rw [e] at found
  rw [e_last] at nothing
  obtain ⟨none_fresh, reached⟩ := nothing rfl
  rw [e, e_last]
  have led := ((reached "inner").1 List.mem_cons_self).resolve_left (by decide)
  exact ⟨⟨new, rfl, (found "last" rfl).2⟩, new_last, rfl, none_fresh, led⟩

end Graph

end CommandGraph
