/-
CommandGraph/Proofs/Graph/Hops.lean

Resolving values along chains of connections.

The value of a place is taken from the place where the first connection into it starts, and so on:
each of these steps is a hop (`Graph.hop?`), and `Graph.hops?` iterates them.  Hops do not branch,
so that a chain that comes back to a place stays among the places that it has visited
(`Graph.exists_lt_of_repeats`).

As long as no code is evaluated, a resolver waits just for the places that the chain has visited
(`Graph.resolve_eq_resolveFrom_trail`).  So it comes to the end of the chain and takes the value
there, or it comes to the first place that is visited twice and reports it
(`Graph.resolve_follows`).
-/
import CommandGraph.Proofs.Graph.Resolution

namespace CommandGraph.Graph

/-! ### Hops -/

/-- The place that the value of a place is taken from: where the first connection into it starts,
if the node is still there. -/
def hop? (g : Graph) (place : Place) : Option Place :=
  match g.incoming? place with
  | none => none
  | some c => if (g.node? c.source.node).isSome then some c.source else none

/-- The place that so many hops lead to. -/
def hops? (g : Graph) (start : Place) : Nat → Option Place
  | 0 => some start
  | n + 1 => (g.hops? start n).bind g.hop?

/-- The places that are visited in so many hops, the last one first. -/
def trail (g : Graph) (start : Place) : Nat → List Place
  | 0 => []
  | n + 1 => (g.hops? start n).toList ++ g.trail start n

/-- Whether no connection leaves a node that evaluates code. -/
def OnlyForwards (g : Graph) : Prop :=
  ∀ c ∈ g.connections, ∀ source, g.node? c.source.node = some source → source.isEvaluate = false

variable {g : Graph} {limits : ScriptLimits} {start place next : Place} {path : List Place}

/-- A hop follows the connection that feeds the place, to a node that is there. -/
theorem hop?_eq_some (h : g.hop? place = some next) :
    ∃ c source, g.incoming? place = some c ∧ c.source = next ∧ g.node? next.node = some source := by
  rw [hop?] at h
  cases fed : g.incoming? place with
  | none =>
    rw [fed] at h
    cases h
  | some c =>
    rw [fed] at h
    dsimp only at h
    split at h
    · next found =>
      obtain ⟨source, found⟩ := Option.isSome_iff_exists.1 found
      obtain rfl := Option.some.inj h
      exact ⟨c, source, rfl, rfl, found⟩
    · cases h

theorem mem_targets_of_hop? (h : g.hop? place = some next) : place ∈ g.targets := by
  obtain ⟨c, -, fed, -⟩ := hop?_eq_some h
  exact mem_targets fed

/-- A hop takes a resolver to the next place. -/
theorem resolveFrom_of_hop? (forwards : g.OnlyForwards) {node : Node}
    (found : g.node? place.node = some node) (new : place ∉ path) (h : g.hop? place = some next) :
    g.resolveFrom limits path place = g.resolveFrom limits (place :: path) next := by
  obtain ⟨c, source, fed, rfl, from_node⟩ := hop?_eq_some h
  rw [resolveFrom_of_incoming? found new fed from_node,
    forwards c (mem_of_incoming? fed) source from_node, if_neg Bool.false_ne_true,
    id_of_node? from_node]

/-- Where there is no further hop, a resolver takes the value of the node itself. -/
theorem resolveFrom_of_hop?_eq_none {node : Node} (found : g.node? place.node = some node)
    (new : place ∉ path) (h : g.hop? place = none) :
    g.resolveFrom limits path place = .ok node.values[place.key]? := by
  rw [hop?] at h
  cases fed : g.incoming? place with
  | none => exact resolveFrom_of_incoming?_eq_none found new fed
  | some c =>
    rw [fed] at h
    dsimp only at h
    split at h
    · cases h
    · next gone => exact resolveFrom_of_gone found new fed (Option.not_isSome_iff_eq_none.1 gone)

/-! ### Chains -/

theorem hops?_congr {i j : Nat} (h : g.hops? start i = g.hops? start j) (k : Nat) :
    g.hops? start (i + k) = g.hops? start (j + k) := by
  induction k with
  | zero => exact h
  | succ k ih =>
    rw [← Nat.add_assoc, ← Nat.add_assoc, hops?, hops?, ih]

/-- A chain that gets somewhere has been somewhere after every number of hops before that. -/
theorem isSome_hops?_of_le {m n : Nat} (le : m ≤ n) (h : (g.hops? start n).isSome) :
    (g.hops? start m).isSome := by
  induction le with
  | refl => exact h
  | step _ ih =>
    apply ih
    rw [hops?] at h
    obtain ⟨last, e⟩ := Option.isSome_iff_exists.1 h
    obtain ⟨place, e, -⟩ := Option.bind_eq_some_iff.1 e
    rw [e]
    rfl

/-- A chain that comes back to a place goes on with what it has visited before. -/
theorem exists_lt_of_repeats {i j : Nat} (lt : i < j) (h : g.hops? start i = g.hops? start j)
    (n : Nat) (le : i ≤ n) : ∃ m, i ≤ m ∧ m < j ∧ g.hops? start n = g.hops? start m := by
  induction n using Nat.strongRecOn with
  | ind n ih =>
    by_cases before : n < j
    · exact ⟨n, le, before, rfl⟩
    · obtain ⟨k, rfl⟩ := Nat.exists_eq_add_of_le (Nat.le_of_not_lt before)
      obtain ⟨m, le', lt', e⟩ := ih (i + k) (by omega) (Nat.le_add_right i k)
      exact ⟨m, le', lt', (hops?_congr h k).symm.trans e⟩

/-- A trail holds the places that have been visited in fewer hops. -/
theorem mem_trail {n : Nat} : place ∈ g.trail start n ↔ ∃ i < n, g.hops? start i = some place := by
  induction n with
  | zero => simp only [trail, List.not_mem_nil, Nat.not_lt_zero, false_and, exists_false]
  | succ n ih =>
    rw [trail, List.mem_append, Option.mem_toList, ih]
    constructor
    · rintro (here | ⟨i, lt, before⟩)
      · exact ⟨n, Nat.lt_succ_self n, here⟩
      · exact ⟨i, Nat.lt_succ_of_lt lt, before⟩
    · rintro ⟨i, lt, e⟩
      rcases Nat.lt_succ_iff_lt_or_eq.1 lt with before | rfl
      · exact .inr ⟨i, before, e⟩
      · exact .inl e

/-! ### Chains without repetition -/

/-- Whether the places that are visited in so many hops differ. -/
def Fresh (g : Graph) (start : Place) (n : Nat) : Prop :=
  ∀ i j, i < j → j < n → g.hops? start i ≠ g.hops? start j

theorem fresh_zero (g : Graph) (start : Place) : g.Fresh start 0 :=
  fun _ _ _ lt => absurd lt (Nat.not_lt_zero _)

theorem Fresh.mono {m n : Nat} (h : g.Fresh start n) (le : m ≤ n) : g.Fresh start m :=
  fun i j lt lt' => h i j lt (Nat.lt_of_lt_of_le lt' le)

/-- A place that is not on the trail makes the chain longer without repetition. -/
theorem Fresh.succ {n : Nat} (h : g.Fresh start n) (reached : g.hops? start n = some place)
    (new : place ∉ g.trail start n) : g.Fresh start (n + 1) := by
  intro i j lt lt'
  rcases Nat.lt_succ_iff_lt_or_eq.1 lt' with before | rfl
  · exact h i j lt before
  · intro e
    exact new (mem_trail.2 ⟨i, lt, e.trans reached⟩)

/-- In a chain without repetition a place is not among those visited before it. -/
theorem Fresh.not_mem_trail {m n : Nat} (h : g.Fresh start n) (lt : m < n)
    (reached : g.hops? start m = some place) : place ∉ g.trail start m := by
  intro mem
  obtain ⟨i, lt', e⟩ := mem_trail.1 mem
  exact h i m lt' lt (e.trans reached.symm)

/-- A chain that starts at a node visits nodes alone. -/
theorem exists_node_of_hops? (exists_start : (g.node? start.node).isSome) {n : Nat}
    (reached : g.hops? start n = some place) : ∃ node, g.node? place.node = some node := by
  cases n with
  | zero =>
    obtain rfl := Option.some.inj reached
    exact Option.isSome_iff_exists.1 exists_start
  | succ n =>
    obtain ⟨_, -, hop⟩ := Option.bind_eq_some_iff.1 reached
    obtain ⟨_, source, -, -, found⟩ := hop?_eq_some hop
    exact ⟨source, found⟩

/-- A resolver follows a chain as long as it visits other places. -/
theorem resolve_eq_resolveFrom_trail (forwards : g.OnlyForwards)
    (exists_start : (g.node? start.node).isSome) {n : Nat} (fresh : g.Fresh start n)
    (reached : g.hops? start n = some place) :
    g.resolve limits start = g.resolveFrom limits (g.trail start n) place := by
  induction n generalizing place with
  | zero =>
    obtain rfl := Option.some.inj reached
    rfl
  | succ n ih =>
    obtain ⟨last, before, hop⟩ := Option.bind_eq_some_iff.1 reached
    obtain ⟨node, found⟩ := exists_node_of_hops? exists_start before
    have new := fresh.not_mem_trail (Nat.lt_succ_self n) before
    rw [ih (fresh.mono (Nat.le_succ n)) before, resolveFrom_of_hop? forwards found new hop, trail,
      before]
    rfl

/-- A chain ends, or comes to a place that it has visited. -/
theorem exists_stop {n : Nat} (fresh : g.Fresh start n) (reached : g.hops? start n = some place) :
    ∃ m last, g.Fresh start m ∧ g.hops? start m = some last ∧
      (last ∈ g.trail start m ∨ g.hop? last = none) := by
  generalize e : g.trail start n = path
  -- there are few targets, so that a chain that goes on to new ones has to stop at some time
  induction path using path_induction g.targets generalizing n place with
  | step path ih =>
    by_cases met : place ∈ path
    · exact ⟨n, place, fresh, reached, .inl (e ▸ met)⟩
    · cases hop : g.hop? place with
      | none => exact ⟨n, place, fresh, reached, .inr hop⟩
      | some next =>
        have longer : g.trail start (n + 1) = place :: path := by
          rw [trail, reached, e]
          rfl
        have goes_on : g.hops? start (n + 1) = some next := by
          rw [hops?, reached, Option.bind_some, hop]
        exact ih place (mem_targets_of_hop? hop) met (fresh.succ reached (e ▸ met)) goes_on longer

/-! ### Where a chain stops -/

/-- Whether a place is the first one of a chain that is visited twice: the chain comes back to it
before it comes back to any other place, and to what lies before it the chain never comes back. -/
def IsFirstTwice (g : Graph) (start met : Place) : Prop :=
  ∃ first again, first < again ∧ g.hops? start first = some met ∧
    g.hops? start again = some met ∧ g.Fresh start again ∧
    ∀ i < first, ∀ j, i < j → g.hops? start j ≠ g.hops? start i

/-- Whether a chain ends at a place. -/
def EndsAt (g : Graph) (start last : Place) : Prop :=
  ∃ n, g.hops? start n = some last ∧ g.hop? last = none

/-- A chain that comes back to a place does not end. -/
theorem not_endsAt_of_repeats {i j : Nat} (lt : i < j) (h : g.hops? start i = g.hops? start j)
    (reached : (g.hops? start j).isSome) (last : Place) : ¬ g.EndsAt start last := by
  rintro ⟨n, reached_last, ended⟩
  have not_before (m : Nat) (e : g.hops? start m = some last) : ¬ m < j := by
    intro before
    have goes_on := isSome_hops?_of_le (Nat.succ_le_of_lt before) reached
    rw [hops?, e, Option.bind_some, ended] at goes_on
    cases goes_on
  have behind := Nat.le_of_not_lt (not_before n reached_last)
  obtain ⟨m, -, before, e⟩ := exists_lt_of_repeats lt h n (Nat.le_trans (Nat.le_of_lt lt) behind)
  exact not_before m (e.symm.trans reached_last) before

/-- A chain that ends repeats no place. -/
theorem fresh_of_endsAt {last : Place} {n : Nat} (reached : g.hops? start n = some last)
    (ended : g.hop? last = none) : g.Fresh start (n + 1) := by
  intro i j lt lt' repeats
  have reached_again :=
    isSome_hops?_of_le (Nat.le_of_lt_succ lt') (Option.isSome_of_eq_some reached)
  exact not_endsAt_of_repeats lt repeats reached_again last ⟨n, reached, ended⟩

/-- The place at which a chain without repetition comes back to its trail is the first one visited
twice. -/
theorem isFirstTwice_of_mem_trail {n : Nat} (fresh : g.Fresh start n)
    (reached : g.hops? start n = some place) (met : place ∈ g.trail start n) :
    g.IsFirstTwice start place := by
  obtain ⟨first, lt, e⟩ := mem_trail.1 met
  have repeats : g.hops? start first = g.hops? start n := e.trans reached.symm
  refine ⟨first, n, lt, e, reached, fresh, ?_⟩
  intro i before j behind same
  -- from the first visit on, the chain stays among the places that follow this visit
  by_cases le : first ≤ j
  · obtain ⟨m, le', lt', e'⟩ := exists_lt_of_repeats lt repeats j le
    exact fresh i m (Nat.lt_of_lt_of_le before le') lt' (same.symm.trans e')
  · exact fresh i j behind (Nat.lt_trans (Nat.lt_of_not_le le) lt) same.symm

/-- **Resolution follows the chain.**  Where no code is evaluated, the value of a place is that of
the node at which its chain ends.  If the chain does not end, it is an error that names the first
place that is visited twice. -/
theorem resolve_follows (forwards : g.OnlyForwards) (limits : ScriptLimits) (start : Place) :
    (g.node? start.node = none → g.resolve limits start = .ok none) ∧
      ((g.node? start.node).isSome →
        (∀ last, g.EndsAt start last → ∃ node, g.node? last.node = some node ∧
          g.resolve limits start = .ok node.values[last.key]?) ∧
        ((∀ last, ¬ g.EndsAt start last) → ∃ met, g.IsFirstTwice start met ∧
          g.resolve limits start = .error (.cyclicConnection met.node met.key))) := by
  refine ⟨fun missing => resolveFrom_of_node?_eq_none missing, fun exists_start => ⟨?_, ?_⟩⟩
  · rintro last ⟨n, reached, ended⟩
    have fresh := fresh_of_endsAt reached ended
    obtain ⟨node, found⟩ := exists_node_of_hops? exists_start reached
    refine ⟨node, found, ?_⟩
    rw [resolve_eq_resolveFrom_trail forwards exists_start (fresh.mono (Nat.le_succ n)) reached]
    exact resolveFrom_of_hop?_eq_none found (fresh.not_mem_trail (Nat.lt_succ_self n) reached) ended
  · intro endless
    -- the chain stops somewhere, and as it does not end, it does so at a place that it has visited
    obtain ⟨n, met, fresh, reached, again | ended⟩ := exists_stop (g.fresh_zero start) rfl
    · obtain ⟨node, found⟩ := exists_node_of_hops? exists_start reached
      refine ⟨met, isFirstTwice_of_mem_trail fresh reached again, ?_⟩
      rw [resolve_eq_resolveFrom_trail forwards exists_start fresh reached]
      exact resolveFrom_of_mem found again
    · exact absurd ⟨n, reached, ended⟩ (endless met)

/-! ### A loop with a tail -/

/-- A loop of two places, a place that leads into it, and one that is fed by a node that is gone. -/
def tailedLoop : Graph where
  nodes := ["a", "b", "c", "d", "e"].map fun id =>
    { id
      name := id
      command := { name := "keep", category := .data, args := [.primitive {} .value none] }
      values := (∅ : Values).insert .root (.text id)
      expanded := true
      visible := true
      position := {}
      sockets := {} }
  connections := [
    ⟨⟨"b", .root⟩, ⟨"a", .root⟩⟩, ⟨⟨"c", .root⟩, ⟨"b", .root⟩⟩, ⟨⟨"b", .root⟩, ⟨"c", .root⟩⟩,
    ⟨⟨"d", .root⟩, ⟨"b", .root⟩⟩, ⟨⟨"gone", .root⟩, ⟨"d", .root⟩⟩, ⟨⟨"d", .root⟩, ⟨"e", .root⟩⟩]

/-- One chain ends, one runs into the loop, and one starts at a node that is not there. -/
theorem resolve_follows_tailedLoop :
    tailedLoop.OnlyForwards ∧ tailedLoop.EndsAt ⟨"e", .root⟩ ⟨"d", .root⟩ ∧
      tailedLoop.resolve {} ⟨"e", .root⟩ = .ok (some (.text "d")) ∧
      tailedLoop.resolve {} ⟨"a", .root⟩ = .error (.cyclicConnection "b" .root) ∧
      tailedLoop.resolve {} ⟨"gone", .root⟩ = .ok none := by
  have all_forward : ∀ node ∈ tailedLoop.nodes, node.isEvaluate = false := by decide +kernel
  have forwards : tailedLoop.OnlyForwards :=
    fun _ _ source found => all_forward source (mem_of_node? found)
  have follows := tailedLoop.resolve_follows forwards {}
  have ends : tailedLoop.EndsAt ⟨"e", .root⟩ ⟨"d", .root⟩ :=
    ⟨1, by decide +kernel, by decide +kernel⟩
  have repeats : tailedLoop.hops? ⟨"a", .root⟩ 1 = tailedLoop.hops? ⟨"a", .root⟩ 3 := by
    decide +kernel
  have endless := not_endsAt_of_repeats (by decide) repeats (by decide +kernel)
  refine ⟨forwards, ends, ?_, ?_, (follows ⟨"gone", .root⟩).1 (by decide +kernel)⟩
  · obtain ⟨node, found, resolved⟩ := ((follows ⟨"e", .root⟩).2 (by decide +kernel)).1 _ ends
    have value : (tailedLoop.node? "d").bind (·.values[Key.root]?) = some (.text "d") := by
      decide +kernel
    rw [found] at value
    rw [resolved]
    exact congrArg Except.ok value
  · obtain ⟨met, ⟨first, again, lt, reached, reached_again, fresh, -⟩, resolved⟩ :=
      ((follows ⟨"a", .root⟩).2 (by decide +kernel)).2 endless
    -- the first place that is visited twice, the entry of the loop, shows within three hops
    have few : again ≤ 3 := Nat.le_of_not_lt fun more => fresh 1 3 (by decide) more repeats
    have entry : ∀ n ≤ 3, ∀ m < n,
        tailedLoop.hops? ⟨"a", .root⟩ m = tailedLoop.hops? ⟨"a", .root⟩ n →
          tailedLoop.hops? ⟨"a", .root⟩ m = some ⟨"b", .root⟩ := by
      decide +kernel
    have same := entry again few first lt (reached.trans reached_again.symm)
    obtain rfl := Option.some.inj (reached.symm.trans same)
    exact resolved

end CommandGraph.Graph
