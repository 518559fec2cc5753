/-
CommandGraph/Proofs/Graph/Refreshed.lean

Kept results agree with running the code.

After a refresh a node that evaluates code has only kept what its code gives when it is
run for a place that nothing waits for (`Graph.caches_refresh`).  Values are looked up
along paths of waiting places, but a run that succeeds once does not depend on the path,
so a kept result stands for the run at every place (`Graph.Regular.resolveFrom_of_caches`).
-/
import CommandGraph.Proofs.Graph.Resolution

namespace CommandGraph

namespace Graph

/-! ### What is kept -/

/-- Whether the results kept in another version of a graph are those of running the code. -/
structure Caches (limits : ScriptLimits) (g other : Graph) : Prop where
  alike : g.AlikeOffResults other
  sound {id : String} {source after : Node} (found : g.node? id = some source)
    (found_after : other.node? id = some after) (evaluates : source.isEvaluate = true) {key : Key}
    {value : Scalar} (kept : after.values[key.result]? = some value) :
    ∃ result : Datum, value = .text result.display ∧
      source.evaluateAt limits (g.view limits source.id) key = .ok (some result)

/-- Results of different keys are kept at different keys. -/
theorem result_injective {key other : Key} (h : key.result = other.result) : key = other :=
  Key.push_injective h

/-- The nodes of a graph without results have kept none. -/
theorem forgetful_forgetResults (g : Graph) : g.forgetResults.Forgetful := by
  intro node mem evaluates key
  obtain ⟨before, -, rfl⟩ := List.mem_map.1 mem
  rw [Node.forget] at evaluates ⊢
  split
  · show (before.values.keep _)[key.result]? = none
    rw [Values.getElem?_keep, if_neg (by simp [Key.marker?_result])]
  · next forwards =>
    rw [if_neg forwards] at evaluates
    exact absurd evaluates forwards

/-- A graph that has kept no result has kept no wrong one. -/
theorem Forgetful.caches {g : Graph} (h : g.Forgetful) (limits : ScriptLimits) :
    g.Caches limits g where
  alike := .refl g
  sound found found_after evaluates key value kept := by
    obtain rfl := Option.some.inj (found.symm.trans found_after)
    rw [h _ (mem_of_node? found) evaluates] at kept
    cases kept

/-! ### What a refresh keeps -/

/-- The results of a graph are those of running code in its nodes. -/
theorem exists_of_mem_results {g : Graph} {limits : ScriptLimits} {place : Place}
    {outcome : Except EvaluationError (Option Datum)} (h : (place, outcome) ∈ g.results limits) :
    ∃ node ∈ g.nodes, place.node = node.id ∧
      node.evaluateAt limits (g.view limits node.id) place.key = outcome := by
  obtain ⟨⟨node, code⟩, coded, e⟩ := List.mem_map.1 h
  obtain ⟨other, evaluating, keys⟩ := List.mem_flatMap.1 coded
  obtain ⟨_, -, same⟩ := List.mem_map.1 keys
  obtain ⟨rfl, rfl⟩ := Prod.mk.inj same
  obtain ⟨rfl, rfl⟩ := Prod.mk.inj e
  exact ⟨_, (List.mem_filter.1 evaluating).1, rfl, rfl⟩

/-- Keeping the result of a run keeps the results sound. -/
theorem Caches.keepResult {limits : ScriptLimits} {g other : Graph} (ids : g.ids.Nodup)
    (h : g.Caches limits other) {node : Node} (mem : node ∈ g.nodes) {place : Place}
    (at_node : place.node = node.id) {result : Datum}
    (run : node.evaluateAt limits (g.view limits node.id) place.key = .ok (some result)) :
    g.Caches limits (other.keepResult place result) := by
  have other_ids : other.ids.Nodup := h.alike.ids_eq.symm ▸ ids
  rw [Graph.keepResult]
  split
  · next before found_before =>
    have before_id : before.id = node.id := (id_of_node? found_before).trans at_node
    refine ⟨h.alike.trans (alikeOffResults_replace other_ids (mem_of_node? found_before)
      (before.alikeOffResults_keepResult place.key result)), ?_⟩
    intro id source after found found_after evaluates key value kept
    rw [node?_replace] at found_after
    split at found_after
    · next same_id =>
      obtain ⟨old, found_old, rfl⟩ := Option.map_eq_some_iff.1 found_after
      change id = before.id at same_id
      rw [same_id, before_id] at found
      obtain rfl := Option.some.inj ((node?_of_mem ids mem).symm.trans found)
      change (before.values.insert place.key.result _)[key.result]? = some value at kept
      -- the new result is sound by `run`; all others have been there before
      rw [Values.getElem?_insert_eq] at kept
      split at kept
      · next same_key =>
        rw [← result_injective same_key]
        exact ⟨result, (Option.some.inj kept).symm, run⟩
      · exact h.sound found (at_node ▸ found_before) evaluates kept
    · exact h.sound found found_after evaluates kept
  · exact h

/-- Keeping a result of the graph keeps the results sound. -/
theorem Caches.keepOutcome {limits : ScriptLimits} {g other : Graph} (ids : g.ids.Nodup)
    (h : g.Caches limits other) {outcome : Place × Except EvaluationError (Option Datum)}
    (mem : outcome ∈ g.results limits) : g.Caches limits (other.keepOutcome outcome) := by
  obtain ⟨place, outcome⟩ := outcome
  obtain ⟨node, mem_nodes, at_node, run⟩ := exists_of_mem_results mem
  cases outcome with
  | error error => exact h
  | ok result =>
    cases result with
    | none => exact h
    | some result => exact h.keepResult ids mem_nodes at_node run

/-- A refresh keeps what the code gives. -/
theorem caches_refresh {g : Graph} (ids : g.ids.Nodup) (limits : ScriptLimits) :
    g.forgetResults.Caches limits (g.refreshEvaluations limits).1 := by
  have forgotten_ids : g.forgetResults.ids.Nodup := g.alikeOffResults_forget.ids_eq.symm ▸ ids
  -- the invariant of the loop over the results: what has been kept so far is sound
  have kept : ∀ outcomes : List (Place × Except EvaluationError (Option Datum)),
      (∀ outcome ∈ outcomes, outcome ∈ g.forgetResults.results limits) →
        ∀ other, g.forgetResults.Caches limits other →
          g.forgetResults.Caches limits (outcomes.foldl Graph.keepOutcome other) := by
    intro outcomes
    induction outcomes with
    | nil => exact fun _ _ h => h
    | cons outcome outcomes ih =>
      intro sub other h
      exact ih (fun o mem => sub o (List.mem_cons_of_mem _ mem)) _
        (h.keepOutcome forgotten_ids (sub outcome List.mem_cons_self))
  exact kept _ (fun _ mem => mem) _ (g.forgetful_forgetResults.caches limits)

/-! ### Looking up kept results -/

theorem AlikeOffResults.incoming?_eq {g other : Graph} (h : g.AlikeOffResults other)
    (target : Place) : other.incoming? target = g.incoming? target := by
  rw [incoming?, incoming?, h.connections_eq]

theorem AlikeOffResults.targets_eq {g other : Graph} (h : g.AlikeOffResults other) :
    other.targets = g.targets := by
  rw [targets, targets, h.connections_eq]

namespace Regular

variable {g other : Graph} {limits : ScriptLimits} {path : List Place}

/-- Regularity does not depend on kept results. -/
theorem of_alikeOffResults (h : g.Regular) (alike : g.AlikeOffResults other) : other.Regular where
  wellFormed := h.wellFormed.of_alikeOffResults alike
  named node mem := by
    obtain ⟨before, mem_before, rel⟩ := alike.exists_of_mem mem
    rw [rel.command_eq]
    exact h.named before mem_before

/-- Connections do not start at kept results. -/
theorem marker?_source (h : g.Regular) {place : Place} {c : Connection}
    (fed : g.incoming? place = some c) : c.source.key.marker? ≠ some .result := by
  obtain ⟨output, input, socket, -, -⟩ := h.wellFormed.joins c (mem_of_incoming? fed)
  obtain ⟨node, found, socket⟩ := socket?_eq_some socket
  rw [h.wellFormed.sockets_eq node (mem_of_node? found)] at socket
  exact Command.marker?_of_find? socket

/-- A run that has succeeded for a place that nothing waits for succeeds everywhere. -/
theorem evaluateAt_of_view (h : g.Regular) (forgetful : g.Forgetful) {place : Place}
    {c : Connection} {source : Node} (fed : g.incoming? place = some c)
    (from_node : g.node? c.source.node = some source) (evaluates : source.isEvaluate = true)
    (ancestors : g.FeedsAll place path) {result : Option Datum}
    (run : source.evaluateAt limits (g.view limits source.id) c.source.key = .ok result) :
    source.evaluateAt limits (fun key => g.resolveFrom limits (place :: path) ⟨source.id, key⟩)
      c.source.key = .ok result := by
  have named := h.named source (mem_of_node? from_node)
  have no_targets : ∀ p ∈ ([] : List Place), p ∈ g.targets := fun p hp => by simp at hp
  have view_knows : source.Knows (g.view limits source.id) := h.knows from_node no_targets
  rw [← run]
  refine Node.evaluateAt_congr named (h.knows from_node fun _ => ancestors.mem_targets_cons fed)
    view_knows fun key reads => ?_
  -- what the run has read is within reach of a search that starts there, hence on no cycle
  obtain ⟨value, read⟩ := Node.eq_ok_of_evaluateAt named view_knows run reads
  have acc := h.acc_of_resolveFrom forgetful no_targets read
  exact h.resolveFrom_eq_resolve acc (ancestors.cons (.code fed from_node evaluates reads))

/-- What a node gives from its kept results is what it gives by running its code, if the values
that the code reads are the same. -/
theorem evaluated_of_caches (h : g.Regular) (forgetful : g.Forgetful)
    (caches : g.Caches limits other) {place : Place} {c : Connection} {source after : Node}
    (fed : g.incoming? place = some c) (from_node : g.node? c.source.node = some source)
    (from_after : other.node? c.source.node = some after) (rel : source.AlikeOffResults after)
    (evaluates : source.isEvaluate = true) (ancestors : g.FeedsAll place path)
    (same : ∀ key, source.Reads c.source.key key →
      other.resolveFrom limits (place :: path) ⟨source.id, key⟩ =
        g.resolveFrom limits (place :: path) ⟨source.id, key⟩) :
    after.evaluated limits
        (fun key => other.resolveFrom limits (place :: path) ⟨source.id, key⟩) c.source.key =
      source.evaluated limits
        (fun key => g.resolveFrom limits (place :: path) ⟨source.id, key⟩) c.source.key := by
  rw [Node.evaluated, Node.evaluated, forgetful source (mem_of_node? from_node) evaluates]
  cases kept : after.values[c.source.key.result]? with
  | some value =>
    -- what is kept comes from a run for a place that nothing waited for; it succeeds here, too
    obtain ⟨result, rfl, run⟩ := caches.sound from_node from_after evaluates kept
    rw [h.evaluateAt_of_view forgetful fed from_node evaluates ancestors run]
    rfl
  | none =>
    have waiting : ∀ p ∈ place :: path, p ∈ g.targets := fun _ => ancestors.mem_targets_cons fed
    -- nothing is kept here, so that the code is run; it reads the same values in both graphs
    have knows_after : source.Knows
        fun key => other.resolveFrom limits (place :: path) ⟨source.id, key⟩ := by
      intro key shape
      have after_knows : after.Knows
          fun key => other.resolveFrom limits (place :: path) ⟨after.id, key⟩ :=
        (h.of_alikeOffResults caches.alike).knows from_after (caches.alike.targets_eq ▸ waiting)
      have read := after_knows key (rel.command_eq ▸ shape)
      rwa [rel.id_eq, rel.values_eq key shape.marker?_ne] at read
    have run : after.evaluateAt limits
        (fun key => other.resolveFrom limits (place :: path) ⟨source.id, key⟩) c.source.key =
        source.evaluateAt limits
          (fun key => g.resolveFrom limits (place :: path) ⟨source.id, key⟩) c.source.key := by
      rw [Node.evaluateAt, rel.command_eq]
      exact Node.evaluateAt_congr (h.named source (mem_of_node? from_node)) knows_after
        (h.knows from_node waiting) same
    rw [run, rel.id_eq]

/-- Looking up values where results are kept gives what running the code gives. -/
theorem resolveFrom_of_caches (h : g.Regular) (forgetful : g.Forgetful)
    (caches : g.Caches limits other) {place : Place} (unmarked : place.key.marker? ≠ some .result)
    (ancestors : g.FeedsAll place path) :
    other.resolveFrom limits path place = g.resolveFrom limits path place := by
  -- the induction is on the targets that are not on the path yet
  induction path using path_induction g.targets generalizing place with
  | step path ih =>
    have alike := caches.alike
    cases found : g.node? place.node with
    | none =>
      rw [resolveFrom_of_node?_eq_none found,
        resolveFrom_of_node?_eq_none (alike.node?_eq_none found)]
    | some node =>
      obtain ⟨after, found_after, rel⟩ := alike.node?_eq_some found
      -- a cycle is reported by both alike
      by_cases met : place ∈ path
      · rw [resolveFrom_of_mem found met, resolveFrom_of_mem found_after met]
      have fed_alike := alike.incoming?_eq place
      cases fed : g.incoming? place with
      | none =>
        rw [fed] at fed_alike
        rw [resolveFrom_of_incoming?_eq_none found met fed,
          resolveFrom_of_incoming?_eq_none found_after met fed_alike, rel.values_eq _ unmarked]
      | some c =>
        rw [fed] at fed_alike
        obtain ⟨-, source, -, from_node⟩ := h.nodes_of_incoming? fed
        obtain ⟨source_after, from_after, source_rel⟩ := alike.node?_eq_some from_node
        -- what feeds the place is looked up with the place on the path, hence alike
        have step {p : Place} (hp : p.key.marker? ≠ some .result) (feeds : g.Feeds p place) :
            other.resolveFrom limits (place :: path) p = g.resolveFrom limits (place :: path) p :=
          ih place (mem_targets fed) met hp (ancestors.cons feeds)
        rw [resolveFrom_of_incoming? found met fed from_node,
          resolveFrom_of_incoming? found_after met fed_alike from_after,
          Node.isEvaluate, source_rel.command_eq, ← Node.isEvaluate, source_rel.id_eq]
        split
        · next evaluates =>
          refine h.evaluated_of_caches forgetful caches fed from_node from_after source_rel
            evaluates ancestors fun key reads => ?_
          exact step (reads.marker?_ne (h.marker?_source fed))
            (.code fed from_node evaluates reads)
        · next forwards =>
          exact step (h.marker?_source fed)
            (.forward fed from_node (by simpa using forwards))

end Regular

end Graph

end CommandGraph
