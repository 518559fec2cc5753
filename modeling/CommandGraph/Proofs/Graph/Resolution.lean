/-
CommandGraph/Proofs/Graph/Resolution.lean

Resolving values does not depend on how a place was reached.

`Graph.Feeds` relates a place to those whose values need it.  A place whose value is within
reach is accessible in this relation (`Graph.acc_of_resolveFrom`): the search below it has
ended without meeting a place twice.  So none of the places that it feeds lies below it,
and the search for its value takes no notice of them (`Graph.resolveFrom_eq_resolve`).

All this is about graphs without kept results, where every value is looked up.
-/
import CommandGraph.Proofs.Graph.WellFormed
import CommandGraph.Proofs.Occurrence.Bindings
import Mathlib.Logic.Relation

namespace CommandGraph

/-! ### Well-founded searches -/

/-- Induction over the paths of a search that visits each of some elements once. -/
theorem path_induction {α : Type} [DecidableEq α] (elements : List α) {P : List α → Prop}
    (step : ∀ path, (∀ a ∈ elements, a ∉ path → P (a :: path)) → P path) (path : List α) :
    P path :=
  step path fun a _ _ => path_induction elements step (a :: path)
termination_by countOpen elements path
decreasing_by exact countOpen_cons_lt ‹_› ‹_›

/-- An accessible element is on no cycle. -/
theorem not_transGen_self {α : Type} {r : α → α → Prop} {a : α} (h : Acc r a) :
    ¬ Relation.TransGen r a a := by
  have irrefl : ∀ b, Acc (Relation.TransGen r) b → ¬ Relation.TransGen r b b := by
    intro b hb
    induction hb with
    | intro b _ ih => exact fun cycle => ih b cycle cycle
  exact irrefl a h.transGen

namespace Graph

/-! ### One step of the search -/

section

variable {g : Graph} {limits : ScriptLimits} {path : List Place} {place : Place}
  {node source : Node} {c : Connection}

theorem resolveFrom_of_node?_eq_none (missing : g.node? place.node = none) :
    g.resolveFrom limits path place = .ok none := by
  rw [resolveFrom, missing]

/-- A place that waits already is a cycle. -/
theorem resolveFrom_of_mem (found : g.node? place.node = some node) (met : place ∈ path) :
    g.resolveFrom limits path place = .error (.cyclicConnection place.node place.key) := by
  rw [resolveFrom, found]
  exact dif_pos met

/-- A place that no connection ends at has the value that is stored there. -/
theorem resolveFrom_of_incoming?_eq_none (found : g.node? place.node = some node)
    (new : place ∉ path) (free : g.incoming? place = none) :
    g.resolveFrom limits path place = .ok node.values[place.key]? := by
  rw [resolveFrom, found]
  simp only [dif_neg new]
  split
  · rfl
  · next c fed =>
    rw [free] at fed
    cases fed

/-- A connection from a node that is gone counts for nothing. -/
theorem resolveFrom_of_gone (found : g.node? place.node = some node) (new : place ∉ path)
    (fed : g.incoming? place = some c) (gone : g.node? c.source.node = none) :
    g.resolveFrom limits path place = .ok node.values[place.key]? := by
  rw [resolveFrom, found]
  simp only [dif_neg new]
  split
  · rfl
  · next d fed' =>
    obtain rfl := Option.some.inj (fed.symm.trans fed')
    simp only [gone]

/-- A connection delivers what the node at its start evaluates, or the value of the place there. -/
theorem resolveFrom_of_incoming? (found : g.node? place.node = some node) (new : place ∉ path)
    (fed : g.incoming? place = some c) (from_node : g.node? c.source.node = some source) :
    g.resolveFrom limits path place =
      if source.isEvaluate then
        source.evaluated limits
          (fun key => g.resolveFrom limits (place :: path) ⟨source.id, key⟩) c.source.key
      else g.resolveFrom limits (place :: path) ⟨source.id, c.source.key⟩ := by
  rw [resolveFrom, found]
  simp only [dif_neg new]
  split
  · next free =>
    rw [fed] at free
    cases free
  · next d fed' =>
    obtain rfl := Option.some.inj (fed.symm.trans fed')
    simp only [from_node]

end

/-! ### Places that feed others -/

/-- Whether the value of a place is looked up for the value of another one. -/
inductive Feeds (g : Graph) : Place → Place → Prop
  | forward {place : Place} {c : Connection} {source : Node} (fed : g.incoming? place = some c)
    (found : g.node? c.source.node = some source) (forwards : source.isEvaluate = false) :
    Feeds g ⟨source.id, c.source.key⟩ place
  | code {place : Place} {c : Connection} {source : Node} {key : Key}
    (fed : g.incoming? place = some c) (found : g.node? c.source.node = some source)
    (evaluates : source.isEvaluate = true) (reads : source.Reads c.source.key key) :
    Feeds g ⟨source.id, key⟩ place

/-- Whether a place is needed, directly or not, by all places on a path. -/
def FeedsAll (g : Graph) (place : Place) (path : List Place) : Prop :=
  ∀ p ∈ path, Relation.TransGen g.Feeds place p

theorem Feeds.mem_targets {g : Graph} {p place : Place} (h : g.Feeds p place) :
    place ∈ g.targets := by
  cases h with
  | forward fed => exact Graph.mem_targets fed
  | code fed => exact Graph.mem_targets fed

theorem FeedsAll.mem_targets {g : Graph} {place : Place} {path : List Place}
    (h : g.FeedsAll place path) {p : Place} (hp : p ∈ path) : p ∈ g.targets := by
  rcases Relation.TransGen.tail'_iff.1 (h p hp) with ⟨q, -, feeds⟩
  exact feeds.mem_targets

/-- The places that wait while the value of a fed place is looked up. -/
theorem FeedsAll.mem_targets_cons {g : Graph} {place : Place} {path : List Place}
    (h : g.FeedsAll place path) {c : Connection} (fed : g.incoming? place = some c) {p : Place}
    (hp : p ∈ place :: path) : p ∈ g.targets := by
  rcases List.mem_cons.1 hp with rfl | hp
  · exact Graph.mem_targets fed
  · exact h.mem_targets hp

theorem feedsAll_nil (g : Graph) (place : Place) : g.FeedsAll place [] := by
  intro p hp
  simp at hp

theorem FeedsAll.cons {g : Graph} {p place : Place} {path : List Place} (h : g.FeedsAll place path)
    (feeds : g.Feeds p place) : g.FeedsAll p (place :: path) := by
  intro q hq
  rcases List.mem_cons.1 hq with rfl | hq
  · exact .single feeds
  · exact .head feeds (h q hq)

/-! ### Graphs without kept results -/

/-- What resolution is about here: well-formed graphs whose options have identifiers, so that
connections end nowhere where the shape of a node is held. -/
structure Regular (g : Graph) : Prop where
  wellFormed : g.WellFormed
  named : ∀ node ∈ g.nodes, node.command.hasNamedOptions = true

/-- Whether no node that evaluates code has kept a result. -/
def Forgetful (g : Graph) : Prop :=
  ∀ node ∈ g.nodes, node.isEvaluate = true → ∀ key : Key, node.values[key.result]? = none

namespace Regular

variable {g : Graph} {limits : ScriptLimits} {path : List Place}

/-- No connection ends at a value that decides the shape of a node. -/
theorem holdsShape_not_mem_targets (h : g.Regular) {id : String} {node : Node}
    (found : g.node? id = some node) {key : Key} (shape : node.command.HoldsShape key) :
    (⟨id, key⟩ : Place) ∉ g.targets := by
  intro mem
  obtain ⟨c, mem, e⟩ := List.mem_map.1 mem
  obtain ⟨output, input, -, socket, -⟩ := h.wellFormed.joins c mem
  rw [e, socket?_of_node? found, h.wellFormed.sockets_eq node (mem_of_node? found),
    Command.find?_eq_none_of_holdsShape shape] at socket
  cases socket

/-- Values that decide shapes are looked up in the nodes themselves. -/
theorem resolveFrom_of_holdsShape (h : g.Regular) {id : String} {node : Node}
    (found : g.node? id = some node) {key : Key} (shape : node.command.HoldsShape key)
    (sub : ∀ p ∈ path, p ∈ g.targets) :
    g.resolveFrom limits path ⟨id, key⟩ = .ok node.values[key]? := by
  have free := h.holdsShape_not_mem_targets found shape
  exact resolveFrom_of_incoming?_eq_none found (fun met => free (sub _ met))
    (incoming?_eq_none_iff.2 free)

/-- A node that is evaluated sees the values that decide its shape as they are stored. -/
theorem knows (h : g.Regular) {id : String} {node : Node} (found : g.node? id = some node)
    (sub : ∀ p ∈ path, p ∈ g.targets) :
    node.Knows fun key => g.resolveFrom limits path ⟨node.id, key⟩ := by
  intro key shape
  have found_by_id : g.node? node.id = some node := (id_of_node? found).symm ▸ found
  exact h.resolveFrom_of_holdsShape found_by_id shape sub

/-- The nodes at the ends of a connection. -/
theorem nodes_of_incoming? (h : g.Regular) {place : Place} {c : Connection}
    (fed : g.incoming? place = some c) :
    ∃ node source, g.node? place.node = some node ∧ g.node? c.source.node = some source := by
  have mem := mem_of_incoming? fed
  obtain ⟨node, found⟩ := h.wellFormed.node?_target mem
  obtain ⟨source, from_node⟩ := h.wellFormed.node?_source mem
  rw [target_of_incoming? fed] at found
  exact ⟨node, source, found, from_node⟩

/-! ### Values within reach -/

/-- A place whose value is within reach is accessible. -/
theorem acc_of_resolveFrom (h : g.Regular) (forgetful : g.Forgetful) {place : Place}
    {value : Option Scalar} (sub : ∀ p ∈ path, p ∈ g.targets)
    (ok : g.resolveFrom limits path place = .ok value) : Acc g.Feeds place := by
  -- the induction is on the targets that are not on the path yet; the path only grows by targets
  induction path using path_induction g.targets generalizing place value with
  | step path ih =>
    refine Acc.intro place fun p feeds => ?_
    have longer : ∀ q ∈ place :: path, q ∈ g.targets := by
      intro q hq
      rcases List.mem_cons.1 hq with rfl | hq
      · exact feeds.mem_targets
      · exact sub q hq
    have new {node : Node} (found : g.node? place.node = some node) : place ∉ path := by
      intro met
      rw [resolveFrom_of_mem found met] at ok
      cases ok
    cases feeds with
    | @forward _ c source fed from_node forwards =>
      obtain ⟨node, _, found, -⟩ := h.nodes_of_incoming? fed
      rw [resolveFrom_of_incoming? found (new found) fed from_node, forwards,
        if_neg Bool.false_ne_true] at ok
      exact ih place (mem_targets fed) (new found) longer ok
    | @code _ c source key fed from_node evaluates reads =>
      obtain ⟨node, _, found, -⟩ := h.nodes_of_incoming? fed
      rw [resolveFrom_of_incoming? found (new found) fed from_node, evaluates, if_pos rfl,
        Node.evaluated, forgetful source (mem_of_node? from_node) evaluates] at ok
      -- the run has succeeded, so that everything it has read is within reach
      cases run : source.evaluateAt limits
        (fun key => g.resolveFrom limits (place :: path) ⟨source.id, key⟩) c.source.key with
      | error error => cases error <;> simp [run] at ok
      | ok result =>
        obtain ⟨read, e⟩ := Node.eq_ok_of_evaluateAt (h.named source (mem_of_node? from_node))
          (h.knows from_node longer) run reads
        exact ih place (mem_targets fed) (new found) longer e

/-- The value of an accessible place does not depend on a path of places that it feeds. -/
theorem resolveFrom_eq_resolve (h : g.Regular) {place : Place} (acc : Acc g.Feeds place)
    (ancestors : g.FeedsAll place path) :
    g.resolveFrom limits path place = g.resolve limits place := by
  induction acc generalizing path with
  | intro place below ih =>
    rw [resolve]
    -- a place that waits for itself would be on a cycle
    have new : place ∉ path := fun met =>
      not_transGen_self (Acc.intro place below) (ancestors place met)
    have waiting := feedsAll_nil g place
    -- what the place needs is looked up alike, be it along the path or for the place alone
    have alike {p : Place} (feeds : g.Feeds p place) :
        g.resolveFrom limits (place :: path) p = g.resolveFrom limits [place] p := by
      rw [ih p feeds (ancestors.cons feeds), ih p feeds (waiting.cons feeds)]
    cases found : g.node? place.node with
    | none => rw [resolveFrom_of_node?_eq_none found, resolveFrom_of_node?_eq_none found]
    | some node =>
      cases fed : g.incoming? place with
      | none =>
        rw [resolveFrom_of_incoming?_eq_none found new fed,
          resolveFrom_of_incoming?_eq_none found List.not_mem_nil fed]
      | some c =>
        obtain ⟨-, source, -, from_node⟩ := h.nodes_of_incoming? fed
        rw [resolveFrom_of_incoming? found new fed from_node,
          resolveFrom_of_incoming? found List.not_mem_nil fed from_node]
        split
        · next evaluates =>
          have run : source.evaluateAt limits
              (fun key => g.resolveFrom limits (place :: path) ⟨source.id, key⟩) c.source.key =
              source.evaluateAt limits
                (fun key => g.resolveFrom limits [place] ⟨source.id, key⟩) c.source.key := by
            refine Node.evaluateAt_congr (h.named source (mem_of_node? from_node))
              (h.knows from_node fun _ => ancestors.mem_targets_cons fed)
              (h.knows from_node fun _ => waiting.mem_targets_cons fed) ?_
            intro key reads
            exact alike (.code fed from_node evaluates reads)
          rw [Node.evaluated, Node.evaluated, run]
        · next forwards =>
          exact alike (.forward fed from_node (by simpa using forwards))

end Regular

end Graph

end CommandGraph
