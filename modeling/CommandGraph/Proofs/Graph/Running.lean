/-
CommandGraph/Proofs/Graph/Running.lean

What connections from nodes that evaluate code deliver.

A resolver goes by the category of the node where a connection starts, and not by the kind of the
argument there: whatever text lies there is run.  Meanwhile the place that is resolved waits on the
path of all lookups of this run.  They come out as they do on their own as long as none of them
meets a place that waits (`Graph.MeetsCycle`):

    ¬ g.MeetsCycle limits path place  →  part ⊆ path  →
      g.resolveFrom limits part place = g.resolveFrom limits path place

(`Graph.resolveFrom_eq_of_not_meetsCycle`), since a node is evaluated from what it has looked up
alone (`Node.evaluated_congr`).  So a connection delivers the text that it starts at only if the run
of this text gives the same text back (`Graph.Edited.resolve_runs`).
-/
import CommandGraph.Proofs.Expr.RoundTrip
import CommandGraph.Proofs.Graph.Waiting
import CommandGraph.Proofs.Occurrence.Reads

namespace CommandGraph

/-! ### What is looked up for a run -/

namespace Node

/-- The keys that are looked up for what a node gives at a key, one after the other. -/
def lookups (node : Node) (limits : ScriptLimits) (source : Source) (key : Key) : List Key :=
  ((node.evaluatedM limits source.logged key).run []).2

variable {node : Node} {limits : ScriptLimits} {s t : Source} {key : Key}

/-- A run looks up what the walk reads and, if all values are within reach, the code. -/
theorem lookups_of_none (forgotten : node.values[key.result]? = none) :
    node.lookups limits s key = (node.command.walk s false).reads ++
      ((node.command.walk s false).bindings.toOption.map fun _ => key).toList := by
  have walked : (node.command.walkM s.logged false).run [] =
      pure (node.command.walk s false, (node.command.walk s false).reads) :=
    Command.run_walkM_logged node.command s false
  rw [lookups, evaluatedM, forgotten]
  simp only [evaluateAtM, StateT.run_bind, walked, pure_bind]
  cases (node.command.walk s false).bindings with
  | error error => exact (List.append_nil _).symm
  | ok bindings => rfl

/-- What a node gives depends on the values that are looked up for it alone. -/
theorem evaluated_congr (h : ∀ k ∈ node.lookups limits s key, t k = s k) :
    node.evaluated limits t key = node.evaluated limits s key := by
  rw [evaluated_eq, evaluated_eq]
  cases forgotten : node.values[key.result]? with
  | some kept => rfl
  | none =>
    rw [lookups_of_none forgotten] at h
    -- the sources agree on all that the walk reads, so that it is the same walk
    have walks : node.command.walk t false = node.command.walk s false := by
      refine Command.walk_eq_of_reads fun o ho k reads => h k (List.mem_append_left _ ?_)
      exact (Arguments.reads_perm _).mem_iff.2 (List.mem_filterMap.2 ⟨o, ho, reads⟩)
    have run : node.evaluateAt limits t key = node.evaluateAt limits s key := by
      rw [evaluateAt_eq, evaluateAt_eq, walks]
      cases bound : (node.command.walk s false).bindings with
      | error error => rfl
      | ok bindings =>
        rw [bound] at h
        exact congrArg (runCode limits bindings)
          (h key (List.mem_append_right _ (List.mem_singleton_self key)))
    rw [run]

end Node

/-! ### Lookups that meet no cycle -/

namespace Graph

/-- Whether looking up a value, while places wait, leads to a place that waits. -/
inductive MeetsCycle (g : Graph) (limits : ScriptLimits) : List Place → Place → Prop
  | again {path : List Place} {place : Place} (found : (g.node? place.node).isSome)
    (met : place ∈ path) : MeetsCycle g limits path place
  | forward {path : List Place} {place : Place} {c : Connection} {source : Node}
    (found : (g.node? place.node).isSome) (fed : g.incoming? place = some c)
    (from_node : g.node? c.source.node = some source) (forwards : source.isEvaluate = false)
    (behind : MeetsCycle g limits (place :: path) ⟨source.id, c.source.key⟩) :
    MeetsCycle g limits path place
  | code {path : List Place} {place : Place} {c : Connection} {source : Node} {key : Key}
    (found : (g.node? place.node).isSome) (fed : g.incoming? place = some c)
    (from_node : g.node? c.source.node = some source) (evaluates : source.isEvaluate = true)
    (looks : key ∈ source.lookups limits
      (fun key => g.resolveFrom limits (place :: path) ⟨source.id, key⟩) c.source.key)
    (behind : MeetsCycle g limits (place :: path) ⟨source.id, key⟩) :
    MeetsCycle g limits path place

variable {g : Graph} {limits : ScriptLimits} {path part : List Place} {place : Place}
  {c : Connection} {source : Node}

/-- A lookup meets no cycle if it ends at once. -/
theorem not_meetsCycle_of_free (free : g.incoming? place = none) (new : place ∉ path) :
    ¬ g.MeetsCycle limits path place := by
  intro h
  cases h with
  | again _ met => exact new met
  | forward _ fed | code _ fed =>
    rw [free] at fed
    cases fed

/-- A lookup meets no cycle if none starts at the node that feeds its place. -/
theorem not_meetsCycle_of_incoming? (fed : g.incoming? place = some c)
    (from_node : g.node? c.source.node = some source) (new : place ∉ path)
    (apart : ∀ key, ¬ g.MeetsCycle limits (place :: path) ⟨source.id, key⟩) :
    ¬ g.MeetsCycle limits path place := by
  intro h
  cases h with
  | again _ met => exact new met
  | forward _ fed' from_node' _ behind | code _ fed' from_node' _ _ behind =>
    obtain rfl := Option.some.inj (fed.symm.trans fed')
    obtain rfl := Option.some.inj (from_node.symm.trans from_node')
    exact apart _ behind

/-- A node that no connection leads into is seen as it is stored. -/
theorem view_of_free {id : String} {node : Node} (found : g.node? id = some node)
    (free : ∀ key, g.incoming? ⟨id, key⟩ = none) : g.view limits id = .ofValues node.values := by
  funext key
  have found_there : g.node? (⟨id, key⟩ : Place).node = some node := found
  exact resolveFrom_of_incoming?_eq_none found_there List.not_mem_nil (free key)

/-- Places that wait make no difference to a lookup that meets none of them. -/
theorem resolveFrom_eq_of_not_meetsCycle (apart : ¬ g.MeetsCycle limits path place)
    (sub : part ⊆ path) :
    g.resolveFrom limits part place = g.resolveFrom limits path place := by
  -- the longer path decides when the search has to end, and the shorter one follows it
  induction path using path_induction g.targets generalizing part place with
  | step path ih =>
    cases found : g.node? place.node with
    | none => rw [resolveFrom_of_node?_eq_none found, resolveFrom_of_node?_eq_none found]
    | some node =>
      have exists_node : (g.node? place.node).isSome := Option.isSome_of_eq_some found
      have new : place ∉ path := fun met => apart (.again exists_node met)
      have new' : place ∉ part := fun met => new (sub met)
      cases fed : g.incoming? place with
      | none =>
        rw [resolveFrom_of_incoming?_eq_none found new' fed,
          resolveFrom_of_incoming?_eq_none found new fed]
      | some c =>
        -- the place waits for whatever is looked up next, in both searches
        have next {p : Place} (apart : ¬ g.MeetsCycle limits (place :: path) p) :
            g.resolveFrom limits (place :: part) p = g.resolveFrom limits (place :: path) p :=
          ih place (mem_targets fed) new apart (List.cons_subset_cons place sub)
        cases from_node : g.node? c.source.node with
        | none =>
          rw [resolveFrom_of_gone found new' fed from_node,
            resolveFrom_of_gone found new fed from_node]
        | some source =>
          rw [resolveFrom_of_incoming? found new' fed from_node,
            resolveFrom_of_incoming? found new fed from_node]
          split
          · next evaluates =>
            refine Node.evaluated_congr fun key looks => next fun behind => apart ?_
            exact .code exists_node fed from_node evaluates looks behind
          · next forwards =>
            refine next fun behind => apart ?_
            exact .forward exists_node fed from_node (Bool.not_eq_true _ ▸ forwards) behind

/-- What a connection from a node that evaluates code delivers, if no cycle is met. -/
theorem resolve_eq_evaluated (found : (g.node? place.node).isSome)
    (fed : g.incoming? place = some c) (from_node : g.node? c.source.node = some source)
    (evaluates : source.isEvaluate = true) (apart : ¬ g.MeetsCycle limits [] place) :
    g.resolve limits place =
      source.evaluated limits (g.view limits source.id) c.source.key := by
  obtain ⟨node, exists_node⟩ := Option.isSome_iff_exists.1 found
  rw [resolve, resolveFrom_of_incoming? exists_node List.not_mem_nil fed from_node, evaluates,
    if_pos rfl]
  refine (Node.evaluated_congr fun key looks => ?_).symm
  refine resolveFrom_eq_of_not_meetsCycle (fun behind => apart ?_) (List.nil_subset [place])
  exact .code found fed from_node evaluates looks behind

end Graph

/-! ### Runs that give their text back -/

namespace Node

variable {node : Node} {limits : ScriptLimits} {source : Source} {key : Key}

/-- Whether what a node gives at a key is what lies there: the result that it has kept is the
same, or the text is the result of its own run, with the values of the node bound. -/
def GivesBack (node : Node) (limits : ScriptLimits) (source : Source) (key : Key) : Prop :=
  match node.values[key.result]? with
  | some kept => source key = .ok (some kept)
  | none =>
    match (node.command.walk source false).bindings with
    | .error error => source key = .error error
    | .ok bindings =>
      ∀ value, source key = .ok (some value) →
        (trimBlanks value.display.toList).isEmpty = false ∧
          ∃ result, evaluateText value.display bindings limits = .ok result ∧
            value = .text result.display

/-- A blank text gives no result. -/
theorem runCode_of_blank {bindings : Bindings} {value : Scalar}
    (blank : (trimBlanks value.display.toList).isEmpty = true) :
    runCode limits bindings (.ok (some value)) = .ok none := by
  rw [runCode]
  exact if_pos blank

theorem runCode_of_not_blank {bindings : Bindings} {value : Scalar}
    (code : (trimBlanks value.display.toList).isEmpty = false) :
    runCode limits bindings (.ok (some value)) =
      ((evaluateText value.display bindings limits).mapError .script).map some := by
  rw [runCode]
  exact if_neg (Bool.eq_false_iff.1 code)

/-- A run gives what lies at a key exactly if nothing lies there, or it fails to be looked up, or
it is a text that evaluates to itself. -/
theorem resultOf_runCode_eq_iff {bindings : Bindings} {code : Reading} :
    node.resultOf key (runCode limits bindings code) = code ↔
      ∀ value, code = .ok (some value) →
        (trimBlanks value.display.toList).isEmpty = false ∧
          ∃ result, evaluateText value.display bindings limits = .ok result ∧
            value = .text result.display := by
  -- a value that cannot be looked up is passed on, and so is one that is missing
  rcases code with error | code
  · refine iff_of_true rfl fun value h => ?_
    cases h
  rcases code with - | value
  · refine iff_of_true rfl fun value h => ?_
    cases h
  -- a blank text leaves no result, so that it is not given back
  cases blank : (trimBlanks value.display.toList).isEmpty with
  | true =>
    rw [runCode_of_blank blank]
    constructor
    · intro h
      cases h
    · intro h
      cases blank.symm.trans (h value rfl).1
  | false =>
    rw [runCode_of_not_blank blank]
    cases ran : evaluateText value.display bindings limits with
    | error error =>
      constructor
      · intro h
        cases h
      · intro h
        obtain ⟨-, result, e, -⟩ := h value rfl
        rw [ran] at e
        cases e
    | ok result =>
      constructor
      · intro h value' same
        obtain rfl := Option.some.inj (Except.ok.inj same)
        exact ⟨blank, result, ran, (Option.some.inj (Except.ok.inj h)).symm⟩
      · intro h
        obtain ⟨-, result', e, same⟩ := h value rfl
        rw [ran] at e
        obtain rfl := Except.ok.inj e
        rw [same]
        rfl

/-- A node gives what lies at a key exactly if it gives it back. -/
theorem evaluated_eq_iff_givesBack :
    node.evaluated limits source key = source key ↔ node.GivesBack limits source key := by
  rw [evaluated_eq, GivesBack]
  cases node.values[key.result]? with
  | some kept => exact eq_comm
  | none =>
    dsimp only
    rw [evaluateAt_eq]
    cases (node.command.walk source false).bindings with
    | error error => exact eq_comm
    | ok bindings => exact resultOf_runCode_eq_iff

end Node

namespace Graph

variable {g : Graph} {place : Place} {c : Connection} {source : Node}

/-- **Nodes that evaluate code deliver results alone.**  In an edited graph, a lookup that meets no
cycle and follows a connection from such a node gives the result that the node has kept for the key
where the connection starts, or that of running what lies there, whatever kind of argument it is.
So it gives what lies there exactly if the node gives it back. -/
theorem Edited.resolve_runs (h : Edited {} g) (fed : g.incoming? place = some c)
    (from_node : g.node? c.source.node = some source) (evaluates : source.isEvaluate = true)
    (limits : ScriptLimits) (apart : ¬ g.MeetsCycle limits [] place) :
    g.resolve limits place =
        source.evaluated limits (g.view limits source.id) c.source.key ∧
      (g.resolve limits place = g.resolve limits c.source ↔
        source.GivesBack limits (g.view limits source.id) c.source.key) := by
  have mem := mem_of_incoming? fed
  obtain ⟨node, found⟩ := h.wellFormed.node?_target mem
  rw [target_of_incoming? fed] at found
  have delivered := resolve_eq_evaluated (Option.isSome_of_eq_some found) fed from_node evaluates
    apart
  have start : g.resolve limits c.source = g.view limits source.id c.source.key := by
    rw [view, id_of_node? from_node]
  refine ⟨delivered, ?_⟩
  rw [delivered, start]
  exact Node.evaluated_eq_iff_givesBack

/-! ### A note that is run -/

/-- A sum. -/
def onePlusOne : Expr :=
  .binary .add (.literal (.number 1)) (.literal (.number 1))

/-- The sum has a value, and it is written as `2`. -/
theorem evaluateText_onePlusOne :
    ∃ result, evaluateText "1 + 1" [] {} = .ok result ∧ result.display = "2" := by
  have text : onePlusOne.display = "1 + 1" := by decide +kernel
  have read : Expr.ofText onePlusOne.display 64 = .ok onePlusOne :=
    Expr.ofText_display_of_nesting (by decide +kernel) (by decide)
  rw [text] at read
  refine ⟨.number (1 + 1), ?_, by decide +kernel⟩
  rw [evaluateText, show ({} : ScriptLimits).maxDepth = 64 from rfl, read]
  rfl

/-- Where the note is. -/
def notePlace : Place :=
  ⟨"node-1", (Key.root.ordinal 1).named "note"⟩

/-- Where the note is shown. -/
def shownPlace : Place :=
  ⟨"node-2", (Key.root.ordinal 0).named "text"⟩

/-- The note of a node that evaluates code, and a statement that shows it. -/
def shownNote : Graph :=
  ofEdits [
    .create {} {
      name := "evaluate"
      category := .evaluate
      args := [.primitive { name := some "code" } .embeddedCode none,
        .primitive { name := some "note" } .string none] } {} "evaluate",
    .create { next := 2 } {
      name := "show"
      args := [.primitive { name := some "text" } .string none] } {} "show",
    .setValue notePlace (.text "1 + 1"),
    .connect notePlace shownPlace]

theorem edited_shownNote : Edited {} shownNote :=
  .ofEdits (by simp [Edit.Allowed])

/-- The node of the note evaluates code, has kept no result, and holds the note as a text. -/
theorem node?_shownNote : ∃ source, shownNote.node? "node-1" = some source ∧
    source.isEvaluate = true ∧ source.values[notePlace.key.result]? = none ∧
    source.values[notePlace.key]? = some (.text "1 + 1") ∧
    source.command.at? notePlace.key = some (.primitive { name := some "note" } .string none) ∧
    (source.command.walk (.ofValues source.values) false).bindings = .ok [] :=
  ⟨_, rfl, rfl, rfl, rfl, rfl, rfl⟩

theorem incoming?_shownNote : shownNote.incoming? shownPlace = some ⟨notePlace, shownPlace⟩ := by
  decide +kernel

/-- No connection leads into the node of the note. -/
theorem incoming?_eq_none_shownNote (key : Key) : shownNote.incoming? ⟨"node-1", key⟩ = none := by
  have targets : shownNote.targets = [shownPlace] := by decide +kernel
  rw [incoming?_eq_none_iff, targets, List.mem_singleton]
  simp [shownPlace]

theorem not_meetsCycle_shownNote :
    ¬ shownNote.MeetsCycle {} [] notePlace ∧ ¬ shownNote.MeetsCycle {} [] shownPlace := by
  obtain ⟨source, from_node, -⟩ := node?_shownNote
  refine ⟨not_meetsCycle_of_free (incoming?_eq_none_shownNote _) List.not_mem_nil, ?_⟩
  refine not_meetsCycle_of_incoming? incoming?_shownNote from_node List.not_mem_nil fun key => ?_
  rw [id_of_node? from_node]
  exact not_meetsCycle_of_free (incoming?_eq_none_shownNote key) (by simp [shownPlace])

/-- What is shown is what the node evaluates at the key of the note. -/
theorem resolve_runs_shownNote :
    ∃ source, shownNote.node? "node-1" = some source ∧ source.isEvaluate = true ∧
      shownNote.incoming? shownPlace = some ⟨notePlace, shownPlace⟩ ∧
      ¬ shownNote.MeetsCycle {} [] shownPlace ∧
      shownNote.resolve {} shownPlace =
        source.evaluated {} (shownNote.view {} "node-1") notePlace.key ∧
      (shownNote.resolve {} shownPlace = shownNote.resolve {} notePlace ↔
        source.GivesBack {} (shownNote.view {} "node-1") notePlace.key) := by
  obtain ⟨source, found, evaluates, -⟩ := node?_shownNote
  have apart := not_meetsCycle_shownNote.2
  have runs := edited_shownNote.resolve_runs incoming?_shownNote found evaluates {} apart
  rw [id_of_node? found] at runs
  exact ⟨source, found, evaluates, incoming?_shownNote, apart, runs⟩

/-- The note is run, although it is a text and no code, and its result is shown. -/
theorem resolve_shownNote :
    Edited {} shownNote ∧ shownNote.incoming? shownPlace = some ⟨notePlace, shownPlace⟩ ∧
      (∃ source, shownNote.node? "node-1" = some source ∧ source.isEvaluate = true ∧
        source.command.at? notePlace.key =
          some (.primitive { name := some "note" } .string none)) ∧
      ¬ shownNote.MeetsCycle {} [] notePlace ∧ ¬ shownNote.MeetsCycle {} [] shownPlace ∧
      shownNote.resolve {} notePlace = .ok (some (.text "1 + 1")) ∧
      shownNote.resolve {} shownPlace = .ok (some (.text "2")) := by
  obtain ⟨source, found, evaluates, forgotten, note, argument, bindings⟩ := node?_shownNote
  obtain ⟨note_apart, shown_apart⟩ := not_meetsCycle_shownNote
  have view : shownNote.view {} "node-1" = .ofValues source.values :=
    view_of_free found incoming?_eq_none_shownNote
  refine ⟨edited_shownNote, incoming?_shownNote, ⟨source, found, evaluates, argument⟩, note_apart,
    shown_apart, ?_, ?_⟩
  · rw [← note]
    exact congrFun view notePlace.key
  · obtain ⟨result, ran, two⟩ := evaluateText_onePlusOne
    have exists_shown : (shownNote.node? shownPlace.node).isSome := by decide +kernel
    have run : Node.runCode {} [] (.ok (some (.text "1 + 1"))) = .ok (some result) := by
      rw [Node.runCode_of_not_blank (by decide +kernel), Scalar.display, ran]
      rfl
    rw [resolve_eq_evaluated exists_shown incoming?_shownNote found evaluates shown_apart,
      id_of_node? found, view, Node.evaluated_eq, forgotten]
    dsimp only
    rw [Node.evaluateAt_eq, bindings]
    dsimp only
    rw [Source.ofValues, note, run, Node.resultOf, Option.map_some, two]

end Graph

end CommandGraph
