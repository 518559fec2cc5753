/-
CommandGraph/Proofs/Render/Texts.lean

The texts of statements, whatever has been noted.

Generation notes the nodes that it enters and the reasons to reject the graph, but the text of a
chain depends on none of these notes (`Graph.gives_chain`).  So a chain has texts of its own
(`Graph.texts`): one for each statement that writes something, in which the texts of the chains in
its branches stand (`Graph.texts_of_node?`).  The text of a graph is put together from those of
the chains of its roots (`Graph.generate_eq_intercalate`).
-/
import CommandGraph.Proofs.Render.Cycles
import CommandGraph.Proofs.Render.Effects

namespace CommandGraph

open Relation

/-! ### Steps that do not depend on notes -/

/-- Whether a step gives a value, whatever has been noted. -/
def Gives {α : Type} (value : α) (step : RenderM α) : Prop :=
  ∀ progress, (step.run progress).1 = value

namespace Gives

variable {α β : Type} {value : α} {result : β} {step : RenderM α} {next : α → RenderM β}

theorem pure (value : α) : Gives value (Pure.pure value) :=
  fun _ => rfl

theorem bind (first : Gives value step) (second : Gives result (next value)) :
    Gives result (step >>= next) := by
  intro progress
  show ((next (step.run progress).1).run (step.run progress).2).1 = result
  rw [first progress]
  exact second _

/-- Giving values goes along with putting steps together. -/
theorem matches_ :
    Matches fun (α : Type) (value : Id α) (step : RenderM α) => Gives value step where
  pure := .pure
  bind first second := first.bind (second _)

theorem mapM {values : α → β} {steps : α → RenderM β} (h : ∀ a, Gives (values a) (steps a))
    (as : List α) : Gives (as.map values) (as.mapM steps) := by
  induction as with
  | nil => exact .pure []
  | cons a as ih =>
    rw [List.mapM_cons]
    exact (h a).bind (ih.bind (.pure _))

end Gives

/-! ### The text of a statement -/

/-- The text of a statement whose branches hold the given texts. -/
def Command.text (c : Command) (options : RenderOptions) (source : Source) (held : Key → String) :
    String :=
  Id.run (c.renderM options source (fun _ => pure ()) fun key => pure (held key))

/-- A statement gives its text if its branches give theirs. -/
theorem Command.gives_render {c : Command} {source : Source} {held : Key → String}
    {branch : Key → RenderM String}
    (branches : ∀ key ∈ Occurrence.branchKeys (c.walk source false).all,
      Gives (held key) (branch key)) (options : RenderOptions) :
    Gives (c.text options source held) (c.render options source branch) :=
  renderM_matches Gives.matches_ (fun _ _ => rfl) branches options

/-- The text of a statement depends on what its branches hold alone. -/
theorem Command.text_congr {c : Command} {source : Source} {held other : Key → String}
    (same : ∀ key ∈ Occurrence.branchKeys (c.walk source false).all, held key = other key)
    (options : RenderOptions) : c.text options source held = c.text options source other := by
  have given : Gives (c.text options source held)
      (c.render options source fun key => pure (other key)) := by
    refine gives_render (fun key mem => ?_) options
    rw [same key mem]
    exact .pure _
  exact (given {}).symm.trans (gives_render (fun _ _ => .pure _) options {})

namespace Graph

section

variable (g : Graph) (options : RenderOptions) (path : List String) (id : String)

/-! ### The texts of a chain -/

/-- The texts of the statements in a chain. -/
def texts : List String :=
  ((g.chain options path id).run {}).1

/-- What the branch at a key of a node holds. -/
def heldText (key : Key) : String :=
  (g.follow? ⟨id, key⟩).elim "" fun target => "\n".intercalate (g.texts options (id :: path) target)

/-- The text of a node with what its branches hold; hidden nodes have none. -/
def statementText (node : Node) : String :=
  if node.visible then
    node.command.text options (g.view options.limits id) (g.heldText options path id)
  else ""

/-- The texts of the statements behind a node. -/
def laterTexts : List String :=
  (g.follow? ⟨id, .flow⟩).elim [] (g.texts options (id :: path))

end

variable {g : Graph} {options : RenderOptions} {path : List String} {id : String}

/-- A chain gives the text of its first node and those behind it, if the chains that it goes on with
give theirs. -/
theorem gives_chain_of_node? {node : Node} (new : id ∉ path) (found : g.node? id = some node)
    (deeper : ∀ target,
      Gives (g.texts options (id :: path) target) (g.chain options (id :: path) target)) :
    Gives
      (if (g.statementText options path id node).isEmpty then g.laterTexts options path id
        else g.statementText options path id node :: g.laterTexts options path id)
      (g.chain options path id) := by
  have branches (key : Key) :
      Gives (g.heldText options path id key) (g.branchText options path id key) := by
    rw [heldText, branchText]
    cases g.follow? ⟨id, key⟩ with
    | none => exact .pure _
    | some target => exact (deeper target).bind (.pure _)
  have statement :
      Gives (g.statementText options path id node) (g.nodeText options path id node) := by
    rw [statementText, nodeText]
    cases node.visible with
    | true => exact Command.gives_render (fun key _ => branches key) options
    | false => exact .pure _
  have later : Gives (g.laterTexts options path id) (g.textsBehind options path id) := by
    rw [laterTexts, textsBehind]
    cases g.follow? ⟨id, .flow⟩ with
    | none => exact .pure _
    | some next => exact deeper next
  rw [chain_of_node? new found]
  -- that the node is entered is noted, but no text depends on it
  have entered : Gives () (enter id) := fun _ => rfl
  exact entered.bind (statement.bind (later.bind (.pure _)))

/-- A chain has the same texts whatever has been noted. -/
theorem gives_chain (g : Graph) (options : RenderOptions) (path : List String) (id : String) :
    Gives (g.texts options path id) (g.chain options path id) := by
  induction path using path_induction g.ids generalizing id with
  | step path ih =>
    by_cases met : id ∈ path
    · intro progress
      rw [texts, chain_of_mem met]
      rfl
    cases found : g.node? id with
    | none =>
      intro progress
      rw [texts, chain_of_node?_eq_none met found]
      rfl
    | some node =>
      have given := gives_chain_of_node? met found (ih id (mem_ids_of_node? found) met)
      exact fun progress => (given progress).trans (given {}).symm

theorem texts_of_mem (met : id ∈ path) : g.texts options path id = [cycleMarker id] := by
  rw [texts, chain_of_mem met]
  rfl

theorem texts_of_node?_eq_none (new : id ∉ path) (missing : g.node? id = none) :
    g.texts options path id = [] := by
  rw [texts, chain_of_node?_eq_none new missing]
  rfl

/-- A chain has the text of its first node, unless it is empty, and those behind it. -/
theorem texts_of_node? {node : Node} (new : id ∉ path) (found : g.node? id = some node) :
    g.texts options path id =
      if (g.statementText options path id node).isEmpty then g.laterTexts options path id
      else g.statementText options path id node :: g.laterTexts options path id :=
  gives_chain_of_node? new found (g.gives_chain options _) {}

/-- The text goes on where a written key leads. -/
theorem goesOn_of_follow? {limits : ScriptLimits} {key : Key} {next : String}
    (written : key ∈ g.writtenKeys limits id) (leads : g.follow? ⟨id, key⟩ = some next) :
    g.GoesOn limits id next := by
  obtain ⟨c, first, rfl⟩ := Option.map_eq_some_iff.1 leads
  refine List.mem_map_of_mem (List.mem_flatMap.2 ⟨key, written, ?_⟩)
  exact Option.mem_toList.2 first

/-! ### Texts and paths -/

/-- A node has the same texts on two paths if what the text goes on with has. -/
theorem texts_congr {other : List String} {node : Node} (new : id ∉ path) (new_other : id ∉ other)
    (found : g.node? id = some node)
    (same : ∀ next, g.GoesOn options.limits id next →
      g.texts options (id :: path) next = g.texts options (id :: other) next) :
    g.texts options path id = g.texts options other id := by
  have later : g.laterTexts options path id = g.laterTexts options other id := by
    rw [laterTexts, laterTexts]
    cases leads : g.follow? ⟨id, .flow⟩ with
    | none => rw [Option.elim_none, Option.elim_none]
    | some next =>
      rw [Option.elim_some, Option.elim_some]
      exact same next (goesOn_of_follow? (flow_mem_writtenKeys found _) leads)
  have statement :
      g.statementText options path id node = g.statementText options other id node := by
    rw [statementText, statementText]
    cases visible : node.visible with
    | false => rw [if_neg Bool.false_ne_true, if_neg Bool.false_ne_true]
    | true =>
      rw [if_pos rfl, if_pos rfl]
      refine Command.text_congr (fun key branch => ?_) options
      rw [heldText, heldText]
      cases leads : g.follow? ⟨id, key⟩ with
      | none => rw [Option.elim_none, Option.elim_none]
      | some next =>
        have written := mem_writtenKeys_of_branch found visible branch
        rw [Option.elim_some, Option.elim_some, same next (goesOn_of_follow? written leads)]
  rw [texts_of_node? new found, texts_of_node? new_other found, statement, later]

/-- A chain has the same texts inside of nodes that it does not lead back to. -/
theorem texts_append {past : List String}
    (apart : ∀ p ∈ past, ¬ ReflTransGen (g.GoesOn options.limits) id p) :
    g.texts options (path ++ past) id = g.texts options path id := by
  induction path using path_induction g.ids generalizing id with
  | step path ih =>
    have new_past : id ∉ past := fun met => apart id met .refl
    by_cases met : id ∈ path
    · rw [texts_of_mem met, texts_of_mem (List.mem_append_left _ met)]
    have new : id ∉ path ++ past := List.not_mem_append met new_past
    cases found : g.node? id with
    | none => rw [texts_of_node?_eq_none met found, texts_of_node?_eq_none new found]
    | some node =>
      refine texts_congr new met found fun next on => ?_
      exact ih id (mem_ids_of_node? found) met fun p mem behind => apart p mem (.head on behind)

/-- No statement has an empty text. -/
theorem ne_empty_of_mem_texts {text : String} (mem : text ∈ g.texts options path id) :
    text ≠ "" := by
  induction path using path_induction g.ids generalizing id with
  | step path ih =>
    by_cases met : id ∈ path
    · rw [texts_of_mem met, List.mem_singleton] at mem
      rw [mem, cycleMarker, Render.errorMarker]
      simp
    cases found : g.node? id with
    | none =>
      rw [texts_of_node?_eq_none met found] at mem
      cases mem
    | some node =>
      have later (mem : text ∈ g.laterTexts options path id) : text ≠ "" := by
        rw [laterTexts] at mem
        cases leads : g.follow? ⟨id, .flow⟩ with
        | none =>
          rw [leads, Option.elim_none] at mem
          cases mem
        | some next =>
          rw [leads, Option.elim_some] at mem
          exact ih id (mem_ids_of_node? found) met mem
      rw [texts_of_node? met found] at mem
      split at mem
      · exact later mem
      · next written =>
        rcases List.mem_cons.1 mem with rfl | mem
        · simpa using written
        · exact later mem

/-! ### The text of a graph -/

/-- The text of a graph is that of the chains of its roots, and the markers behind them. -/
theorem generate_eq_intercalate (g : Graph) (options : RenderOptions) :
    g.generate options = "\n\n".intercalate
      (Render.nonEmpty
        (g.roots.map fun node => "\n".intercalate (g.texts options [] node.id)) ++
          g.markers options) := by
  have chain (node : Node) : Gives ("\n".intercalate (g.texts options [] node.id))
      (g.chainText options node.id) :=
    (g.gives_chain options [] node.id).bind (.pure _)
  rw [generate, run_eq, Gives.mapM chain g.roots {}]

end Graph

end CommandGraph
