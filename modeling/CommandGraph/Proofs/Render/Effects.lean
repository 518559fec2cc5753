/-
CommandGraph/Proofs/Render/Effects.lean

Statements that are written with other effects.

While a statement is written, values that are out of reach are reported, and each branch is
asked for what it holds.  `Command.renderM` writes a statement in any monad, given actions
for these two.  Where a relation between the actions of two monads is kept by sequences, it
holds of the whole statement as soon as it holds of its reports and of its branches:

    Matches R  →  R (c.renderM report branchM) (c.render branch)

(`Command.renderM_matches`).  Equality is such a relation, so that `Command.render` is one
case of `Command.renderM` (`Command.renderM_eq_render`).
-/
import CommandGraph.Proofs.Occurrence.Branches
import CommandGraph.Render.Arguments

namespace CommandGraph

/-! ### Relations between actions -/

/-- A relation between the actions of two monads that holds of sequences as soon as it holds of
their steps. -/
structure Matches {m n : Type → Type} [Monad m] [Monad n]
    (R : (α : Type) → m α → n α → Prop) : Prop where
  pure {α : Type} (a : α) : R _ (Pure.pure a) (Pure.pure a)
  bind {α β : Type} {x : m α} {y : n α} {f : α → m β} {g : α → n β} :
    R _ x y → (∀ a, R _ (f a) (g a)) → R _ (x >>= f) (y >>= g)

namespace Matches

variable {m n : Type → Type} [Monad m] [Monad n] {R : (α : Type) → m α → n α → Prop}

theorem map (h : Matches R) {α β : Type} {x : m α} {y : n α} (hx : R _ x y) (f : α → β) :
    R _ (x >>= fun a => Pure.pure (f a)) (y >>= fun a => Pure.pure (f a)) :=
  h.bind hx fun a => h.pure (f a)

/-- A step for each item of a list; only the items themselves have to be related. -/
theorem mapM [LawfulMonad m] [LawfulMonad n] (h : Matches R) {α β : Type} {f : α → m β}
    {g : α → n β} {as : List α} (hf : ∀ a ∈ as, R _ (f a) (g a)) :
    R _ (as.mapM f) (as.mapM g) := by
  induction as with
  | nil => exact h.pure []
  | cons a as ih =>
    rw [List.mapM_cons, List.mapM_cons]
    refine h.bind (hf a List.mem_cons_self) fun b => ?_
    exact h.map (ih fun other mem => hf other (List.mem_cons_of_mem _ mem)) (b :: ·)

theorem eq [LawfulMonad m] : Matches fun (α : Type) (x y : m α) => x = y where
  pure _ := rfl
  bind hx hf := by
    rw [hx]
    exact bind_congr hf

end Matches

/-! ### Arguments -/

namespace Occurrence

section

variable {m : Type → Type} [Monad m] (options : RenderOptions) (report : ResolveError → m Unit)
  (branch : Key → m String)

/-- The text of a value.  One that is out of reach is reported if it is part of a cycle. -/
def renderScalarM (node : Grammar) (subtype : Primitive) (reading : Reading) :
    m (Option String) :=
  match reading with
  | .error error => do
    if error.isFatal then
      report error
    return some (Render.errorMarker error.message)
  | .ok value =>
    match (value.map Scalar.display).filter (!·.isEmpty) with
    | some text => return some (node.withLead (writtenValue options.limits text subtype))
    | none =>
      if node.isOptional then return none else return some (node.withLead subtype.fallback)

mutual

/-- The text of an argument, or nothing if it is omitted. -/
def renderM : Occurrence → m (Option String)
  | scalar node _ subtype reading => renderScalarM options report node subtype reading
  | literal _ _ text => return if text == hiddenKeyword then none else some text
  | optional _ _ enabled content => do
    let text ← renderOptionM content
    return if enabled then text else none
  | repeated node _ _ items => do
    let texts ← renderListM items
    return repeatedText node texts
  | choice _ _ _ content => renderOptionM content
  | block _ _ children => do
    let texts ← renderListM children
    return some (Render.braced ("\n".intercalate (Render.nonEmpty texts)) options.indent)
  | Occurrence.branch _ key => do
    let body ← branch key
    return some (Render.braced body options.indent)
  | subcommand node _ param args => do
    let paramText ← renderOptionM param
    let texts ← renderListM args
    return some (subcommandText node paramText texts)
  | group _ _ children => do
    let texts ← renderListM children
    return some (" ".intercalate (Render.nonEmpty texts))
  | array node _ items => do
    let texts ← renderListM items
    return some (arrayText node texts)
  | base node _ param => do
    let paramText ← renderOptionM param
    return some (node.writtenName ++ Render.bracketed paramText)

/-- The text of an argument that may be missing. -/
def renderOptionM : Option Occurrence → m (Option String)
  | none => return none
  | some o => renderM o

/-- The texts of the arguments that are not omitted. -/
def renderListM : List Occurrence → m (List String)
  | [] => return []
  | o :: os => do
    let text ← renderM o
    let texts ← renderListM os
    return text.toList ++ texts

end

end

section

variable {m : Type → Type} [Monad m] {R : (α : Type) → m α → RenderM α → Prop}
  {options : RenderOptions} {report : ResolveError → m Unit} {branchM : Key → m String}
  {text : Key → RenderM String}

/-! ### Steps that match -/

/-- A value asks for no branch, so that only the reports are compared. -/
theorem renderScalarM_matches (h : Matches R)
    (reports : ∀ error, R _ (report error) (reject (.resolve error))) (node : Grammar)
    (subtype : Primitive) (reading : Reading) :
    R _ (renderScalarM options report node subtype reading)
      (renderScalar options.limits node subtype reading) := by
  cases reading with
  | error error =>
    rw [renderScalarM, renderScalar]
    split
    · exact h.bind (reports error) fun _ => h.pure _
    · exact h.pure _
  | ok value =>
    rw [renderScalarM, renderScalar]
    -- a value within reach is written without any effect, be it empty or not
    cases (value.map Scalar.display).filter (!·.isEmpty) with
    | some text => exact h.pure _
    | none =>
      simp only
      split <;> exact h.pure _

mutual

/-- An argument is written by the same steps in both monads.  Of the branches, those that stand in
the tree have to be related; the cases hand them on to the children. -/
theorem renderM_matches (h : Matches R)
    (reports : ∀ error, R _ (report error) (reject (.resolve error))) :
    ∀ o : Occurrence, (∀ key ∈ branchKeys o.all, R _ (branchM key) (text key)) →
      R _ (o.renderM options report branchM) (o.render options text)
  | scalar node key subtype reading, _ => by
    rw [renderM, render]
    exact renderScalarM_matches h reports node subtype reading
  | literal .., _ => by
    rw [renderM, render]
    exact h.pure _
  | branch node key, branches => by
    rw [renderM, render]
    exact h.map (branches key List.mem_cons_self) _
  | optional _ _ _ content, branches | choice _ _ _ content, branches
  | base _ _ content, branches => by
    rw [all, branchKeys_append] at branches
    have inside := renderOptionM_matches h reports content fun key mem =>
      branches key (List.mem_append_left _ mem)
    rw [renderM, render]
    -- a choice and a base are written as their content is, an optional argument behind a check
    first
      | exact h.map inside _
      | exact inside
  | repeated _ _ _ os, branches | block _ _ os, branches | group _ _ os, branches
  | array _ _ os, branches => by
    rw [all, branchKeys_append] at branches
    rw [renderM, render]
    exact h.map (renderListM_matches h reports os fun key mem =>
      branches key (List.mem_append_left _ mem)) _
  | subcommand _ _ param args, branches => by
    rw [all, branchKeys_append, branchKeys_append] at branches
    rw [renderM, render]
    refine h.bind (renderOptionM_matches h reports param fun key mem => ?_) fun _ =>
      h.map (renderListM_matches h reports args fun key mem => ?_) _
    · exact branches key (List.mem_append_left _ (List.mem_append_left _ mem))
    · exact branches key (List.mem_append_left _ (List.mem_append_right _ mem))

theorem renderOptionM_matches (h : Matches R)
    (reports : ∀ error, R _ (report error) (reject (.resolve error))) :
    ∀ o : Option Occurrence,
      (∀ key ∈ branchKeys (allOfOption o), R _ (branchM key) (text key)) →
        R _ (renderOptionM options report branchM o) (renderOption options text o)
  | none, _ => by
    rw [renderOptionM, renderOption]
    exact h.pure _
  | some o, branches => by
    rw [renderOptionM, renderOption]
    exact renderM_matches h reports o branches

/-- Arguments side by side are written one after the other. -/
theorem renderListM_matches (h : Matches R)
    (reports : ∀ error, R _ (report error) (reject (.resolve error))) :
    ∀ os : List Occurrence, (∀ key ∈ branchKeys (allOfList os), R _ (branchM key) (text key)) →
      R _ (renderListM options report branchM os) (renderList options text os)
  | [], _ => by
    rw [renderListM, renderList]
    exact h.pure _
  | o :: os, branches => by
    rw [allOfList, branchKeys_append] at branches
    rw [renderListM, renderList]
    refine h.bind (renderM_matches h reports o fun key mem => ?_) fun _ =>
      h.map (renderListM_matches h reports os fun key mem => ?_) _
    · exact branches key (List.mem_append_left _ mem)
    · exact branches key (List.mem_append_right _ mem)

end

end

end Occurrence

/-! ### Statements -/

namespace Command

/-- The text of a statement whose values are looked up in `source`. -/
def renderM {m : Type → Type} [Monad m] (c : Command) (options : RenderOptions) (source : Source)
    (report : ResolveError → m Unit) (branch : Key → m String) : m String := do
  let arguments := c.walk source false
  let param ← Occurrence.renderOptionM options report branch arguments.param
  let args ← Occurrence.renderListM options report branch arguments.args
  return c.line param args

/-- **Statements with other effects.**  What holds of the reports and of the branches of a statement
holds of the statement. -/
theorem renderM_matches {m : Type → Type} [Monad m] {R : (α : Type) → m α → RenderM α → Prop}
    (h : Matches R) {report : ResolveError → m Unit}
    (reports : ∀ error, R _ (report error) (reject (.resolve error))) {c : Command}
    {source : Source} {branchM : Key → m String} {branch : Key → RenderM String}
    (branches : ∀ key ∈ Occurrence.branchKeys (c.walk source false).all,
      R _ (branchM key) (branch key)) (options : RenderOptions) :
    R _ (c.renderM options source report branchM) (c.render options source branch) := by
  rw [Arguments.all, Occurrence.branchKeys_append] at branches
  rw [renderM, render]
  -- the parameter in brackets is written first
  refine h.bind (Occurrence.renderOptionM_matches h reports _ fun key mem => ?_) fun _ =>
    h.map (Occurrence.renderListM_matches h reports _ fun key mem => ?_) _
  · exact branches key (List.mem_append_left _ mem)
  · exact branches key (List.mem_append_right _ mem)

/-- In the monad of generation, with its own reports, this is how statements are written. -/
theorem renderM_eq_render (c : Command) (options : RenderOptions) (source : Source)
    (branch : Key → RenderM String) :
    c.renderM options source (fun error => reject (.resolve error)) branch =
      c.render options source branch :=
  renderM_matches .eq (fun _ => rfl) (fun _ _ => rfl) options

end Command

end CommandGraph
