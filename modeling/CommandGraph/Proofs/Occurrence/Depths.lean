/-
CommandGraph/Proofs/Occurrence/Depths.lean

How deep the branches of a walk lie in braces.

The text of a branch stands in braces of its own and in those of the blocks around it.
`Occurrence.branchDepths` gives each branch with their number.  What a walk leaves out is not
written, and no more does a tree hold that is not written (`Occurrence.IsWritten`); so the
branches that have a depth are those of the walk (`Command.map_fst_branchDepths`).
-/
import CommandGraph.Proofs.Occurrence.Branches

namespace CommandGraph

namespace Occurrence

/-! ### Branches and their depths -/

mutual

/-- The keys of the branches whose texts are written, and in how many braces they stand. -/
def branchDepths : Occurrence → List (Key × Nat)
  | scalar .. | literal .. => []
  | optional _ _ enabled content => if enabled then branchDepthsOfOption content else []
  | repeated _ _ _ items => branchDepthsOfList items
  | choice _ _ _ content => branchDepthsOfOption content
  -- a block opens braces around all that it holds
  | block _ _ children => (branchDepthsOfList children).map fun p => (p.1, p.2 + 1)
  | branch _ key => [(key, 1)]
  | subcommand _ _ param args => branchDepthsOfOption param ++ branchDepthsOfList args
  | group _ _ children => branchDepthsOfList children
  | array _ _ items => branchDepthsOfList items
  | base _ _ param => branchDepthsOfOption param

/-- The branches of an argument that may be missing. -/
def branchDepthsOfOption : Option Occurrence → List (Key × Nat)
  | none => []
  | some o => o.branchDepths

/-- The branches of arguments side by side. -/
def branchDepthsOfList : List Occurrence → List (Key × Nat)
  | [] => []
  | o :: os => o.branchDepths ++ branchDepthsOfList os

end

/-- Whether an occurrence holds nothing that is left out of the text. -/
def IsWritten : Occurrence → Prop
  | optional _ _ enabled content => enabled = true ∨ content = none
  | _ => True

theorem isWritten_of_isWrapper {o : Occurrence} (h : o.isWrapper = false) : o.IsWritten := by
  cases o with
  | optional => cases h
  | _ => trivial

mutual

/-- If nothing in a tree is left out of the text, the branches that have a depth are all of its
branches. -/
theorem map_fst_branchDepths : ∀ o : Occurrence, (∀ p ∈ o.all, p.IsWritten) →
    o.branchDepths.map Prod.fst = branchKeys o.all
  | scalar .., _ | literal .., _ | branch .., _ => rfl
  | optional node key enabled content, written => by
    rw [all] at written
    rw [branchDepths, all, branchKeys_concat rfl,
      ← map_fst_branchDepthsOfOption content fun p mem =>
        written p (List.mem_append_left _ mem)]
    have own := written (optional node key enabled content)
      (List.mem_append_right _ (List.mem_singleton_self _))
    -- a part that is turned off holds nothing, as it would not be written
    rcases own with rfl | rfl
    · rfl
    · cases enabled <;> rfl
  | choice _ _ _ content, written | base _ _ content, written => by
    rw [all] at written
    rw [branchDepths, all, branchKeys_concat rfl]
    exact map_fst_branchDepthsOfOption content fun p mem =>
      written p (List.mem_append_left _ mem)
  | repeated _ _ _ os, written | group _ _ os, written | array _ _ os, written => by
    rw [all] at written
    rw [branchDepths, all, branchKeys_concat rfl]
    exact map_fst_branchDepthsOfList os fun p mem => written p (List.mem_append_left _ mem)
  | block _ _ os, written => by
    rw [all] at written
    rw [branchDepths, all, branchKeys_concat rfl, List.map_map]
    exact map_fst_branchDepthsOfList os fun p mem => written p (List.mem_append_left _ mem)
  | subcommand _ _ param args, written => by
    rw [all] at written
    rw [branchDepths, all, branchKeys_concat rfl, branchKeys_append, List.map_append,
      map_fst_branchDepthsOfOption param fun p mem =>
        written p (List.mem_append_left _ (List.mem_append_left _ mem)),
      map_fst_branchDepthsOfList args fun p mem =>
        written p (List.mem_append_left _ (List.mem_append_right _ mem))]

theorem map_fst_branchDepthsOfOption : ∀ o : Option Occurrence,
    (∀ p ∈ allOfOption o, p.IsWritten) →
      (branchDepthsOfOption o).map Prod.fst = branchKeys (allOfOption o)
  | none, _ => rfl
  | some o, written => map_fst_branchDepths o written

theorem map_fst_branchDepthsOfList : ∀ os : List Occurrence,
    (∀ p ∈ allOfList os, p.IsWritten) →
      (branchDepthsOfList os).map Prod.fst = branchKeys (allOfList os)
  | [], _ => rfl
  | o :: os, written => by
    rw [allOfList] at written
    rw [branchDepthsOfList, allOfList, branchKeys_append, List.map_append,
      map_fst_branchDepths o fun p mem => written p (List.mem_append_left _ mem),
      map_fst_branchDepthsOfList os fun p mem => written p (List.mem_append_right _ mem)]

end

end Occurrence

namespace Grammar

/-! ### Walks hold what is written -/

/-- What wraps a node in a walk that leaves out what is turned off holds nothing of it. -/
theorem isWritten_of_mem_wrappers {source : Source} {g : Grammar} {above : Key} {o : Occurrence}
    (h : o ∈ g.wrappers source false above) : o.IsWritten := by
  rw [wrappers, List.mem_append] at h
  rcases h with h | h
  · split at h
    · rw [repeatWrapper] at h
      split at h
      · next repeatable =>
        rw [List.mem_singleton.1 h, repeatedAt, if_pos repeatable]
        trivial
      · cases h
    · cases h
  · split at h
    · next flagged =>
      rw [walkBelow, enter] at h
      rw [isFlagged] at flagged
      rw [if_pos flagged] at h
      split at h
      · cases h
      · obtain rfl := Option.some.inj (Option.mem_toList.1 h)
        rw [Occurrence.IsWritten]
        -- an argument that is turned on is written, and one that is turned off has no content
        cases source.flag (g.flagKey (above.join g.identifier)) with
        | true => exact .inl rfl
        | false => exact .inr rfl
    · cases h

/-- A walk that leaves out what is turned off holds nothing that is not written. -/
theorem isWritten_of_mem_walkBody {source : Source} {g : Grammar} {key : Key} {o : Occurrence}
    (h : o ∈ (walkBody source false g key).all) : o.IsWritten := by
  induction g using inductionOn generalizing key with
  | node g ih =>
    rw [all_walkBody, List.mem_append, List.mem_flatMap] at h
    rcases h with ⟨⟨c, above⟩, hc, h⟩ | h
    · rw [all_walkBelow, List.mem_append, List.mem_flatMap] at h
      rcases h with ⟨k, -, h⟩ | h
      · exact ih c (mem_children_of_mem_walked source hc) h
      · exact isWritten_of_mem_wrappers h
    · rw [List.mem_singleton.1 h]
      exact Occurrence.isWritten_of_isWrapper (isWrapper_walkBody g key)

end Grammar

/-! ### Commands -/

/-- The branches of a command whose texts are written, and in how many braces they stand. -/
def Arguments.branchDepths (arguments : Arguments) : List (Key × Nat) :=
  Occurrence.branchDepthsOfOption arguments.param ++
    Occurrence.branchDepthsOfList arguments.args

/-- All branches of a walk that leaves out what is turned off are written. -/
theorem Command.map_fst_branchDepths (c : Command) (source : Source) :
    (c.walk source false).branchDepths.map Prod.fst =
      Occurrence.branchKeys (c.walk source false).all := by
  have written : ∀ o ∈ (c.walk source false).all, o.IsWritten := fun o mem =>
    Grammar.isWritten_of_mem_walkBody (mem_walkBody_of_mem_walk mem)
  rw [Arguments.all] at written
  rw [Arguments.branchDepths, Arguments.all, Occurrence.branchKeys_append, List.map_append,
    Occurrence.map_fst_branchDepthsOfOption _ fun p mem => written p (List.mem_append_left _ mem),
    Occurrence.map_fst_branchDepthsOfList _ fun p mem => written p (List.mem_append_right _ mem)]

end CommandGraph
