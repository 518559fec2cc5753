/-
CommandGraph/Proofs/Grammar/Children.lean

Induction over argument grammars.

A grammar nests its nodes in lists and options of several kinds.  `Grammar.children`
puts the nodes right below a node into one list, whatever its kind, and
`Grammar.inductionOn` is the induction that this list allows: what holds of a node as
soon as it holds of its children holds of every grammar.  The functions that run over
siblings are restated by library operations (`walkChildren_eq`, `walkOption_eq`), so
that no proof has to run along with them.
-/
import CommandGraph.Occurrence.Walk

namespace CommandGraph.Grammar

/-! ### Children -/

/-- The nodes right below a node. -/
def children : Grammar → List Grammar
  | primitive .. | keyword .. | assignment .. | branch .. => []
  | choice _ options => options
  | block _ content => content
  | subcommand _ param args => param.toList ++ args
  | group _ children => children
  | array _ content _ _ => content.toList
  | base _ param => param.toList

/-- Children are smaller than their node, however it holds them. -/
theorem sizeOf_lt_of_mem_children {g c : Grammar} (h : c ∈ g.children) :
    sizeOf c < sizeOf g := by
  cases g with
  | primitive | keyword | assignment | branch => simp [children] at h
  | choice attrs gs | block attrs gs | group attrs gs =>
    have lt : sizeOf c < sizeOf gs := List.sizeOf_lt_of_mem h
    simp only [choice.sizeOf_spec, block.sizeOf_spec, group.sizeOf_spec]
    omega
  | subcommand attrs param args =>
    simp only [children, List.mem_append, Option.mem_toList] at h
    rcases h with rfl | h
    · simp only [subcommand.sizeOf_spec, Option.some.sizeOf_spec]
      omega
    · have lt := List.sizeOf_lt_of_mem h
      simp only [subcommand.sizeOf_spec]
      omega
  | array attrs content delimiters separator =>
    simp only [children, Option.mem_toList] at h
    subst h
    simp only [array.sizeOf_spec, Option.some.sizeOf_spec]
    omega
  | base attrs param =>
    simp only [children, Option.mem_toList] at h
    subst h
    simp only [base.sizeOf_spec, Option.some.sizeOf_spec]
    omega

/-- What holds of a node as soon as it holds of its children holds of every grammar. -/
@[elab_as_elim]
theorem inductionOn {P : Grammar → Prop} (g : Grammar)
    (node : ∀ g : Grammar, (∀ c ∈ g.children, P c) → P g) : P g :=
  node g fun c _ => inductionOn c node
termination_by sizeOf g
decreasing_by exact sizeOf_lt_of_mem_children ‹_›

/-! ### Walks over siblings -/

section

variable (source : Source) (full : Bool)

/-- What is there of a node below a key. -/
def walkBelow (g : Grammar) (above : Key) : Option Occurrence :=
  enter source full g (walkBody source full g) above

/-- Siblings are walked below their positions; those that cannot be reached are left out. -/
theorem walkChildren_eq (n : Nat) (gs : List Grammar) (key : Key) :
    walkChildren source full n gs key =
      (gs.zipIdx n).flatMap fun p => (walkBelow source full p.1 (key.ordinal p.2)).toList := by
  induction gs generalizing n with
  | nil => rfl
  | cons g gs ih =>
    rw [walkChildren, ih, List.zipIdx_cons, List.flatMap_cons]
    rfl

/-- The option with the selected identifier is walked at the key of the choice. -/
theorem walkOption_eq (selection : String) (gs : List Grammar) (key : Key) :
    walkOption source full selection gs key =
      (option? gs selection).map fun g => (g, walkBelow source full g key) := by
  induction gs with
  | nil => rfl
  | cons g gs ih =>
    rw [walkOption, option?, List.find?_cons]
    rcases h : g.identifier == selection with - | -
    · rw [if_neg Bool.false_ne_true, ih]
      rfl
    · rw [if_pos rfl]
      rfl

theorem walkParam_eq (param : Option Grammar) (key : Key) :
    walkParam source full param key =
      param.bind fun g => walkBelow source full g key.arrayParam := by
  cases param <;> rfl

end

end CommandGraph.Grammar
