/-
CommandGraph/Proofs/Occurrence/Address.lean

The keys of the occurrences of a walk.

Every occurrence of a walk lies at a key that extends the key where the walk started,
by a path without markers (`key_of_mem_walkBody`).  If the occurrence is a leaf of the
tree, the grammar leads to its node along this path, whatever the walk has read
(`Grammar.at?`); if all options have identifiers, this is so for every occurrence.
Hence two leaves at one key have the same node, also in walks under different values.
-/
import CommandGraph.Proofs.Grammar.Address
import CommandGraph.Proofs.Occurrence.Unfolding

namespace CommandGraph

/-! ### Keys and paths -/

namespace Key

theorem extend_injective {key : Key} {path rest : List Segment}
    (h : key.extend path = key.extend rest) : path = rest := by
  rw [extend, extend, Key.mk.injEq] at h
  exact List.append_cancel_left h

theorem push_injective {key other : Key} {s : Segment} (h : key.push s = other.push s) :
    key = other := by
  have segments : key.segments ++ [s] = other.segments ++ [s] := congrArg Key.segments h
  exact congrArg Key.mk (List.append_cancel_right segments)

/-- The step that an identifier adds to a key. -/
def nameStep (name : String) : List Segment :=
  if name.isEmpty then [] else [.name name]

theorem join_eq_extend (key : Key) (name : String) :
    key.join name = key.extend (nameStep name) := by
  rw [join, nameStep]
  split
  · rw [extend_nil]
  · rfl

end Key

/-! ### Paths without markers

Markers set flags, counts and results apart from arguments, so that the path to an argument has
none. -/

/-- A path along positions, names and bracket parameters. -/
def Unmarked (path : List Segment) : Prop :=
  ∀ m, Segment.marker m ∉ path

theorem Unmarked.append {path rest : List Segment} (h : Unmarked path) (h' : Unmarked rest) :
    Unmarked (path ++ rest) := by
  intro m hm
  rcases List.mem_append.1 hm with hm | hm
  · exact h m hm
  · exact h' m hm

theorem unmarked_nil : Unmarked [] := by
  intro m hm
  simp at hm

theorem unmarked_ordinal (i : Nat) : Unmarked [.ordinal i] := by
  intro m hm
  simp at hm

theorem unmarked_arrayParam : Unmarked [.arrayParam] := by
  intro m hm
  simp at hm

/-- A name is no marker, and an empty one no step. -/
theorem unmarked_nameStep (name : String) : Unmarked (Key.nameStep name) := by
  intro m hm
  rw [Key.nameStep] at hm
  split at hm <;> simp at hm

/-- What lies at a key or below it has a path from there. -/
theorem Key.exists_extend_of_isUnder {key base : Key} (h : key.isUnder base = true) :
    ∃ path, key = base.extend path := by
  obtain ⟨path, e⟩ := isUnder_iff.1 h
  exact ⟨path, congrArg Key.mk e⟩

/-- The key of an argument has no marker at its end. -/
theorem Key.marker?_of_unmarked {key : Key} (h : Unmarked key.segments) : key.marker? = none := by
  rw [Key.marker?]
  split
  · next m hm => exact absurd (List.mem_of_getLast? hm) (h m)
  · rfl

/-- The grammar takes the step of an identifier back. -/
theorem Grammar.afterName_nameStep (name : String) (rest : List Segment) :
    afterName name (Key.nameStep name ++ rest) = some rest := by
  unfold afterName Key.nameStep
  by_cases h : name.isEmpty = true
  · rw [if_pos h, if_pos h, List.nil_append]
  · rw [if_neg h, if_neg h, List.singleton_append]
    exact if_pos rfl

namespace Occurrence

/-- Whether an occurrence is a leaf of the tree that has sockets: a value or a branch. -/
def isLeaf : Occurrence → Bool
  | scalar .. | branch .. => true
  | _ => false

/-- Whether an occurrence is around the body of its node, as an optional or repeated argument. -/
def isWrapper : Occurrence → Bool
  | optional .. | repeated .. => true
  | _ => false

theorem isWrapper_of_isLeaf {o : Occurrence} (h : o.isLeaf = true) : o.isWrapper = false := by
  cases o <;> first | rfl | cases h

end Occurrence

namespace Grammar

variable {source : Source} {full : Bool}

/-! ### Steps of a walk -/

/-- The body of a node lies behind its identifier and, for an item, its index. -/
theorem path_of_mem_bodyKeys {g : Grammar} {above key : Key}
    (h : key ∈ g.bodyKeys source full above) :
    ∃ path, key = above.extend path ∧ Unmarked path ∧
      ∀ rest, g.at? (path ++ rest) = g.bodyAt? rest := by
  rw [bodyKeys, isEntered] at h
  split at h
  · next he =>
    have addressable : g.isAddressable = true := (Bool.and_eq_true _ _ ▸ he).1
    rw [itemKeys, keyBelow] at h
    split at h
    · next hr =>
      obtain ⟨i, -, rfl⟩ := List.mem_map.1 h
      -- the identifier, the index of the item, and the identifier again
      refine ⟨_, ?_, (unmarked_nameStep g.identifier).append
        ((unmarked_ordinal i).append (unmarked_nameStep g.identifier)), ?_⟩
      · rw [Key.join_eq_extend, Key.join_eq_extend, Key.ordinal, Key.push_eq_extend,
          Key.extend_extend, Key.extend_extend]
      · intro rest
        rw [at?, enterAt?, if_pos addressable, List.append_assoc, List.append_assoc,
          afterName_nameStep, Option.bind_some, if_pos hr]
        show (afterName g.identifier (Key.nameStep g.identifier ++ rest)).bind g.bodyAt? = _
        rw [afterName_nameStep, Option.bind_some]
    · next hr =>
      obtain rfl := List.mem_singleton.1 h
      refine ⟨_, Key.join_eq_extend _ _, unmarked_nameStep g.identifier, ?_⟩
      intro rest
      rw [at?, enterAt?, if_pos addressable, afterName_nameStep, Option.bind_some, if_neg hr]
  · simp at h

/-- What wraps a node lies at the key of the node. -/
theorem of_mem_wrappers {g : Grammar} {above : Key} {o : Occurrence}
    (h : o ∈ g.wrappers source full above) :
    o.key = g.keyBelow above ∧ o.node = g ∧ o.isWrapper = true ∧ g.isAddressable = true := by
  rcases eq_of_mem_wrappers h with ⟨entered, -, items, rfl⟩ | ⟨addressable, -, content, rfl⟩
  · exact ⟨rfl, rfl, rfl, (Bool.and_eq_true_iff.1 entered).1⟩
  · exact ⟨rfl, rfl, rfl, addressable⟩

theorem isLeaf_of_mem_wrappers {g : Grammar} {above : Key} {o : Occurrence}
    (h : o ∈ g.wrappers source full above) : o.isLeaf = false := by
  refine Bool.eq_false_iff.2 fun leaf => ?_
  have wrapper := (of_mem_wrappers h).2.2.1
  rw [Occurrence.isWrapper_of_isLeaf leaf] at wrapper
  cases wrapper

/-- A node is found at its own key, a choice only if its options have identifiers. -/
theorem at?_keyBelow {g : Grammar} (ha : g.isAddressable = true)
    (hg : g.hasNamedOptions = true) :
    g.at? (Key.nameStep g.identifier) = some g := by
  rw [at?, enterAt?, if_pos ha, ← List.append_nil (Key.nameStep _), afterName_nameStep,
    Option.bind_some]
  split
  · rfl
  · exact bodyAt?_nil (.inr hg)

/-- The children of a node lie behind their positions; an option lies where its choice is. -/
theorem path_of_mem_walked {g c : Grammar} {key above : Key}
    (h : (c, above) ∈ g.walked source key) :
    ∃ path, above = key.extend path ∧ Unmarked path ∧
      ∀ rest h, c.at? rest = some h → g.bodyAt? (path ++ rest) = some h := by
  -- siblings lie behind their positions, which is all that their nodes have in common
  have sibling {gs : List Grammar}
      (h : (c, above) ∈ gs.zipIdx.map fun p => (p.1, key.ordinal p.2)) :
      ∃ i, above = key.extend [.ordinal i] ∧ gs[i]? = some c := by
    obtain ⟨p, hp, e⟩ := List.mem_map.1 h
    rw [Prod.mk.injEq] at e
    obtain ⟨rfl, rfl⟩ := e
    refine ⟨p.2, rfl, ?_⟩
    simpa using List.mem_zipIdx_iff_getElem?.1 hp
  cases g with
  | primitive | keyword | assignment | branch => simp [walked] at h
  | choice attrs options =>
    simp only [walked, List.mem_map, Option.mem_toList, Option.bind_eq_some_iff, Prod.mk.injEq] at h
    obtain ⟨o, ⟨selection, -, ho⟩, rfl, rfl⟩ := h
    refine ⟨[], by simp, unmarked_nil, ?_⟩
    intro rest h hr
    -- the path names the option, and the choice looks for the first option of this name
    have named : o.identifier = selection := by simpa using List.find?_some ho
    rw [List.nil_append, bodyAt?, optionAt?_eq, leadingName_of_at? hr, named, ho, Option.bind_some,
      hr]
    rfl
  | block attrs content =>
    obtain ⟨i, rfl, hi⟩ := sibling h
    refine ⟨_, rfl, unmarked_ordinal i, ?_⟩
    intro rest h hr
    show childAt? i content rest = some h
    rw [childAt?_eq, hi, Option.bind_some, hr]
  | group attrs children =>
    obtain ⟨i, rfl, hi⟩ := sibling h
    refine ⟨_, rfl, unmarked_ordinal i, ?_⟩
    intro rest h hr
    show childAt? i children rest = some h
    rw [childAt?_eq, hi, Option.bind_some, hr]
  | subcommand attrs param args =>
    rw [walked, List.mem_append] at h
    rcases h with h | h
    · simp only [List.mem_map, Option.mem_toList, Prod.mk.injEq] at h
      obtain ⟨p, rfl, rfl, rfl⟩ := h
      exact ⟨_, rfl, unmarked_arrayParam, fun rest h hr => hr⟩
    · obtain ⟨i, rfl, hi⟩ := sibling h
      refine ⟨_, rfl, unmarked_ordinal i, ?_⟩
      intro rest h hr
      show childAt? i args rest = some h
      rw [childAt?_eq, hi, Option.bind_some, hr]
  | array attrs content delimiters separator =>
    simp only [walked, List.mem_flatMap, List.mem_map, Prod.mk.injEq] at h
    obtain ⟨o, ho, i, -, rfl, rfl⟩ := h
    obtain rfl := Option.mem_toList.1 ho
    exact ⟨_, rfl, unmarked_ordinal i, fun rest h hr => hr⟩
  | base attrs param =>
    simp only [walked, List.mem_map, Option.mem_toList, Prod.mk.injEq] at h
    obtain ⟨p, rfl, rfl, rfl⟩ := h
    exact ⟨_, rfl, unmarked_arrayParam, fun rest h hr => hr⟩

/-! ### Whole walks -/

/-- A node is walked as an occurrence of its own at its key, whatever its kind. -/
theorem head_walkBody (g : Grammar) (key : Key) :
    (walkBody source full g key).key = key ∧ (walkBody source full g key).node = g ∧
      (walkBody source full g key).isWrapper = false := by
  cases g with
  | choice attrs options =>
    obtain ⟨selected, content, e⟩ := exists_walkBody_choice source full attrs options key
    rw [e]
    exact ⟨rfl, rfl, rfl⟩
  | array attrs content => cases content <;> exact ⟨rfl, rfl, rfl⟩
  | _ => exact ⟨rfl, rfl, rfl⟩

@[simp] theorem key_walkBody (g : Grammar) (key : Key) :
    (walkBody source full g key).key = key :=
  (head_walkBody g key).1

@[simp] theorem node_walkBody (g : Grammar) (key : Key) :
    (walkBody source full g key).node = g :=
  (head_walkBody g key).2.1

theorem isWrapper_walkBody (g : Grammar) (key : Key) :
    (walkBody source full g key).isWrapper = false :=
  (head_walkBody g key).2.2

/-- A choice is no leaf; only its option may be one. -/
theorem isChoice_of_isLeaf_walkBody {g : Grammar} {key : Key}
    (h : (walkBody source full g key).isLeaf = true) : g.isChoice = false := by
  cases g with
  | choice attrs options =>
    obtain ⟨selected, content, e⟩ := exists_walkBody_choice source full attrs options key
    rw [e] at h
    cases h
  | _ => rfl

/-- What wraps no node is a node at its key. -/
theorem exists_walkBody_of_mem {g : Grammar} {key : Key} {o : Occurrence}
    (h : o ∈ (walkBody source full g key).all) (ho : o.isWrapper = false) :
    ∃ h k, o = walkBody source full h k := by
  induction g using inductionOn generalizing key with
  | node g ih =>
    rw [all_walkBody, List.mem_append, List.mem_flatMap] at h
    rcases h with ⟨⟨c, above⟩, hc, h⟩ | h
    · rw [all_walkBelow, List.mem_append, List.mem_flatMap] at h
      rcases h with ⟨k, -, h⟩ | h
      · exact ih c (mem_children_of_mem_walked source hc) h
      · cases (of_mem_wrappers h).2.2.1.symm.trans ho
    · exact ⟨g, key, List.mem_singleton.1 h⟩

/-- An occurrence below a node lies behind a path that leads to its node, if it is a leaf or all
options have identifiers. -/
theorem key_of_mem_walkBody {g : Grammar} {key : Key} {o : Occurrence}
    (h : o ∈ (walkBody source full g key).all) :
    ∃ path, o.key = key.extend path ∧ Unmarked path ∧
      (o.isLeaf = true ∨ g.hasNamedOptions = true → g.bodyAt? path = some o.node) := by
  induction g using inductionOn generalizing key with
  | node g ih =>
    rw [all_walkBody, List.mem_append, List.mem_flatMap] at h
    rcases h with ⟨⟨c, above⟩, hc, h⟩ | h
    · have child := mem_children_of_mem_walked source hc
      obtain ⟨outer, rfl, outer_unmarked, outer_at⟩ := path_of_mem_walked hc
      -- the path goes to the child, into its body or one of its items, and on from there
      rw [all_walkBelow, List.mem_append, List.mem_flatMap] at h
      rcases h with ⟨k, hk, h⟩ | h
      · obtain ⟨middle, rfl, middle_unmarked, middle_at⟩ := path_of_mem_bodyKeys hk
        obtain ⟨inner, e, inner_unmarked, inner_at⟩ := ih c child h
        refine ⟨outer ++ (middle ++ inner), ?_, ?_, ?_⟩
        · rw [e, Key.extend_extend, Key.extend_extend]
        · exact outer_unmarked.append (middle_unmarked.append inner_unmarked)
        · intro ho
          apply outer_at
          rw [middle_at]
          exact inner_at (ho.imp_right fun hg => hasNamedOptions_of_mem_children hg child)
      · -- what wraps the child lies at the key of the child
        obtain ⟨e, node_eq, -, addressable⟩ := of_mem_wrappers h
        refine ⟨outer ++ _, ?_, outer_unmarked.append (unmarked_nameStep c.identifier), ?_⟩
        · rw [e, keyBelow, Key.join_eq_extend, Key.extend_extend]
        · intro ho
          have named := ho.resolve_left fun leaf => by
            rw [isLeaf_of_mem_wrappers h] at leaf
            cases leaf
          apply outer_at
          rw [node_eq]
          exact at?_keyBelow addressable (hasNamedOptions_of_mem_children named child)
    · obtain rfl := List.mem_singleton.1 h
      refine ⟨[], by simp, unmarked_nil, ?_⟩
      intro ho
      rw [node_walkBody]
      exact bodyAt?_nil (ho.imp_left isChoice_of_isLeaf_walkBody)

end Grammar

/-! ### Commands -/

namespace Command

/-- The arguments of a command as those of a subcommand. -/
def toGrammar (c : Command) : Grammar :=
  .subcommand {} c.param c.args

/-- Whether every option of every choice of the command has an identifier. -/
def hasNamedOptions (c : Command) : Bool :=
  c.toGrammar.hasNamedOptions

/-- The node that a key leads to. -/
def at? (c : Command) (key : Key) : Option Grammar :=
  c.toGrammar.bodyAt? key.segments

/-- As a subcommand, a command has its own occurrences and one more for itself. -/
theorem all_walkBody_toGrammar (c : Command) (source : Source) (full : Bool) :
    (Grammar.walkBody source full c.toGrammar .root).all =
      (c.walk source full).all ++ [Grammar.walkBody source full c.toGrammar .root] := rfl

/-- The occurrences of a walk are those below the arguments as a whole. -/
theorem all_walk (c : Command) (source : Source) (full : Bool) :
    (c.walk source full).all = (c.toGrammar.walked source .root).flatMap fun p =>
      Occurrence.allOfOption (Grammar.walkBelow source full p.1 p.2) := by
  have unfolded := Grammar.all_walkBody source full c.toGrammar .root
  rwa [all_walkBody_toGrammar, List.append_left_inj] at unfolded

variable {source : Source} {full : Bool}

/-- What is shown of the node that a command makes holds of the command. -/
theorem mem_walkBody_of_mem_walk {c : Command} {o : Occurrence}
    (h : o ∈ (c.walk source full).all) :
    o ∈ (Grammar.walkBody source full c.toGrammar .root).all :=
  List.mem_append_left _ h

/-- What wraps no node is its own node at its own key. -/
theorem eq_walkBody_of_mem_walk {c : Command} {o : Occurrence}
    (h : o ∈ (c.walk source full).all) (ho : o.isWrapper = false) :
    o = Grammar.walkBody source full o.node o.key := by
  obtain ⟨g, key, rfl⟩ := Grammar.exists_walkBody_of_mem (mem_walkBody_of_mem_walk h) ho
  rw [Grammar.node_walkBody, Grammar.key_walkBody]

/-- Arguments lie at keys without markers. -/
theorem unmarked_of_mem_walk {c : Command} {o : Occurrence} (h : o ∈ (c.walk source full).all) :
    Unmarked o.key.segments := by
  obtain ⟨path, e, unmarked, -⟩ := Grammar.key_of_mem_walkBody (mem_walkBody_of_mem_walk h)
  rw [e]
  exact unmarked

/-- No occurrence lies at a marker. -/
theorem key_ne_marked_of_mem_walk {c : Command} {o : Occurrence}
    (h : o ∈ (c.walk source full).all) (key : Key) (m : Marker) : o.key ≠ key.marked m := by
  intro e
  have unmarked := Key.marker?_of_unmarked (unmarked_of_mem_walk h)
  rw [e, Key.marker?_marked] at unmarked
  cases unmarked

/-- The key of an occurrence leads to its node, if it is a leaf or all options have identifiers. -/
theorem at?_of_mem_walk {c : Command} {o : Occurrence} (h : o ∈ (c.walk source full).all)
    (ho : o.isLeaf = true ∨ c.hasNamedOptions = true) : c.at? o.key = some o.node := by
  obtain ⟨path, e, -, at_path⟩ := Grammar.key_of_mem_walkBody (mem_walkBody_of_mem_walk h)
  rw [at?, e]
  exact at_path ho

end Command

end CommandGraph
