/-
CommandGraph/Proofs/Occurrence/Branches.lean

The branches of a walk.

Sockets are projected from a full walk, which also enters optional arguments that are turned
off; the text is written from a walk that does not.  Both meet the same branches if no branch
lies inside an optional argument (`Command.mem_branchKeys_of_full`).

A flow output of a command is the one of its own execution or lies at a branch of the full
walk (`Command.flow_or_branch_of_find?`).
-/
import CommandGraph.Proofs.Occurrence.Reread
import CommandGraph.Proofs.Socket.Channels

namespace CommandGraph

namespace Grammar

/-! ### Nodes of a grammar -/

mutual

/-- Whether a condition holds of a node and of all nodes below it. -/
def everyNode (p : Grammar → Bool) : Grammar → Bool
  | choice attrs options => p (choice attrs options) && everyNodeOfList p options
  | block attrs content => p (block attrs content) && everyNodeOfList p content
  | subcommand attrs param args =>
    p (subcommand attrs param args) && (everyNodeOfOption p param && everyNodeOfList p args)
  | group attrs children => p (group attrs children) && everyNodeOfList p children
  | array attrs content delimiters separator =>
    p (array attrs content delimiters separator) && everyNodeOfOption p content
  | base attrs param => p (base attrs param) && everyNodeOfOption p param
  | g => p g

/-- For several nodes. -/
def everyNodeOfList (p : Grammar → Bool) : List Grammar → Bool
  | [] => true
  | g :: gs => g.everyNode p && everyNodeOfList p gs

/-- For a node that may be missing. -/
def everyNodeOfOption (p : Grammar → Bool) : Option Grammar → Bool
  | none => true
  | some g => g.everyNode p

end

theorem everyNodeOfList_iff {p : Grammar → Bool} {gs : List Grammar} :
    everyNodeOfList p gs = true ↔ ∀ g ∈ gs, g.everyNode p = true := by
  induction gs with
  | nil => simp [everyNodeOfList]
  | cons g gs ih => simp [everyNodeOfList, ih]

theorem everyNodeOfOption_iff {p : Grammar → Bool} {o : Option Grammar} :
    everyNodeOfOption p o = true ↔ ∀ g ∈ o.toList, g.everyNode p = true := by
  cases o <;> simp [everyNodeOfOption]

/-- A condition holds of all nodes if it does of the first one and of those below its children. -/
theorem everyNode_iff {p : Grammar → Bool} {g : Grammar} :
    g.everyNode p = true ↔ p g = true ∧ ∀ c ∈ g.children, c.everyNode p = true := by
  cases g with
  | primitive | keyword | assignment | branch => simp [everyNode, children]
  | choice | block | group =>
    rw [everyNode, Bool.and_eq_true, everyNodeOfList_iff]
    rfl
  | subcommand attrs param args =>
    rw [everyNode, Bool.and_eq_true, Bool.and_eq_true, everyNodeOfList_iff, everyNodeOfOption_iff]
    simp only [children, List.mem_append, or_imp, forall_and]
  | array | base =>
    rw [everyNode, Bool.and_eq_true, everyNodeOfOption_iff]
    rfl

/-- Whether the node is a branch. -/
def isBranch : Grammar → Bool
  | branch _ => true
  | _ => false

/-- Whether there is a branch at the node or below it. -/
def hasBranch (g : Grammar) : Bool :=
  !g.everyNode (!·.isBranch)

/-- Whether no branch lies inside an optional argument. -/
def requiresBranches (g : Grammar) : Bool :=
  g.everyNode fun node => !(node.isFlagged && node.hasBranch)

theorem hasBranch_of_isBranch {g : Grammar} (h : g.isBranch = true) : g.hasBranch = true := by
  refine Bool.not_eq_true' _ ▸ Bool.eq_false_iff.2 fun every => ?_
  have free := (everyNode_iff.1 every).1
  rw [h] at free
  cases free

theorem hasBranch_of_mem_children {g c : Grammar} (child : c ∈ g.children)
    (h : c.hasBranch = true) : g.hasBranch = true := by
  refine Bool.not_eq_true' _ ▸ Bool.eq_false_iff.2 fun every => ?_
  rw [hasBranch, (everyNode_iff.1 every).2 c child] at h
  cases h

end Grammar

namespace Occurrence

/-! ### Keys of branches -/

/-- The key of a branch. -/
def branchKey? : Occurrence → Option Key
  | branch _ key => some key
  | _ => none

/-- A branch is a leaf of the tree, at its own key. -/
theorem isLeaf_of_branchKey? {o : Occurrence} {key : Key} (h : o.branchKey? = some key) :
    o.isLeaf = true ∧ o.key = key := by
  cases o with
  | branch => exact ⟨rfl, Option.some.inj h⟩
  | _ => cases h

/-- Looking values up elsewhere does not make a branch of anything. -/
theorem branchKey?_reread (t : Source) (o : Occurrence) :
    (o.reread t).branchKey? = o.branchKey? := by
  cases o <;> rfl

/-- The keys of the branches among occurrences. -/
def branchKeys (os : List Occurrence) : List Key :=
  os.filterMap branchKey?

theorem branchKeys_append (os ps : List Occurrence) :
    branchKeys (os ++ ps) = branchKeys os ++ branchKeys ps :=
  List.filterMap_append

theorem branchKeys_concat {o : Occurrence} (h : o.branchKey? = none) (os : List Occurrence) :
    branchKeys (os ++ [o]) = branchKeys os := by
  rw [branchKeys_append, branchKeys, branchKeys, List.filterMap_cons_none h, List.filterMap_nil,
    List.append_nil]

theorem branchKeys_reread (t : Source) (arguments : Arguments) :
    branchKeys (arguments.reread t).all = branchKeys arguments.all := by
  rw [Arguments.all_reread, branchKeys, List.filterMap_map]
  exact List.filterMap_congr fun o _ => branchKey?_reread t o

end Occurrence

namespace Grammar

variable {source : Source} {full : Bool}

/-! ### Branches and flow -/

/-- An occurrence of a branch comes from a branch of the grammar. -/
theorem isBranch_of_branchKey? {g : Grammar} {key other : Key}
    (h : (walkBody source full g key).branchKey? = some other) : g.isBranch = true := by
  cases g with
  | branch => rfl
  | choice attrs options =>
    obtain ⟨selected, content, e⟩ := exists_walkBody_choice source full attrs options key
    rw [e] at h
    cases h
  | array attrs content => cases content <;> cases h
  | _ => cases h

/-- A branch carries flow on both of its sides. -/
theorem channel?_of_branchKey? {g : Grammar} {key other : Key}
    (h : (walkBody source full g key).branchKey? = some other) (direction : Direction) :
    g.channel? direction = some .flow := by
  have branch := isBranch_of_branchKey? h
  cases g <;> first | rfl | cases branch

/-- Of all leaves, branches alone carry flow. -/
theorem branchKey?_of_channel? {g : Grammar} {key : Key} {direction : Direction}
    (h : g.channel? direction = some .flow) :
    (walkBody source full g key).branchKey? = some key := by
  cases g with
  | branch => rfl
  | primitive attrs subtype => cases subtype <;> cases direction <;> cases h
  | array attrs content =>
    cases content with
    | none => cases direction <;> cases h
    | some content => cases h
  | _ => cases h

/-- What is walked below a node without branches holds none. -/
theorem hasBranch_of_mem_walkBody {g : Grammar} {key other : Key} {o : Occurrence}
    (h : o ∈ (walkBody source full g key).all) (branch : o.branchKey? = some other) :
    g.hasBranch = true := by
  induction g using inductionOn generalizing key with
  | node g ih =>
    rw [all_walkBody, List.mem_append, List.mem_flatMap] at h
    rcases h with ⟨⟨c, above⟩, hc, h⟩ | h
    · have child := mem_children_of_mem_walked source hc
      rw [all_walkBelow, List.mem_append, List.mem_flatMap] at h
      rcases h with ⟨k, -, h⟩ | h
      · exact hasBranch_of_mem_children child (ih c child h)
      · -- what wraps a node is no leaf, and so no branch
        have leaf := (Occurrence.isLeaf_of_branchKey? branch).1
        rw [isLeaf_of_mem_wrappers h] at leaf
        cases leaf
    · obtain rfl := List.mem_singleton.1 h
      exact hasBranch_of_isBranch (isBranch_of_branchKey? branch)

/-! ### Branches of a full walk -/

/-- A full walk meets no branches but those of a walk that leaves out what is turned off. -/
theorem mem_walkBody_of_full {g : Grammar} {key other : Key} {o : Occurrence}
    (required : g.requiresBranches = true) (h : o ∈ (walkBody source true g key).all)
    (branch : o.branchKey? = some other) : o ∈ (walkBody source false g key).all := by
  induction g using inductionOn generalizing key with
  | node g ih =>
    have leaf := (Occurrence.isLeaf_of_branchKey? branch).1
    rw [all_walkBody, List.mem_append, List.mem_flatMap] at h ⊢
    rcases h with ⟨⟨c, above⟩, hc, h⟩ | h
    · have child := mem_children_of_mem_walked source hc
      have required_child := (everyNode_iff.1 required).2 c child
      rw [all_walkBelow, List.mem_append, List.mem_flatMap] at h
      rcases h with ⟨k, hk, h⟩ | h
      · refine .inl ⟨(c, above), hc, ?_⟩
        rw [all_walkBelow, List.mem_append, List.mem_flatMap]
        refine .inl ⟨k, ?_, ih c child required_child h⟩
        -- the child holds a branch, so that it has no flag to be turned off by
        have unflagged : c.isFlagged = false := by
          have allowed := (everyNode_iff.1 required_child).1
          rw [hasBranch_of_mem_walkBody h branch] at allowed
          simpa using allowed
        rw [bodyKeys, isEntered, unflagged] at hk ⊢
        exact hk
      · rw [isLeaf_of_mem_wrappers h] at leaf
        cases leaf
    · obtain rfl := List.mem_singleton.1 h
      have isBranch := isBranch_of_branchKey? branch
      refine .inr (List.mem_singleton.2 ?_)
      cases g <;> first | rfl | cases isBranch

end Grammar

namespace Command

variable {c : Command} {source : Source} {full : Bool}

/-! ### Branches of a command -/

/-- Whether there is a branch among the arguments. -/
def hasBranch (c : Command) : Bool :=
  c.toGrammar.hasBranch

/-- Whether no branch lies inside an optional argument. -/
def requiresBranches (c : Command) : Bool :=
  c.toGrammar.requiresBranches

/-- A command whose branches are all required shows them in every walk. -/
theorem mem_branchKeys_of_full (required : c.requiresBranches = true) {key : Key}
    (h : key ∈ Occurrence.branchKeys (c.walk source true).all) :
    key ∈ Occurrence.branchKeys (c.walk source false).all := by
  obtain ⟨o, mem, branch⟩ := List.mem_filterMap.1 h
  refine List.mem_filterMap.2 ⟨o, ?_, branch⟩
  have below := Grammar.mem_walkBody_of_full required (mem_walkBody_of_mem_walk mem) branch
  -- the arguments are walked as those of a subcommand, which is no branch itself
  rcases List.mem_append.1 below with below | below
  · exact below
  · rw [List.mem_singleton.1 below] at branch
    cases branch

/-- Where there is a branch in the tree, there is one in the grammar. -/
theorem hasBranch_of_mem_branchKeys {key : Key}
    (h : key ∈ Occurrence.branchKeys (c.walk source full).all) : c.hasBranch = true := by
  obtain ⟨o, mem, branch⟩ := List.mem_filterMap.1 h
  exact Grammar.hasBranch_of_mem_walkBody (mem_walkBody_of_mem_walk mem) branch

/-- At the key of a branch there are flow sockets, as far as the command goes. -/
theorem channel?_of_mem_branchKeys {key : Key}
    (h : key ∈ Occurrence.branchKeys (c.walk source full).all) (direction : Direction) :
    c.channel? key direction = some .flow := by
  obtain ⟨o, mem, isBranch⟩ := List.mem_filterMap.1 h
  obtain ⟨leaf, rfl⟩ := Occurrence.isLeaf_of_branchKey? isBranch
  rw [channel?, if_neg (ne_flow_of_mem_walk mem), at?_of_mem_walk mem (.inl leaf),
    Option.bind_some]
  -- a leaf is the occurrence of a node at its key, with nothing around it
  obtain ⟨g, key, rfl⟩ := Grammar.exists_walkBody_of_mem (mem_walkBody_of_mem_walk mem)
    (Occurrence.isWrapper_of_isLeaf leaf)
  rw [Grammar.node_walkBody]
  exact Grammar.channel?_of_branchKey? isBranch direction

/-- A flow socket is one of the execution of a statement or lies at a branch of the full walk. -/
theorem flow_or_branch_of_find? {values : Values} {expanded : Bool} {key : Key}
    {direction : Direction} {s : Socket}
    (h : (c.sockets values expanded).find? key direction = some s) (flow : s.channel = .flow) :
    (key = .flow ∧ c.category.isStatement = true) ∨
      key ∈ Occurrence.branchKeys (c.walk (.ofValues values) true).all := by
  obtain ⟨rfl, -, own | argument⟩ := mem_of_find? h
  · rw [flowSockets] at own
    split at own
    · next statement => exact .inl ⟨(Occurrence.mem_socketPair own).1, statement⟩
    · cases own
  · obtain ⟨o, mem, leaf, e, channel⟩ := exists_leaf_of_mem_argumentSockets argument
    obtain ⟨g, k, rfl⟩ := Grammar.exists_walkBody_of_mem (mem_walkBody_of_mem_walk mem)
      (Occurrence.isWrapper_of_isLeaf leaf)
    rw [Grammar.node_walkBody, flow] at channel
    rw [Grammar.key_walkBody] at e
    refine .inr (List.mem_filterMap.2 ⟨_, mem, ?_⟩)
    rw [Grammar.branchKey?_of_channel? channel, e]

end Command

end CommandGraph
