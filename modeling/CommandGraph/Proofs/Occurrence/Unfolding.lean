/-
CommandGraph/Proofs/Occurrence/Unfolding.lean

The occurrences of a walk, one level at a time.

Whatever its kind, a node at a key contributes the occurrences of the children that are
walked there, and itself behind them:

    (walkBody source full g key).all =
      (g.walked source key).flatMap (children's occurrences) ++ [walkBody source full g key]

and a node below a key contributes those of its body at every key of `bodyKeys`, and
behind them the optional and repeated occurrences that wrap it.  Proofs about the
occurrences of a walk go through `all_walkBody` and `all_walkBelow` and need no case
split over the kinds of nodes.
-/
import CommandGraph.Proofs.Grammar.Children
import Mathlib.Data.List.Basic

namespace CommandGraph

/-! ### Keys with a path behind them -/

/-- A key with a path behind it. -/
def Key.extend (key : Key) (path : List Segment) : Key where
  segments := key.segments ++ path

@[simp] theorem Key.extend_nil (key : Key) : key.extend [] = key := by
  rw [Key.extend, List.append_nil]

theorem Key.extend_extend (key : Key) (path rest : List Segment) :
    (key.extend path).extend rest = key.extend (path ++ rest) := by
  rw [Key.extend, Key.extend, Key.extend, List.append_assoc]

theorem Key.push_eq_extend (key : Key) (segment : Segment) :
    key.push segment = key.extend [segment] := rfl

namespace Occurrence

theorem allOfOption_eq_flatMap (o : Option Occurrence) :
    allOfOption o = o.toList.flatMap all := by
  cases o with
  | none => rfl
  | some o => rw [allOfOption, Option.toList_some, List.flatMap_singleton]

/-- An occurrence is one of its tree, the last one. -/
theorem mem_all_self (o : Occurrence) : o ∈ o.all := by
  cases o <;> simp [all]

end Occurrence

namespace Grammar

variable (source : Source) (full : Bool)

/-! ### A node at its key -/

/-- The children that are walked under a node at a key, each with the key below which it is. -/
def walked : Grammar → Key → List (Grammar × Key)
  | primitive .., _ | keyword .., _ | assignment .., _ | branch _, _ => []
  | choice _ options, key =>
    (((source.text? key).filter (· != noOption)).bind (option? options)).toList.map (·, key)
  | block _ content, key => content.zipIdx.map fun p => (p.1, key.ordinal p.2)
  | subcommand _ param args, key =>
    param.toList.map (·, key.arrayParam) ++ args.zipIdx.map fun p => (p.1, key.ordinal p.2)
  | group _ children, key => children.zipIdx.map fun p => (p.1, key.ordinal p.2)
  | array _ content _ _, key =>
    content.toList.flatMap fun g =>
      (List.range (source.count key.count)).map fun i => (g, key.ordinal i)
  | base _ param, key => param.toList.map (·, key.arrayParam)

/-- What is walked below a node is one of its children.  The converse does not hold: of the options
of a choice, one is walked at most. -/
theorem mem_children_of_mem_walked {g c : Grammar} {key above : Key}
    (h : (c, above) ∈ g.walked source key) : c ∈ g.children := by
  cases g with
  | primitive | keyword | assignment | branch => simp [walked] at h
  | choice attrs options =>
    simp only [walked, List.mem_map, Option.mem_toList, Option.bind_eq_some_iff, Prod.mk.injEq] at h
    obtain ⟨o, ⟨selection, -, ho⟩, rfl, -⟩ := h
    exact List.mem_of_find?_eq_some ho
  | block attrs gs | group attrs gs =>
    simp only [walked, List.mem_map, Prod.mk.injEq] at h
    obtain ⟨p, hp, rfl, -⟩ := h
    exact (List.mem_zipIdx' hp).2 ▸ List.getElem_mem _
  | subcommand attrs param args =>
    simp only [walked, List.mem_append, List.mem_map, Prod.mk.injEq] at h
    rcases h with ⟨p, hp, rfl, -⟩ | ⟨p, hp, rfl, -⟩
    · exact List.mem_append_left _ hp
    · exact List.mem_append_right _ ((List.mem_zipIdx' hp).2 ▸ List.getElem_mem _)
  | array attrs content delimiters separator =>
    simp only [walked, List.mem_flatMap, List.mem_map, Prod.mk.injEq] at h
    obtain ⟨o, ho, i, -, rfl, -⟩ := h
    exact ho
  | base attrs param =>
    simp only [walked, List.mem_map, Prod.mk.injEq] at h
    obtain ⟨p, hp, rfl, -⟩ := h
    exact hp

/-- Whatever is selected, a choice is walked as a choice. -/
theorem exists_walkBody_choice (attrs : Attributes) (options : List Grammar) (key : Key) :
    ∃ selected content, walkBody source full (choice attrs options) key =
      .choice (choice attrs options) key selected content := by
  rw [walkBody]
  split
  · exact ⟨none, none, rfl⟩
  · split
    · exact ⟨none, none, rfl⟩
    · exact ⟨some _, _, rfl⟩

/-- The occurrences of a node at its key: those of its children, and itself behind them. -/
theorem all_walkBody (g : Grammar) (key : Key) :
    (walkBody source full g key).all =
      ((g.walked source key).flatMap fun p =>
        Occurrence.allOfOption (walkBelow source full p.1 p.2)) ++
        [walkBody source full g key] := by
  -- children come as siblings or as a parameter, apart from options and items
  have siblings (gs : List Grammar) :
      Occurrence.allOfList (walkChildren source full 0 gs key) =
        (gs.zipIdx.map fun p => (p.1, key.ordinal p.2)).flatMap fun p =>
          Occurrence.allOfOption (walkBelow source full p.1 p.2) := by
    rw [Occurrence.allOfList_eq_flatMap, walkChildren_eq, List.flatMap_assoc, List.flatMap_map]
    simp only [Occurrence.allOfOption_eq_flatMap]
  have param (p : Option Grammar) :
      Occurrence.allOfOption (walkParam source full p key) =
        (p.toList.map (·, key.arrayParam)).flatMap fun p =>
          Occurrence.allOfOption (walkBelow source full p.1 p.2) := by
    cases p with
    | none => rfl
    | some g => simp [walkParam_eq]
  cases g with
  | primitive | keyword | assignment | branch => simp [walkBody, Occurrence.all, walked]
  | choice attrs options =>
    rw [walkBody, walked]
    rcases (source.text? key).filter (· != noOption) with - | selection
    · simp [Occurrence.all, Occurrence.allOfOption]
    · -- of the options, the selected one
      simp only [walkOption_eq, Option.bind_some]
      rcases option? options selection with - | o <;> simp [Occurrence.all, Occurrence.allOfOption]
  | block attrs content => rw [walkBody, Occurrence.all, siblings, walked]
  | group attrs children => rw [walkBody, Occurrence.all, siblings, walked]
  | subcommand attrs p args =>
    rw [walkBody, Occurrence.all, siblings, param, walked, List.flatMap_append]
  | array attrs content delimiters separator =>
    cases content with
    | none => simp [walkBody, Occurrence.all, walked]
    | some content =>
      -- the items of an array are walked below consecutive keys
      rw [walkBody, Occurrence.all, Occurrence.allOfList_eq_flatMap, walked, Option.toList_some,
        List.flatMap_singleton, List.flatMap_map, List.filterMap_eq_flatMap_toList,
        List.flatMap_assoc]
      simp only [Occurrence.allOfOption_eq_flatMap, walkBelow]
  | base attrs p => rw [walkBody, Occurrence.all, param, walked]

/-! ### A node below a key -/

/-- Whether a node is optional and marks this by a flag of its own, as choices do not. -/
def isFlagged (g : Grammar) : Bool :=
  g.isOptional && !g.isChoice

/-- The key of a node below another key. -/
def keyBelow (g : Grammar) (above : Key) : Key :=
  above.join g.identifier

/-! ### Where its body is walked -/

/-- Whether the content of a node below a key is walked. -/
def isEntered (g : Grammar) (above : Key) : Bool :=
  g.isAddressable && (!g.isFlagged || source.flag (g.flagKey (g.keyBelow above)) || full)

/-- The keys at which the body of a node is walked, one per item. -/
def itemKeys (g : Grammar) (key : Key) : List Key :=
  if g.isRepeatable then
    (List.range (source.count key.count)).map fun i => (key.ordinal i).join g.identifier
  else [key]

/-- The keys at which the body of a node below a key is walked. -/
def bodyKeys (g : Grammar) (above : Key) : List Key :=
  if g.isEntered source full above then g.itemKeys source (g.keyBelow above) else []

/-! ### What wraps its body -/

/-- The repeated occurrence around the items of a node. -/
def repeatWrapper (g : Grammar) (key : Key) : List Occurrence :=
  if g.isRepeatable then [repeatedAt source g (walkBody source full g) key] else []

/-- The occurrences around the body of a node below a key. -/
def wrappers (g : Grammar) (above : Key) : List Occurrence :=
  (if g.isEntered source full above then g.repeatWrapper source full (g.keyBelow above) else []) ++
    if g.isFlagged then (walkBelow source full g above).toList else []

variable {source full} in
/-- What wraps a node is its repeated occurrence, or its optional one. -/
theorem eq_of_mem_wrappers {g : Grammar} {above : Key} {o : Occurrence}
    (h : o ∈ g.wrappers source full above) :
    (g.isEntered source full above = true ∧ g.isRepeatable = true ∧
        ∃ items, o = .repeated g (g.keyBelow above) (source.count (g.keyBelow above).count) items) ∨
      (g.isAddressable = true ∧ g.isFlagged = true ∧ ∃ content, o =
        .optional g (g.keyBelow above) (source.flag (g.flagKey (g.keyBelow above))) content) := by
  rw [wrappers, List.mem_append] at h
  rcases h with h | h
  · split at h
    · next entered =>
      rw [repeatWrapper] at h
      split at h
      · next repeatable =>
        rw [repeatedAt, if_pos repeatable] at h
        exact .inl ⟨entered, repeatable, _, List.mem_singleton.1 h⟩
      · cases h
    · cases h
  · split at h
    · next flagged =>
      rw [walkBelow, enter] at h
      -- the test of the flag, as it stands in the walk
      have test : (g.isOptional && !g.isChoice) = true := flagged
      rcases addressable : g.isAddressable with - | -
      · simp [addressable] at h
      · simp only [addressable, Bool.not_true, Bool.false_eq_true, if_false, test, if_true] at h
        exact .inr ⟨rfl, flagged, _, Option.some.inj (Option.mem_toList.1 h).symm⟩
    · cases h

/-- The items of a node, and behind them what wraps them. -/
theorem all_repeatedAt (g : Grammar) (key : Key) :
    (repeatedAt source g (walkBody source full g) key).all =
      ((g.itemKeys source key).flatMap fun k => (walkBody source full g k).all) ++
        g.repeatWrapper source full key := by
  rw [repeatedAt, itemKeys, repeatWrapper, repeatedAt]
  split
  · rw [Occurrence.all, Occurrence.allOfList_eq_flatMap, List.flatMap_map, List.flatMap_map]
  · rw [List.flatMap_singleton, List.append_nil]

/-! ### All occurrences -/

/-- The occurrences of a node below a key: those of its body, and what wraps it behind them. -/
theorem all_walkBelow (g : Grammar) (above : Key) :
    Occurrence.allOfOption (walkBelow source full g above) =
      ((g.bodyKeys source full above).flatMap fun k => (walkBody source full g k).all) ++
        g.wrappers source full above := by
  rw [bodyKeys, wrappers, isEntered, isFlagged, walkBelow, enter, keyBelow]
  -- three tests: whether the node has a place in keys, has a flag, and is entered
  rcases ha : g.isAddressable with - | -
  · simp [Occurrence.allOfOption]
  rcases ho : g.isOptional && !g.isChoice with - | -
  · simp [Occurrence.allOfOption, all_repeatedAt]
  rcases he : source.flag (g.flagKey (above.join g.identifier)) || full with - | -
  · simp [Occurrence.allOfOption, Occurrence.all, he]
  · simp [Occurrence.allOfOption, Occurrence.all, all_repeatedAt, he]

end Grammar

end CommandGraph
