/-
CommandGraph/Proofs/Occurrence/Reread.lean

Walks under two sources of values.

What a walk reads decides either the shape of the argument tree (flags, counts,
selections) or the contents of its leaves.  If a second source answers the first kind
of questions alike, then its walk gives the same tree with the leaves read anew:

    c.walk t full = (c.walk s full).reread t        (`Command.walk_eq_reread`)

In particular a walk depends on its source at the keys that it reads alone
(`Command.walk_eq_of_reads`), and none of these is the key of a kept result.
-/
import CommandGraph.Proofs.Occurrence.Address

namespace CommandGraph

namespace Occurrence

variable (s t : Source)

/-! ### Reading leaves anew -/

mutual

/-- The tree with the values of its leaves looked up in another source. -/
def reread : Occurrence → Occurrence
  | scalar node key subtype _ => scalar node key subtype (t key)
  | literal node key text => literal node key text
  | optional node key enabled content => optional node key enabled (rereadOption content)
  | repeated node key count items => repeated node key count (rereadList items)
  | choice node key selected content => choice node key selected (rereadOption content)
  | block node key children => block node key (rereadList children)
  | branch node key => branch node key
  | subcommand node key param args =>
    subcommand node key (rereadOption param) (rereadList args)
  | group node key children => group node key (rereadList children)
  | array node key items => array node key (rereadList items)
  | base node key param => base node key (rereadOption param)

/-- An argument that may be missing, with its values looked up elsewhere. -/
def rereadOption : Option Occurrence → Option Occurrence
  | none => none
  | some o => some o.reread

/-- Arguments side by side, with their values looked up elsewhere. -/
def rereadList : List Occurrence → List Occurrence
  | [] => []
  | o :: os => o.reread :: rereadList os

end

theorem rereadOption_eq_map (o : Option Occurrence) : rereadOption t o = o.map (reread t) := by
  cases o <;> rfl

theorem rereadList_eq_map (os : List Occurrence) : rereadList t os = os.map (reread t) := by
  induction os with
  | nil => rfl
  | cons o os ih => rw [rereadList, ih, List.map_cons]

mutual

/-- Reading leaves anew keeps the tree, so that its occurrences are those from before with their
leaves read anew. -/
theorem all_reread : ∀ o : Occurrence, (o.reread t).all = o.all.map (reread t)
  | scalar .. | literal .. | branch .. => rfl
  | optional _ _ _ content | choice _ _ _ content | base _ _ content => by
    simp only [reread, all, List.map_append, List.map_singleton, allOfOption_reread content]
  | repeated _ _ _ os | block _ _ os | group _ _ os | array _ _ os => by
    simp only [reread, all, List.map_append, List.map_singleton, allOfList_reread os]
  | subcommand _ _ param args => by
    simp only [reread, all, List.map_append, List.map_singleton, allOfOption_reread param,
      allOfList_reread args]

theorem allOfOption_reread : ∀ o : Option Occurrence,
    allOfOption (rereadOption t o) = (allOfOption o).map (reread t)
  | none => rfl
  | some o => all_reread o

theorem allOfList_reread : ∀ os : List Occurrence,
    allOfList (rereadList t os) = (allOfList os).map (reread t)
  | [] => rfl
  | o :: os => by
    rw [rereadList, allOfList, allOfList, List.map_append, all_reread o, allOfList_reread os]

end

/-! ### Reading the same values -/

/-- Whether a source holds the value that a leaf has read. -/
def Confirms : Occurrence → Prop
  | scalar _ key _ reading => t key = reading
  | _ => True

mutual

/-- Reading the same values again changes nothing. -/
theorem reread_eq_self : ∀ o : Occurrence, (∀ p ∈ o.all, p.Confirms t) → o.reread t = o
  | scalar node key subtype reading, h => by
    have e : t key = reading := h _ (mem_all_self _)
    rw [reread, e]
  | literal .., _ | branch .., _ => rfl
  | optional _ _ _ content, h | choice _ _ _ content, h | base _ _ content, h => by
    rw [reread, rereadOption_eq_self content fun p hp => h p (List.mem_append_left _ hp)]
  | repeated _ _ _ os, h | block _ _ os, h | group _ _ os, h | array _ _ os, h => by
    rw [reread, rereadList_eq_self os fun p hp => h p (List.mem_append_left _ hp)]
  | subcommand _ _ param args, h => by
    rw [reread,
      rereadOption_eq_self param fun p hp =>
        h p (List.mem_append_left _ (List.mem_append_left _ hp)),
      rereadList_eq_self args fun p hp =>
        h p (List.mem_append_left _ (List.mem_append_right _ hp))]

theorem rereadOption_eq_self : ∀ o : Option Occurrence,
    (∀ p ∈ allOfOption o, p.Confirms t) → rereadOption t o = o
  | none, _ => rfl
  | some o, h => by rw [rereadOption, reread_eq_self o h]

theorem rereadList_eq_self : ∀ os : List Occurrence,
    (∀ p ∈ allOfList os, p.Confirms t) → rereadList t os = os
  | [], _ => rfl
  | o :: os, h => by
    rw [rereadList, reread_eq_self o fun p hp => h p (List.mem_append_left _ hp),
      rereadList_eq_self os fun p hp => h p (List.mem_append_right _ hp)]

end

/-! ### Sources that give one shape -/

/-- The key at which an occurrence itself reads a value. -/
def readKey? : Occurrence → Option Key
  | scalar _ key _ _ | choice _ key _ _ => some key
  | optional node key _ _ => some (node.flagKey key)
  | repeated _ key _ _ | array _ key _ => some key.count
  | _ => none

/-- Whether two sources answer alike what an occurrence has asked to find its shape. -/
def DecidedAlike : Occurrence → Prop
  | optional node key _ _ => t.flag (node.flagKey key) = s.flag (node.flagKey key)
  | repeated _ key _ _ | array _ key _ => t.count key.count = s.count key.count
  | choice _ key _ _ => t.text? key = s.text? key
  | _ => True

end Occurrence

namespace Grammar

open Occurrence

variable {s t : Source} {full : Bool}

/-! ### One node -/

/-- The items of a node: if their number is the same, each is walked as before. -/
theorem repeatedAt_eq_reread {g : Grammar} {key : Key}
    (body : ∀ k, (∀ o ∈ (walkBody s full g k).all, o.DecidedAlike s t) →
      walkBody t full g k = (walkBody s full g k).reread t)
    (h : ∀ o ∈ (repeatedAt s g (walkBody s full g) key).all, o.DecidedAlike s t) :
    repeatedAt t g (walkBody t full g) key = (repeatedAt s g (walkBody s full g) key).reread t := by
  rw [repeatedAt] at h ⊢
  rw [repeatedAt]
  split
  · next hr =>
    simp only [hr, if_true] at h
    -- the repeated occurrence itself tells that the numbers of items are the same
    have counts : t.count key.count = s.count key.count := h _ (mem_all_self _)
    rw [counts, reread, rereadList_eq_map, List.map_map]
    refine congrArg _ (List.map_congr_left fun i hi => body _ fun o ho => h o ?_)
    rw [Occurrence.all, allOfList_eq_flatMap, List.flatMap_map]
    exact List.mem_append_left _ (List.mem_flatMap.2 ⟨i, hi, ho⟩)
  · next hr =>
    simp only [hr] at h
    exact body key h

/-- A node below a key: if its flag is the same, its content is walked as before. -/
theorem walkBelow_eq_reread {g : Grammar} {above : Key}
    (body : ∀ k, (∀ o ∈ (walkBody s full g k).all, o.DecidedAlike s t) →
      walkBody t full g k = (walkBody s full g k).reread t)
    (h : ∀ o ∈ allOfOption (walkBelow s full g above), o.DecidedAlike s t) :
    walkBelow t full g above = (walkBelow s full g above).map (reread t) := by
  rw [walkBelow, enter] at h ⊢
  rw [walkBelow, enter]
  rcases ha : g.isAddressable with - | -
  · rfl
  rcases ho : g.isOptional && !g.isChoice with - | -
  · simp only [ha, ho, Bool.not_true, Bool.false_eq_true, if_false, allOfOption] at h ⊢
    rw [repeatedAt_eq_reread body h]
    rfl
  · simp only [ha, ho, Bool.not_true, Bool.false_eq_true, if_false, if_true, allOfOption] at h ⊢
    -- the optional occurrence tells that the flags are the same
    have flags : t.flag (g.flagKey (above.join g.identifier)) =
        s.flag (g.flagKey (above.join g.identifier)) := h _ (mem_all_self _)
    rw [flags, Option.map_some, reread, rereadOption_eq_map]
    split
    · next he =>
      simp only [he, if_true] at h
      rw [repeatedAt_eq_reread body fun o ho => h o (List.mem_append_left _ ho)]
      rfl
    · rfl

/-! ### Whole trees -/

/-- Sources that decide the shape of a walk alike give the same tree, up to its leaves. -/
theorem walkBody_eq_reread {g : Grammar} {key : Key}
    (h : ∀ o ∈ (walkBody s full g key).all, o.DecidedAlike s t) :
    walkBody t full g key = (walkBody s full g key).reread t := by
  induction g using inductionOn generalizing key with
  | node g ih =>
    -- children of every kind of node are treated at once, as those that are walked
    have below : ∀ p ∈ g.walked s key,
        walkBelow t full p.1 p.2 = (walkBelow s full p.1 p.2).map (reread t) := by
      intro p hp
      refine walkBelow_eq_reread (fun k => ih p.1 (mem_children_of_mem_walked s hp)) ?_
      intro o ho
      apply h
      rw [all_walkBody]
      exact List.mem_append_left _ (List.mem_flatMap.2 ⟨p, hp, ho⟩)
    have siblings {gs : List Grammar}
        (hgs : ∀ p ∈ gs.zipIdx, (p.1, key.ordinal p.2) ∈ g.walked s key) :
        walkChildren t full 0 gs key = rereadList t (walkChildren s full 0 gs key) := by
      rw [rereadList_eq_map, walkChildren_eq, walkChildren_eq, List.map_flatMap]
      refine List.flatMap_congr fun p hp => ?_
      rw [below _ (hgs p hp), Option.toList_map]
    have parameter {param : Option Grammar}
        (hp : ∀ g' ∈ param, (g', key.arrayParam) ∈ g.walked s key) :
        walkParam t full param key = rereadOption t (walkParam s full param key) := by
      cases param with
      | none => rfl
      | some g' =>
        rw [rereadOption_eq_map]
        exact below _ (hp g' rfl)
    cases g with
    | primitive | keyword | assignment | branch => rfl
    | choice attrs options =>
      -- the choice itself tells that the selections are the same
      have selections : t.text? key = s.text? key := by
        have alike := h _ (mem_all_self _)
        obtain ⟨selected, content, e⟩ := exists_walkBody_choice s full attrs options key
        rw [e] at alike
        exact alike
      rw [walkBody, walkBody, selections]
      rcases e : (s.text? key).filter (· != noOption) with - | selection
      · rfl
      · simp only [walkOption_eq]
        rcases eo : option? options selection with - | o
        · rfl
        · have mem : (o, key) ∈ (choice attrs options).walked s key := by
            simp [walked, e, eo]
          simp only [Option.map_some, reread, rereadOption_eq_map]
          rw [below _ mem]
    | block attrs content =>
      rw [walkBody, walkBody, reread, siblings fun p hp => List.mem_map_of_mem hp]
    | group attrs children =>
      rw [walkBody, walkBody, reread, siblings fun p hp => List.mem_map_of_mem hp]
    | subcommand attrs param args =>
      rw [walkBody, walkBody, reread]
      rw [siblings fun p hp => List.mem_append_right _ (List.mem_map_of_mem hp)]
      rw [parameter fun g' hg => List.mem_append_left _
        (List.mem_map_of_mem (Option.mem_toList.2 hg))]
    | array attrs content delimiters separator =>
      cases content with
      | none => rfl
      | some content =>
        -- so does an array of the numbers of items
        have counts : t.count key.count = s.count key.count := h _ (mem_all_self _)
        rw [walkBody, walkBody, reread, counts, rereadList_eq_map, List.map_filterMap]
        refine congrArg _ (List.filterMap_congr fun i hi => ?_)
        refine below (content, key.ordinal i) ?_
        rw [walked, Option.toList_some, List.flatMap_singleton]
        exact List.mem_map_of_mem hi
    | base attrs param =>
      rw [walkBody, walkBody, reread]
      rw [parameter fun g' hg => List.mem_map_of_mem (Option.mem_toList.2 hg)]

end Grammar

/-! ### Commands -/

/-- The arguments with the values of their leaves looked up in another source. -/
def Arguments.reread (t : Source) (arguments : Arguments) : Arguments where
  param := Occurrence.rereadOption t arguments.param
  args := Occurrence.rereadList t arguments.args

/-- A command keeps the shape of its arguments. -/
theorem Arguments.all_reread (t : Source) (arguments : Arguments) :
    (arguments.reread t).all = arguments.all.map (Occurrence.reread t) := by
  rw [all, reread, all, List.map_append, Occurrence.allOfOption_reread,
    Occurrence.allOfList_reread]

namespace Command

variable {s t : Source} {full : Bool}

/-- Sources that decide the shape of a walk alike give the same arguments, up to the leaves. -/
theorem walk_eq_reread {c : Command}
    (h : ∀ o ∈ (c.walk s full).all, o.DecidedAlike s t) :
    c.walk t full = (c.walk s full).reread t := by
  have body : Grammar.walkBody t full c.toGrammar .root =
      (Grammar.walkBody s full c.toGrammar .root).reread t := by
    apply Grammar.walkBody_eq_reread
    intro o ho
    -- the node of the whole command has read nothing
    rcases List.mem_append.1 ho with ho | ho
    · exact h o ho
    · obtain rfl := List.mem_singleton.1 ho
      trivial
  obtain ⟨-, -, hp, ha⟩ := Occurrence.subcommand.inj body
  rw [walk, hp, ha]
  rfl

/-- A leaf of a walk is confirmed by every source that agrees at its key. -/
theorem confirms_of_mem_walk {c : Command} {o : Occurrence} (h : o ∈ (c.walk s full).all)
    (alike : s o.key = t o.key) : o.Confirms t := by
  cases o with
  | scalar node key subtype reading =>
    obtain ⟨g, k, e⟩ := Grammar.exists_walkBody_of_mem (mem_walkBody_of_mem_walk h) rfl
    -- of all nodes only values read something, and they read it at their own keys
    show t key = reading
    rw [← show s key = t key from alike]
    cases g with
    | primitive =>
      obtain ⟨-, rfl, -, rfl⟩ := Occurrence.scalar.inj e
      rfl
    | choice attrs options =>
      obtain ⟨selected, content, e'⟩ := Grammar.exists_walkBody_choice s full attrs options k
      cases e.trans e'
    | array attrs content =>
      cases content with
      | none =>
        obtain ⟨-, rfl, -, rfl⟩ := Occurrence.scalar.inj e
        rfl
      | some content => simp [Grammar.walkBody] at e
    | _ => simp [Grammar.walkBody] at e
  | _ => trivial

/-- Sources that agree on what a walk reads give the same arguments. -/
theorem walk_eq_of_reads {c : Command}
    (h : ∀ o ∈ (c.walk s full).all, ∀ key, o.readKey? = some key → t key = s key) :
    c.walk t full = c.walk s full := by
  have value {o : Occurrence} (ho : o ∈ (c.walk s full).all) {key : Key}
      (hk : o.readKey? = some key) : t.value? key = s.value? key := by
    rw [Source.value?, Source.value?, h o ho key hk]
  -- flags, counts and selections follow from the values at the keys that are read
  have shape : ∀ o ∈ (c.walk s full).all, o.DecidedAlike s t := by
    intro o ho
    cases o with
    | optional node key enabled content =>
      show t.flag _ = s.flag _
      rw [Source.flag, Source.flag, value ho rfl]
    | repeated node key | array node key =>
      show t.count _ = s.count _
      rw [Source.count, Source.count, value ho rfl]
    | choice node key =>
      show t.text? key = s.text? key
      rw [Source.text?, Source.text?, value ho rfl]
    | _ => trivial
  have confirmed : ∀ o ∈ (c.walk s full).all, o.Confirms t := by
    intro o ho
    cases o with
    | scalar node key => exact confirms_of_mem_walk ho (h _ ho key rfl).symm
    | _ => trivial
  rw [walk_eq_reread shape, Arguments.reread,
    Occurrence.rereadOption_eq_self t _ fun o ho => confirmed o (List.mem_append_left _ ho),
    Occurrence.rereadList_eq_self t _ fun o ho => confirmed o (List.mem_append_right _ ho)]

/-- A walk reads no kept results. -/
theorem marker?_of_readKey? {c : Command} {o : Occurrence} (ho : o ∈ (c.walk s full).all)
    {key : Key} (h : o.readKey? = some key) : key.marker? ≠ some .result := by
  -- keys of arguments have no marker; flags and counts have markers of their own
  have own : o.key.marker? ≠ some .result := by
    simp [Key.marker?_of_unmarked (unmarked_of_mem_walk ho)]
  cases o with
  | scalar | choice =>
    cases h
    exact own
  | repeated | array =>
    cases h
    simp [Key.count]
  | optional node =>
    cases h
    rw [Grammar.flagKey]
    split
    · exact own
    · simp [Key.enabled]
  | _ => cases h

/-- A walk does not depend on kept results. -/
theorem walk_congr {c : Command} (h : ∀ key : Key, key.marker? ≠ some .result → s key = t key) :
    c.walk t full = c.walk s full :=
  walk_eq_of_reads fun _ ho key hk => (h key (marker?_of_readKey? ho hk)).symm

end Command

end CommandGraph
