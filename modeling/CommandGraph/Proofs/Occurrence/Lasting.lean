/-
CommandGraph/Proofs/Occurrence/Lasting.lean

Places that last.

An edit of a node's values locates an occurrence by its key, changes what is stored at the key or
behind it, and the next edit locates an occurrence again, in another walk.  What leads to an
occurrence is stored outside of it, as the counts and selections of what it is in.  So the place of
an occurrence lasts when these entries are kept (`Command.exists_sameSite`): the new walk has an
occurrence of the same node at the same key, whatever has become of what is inside.

The one entry that can be both is that at the key itself, when the occurrence is an option without
a name: its choice stores the selection there.  For a choice it is its own selection.
-/
import CommandGraph.Graph.Edit
import CommandGraph.Proofs.Occurrence.Nesting

namespace CommandGraph

/-- A marker of a key does not lie behind what is beyond the key. -/
theorem Key.isUnder_marked_of_beyond {x key : Key} (h : x.Beyond key) (m : Marker) :
    (key.marked m).isUnder x = false := by
  refine Bool.eq_false_iff.2 fun under => ?_
  obtain ⟨path, e⟩ := exists_extend_of_isUnder under
  exact (h.extend path).ne_marked m e.symm

namespace Occurrence

/-- Whether two occurrences are of one node at one key, in the same role. -/
structure SameSite (o p : Occurrence) : Prop where
  key_eq : p.key = o.key
  node_eq : p.node = o.node
  isWrapper_eq : p.isWrapper = o.isWrapper
  isResizable_eq : p.isResizable = o.isResizable

/-- Whether a map of values still has the entries that lead to an occurrence. -/
def LeadsTo (o : Occurrence) (v w : Values) : Prop :=
  ∀ (x : Key) (value : Scalar), (x.isUnder o.key = true → x = o.key ∧ o.isChoice = false) →
    v[x]? = some value → w[x]? = some value

theorem LeadsTo.refl (o : Occurrence) (v : Values) : o.LeadsTo v v :=
  fun _ _ _ found => found

/-- An item that an occurrence is in stays live, since its number is stored outside of the
occurrence. -/
theorem LeadsTo.count {o : Occurrence} {v w : Values} (h : o.LeadsTo v w) {key : Key}
    (beyond : o.key.Beyond key) {i : Nat} (live : i < (Source.ofValues v).count key.count) :
    i < (Source.ofValues w).count key.count := by
  refine Source.lt_count_ofValues (fun value => h _ value fun under => ?_) live
  rw [Key.count, Key.isUnder_marked_of_beyond beyond] at under
  cases under

end Occurrence

namespace Grammar

open Occurrence

variable {full : Bool} {v w : Values}

/-! ### One node in two walks -/

/-- Whether the number of items of a node can be changed depends on the node. -/
theorem isResizable_walkBody (source other : Source) (full also : Bool) (g : Grammar) (key : Key) :
    (walkBody source full g key).isResizable = (walkBody other also g key).isResizable := by
  cases g with
  | choice attrs options =>
    obtain ⟨_, _, e⟩ := exists_walkBody_choice source full attrs options key
    obtain ⟨_, _, e'⟩ := exists_walkBody_choice other also attrs options key
    rw [e, e']
    rfl
  | array attrs content => cases content <;> rfl
  | _ => rfl

/-- A node occurs at one key in the same role, whatever the values are. -/
theorem sameSite_walkBody (source other : Source) (full also : Bool) (g : Grammar) (key : Key) :
    (walkBody source full g key).SameSite (walkBody other also g key) where
  key_eq := by rw [key_walkBody, key_walkBody]
  node_eq := by rw [node_walkBody, node_walkBody]
  isWrapper_eq := by rw [isWrapper_walkBody, isWrapper_walkBody]
  isResizable_eq := isResizable_walkBody other source also full g key

/-- The part of a node that an occurrence is in is still walked. -/
theorem mem_walked_of_leadsTo {g c : Grammar} {key above : Key} {o : Occurrence}
    (hc : (c, above) ∈ g.walked (.ofValues v) key)
    (ho : o ∈ allOfOption (walkBelow (.ofValues v) full c above)) (leads : o.LeadsTo v w) :
    (c, above) ∈ g.walked (.ofValues w) key := by
  cases g with
  | choice attrs options =>
    have before : o.Precedes (.ofValues v) _ := precedes_walkBody hc ho
    have selection : ∀ value, v[key]? = some value → w[key]? = some value := by
      refine fun value => leads key value fun under => ?_
      -- the occurrence lies behind the choice, so that it can only be at the very key
      obtain ⟨path, e⟩ := Key.exists_extend_of_isUnder under
      cases path with
      | nil =>
        rw [Key.extend_nil] at e
        exact ⟨e, (before.same (by rw [key_walkBody, e])).1⟩
      | cons s rest => exact absurd (by rw [key_walkBody, e]) (before.outside s rest)
    simp only [walked, List.mem_map, Option.mem_toList, Option.bind_eq_some_iff,
      Option.filter_eq_some_iff, Source.text?, Source.value?_ofValues,
      Option.map_eq_some_iff] at hc ⊢
    obtain ⟨option, ⟨_, ⟨⟨value, found, rfl⟩, some_option⟩, declared⟩, e⟩ := hc
    exact ⟨option, ⟨_, ⟨⟨value, selection value found, rfl⟩, some_option⟩, declared⟩, e⟩
  | array attrs content =>
    -- the occurrence lies behind the array, so that the number of items is stored outside of it
    have beyond := key_beyond_of_mem_walked rfl hc ho
    simp only [walked, List.mem_flatMap, List.mem_map, List.mem_range] at hc ⊢
    obtain ⟨item, mem, i, live, e⟩ := hc
    exact ⟨item, mem, i, leads.count beyond live, e⟩
  | _ => exact hc

/-- The item of a node that an occurrence is in is still walked, also if it was walked because of a
flag. -/
theorem mem_bodyKeys_of_leadsTo {g : Grammar} {above key : Key} {o : Occurrence}
    (hk : key ∈ g.bodyKeys (.ofValues v) full above)
    (ho : o ∈ (walkBody (.ofValues v) full g key).all) (leads : o.LeadsTo v w) :
    key ∈ g.bodyKeys (.ofValues w) true above := by
  have items := hk
  rw [bodyKeys] at items ⊢
  split at items
  · next entered =>
    have addressable : g.isAddressable = true := (Bool.and_eq_true_iff.1 entered).1
    rw [isEntered, addressable, Bool.or_true, Bool.and_true, if_pos rfl]
    rw [itemKeys] at items ⊢
    split
    · next repeatable =>
      rw [if_pos repeatable] at items
      obtain ⟨i, live, rfl⟩ := List.mem_map.1 items
      have beyond := key_beyond_of_mem_items repeatable hk ho
      exact List.mem_map_of_mem (List.mem_range.2 (leads.count beyond (List.mem_range.1 live)))
    · next single => rwa [if_neg single] at items
  · cases items

/-- What wraps a node in one walk has a counterpart in every full walk. -/
theorem exists_sameSite_of_mem_wrappers {g : Grammar} {above : Key} {source : Source}
    {o : Occurrence} (ho : o ∈ g.wrappers source full above) (other : Source) :
    ∃ p ∈ g.wrappers other true above, o.SameSite p := by
  rcases eq_of_mem_wrappers ho with ⟨entered, repeatable, items, rfl⟩ |
    ⟨addressable, flagged, content, rfl⟩
  · have addressable : g.isAddressable = true := (Bool.and_eq_true_iff.1 entered).1
    refine ⟨repeatedAt other g (walkBody other true g) (g.keyBelow above), ?_, ?_⟩
    · rw [wrappers, isEntered, addressable, Bool.or_true, Bool.and_true, if_pos rfl, repeatWrapper,
        if_pos repeatable]
      exact List.mem_append_left _ (List.mem_singleton_self _)
    · rw [repeatedAt, if_pos repeatable]
      exact ⟨rfl, rfl, rfl, rfl⟩
  · have test : (g.isOptional && !g.isChoice) = true := flagged
    refine ⟨.optional g (g.keyBelow above) (other.flag (g.flagKey (g.keyBelow above)))
      (some (repeatedAt other g (walkBody other true g) (g.keyBelow above))), ?_,
      ⟨rfl, rfl, rfl, rfl⟩⟩
    rw [wrappers, if_pos flagged, walkBelow, enter]
    simp [addressable, test, keyBelow]

/-- From the body of a node to the node below a key. -/
theorem exists_sameSite_below {g : Grammar}
    (body : ∀ (key : Key) (o : Occurrence), o ∈ (walkBody (.ofValues v) full g key).all →
      o.LeadsTo v w → ∃ p ∈ (walkBody (.ofValues w) true g key).all, o.SameSite p)
    {above : Key} {o : Occurrence} (ho : o ∈ allOfOption (walkBelow (.ofValues v) full g above))
    (leads : o.LeadsTo v w) :
    ∃ p ∈ allOfOption (walkBelow (.ofValues w) true g above), o.SameSite p := by
  rw [all_walkBelow, List.mem_append, List.mem_flatMap] at ho
  rw [all_walkBelow]
  rcases ho with ⟨key, hk, ho⟩ | ho
  · obtain ⟨p, hp, same⟩ := body key o ho leads
    have item := mem_bodyKeys_of_leadsTo hk ho leads
    exact ⟨p, List.mem_append_left _ (List.mem_flatMap.2 ⟨key, item, hp⟩), same⟩
  · obtain ⟨p, hp, same⟩ := exists_sameSite_of_mem_wrappers ho (.ofValues w)
    exact ⟨p, List.mem_append_right _ hp, same⟩

/-! ### Whole walks -/

/-- What leads to an occurrence of a walk leads to one at its place in every full walk. -/
theorem exists_sameSite {g : Grammar} {key : Key} {o : Occurrence}
    (ho : o ∈ (walkBody (.ofValues v) full g key).all) (leads : o.LeadsTo v w) :
    ∃ p ∈ (walkBody (.ofValues w) true g key).all, o.SameSite p := by
  induction g using inductionOn generalizing key o with
  | node g ih =>
    rw [all_walkBody, List.mem_append, List.mem_flatMap] at ho
    rcases ho with ⟨⟨c, above⟩, hc, ho⟩ | ho
    · have child := mem_children_of_mem_walked _ hc
      obtain ⟨p, hp, same⟩ := exists_sameSite_below (fun _ _ => ih c child) ho leads
      refine ⟨p, ?_, same⟩
      rw [all_walkBody]
      exact List.mem_append_left _
        (List.mem_flatMap.2 ⟨(c, above), mem_walked_of_leadsTo hc ho leads, hp⟩)
    · rw [List.mem_singleton.1 ho]
      exact ⟨_, mem_all_self _, sameSite_walkBody _ _ _ _ g key⟩

end Grammar

namespace Command

open Occurrence

variable {c : Command} {v w : Values} {full : Bool} {o : Occurrence}

/-- **Places last.**  An occurrence has a counterpart of the same node at the same key in the full
walk of all values that have kept the entries that lead to it. -/
theorem exists_sameSite (ho : o ∈ (c.walk (.ofValues v) full).all) (leads : o.LeadsTo v w) :
    ∃ p ∈ (c.walk (.ofValues w) true).all, o.SameSite p := by
  obtain ⟨p, hp, same⟩ := Grammar.exists_sameSite (mem_walkBody_of_mem_walk ho) leads
  rw [all_walkBody_toGrammar, List.mem_append] at hp
  rcases hp with hp | root
  · exact ⟨p, hp, same⟩
  · -- the arguments as a whole do not lie where one of them is
    have at_root := same.key_eq
    rw [List.mem_singleton.1 root, Grammar.key_walkBody] at at_root
    exact absurd at_root.symm (beyond_root_of_mem_walk ho).ne

/-- A choice stays a choice of the same options. -/
theorem exists_choice {attrs : Attributes} {options : List Grammar} {key : Key}
    {selected : Option Grammar} {content : Option Occurrence}
    (h : .choice (.choice attrs options) key selected content ∈ (c.walk (.ofValues v) full).all)
    (leads : LeadsTo (.choice (.choice attrs options) key selected content) v w) :
    ∃ selected content,
      .choice (.choice attrs options) key selected content ∈ (c.walk (.ofValues w) true).all := by
  obtain ⟨p, hp, same⟩ := exists_sameSite h leads
  have walked := eq_walkBody_of_mem_walk hp same.isWrapper_eq
  rw [show p.node = .choice attrs options from same.node_eq, show p.key = key from same.key_eq]
    at walked
  obtain ⟨selected, content, e⟩ :=
    Grammar.exists_walkBody_choice (.ofValues w) true attrs options key
  rw [e] at walked
  exact ⟨selected, content, walked ▸ hp⟩

/-- All choices at the key of a choice are of the same node, in full walks and in others. -/
theorem node_eq_of_choice {node other : Grammar} {key : Key} {selected selected' : Option Grammar}
    {content content' : Option Occurrence}
    (h : .choice node key selected content ∈ (c.walk (.ofValues v) true).all)
    (h' : .choice other key selected' content' ∈ (c.walk (.ofValues v) full).all) :
    other = node := by
  obtain ⟨p, hp, same⟩ := exists_sameSite h' (.refl _ v)
  -- it is of one node with the second choice, in the role of the node itself, so a choice as well
  have choice : p.isChoice = true := by
    have walked := eq_walkBody_of_mem_walk hp same.isWrapper_eq
    have walked' := congrArg isChoice (eq_walkBody_of_mem_walk h' rfl)
    rw [Grammar.isChoice_walkBody] at walked'
    rw [walked, Grammar.isChoice_walkBody, same.node_eq, ← walked']
    rfl
  rw [← show p.node = other from same.node_eq, choice_unique hp h choice rfl same.key_eq]
  rfl

end Command

end CommandGraph
