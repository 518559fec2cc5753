/-
CommandGraph/Proofs/Occurrence/Apart.lean

Leaves of a walk lie apart.

Siblings are walked at different positions, and items of one node at different indices, so
that no key can lie below two of them.  Hence neither can one lie below two leaves of a
walk (`Grammar.leaves_apart`); in particular, no two leaves have the same key.

Occurrences that are no leaves can share a key: a choice has the key of its selected
option, and what wraps a node has the key of the node.
-/
import CommandGraph.Proofs.Occurrence.Address

namespace CommandGraph

namespace Key

/-! ### Keys that are apart -/

/-- Whether no key lies below both of two keys. -/
def Apart (a b : Key) : Prop :=
  ∀ path rest, a.extend path ≠ b.extend rest

theorem Apart.ne {a b : Key} (h : a.Apart b) : a ≠ b := by
  rintro rfl
  exact h [] [] rfl

theorem Apart.symm {a b : Key} (h : a.Apart b) : b.Apart a :=
  fun path rest e => h rest path e.symm

instance : Std.Symm Apart where
  symm _ _ := Apart.symm

theorem Apart.isUnder_eq_false {a b : Key} (h : a.Apart b) : a.isUnder b = false := by
  refine Bool.eq_false_iff.2 fun under => ?_
  obtain ⟨rest, e⟩ := exists_extend_of_isUnder under
  exact h [] rest ((extend_nil a).trans e)

theorem Apart.extend {a b : Key} (h : a.Apart b) (path rest : List Segment) :
    (a.extend path).Apart (b.extend rest) := by
  intro below below' e
  rw [extend_extend, extend_extend] at e
  exact h _ _ e

/-- Keys part where their steps differ. -/
theorem apart_push {key : Key} {s t : Segment} (ne : s ≠ t) : (key.push s).Apart (key.push t) := by
  intro path rest e
  rw [push_eq_extend, push_eq_extend, extend_extend, extend_extend] at e
  exact ne (List.cons.inj (extend_injective e)).1

theorem isUnder_push_self (key : Key) (s : Segment) : key.isUnder (key.push s) = false := by
  refine Bool.eq_false_iff.2 fun under => ?_
  obtain ⟨path, e⟩ := exists_extend_of_isUnder under
  rw [push_eq_extend, extend_extend] at e
  cases extend_injective ((extend_nil key).trans e)

/-- Positions and indices keep siblings and items apart. -/
theorem apart_ordinal {key : Key} {i j : Nat} (lt : i < j) :
    (key.ordinal i).Apart (key.ordinal j) :=
  apart_push fun e => Nat.ne_of_lt lt (Segment.ordinal.inj e)

end Key

namespace Grammar

variable {source : Source} {full : Bool}

/-! ### Children and items -/

/-- Children are walked apart from each other. -/
theorem walked_apart (g : Grammar) (key : Key) :
    (g.walked source key).Pairwise fun p q => p.2.Apart q.2 := by
  have siblings (gs : List Grammar) :
      (gs.zipIdx.map fun p => (p.1, key.ordinal p.2)).Pairwise fun p q => p.2.Apart q.2 := by
    rw [List.pairwise_map]
    -- siblings differ in their positions, whatever nodes they are
    have positions : (gs.zipIdx.map Prod.snd).Pairwise (· < ·) := by
      rw [List.zipIdx_map_snd]
      exact List.pairwise_lt_range'
    exact (List.pairwise_map.1 positions).imp Key.apart_ordinal
  have at_most_one {α : Type} (o : Option α) (f : α → Grammar × Key) :
      (o.toList.map f).Pairwise fun p q => p.2.Apart q.2 := by
    cases o with
    | none => exact List.Pairwise.nil
    | some a => exact List.pairwise_singleton _ _
  cases g with
  | primitive | keyword | assignment | branch => exact List.Pairwise.nil
  | choice attrs options => exact at_most_one _ _
  | block attrs content => exact siblings content
  | group attrs children => exact siblings children
  | base attrs param => exact at_most_one _ _
  | subcommand attrs param args =>
    rw [walked, List.pairwise_append]
    refine ⟨at_most_one _ _, siblings args, ?_⟩
    intro p hp q hq
    obtain ⟨_, -, rfl⟩ := List.mem_map.1 hp
    obtain ⟨_, -, rfl⟩ := List.mem_map.1 hq
    exact Key.apart_push (by simp)
  | array attrs content delimiters separator =>
    rw [walked]
    cases content with
    | none => exact List.Pairwise.nil
    | some content =>
      rw [Option.toList_some, List.flatMap_singleton, List.pairwise_map]
      exact List.pairwise_lt_range.imp Key.apart_ordinal

/-- The items of a node are walked apart from each other. -/
theorem bodyKeys_apart (g : Grammar) (above : Key) :
    (g.bodyKeys source full above).Pairwise Key.Apart := by
  rw [bodyKeys]
  split
  · rw [itemKeys]
    split
    · rw [List.pairwise_map]
      -- the identifier stands in front of the index, and again behind it
      refine List.pairwise_lt_range.imp fun lt => ?_
      rw [Key.join_eq_extend, Key.join_eq_extend]
      exact (Key.apart_ordinal lt).extend _ _
    · exact List.pairwise_singleton _ _
  · exact List.Pairwise.nil

/-- What is there of a node lies below the key under which the node is. -/
theorem exists_extend_of_mem_walkBelow {g : Grammar} {above : Key} {o : Occurrence}
    (h : o ∈ Occurrence.allOfOption (walkBelow source full g above)) :
    ∃ path, o.key = above.extend path := by
  rw [all_walkBelow, List.mem_append, List.mem_flatMap] at h
  rcases h with ⟨key, mem, h⟩ | h
  · obtain ⟨path, rfl, -⟩ := path_of_mem_bodyKeys mem
    obtain ⟨rest, e, -⟩ := key_of_mem_walkBody h
    exact ⟨path ++ rest, by rw [e, Key.extend_extend]⟩
  · exact ⟨_, (of_mem_wrappers h).1.trans (Key.join_eq_extend _ _)⟩

/-! ### Pairs of occurrences -/

/-- At most two occurrences wrap a node, the repeated one and the optional one. -/
theorem pairwise_wrappers {R : Occurrence → Occurrence → Prop} {g : Grammar} {above : Key}
    (flagged : ∀ o ∈ g.repeatWrapper source full (g.keyBelow above),
      ∀ p ∈ walkBelow source full g above, g.isFlagged = true → R o p) :
    (g.wrappers source full above).Pairwise R := by
  have at_most_one (o : Option Occurrence) : o.toList.Pairwise R := by
    cases o with
    | none => exact List.Pairwise.nil
    | some o => exact List.pairwise_singleton _ _
  rw [wrappers, List.pairwise_append]
  refine ⟨?_, ?_, ?_⟩
  · split
    · rw [repeatWrapper]
      split
      · exact List.pairwise_singleton _ _
      · exact List.Pairwise.nil
    · exact List.Pairwise.nil
  · split
    · exact at_most_one _
    · exact List.Pairwise.nil
  · intro o ho p hp
    split at ho
    · split at hp
      · next optional => exact flagged o ho p (Option.mem_toList.1 hp) optional
      · cases hp
    · cases ho

/-- A relation holds of any two occurrences of a walk, in their order, if it holds of occurrences
that lie apart, of what is below a node and the node itself, and of what is in the body of a node
and what wraps the node. -/
theorem pairwise_all {R : Occurrence → Occurrence → Prop}
    (apart : ∀ {k l : Key} {o p : Occurrence}, k.Apart l → (∃ path, o.key = k.extend path) →
      (∃ path, p.key = l.extend path) → R o p)
    (child : ∀ {g c : Grammar} {key above : Key} {o : Occurrence},
      (c, above) ∈ g.walked source key →
        o ∈ Occurrence.allOfOption (walkBelow source full c above) →
          R o (walkBody source full g key))
    (wrapped : ∀ {g : Grammar} {above key : Key} {o p : Occurrence},
      key ∈ g.bodyKeys source full above → o ∈ (walkBody source full g key).all →
        p ∈ g.wrappers source full above → R o p)
    (wrapping : ∀ (g : Grammar) (above : Key), (g.wrappers source full above).Pairwise R)
    (g : Grammar) (key : Key) : (walkBody source full g key).all.Pairwise R := by
  induction g using inductionOn generalizing key with
  | node g ih =>
    rw [all_walkBody, List.pairwise_append, List.pairwise_flatMap]
    refine ⟨⟨?_, ?_⟩, List.pairwise_singleton _ _, ?_⟩
    · rintro ⟨c, above⟩ hc
      rw [all_walkBelow, List.pairwise_append, List.pairwise_flatMap]
      refine ⟨⟨fun k _ => ih c (mem_children_of_mem_walked source hc) k, ?_⟩, wrapping c above, ?_⟩
      · -- items lie below keys that are apart
        refine (bodyKeys_apart c above).imp fun separate o ho p hp => ?_
        obtain ⟨path, e, -⟩ := key_of_mem_walkBody ho
        obtain ⟨rest, e', -⟩ := key_of_mem_walkBody hp
        exact apart separate ⟨path, e⟩ ⟨rest, e'⟩
      · intro o ho p hp
        obtain ⟨k, hk, ho⟩ := List.mem_flatMap.1 ho
        exact wrapped hk ho hp
    · -- children lie below keys that are apart, too
      refine (walked_apart g key).imp fun separate o ho p hp => ?_
      exact apart separate (exists_extend_of_mem_walkBelow ho) (exists_extend_of_mem_walkBelow hp)
    · intro o ho p hp
      obtain ⟨⟨c, above⟩, hc, ho⟩ := List.mem_flatMap.1 ho
      obtain rfl := List.mem_singleton.1 hp
      exact child hc ho

/-! ### Leaves -/

/-- A node with leaves below it is no leaf itself. -/
theorem walked_eq_nil_of_isLeaf {g : Grammar} {key : Key}
    (h : (walkBody source full g key).isLeaf = true) : g.walked source key = [] := by
  cases g with
  | primitive | branch => rfl
  | array attrs content delimiters separator =>
    cases content with
    | none => rfl
    | some content => cases h
  | choice => cases isChoice_of_isLeaf_walkBody h
  | _ => cases h

/-- No key lies below two leaves of a walk. -/
theorem leaves_apart (g : Grammar) (key : Key) :
    ((walkBody source full g key).all.filter Occurrence.isLeaf).Pairwise fun o p =>
      o.key.Apart p.key := by
  -- of two leaves, neither has a child, and neither wraps anything
  refine List.pairwise_filter.2 (pairwise_all ?_ ?_ ?_ ?_ g key)
  · rintro k l o p apart ⟨path, e⟩ ⟨rest, e'⟩ - -
    rw [e, e']
    exact apart.extend path rest
  · rintro g c key above o hc - - leaf
    rw [walked_eq_nil_of_isLeaf leaf] at hc
    cases hc
  · rintro g above key o p - - hp - leaf
    rw [isLeaf_of_mem_wrappers hp] at leaf
    cases leaf
  · intro g above
    refine List.pairwise_of_forall_mem_list fun o ho p hp leaf => ?_
    rw [isLeaf_of_mem_wrappers ho] at leaf
    cases leaf

end Grammar

/-- No key lies below two leaves of the walk of a command. -/
theorem Command.leaves_apart (c : Command) (source : Source) (full : Bool) :
    ((c.walk source full).all.filter Occurrence.isLeaf).Pairwise fun o p =>
      o.key.Apart p.key := by
  have sub : (c.walk source full).all.Sublist
      (Grammar.walkBody source full c.toGrammar .root).all := List.sublist_append_left _ _
  exact (Grammar.leaves_apart c.toGrammar .root).sublist (sub.filter _)

end CommandGraph
