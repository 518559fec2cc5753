/-
CommandGraph/Proofs/Occurrence/Nesting.lean

How the keys of occurrences lie to each other.

A walk lists occurrences children before their parents, and a key may be that of several of them.
`Occurrence.Precedes` says what holds of any two, the earlier one first (`Grammar.precedes`):

* if they share a key, then the earlier one is no choice, and the later one is an optional argument
  or a choice of an option without a name;
* if the key of the earlier one goes on behind the key of the later one, then with a step that the
  later one admits: a live item, or the selected option;
* the key of the later one never goes on behind the key of the earlier one.

Hence the first occurrence at a key is the only one that an edit can be meant for: whatever has
items is the first one at its key, and a choice is so as long as the option that it has selected
has a name.
-/
import CommandGraph.Proofs.Occurrence.Reads

namespace CommandGraph

/-! ### Keys -/

namespace Key

theorem ne_extend_extend (key : Key) (path : List Segment) (s : Segment) (rest : List Segment) :
    key ≠ (key.extend path).extend (s :: rest) := by
  intro e
  rw [extend_extend] at e
  have empty : [] = path ++ s :: rest := extend_injective ((extend_nil key).trans e)
  simp at empty

/-- The first step behind a key. -/
theorem step_eq {key : Key} {s t : Segment} {path rest : List Segment}
    (h : (key.push s).extend path = key.extend (t :: rest)) : t = s := by
  rw [push_eq_extend, extend_extend] at h
  exact (List.cons.inj (extend_injective h)).1.symm

/-- A marker does not lead below a key that ends with another kind of step. -/
theorem isUnder_of_isUnder_marked {key base : Key} {m : Marker} {s : Segment}
    (h : ∀ n, s ≠ .marker n) (under : (key.marked m).isUnder (base.push s) = true) :
    key.isUnder (base.push s) = true := by
  obtain ⟨rest, e⟩ := isUnder_iff.1 under
  have split : key.segments ++ [.marker m] = (base.push s).segments ++ rest := e
  rcases List.eq_nil_or_concat rest with rfl | ⟨rest, last, rfl⟩
  · have last : key.segments ++ [.marker m] = base.segments ++ [s] := by
      rw [split, List.append_nil]
      rfl
    exact absurd (List.singleton_inj.1 (List.append_inj' last rfl).2).symm (h m)
  · rw [List.concat_eq_append, ← List.append_assoc] at split
    exact isUnder_iff.2 ⟨rest, (List.append_inj' split rfl).1⟩

end Key

/-- Whether a node can be reached and adds nothing to the key under which it is. -/
def Grammar.isNameless (g : Grammar) : Bool :=
  g.isAddressable && g.identifier.isEmpty

namespace Occurrence

/-- Whether an occurrence is that of a choice. -/
def isChoice : Occurrence → Bool
  | choice .. => true
  | _ => false

/-- Whether an occurrence leaves its key to what is inside it: an optional argument to its content,
and a choice to an option without a name. -/
def yieldsKey : Occurrence → Bool
  | optional .. => true
  | choice _ _ (some option) _ => option.isNameless
  | _ => false

/-- Whether what is inside an occurrence may lie behind a step from its key: that of a live item, or
of the selected option if it has a name. -/
def Admits (source : Source) : Occurrence → Segment → Prop
  | repeated _ key _ _, s | array _ key _, s => ∃ i, i < source.count key.count ∧ s = .ordinal i
  | choice _ _ selected _, s =>
    ∃ option ∈ selected, option.isAddressable = true ∧
      (option.identifier ≠ "" → s = .name option.identifier)
  | _, _ => True

/-- How an occurrence lies to a later one of the same walk. -/
structure Precedes (source : Source) (o p : Occurrence) : Prop where
  same : o.key = p.key → o.isChoice = false ∧ p.yieldsKey = true
  inside : ∀ s rest, o.key = p.key.extend (s :: rest) → p.Admits source s
  outside : ∀ s rest, p.key ≠ o.key.extend (s :: rest)

theorem isChoice_of_isWrapper {o : Occurrence} (h : o.isWrapper = true) : o.isChoice = false := by
  cases o with
  | choice => cases h
  | _ => rfl

/-- What lies below keys that are apart shares no key, and neither lies inside the other. -/
theorem Precedes.of_apart {source : Source} {k l : Key} {o p : Occurrence} (apart : k.Apart l)
    (ho : ∃ path, o.key = k.extend path) (hp : ∃ path, p.key = l.extend path) :
    o.Precedes source p := by
  obtain ⟨path, e⟩ := ho
  obtain ⟨rest, e'⟩ := hp
  refine ⟨fun same => ?_, fun s more below => ?_, fun s more below => ?_⟩
  · exact absurd (e.symm.trans (same.trans e')) (apart path rest)
  · rw [e, e', Key.extend_extend] at below
    exact absurd below (apart _ _)
  · rw [e, e', Key.extend_extend] at below
    exact absurd below.symm (apart _ _)

end Occurrence

namespace Grammar

open Occurrence

variable {source : Source} {full : Bool}

/-! ### Pairs of occurrences -/

theorem isChoice_walkBody (g : Grammar) (key : Key) :
    (walkBody source full g key).isChoice = g.isChoice := by
  cases g with
  | choice attrs options =>
    obtain ⟨selected, content, e⟩ := exists_walkBody_choice source full attrs options key
    rw [e]
    rfl
  | array attrs content => cases content <;> rfl
  | _ => rfl

/-- At the key of a node that is no choice there is none. -/
theorem isChoice_of_mem_walkBelow {g : Grammar} {above : Key} {o : Occurrence}
    (hg : g.isChoice = false) (h : o ∈ allOfOption (walkBelow source full g above))
    (at_key : o.key = g.keyBelow above) : o.isChoice = false := by
  rw [all_walkBelow, List.mem_append, List.mem_flatMap] at h
  rcases h with ⟨key, hkey, h⟩ | h
  · rcases of_mem_bodyKeys hkey with ⟨-, rfl⟩ | ⟨repeatable, -⟩
    · rw [all_walkBody, List.mem_append, List.mem_flatMap] at h
      rcases h with ⟨⟨c, below⟩, hc, h⟩ | h
      · exact absurd at_key (key_beyond_of_mem_walked hg hc h).ne
      · rw [List.mem_singleton.1 h, isChoice_walkBody, hg]
    · exact absurd at_key (key_beyond_of_mem_items repeatable hkey h).ne
  · exact isChoice_of_isWrapper (of_mem_wrappers h).2.2.1

/-- There is something of every node that can be reached. -/
theorem exists_walkBelow (source : Source) (full : Bool) {g : Grammar}
    (addressable : g.isAddressable = true) (above : Key) :
    ∃ o, walkBelow source full g above = some o := by
  rw [walkBelow, enter, addressable]
  simp only [Bool.not_true, Bool.false_eq_true, if_false]
  split
  · exact ⟨_, rfl⟩
  · exact ⟨_, rfl⟩

/-- What is there of a node lies at its key, be it wrapped or not. -/
theorem key_of_walkBelow {g : Grammar} {above : Key} {o : Occurrence}
    (h : walkBelow source full g above = some o) : o.key = g.keyBelow above := by
  rw [walkBelow, enter] at h
  split at h
  · cases h
  · split at h
    · cases h
      rfl
    · cases h
      rw [repeatedAt]
      split
      · rfl
      · exact key_walkBody g _

/-- What is below a node shares its key only as an option without a name. -/
theorem yieldsKey_of_key_eq {g c : Grammar} {key above : Key} {o : Occurrence}
    (hc : (c, above) ∈ g.walked source key)
    (ho : o ∈ allOfOption (walkBelow source full c above)) (same : o.key = key) :
    o.isChoice = false ∧ (walkBody source full g key).yieldsKey = true := by
  cases g with
  | choice attrs options =>
    obtain ⟨rfl, walked⟩ := walkBody_of_mem_walked full hc
    -- an option with a name would lie behind the choice
    have unnamed : c.identifier = "" := by
      by_contra named
      obtain ⟨path, e⟩ := key_of_mem_walkBelow ho
      have beyond : o.key.Beyond above := e ▸ (Key.beyond_join named).extend path
      exact beyond.ne same
    have addressable : c.isAddressable = true := isAddressable_of_mem_walkBelow ho
    have anonymous := isAnonymous_of_identifier_eq_empty unnamed addressable
    have at_key : c.keyBelow above = above := keyBelow_of_identifier_eq_empty unnamed above
    refine ⟨isChoice_of_mem_walkBelow (isChoice_of_isAnonymous anonymous) ho
      (same.trans at_key.symm), ?_⟩
    rw [walked, yieldsKey, isNameless, addressable, unnamed]
    rfl
  -- children of other nodes lie beyond them
  | _ => exact absurd same (key_beyond_of_mem_walked rfl hc ho).ne

/-- What is below a node lies behind a step that the node admits. -/
theorem admits_of_key_eq {g c : Grammar} {key above : Key} {o : Occurrence}
    (hc : (c, above) ∈ g.walked source key)
    (ho : o ∈ allOfOption (walkBelow source full c above)) {s : Segment} {rest : List Segment}
    (below : o.key = key.extend (s :: rest)) : (walkBody source full g key).Admits source s := by
  cases g with
  | choice attrs options =>
    obtain ⟨rfl, walked⟩ := walkBody_of_mem_walked full hc
    rw [walked]
    -- the first step behind a choice is the name of the option, if it has one
    refine ⟨c, rfl, isAddressable_of_mem_walkBelow ho, fun named => ?_⟩
    obtain ⟨path, e⟩ := key_of_mem_walkBelow ho
    rw [keyBelow, Key.join, if_neg (by simpa using named), below] at e
    exact Key.step_eq e.symm
  | array attrs content delimiters separator =>
    cases content with
    | none => cases hc
    | some content =>
      rw [walked, Option.toList_some, List.flatMap_singleton] at hc
      obtain ⟨i, live, same⟩ := List.mem_map.1 hc
      obtain ⟨path, e⟩ := exists_extend_of_mem_walkBelow ho
      rw [← (Prod.mk.inj same).2, below] at e
      exact ⟨i, List.mem_range.1 live, Key.step_eq e.symm⟩
  | _ => trivial

/-- What is below a node precedes the node. -/
theorem precedes_walkBody {g c : Grammar} {key above : Key} {o : Occurrence}
    (hc : (c, above) ∈ g.walked source key)
    (ho : o ∈ allOfOption (walkBelow source full c above)) :
    o.Precedes source (walkBody source full g key) := by
  refine ⟨fun same => ?_, fun s rest below => ?_, fun s rest => ?_⟩
  · rw [key_walkBody] at same
    exact yieldsKey_of_key_eq hc ho same
  · rw [key_walkBody] at below
    exact admits_of_key_eq hc ho below
  · obtain ⟨outer, rfl, -, -⟩ := path_of_mem_walked hc
    obtain ⟨inner, e⟩ := exists_extend_of_mem_walkBelow ho
    rw [key_walkBody, e, Key.extend_extend key]
    exact Key.ne_extend_extend _ _ _ _

/-- What is in the body of a node precedes what wraps the node. -/
theorem precedes_of_mem_wrappers {g : Grammar} {above key : Key} {o p : Occurrence}
    (hk : key ∈ g.bodyKeys source full above) (ho : o ∈ (walkBody source full g key).all)
    (hp : p ∈ g.wrappers source full above) : o.Precedes source p := by
  have below : o ∈ allOfOption (walkBelow source full g above) := by
    rw [all_walkBelow]
    exact List.mem_append_left _ (List.mem_flatMap.2 ⟨key, hk, ho⟩)
  have at_key : p.key = g.keyBelow above := (of_mem_wrappers hp).1
  refine ⟨fun same => ?_, fun s rest behind => ?_, fun s rest => ?_⟩
  · rw [at_key] at same
    rcases eq_of_mem_wrappers hp with ⟨-, repeatable, items, rfl⟩ | ⟨-, flagged, content, rfl⟩
    · -- items lie behind the key of what repeats them
      exact absurd same (key_beyond_of_mem_items repeatable hk ho).ne
    · -- choices have no flags
      rw [isFlagged, Bool.and_eq_true, Bool.not_eq_true'] at flagged
      exact ⟨isChoice_of_mem_walkBelow flagged.2 below same, rfl⟩
  · rcases eq_of_mem_wrappers hp with ⟨-, repeatable, items, rfl⟩ | ⟨-, -, content, rfl⟩
    · rw [bodyKeys] at hk
      split at hk
      · rw [itemKeys, if_pos repeatable] at hk
        obtain ⟨i, live, rfl⟩ := List.mem_map.1 hk
        obtain ⟨path, e, -⟩ := key_of_mem_walkBody ho
        rw [behind, Key.join_eq_extend, Key.extend_extend] at e
        exact ⟨i, List.mem_range.1 live, Key.step_eq e.symm⟩
      · cases hk
    · trivial
  · obtain ⟨path, e⟩ := key_of_mem_walkBelow below
    rw [at_key, e]
    exact Key.ne_extend_extend _ _ _ _

/-- The repeated occurrence of a node precedes the optional one. -/
theorem precedes_of_isFlagged {g : Grammar} {above : Key} {o p : Occurrence}
    (ho : o ∈ g.repeatWrapper source full (g.keyBelow above))
    (hp : p ∈ walkBelow source full g above) (flagged : g.isFlagged = true) :
    o.Precedes source p := by
  rw [repeatWrapper] at ho
  split at ho
  · next repeatable =>
    have entered := hp
    rw [walkBelow, enter] at hp
    rcases addressable : g.isAddressable with - | -
    · simp [addressable] at hp
    · have test : (g.isOptional && !g.isChoice) = true := flagged
      simp only [addressable, test, Bool.not_true, Bool.false_eq_true, if_false, if_true] at hp
      obtain rfl := Option.some.inj hp
      obtain rfl := List.mem_singleton.1 ho
      rw [repeatedAt, if_pos repeatable]
      refine ⟨fun _ => ⟨rfl, rfl⟩, fun _ _ _ => trivial, fun s rest e => ?_⟩
      exact Key.ne_extend_extend _ [] s rest (e.trans (by rw [Key.extend_nil]; rfl))
  · cases ho

/-- Any two occurrences of a walk lie to each other as their order says. -/
theorem precedes (g : Grammar) (key : Key) :
    (walkBody source full g key).all.Pairwise (Precedes source) :=
  pairwise_all Precedes.of_apart precedes_walkBody precedes_of_mem_wrappers
    (fun _ _ => pairwise_wrappers fun _ ho _ hp => precedes_of_isFlagged ho hp) g key

end Grammar

/-! ### Commands -/

/-- Of all members that satisfy a condition, the one that is found comes first. -/
theorem eq_or_rel_of_find? {α : Type} {R : α → α → Prop} {l : List α} (h : l.Pairwise R)
    {q : α → Bool} {a b : α} (found : l.find? q = some a) (hb : b ∈ l) (hq : q b = true) :
    b = a ∨ R a b := by
  induction l with
  | nil => cases hb
  | cons first l ih =>
    rw [List.pairwise_cons] at h
    rw [List.find?_cons] at found
    cases first_holds : q first with
    | true =>
      rw [first_holds] at found
      obtain rfl := Option.some.inj found
      exact (List.mem_cons.1 hb).imp_right (h.1 b)
    | false =>
      rw [first_holds] at found
      rcases List.mem_cons.1 hb with rfl | hb
      · cases hq.symm.trans first_holds
      · exact ih h.2 found hb

namespace Command

variable {c : Command} {source : Source} {full : Bool} {o p : Occurrence}

/-- Any two occurrences of a command lie to each other as their order says. -/
theorem pairwise_precedes (c : Command) (source : Source) (full : Bool) :
    (c.walk source full).all.Pairwise (Occurrence.Precedes source) :=
  (Grammar.precedes c.toGrammar .root).sublist (List.sublist_append_left _ _)

/-- Two occurrences of a walk are the same, or one of them precedes the other. -/
theorem eq_or_precedes (ho : o ∈ (c.walk source full).all) (hp : p ∈ (c.walk source full).all) :
    o = p ∨ o.Precedes source p ∨ p.Precedes source o := by
  have ordered := c.pairwise_precedes source full
  exact List.Pairwise.forall_of_forall_of_flip
    (R := fun o p => o = p ∨ Occurrence.Precedes source o p ∨ Occurrence.Precedes source p o)
    (fun _ _ => .inl rfl) (ordered.imp fun h => .inr (.inl h)) (ordered.imp fun h => .inr (.inr h))
    ho hp

/-- What lies behind the key of an occurrence lies behind a step that the occurrence admits. -/
theorem admits_of_isUnder (ho : o ∈ (c.walk source full).all) (hp : p ∈ (c.walk source full).all)
    {s : Segment} (under : o.key.isUnder (p.key.push s) = true) : p.Admits source s := by
  obtain ⟨rest, e⟩ := Key.exists_extend_of_isUnder under
  rw [Key.push_eq_extend, Key.extend_extend, List.singleton_append] at e
  rcases eq_or_precedes ho hp with rfl | before | behind
  · exact absurd (e.trans (by rw [Key.extend_nil])) (Key.ne_extend_extend _ [] s rest)
  · exact before.inside s rest e
  · exact absurd e (behind.outside s rest)

/-- Only one choice lies at a key. -/
theorem choice_unique (ho : o ∈ (c.walk source full).all) (hp : p ∈ (c.walk source full).all)
    (choice : o.isChoice = true) (choice' : p.isChoice = true) (same : o.key = p.key) : o = p := by
  rcases eq_or_precedes ho hp with e | before | behind
  · exact e
  · cases (before.same same).1.symm.trans choice
  · cases (behind.same same.symm).1.symm.trans choice'

/-- The first occurrence at the key of an occurrence that keeps its key is this occurrence. -/
theorem find?_eq_some (hp : p ∈ (c.walk source full).all) (keeps : p.yieldsKey = false) :
    (c.walk source full).all.find? (·.key = p.key) = some p := by
  cases found : (c.walk source full).all.find? (·.key = p.key) with
  | none =>
    have absent := List.find?_eq_none.1 found p hp
    simp at absent
  | some o =>
    have at_key : o.key = p.key := by simpa using List.find?_some found
    rcases eq_or_rel_of_find? (c.pairwise_precedes source full) found hp (by simp) with
      e | before
    · rw [e]
    · cases (before.same at_key).2.symm.trans keeps

/-- Where the first occurrence is a choice there is no other one. -/
theorem eq_of_find?_choice {key : Key}
    (found : (c.walk source full).all.find? (·.key = key) = some p) (choice : p.isChoice = true)
    (ho : o ∈ (c.walk source full).all) (at_key : o.key = key) : o = p := by
  have at_key' : p.key = key := by simpa using List.find?_some found
  rcases eq_or_rel_of_find? (c.pairwise_precedes source full) found ho (by simpa using at_key) with
    e | before
  · exact e
  · cases (before.same (at_key'.trans at_key.symm)).1.symm.trans choice

/-- An option without a name lies at the key of its choice. -/
theorem exists_at_key_of_isNameless {node option : Grammar} {key : Key}
    {content : Option Occurrence} (nameless : option.isNameless = true)
    (h : .choice node key (some option) content ∈ (c.walk source full).all) :
    ∃ o ∈ (c.walk source full).all, o.key = key ∧ o.isChoice = false := by
  rw [Grammar.isNameless, Bool.and_eq_true, String.isEmpty_iff] at nameless
  obtain ⟨addressable, unnamed⟩ := nameless
  obtain ⟨o, there⟩ := Grammar.exists_walkBelow source full addressable key
  have at_key : option.keyBelow key = key := Grammar.keyBelow_of_identifier_eq_empty unnamed key
  have anonymous := Grammar.isAnonymous_of_identifier_eq_empty unnamed addressable
  have below : o ∈ Occurrence.allOfOption (Grammar.walkBelow source full option key) := by
    rw [there]
    exact Occurrence.mem_all_self o
  have key_eq : o.key = key := (Grammar.key_of_walkBelow there).trans at_key
  have no_choice : o.isChoice = false := Grammar.isChoice_of_mem_walkBelow
    (Grammar.isChoice_of_isAnonymous anonymous) below (Grammar.key_of_walkBelow there)
  have whole := mem_walkBody_of_mem_walk h
  -- the content of the choice is among the occurrences of the walk
  have inside : o ∈ (Grammar.walkBody source full c.toGrammar .root).all := by
    refine (Grammar.all_sublist_of_mem whole rfl).subset ?_
    rw [Occurrence.all]
    refine List.mem_append_left _ ?_
    rwa [(Grammar.of_walkBody_eq_choice (eq_walkBody_of_mem_walk h rfl).symm).2]
  rw [all_walkBody_toGrammar, List.mem_append] at inside
  rcases inside with inside | root
  · exact ⟨o, inside, key_eq, no_choice⟩
  · rw [List.mem_singleton.1 root, Grammar.key_walkBody] at key_eq
    exact absurd key_eq.symm (beyond_root_of_mem_walk h).ne

/-- The first occurrence at a key is a choice only if the option that it has selected has a name. -/
theorem yieldsKey_of_find?_choice {key : Key}
    (found : (c.walk source full).all.find? (·.key = key) = some p) (choice : p.isChoice = true) :
    p.yieldsKey = false := by
  cases p with
  | choice node k selected content =>
    have at_key := List.find?_some found
    obtain rfl : k = key := of_decide_eq_true at_key
    cases selected with
    | none => rfl
    | some option =>
      refine Bool.eq_false_iff.2 fun nameless => ?_
      obtain ⟨o, ho, same, no_choice⟩ :=
        exists_at_key_of_isNameless nameless (List.mem_of_find?_eq_some found)
      rw [eq_of_find?_choice found rfl ho same] at no_choice
      cases no_choice
  | _ => cases choice

end Command

end CommandGraph
