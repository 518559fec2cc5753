/-
CommandGraph/Proofs/Occurrence/Reads.lean

The keys that a walk reads.

`Command.readLog` runs the walk of a command on a source that logs the keys it is asked for.
The log lists what the occurrences of the tree read: an optional argument its flag, repeated
arguments and arrays their number of items, a choice its selection, and a value itself.

No key is read twice as long as every step of the grammar adds a segment.  Only an option
without an identifier adds none, and of what can stand there only an array without an item node
reads a value at its own key.  It shares this key with the selection of its choice, and this is
the only way to read a key twice (`Command.nodup_readLog_iff`).
-/
import CommandGraph.Command
import CommandGraph.Proofs.Occurrence.Apart
import CommandGraph.Proofs.Occurrence.Effects
import CommandGraph.Proofs.Occurrence.Reread
import Mathlib.Data.List.Nodup

namespace CommandGraph

/-! ### The log of a walk -/

/-- The source, with a log of the keys that it is asked for. -/
def Source.logged (source : Source) (key : Key) : StateM (List Key) Reading := do
  modify (· ++ [key])
  return source key

/-- The keys that the walk of a command asks for, one after the other. -/
def Command.readLog (c : Command) (source : Source) (full : Bool) : List Key :=
  ((c.walkM source.logged full).run []).2

/-- The walk on a logging source gives the tree, and its log are the keys that the tree reads. -/
theorem Command.run_walkM_logged (c : Command) (source : Source) (full : Bool) :
    (c.walkM source.logged full).run [] = (c.walk source full, (c.walk source full).reads) := by
  -- actions give their values and write the keys that they read behind the log
  have law : Law (m := StateM (List Key)) fun _ x a keys => ∀ log, x.run log = (a, log ++ keys) := {
    pure := by
      intro α a log
      rw [List.append_nil]
      rfl
    bind := by
      intro α β x f a b keys more hx hf log
      rw [StateT.run_bind, hx log, ← List.append_assoc]
      exact hf _ }
  exact Command.walkM_reads law (fun key log => rfl) c full []

/-- The log lists what the tree reads. -/
theorem Command.readLog_eq (c : Command) (source : Source) (full : Bool) :
    c.readLog source full = (c.walk source full).reads := by
  rw [readLog, run_walkM_logged]

namespace Occurrence

mutual

/-- What a tree reads is what its occurrences read. -/
theorem reads_perm : ∀ o : Occurrence, o.reads.Perm (o.all.filterMap readKey?)
  | scalar .. | literal .. | branch .. => .refl _
  | optional node key enabled content | choice node key selected content => by
    rw [reads, all, List.filterMap_append]
    exact ((readsOfOption_perm content).cons _).trans (List.perm_append_singleton _ _).symm
  | repeated node key count items | array node key items => by
    rw [reads, all, List.filterMap_append]
    exact ((readsOfList_perm items).cons _).trans (List.perm_append_singleton _ _).symm
  | block node key children | group node key children => by
    rw [reads, all, List.filterMap_append]
    exact (readsOfList_perm children).trans (.of_eq (List.append_nil _).symm)
  | subcommand node key param args => by
    rw [reads, all, List.filterMap_append, List.filterMap_append]
    exact ((readsOfOption_perm param).append (readsOfList_perm args)).trans
      (.of_eq (List.append_nil _).symm)
  | base node key param => by
    rw [reads, all, List.filterMap_append]
    exact (readsOfOption_perm param).trans (.of_eq (List.append_nil _).symm)

theorem readsOfOption_perm :
    ∀ o : Option Occurrence, (readsOfOption o).Perm ((allOfOption o).filterMap readKey?)
  | none => .refl _
  | some o => reads_perm o

theorem readsOfList_perm :
    ∀ os : List Occurrence, (readsOfList os).Perm ((allOfList os).filterMap readKey?)
  | [] => .refl _
  | o :: os => by
    rw [readsOfList, allOfList, List.filterMap_append]
    exact (reads_perm o).append (readsOfList_perm os)

end

end Occurrence

/-- What a command reads is what its occurrences read, in another order. -/
theorem Arguments.reads_perm (arguments : Arguments) :
    arguments.reads.Perm (arguments.all.filterMap Occurrence.readKey?) := by
  rw [reads, all, List.filterMap_append]
  exact (Occurrence.readsOfOption_perm _).append (Occurrence.readsOfList_perm _)

/-! ### Keys beyond a key -/

namespace Key

/-- Whether a key lies at least one step behind another one, and not just at a marker of it. -/
def Beyond (x key : Key) : Prop :=
  ∃ s rest, x = key.extend (s :: rest) ∧ ∀ m, s ≠ .marker m

theorem Beyond.ne {x key : Key} (h : x.Beyond key) : x ≠ key := by
  rintro rfl
  obtain ⟨s, rest, e, -⟩ := h
  rw [← extend_nil x, extend_extend] at e
  cases extend_injective e

/-- A marker does not lead beyond a key. -/
theorem Beyond.ne_marked {x key : Key} (h : x.Beyond key) (m : Marker) : x ≠ key.marked m := by
  rintro rfl
  obtain ⟨s, rest, e, unmarked⟩ := h
  rw [marked, push_eq_extend] at e
  exact unmarked m (List.cons.inj (extend_injective e)).1.symm

theorem Beyond.isUnder {x key : Key} (h : x.Beyond key) : x.isUnder key = true := by
  obtain ⟨s, rest, rfl, -⟩ := h
  exact isUnder_iff.2 ⟨_, rfl⟩

theorem Beyond.extend {x key : Key} (h : x.Beyond key) (path : List Segment) :
    (x.extend path).Beyond key := by
  obtain ⟨s, rest, rfl, unmarked⟩ := h
  exact ⟨s, rest ++ path, extend_extend _ _ _, unmarked⟩

theorem beyond_push {key : Key} {s : Segment} (h : ∀ m, s ≠ .marker m) : (key.push s).Beyond key :=
  ⟨s, [], rfl, h⟩

theorem beyond_of_isUnder_push {x key : Key} {s : Segment} (h : ∀ m, s ≠ .marker m)
    (under : x.isUnder (key.push s) = true) : x.Beyond key := by
  obtain ⟨path, rfl⟩ := exists_extend_of_isUnder under
  exact (beyond_push h).extend path

/-- A name leads beyond a key unless it is empty. -/
theorem beyond_join {key : Key} {name : String} (h : name ≠ "") : (key.join name).Beyond key := by
  rw [join, if_neg (by simpa using h)]
  exact beyond_push (by simp)

theorem ne_marked (key : Key) (m : Marker) : key ≠ key.marked m := by
  intro e
  rw [marked, push_eq_extend] at e
  cases extend_injective ((extend_nil key).trans e)

theorem marked_injective {key : Key} {m n : Marker} (h : key.marked m = key.marked n) : m = n := by
  rw [marked, marked, push_eq_extend, push_eq_extend] at h
  cases extend_injective h
  rfl

end Key

/-- What an occurrence reads lies at its key. -/
theorem Occurrence.exists_of_readKey? {o : Occurrence} {x : Key} (h : o.readKey? = some x) :
    ∃ path, x = o.key.extend path := by
  cases o with
  | scalar | choice =>
    cases h
    exact ⟨[], (Key.extend_nil _).symm⟩
  | repeated | array =>
    cases h
    exact ⟨_, rfl⟩
  | optional node key enabled content =>
    cases h
    rw [Grammar.flagKey]
    split
    · exact ⟨[], (Key.extend_nil _).symm⟩
    · exact ⟨_, rfl⟩
  | _ => cases h

theorem Occurrence.beyond_of_readKey? {o : Occurrence} {x key : Key} (h : o.key.Beyond key)
    (hx : o.readKey? = some x) : x.Beyond key := by
  obtain ⟨path, rfl⟩ := exists_of_readKey? hx
  exact h.extend path

namespace Grammar

variable {source : Source} {full : Bool}

/-! ### Nodes without an identifier -/

theorem keyBelow_of_identifier_eq_empty {g : Grammar} (h : g.identifier = "") (key : Key) :
    g.keyBelow key = key := by
  rw [keyBelow, h]
  rfl

/-- Of nodes without an identifier, those of some kinds alone can be reached. -/
theorem isAnonymous_of_identifier_eq_empty {g : Grammar} (h : g.identifier = "")
    (addressable : g.isAddressable = true) : g.isAnonymous = true := by
  rw [isAddressable, h] at addressable
  exact addressable

theorem isChoice_of_isAnonymous {g : Grammar} (h : g.isAnonymous = true) : g.isChoice = false := by
  cases g with
  | choice => cases h
  | _ => rfl

theorem isKeyword_of_isAnonymous {g : Grammar} (h : g.isAnonymous = true) :
    g.isKeyword = false := by
  cases g with
  | keyword => cases h
  | _ => rfl

/-! ### What the nodes of a walk read -/

/-- The body of a node is walked at the key of the node, or behind it if the node is repeatable. -/
theorem of_mem_bodyKeys {g : Grammar} {above key : Key} (h : key ∈ g.bodyKeys source full above) :
    (g.isRepeatable = false ∧ key = g.keyBelow above) ∨
      (g.isRepeatable = true ∧ key.Beyond (g.keyBelow above)) := by
  rw [bodyKeys] at h
  split at h
  · rw [itemKeys] at h
    split at h
    · next repeatable =>
      obtain ⟨i, -, rfl⟩ := List.mem_map.1 h
      refine .inr ⟨repeatable, ?_⟩
      rw [Key.join_eq_extend]
      exact (Key.beyond_push (by simp)).extend _
    · next single => exact .inl ⟨Bool.eq_false_iff.2 single, List.mem_singleton.1 h⟩
  · cases h

/-- The children of a node, other than the option of a choice, lie behind it. -/
theorem beyond_of_mem_walked {g c : Grammar} {key above : Key}
    (h : (c, above) ∈ g.walked source key) (hg : g.isChoice = false) : above.Beyond key := by
  -- siblings take the step of their position, and a parameter one of its own
  have sibling {gs : List Grammar}
      (h : (c, above) ∈ gs.zipIdx.map fun p => (p.1, key.ordinal p.2)) : above.Beyond key := by
    obtain ⟨p, -, e⟩ := List.mem_map.1 h
    cases e
    exact Key.beyond_push (by simp)
  have bracket {param : Option Grammar}
      (h : (c, above) ∈ param.toList.map (·, key.arrayParam)) : above.Beyond key := by
    obtain ⟨p, -, e⟩ := List.mem_map.1 h
    cases e
    exact Key.beyond_push (by simp)
  cases g with
  | primitive | keyword | assignment | branch => cases h
  | choice => cases hg
  | block | group => exact sibling h
  | base => exact bracket h
  | subcommand => exact (List.mem_append.1 h).elim bracket sibling
  | array =>
    simp only [walked, List.mem_flatMap, List.mem_map, Prod.mk.injEq] at h
    obtain ⟨-, -, i, -, -, rfl⟩ := h
    exact Key.beyond_push (by simp)

/-- What is there of a node lies at its key or further on. -/
theorem key_of_mem_walkBelow {g : Grammar} {above : Key} {o : Occurrence}
    (h : o ∈ Occurrence.allOfOption (walkBelow source full g above)) :
    ∃ path, o.key = (g.keyBelow above).extend path := by
  rw [all_walkBelow, List.mem_append, List.mem_flatMap] at h
  rcases h with ⟨key, hkey, h⟩ | h
  · obtain ⟨rest, e, -⟩ := key_of_mem_walkBody h
    rcases of_mem_bodyKeys hkey with ⟨-, rfl⟩ | ⟨-, s, path, rfl, -⟩
    · exact ⟨rest, e⟩
    · exact ⟨_, e.trans (Key.extend_extend _ _ _)⟩
  · exact ⟨[], (of_mem_wrappers h).1.trans (Key.extend_nil _).symm⟩

/-- What is walked below a key can be reached there. -/
theorem isAddressable_of_mem_walkBelow {g : Grammar} {above : Key} {o : Occurrence}
    (h : o ∈ Occurrence.allOfOption (walkBelow source full g above)) : g.isAddressable = true := by
  rcases addressable : g.isAddressable with - | -
  · rw [walkBelow, enter, addressable] at h
    cases h
  · rfl

/-- The option that a choice is walked with is the selected one. -/
theorem walkBody_of_mem_walked (full : Bool) {attrs : Attributes} {options : List Grammar}
    {c : Grammar} {key above : Key} (h : (c, above) ∈ (choice attrs options).walked source key) :
    above = key ∧ walkBody source full (choice attrs options) key =
      .choice (choice attrs options) key (some c) (walkBelow source full c key) := by
  simp only [walked, List.mem_map, Option.mem_toList, Option.bind_eq_some_iff, Prod.mk.injEq] at h
  obtain ⟨option, ⟨selection, stored, found⟩, rfl, rfl⟩ := h
  refine ⟨rfl, ?_⟩
  rw [walkBody_choice, stored, Option.bind_some, walkOption_eq, found]
  rfl

/-- Whether a node is a value that stands at the key of whatever it is in. -/
def isBareValue : Grammar → Bool
  | array attrs none delimiters separator =>
    (array attrs none delimiters separator).identifier.isEmpty && !attrs.repeatable
  | _ => false

theorem identifier_of_isBareValue {g : Grammar} (h : g.isBareValue = true) : g.identifier = "" := by
  cases g with
  | array attrs content =>
    cases content with
    | none => exact String.isEmpty_iff.1 (Bool.and_eq_true_iff.1 h).1
    | some => cases h
  | _ => cases h

/-- A node at its key reads its count, or the key itself if it is a value or a choice. -/
theorem readKey?_walkBody {g : Grammar} {key x : Key}
    (h : (walkBody source full g key).readKey? = some x) :
    x = key.count ∨ x = key ∧ g.isKeyword = false ∧
      (g.identifier = "" → g.isAddressable = true → g.isRepeatable = false →
        g.isBareValue = true) := by
  -- of the nodes that read at their own key, only arrays may be reached without an identifier
  have named {g : Grammar} (hg : g.isAnonymous = false) (unnamed : g.identifier = "")
      (addressable : g.isAddressable = true) : g.isBareValue = true := by
    cases hg.symm.trans (isAnonymous_of_identifier_eq_empty unnamed addressable)
  cases g with
  | primitive => exact .inr ⟨(Option.some.inj h).symm, rfl, fun e a _ => named rfl e a⟩
  | choice attrs options =>
    obtain ⟨selected, content, e⟩ := exists_walkBody_choice source full attrs options key
    rw [e] at h
    exact .inr ⟨(Option.some.inj h).symm, rfl, fun e a _ => named rfl e a⟩
  | array attrs content =>
    cases content with
    | none =>
      refine .inr ⟨(Option.some.inj h).symm, rfl, fun empty _ single => ?_⟩
      rw [isBareValue, empty]
      exact congrArg (!·) single
    | some => exact .inl (Option.some.inj h).symm
  | _ => cases h

/-- Below a node that is no choice, everything lies behind its key. -/
theorem key_beyond_of_mem_walked {g c : Grammar} {key above : Key} {o : Occurrence}
    (hg : g.isChoice = false) (hc : (c, above) ∈ g.walked source key)
    (ho : o ∈ Occurrence.allOfOption (walkBelow source full c above)) : o.key.Beyond key := by
  obtain ⟨path, e⟩ := exists_extend_of_mem_walkBelow ho
  rw [e]
  exact (beyond_of_mem_walked hc hg).extend path

/-- Below a node that is no choice, everything is read behind its key. -/
theorem read_beyond_of_mem_walked {g c : Grammar} {key above x : Key} {o : Occurrence}
    (hg : g.isChoice = false) (hc : (c, above) ∈ g.walked source key)
    (ho : o ∈ Occurrence.allOfOption (walkBelow source full c above))
    (hx : o.readKey? = some x) : x.Beyond key :=
  Occurrence.beyond_of_readKey? (key_beyond_of_mem_walked hg hc ho) hx

/-- In a node that is no choice, only the node itself reads at its key. -/
theorem read_of_mem_walkBody {g : Grammar} {key x : Key} {o : Occurrence} (hg : g.isChoice = false)
    (h : o ∈ (walkBody source full g key).all) (hx : o.readKey? = some x) :
    o = walkBody source full g key ∨ x.Beyond key := by
  rw [all_walkBody, List.mem_append, List.mem_flatMap] at h
  rcases h with ⟨⟨c, above⟩, hc, h⟩ | h
  · exact .inr (read_beyond_of_mem_walked hg hc h hx)
  · exact .inl (List.mem_singleton.1 h)

/-- Items of a node lie behind its key. -/
theorem key_beyond_of_mem_items {g : Grammar} {above key : Key} {o : Occurrence}
    (repeatable : g.isRepeatable = true) (hk : key ∈ g.bodyKeys source full above)
    (h : o ∈ (walkBody source full g key).all) : o.key.Beyond (g.keyBelow above) := by
  have beyond : key.Beyond (g.keyBelow above) := by
    refine ((of_mem_bodyKeys hk).resolve_left fun single => ?_).2
    rw [single.1] at repeatable
    cases repeatable
  obtain ⟨path, e, -⟩ := key_of_mem_walkBody h
  rw [e]
  exact beyond.extend path

/-- Items read behind the key of their node. -/
theorem beyond_of_mem_items {g : Grammar} {above key x : Key} {o : Occurrence}
    (repeatable : g.isRepeatable = true) (hk : key ∈ g.bodyKeys source full above)
    (h : o ∈ (walkBody source full g key).all) (hx : o.readKey? = some x) :
    x.Beyond (g.keyBelow above) :=
  Occurrence.beyond_of_readKey? (key_beyond_of_mem_items repeatable hk h) hx

/-- The body of a node that is no choice is read behind its key, if not by the node itself. -/
theorem read_of_mem_bodyKeys {g : Grammar} {above key x : Key} {o : Occurrence}
    (hg : g.isChoice = false) (hk : key ∈ g.bodyKeys source full above)
    (h : o ∈ (walkBody source full g key).all) (hx : o.readKey? = some x) :
    x.Beyond (g.keyBelow above) ∨ g.isRepeatable = false ∧
      (walkBody source full g (g.keyBelow above)).readKey? = some x := by
  rcases of_mem_bodyKeys hk with ⟨single, rfl⟩ | ⟨repeatable, -⟩
  · rcases read_of_mem_walkBody hg h hx with rfl | beyond
    · exact .inr ⟨single, hx⟩
    · exact .inl beyond
  · exact .inl (beyond_of_mem_items repeatable hk h hx)

/-- The number of items and the flag are different entries. -/
theorem count_ne_flagKey (g : Grammar) (key : Key) : key.count ≠ g.flagKey key := by
  rw [flagKey]
  split
  · exact (Key.ne_marked key .count).symm
  · intro e
    cases Key.marked_injective e

theorem ne_flagKey_of_beyond {x key : Key} (h : x.Beyond key) (g : Grammar) :
    x ≠ g.flagKey key := by
  rw [flagKey]
  split
  · exact h.ne
  · exact h.ne_marked .enabled

theorem ne_flagKey_of_not_isKeyword {g : Grammar} (h : g.isKeyword = false) (key : Key) :
    key ≠ g.flagKey key := by
  rw [flagKey, if_neg (Bool.not_eq_true _ ▸ h)]
  exact Key.ne_marked key .enabled

theorem readKey?_of_mem_repeatWrapper {g : Grammar} {key : Key} {o : Occurrence}
    (h : o ∈ g.repeatWrapper source full key) :
    g.isRepeatable = true ∧ o.readKey? = some key.count := by
  rw [repeatWrapper] at h
  split at h
  · next repeatable =>
    obtain rfl := List.mem_singleton.1 h
    rw [repeatedAt, if_pos repeatable]
    exact ⟨repeatable, rfl⟩
  · cases h

theorem readKey?_of_mem_walkBelow {g : Grammar} {above : Key} {o : Occurrence}
    (h : o ∈ walkBelow source full g above) (hg : g.isFlagged = true) :
    o.readKey? = some (g.flagKey (g.keyBelow above)) := by
  rw [isFlagged] at hg
  rw [walkBelow, enter] at h
  rcases ha : g.isAddressable with - | -
  · simp [ha] at h
  · simp only [ha, hg, Bool.not_true, Bool.false_eq_true, if_false, if_true] at h
    cases h
    rfl

/-- What wraps a node reads its count or its flag. -/
theorem readKey?_of_mem_wrappers {g : Grammar} {above : Key} {o : Occurrence}
    (h : o ∈ g.wrappers source full above) :
    (g.isRepeatable = true ∧ o.readKey? = some (g.keyBelow above).count) ∨
      (g.isFlagged = true ∧ o.readKey? = some (g.flagKey (g.keyBelow above))) := by
  rcases eq_of_mem_wrappers h with ⟨-, repeatable, items, rfl⟩ | ⟨-, flagged, content, rfl⟩
  · exact .inl ⟨repeatable, rfl⟩
  · exact .inr ⟨flagged, rfl⟩

end Grammar

/-! ### Keys that are read twice -/

/-- Whether a choice has a value selected that stands at its own key. -/
def Occurrence.selectsBareValue : Occurrence → Bool
  | choice _ _ (some option) _ => option.isBareValue
  | _ => false

/-- What selects a bare value is a choice that has selected something. -/
theorem Occurrence.eq_choice_of_selectsBareValue {o : Occurrence}
    (h : o.selectsBareValue = true) : ∃ node key option content,
      o = choice node key (some option) content ∧ option.isBareValue = true := by
  cases o with
  | choice node key selected content =>
    cases selected with
    | none => cases h
    | some option => exact ⟨node, key, option, content, rfl, h⟩
  | _ => cases h

/-- Whether two occurrences read different keys, except a choice and the value that stands at its
key. -/
def Occurrence.ReadApart (o p : Occurrence) : Prop :=
  ∀ x, o.readKey? = some x → p.readKey? = some x → p.selectsBareValue = true

namespace Grammar

open Occurrence

variable {source : Source} {full : Bool}

/-! ### Occurrences that read different keys -/

/-- What lies below keys that are apart reads different keys. -/
theorem readApart_of_apart {k l : Key} {o p : Occurrence} (apart : k.Apart l)
    (ho : ∃ path, o.key = k.extend path) (hp : ∃ path, p.key = l.extend path) : o.ReadApart p := by
  intro x ho' hp'
  exfalso
  obtain ⟨path, e⟩ := ho
  obtain ⟨rest, e'⟩ := hp
  obtain ⟨more, rfl⟩ := exists_of_readKey? ho'
  obtain ⟨less, same⟩ := exists_of_readKey? hp'
  rw [e, e'] at same
  exact ((apart.extend path rest).extend more less).ne same

/-- A node and what wraps it read different keys. -/
theorem readApart_wrappers {g : Grammar} {above key : Key} {o p : Occurrence}
    (hk : key ∈ g.bodyKeys source full above) (ho : o ∈ (walkBody source full g key).all)
    (hp : p ∈ g.wrappers source full above) : o.ReadApart p := by
  intro x ho' hp'
  exfalso
  -- neither the count nor the flag is read in the body: what is inside reads beyond the key, and
  -- the node itself reads its own count or its key
  rcases readKey?_of_mem_wrappers hp with ⟨repeatable, e⟩ | ⟨flagged, e⟩
  · obtain rfl := Option.some.inj (hp'.symm.trans e)
    exact (beyond_of_mem_items repeatable hk ho ho').ne_marked .count rfl
  · obtain rfl := Option.some.inj (hp'.symm.trans e)
    have no_choice : g.isChoice = false := by
      rw [isFlagged, Bool.and_eq_true, Bool.not_eq_true'] at flagged
      exact flagged.2
    rcases read_of_mem_bodyKeys no_choice hk ho ho' with beyond | ⟨-, own⟩
    · exact ne_flagKey_of_beyond beyond g rfl
    · rcases readKey?_walkBody own with e | ⟨e, no_keyword, -⟩
      · exact count_ne_flagKey g _ e.symm
      · exact ne_flagKey_of_not_isKeyword no_keyword _ e.symm

/-- An option reads nothing at the key of its choice unless it is a value without an identifier. -/
theorem isBareValue_of_read {g : Grammar} {key : Key} {o : Occurrence}
    (h : o ∈ allOfOption (walkBelow source full g key)) (hx : o.readKey? = some key) :
    g.isBareValue = true := by
  have unnamed : g.identifier = "" := by
    by_contra named
    obtain ⟨path, e⟩ := key_of_mem_walkBelow h
    have beyond : o.key.Beyond key := by
      rw [e]
      exact (Key.beyond_join named).extend path
    exact (beyond_of_readKey? beyond hx).ne rfl
  have at_key : g.keyBelow key = key := keyBelow_of_identifier_eq_empty unnamed key
  have addressable : g.isAddressable = true := isAddressable_of_mem_walkBelow h
  have anonymous : g.isAnonymous = true := isAnonymous_of_identifier_eq_empty unnamed addressable
  rw [all_walkBelow, List.mem_append, List.mem_flatMap] at h
  -- it is read in the body, by the node itself, or by what wraps the node; neither a count nor a
  -- flag of a node without a keyword lies at the key
  rcases h with ⟨k, hk, h⟩ | h
  · rcases read_of_mem_bodyKeys (isChoice_of_isAnonymous anonymous) hk h hx with
      beyond | ⟨single, own⟩
    · rw [at_key] at beyond
      cases beyond.ne rfl
    · rw [at_key] at own
      rcases readKey?_walkBody own with e | ⟨-, -, bare⟩
      · cases Key.ne_marked key .count e
      · exact bare unnamed addressable single
  · rcases readKey?_of_mem_wrappers h with ⟨-, e⟩ | ⟨-, e⟩
    · rw [at_key] at e
      cases Key.ne_marked key .count (Option.some.inj (hx.symm.trans e))
    · have no_keyword : g.isKeyword = false := isKeyword_of_isAnonymous anonymous
      rw [at_key] at e
      cases ne_flagKey_of_not_isKeyword no_keyword key (Option.some.inj (hx.symm.trans e))

/-- A node reads no key that is read below it, unless it is a choice of a bare value. -/
theorem readApart_walked {g c : Grammar} {key above : Key} {o : Occurrence}
    (hc : (c, above) ∈ g.walked source key)
    (ho : o ∈ allOfOption (walkBelow source full c above)) :
    o.ReadApart (walkBody source full g key) := by
  intro x ho' hp'
  -- only a choice has a child at its own key
  rcases hg : g.isChoice with - | -
  · exfalso
    have beyond := read_beyond_of_mem_walked hg hc ho ho'
    rcases readKey?_walkBody hp' with e | ⟨e, -⟩
    · exact beyond.ne_marked .count e
    · exact beyond.ne e
  · cases g with
    | choice attrs options =>
      obtain ⟨rfl, e⟩ := walkBody_of_mem_walked full hc
      rw [e] at hp' ⊢
      obtain rfl := Option.some.inj hp'
      exact isBareValue_of_read ho ho'
    | _ => cases hg

/-- What wraps a node reads its count and its flag. -/
theorem readApart_of_isFlagged {g : Grammar} {above : Key} {o p : Occurrence}
    (ho : o ∈ g.repeatWrapper source full (g.keyBelow above))
    (hp : p ∈ walkBelow source full g above) (flagged : g.isFlagged = true) : o.ReadApart p := by
  intro x ho' hp'
  rw [(readKey?_of_mem_repeatWrapper ho).2] at ho'
  rw [readKey?_of_mem_walkBelow hp flagged] at hp'
  cases count_ne_flagKey g _ (Option.some.inj (ho'.trans hp'.symm))

/-- No two occurrences of a walk read one key, except a choice and the bare value that it has
selected. -/
theorem reads_apart (g : Grammar) (key : Key) :
    (walkBody source full g key).all.Pairwise ReadApart :=
  pairwise_all readApart_of_apart readApart_walked readApart_wrappers
    (fun _ _ => pairwise_wrappers fun _ ho _ hp => readApart_of_isFlagged ho hp) g key

/-- A bare value below a choice reads the key of the choice, in a full walk at least. -/
theorem exists_read_of_isBareValue (source : Source) {g : Grammar} (h : g.isBareValue = true)
    (key : Key) :
    ∃ o ∈ allOfOption (walkBelow source true g key), o.readKey? = some key := by
  cases g with
  | array attrs content delimiters separator =>
    cases content with
    | some => cases h
    | none =>
      rw [isBareValue, Bool.and_eq_true, Bool.not_eq_true', String.isEmpty_iff] at h
      obtain ⟨unnamed, single⟩ := h
      refine ⟨walkBody source true (array attrs none delimiters separator) key, ?_, rfl⟩
      have at_key : (array attrs none delimiters separator).keyBelow key = key :=
        keyBelow_of_identifier_eq_empty unnamed key
      have entered : (array attrs none delimiters separator).isEntered source true key = true := by
        rw [isEntered, isAddressable, isAnonymous, Bool.or_true, Bool.or_true]
        rfl
      have item : key ∈ (array attrs none delimiters separator).bodyKeys source true key := by
        rw [bodyKeys, if_pos entered, at_key, itemKeys]
        simp [isRepeatable, Grammar.attrs, single]
      rw [all_walkBelow]
      exact List.mem_append_left _ (List.mem_flatMap.2 ⟨key, item, mem_all_self _⟩)
  | _ => cases h

theorem sublist_flatMap_of_mem {α β : Type} (f : α → List β) {a : α} {as : List α} (h : a ∈ as) :
    (f a).Sublist (as.flatMap f) :=
  List.sublist_flatten_of_mem (List.mem_map_of_mem h)

/-- The occurrences below a child are among those of the node. -/
theorem sublist_all_walkBody {g c : Grammar} {key above : Key}
    (h : (c, above) ∈ g.walked source key) :
    (allOfOption (walkBelow source full c above)).Sublist (walkBody source full g key).all := by
  have part := sublist_flatMap_of_mem
    (fun p : Grammar × Key => allOfOption (walkBelow source full p.1 p.2)) h
  rw [all_walkBody]
  exact part.trans (List.sublist_append_left _ _)

theorem sublist_all_walkBelow {g : Grammar} {above key : Key}
    (h : key ∈ g.bodyKeys source full above) :
    (walkBody source full g key).all.Sublist (allOfOption (walkBelow source full g above)) := by
  rw [all_walkBelow]
  exact (sublist_flatMap_of_mem (fun k => (walkBody source full g k).all) h).trans
    (List.sublist_append_left _ _)

/-- The occurrences below one of a walk are among those of the walk, in their order. -/
theorem all_sublist_of_mem {g : Grammar} {key : Key} {o : Occurrence}
    (h : o ∈ (walkBody source full g key).all) (ho : o.isWrapper = false) :
    o.all.Sublist (walkBody source full g key).all := by
  induction g using inductionOn generalizing key with
  | node g ih =>
    rw [all_walkBody, List.mem_append, List.mem_flatMap] at h
    rcases h with ⟨⟨c, above⟩, hc, h⟩ | h
    · rw [all_walkBelow, List.mem_append, List.mem_flatMap] at h
      rcases h with ⟨k, hk, h⟩ | h
      · have item : o.all.Sublist (walkBody source full c k).all :=
          ih c (mem_children_of_mem_walked source hc) h
        exact (item.trans (sublist_all_walkBelow hk)).trans (sublist_all_walkBody hc)
      · cases (of_mem_wrappers h).2.2.1.symm.trans ho
    · rw [List.mem_singleton.1 h]

/-- The selected option of a choice is one of its options, and its content is what is there of
it. -/
theorem of_walkBody_eq_choice {g node option : Grammar} {key above : Key}
    {content : Option Occurrence}
    (h : walkBody source full g above = .choice node key (some option) content) :
    (∃ attrs options, g = choice attrs options ∧ option ∈ options) ∧
      content = walkBelow source full option key := by
  cases g with
  | choice attrs options =>
    rw [walkBody_choice] at h
    rcases chosen : ((source.text? above).filter (· != noOption)).bind fun selection =>
      walkOption source full selection options above with - | ⟨selected, walked⟩
    · rw [chosen] at h
      cases h
    · rw [chosen] at h
      cases h
      obtain ⟨selection, -, found⟩ := Option.bind_eq_some_iff.1 chosen
      rw [walkOption_eq, Option.map_eq_some_iff] at found
      obtain ⟨_, found, e⟩ := found
      cases e
      exact ⟨⟨attrs, options, rfl, List.mem_of_find?_eq_some found⟩, rfl⟩
  | array attrs content => cases content <;> cases h
  | _ => cases h

/-- A choice of a bare value reads its key twice. -/
theorem not_nodup_of_selectsBareValue {g : Grammar} {key : Key} {o : Occurrence}
    (h : o ∈ (walkBody source true g key).all) (bare : o.selectsBareValue = true) :
    ¬ ((walkBody source true g key).all.filterMap readKey?).Nodup := by
  obtain ⟨node, k, option, content, rfl, bare⟩ := eq_choice_of_selectsBareValue bare
  obtain ⟨g', above, e⟩ := exists_walkBody_of_mem h rfl
  obtain ⟨value, mem, reads⟩ := exists_read_of_isBareValue source bare k
  rw [← (of_walkBody_eq_choice e.symm).2] at mem
  intro nodup
  have own := nodup.sublist ((all_sublist_of_mem h rfl).filterMap readKey?)
  rw [all, List.filterMap_append, List.nodup_append] at own
  exact own.2.2 k (List.mem_filterMap.2 ⟨value, mem, reads⟩) k (List.mem_singleton_self k) rfl

/-- No key is read twice exactly if no choice has selected a bare value. -/
theorem nodup_filterMap_readKey?_iff (source : Source) (g : Grammar) (key : Key) :
    ((walkBody source true g key).all.filterMap readKey?).Nodup ↔
      ∀ o ∈ (walkBody source true g key).all, o.selectsBareValue = false := by
  constructor
  · intro nodup o ho
    exact Bool.eq_false_iff.2 fun bare => not_nodup_of_selectsBareValue ho bare nodup
  · intro no_bare
    rw [List.Nodup, List.pairwise_filterMap]
    refine (reads_apart g key).imp_of_mem fun {o p} _ hp apart x hx y hy => ?_
    rintro rfl
    -- two that read one key would be a choice and its bare value
    have bare := apart x hx hy
    rw [no_bare p hp] at bare
    cases bare

/-- With identifiers for all options, no choice selects a bare value. -/
theorem selectsBareValue_of_hasNamedOptions {g : Grammar} (hg : g.hasNamedOptions = true)
    {key : Key} {o : Occurrence} (h : o ∈ (walkBody source full g key).all) :
    o.selectsBareValue = false := by
  induction g using inductionOn generalizing key with
  | node g ih =>
    rw [all_walkBody, List.mem_append, List.mem_flatMap] at h
    rcases h with ⟨⟨c, above⟩, hc, h⟩ | h
    · have child := mem_children_of_mem_walked source hc
      rw [all_walkBelow, List.mem_append, List.mem_flatMap] at h
      rcases h with ⟨k, -, h⟩ | h
      · exact ih c child (hasNamedOptions_of_mem_children hg child) h
      · have wrapper := (of_mem_wrappers h).2.2.1
        cases o with
        | optional | repeated => rfl
        | _ => cases wrapper
    · obtain rfl := List.mem_singleton.1 h
      refine Bool.eq_false_iff.2 fun bare => ?_
      obtain ⟨node, k, option, content, e, unnamed⟩ := eq_choice_of_selectsBareValue bare
      obtain ⟨⟨attrs, options, rfl, mem⟩, -⟩ := of_walkBody_eq_choice e
      exact identifier_ne_empty_of_mem_options hg mem (identifier_of_isBareValue unnamed)

end Grammar

namespace Command

/-! ### Commands -/

/-- Arguments lie behind the key where the walk of a command starts. -/
theorem beyond_root_of_mem_walk {c : Command} {source : Source} {full : Bool} {o : Occurrence}
    (h : o ∈ (c.walk source full).all) : o.key.Beyond .root := by
  rw [all_walk, List.mem_flatMap] at h
  obtain ⟨⟨g, above⟩, hg, h⟩ := h
  obtain ⟨path, e⟩ := Grammar.exists_extend_of_mem_walkBelow h
  rw [e]
  exact (Grammar.beyond_of_mem_walked hg rfl).extend path

theorem nodup_reads_iff (c : Command) (source : Source) :
    (c.walk source true).reads.Nodup ↔
      ∀ o ∈ (c.walk source true).all, o.selectsBareValue = false := by
  have iff := Grammar.nodup_filterMap_readKey?_iff source c.toGrammar .root
  rw [all_walkBody_toGrammar, List.filterMap_append, List.forall_mem_append] at iff
  have nothing : [Grammar.walkBody source true c.toGrammar .root].filterMap Occurrence.readKey? =
      [] := rfl
  rw [nothing, List.append_nil, List.forall_mem_singleton] at iff
  rw [(Arguments.reads_perm _).nodup_iff]
  exact iff.trans (and_iff_left rfl)

/-- With identifiers for all options, no key is read twice. -/
theorem nodup_readLog_of_hasNamedOptions {c : Command} (h : c.hasNamedOptions = true)
    (source : Source) : (c.readLog source true).Nodup := by
  rw [readLog_eq, nodup_reads_iff]
  intro o ho
  exact Grammar.selectsBareValue_of_hasNamedOptions h (mem_walkBody_of_mem_walk ho)

/-- **Keys are read once.**  A full walk gives its tree and reads no key twice, exactly if no
choice has an array selected that has neither a name nor an item node and is not repeated. -/
theorem nodup_readLog_iff (c : Command) (source : Source) :
    (c.walkM source.logged true).run [] = (c.walk source true, c.readLog source true) ∧
      ((c.readLog source true).Nodup ↔
        ∀ o ∈ (c.walk source true).all, o.selectsBareValue = false) := by
  rw [readLog_eq]
  exact ⟨run_walkM_logged c source true, nodup_reads_iff c source⟩

/-- A command with a choice whose only option is an array without a name. -/
def namelessPick : Command where
  name := "pick"
  args := [.choice {} [.array {} none none none]]

/-- The selection of the array and the value of the array are one and the same entry. -/
theorem readLog_namelessPick :
    namelessPick.readLog (.ofValues namelessPick.defaults) true =
        [(Key.root.ordinal 0).named "choice", (Key.root.ordinal 0).named "choice"] ∧
      ¬ (namelessPick.readLog (.ofValues namelessPick.defaults) true).Nodup := by
  have log : namelessPick.readLog (.ofValues namelessPick.defaults) true =
      [(Key.root.ordinal 0).named "choice", (Key.root.ordinal 0).named "choice"] := by
    decide +kernel
  refine ⟨log, ?_⟩
  rw [log]
  decide

end Command

end CommandGraph
