/-
CommandGraph/Proofs/Occurrence/Dead.lean

Values that a walk leaves aside.

What is stored for an optional argument stays when the argument is turned off, and so does what
belongs to items beyond the count or to an option that is not selected.  An occurrence retires
the keys of such values (`Occurrence.Retires`), and a key is dead if an occurrence of the walk
retires it (`Command.Dead`).

No occurrence of a walk that passes over what is turned off reads a key that another one has
retired (`Grammar.spares_of_mem`): occurrences apart from each other have no keys in common, and
around each other they differ in the step that follows their key, since live items have smaller
numbers, the selected option another name, and flags and counts are no items or names at all.
So a walk does not depend on dead values.
-/
import CommandGraph.Proofs.Occurrence.Reads
import CommandGraph.Render.Arguments
import Mathlib.Data.List.Pairwise

namespace CommandGraph

namespace Occurrence

/-- Whether an occurrence puts a key out of use: behind an optional argument that is turned off,
its flag apart, at an item beyond the count, or at an option that is not selected.  Arrays
without an item node are walked as values, and have no items whatever their count. -/
def Retires (source : Source) : Occurrence → Key → Prop
  | optional node key enabled _, x =>
    enabled = false ∧ x.isUnder key = true ∧ x ≠ key ∧ x ≠ node.flagKey key
  | repeated _ key count _, x => ∃ i, count ≤ i ∧ x.isUnder (key.ordinal i) = true
  | array _ key _, x | scalar (.array ..) key _ _, x =>
    ∃ i, source.count key.count ≤ i ∧ x.isUnder (key.ordinal i) = true
  | choice node key selected _, x =>
    ∃ option ∈ node.children, option.identifier ≠ "" ∧
      selected.map Grammar.identifier ≠ some option.identifier ∧
      x.isUnder (key.named option.identifier) = true
  | _, _ => False

/-! ### Deciding what is retired -/

/-- If a key lies under an item with a large number, the number stands in one of its segments. -/
theorem exists_item_iff {key x : Key} {n : Nat} :
    (∃ s ∈ x.segments, n ≤ s.number ∧ x.isUnder (key.ordinal s.number) = true) ↔
      ∃ i, n ≤ i ∧ x.isUnder (key.ordinal i) = true := by
  constructor
  · rintro ⟨s, -, beyond, under⟩
    exact ⟨s.number, beyond, under⟩
  · rintro ⟨i, beyond, under⟩
    refine ⟨.ordinal i, ?_, beyond, under⟩
    obtain ⟨path, rfl⟩ := Key.exists_extend_of_isUnder under
    exact List.mem_append_left _ (List.mem_append_right _ (List.mem_singleton_self _))

/-- The numbers of items are steps of a key, so that there are few to try. -/
instance Retires.instDecidable (source : Source) :
    (o : Occurrence) → (x : Key) → Decidable (o.Retires source x)
  | optional .., _ => inferInstanceAs (Decidable (_ ∧ _ ∧ _ ∧ _))
  | repeated .., _ | array .., _ => decidable_of_iff _ exists_item_iff
  | scalar node .., _ =>
    match node with
    | .array .. => decidable_of_iff _ exists_item_iff
    | .primitive .. | .keyword .. | .assignment .. | .choice .. | .block .. | .branch ..
    | .subcommand .. | .group .. | .base .. => inferInstanceAs (Decidable False)
  | choice node key selected _, x => inferInstanceAs (Decidable (∃ option ∈ node.children,
      option.identifier ≠ "" ∧ selected.map Grammar.identifier ≠ some option.identifier ∧
        x.isUnder (key.named option.identifier) = true))
  | literal .., _ | block .., _ | branch .., _ | subcommand .., _ | group .., _
  | base .., _ => inferInstanceAs (Decidable False)

variable {source : Source}

/-! ### Where retired keys lie -/

/-- What wraps no node retires keys of items or options only. -/
theorem Retires.beyond_self {o : Occurrence} {x : Key} (h : o.Retires source x)
    (ho : o.isWrapper = false) : x.Beyond o.key := by
  cases o with
  | array =>
    obtain ⟨i, -, under⟩ := h
    exact Key.beyond_of_isUnder_push (by simp) under
  | scalar node =>
    cases node with
    | array =>
      obtain ⟨i, -, under⟩ := h
      exact Key.beyond_of_isUnder_push (by simp) under
    | _ => cases h
  | choice =>
    obtain ⟨option, -, -, -, under⟩ := h
    exact Key.beyond_of_isUnder_push (by simp) under
  | optional | repeated => cases ho
  | _ => cases h

/-- What an occurrence retires lies behind its key. -/
theorem Retires.exists_extend {o : Occurrence} {x : Key} (h : o.Retires source x) :
    ∃ s rest, x = o.key.extend (s :: rest) := by
  cases wrapper : o.isWrapper with
  | false =>
    obtain ⟨s, rest, rfl, -⟩ := h.beyond_self wrapper
    exact ⟨s, rest, rfl⟩
  | true =>
    cases o with
    | optional node key enabled content =>
      -- a retired key lies under that of the argument and differs from it
      obtain ⟨-, under, ne, -⟩ := h
      obtain ⟨path, rfl⟩ := Key.exists_extend_of_isUnder under
      cases path with
      | nil => cases ne (Key.extend_nil key)
      | cons s rest => exact ⟨s, rest, rfl⟩
    | repeated =>
      obtain ⟨i, -, under⟩ := h
      obtain ⟨path, rfl⟩ := Key.exists_extend_of_isUnder under
      exact ⟨.ordinal i, path, Key.extend_extend _ _ _⟩
    | _ => cases wrapper

theorem Retires.beyond {o : Occurrence} {x key : Key} (h : o.Retires source x)
    (ho : o.key.Beyond key) : x.Beyond key := by
  obtain ⟨s, rest, rfl⟩ := h.exists_extend
  exact ho.extend _

/-- An occurrence at a key or below it does not retire the key. -/
theorem Retires.ne_of_extend {o : Occurrence} {x key : Key} (h : o.Retires source x)
    (ho : ∃ path, o.key = key.extend path) : x ≠ key := by
  obtain ⟨path, e⟩ := ho
  obtain ⟨s, rest, rfl⟩ := h.exists_extend
  rw [e, Key.extend_extend]
  intro same
  have empty : path ++ s :: rest = [] := Key.extend_injective (same.trans (Key.extend_nil key).symm)
  simp at empty

/-- What is read below a key lies under no key apart from it. -/
theorem isUnder_eq_false_of_apart {p : Occurrence} {k l x : Key} (apart : k.Apart l)
    (hp : ∃ path, p.key = k.extend path) (hx : p.readKey? = some x) : x.isUnder l = false := by
  obtain ⟨path, e⟩ := hp
  obtain ⟨rest, rfl⟩ := exists_of_readKey? hx
  rw [e, Key.extend_extend, ← Key.extend_nil l]
  exact (apart.extend _ _).isUnder_eq_false

/-! ### Sparing -/

/-- Whether an occurrence does not retire what another one reads. -/
def Spares (source : Source) (o p : Occurrence) : Prop :=
  ∀ x, p.readKey? = some x → ¬ o.Retires source x

/-- What lies below a key spares what lies below a key apart from it. -/
theorem spares_of_apart {o p : Occurrence} {k l : Key} (apart : k.Apart l)
    (ho : ∃ path, o.key = k.extend path) (hp : ∃ path, p.key = l.extend path) :
    o.Spares source p := by
  intro x hx retires
  obtain ⟨path, e⟩ := ho
  obtain ⟨rest, e'⟩ := hp
  obtain ⟨more, rfl⟩ := exists_of_readKey? hx
  obtain ⟨s, less, same⟩ := retires.exists_extend
  rw [e, e'] at same
  -- extending keys that lie apart never makes them meet
  exact ((apart.symm.extend rest path).extend more (s :: less)).ne same

end Occurrence

namespace Grammar

open Occurrence

variable {source : Source} {full : Bool}

/-! ### A node at its key -/

/-- The children of a node that may go without an identifier are its items or siblings. -/
theorem exists_ordinal_of_mem_walked {g c : Grammar} {key above : Key}
    (hg : g.isAnonymous = true) (h : (c, above) ∈ g.walked source key) :
    ∃ i, above = key.ordinal i := by
  cases g with
  | block | group =>
    obtain ⟨p, -, e⟩ := List.mem_map.1 h
    exact ⟨p.2, (Prod.mk.inj e).2.symm⟩
  | array =>
    simp only [walked, List.mem_flatMap, List.mem_map, Prod.mk.injEq] at h
    obtain ⟨-, -, i, -, -, e⟩ := h
    exact ⟨i, e.symm⟩
  | branch => cases h
  | _ => cases hg

/-- Nothing is read under a name behind the key of a node without an identifier. -/
theorem isUnder_named_eq_false {g : Grammar} {above x : Key} {p : Occurrence}
    (unnamed : g.identifier = "") (hp : p ∈ allOfOption (walkBelow source full g above))
    (hx : p.readKey? = some x) (name : String) : x.isUnder (above.named name) = false := by
  -- the node lies at the key it is in, so that its own steps must be told from the name
  have at_key : g.keyBelow above = above := keyBelow_of_identifier_eq_empty unnamed above
  have anonymous : g.isAnonymous = true :=
    isAnonymous_of_identifier_eq_empty unnamed (isAddressable_of_mem_walkBelow hp)
  have marked (m : Marker) : (above.marked m).isUnder (above.named name) = false :=
    Key.Apart.isUnder_eq_false (Key.apart_push (by simp))
  have of_ordinal {i : Nat} (h : ∃ path, p.key = (above.ordinal i).extend path) :
      x.isUnder (above.named name) = false :=
    isUnder_eq_false_of_apart (Key.apart_push (by simp)) h hx
  rw [all_walkBelow, List.mem_append, List.mem_flatMap] at hp
  rcases hp with ⟨k, hk, hp⟩ | hp
  · rw [bodyKeys] at hk
    split at hk
    · rw [itemKeys, at_key] at hk
      split at hk
      · obtain ⟨i, -, rfl⟩ := List.mem_map.1 hk
        obtain ⟨path, e, -⟩ := key_of_mem_walkBody hp
        rw [Key.join_eq_extend, Key.extend_extend] at e
        exact of_ordinal ⟨_, e⟩
      · obtain rfl := List.mem_singleton.1 hk
        rw [all_walkBody, List.mem_append, List.mem_flatMap] at hp
        rcases hp with ⟨⟨c, below⟩, hc, hp⟩ | hp
        · obtain ⟨i, rfl⟩ := exists_ordinal_of_mem_walked anonymous hc
          exact of_ordinal (exists_extend_of_mem_walkBelow hp)
        · obtain rfl := List.mem_singleton.1 hp
          -- the node itself reads its count or its key, and neither lies under a name
          rcases readKey?_walkBody hx with rfl | ⟨rfl, -⟩
          · exact marked .count
          · exact Key.isUnder_push_self _ _
    · cases hk
  · -- around the body, the count and the flag of the node are read
    rcases readKey?_of_mem_wrappers hp with ⟨-, e⟩ | ⟨-, e⟩
    · obtain rfl := Option.some.inj (hx.symm.trans e)
      rw [at_key]
      exact marked .count
    · obtain rfl := Option.some.inj (hx.symm.trans e)
      rw [at_key, flagKey, isKeyword_of_isAnonymous anonymous]
      exact marked .enabled

/-- A node spares its children: they are the live items of an array, and the selected option of a
choice. -/
theorem walkBody_spares {g c : Grammar} {key above : Key} {p : Occurrence}
    (hc : (c, above) ∈ g.walked source key)
    (hp : p ∈ allOfOption (walkBelow source full c above)) :
    (walkBody source full g key).Spares source p := by
  intro x hx retires
  cases g with
  | choice attrs options =>
    obtain ⟨rfl, e⟩ := walkBody_of_mem_walked full hc
    rw [e] at retires
    obtain ⟨option, -, -, deselected, under⟩ := retires
    -- an option that is not selected has another name than the selected one, which may have none
    by_cases unnamed : c.identifier = ""
    · rw [isUnder_named_eq_false unnamed hp hx] at under
      cases under
    · have apart : (c.keyBelow above).Apart (above.named option.identifier) := by
        rw [keyBelow, Key.join, if_neg (by simpa using unnamed)]
        refine Key.apart_push fun same => deselected ?_
        exact congrArg some (Segment.name.inj same)
      rw [isUnder_eq_false_of_apart apart (key_of_mem_walkBelow hp) hx] at under
      cases under
  | array attrs content delimiters separator =>
    cases content with
    | none => cases hc
    | some content =>
      obtain ⟨i, beyond, under⟩ := retires
      rw [walked, Option.toList_some, List.flatMap_singleton] at hc
      obtain ⟨j, live, e⟩ := List.mem_map.1 hc
      cases e
      -- the number of a live item is below the count, that of a retired one is not
      have apart : (key.ordinal j).Apart (key.ordinal i) :=
        Key.apart_ordinal (Nat.lt_of_lt_of_le (List.mem_range.1 live) beyond)
      rw [isUnder_eq_false_of_apart apart (exists_extend_of_mem_walkBelow hp) hx] at under
      cases under
  | _ => cases retires

/-- A node that is no choice retires, like all that is below it, keys behind its own one only. -/
theorem beyond_of_retires {g : Grammar} {key x : Key} {o : Occurrence}
    (no_choice : g.isChoice = false) (ho : o ∈ (walkBody source full g key).all)
    (h : o.Retires source x) : x.Beyond key := by
  rw [all_walkBody, List.mem_append, List.mem_flatMap] at ho
  rcases ho with ⟨⟨c, above⟩, hc, ho⟩ | ho
  · exact h.beyond (key_beyond_of_mem_walked no_choice hc ho)
  · obtain rfl := List.mem_singleton.1 ho
    have own := h.beyond_self (isWrapper_walkBody g key)
    rwa [key_walkBody] at own

/-- Choices read no counts. -/
theorem isChoice_of_readKey?_count {g : Grammar} {key : Key}
    (h : (walkBody source full g key).readKey? = some key.count) : g.isChoice = false := by
  cases g with
  | choice attrs options =>
    obtain ⟨selected, content, e⟩ := exists_walkBody_choice source full attrs options key
    rw [e] at h
    cases Key.ne_marked key .count (Option.some.inj h)
  | _ => rfl

/-- What is below a node spares the node. -/
theorem spares_walkBody {g : Grammar} {key : Key} {o : Occurrence}
    (ho : o ∈ (walkBody source full g key).all) : o.Spares source (walkBody source full g key) := by
  intro x hx retires
  rcases readKey?_walkBody hx with rfl | ⟨rfl, -⟩
  · have behind := beyond_of_retires (isChoice_of_readKey?_count hx) ho retires
    exact behind.ne_marked .count rfl
  · obtain ⟨path, e, -⟩ := key_of_mem_walkBody ho
    exact retires.ne_of_extend ⟨path, e⟩ rfl

/-! ### A node below a key -/

/-- What wraps a node spares the body of the node: an optional argument that is turned off has none,
and a repeated one has live items only. -/
theorem wrappers_spare {g : Grammar} {above key : Key} {o p : Occurrence}
    (ho : o ∈ g.wrappers source false above) (hk : key ∈ g.bodyKeys source false above)
    (hp : p ∈ (walkBody source false g key).all) : o.Spares source p := by
  intro x hx retires
  rw [bodyKeys] at hk
  split at hk
  · next entered =>
    rcases eq_of_mem_wrappers ho with ⟨-, repeatable, items, rfl⟩ | ⟨-, flagged, content, rfl⟩
    · obtain ⟨i, beyond, under⟩ := retires
      rw [itemKeys, if_pos repeatable] at hk
      obtain ⟨j, live, rfl⟩ := List.mem_map.1 hk
      obtain ⟨path, e, -⟩ := key_of_mem_walkBody hp
      rw [Key.join_eq_extend, Key.extend_extend] at e
      have apart : ((g.keyBelow above).ordinal j).Apart ((g.keyBelow above).ordinal i) :=
        Key.apart_ordinal (Nat.lt_of_lt_of_le (List.mem_range.1 live) beyond)
      rw [isUnder_eq_false_of_apart apart ⟨_, e⟩ hx] at under
      cases under
    · rw [isEntered, flagged, retires.1] at entered
      simp at entered
  · cases hk

/-- What is in the body of a node spares what wraps the node. -/
theorem spares_wrappers {g : Grammar} {above key : Key} {o p : Occurrence}
    (hk : key ∈ g.bodyKeys source full above) (ho : o ∈ (walkBody source full g key).all)
    (hp : p ∈ g.wrappers source full above) : o.Spares source p := by
  intro x hx retires
  have behind : x.Beyond (g.keyBelow above) := by
    rcases of_mem_bodyKeys hk with ⟨single, rfl⟩ | ⟨repeatable, -⟩
    · rcases readKey?_of_mem_wrappers hp with ⟨repeatable, -⟩ | ⟨flagged, -⟩
      · rw [single] at repeatable
        cases repeatable
      · -- choices have no flags
        rw [isFlagged, Bool.and_eq_true, Bool.not_eq_true'] at flagged
        exact beyond_of_retires flagged.2 ho retires
    · exact retires.beyond (key_beyond_of_mem_items repeatable hk ho)
  rcases readKey?_of_mem_wrappers hp with ⟨-, reads⟩ | ⟨-, reads⟩
  · exact behind.ne_marked .count (Option.some.inj (hx.symm.trans reads))
  · exact ne_flagKey_of_beyond behind g (Option.some.inj (hx.symm.trans reads))

/-- What wraps a node spares itself. -/
theorem spares_of_mem_wrappers {g : Grammar} {above : Key} {o p : Occurrence}
    (ho : o ∈ g.wrappers source false above) (hp : p ∈ g.wrappers source false above) :
    o.Spares source p := by
  intro x hx retires
  rcases eq_of_mem_wrappers ho with ⟨-, -, items, rfl⟩ | ⟨-, flagged, content, rfl⟩
  · obtain ⟨i, -, under⟩ := retires
    have behind : x.Beyond (g.keyBelow above) := Key.beyond_of_isUnder_push (by simp) under
    rcases readKey?_of_mem_wrappers hp with ⟨-, reads⟩ | ⟨-, reads⟩
    · exact behind.ne_marked .count (Option.some.inj (hx.symm.trans reads))
    · exact ne_flagKey_of_beyond behind g (Option.some.inj (hx.symm.trans reads))
  · obtain ⟨off, -, -, unflagged⟩ := retires
    rcases eq_of_mem_wrappers hp with ⟨entered, -, items, rfl⟩ | ⟨-, -, content, rfl⟩
    · rw [isEntered, flagged, off] at entered
      simp at entered
    · exact unflagged (Option.some.inj hx).symm

/-- What is below a key spares itself if this is so of the body at every key. -/
theorem spares_walkBelow {g : Grammar}
    (ih : ∀ key, ∀ o ∈ (walkBody source false g key).all,
      ∀ p ∈ (walkBody source false g key).all, o.Spares source p)
    {above : Key} {o p : Occurrence} (ho : o ∈ allOfOption (walkBelow source false g above))
    (hp : p ∈ allOfOption (walkBelow source false g above)) : o.Spares source p := by
  rw [all_walkBelow, List.mem_append, List.mem_flatMap] at ho hp
  rcases ho with ⟨k, hk, ho⟩ | ho
  · rcases hp with ⟨l, hl, hp⟩ | hp
    · by_cases same : k = l
      · subst same
        exact ih k o ho p hp
      · -- items lie apart
        obtain ⟨path, e, -⟩ := key_of_mem_walkBody ho
        obtain ⟨rest, e', -⟩ := key_of_mem_walkBody hp
        exact spares_of_apart ((bodyKeys_apart g above).forall hk hl same) ⟨path, e⟩ ⟨rest, e'⟩
    · exact spares_wrappers hk ho hp
  · rcases hp with ⟨l, hl, hp⟩ | hp
    · exact wrappers_spare ho hl hp
    · exact spares_of_mem_wrappers ho hp

/-- No occurrence of a walk that passes over what is turned off retires a key that is read. -/
theorem spares_of_mem {g : Grammar} {key : Key} :
    ∀ o ∈ (walkBody source false g key).all, ∀ p ∈ (walkBody source false g key).all,
      o.Spares source p := by
  induction g using inductionOn generalizing key with
  | node g ih =>
    intro o ho p hp
    have below := ho
    rw [all_walkBody, List.mem_append, List.mem_flatMap] at ho hp
    rcases hp with ⟨⟨d, above'⟩, hd, hp⟩ | hp
    · rcases ho with ⟨⟨c, above⟩, hc, ho⟩ | ho
      · by_cases same : (c, above) = (d, above')
        · cases same
          exact spares_walkBelow (fun k => ih d (mem_children_of_mem_walked source hd)) ho hp
        · -- children lie apart
          exact spares_of_apart ((walked_apart g key).forall hc hd same)
            (exists_extend_of_mem_walkBelow ho) (exists_extend_of_mem_walkBelow hp)
      · obtain rfl := List.mem_singleton.1 ho
        exact walkBody_spares hd hp
    · obtain rfl := List.mem_singleton.1 hp
      exact spares_walkBody below

end Grammar

namespace Command

/-! ### Dead keys -/

/-- Whether a key is retired by an occurrence of the walk of a command that passes over what is
turned off. -/
def Dead (c : Command) (source : Source) (x : Key) : Prop :=
  ∃ o ∈ (c.walk source false).all, o.Retires source x

instance (c : Command) (source : Source) (x : Key) : Decidable (c.Dead source x) :=
  inferInstanceAs (Decidable (∃ o ∈ _, _))

/-- A key that a walk reads is not dead. -/
theorem not_dead_of_read {c : Command} {source : Source} {p : Occurrence} {x : Key}
    (hp : p ∈ (c.walk source false).all) (hx : p.readKey? = some x) : ¬ c.Dead source x := by
  rintro ⟨o, ho, retires⟩
  exact Grammar.spares_of_mem o (mem_walkBody_of_mem_walk ho) p (mem_walkBody_of_mem_walk hp) x hx
    retires

/-- Sources that differ at dead keys alone give the same arguments. -/
theorem walk_eq_of_dead {c : Command} {s t : Source}
    (h : ∀ key, t key ≠ s key → c.Dead s key) : c.walk t false = c.walk s false := by
  refine walk_eq_of_reads fun p hp key reads => ?_
  by_contra differ
  exact not_dead_of_read hp reads (h key differ)

/-- **Dead values do not leak.**  Let two sources, of stored values (`Source.ofValues`) or of values
seen through connections, differ at keys alone that are dead under the first one.  A walk that
passes over what is turned off asks both for the same keys and gives the same tree of arguments,
which is all that is known to whoever walks the command, and so the command is written alike. -/
theorem indifferent_of_dead {c : Command} {s t : Source}
    (h : ∀ key, t key ≠ s key → c.Dead s key) :
    (c.walkM t.logged false).run [] = (c.walkM s.logged false).run [] ∧
      c.walk t false = c.walk s false ∧
      ∀ options branch, c.render options t branch = c.render options s branch := by
  have same := walk_eq_of_dead h
  refine ⟨?_, same, fun options branch => ?_⟩
  · rw [run_walkM_logged, run_walkM_logged, same]
  · rw [render, render, same]

/-! ### An order with leftovers -/

/-- A command with an argument that can be turned off, one that is repeated, and a choice. -/
def order : Command where
  name := "order"
  args := [
    .subcommand { name := some "tip", optional := true } none [.primitive {} .numeric none],
    .primitive { name := some "item", repeatable := true } .string none,
    .choice { name := some "pay" }
      [.keyword {} "cash", .group {} [.keyword {} "card", .primitive {} .numeric none]]]

/-- What may be left of a tip, a second item and a card. -/
def leftovers : List (Key × Scalar) := [
  (((Key.root.ordinal 0).named "tip" |>.ordinal 0).named "numeric", .int 5),
  (((Key.root.ordinal 1).named "item" |>.ordinal 1).named "item", .text "tea"),
  ((((Key.root.ordinal 2).named "pay").named "card" |>.ordinal 1).named "numeric", .int 4711)]

/-- A fresh order is written as if the leftovers were not there. -/
theorem indifferent_leftovers :
    (∀ entry ∈ leftovers, order.Dead (.ofValues order.defaults) entry.1 ∧
        (order.defaults.extend leftovers)[entry.1]? ≠ order.defaults[entry.1]?) ∧
      order.walk (.ofValues (order.defaults.extend leftovers)) false =
        order.walk (.ofValues order.defaults) false ∧
      ∀ options branch, order.render options (.ofValues (order.defaults.extend leftovers)) branch =
        order.render options (.ofValues order.defaults) branch := by
  have dead : ∀ entry ∈ leftovers, order.Dead (.ofValues order.defaults) entry.1 := by
    decide +kernel
  have stored : ∀ entry ∈ leftovers,
      (order.defaults.extend leftovers)[entry.1]? ≠ order.defaults[entry.1]? := by
    decide +kernel
  refine ⟨fun entry mem => ⟨dead entry mem, stored entry mem⟩,
    (indifferent_of_dead fun key differ => ?_).2⟩
  by_contra live
  refine differ (congrArg Except.ok (Values.getElem?_extend_of_forall_ne fun entry mem => ?_))
  rintro rfl
  exact live (dead entry mem)

end Command

end CommandGraph
