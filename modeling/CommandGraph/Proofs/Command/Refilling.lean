/-
CommandGraph/Proofs/Command/Refilling.lean

Filling anew when one entry has changed.

Values that are complete get no defaults.  When one of their entries is changed and defaults are
filled in again, then all that is new belongs to what the changed entry has opened: to an item
beyond the old count, or to the option that is selected now (`Command.opened_of_mem_fillDefaults`).

Both runs of filling take the same steps, one level of the grammar after the other, until they get
to the node that the changed entry belongs to.  There the second run may have more parts to fill,
and whatever a part is given lies at its key or below it (`Grammar.of_mem_fillBelow`).
-/
import CommandGraph.Proofs.Command.Coverage
import CommandGraph.Proofs.Occurrence.Nesting

namespace CommandGraph

namespace Values

/-! ### Maps that differ in one entry -/

/-- Whether a map has the entries of another one, except that at one key the value may differ. -/
structure WithinBut (changed : Key) (values larger : Values) : Prop where
  same : ∀ (key : Key) (value : Scalar), key ≠ changed → values[key]? = some value →
    larger[key]? = some value
  kept : changed ∈ values → changed ∈ larger

variable {changed : Key} {a b : Values}

theorem withinBut_insert (values : Values) (key : Key) (value : Scalar) :
    WithinBut key values (values.insert key value) where
  same other found ne e := by rw [getElem?_insert_eq, if_neg ne.symm, e]
  kept _ := Std.ExtTreeMap.mem_insert_self

theorem not_mem_insert {values : Values} {key other : Key} (stored : key ∈ values)
    (new : other ∉ values) (value : Scalar) : other ∉ values.insert key value := by
  intro mem
  rcases Std.ExtTreeMap.mem_insert.1 mem with e | mem
  · exact new (Std.LawfulEqCmp.eq_of_compare e ▸ stored)
  · exact new mem

theorem WithinBut.getElem?_eq (h : WithinBut changed a b) {key : Key} (ne : key ≠ changed)
    (mem : key ∈ a) : b[key]? = a[key]? := by
  obtain ⟨value, e⟩ := mem_iff_exists.1 mem
  rw [h.same key value ne e, e]

/-- No key is lost, the changed one included. -/
theorem WithinBut.mem (h : WithinBut changed a b) {key : Key} (mem : key ∈ a) : key ∈ b := by
  by_cases ne : key = changed
  · subst ne
    exact h.kept mem
  · obtain ⟨value, e⟩ := mem_iff_exists.1 mem
    exact mem_iff_exists.2 ⟨value, h.same key value ne e⟩

theorem WithinBut.trans_within (h : WithinBut changed a b) {c : Values} (le : b.Within c) :
    WithinBut changed a c where
  same key value ne e := le key value (h.same key value ne e)
  kept mem := le.mem (h.kept mem)

end Values

/-! ### What belongs to an occurrence -/

theorem Key.isUnder_extend {key base : Key} (h : key.isUnder base = true) (path : List Segment) :
    (key.extend path).isUnder base = true := by
  obtain ⟨rest, rfl⟩ := exists_extend_of_isUnder h
  rw [extend_extend]
  exact isUnder_iff.2 ⟨rest ++ path, rfl⟩

/-- What lies below a key with a name lies below the key without it. -/
theorem Key.isUnder_of_isUnder_join {key base : Key} {name : String}
    (h : key.isUnder (base.join name) = true) : key.isUnder base = true := by
  obtain ⟨path, rfl⟩ := exists_extend_of_isUnder h
  rw [join_eq_extend]
  exact isUnder_extend (isUnder_extend (isUnder_self base) _) path

namespace Occurrence

/-- What belongs to an occurrence lies at its key or below it, as its flag and its count do. -/
theorem Owns.exists_extend {o : Occurrence} {k : Key} (h : o.Owns k) :
    ∃ path, k = o.key.extend path := by
  rcases h with rfl | rfl | rfl
  · exact ⟨[], (Key.extend_nil _).symm⟩
  · exact ⟨_, rfl⟩
  · exact ⟨_, rfl⟩

/-- An occurrence reads a key of its own. -/
theorem owns_of_readKey? {o : Occurrence} {k : Key} (h : o.readKey? = some k) : o.Owns k := by
  cases o with
  | scalar | choice => exact .inl (Option.some.inj h).symm
  | repeated | array => exact .inr (.inr (Option.some.inj h).symm)
  | optional node key =>
    -- the flag of an optional argument may stand at the key itself or beside it
    obtain rfl := Option.some.inj h
    rw [Owns, Grammar.flagKey]
    split
    · exact .inl rfl
    · exact .inr (.inl rfl)
  | _ => cases h

end Occurrence

/-- What belongs to occurrences lies behind those steps alone that the occurrences around them
admit. -/
theorem Command.admits_of_owns {c : Command} {source : Source} {full : Bool} {o p : Occurrence}
    (ho : o ∈ (c.walk source full).all) (hp : p ∈ (c.walk source full).all) {k : Key}
    (owns : o.Owns k) {s : Segment} (unmarked : ∀ m, s ≠ .marker m)
    (under : k.isUnder (p.key.push s) = true) : p.Admits source s := by
  refine admits_of_isUnder ho hp ?_
  rcases owns with rfl | rfl | rfl
  · exact under
  · exact Key.isUnder_of_isUnder_marked unmarked under
  · exact Key.isUnder_of_isUnder_marked unmarked under

/-! ### What an entry opens -/

/-- Whether a key belongs to what a changed entry has opened, in a walk with the given occurrences:
to a new item, or to an option that is selected. -/
inductive Opened (v w : Values) (changed : Key) (os : List Occurrence) (k : Key) : Prop
  | item {key : Key} {i : Nat} (at_count : changed = key.count)
    (fresh : (Source.ofValues v).count changed ≤ i) (live : i < (Source.ofValues w).count changed)
    (under : k.isUnder (key.ordinal i) = true) : Opened v w changed os k
  | option {node option : Grammar} {content : Option Occurrence}
    (here : .choice node changed (some option) content ∈ os)
    (addressable : option.isAddressable = true)
    (under : k.isUnder (option.keyBelow changed) = true) : Opened v w changed os k

theorem Opened.mono {v w : Values} {changed k : Key} {os os' : List Occurrence}
    (h : Opened v w changed os k) (sub : ∀ o ∈ os, o ∈ os') : Opened v w changed os' k := by
  cases h with
  | item at_count fresh live under => exact .item at_count fresh live under
  | option here addressable under => exact .option (sub _ here) addressable under

/-- An item that is counted now and was not counted before has been opened. -/
theorem Opened.of_new_index {v u w : Values} {key k : Key} {os : List Occurrence} {i : Nat}
    (le : u.Within w) (live : i ∈ List.range ((Source.ofValues u).count key.count))
    (new : i ∉ List.range ((Source.ofValues v).count key.count))
    (under : k.isUnder (key.ordinal i) = true) : Opened v w key.count os k := by
  have fresh : (Source.ofValues v).count key.count ≤ i :=
    Nat.le_of_not_lt fun early => new (List.mem_range.2 early)
  exact .item rfl fresh (Source.lt_count_ofValues (le _) (List.mem_range.1 live)) under

namespace Grammar

open Occurrence

variable {v u w : Values} {changed k : Key}

/-! ### Where a part is filled -/

/-- Filling a node adds keys at its own key and below. -/
theorem isUnder_of_mem_fillBody {g : Grammar} {key : Key} (h : Unmarked key.segments)
    (mem : k ∈ fillBody g key v) (new : k ∉ v) : k.isUnder key = true := by
  obtain ⟨o, ho, owns⟩ := g.fillsOccurrences h (.refl _) mem new
  obtain ⟨path, e, -⟩ := key_of_mem_walkBody ho
  obtain ⟨rest, rfl⟩ := owns.exists_extend
  rw [e]
  exact Key.isUnder_extend (Key.isUnder_extend (Key.isUnder_self key) path) rest

/-- Filling below a key adds something only for a node that can be reached there. -/
theorem of_mem_fillBelow {g : Grammar} {above : Key} (h : Unmarked above.segments)
    (mem : k ∈ g.fillBelow above v) (new : k ∉ v) :
    g.isAddressable = true ∧ k.isUnder (g.keyBelow above) = true := by
  have body : g.FillsOccurrences := g.fillsOccurrences
  obtain ⟨o, ho, owns⟩ := body.below h (.refl _) mem new
  -- what is added belongs to an occurrence of the walk, and all of these lie below
  obtain ⟨path, e⟩ := key_of_mem_walkBelow ho
  obtain ⟨rest, rfl⟩ := owns.exists_extend
  refine ⟨isAddressable_of_mem_walkBelow ho, ?_⟩
  rw [e]
  exact Key.isUnder_extend (Key.isUnder_extend (Key.isUnder_self _) path) rest

/-! ### Parts that are new -/

/-- A part that is called for by one of two sources only is an item or the option that a choice has
selected, opened by the entry in which the sources differ. -/
theorem opened_of_new_part {g c : Grammar} {key above : Key} (h : Unmarked key.segments)
    (present : ∀ entry ∈ g.ownDefaults key, entry.1 ∈ v) (but : v.WithinBut changed u)
    (le : u.Within w) (hc : (c, above) ∈ g.walked (.ofValues u) key)
    (new : (c, above) ∉ g.walked (.ofValues v) key)
    (parts : g.walked (.ofValues w) key = g.walked (.ofValues u) key) {x : Values}
    (added : k ∈ c.fillBelow above x) (fresh : k ∉ x) :
    Opened v w changed (walkBody (.ofValues w) true g key).all k := by
  -- two sources that agree on the entry that the node reads walk the same parts
  have own : (walkBody (.ofValues v) true g key).shapeKey? = some changed := by
    by_contra other
    refine new ?_
    rwa [← walked_eq_of_own present fun l hl => but.getElem?_eq fun e => other (e ▸ hl)]
  obtain ⟨addressable, under⟩ := of_mem_fillBelow (unmarked_of_mem_walked h hc) added fresh
  cases g with
  | choice attrs options =>
    obtain ⟨selected, content, e⟩ := exists_walkBody_choice (.ofValues v) true attrs options key
    rw [e] at own
    obtain rfl := Option.some.inj own
    rw [← parts] at hc
    -- the parts of a choice are those of the option that is selected
    obtain ⟨rfl, walked⟩ := walkBody_of_mem_walked true hc
    have here := mem_all_self (walkBody (.ofValues w) true (choice attrs options) above)
    rw [walked] at here ⊢
    exact .option here addressable under
  | array attrs content delimiters separator =>
    cases content with
    | none => cases hc
    | some content =>
      obtain rfl := Option.some.inj own
      rw [walked, Option.toList_some, List.flatMap_singleton] at hc new
      -- those of an array are its items, and the changed entry is their number
      obtain ⟨i, live, e⟩ := List.mem_map.1 hc
      obtain ⟨rfl, rfl⟩ := Prod.mk.inj e
      exact .of_new_index le live (fun early => new (List.mem_map_of_mem early))
        (Key.isUnder_of_isUnder_join under)
  | _ => cases own

/-- The same for the items of a node below a key. -/
theorem opened_of_new_item {g : Grammar} {above key : Key} (h : Unmarked above.segments)
    (present : ∀ entry ∈ g.wrapperDefaults above, entry.1 ∈ v) (but : v.WithinBut changed u)
    (le : u.Within w) (hk : key ∈ g.filledKeys above (.ofValues u))
    (new : key ∉ g.filledKeys above (.ofValues v)) {x : Values} (added : k ∈ fillBody g key x)
    (fresh : k ∉ x) (os : List Occurrence) : Opened v w changed os k := by
  -- with the same number of items the same ones would be filled
  have at_count : changed = (g.keyBelow above).count := by
    by_contra other
    refine new ?_
    rwa [← filledKeys_eq_of_count present fun _ _ => but.getElem?_eq (Ne.symm other)]
  have under := isUnder_of_mem_fillBody (unmarked_of_mem_filledKeys h hk) added fresh
  rw [filledKeys] at hk new
  split at hk
  · next filled =>
    rw [if_pos filled] at new
    rw [itemKeys] at hk new
    split at hk
    · next repeatable =>
      rw [if_pos repeatable] at new
      obtain ⟨i, live, rfl⟩ := List.mem_map.1 hk
      subst at_count
      exact .of_new_index le live (fun early => new (List.mem_map_of_mem early))
        (Key.isUnder_of_isUnder_join under)
    · next single =>
      rw [if_neg single] at new
      exact absurd hk new
  · cases hk

/-! ### Filling anew -/

/-- Whether all that filling a node anew adds to values that were complete belongs to what the
changed entry has opened. -/
def RefillsOpened (g : Grammar) : Prop :=
  ∀ {key : Key} {v u w : Values} {changed k : Key}, Unmarked key.segments → fillBody g key v = v →
    v.WithinBut changed u → (fillBody g key u).Within w → k ∈ fillBody g key u → k ∉ u →
      Opened v w changed (walkBody (.ofValues w) true g key).all k

/-- From a node to all of its items below a key.  Both runs give the same defaults to what wraps the
node, since these entries were there before. -/
theorem RefillsOpened.below {g : Grammar} (body : g.RefillsOpened) {above : Key}
    (h : Unmarked above.segments) (fixed : g.fillBelow above v = v) (but : v.WithinBut changed u)
    (le : (g.fillBelow above u).Within w) (mem : k ∈ g.fillBelow above u) (new : k ∉ u) :
    Opened v w changed (allOfOption (walkBelow (.ofValues w) true g above)) k := by
  have stays_in : u.Within w := ((g.completes_fillBelow h).within u).trans le
  rw [fillBelow_eq] at fixed le mem
  obtain ⟨present, settled⟩ := Completes.of_stage_eq_self (completes_fillItem h) fixed
  have still : ∀ entry ∈ g.wrapperDefaults above, entry.1 ∈ u :=
    fun entry given => but.mem (present entry given)
  rcases Completes.of_mem_stage (completes_fillItem h) mem new with
    ⟨entry, given, rfl⟩ | ⟨key, hk, x, between, stays, added, fresh⟩
  · exact absurd (still entry given) new
  · rw [Values.fillAll_eq_self still] at hk
    -- an item that was there before was complete, so what it gets is opened inside it
    by_cases before : key ∈ g.filledKeys above (.ofValues v)
    · have opened := body (unmarked_of_mem_filledKeys h hk) (settled key before)
        (but.trans_within between) (stays.trans le) added fresh
      refine opened.mono fun o ho => ?_
      rw [← filledKeys_congr still fun _ _ => stays_in.getElem?_eq] at hk
      rw [all_walkBelow]
      exact List.mem_append_left _ (List.mem_flatMap.2 ⟨key, mem_bodyKeys_of_filledKeys hk, ho⟩)
    · exact opened_of_new_item h present but stays_in hk before added fresh _

/-- By induction over the grammar, one level at a time. -/
theorem refillsOpened (g : Grammar) : g.RefillsOpened := by
  induction g using inductionOn with
  | node g ih =>
    intro key v u w changed k h fixed but le mem new
    have stays_in : u.Within w := ((g.completes_fillBody h).within u).trans le
    rw [fillBody_eq] at fixed le mem
    obtain ⟨present, settled⟩ := Completes.of_stage_eq_self (completes_fillPart h) fixed
    have still : ∀ entry ∈ g.ownDefaults key, entry.1 ∈ u :=
      fun entry given => but.mem (present entry given)
    -- what is new is a default of the node itself, which cannot be, or it has been added by filling
    -- one of its parts
    rcases Completes.of_mem_stage (completes_fillPart h) mem new with
      ⟨entry, given, rfl⟩ | ⟨⟨c, above⟩, hc, x, between, stays, added, fresh⟩
    · exact absurd (still entry given) new
    · rw [Values.fillAll_eq_self still] at hc
      have parts : g.walked (.ofValues w) key = g.walked (.ofValues u) key :=
        walked_congr still fun _ _ => stays_in.getElem?_eq
      -- a part that was there before was complete, so what it gets is opened inside it
      by_cases before : (c, above) ∈ g.walked (.ofValues v) key
      · have body : c.RefillsOpened := ih c (mem_children_of_mem_walked _ hc)
        have opened := body.below (unmarked_of_mem_walked h hc) (settled (c, above) before)
          (but.trans_within between) (stays.trans le) added fresh
        refine opened.mono fun o ho => ?_
        rw [← parts] at hc
        rw [all_walkBody]
        exact List.mem_append_left _ (List.mem_flatMap.2 ⟨(c, above), hc, ho⟩)
      · exact opened_of_new_part h present but stays_in hc before parts added fresh

end Grammar

/-- **Filling anew.**  What is added to values that were complete, when defaults are filled in
after one entry has changed, belongs to what this entry has opened. -/
theorem Command.opened_of_mem_fillDefaults {c : Command} {v u : Values} {changed k : Key}
    (complete : c.fillDefaults v = v) (but : v.WithinBut changed u) (mem : k ∈ c.fillDefaults u)
    (new : k ∉ u) :
    Opened v (c.fillDefaults u) changed (c.walk (.ofValues (c.fillDefaults u)) true).all k := by
  have root : Unmarked Key.root.segments := unmarked_nil
  -- a command is filled as the subcommand of its arguments, a node without an entry of its own
  cases c.toGrammar.refillsOpened root complete but (.refl _) mem new with
  | item at_count fresh live under => exact .item at_count fresh live under
  | option here addressable under =>
    rcases List.mem_append.1 here with here | whole
    · exact .option here addressable under
    · cases List.mem_singleton.1 whole

end CommandGraph
