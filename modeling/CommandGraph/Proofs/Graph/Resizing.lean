/-
CommandGraph/Proofs/Graph/Resizing.lean

Changing numbers of items.

Setting the number of items at a key deletes what is stored at items beyond it, stores the number
and fills in defaults.  Deleting goes by keys and filling by the grammar.  They fit because a walk
has nothing at or below an item beyond the count (`Command.admits_of_owns`), and the place that is
resized lasts through it all (`Node.HasItemsAt.resize`).

* Below 2^63 a resize deletes all it has to, and nothing else
  (`Node.HasItemsAt.isBeyond_eq_false`, `Node.getElem?_resize`).
* Growing stores entries at the new items alone (`Node.HoldsItems.exists_of_mem_grown`), so that
  shrinking restores the node, whatever has been written to them (`Graph.resize_restores`).
* The number that is read is the one that was set, unless that was 2^63 or more, where nothing is
  left of it (`Graph.setCount_reads`).
-/
import CommandGraph.Proofs.Command.Refilling
import CommandGraph.Proofs.Graph.RoundTrip
import CommandGraph.Proofs.Graph.Sites

namespace CommandGraph

namespace Values

/-- A key that has a value after entries were stored had one before, or is among the entries. -/
theorem of_mem_extend {values : Values} {entries : List (Key × Scalar)} {key : Key}
    (h : key ∈ values.extend entries) : key ∈ values ∨ ∃ entry ∈ entries, entry.1 = key := by
  by_contra absent
  have kept : (values.extend entries)[key]? = values[key]? :=
    getElem?_extend_of_forall_ne fun entry mem e => absent (.inr ⟨entry, mem, e⟩)
  obtain ⟨value, stored⟩ := mem_iff_exists.1 h
  exact absent (.inl (mem_iff_exists.2 ⟨value, kept.symm.trans stored⟩))

/-- Keeping what satisfies a condition changes nothing if everything does. -/
theorem keep_eq_self {values : Values} {condition : Key → Bool}
    (h : ∀ key ∈ values, condition key = true) : values.keep condition = values := by
  refine Std.ExtTreeMap.ext_getElem? fun key => ?_
  rw [getElem?_keep]
  split
  · rfl
  · next fails =>
    have absent : key ∉ values := fun mem => fails (h key mem)
    exact (Std.ExtTreeMap.getElem?_eq_none absent).symm

end Values

theorem Source.count_of_stored {values : Values} {key : Key} {n : Nat}
    (stored : values[key]? = some (.ofCount n)) :
    (ofValues values).count key = (Scalar.ofCount n).asCount := by
  rw [count, value?_ofValues, stored, Option.map_some, Option.getD_some]

namespace Node

variable {node : Node} {key x : Key} {count : Nat}

/-- A key is deleted by a resize if it lies at or below an item beyond the count. -/
theorem isBeyond_iff :
    isBeyond key count x = true ↔ ∃ i, count ≤ i ∧ x.isUnder (key.ordinal i) = true := by
  rw [isBeyond, Bool.and_eq_true]
  constructor
  · rintro ⟨under, beyond⟩
    obtain ⟨path, rfl⟩ := Key.exists_extend_of_isUnder under
    -- the segment that follows the key is the first one of the path behind it
    have step : (key.extend path).segments[key.segments.length]? = path[0]? := by
      rw [Key.extend, List.getElem?_append_right (Nat.le_refl _), Nat.sub_self]
    rw [step] at beyond
    split at beyond
    · next i first =>
      obtain ⟨rest, rfl⟩ : ∃ rest, path = .ordinal i :: rest := by
        cases path with
        | nil => cases first
        | cons s rest => exact ⟨rest, congrArg (· :: rest) (Option.some.inj first)⟩
      refine ⟨i, of_decide_eq_true beyond, ?_⟩
      exact Key.isUnder_iff.2 ⟨rest, by simp [Key.extend, Key.ordinal, Key.push]⟩
    · cases beyond
  · rintro ⟨i, le, under⟩
    obtain ⟨path, rfl⟩ := Key.exists_extend_of_isUnder under
    refine ⟨Key.isUnder_extend (Key.isUnder_push _ _) path, ?_⟩
    have step : ((key.ordinal i).extend path).segments[key.segments.length]? =
        some (.ordinal i) := by
      simp [Key.extend, Key.ordinal, Key.push]
    rw [step]
    exact decide_eq_true le

/-- A key is spared if it lies under no item beyond the count. -/
theorem isBeyond_eq_false_iff :
    isBeyond key count x = false ↔ ∀ i, count ≤ i → x.isUnder (key.ordinal i) = false := by
  rw [← Bool.not_eq_true, isBeyond_iff]
  simp

theorem beyond_of_isBeyond (h : isBeyond key count x = true) : x.Beyond key := by
  obtain ⟨i, -, under⟩ := isBeyond_iff.1 h
  exact Key.beyond_of_isUnder_push (by simp) under

theorem isBeyond_count (key : Key) (count : Nat) : isBeyond key count key.count = false :=
  Bool.eq_false_iff.2 fun h => (beyond_of_isBeyond h).ne_marked .count rfl

/-- What is beyond the count is not there when defaults are filled in. -/
theorem not_mem_of_isBeyond (h : isBeyond key count x = true) (values : Values) :
    x ∉ (values.keep (!isBeyond key count ·)).insert key.count (.ofCount count) := by
  have ne : key.count ≠ x := ((beyond_of_isBeyond h).ne_marked .count).symm
  intro mem
  obtain ⟨value, stored⟩ := Values.mem_iff_exists.1 mem
  rw [Values.getElem?_insert_eq, if_neg ne, Values.getElem?_keep, h] at stored
  cases stored

/-! ### What a resize keeps and deletes -/

theorem getElem?_resize {value : Scalar} (found : node.values[x]? = some value)
    (ne : x ≠ key.count) (kept : isBeyond key count x = false) :
    (node.resize key count).values[x]? = some value := by
  refine node.command.completes_fillDefaults.within _ x value ?_
  rw [Values.getElem?_insert_eq, if_neg ne.symm, Values.getElem?_keep, kept, found]
  rfl

theorem getElem?_count_resize (node : Node) (key : Key) (count : Nat) :
    (node.resize key count).values[key.count]? = some (.ofCount count) := by
  refine node.command.completes_fillDefaults.within _ key.count _ ?_
  rw [Values.getElem?_insert_eq, if_pos rfl]

/-- The place that is resized lasts. -/
theorem HasItemsAt.resize (h : node.HasItemsAt key) (count : Nat) :
    (node.resize key count).HasItemsAt key :=
  h.of_kept fun _ _ ne outside found => getElem?_resize found ne
    (Bool.eq_false_iff.2 fun beyond => outside (beyond_of_isBeyond beyond))

/-- After a resize nothing is left at or below an item beyond the count. -/
theorem HasItemsAt.isBeyond_eq_false (h : node.HasItemsAt key) (bound : count < Scalar.countBound)
    (mem : x ∈ (node.resize key count).values) : isBeyond key count x = false := by
  refine Bool.eq_false_iff.2 fun beyond => ?_
  obtain ⟨i, le, under⟩ := isBeyond_iff.1 beyond
  obtain ⟨q, hq, owns⟩ := Command.exists_of_mem_fillDefaults mem (not_mem_of_isBeyond beyond _)
  obtain ⟨p, hp, rfl, resizable⟩ := h.resize count
  -- what owns the new key is behind the place that has been resized, so at a live item
  have admits : p.Admits (.ofValues (node.resize p.key count).values) (.ordinal i) :=
    Command.admits_of_owns hq hp owns (by simp) under
  obtain ⟨j, live, e⟩ := Occurrence.exists_of_admits resizable admits
  obtain rfl := Segment.ordinal.inj e
  rw [Source.count_of_stored (getElem?_count_resize node p.key count),
    Scalar.asCount_ofCount bound] at live
  exact Nat.not_lt_of_le le live

/-! ### Growing and shrinking again -/

/-- Whether a node has exactly the given number of items at a key: it says so, its defaults are
filled in, and nothing is stored at items beyond. -/
structure HoldsItems (node : Node) (key : Key) (count : Nat) : Prop where
  site : node.HasItemsAt key
  complete : node.IsComplete
  stored : node.values[key.count]? = some (.ofCount count)
  bounded : ∀ x ∈ node.values, ∀ i, count ≤ i → x.isUnder (key.ordinal i) = false

variable {n m : Nat}

/-- Where a node has exactly so many items, nothing is stored beyond them. -/
theorem HoldsItems.isBeyond_eq_false (h : node.HoldsItems key n) (mem : x ∈ node.values) :
    isBeyond key n x = false :=
  isBeyond_eq_false_iff.2 (h.bounded x mem)

/-- Growing stores entries at the new items alone. -/
theorem HoldsItems.exists_of_mem_grown (h : node.HoldsItems key n) (le : n ≤ m)
    (bound : m < Scalar.countBound) (mem : x ∈ (node.resize key m).values)
    (new : x ∉ node.values) : ∃ i, n ≤ i ∧ i < m ∧ x.isUnder (key.ordinal i) = true := by
  -- nothing is deleted, as there is nothing beyond the smaller number already
  have kept : node.values.keep (!isBeyond key m ·) = node.values := by
    refine Values.keep_eq_self fun y hy => ?_
    rw [isBeyond_eq_false_iff.2 fun i beyond => h.bounded y hy i (Nat.le_trans le beyond)]
    rfl
  have count_mem : key.count ∈ node.values := Values.mem_iff_exists.2 ⟨_, h.stored⟩
  have grown : (node.resize key m).values =
      node.command.fillDefaults (node.values.insert key.count (.ofCount m)) :=
    congrArg (fun v : Values => node.command.fillDefaults (v.insert key.count (.ofCount m))) kept
  have opened := Command.opened_of_mem_fillDefaults h.complete
    (Values.withinBut_insert _ key.count (.ofCount m)) (grown ▸ mem)
    (Values.not_mem_insert count_mem new _)
  rw [← grown] at opened
  cases opened with
  | item at_count fresh live under =>
    obtain rfl := Key.push_injective at_count
    rw [Source.count_of_stored h.stored, Scalar.asCount_ofCount (Nat.lt_of_le_of_lt le bound)]
      at fresh
    rw [Source.count_of_stored (getElem?_count_resize node key m), Scalar.asCount_ofCount bound]
      at live
    exact ⟨_, fresh, live, under⟩
  -- no choice stores its selection in place of a count
  | option here => exact absurd rfl (Command.key_ne_marked_of_mem_walk here key .count)

/-- What has been grown and written to is the same as before but for its count and the new
items. -/
theorem HoldsItems.written (h : node.HoldsItems key n) (le : n ≤ m) (bound : m < Scalar.countBound)
    {writes : List (Key × Scalar)} (late : ∀ write ∈ writes, isBeyond key n write.1 = true) :
    node.values.WithinBut key.count ((node.resize key m).values.extend writes) ∧
      ∀ x ∈ (node.resize key m).values.extend writes, x ∉ node.values →
        isBeyond key n x = true := by
  have untouched {x : Key} (hx : isBeyond key n x = false) :
      ((node.resize key m).values.extend writes)[x]? = (node.resize key m).values[x]? := by
    refine Values.getElem?_extend_of_forall_ne fun write mem => ?_
    rintro rfl
    cases hx.symm.trans (late write mem)
  refine ⟨⟨?_, ?_⟩, ?_⟩
  · intro x value ne found
    have mem : x ∈ node.values := Values.mem_iff_exists.2 ⟨value, found⟩
    rw [untouched (h.isBeyond_eq_false mem)]
    exact getElem?_resize found ne (isBeyond_eq_false_iff.2 fun i beyond =>
      h.bounded x mem i (Nat.le_trans le beyond))
  · intro _
    exact Values.mem_iff_exists.2
      ⟨.ofCount m, (untouched (isBeyond_count key n)).trans (getElem?_count_resize node key m)⟩
  · intro x mem new
    rcases Values.of_mem_extend mem with mem | ⟨write, hw, rfl⟩
    · obtain ⟨i, new_item, -, under⟩ := h.exists_of_mem_grown le bound mem new
      exact isBeyond_iff.2 ⟨i, new_item, under⟩
    · exact late write hw

/-- Shrinking restores what was stored before new items came in. -/
theorem HoldsItems.values_resize_eq (h : node.HoldsItems key n) {w : Values}
    (but : node.values.WithinBut key.count w)
    (added : ∀ x ∈ w, x ∉ node.values → isBeyond key n x = true) :
    ((node.holding w).resize key n).values = node.values := by
  have kept : (w.keep (!isBeyond key n ·)).insert key.count (.ofCount n) = node.values := by
    refine Std.ExtTreeMap.ext_getElem? fun x => ?_
    rw [Values.getElem?_insert_eq]
    split
    · next at_count => rw [← at_count, h.stored]
    · next ne =>
      rw [Values.getElem?_keep]
      -- an entry that was there has been kept, and one that has been added is deleted again
      by_cases old : x ∈ node.values
      · rw [h.isBeyond_eq_false old, but.getElem?_eq (Ne.symm ne) old]
        rfl
      · have absent : node.values[x]? = none := Std.ExtTreeMap.getElem?_eq_none old
        rw [absent]
        split
        · next stays =>
          refine Std.ExtTreeMap.getElem?_eq_none fun mem => ?_
          rw [added x mem old] at stays
          cases stays
        · rfl
  show node.command.fillDefaults _ = node.values
  rw [values_holding, kept]
  exact h.complete

end Node

/-! ### Graphs -/

namespace Graph

variable {g : Graph} {node : Node} {place : Place}

/-- Writes several values into a node, one after the other. -/
def setValues (g : Graph) (id : String) (writes : List (Key × Scalar)) : Except GraphError Graph :=
  writes.foldlM (fun g write => g.setValue ⟨id, write.1⟩ write.2) g

/-- Values can be written into a node that is there, and the node then holds them. -/
theorem exists_setValues {id : String} {w : Values} (found : g.node? id = some (node.holding w))
    (writes : List (Key × Scalar)) :
    ∃ edited, g.setValues id writes = .ok edited ∧
      edited.node? id = some (node.holding (w.extend writes)) := by
  induction writes generalizing g w with
  | nil => exact ⟨g, rfl, found⟩
  | cons write writes ih =>
    have first : g.setValue ⟨id, write.1⟩ write.2 =
        .ok (g.update { node.holding w with values := w.insert write.1 write.2 }) :=
      setValue_eq_ok_iff.2 ⟨node.holding w, found, rfl⟩
    have found_next :
        (g.update { node.holding w with values := w.insert write.1 write.2 }).node? id =
          some (node.holding (w.insert write.1 write.2)) := node?_update found rfl
    obtain ⟨edited, rest, found_last⟩ := ih found_next
    exact ⟨edited, bind_eq_ok.2 ⟨_, first, rest⟩, found_last⟩

/-- A number of items is set where there is an occurrence that has items, and the node stays where
it is. -/
theorem exists_setCount (found : g.node? place.node = some node)
    (site : node.HasItemsAt place.key) (count : Nat) :
    ∃ edited, g.setCount place count = .ok edited ∧
      edited.node? place.node = some (node.holding (node.resize place.key count).values) :=
  ⟨_, setCount_eq_ok_iff.2 ⟨node, found, site, rfl⟩, node?_update found rfl⟩

/-- **Growing and shrinking restores a node.**  Let a node hold exactly `n` items at a key.  After
growing to `m` items and writing anything to the new ones, shrinking to `n` succeeds and leaves the
node as it was, with the sockets of its values.  In general, setting a number of items below 2^63
leaves nothing at or below an item beyond it, and all else that is stored as it is. -/
theorem resize_restores (found : g.node? place.node = some node) :
    (∀ (n m : Nat) (writes : List (Key × Scalar)), node.HoldsItems place.key n → n ≤ m →
      m < Scalar.countBound →
      (∀ write ∈ writes, ∃ i, n ≤ i ∧ i < m ∧ write.1.isUnder (place.key.ordinal i) = true) →
      ∃ grown written shrunk, g.setCount place m = .ok grown ∧
        grown.setValues place.node writes = .ok written ∧
        written.setCount place n = .ok shrunk ∧
        shrunk.node? place.node = some node.refresh) ∧
    ∀ (n : Nat) (edited : Graph), n < Scalar.countBound → g.setCount place n = .ok edited →
      ∃ after, edited.node? place.node = some after ∧
        (∀ x ∈ after.values, ∀ i, n ≤ i → x.isUnder (place.key.ordinal i) = false) ∧
        ∀ (x : Key) (value : Scalar), node.values[x]? = some value → x ≠ place.key.count →
          (∀ i, n ≤ i → x.isUnder (place.key.ordinal i) = false) →
            after.values[x]? = some value := by
  constructor
  · intro n m writes holds le bound to_new
    obtain ⟨grown, grows, found_grown⟩ := exists_setCount found holds.site m
    obtain ⟨written, writes_ok, found_written⟩ := exists_setValues found_grown writes
    have late : ∀ write ∈ writes, Node.isBeyond place.key n write.1 = true := fun write mem =>
      (to_new write mem).elim fun i hi => Node.isBeyond_iff.2 ⟨i, hi.1, hi.2.2⟩
    obtain ⟨but, added⟩ := holds.written le bound late
    -- the last edit locates the place in a walk of values that have been written to
    have site : (node.holding ((node.resize place.key m).values.extend writes)).HasItemsAt
        place.key := holds.site.of_kept fun x value ne _ => but.same x value ne
    obtain ⟨shrunk, shrinks, found_shrunk⟩ := exists_setCount found_written site n
    refine ⟨grown, written, shrunk, grows, writes_ok, shrinks, ?_⟩
    rw [found_shrunk, holds.values_resize_eq but added]
    rfl
  · intro n edited bound ok
    obtain ⟨other, found_other, site, rfl⟩ := setCount_eq_ok_iff.1 ok
    obtain rfl := Option.some.inj (found.symm.trans found_other)
    refine ⟨(node.resize place.key n).refresh, node?_update found rfl, ?_, ?_⟩
    · intro x mem
      exact Node.isBeyond_eq_false_iff.1 (site.isBeyond_eq_false bound mem)
    · intro x value stored ne spared
      exact Node.getElem?_resize stored ne (Node.isBeyond_eq_false_iff.2 spared)

/-! ### Lists of numbers -/

/-- A command with an array of items as its argument. -/
def listOf (item : Grammar) : Command where
  name := "list"
  args := [.array {} (some item) none none]

/-- Where the array is. -/
def listPlace : Place :=
  ⟨"node-1", .ordinal .root 0⟩

/-- A list of numbers. -/
def numbers : Command :=
  listOf (.primitive {} .numeric none)

/-- A fresh list has one item. -/
theorem holdsItems_numbers : (Node.fresh numbers).HoldsItems listPlace.key 1 where
  site := Node.hasItemsAt_iff.2 (by decide +kernel)
  complete := numbers.completes_fillDefaults.idem ∅
  stored := by decide +kernel
  bounded x mem := by
    have keys : ∀ x ∈ (Node.fresh numbers).values.keys,
        Node.isBeyond listPlace.key 1 x = false := by
      decide +kernel
    exact Node.isBeyond_eq_false_iff.1 (keys x (Std.ExtTreeMap.mem_keys.2 mem))

/-- Two items are added to a list, one of them is given a number, and both are taken away again. -/
theorem resize_restores_numbers :
    ∃ grown written shrunk, (single numbers).setCount listPlace 3 = .ok grown ∧
      grown.setValues "node-1" [((listPlace.key.ordinal 2).named "numeric", .text "7")] =
        .ok written ∧
      written.setCount listPlace 1 = .ok shrunk ∧
      shrunk.node? "node-1" = some (Node.fresh numbers).refresh := by
  refine (resize_restores (node?_single numbers)).1 1 3 _ holdsItems_numbers (by decide)
    (by decide) ?_
  exact List.forall_mem_singleton.2 ⟨2, by decide, by decide, by decide⟩

/-! ### Numbers that do not fit -/

/-- **The number of items that is read is the one that was set, below 2^63.**  After a number of
items has been set, a walk has something with items there, and what it has there has exactly as many
items as were set; but of 2^63 and more nothing is left. -/
theorem setCount_reads {edited : Graph} {count : Nat} (fits : count < UInt64.size)
    (ok : g.setCount place count = .ok edited) :
    ∃ after, edited.node? place.node = some after ∧
      (Source.ofValues after.values).count place.key.count =
        (if count < Scalar.countBound then count else 0) ∧
      after.HasItemsAt place.key ∧
      ∀ full, ∀ o ∈ (after.command.walk (.ofValues after.values) full).all, o.key = place.key →
        o.isResizable = true →
          o.items = (List.range (if count < Scalar.countBound then count else 0)).filterMap
            (o.item? (.ofValues after.values) full) := by
  obtain ⟨node, found, site, rfl⟩ := setCount_eq_ok_iff.1 ok
  have reads : (Source.ofValues (node.resize place.key count).values).count place.key.count =
      if count < Scalar.countBound then count else 0 := by
    rw [Source.count_of_stored (Node.getElem?_count_resize node place.key count),
      Scalar.asCount_ofCount_eq fits]
  refine ⟨(node.resize place.key count).refresh, node?_update found rfl, reads,
    site.resize count, ?_⟩
  intro full o ho at_key resizable
  rw [Command.items_eq ho resizable, at_key, ← reads]
  rfl

/-- A list whose number of items has been set to two has two. -/
theorem setCount_reads_numbers :
    ∃ edited after, (single numbers).setCount listPlace 2 = .ok edited ∧
      edited.node? "node-1" = some after ∧
      (Source.ofValues after.values).count listPlace.key.count = 2 := by
  obtain ⟨edited, ok, -⟩ := exists_setCount (node?_single numbers) holdsItems_numbers.site 2
  obtain ⟨after, found, reads, -⟩ := setCount_reads (by decide) ok
  exact ⟨edited, after, ok, found, reads⟩

/-- Of 2^63 items of a list of groups none is left, although the edit succeeds. -/
theorem setCount_tooMany :
    ∃ edited after,
      (single (listOf (.group {} []))).setCount listPlace Scalar.countBound = .ok edited ∧
      edited.node? "node-1" = some after ∧ Scalar.countBound < UInt64.size ∧
      (Source.ofValues after.values).count listPlace.key.count = 0 := by
  have site : (Node.fresh (listOf (.group {} []))).HasItemsAt listPlace.key :=
    Node.hasItemsAt_iff.2 (by decide +kernel)
  obtain ⟨edited, ok, found⟩ :=
    exists_setCount (node?_single (listOf (.group {} []))) site Scalar.countBound
  refine ⟨edited, _, ok, found, by decide, ?_⟩
  rw [Node.values_holding, Source.count_of_stored (Node.getElem?_count_resize _ _ _)]
  exact Scalar.asCount_ofCount_countBound

end Graph

end CommandGraph
