/-
CommandGraph/Proofs/Command/Completion.lean

Filling in defaults completes values.

Filling a node gives values to the keys of `ownDefaults`, and then fills the children
that the values call for; filling a node below a key does the same with the keys of
`wrapperDefaults` and the items that are there.  Both are one `stage`, and a stage whose
parts are completions is a completion (`Completes.stage`): it keeps every entry, doing it
again changes nothing, and values that are complete stay so as long as no entry but kept
results goes and none of the entries that decide the shape of the argument tree is
changed.
-/
import CommandGraph.Command
import CommandGraph.Proofs.Occurrence.Address

namespace CommandGraph

namespace Values

/-! ### Maps within maps -/

/-- Whether every entry of a map is an entry of another one. -/
def Within (values larger : Values) : Prop :=
  ∀ (key : Key) (value : Scalar), values[key]? = some value → larger[key]? = some value

theorem Within.refl (values : Values) : values.Within values :=
  fun _ _ h => h

theorem Within.trans {a b c : Values} (h : a.Within b) (k : b.Within c) : a.Within c :=
  fun key value e => k key value (h key value e)

theorem Within.mem {a b : Values} (h : a.Within b) {key : Key} (mem : key ∈ a) : key ∈ b := by
  obtain ⟨value, e⟩ := mem_iff_exists.1 mem
  exact mem_iff_exists.2 ⟨value, h key value e⟩

theorem Within.getElem?_eq {a b : Values} (h : a.Within b) {key : Key} (mem : key ∈ a) :
    b[key]? = a[key]? := by
  obtain ⟨value, e⟩ := mem_iff_exists.1 mem
  rw [h key value e, e]

theorem Within.antisymm {a b : Values} (h : a.Within b) (k : b.Within a) : a = b := by
  refine Std.ExtTreeMap.ext_getElem? fun key => ?_
  cases e : a[key]? with
  | some value => exact (h key value e).symm
  | none =>
    cases e' : b[key]? with
    | none => rfl
    | some value => exact e.symm.trans (k key value e')

/-! ### Filling in entries -/

/-- Stores the values of keys that have none. -/
def fillAll (values : Values) (entries : List (Key × Scalar)) : Values :=
  entries.foldl (fun values entry => values.fill entry.1 entry.2) values

/-- Filling in a value keeps every entry that is there. -/
theorem within_fill (values : Values) (key : Key) (value : Scalar) :
    values.Within (values.fill key value) := by
  intro other v e
  rw [getElem?_fill, if_neg]
  · exact e
  · rintro ⟨rfl, absent⟩
    exact absent (mem_iff_exists.2 ⟨v, e⟩)

theorem fill_eq_self {values : Values} {key : Key} (mem : key ∈ values) (value : Scalar) :
    values.fill key value = values := by
  refine Std.ExtTreeMap.ext_getElem? fun other => ?_
  rw [getElem?_fill, if_neg fun h => h.2 mem]

theorem mem_fill_self (values : Values) (key : Key) (value : Scalar) :
    key ∈ values.fill key value :=
  Std.ExtTreeMap.mem_insertIfNew_self

theorem within_fillAll (values : Values) (entries : List (Key × Scalar)) :
    values.Within (values.fillAll entries) := by
  induction entries generalizing values with
  | nil => exact .refl values
  | cons entry entries ih => exact (within_fill values entry.1 entry.2).trans (ih _)

/-- Every key that is filled in has a value in the end. -/
theorem mem_fillAll {values : Values} {entries : List (Key × Scalar)} {entry : Key × Scalar}
    (mem : entry ∈ entries) : entry.1 ∈ values.fillAll entries := by
  -- the later entries are filled in on top of it, and they keep all that is there
  induction entries generalizing values with
  | nil => simp at mem
  | cons first entries ih =>
    rcases List.mem_cons.1 mem with rfl | mem
    · exact (within_fillAll _ entries).mem (mem_fill_self values entry.1 entry.2)
    · exact ih mem

theorem fillAll_eq_self {values : Values} {entries : List (Key × Scalar)}
    (h : ∀ entry ∈ entries, entry.1 ∈ values) : values.fillAll entries = values := by
  induction entries with
  | nil => rfl
  | cons entry entries ih =>
    show (values.fill entry.1 entry.2).fillAll entries = values
    rw [fill_eq_self (h entry List.mem_cons_self)]
    exact ih fun e mem => h e (List.mem_cons_of_mem _ mem)

end Values

/-! ### Completions -/

/-- A function that completes values: it keeps all entries, and values that it leaves unchanged
are left so by it as long as no key but those of results goes and the values at the keys of `shape`
stay. -/
structure Completes (f : Values → Values) (shape : Values → List Key) : Prop where
  within (v : Values) : v.Within (f v)
  idem (v : Values) : f (f v) = f v
  stable {v w : Values} (fixed : f v = v)
    (keys : ∀ k : Key, k.marker? ≠ some .result → k ∈ v → k ∈ w)
    (same : ∀ k ∈ shape v, k ∈ v → w[k]? = v[k]?) : f w = w

namespace Completes

variable {f : Values → Values} {shape : Values → List Key}

/-- Complete values stay complete when entries are added. -/
theorem stable_within (h : Completes f shape) {v w : Values} (fixed : f v = v)
    (le : v.Within w) : f w = w :=
  h.stable fixed (fun _ _ => le.mem) fun _ _ => le.getElem?_eq

variable {α : Type} {step : α → Values → Values} {shapeOf : α → Values → List Key}

/-- Several completions one after the other keep every entry. -/
theorem within_foldl {parts : List α} (h : ∀ a ∈ parts, Completes (step a) (shapeOf a))
    (v : Values) : v.Within (parts.foldl (fun v a => step a v) v) := by
  induction parts generalizing v with
  | nil => exact .refl v
  | cons a parts ih =>
    exact ((h a List.mem_cons_self).within v).trans
      (ih (fun b mem => h b (List.mem_cons_of_mem _ mem)) _)

/-- After several completions the values are complete for each of them. -/
theorem settled_foldl {parts : List α} (h : ∀ a ∈ parts, Completes (step a) (shapeOf a))
    (v : Values) {a : α} (mem : a ∈ parts) :
    step a (parts.foldl (fun v a => step a v) v) = parts.foldl (fun v a => step a v) v := by
  induction parts generalizing v with
  | nil => simp at mem
  | cons b parts ih =>
    have rest : ∀ a ∈ parts, Completes (step a) (shapeOf a) :=
      fun a mem => h a (List.mem_cons_of_mem _ mem)
    -- the parts behind one only add entries, so that what it has completed stays complete
    rcases List.mem_cons.1 mem with rfl | mem
    · have first := h a List.mem_cons_self
      exact first.stable_within (first.idem v) (within_foldl rest _)
    · exact ih rest _ mem

theorem foldl_eq_self {parts : List α} {v : Values} (h : ∀ a ∈ parts, step a v = v) :
    parts.foldl (fun v a => step a v) v = v := by
  induction parts with
  | nil => rfl
  | cons a parts ih =>
    rw [List.foldl_cons, h a List.mem_cons_self]
    exact ih fun b mem => h b (List.mem_cons_of_mem _ mem)

/-- Values that several completions leave unchanged together are left so by each. -/
theorem fixed_of_foldl {parts : List α} (h : ∀ a ∈ parts, Completes (step a) (shapeOf a))
    {v : Values} (fixed : parts.foldl (fun v a => step a v) v = v) {a : α} (mem : a ∈ parts) :
    step a v = v := by
  have settled := settled_foldl h v mem
  rwa [fixed] at settled

end Completes

/-! ### Stages

Filling alternates between two kinds of stages: a node gives values to keys of its own and then
fills its children, and what is below a key is given a flag and a count before its items are
filled. -/

/-- Gives values to some keys, then takes a step for each part that the values call for. -/
def stage {α : Type} (entries : List (Key × Scalar)) (parts : Source → List α)
    (step : α → Values → Values) (v : Values) : Values :=
  (parts (.ofValues (v.fillAll entries))).foldl (fun v a => step a v) (v.fillAll entries)

/-- Values that a stage leaves unchanged hold its entries and are left so by each of its steps. -/
theorem Completes.of_stage_eq_self {α : Type} {entries : List (Key × Scalar)}
    {parts : Source → List α} {step : α → Values → Values} {shapeOf : α → Values → List Key}
    (steps : ∀ v, ∀ a ∈ parts (.ofValues v), Completes (step a) (shapeOf a)) {v : Values}
    (fixed : CommandGraph.stage entries parts step v = v) :
    (∀ entry ∈ entries, entry.1 ∈ v) ∧ ∀ a ∈ parts (.ofValues v), step a v = v := by
  have le := within_foldl (steps (v.fillAll entries)) (v.fillAll entries)
  rw [← CommandGraph.stage, fixed] at le
  -- nothing has been filled in, so that the steps start with `v` itself
  have filled : v.fillAll entries = v := le.antisymm (v.within_fillAll entries)
  rw [CommandGraph.stage, filled] at fixed
  refine ⟨fun entry mem => ?_, fun a mem => fixed_of_foldl (steps v) fixed mem⟩
  rw [← filled]
  exact Values.mem_fillAll mem

/-- A stage is a completion if its steps are, and if its parts depend on values of its shape. -/
theorem Completes.stage {α : Type} {entries : List (Key × Scalar)} {parts : Source → List α}
    {step : α → Values → Values} {shape : Values → List Key} (shapeOf : α → Values → List Key)
    (unmarked : ∀ entry ∈ entries, entry.1.marker? ≠ some .result)
    (steps : ∀ v, ∀ a ∈ parts (.ofValues v), Completes (step a) (shapeOf a))
    (shapes : ∀ v, ∀ a ∈ parts (.ofValues v), ∀ k ∈ shapeOf a v, k ∈ shape v)
    (local_parts : ∀ v w : Values, (∀ entry ∈ entries, entry.1 ∈ v) →
      (∀ k ∈ shape v, k ∈ v → w[k]? = v[k]?) → parts (.ofValues w) = parts (.ofValues v)) :
    Completes (CommandGraph.stage entries parts step) shape where
  within v := (v.within_fillAll entries).trans (within_foldl (steps _) _)
  idem v := by
    -- the second time there is nothing to fill, the same parts are called for, and all are settled
    have present : ∀ entry ∈ entries, entry.1 ∈ v.fillAll entries := fun _ => Values.mem_fillAll
    have le := within_foldl (steps (v.fillAll entries)) (v.fillAll entries)
    have same_parts := local_parts _ _ present fun _ _ => le.getElem?_eq
    have settled := fun a => settled_foldl (a := a) (steps (v.fillAll entries)) (v.fillAll entries)
    rw [← CommandGraph.stage] at le same_parts settled
    generalize CommandGraph.stage entries parts step v = x at *
    rw [CommandGraph.stage, Values.fillAll_eq_self fun e mem => le.mem (present e mem), same_parts]
    exact foldl_eq_self settled
  stable {v w} fixed keys same := by
    obtain ⟨present, settled⟩ := of_stage_eq_self steps fixed
    have still_present : ∀ entry ∈ entries, entry.1 ∈ w := fun entry mem =>
      keys _ (unmarked entry mem) (present entry mem)
    rw [CommandGraph.stage, Values.fillAll_eq_self still_present, local_parts v w present same]
    refine foldl_eq_self fun a mem => ?_
    exact (steps v a mem).stable (settled a mem) keys fun k hk => same k (shapes v a mem k hk)

/-! ### What filling gives values to -/

namespace Grammar

/-- The count that a repeatable node or an array starts with. -/
def countDefault (g : Grammar) (key : Key) : Key × Scalar :=
  (key.count, .int (if g.isOptional then 0 else 1))

/-- What a node is given at its key. -/
def ownDefaults : Grammar → Key → List (Key × Scalar)
  | primitive .., key => [(key, .text "")]
  | keyword .., key | assignment .., key => [(key, .flag false)]
  | choice attrs options, key =>
    (defaultOption? (choice attrs options) options).toList.map fun option => (key, .text option)
  | array attrs content delimiters separator, key =>
    match content with
    | none => [(key, .text "")]
    | some content => [(array attrs (some content) delimiters separator).countDefault key]
  | _, _ => []

/-- What a node below a key is given apart from its body: a flag and a count. -/
def wrapperDefaults (g : Grammar) (above : Key) : List (Key × Scalar) :=
  let key := g.keyBelow above
  if g.isAddressable then
    (if g.isFlagged then [(g.flagKey key, .flag false)] else []) ++
      if g.isRepeatable && !(g.isFlagged && g.isKeyword) then [g.countDefault key] else []
  else []

/-- The keys at which the body of a node below a key is filled; the flag of a keyword stands for
its body. -/
def filledKeys (g : Grammar) (above : Key) (source : Source) : List Key :=
  if g.isAddressable && !(g.isFlagged && g.isKeyword) then g.itemKeys source (g.keyBelow above)
  else []

/-! ### Filling as stages -/

/-- Fills a node below a key. -/
def fillBelow (g : Grammar) (above : Key) (v : Values) : Values :=
  fillEnter g (fillBody g) above v

/-- Filling children is a fold over them with their positions. -/
theorem fillChildren_eq (n : Nat) (gs : List Grammar) (key : Key) (v : Values) :
    fillChildren n gs key v =
      ((gs.zipIdx n).map fun p => (p.1, key.ordinal p.2)).foldl
        (fun v p => p.1.fillBelow p.2 v) v := by
  induction gs generalizing n v with
  | nil => rfl
  | cons g gs ih =>
    rw [fillChildren, ih, List.zipIdx_cons, List.map_cons, List.foldl_cons]
    rfl

/-- Filling the selected option of a choice is a fold over no option or a single one. -/
theorem fillOption_eq (selection : String) (gs : List Grammar) (key : Key) (v : Values) :
    fillOption selection gs key v =
      ((option? gs selection).toList.map (·, key)).foldl (fun v p => p.1.fillBelow p.2 v) v := by
  induction gs with
  | nil => rfl
  | cons g gs ih =>
    rw [fillOption, option?, List.find?_cons]
    rcases h : g.identifier == selection with - | -
    · rw [if_neg Bool.false_ne_true, ih]
      rfl
    · rw [if_pos rfl]
      rfl

theorem fillParam_eq (param : Option Grammar) (key : Key) (v : Values) :
    fillParam param key v =
      (param.toList.map (·, key.arrayParam)).foldl (fun v p => p.1.fillBelow p.2 v) v := by
  cases param <;> rfl

/-- The step of a stage that fills a child. -/
def fillPart (p : Grammar × Key) (v : Values) : Values :=
  p.1.fillBelow p.2 v

/-- A choice without a default has no options. -/
theorem walked_eq_nil_of_defaultOption? {attrs : Attributes} {options : List Grammar}
    (h : defaultOption? (choice attrs options) options = none) (source : Source) (key : Key) :
    (choice attrs options).walked source key = [] := by
  have empty : options = [] := by
    rw [defaultOption?] at h
    split at h
    · simp at h
    · simpa using h
  subst empty
  rw [walked, show option? [] = fun _ => none from rfl]
  simp

/-- Filling a node at its key is a stage over the children that are walked. -/
theorem fillBody_eq (g : Grammar) (key : Key) :
    fillBody g key = stage (g.ownDefaults key) (fun source => g.walked source key) fillPart := by
  funext v
  cases g with
  | primitive | keyword | assignment | branch => rfl
  | choice attrs options =>
    rw [fillBody, stage, ownDefaults]
    cases e : defaultOption? (choice attrs options) options with
    | none =>
      show v = List.foldl _ v ((choice attrs options).walked (.ofValues v) key)
      rw [walked_eq_nil_of_defaultOption? e, List.foldl_nil]
    | some option =>
      show (let values := v.fill key (.text option)
        let selection := (values[key]?.map Scalar.display).getD ""
        if selection == noOption then values else fillOption selection options key values) =
          ((choice attrs options).walked (.ofValues (v.fill key (.text option))) key).foldl
            (fun v p => fillPart p v) (v.fill key (.text option))
      -- once it is filled there is a selection, and the walk reads the same one
      have present := Values.mem_fill_self v key (.text option)
      generalize v.fill key (.text option) = u at present ⊢
      obtain ⟨value, found⟩ := Values.mem_iff_exists.1 present
      have text : (Source.ofValues u).text? key = some value.display := by
        rw [Source.text?, Source.value?_ofValues, found, Option.map_some]
      simp only [walked, text, found, Option.map_some, Option.getD_some]
      cases h : value.display == noOption with
      | true => simp [Option.filter, bne, h]
      | false => simp [Option.filter, bne, h, fillOption_eq, fillPart]
  | block attrs content => exact fillChildren_eq 0 content key v
  | group attrs children => exact fillChildren_eq 0 children key v
  | subcommand attrs param args =>
    rw [fillBody, fillChildren_eq, fillParam_eq, ← List.foldl_append]
    rfl
  | array attrs content delimiters separator =>
    cases content with
    | none => rfl
    | some content =>
      rw [stage, walked, Option.toList_some, List.flatMap_singleton, List.foldl_map]
      rfl
  | base attrs param => exact fillParam_eq param key v

/-- Filling a node below a key is a stage over the keys at which its body is. -/
theorem fillBelow_eq (g : Grammar) (above : Key) :
    g.fillBelow above = stage (g.wrapperDefaults above) (g.filledKeys above) (fillBody g) := by
  funext v
  rw [fillBelow, fillEnter, stage, wrapperDefaults, filledKeys, isFlagged, flagKey, keyBelow]
  rcases ha : g.isAddressable with - | -
  · -- a node that cannot be reached is given nothing
    rfl
  -- the flag, the keyword that is its own flag, and the count are independent of each other
  rcases ho : g.isOptional && !g.isChoice with - | - <;>
    rcases hk : g.isKeyword with - | - <;>
    rcases hr : g.isRepeatable with - | - <;>
    simp [fillRepeated, itemKeys, hr, Values.fillAll, eachItem, seedCount, List.foldl_map,
      countDefault, Source.count]

end Grammar

/-! ### The shape of the argument tree

The tree of a command depends on the values of few keys: the selections of choices, and the counts
of arrays and repeated nodes. -/

/-- The key whose value decides which or how many occurrences are below an occurrence. -/
def Occurrence.shapeKey? : Occurrence → Option Key
  | repeated _ key .. | array _ key _ => some key.count
  | choice _ key .. => some key
  | _ => none

namespace Grammar

/-- The keys that decide the shape of the tree of a node at a key. -/
def shapeKeys (g : Grammar) (key : Key) (v : Values) : List Key :=
  (walkBody (.ofValues v) true g key).all.filterMap Occurrence.shapeKey?

/-- The keys that decide the shape of the tree of a node below a key. -/
def shapeKeysBelow (g : Grammar) (above : Key) (v : Values) : List Key :=
  (Occurrence.allOfOption (walkBelow (.ofValues v) true g above)).filterMap Occurrence.shapeKey?

/-- The keys that shape a child shape the node as well. -/
theorem mem_shapeKeys_of_walked {g : Grammar} {key k : Key} {v : Values} {p : Grammar × Key}
    (hp : p ∈ g.walked (.ofValues v) key) (hk : k ∈ p.1.shapeKeysBelow p.2 v) :
    k ∈ g.shapeKeys key v := by
  rw [shapeKeysBelow, List.mem_filterMap] at hk
  obtain ⟨o, ho, hk⟩ := hk
  rw [shapeKeys, all_walkBody, List.mem_filterMap]
  exact ⟨o, List.mem_append_left _ (List.mem_flatMap.2 ⟨p, hp, ho⟩), hk⟩

theorem mem_bodyKeys_of_filledKeys {g : Grammar} {above key : Key} {source : Source}
    (h : key ∈ g.filledKeys above source) : key ∈ g.bodyKeys source true above := by
  rw [filledKeys] at h
  split at h
  · next he =>
    have addressable : g.isAddressable = true := (Bool.and_eq_true _ _ ▸ he).1
    rw [bodyKeys, isEntered, addressable, Bool.or_true, Bool.and_true, if_pos rfl]
    exact h
  · simp at h

/-- The keys that shape an item shape all that is below the key of the items. -/
theorem mem_shapeKeysBelow_of_filledKeys {g : Grammar} {above key k : Key} {v : Values}
    (h : key ∈ g.filledKeys above (.ofValues v)) (hk : k ∈ g.shapeKeys key v) :
    k ∈ g.shapeKeysBelow above v := by
  rw [shapeKeys, List.mem_filterMap] at hk
  obtain ⟨o, ho, hk⟩ := hk
  rw [shapeKeysBelow, all_walkBelow, List.mem_filterMap]
  refine ⟨o, List.mem_append_left _ (List.mem_flatMap.2 ⟨key, ?_, ho⟩), hk⟩
  exact mem_bodyKeys_of_filledKeys h

/-- The children that are walked depend on the entry alone that is the node's own one of those that
decide the shape: the selection of a choice, or the count of an array. -/
theorem walked_eq_of_own {g : Grammar} {key : Key} {v w : Values}
    (present : ∀ entry ∈ g.ownDefaults key, entry.1 ∈ v)
    (own : ∀ k, (walkBody (.ofValues v) true g key).shapeKey? = some k → k ∈ v → w[k]? = v[k]?) :
    g.walked (.ofValues w) key = g.walked (.ofValues v) key := by
  cases g with
  | choice attrs options =>
    cases e : defaultOption? (choice attrs options) options with
    | none =>
      rw [walked_eq_nil_of_defaultOption? e, walked_eq_nil_of_defaultOption? e]
    | some option =>
      have mem : key ∈ v := present (key, .text option) (by simp [ownDefaults, e])
      have shape : (walkBody (.ofValues v) true (choice attrs options) key).shapeKey? =
          some key := by
        obtain ⟨selected, content, e⟩ :=
          exists_walkBody_choice (.ofValues v) true attrs options key
        rw [e]
        rfl
      have text : (Source.ofValues w).text? key = (Source.ofValues v).text? key := by
        rw [Source.text?, Source.text?, Source.value?_ofValues, Source.value?_ofValues,
          own key shape mem]
      rw [walked, walked, text]
  | array attrs content delimiters separator =>
    cases content with
    | none => rfl
    | some content =>
      have count : (Source.ofValues w).count key.count = (Source.ofValues v).count key.count := by
        have mem : key.count ∈ v := present (countDefault _ key) (List.mem_singleton.2 rfl)
        rw [Source.count, Source.count, Source.value?_ofValues, Source.value?_ofValues,
          own key.count rfl mem]
      rw [walked, walked, count]
  | _ => rfl

/-- The entry of a node itself is one of those that decide the shape of its tree. -/
theorem walked_congr {g : Grammar} {key : Key} {v w : Values}
    (present : ∀ entry ∈ g.ownDefaults key, entry.1 ∈ v)
    (same : ∀ k ∈ g.shapeKeys key v, k ∈ v → w[k]? = v[k]?) :
    g.walked (.ofValues w) key = g.walked (.ofValues v) key :=
  walked_eq_of_own present fun k own =>
    same k (List.mem_filterMap.2 ⟨_, Occurrence.mem_all_self _, own⟩)

/-- The items that are filled depend on their number alone. -/
theorem filledKeys_eq_of_count {g : Grammar} {above : Key} {v w : Values}
    (present : ∀ entry ∈ g.wrapperDefaults above, entry.1 ∈ v)
    (same : g.isAddressable = true → g.isRepeatable = true → (g.keyBelow above).count ∈ v →
      w[(g.keyBelow above).count]? = v[(g.keyBelow above).count]?) :
    g.filledKeys above (.ofValues w) = g.filledKeys above (.ofValues v) := by
  rw [filledKeys, filledKeys]
  split
  · next he =>
    obtain ⟨addressable, filled⟩ := (Bool.and_eq_true _ _).mp he
    rw [itemKeys, itemKeys]
    split
    · next hr =>
      -- the count has been filled in: values that agree at it give the same number of items
      have mem : (g.keyBelow above).count ∈ v := by
        refine present (g.countDefault (g.keyBelow above)) ?_
        rw [wrapperDefaults, if_pos addressable, hr, Bool.true_and, if_pos filled]
        exact List.mem_append_right _ (List.mem_singleton.2 rfl)
      have count : (Source.ofValues w).count (g.keyBelow above).count =
          (Source.ofValues v).count (g.keyBelow above).count := by
        rw [Source.count, Source.count, Source.value?_ofValues, Source.value?_ofValues,
          same addressable hr mem]
      rw [count]
    · rfl
  · rfl

/-- The count of a repeated node is one of the keys that decide the shape of what is below it. -/
theorem filledKeys_congr {g : Grammar} {above : Key} {v w : Values}
    (present : ∀ entry ∈ g.wrapperDefaults above, entry.1 ∈ v)
    (same : ∀ k ∈ g.shapeKeysBelow above v, k ∈ v → w[k]? = v[k]?) :
    g.filledKeys above (.ofValues w) = g.filledKeys above (.ofValues v) := by
  refine filledKeys_eq_of_count present fun addressable repeatable => same _ ?_
  rw [shapeKeysBelow, all_walkBelow, wrappers, isEntered, addressable, Bool.or_true,
    Bool.and_true, if_pos rfl, repeatWrapper, if_pos repeatable, repeatedAt, if_pos repeatable]
  exact List.mem_filterMap.2 ⟨_, List.mem_append_right _ (List.mem_append_left _
    (List.mem_singleton.2 rfl)), rfl⟩

/-! ### Filling completes

A default is never stored at the key of a kept result, since the keys of the grammar carry no marker
but those for flags and counts. -/

/-- A node gives a value to its key or to its count. -/
theorem of_mem_ownDefaults {g : Grammar} {key : Key} {entry : Key × Scalar}
    (mem : entry ∈ g.ownDefaults key) : entry.1 = key ∨ entry.1 = key.count := by
  cases g with
  | primitive | keyword | assignment =>
    rw [List.mem_singleton.1 mem]
    exact .inl rfl
  | choice attrs options =>
    obtain ⟨option, -, rfl⟩ := List.mem_map.1 mem
    exact .inl rfl
  | array attrs content delimiters separator =>
    cases content with
    | none =>
      rw [List.mem_singleton.1 mem]
      exact .inl rfl
    | some content =>
      rw [List.mem_singleton.1 mem]
      exact .inr rfl
  | _ => cases mem

/-- What is given to a node from outside is its flag or its count. -/
theorem of_mem_wrapperDefaults {g : Grammar} {above : Key} {entry : Key × Scalar}
    (mem : entry ∈ g.wrapperDefaults above) :
    entry.1 = g.keyBelow above ∨ entry.1 = (g.keyBelow above).enabled ∨
      entry.1 = (g.keyBelow above).count := by
  rw [wrapperDefaults] at mem
  split at mem
  · rcases List.mem_append.1 mem with mem | mem
    · split at mem
      · rw [List.mem_singleton.1 mem]
        show g.flagKey (g.keyBelow above) = _ ∨ _
        rw [flagKey]
        split
        · exact .inl rfl
        · exact .inr (.inl rfl)
      · cases mem
    · split at mem
      · rw [List.mem_singleton.1 mem]
        exact .inr (.inr rfl)
      · cases mem
  · cases mem

/-- A node gives no value to a kept result. -/
theorem marker?_of_mem_ownDefaults {g : Grammar} {key : Key} (h : Unmarked key.segments)
    {entry : Key × Scalar} (mem : entry ∈ g.ownDefaults key) : entry.1.marker? ≠ some .result := by
  rcases of_mem_ownDefaults mem with e | e
  · simp [e, Key.marker?_of_unmarked h]
  · simp [e, Key.count]

theorem marker?_of_mem_wrapperDefaults {g : Grammar} {above : Key} (h : Unmarked above.segments)
    {entry : Key × Scalar} (mem : entry ∈ g.wrapperDefaults above) :
    entry.1.marker? ≠ some .result := by
  have unmarked : Unmarked (above.extend (Key.nameStep g.identifier)).segments :=
    h.append (unmarked_nameStep _)
  rcases of_mem_wrapperDefaults mem with e | e | e
  · simp [e, keyBelow, Key.join_eq_extend, Key.marker?_of_unmarked unmarked]
  · simp [e, Key.enabled]
  · simp [e, Key.count]

theorem unmarked_of_mem_walked {g : Grammar} {key : Key} (h : Unmarked key.segments)
    {source : Source} {p : Grammar × Key} (hp : p ∈ g.walked source key) :
    Unmarked p.2.segments := by
  obtain ⟨path, e, unmarked, -⟩ := path_of_mem_walked hp
  rw [e]
  exact h.append unmarked

theorem unmarked_of_mem_filledKeys {g : Grammar} {above : Key} (h : Unmarked above.segments)
    {source : Source} {key : Key} (hk : key ∈ g.filledKeys above source) :
    Unmarked key.segments := by
  obtain ⟨path, rfl, unmarked, -⟩ := path_of_mem_bodyKeys (mem_bodyKeys_of_filledKeys hk)
  exact h.append unmarked

/-- Filling what is below a key is a completion if filling the body is one at every key. -/
theorem completes_fillBelow_of {g : Grammar}
    (bodies : ∀ {key : Key}, Unmarked key.segments → Completes (fillBody g key) (g.shapeKeys key))
    {above : Key} (h : Unmarked above.segments) :
    Completes (g.fillBelow above) (g.shapeKeysBelow above) := by
  rw [fillBelow_eq]
  exact Completes.stage g.shapeKeys (fun _ => marker?_of_mem_wrapperDefaults h)
    (fun _ _ hk => bodies (unmarked_of_mem_filledKeys h hk))
    (fun _ _ hk _ => mem_shapeKeysBelow_of_filledKeys hk) fun _ _ => filledKeys_congr

/-- Filling a node is a completion. -/
theorem completes_fillBody (g : Grammar) {key : Key} (h : Unmarked key.segments) :
    Completes (fillBody g key) (g.shapeKeys key) := by
  induction g using inductionOn generalizing key with
  | node g ih =>
    rw [fillBody_eq]
    -- two stages for each level: the children of a node, and the items of each of them
    exact Completes.stage (fun p => p.1.shapeKeysBelow p.2)
      (fun _ => marker?_of_mem_ownDefaults h)
      (fun _ p hp => completes_fillBelow_of (ih p.1 (mem_children_of_mem_walked _ hp))
        (unmarked_of_mem_walked h hp))
      (fun _ _ hp _ hk => mem_shapeKeys_of_walked hp hk) fun _ _ => walked_congr

theorem completes_fillBelow (g : Grammar) {above : Key} (h : Unmarked above.segments) :
    Completes (g.fillBelow above) (g.shapeKeysBelow above) :=
  completes_fillBelow_of (completes_fillBody g) h

end Grammar

namespace Command

/-! ### Commands -/

/-- The keys that decide the shape of a command's arguments. -/
def shapeKeys (c : Command) (v : Values) : List Key :=
  (c.walk (.ofValues v) true).all.filterMap Occurrence.shapeKey?

/-- Kept results do not decide the shape of a command's arguments. -/
theorem marker?_of_mem_shapeKeys {c : Command} {v : Values} {key : Key}
    (h : key ∈ c.shapeKeys v) : key.marker? ≠ some .result := by
  obtain ⟨o, ho, e⟩ := List.mem_filterMap.1 h
  have unmarked := Key.marker?_of_unmarked (unmarked_of_mem_walk ho)
  -- a count carries a marker of another kind, and the key of a selection none
  cases o with
  | repeated node k | array node k =>
    rw [← Option.some.inj e]
    simp [Key.count]
  | choice node k =>
    rw [← Option.some.inj e, show k.marker? = none from unmarked]
    simp
  | _ => cases e

/-- Filling the defaults of a command is a completion. -/
theorem completes_fillDefaults (c : Command) : Completes c.fillDefaults c.shapeKeys := by
  have root : Unmarked Key.root.segments := unmarked_nil
  have body := Grammar.completes_fillBody c.toGrammar root
  refine ⟨body.within, body.idem, fun fixed keys same => body.stable fixed keys fun k hk => ?_⟩
  obtain ⟨o, ho, e⟩ := List.mem_filterMap.1 hk
  rcases List.mem_append.1 ho with ho | ho
  · exact same k (List.mem_filterMap.2 ⟨o, ho, e⟩)
  · obtain rfl := List.mem_singleton.1 ho
    cases e

/-- **Filling in defaults completes values once and for all.**  It keeps every entry as it is,
whatever the values were, and doing it again changes nothing. -/
theorem fillDefaults_idempotent (c : Command) (v : Values) :
    (∀ (key : Key) (value : Scalar), v[key]? = some value →
        (c.fillDefaults v)[key]? = some value) ∧
      c.fillDefaults (c.fillDefaults v) = c.fillDefaults v :=
  ⟨c.completes_fillDefaults.within v, c.completes_fillDefaults.idem v⟩

end Command

end CommandGraph
