/-
CommandGraph/Proofs/Command/Coverage.lean

Filling in defaults and walking cover the same tree.

Filling runs over a grammar by itself, with values that change under it; the walk of the values
that it leaves behind meets the same nodes at the same keys.  In one direction, filling has been
at every value that this walk meets, so that none is missing (`Grammar.mem_of_scalar`).  In the
other one, every key that filling has added is that of an occurrence, or of its flag or count
(`Grammar.fillsOccurrences`).

Both directions compare a stage of filling with one level of the walk.  What a stage has added
stays to its end, and the entries that decide the shape of the tree are among the first that it
gives values to; so a walk of all that is there in the end calls for the same parts.
-/
import CommandGraph.Proofs.Command.Completion
import CommandGraph.Proofs.Occurrence.Branches

namespace CommandGraph

/-! ### What a stage adds -/

/-- A key that has a value after filling in entries had one before, or is among the entries. -/
theorem Values.of_mem_fillAll {values : Values} {entries : List (Key × Scalar)} {key : Key}
    (h : key ∈ values.fillAll entries) : key ∈ values ∨ ∃ entry ∈ entries, key = entry.1 := by
  induction entries generalizing values with
  | nil => exact .inl h
  | cons entry entries ih =>
    have rest : key ∈ (values.fill entry.1 entry.2).fillAll entries := h
    rcases ih rest with h | ⟨other, mem, e⟩
    · rcases Std.ExtTreeMap.mem_insertIfNew.1 h with e | h
      · exact .inr ⟨entry, List.mem_cons_self, (Std.LawfulEqCmp.eq_of_compare e).symm⟩
      · exact .inl h
    · exact .inr ⟨other, List.mem_cons_of_mem _ mem, e⟩

namespace Completes

variable {α : Type} {step : α → Values → Values} {shapeOf : α → Values → List Key}

/-- What several completions add is added by one of them, and stays. -/
theorem of_mem_foldl {parts : List α} (h : ∀ a ∈ parts, Completes (step a) (shapeOf a))
    {v : Values} {key : Key} (mem : key ∈ parts.foldl (fun v a => step a v) v) (new : key ∉ v) :
    ∃ a ∈ parts, ∃ u : Values, v.Within u ∧
      (step a u).Within (parts.foldl (fun v a => step a v) v) ∧ key ∈ step a u ∧ key ∉ u := by
  induction parts generalizing v with
  | nil => exact absurd mem new
  | cons a parts ih =>
    have rest : ∀ a ∈ parts, Completes (step a) (shapeOf a) :=
      fun a mem => h a (List.mem_cons_of_mem _ mem)
    -- either the first step adds the key, or it is new to the steps that follow
    by_cases added : key ∈ step a v
    · exact ⟨a, List.mem_cons_self, v, .refl v, within_foldl rest _, added, new⟩
    · obtain ⟨b, hb, u, le, added⟩ := ih rest mem added
      have first := (h a List.mem_cons_self).within v
      exact ⟨b, List.mem_cons_of_mem _ hb, u, first.trans le, added⟩

/-- What a stage adds is one of its entries, or is added by one of the steps that it takes. -/
theorem of_mem_stage {entries : List (Key × Scalar)} {parts : Source → List α}
    (steps : ∀ v, ∀ a ∈ parts (.ofValues v), Completes (step a) (shapeOf a)) {v : Values}
    {key : Key} (mem : key ∈ CommandGraph.stage entries parts step v) (new : key ∉ v) :
    (∃ entry ∈ entries, key = entry.1) ∨
      ∃ a ∈ parts (.ofValues (v.fillAll entries)), ∃ u : Values, v.Within u ∧
        (step a u).Within (CommandGraph.stage entries parts step v) ∧ key ∈ step a u ∧ key ∉ u := by
  by_cases filled : key ∈ v.fillAll entries
  · exact .inl ((Values.of_mem_fillAll filled).resolve_left new)
  · obtain ⟨a, ha, u, le, added⟩ := of_mem_foldl (steps _) mem filled
    exact .inr ⟨a, ha, u, (v.within_fillAll entries).trans le, added⟩

end Completes

namespace Grammar

open Occurrence

/-! ### Values that are met are there -/

theorem completes_fillPart {g : Grammar} {key : Key} (h : Unmarked key.segments) (v : Values) :
    ∀ p ∈ g.walked (.ofValues v) key, Completes (fillPart p) (p.1.shapeKeysBelow p.2) :=
  fun p hp => p.1.completes_fillBelow (unmarked_of_mem_walked h hp)

theorem completes_fillItem {g : Grammar} {above : Key} (h : Unmarked above.segments) (v : Values) :
    ∀ key ∈ g.filledKeys above (.ofValues v), Completes (fillBody g key) (g.shapeKeys key) :=
  fun _ hk => g.completes_fillBody (unmarked_of_mem_filledKeys h hk)

/-- The body of a node is filled wherever it is walked, unless it is a keyword. -/
theorem mem_filledKeys_of_bodyKeys {g : Grammar} {above key : Key} {source : Source}
    (hg : g.isKeyword = false) (h : key ∈ g.bodyKeys source true above) :
    key ∈ g.filledKeys above source := by
  rw [bodyKeys, isEntered, Bool.or_true, Bool.and_true] at h
  rw [filledKeys, hg, Bool.and_false, Bool.not_false, Bool.and_true]
  exact h

/-- After filling, all values that a full walk meets are there. -/
theorem mem_of_scalar {g : Grammar} {key : Key} (h : Unmarked key.segments) {w : Values}
    (fixed : fillBody g key w = w) {node : Grammar} {k : Key} {subtype : Primitive}
    {reading : Reading}
    (ho : scalar node k subtype reading ∈ (walkBody (.ofValues w) true g key).all) : k ∈ w := by
  induction g using inductionOn generalizing key with
  | node g ih =>
    rw [fillBody_eq] at fixed
    obtain ⟨present, settled⟩ := Completes.of_stage_eq_self (completes_fillPart h) fixed
    rw [all_walkBody, List.mem_append, List.mem_flatMap] at ho
    -- the value is met in a child, in an item of the child, or it is the node itself
    rcases ho with ⟨⟨c, above⟩, hc, ho⟩ | ho
    · have unmarked := unmarked_of_mem_walked h hc
      have below : c.fillBelow above w = w := settled (c, above) hc
      rw [fillBelow_eq] at below
      obtain ⟨-, settled⟩ := Completes.of_stage_eq_self (completes_fillItem unmarked) below
      rw [all_walkBelow, List.mem_append, List.mem_flatMap] at ho
      rcases ho with ⟨l, hl, ho⟩ | ho
      · -- the body of a keyword is not a value but its own flag
        have no_keyword : c.isKeyword = false := by
          cases c with
          | keyword => cases List.mem_singleton.1 ho
          | _ => rfl
        have item := mem_filledKeys_of_bodyKeys no_keyword hl
        exact ih c (mem_children_of_mem_walked _ hc) (unmarked_of_mem_filledKeys unmarked item)
          (settled l item) ho
      · cases (of_mem_wrappers ho).2.2.1
    · have own := List.mem_singleton.1 ho
      -- a primitive and a bare array are values, and have been given one as their own default
      cases g with
      | primitive attrs subtype lead =>
        cases own
        exact present (k, .text "") (List.mem_singleton_self _)
      | choice attrs options =>
        obtain ⟨selected, content, e⟩ :=
          exists_walkBody_choice (.ofValues w) true attrs options key
        cases own.trans e
      | array attrs content =>
        cases content with
        | none =>
          cases own
          exact present (k, .text "") (List.mem_singleton_self _)
        | some content => cases own
      | _ => cases own

end Grammar

/-! ### Keys that are added belong to occurrences -/

/-- Whether a key is that of an occurrence, of its flag or of its count. -/
def Occurrence.Owns (o : Occurrence) (key : Key) : Prop :=
  key = o.key ∨ key = o.key.enabled ∨ key = o.key.count

namespace Grammar

open Occurrence

/-- A node that is given a flag or a count from outside has an occurrence around its body. -/
theorem wrappers_ne_nil_of_mem_wrapperDefaults {g : Grammar} {above : Key} {entry : Key × Scalar}
    (h : entry ∈ g.wrapperDefaults above) (source : Source) :
    g.wrappers source true above ≠ [] := by
  rw [wrapperDefaults] at h
  split at h
  · next addressable =>
    rcases List.mem_append.1 h with h | h
    · split at h
      · next flagged =>
        have test : (g.isOptional && !g.isChoice) = true := flagged
        simp [wrappers, flagged, walkBelow, enter, addressable, test]
      · cases h
    · split at h
      · next repeatable =>
        have several : g.isRepeatable = true := (Bool.and_eq_true_iff.1 repeatable).1
        simp [wrappers, isEntered, addressable, repeatWrapper, several]
      · cases h
  · cases h

/-- What is given to a node apart from its body belongs to an occurrence that wraps the body. -/
theorem exists_wrapper_of_mem_wrapperDefaults {g : Grammar} {above : Key} {entry : Key × Scalar}
    (h : entry ∈ g.wrapperDefaults above) (source : Source) :
    ∃ o ∈ g.wrappers source true above, o.Owns entry.1 := by
  -- all that wraps a node lies at its key, so that any of it will do
  obtain ⟨o, ho⟩ := List.exists_mem_of_ne_nil _ (wrappers_ne_nil_of_mem_wrapperDefaults h source)
  refine ⟨o, ho, ?_⟩
  rw [Owns, (of_mem_wrappers ho).1]
  exact of_mem_wrapperDefaults h

/-- Whether all that filling a node adds belongs to occurrences of the full walk, also when more has
been added since. -/
def FillsOccurrences (g : Grammar) : Prop :=
  ∀ {key : Key} {v w : Values} {k : Key}, Unmarked key.segments → (fillBody g key v).Within w →
    k ∈ fillBody g key v → k ∉ v → ∃ o ∈ (walkBody (.ofValues w) true g key).all, o.Owns k

/-- If filling the body of a node adds keys of occurrences alone, so does filling what is below a
key. -/
theorem FillsOccurrences.below {g : Grammar} (body : g.FillsOccurrences) {above : Key}
    (h : Unmarked above.segments) {v w : Values} (le : (g.fillBelow above v).Within w) {k : Key}
    (mem : k ∈ g.fillBelow above v) (new : k ∉ v) :
    ∃ o ∈ allOfOption (walkBelow (.ofValues w) true g above), o.Owns k := by
  rw [fillBelow_eq] at le mem
  rw [all_walkBelow]
  rcases Completes.of_mem_stage (completes_fillItem h) mem new with
    ⟨entry, given, rfl⟩ | ⟨key, hk, u, -, stays, added, fresh⟩
  · obtain ⟨o, ho, owns⟩ := exists_wrapper_of_mem_wrapperDefaults given (.ofValues w)
    exact ⟨o, List.mem_append_right _ ho, owns⟩
  · obtain ⟨o, ho, owns⟩ := body (unmarked_of_mem_filledKeys h hk) (stays.trans le) added fresh
    have first : (v.fillAll (g.wrapperDefaults above)).Within w :=
      (Completes.within_foldl (completes_fillItem h _) _).trans le
    -- the number of items has been settled before the items are filled
    have items : g.filledKeys above (.ofValues w) =
        g.filledKeys above (.ofValues (v.fillAll (g.wrapperDefaults above))) :=
      filledKeys_congr (fun _ => Values.mem_fillAll) fun _ _ => first.getElem?_eq
    rw [← items] at hk
    exact ⟨o, List.mem_append_left _ (List.mem_flatMap.2
      ⟨key, mem_bodyKeys_of_filledKeys hk, ho⟩), owns⟩

/-- What filling a node adds is given to the node itself or belongs to an occurrence below it. -/
theorem own_or_below {g : Grammar} (ih : ∀ c ∈ g.children, c.FillsOccurrences) {key : Key}
    (h : Unmarked key.segments) {v w : Values} (le : (fillBody g key v).Within w) {k : Key}
    (mem : k ∈ fillBody g key v) (new : k ∉ v) :
    (∃ entry ∈ g.ownDefaults key, k = entry.1) ∨
      ∃ o ∈ (g.walked (.ofValues w) key).flatMap fun p =>
        allOfOption (walkBelow (.ofValues w) true p.1 p.2), o.Owns k := by
  rw [fillBody_eq] at le mem
  refine (Completes.of_mem_stage (completes_fillPart h) mem new).imp_right ?_
  rintro ⟨⟨c, above⟩, hc, u, -, stays, added, fresh⟩
  have body : c.FillsOccurrences := ih c (mem_children_of_mem_walked _ hc)
  obtain ⟨o, ho, owns⟩ := body.below (unmarked_of_mem_walked h hc) (stays.trans le) added fresh
  have first : (v.fillAll (g.ownDefaults key)).Within w :=
    (Completes.within_foldl (completes_fillPart h _) _).trans le
  -- so has the selection of a choice, and the number of items of an array
  have parts : g.walked (.ofValues w) key =
      g.walked (.ofValues (v.fillAll (g.ownDefaults key))) key :=
    walked_congr (fun _ => Values.mem_fillAll) fun _ _ => first.getElem?_eq
  rw [← parts] at hc
  exact ⟨o, List.mem_flatMap.2 ⟨(c, above), hc, ho⟩, owns⟩

/-- All that filling a node adds belongs to occurrences of the full walk. -/
theorem fillsOccurrences (g : Grammar) : g.FillsOccurrences := by
  induction g using inductionOn with
  | node g ih =>
    intro key v w k h le mem new
    rw [all_walkBody]
    rcases own_or_below ih h le mem new with ⟨entry, given, rfl⟩ | ⟨o, ho, owns⟩
    · refine ⟨_, List.mem_append_right _ (List.mem_singleton_self _), ?_⟩
      -- what is given to the node itself lies at its key or at its count
      rw [Owns, key_walkBody]
      exact (of_mem_ownDefaults given).imp_right .inr
    · exact ⟨o, List.mem_append_left _ ho, owns⟩

end Grammar

/-! ### Commands -/

namespace Command

/-- After filling, all values that the full walk of a command meets are there. -/
theorem mem_fillDefaults_of_scalar {c : Command} {v : Values} {node : Grammar} {key : Key}
    {subtype : Primitive} {reading : Reading}
    (h : .scalar node key subtype reading ∈ (c.walk (.ofValues (c.fillDefaults v)) true).all) :
    key ∈ c.fillDefaults v := by
  have root : Unmarked Key.root.segments := unmarked_nil
  have fixed : Grammar.fillBody c.toGrammar .root (c.fillDefaults v) = c.fillDefaults v :=
    c.completes_fillDefaults.idem v
  exact Grammar.mem_of_scalar root fixed (mem_walkBody_of_mem_walk h)

/-- A value of a walk is what the source holds at its key. -/
theorem reading_of_mem_walk {c : Command} {source : Source} {full : Bool} {node : Grammar}
    {key : Key} {subtype : Primitive} {reading : Reading}
    (h : .scalar node key subtype reading ∈ (c.walk source full).all) : source key = reading :=
  confirms_of_mem_walk h rfl

/-- A socket that does not carry flow lies at a value. -/
theorem exists_scalar_of_mem_sockets {c : Command} {values : Values} {expanded : Bool} {s : Socket}
    (h : s ∈ (c.sockets values expanded).inputs ∨ s ∈ (c.sockets values expanded).outputs)
    (data : s.channel ≠ .flow) :
    ∃ node subtype reading,
      .scalar node s.key subtype reading ∈ (c.walk (.ofValues values) true).all := by
  -- the channel rules out flow sockets; all others belong to occurrences without a body
  rcases mem_sockets h with flow | argument
  · rw [flowSockets] at flow
    split at flow
    · rw [(Occurrence.mem_socketPair flow).2] at data
      cases d : s.direction <;> simp [d] at data
    · cases flow
  · obtain ⟨o, ho, leaf, e, channel⟩ := exists_leaf_of_mem_argumentSockets argument
    cases o with
    | scalar node key subtype reading =>
      cases e
      exact ⟨node, subtype, reading, ho⟩
    | branch node key =>
      -- a branch carries flow, too
      have walked : Occurrence.branch node key =
          Grammar.walkBody (.ofValues values) true node key := eq_walkBody_of_mem_walk ho rfl
      have carries : node.channel? s.direction = some .flow :=
        Grammar.channel?_of_branchKey? (congrArg Occurrence.branchKey? walked).symm s.direction
      exact absurd (Option.some.inj (channel.symm.trans carries)) data
    | _ => cases leaf

/-- What filling adds belongs to an occurrence of the full walk. -/
theorem exists_of_mem_fillDefaults {c : Command} {v : Values} {key : Key}
    (mem : key ∈ c.fillDefaults v) (new : key ∉ v) :
    ∃ o ∈ (c.walk (.ofValues (c.fillDefaults v)) true).all, o.Owns key := by
  have root : Unmarked Key.root.segments := unmarked_nil
  -- the arguments as a whole are given nothing themselves
  rcases Grammar.own_or_below (g := c.toGrammar) (fun g _ => g.fillsOccurrences) root (.refl _) mem
    new with ⟨entry, given, -⟩ | ⟨o, ho, owns⟩
  · cases given
  · exact ⟨o, by rwa [all_walk], owns⟩

/-- **Filling and walking cover the same tree.**  In the full walk of values whose defaults have
been filled in, every value is present, and so there is one for every data socket.  And every key
that has been filled in is the one of an occurrence of this walk, or of its flag or its count. -/
theorem fillDefaults_covers (c : Command) (v : Values) :
    (∀ node key subtype reading,
        .scalar node key subtype reading ∈ (c.walk (.ofValues (c.fillDefaults v)) true).all →
          ∃ value, reading = .ok (some value)) ∧
      (∀ expanded s, s ∈ (c.sockets (c.fillDefaults v) expanded).inputs ∨
          s ∈ (c.sockets (c.fillDefaults v) expanded).outputs →
        s.channel ≠ .flow → s.key ∈ c.fillDefaults v) ∧
      ∀ key ∈ c.fillDefaults v, key ∉ v →
        ∃ o ∈ (c.walk (.ofValues (c.fillDefaults v)) true).all,
          key = o.key ∨ key = o.key.enabled ∨ key = o.key.count := by
  refine ⟨fun node key subtype reading h => ?_, fun expanded s h data => ?_, fun key mem new => ?_⟩
  · have present := mem_fillDefaults_of_scalar h
    rw [Std.ExtTreeMap.mem_iff_isSome_getElem?] at present
    obtain ⟨value, found⟩ := Option.isSome_iff_exists.1 present
    exact ⟨value, (reading_of_mem_walk h).symm.trans (congrArg Except.ok found)⟩
  · obtain ⟨node, subtype, reading, met⟩ := exists_scalar_of_mem_sockets h data
    exact mem_fillDefaults_of_scalar met
  · exact exists_of_mem_fillDefaults mem new

end Command

end CommandGraph
