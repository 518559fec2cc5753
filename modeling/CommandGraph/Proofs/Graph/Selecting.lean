/-
CommandGraph/Proofs/Graph/Selecting.lean

Selecting options.

Selecting an option stores its identifier at the key of the choice and fills in the defaults of the
option; the entries of other options stay.

An option without a name lies at the key of its choice, and in front of it.  While such an option
is selected, an edit locates the option in place of the choice and refuses; in all other cases every
option that a choice declares can be selected, and is in the next walk
(`Graph.selectOption_switches`).

Selecting one option and then the one that was selected before restores a node up to entries of the
first (`Graph.switching_restores`).  Nothing reads these: whatever a walk reads behind a choice is
behind the option that it has selected (`Command.admits_of_owns`).
-/
import CommandGraph.Proofs.Command.Refilling
import CommandGraph.Proofs.Graph.RoundTrip
import CommandGraph.Proofs.Graph.Sites

namespace CommandGraph

/-! ### The selected option -/

/-- There is an option for the identifier of each option. -/
theorem Grammar.exists_option? {options : List Grammar} {option : Grammar}
    (declared : option ∈ options) :
    ∃ chosen, option? options option.identifier = some chosen ∧
      chosen.identifier = option.identifier := by
  cases found : option? options option.identifier with
  | none =>
    have absent := List.find?_eq_none.1 found option declared
    simp at absent
  | some chosen => exact ⟨chosen, rfl, by simpa using List.find?_some found⟩

/-- The option of a choice in a walk is the one that the entry at its key names. -/
theorem Command.selected_eq {c : Command} {source : Source} {full : Bool} {attrs : Attributes}
    {options : List Grammar} {key : Key} {selected : Option Grammar} {content : Option Occurrence}
    (h : .choice (.choice attrs options) key selected content ∈ (c.walk source full).all) :
    selected = ((source.text? key).filter (· != noOption)).bind (Grammar.option? options) := by
  have walked : Occurrence.choice (.choice attrs options) key selected content =
      Grammar.walkBody source full (.choice attrs options) key := eq_walkBody_of_mem_walk h rfl
  rw [Grammar.walkBody_choice] at walked
  cases selection : (source.text? key).filter (· != noOption) with
  | none =>
    rw [selection] at walked
    cases walked
    rfl
  | some text =>
    rw [selection, Option.bind_some, Grammar.walkOption_eq] at walked
    rw [Option.bind_some]
    cases found : Grammar.option? options text with
    | none =>
      rw [found] at walked
      cases walked
      rfl
    | some option =>
      rw [found] at walked
      cases walked
      rfl

/-- The selected option has the name that is stored at the key of the choice. -/
theorem Command.text?_of_selected {c : Command} {source : Source} {full : Bool}
    {attrs : Attributes} {options : List Grammar} {key : Key} {option : Grammar}
    {content : Option Occurrence}
    (h : .choice (.choice attrs options) key (some option) content ∈ (c.walk source full).all) :
    source.text? key = some option.identifier := by
  obtain ⟨text, stored, found⟩ := Option.bind_eq_some_iff.1 (selected_eq h).symm
  have named : option.identifier = text := by simpa using List.find?_some found
  rw [named]
  exact (Option.filter_eq_some_iff.1 stored).1

/-- Sockets depend on the full walk alone. -/
theorem Command.sockets_congr {c : Command} {v w : Values}
    (h : c.walk (.ofValues w) true = c.walk (.ofValues v) true) (expanded : Bool) :
    c.sockets w expanded = c.sockets v expanded := by
  rw [sockets, sockets, argumentSockets, argumentSockets, h]

namespace Node

variable {node : Node} {key x : Key} {attrs : Attributes} {options : List Grammar}
  {selected : Option Grammar} {content : Option Occurrence}

/-! ### Choices that are located -/

/-- Where options can be selected, a choice has been located that declares them. -/
theorem exists_choice_of_locate? {optional : Bool}
    (h : (node.locate? key).bind Occurrence.options? = some (options, optional)) :
    ∃ attrs selected content,
      node.locate? key = some (.choice (.choice attrs options) key selected content) := by
  obtain ⟨o, located, declares⟩ := Option.bind_eq_some_iff.1 h
  have at_key := (of_locate? located).2
  cases o with
  | choice declaration k selected content =>
    cases declaration with
    | choice attrs others =>
      obtain ⟨rfl, -⟩ := Prod.mk.inj (Option.some.inj declares)
      obtain rfl : k = key := at_key
      exact ⟨attrs, selected, content, located⟩
    | _ => cases declares
  | _ => cases declares

/-- A choice that is located has selected an option with a name, if any that can be reached. -/
theorem identifier_ne_empty_of_locate? {option : Grammar}
    (h : node.locate? key = some (.choice (.choice attrs options) key (some option) content))
    (addressable : option.isAddressable = true) : option.identifier ≠ "" := by
  intro unnamed
  have keeps : option.isNameless = false := Command.yieldsKey_of_find?_choice h rfl
  rw [Grammar.isNameless, addressable, unnamed] at keeps
  cases keeps

/-- While the selected option has no name, no choice is located at the key. -/
theorem options?_of_isNameless {option : Grammar}
    (ho : .choice (.choice attrs options) key (some option) content ∈ node.occurrences)
    (nameless : option.isNameless = true) :
    (node.locate? key).bind Occurrence.options? = none := by
  refine Option.eq_none_iff_forall_not_mem.2 ?_
  rintro ⟨others, optional⟩ located
  obtain ⟨attrs', selected', content', first⟩ := exists_choice_of_locate? located
  have same := Command.eq_of_find?_choice first rfl ho rfl
  have keeps := Command.yieldsKey_of_find?_choice first rfl
  rw [← same] at keeps
  exact Bool.eq_false_iff.1 keeps nameless

/-! ### What selecting does to a node -/

theorem getElem?_select (node : Node) (key : Key) (option : String) :
    (node.select key option).values[key]? = some (.text option) := by
  refine node.command.completes_fillDefaults.within _ key _ ?_
  rw [Values.getElem?_insert_eq, if_pos rfl]

theorem getElem?_select_of_ne {option : String} {value : Scalar} (ne : x ≠ key)
    (found : node.values[x]? = some value) :
    (node.select key option).values[x]? = some value := by
  refine node.command.completes_fillDefaults.within _ x value ?_
  rw [Values.getElem?_insert_eq, if_neg ne.symm, found]

theorem text?_select (node : Node) (key : Key) (option : String) :
    (Source.ofValues (node.select key option).values).text? key = some option := by
  rw [Source.text?, Source.value?_ofValues, getElem?_select]
  rfl

/-- A choice stays where it is. -/
theorem exists_choice_select
    (ho : .choice (.choice attrs options) key selected content ∈ node.occurrences)
    (option : String) :
    ∃ current content, .choice (.choice attrs options) key current content ∈
      (node.select key option).occurrences := by
  refine Command.exists_choice ho fun x value outside stored => ?_
  refine getElem?_select_of_ne ?_ stored
  rintro rfl
  cases (outside (Key.isUnder_self _)).2

/-- All walks of a node have an option selected by its name. -/
theorem identifier_of_select
    (ho : .choice (.choice attrs options) key selected content ∈ node.occurrences)
    {option : Grammar} (declared : option ∈ options) (named : option.identifier ≠ noOption)
    {full : Bool} {other : Grammar} {current : Option Grammar} {inside : Option Occurrence}
    (h : .choice other key current inside ∈ (node.command.walk
      (.ofValues (node.select key option.identifier).values) full).all) :
    current.map Grammar.identifier = some option.identifier := by
  -- what the walk has at the key is the choice that the option was selected for
  obtain ⟨_, _, stays⟩ := exists_choice_select ho option.identifier
  obtain rfl := Command.node_eq_of_choice stays h
  have kept : some option.identifier = (some option.identifier).filter (· != noOption) :=
    (Option.filter_eq_some_iff.2 ⟨rfl, by simpa using named⟩).symm
  obtain ⟨chosen, found, same⟩ := Grammar.exists_option? declared
  rw [Command.selected_eq h, text?_select, ← kept, Option.bind_some, found, Option.map_some, same]

/-! ### What another option leaves behind -/

/-- Selecting another option in a node that is complete stores entries of this option alone. -/
theorem isUnder_of_mem_select {option : String} (complete : node.IsComplete)
    (stored : key ∈ node.values)
    (ho : .choice (.choice attrs options) key selected content ∈ node.occurrences)
    {others : List Grammar} {current : Option Grammar} {inside : Option Occurrence}
    {declaration : Attributes}
    (located : (node.select key option).locate? key =
      some (.choice (.choice declaration others) key current inside))
    (mem : x ∈ (node.select key option).values) (new : x ∉ node.values) :
    x.isUnder (key.named option) = true := by
  -- the entry at the key has changed and opened what is new: it is no count, so it is a choice
  cases Command.opened_of_mem_fillDefaults complete
    (Values.withinBut_insert _ key (.text option)) mem (Values.not_mem_insert stored new _) with
  | item at_count => exact absurd at_count (Command.key_ne_marked_of_mem_walk ho _ .count)
  | option here addressable under =>
    -- the choice that has opened it is the one that is located
    obtain ⟨rfl, -, rfl, rfl⟩ :=
      Occurrence.choice.inj (Command.eq_of_find?_choice located rfl here rfl)
    have named := identifier_ne_empty_of_locate? located addressable
    have selection := Command.text?_of_selected here
    rw [← Option.some.inj (selection.symm.trans (text?_select node key option))]
    rwa [Grammar.keyBelow, Key.join, if_neg (by simpa using named)] at under

/-- Selecting the old option again only stores its name. -/
theorem values_select_select {a : String} (complete : node.IsComplete)
    (stored : node.values[key]? = some (.text a)) (b : String) :
    node.values.Within ((node.select key b).values.insert key (.text a)) ∧
      ((node.select key b).select key a).values =
        (node.select key b).values.insert key (.text a) := by
  have le : node.values.Within ((node.select key b).values.insert key (.text a)) := by
    intro x value found
    rw [Values.getElem?_insert_eq]
    split
    · next at_key => rwa [← at_key, stored] at found
    · next ne => exact getElem?_select_of_ne (Ne.symm ne) found
  exact ⟨le, node.command.completes_fillDefaults.stable_within complete le⟩

/-- Nothing of another option is read. -/
theorem walk_eq_of_leftovers {a b : String} {w : Values}
    (located : node.locate? key = some (.choice (.choice attrs options) key selected content))
    (stored : node.values[key]? = some (.text a)) (ne : b ≠ a) (le : node.values.Within w)
    (left : ∀ x ∈ w, x ∉ node.values → x.isUnder (key.named b) = true) :
    node.command.walk (.ofValues w) true = node.command.walk (.ofValues node.values) true := by
  refine Command.walk_eq_of_reads fun o ho x reads => ?_
  show (.ok w[x]? : Reading) = .ok node.values[x]?
  by_cases old : x ∈ node.values
  · rw [le.getElem?_eq old]
  · have unread : x ∉ w := by
      intro mem
      -- what is read behind a choice is behind its option, and this is not called `b`
      obtain ⟨option, chosen, addressable, only⟩ := Command.admits_of_owns ho (of_locate? located).1
        (Occurrence.owns_of_readKey? reads) (by simp) (left x mem old)
      obtain rfl : selected = some option := chosen
      have same : b = option.identifier :=
        Segment.name.inj (only (identifier_ne_empty_of_locate? located addressable))
      have selection := Command.text?_of_selected (of_locate? located).1
      rw [Source.text?, Source.value?_ofValues, stored] at selection
      exact ne (same.trans (Option.some.inj selection).symm)
    rw [Std.ExtTreeMap.getElem?_eq_none old, Std.ExtTreeMap.getElem?_eq_none unread]

end Node

namespace Graph

variable {g : Graph} {node : Node} {place : Place}

/-! ### Selecting in a graph -/

/-- An edit that selects an option has located a choice. -/
theorem of_selectOption {edited : Graph} {option : String}
    (found : g.node? place.node = some node) (ok : g.selectOption place option = .ok edited) :
    edited.node? place.node = some (node.select place.key option).refresh ∧
      ∃ attrs options selected content, node.locate? place.key =
        some (.choice (.choice attrs options) place.key selected content) := by
  obtain ⟨_, found', ⟨options, optional, located, -⟩, rfl⟩ := selectOption_eq_ok_iff.1 ok
  obtain rfl := Option.some.inj (found.symm.trans found')
  obtain ⟨attrs, selected, content, choice⟩ := Node.exists_choice_of_locate? located
  exact ⟨node?_update found rfl, attrs, options, selected, content, choice⟩

/-- **Choices can be switched while the selected option has a name.**  Any option that a choice
declares, other than one called like the selection of none, can be selected, except when an option
without a name is selected; then no choice is found.  The next walk has the choice in its place, and
every walk has it with an option of that name selected. -/
theorem selectOption_switches (found : g.node? place.node = some node) {attrs : Attributes}
    {options : List Grammar} {selected : Option Grammar} {content : Option Occurrence}
    (ho : .choice (.choice attrs options) place.key selected content ∈ node.occurrences)
    {option : Grammar} (declared : option ∈ options) (named : option.identifier ≠ noOption) :
    ((∃ edited, g.selectOption place option.identifier = .ok edited) ↔
        ∀ current ∈ selected, current.isNameless = false) ∧
      ((∃ current ∈ selected, current.isNameless = true) →
        g.selectOption place option.identifier = .error (.invalidKey place .choice)) ∧
      ∀ edited, g.selectOption place option.identifier = .ok edited →
        ∃ after, edited.node? place.node = some after ∧
          (∃ current content, .choice (.choice attrs options) place.key current content ∈
            after.occurrences) ∧
          ∀ (full : Bool) (other : Grammar) (current : Option Grammar) (inside : Option Occurrence),
            .choice other place.key current inside ∈
                (after.command.walk (.ofValues after.values) full).all →
              current.map Grammar.identifier = some option.identifier := by
  have refused : (∃ current ∈ selected, current.isNameless = true) →
      g.selectOption place option.identifier = .error (.invalidKey place .choice) := by
    rintro ⟨current, rfl, nameless⟩
    exact selectOption_eq_error found (Node.options?_of_isNameless ho nameless) _
  refine ⟨⟨?_, ?_⟩, refused, ?_⟩
  · rintro ⟨edited, ok⟩ current mem
    refine Bool.eq_false_iff.2 fun nameless => ?_
    cases ok.symm.trans (refused ⟨current, mem, nameless⟩)
  · -- an option with a name lies behind the key of the choice, so that the choice is located
    intro with_name
    have keeps : Occurrence.yieldsKey (.choice (.choice attrs options) place.key selected content) =
        false := by
      cases selected with
      | none => rfl
      | some current => exact with_name current rfl
    have located : node.locate? place.key = some _ := Node.locate?_eq_some ho keeps
    obtain ⟨chosen, known, -⟩ := Grammar.exists_option? declared
    refine ⟨_, selectOption_eq_ok_iff.2 ⟨node, found, ⟨options, attrs.optional, ?_, ?_⟩, rfl⟩⟩
    · rw [located]
      rfl
    · rw [known]
      rfl
  · intro edited ok
    refine ⟨_, (of_selectOption found ok).1, ?_, ?_⟩
    · exact Node.exists_choice_select ho option.identifier
    · intro full other current inside h
      exact Node.identifier_of_select ho declared named h

/-! ### Numbers, texts and groups -/

/-- A command with a choice as its argument. -/
def choiceOf (options : List Grammar) : Command where
  name := "choose"
  args := [.choice {} options]

/-- Where the choice is. -/
def choicePlace : Place :=
  ⟨"node-1", (Key.root.ordinal 0).named "choice"⟩

/-- A number or a text. -/
def numberOrText : List Grammar :=
  [.primitive {} .numeric none, .primitive {} .string none]

/-- A text is selected in place of a number. -/
theorem selectOption_switches_numberOrText :
    ∃ edited after, (single (choiceOf numberOrText)).selectOption choicePlace "string" =
        .ok edited ∧
      edited.node? "node-1" = some after ∧
      ∃ current content, .choice (.choice {} numberOrText) choicePlace.key current content ∈
          after.occurrences ∧
        current.map Grammar.identifier = some "string" := by
  have found : (single (choiceOf numberOrText)).node? choicePlace.node =
      some (.fresh (choiceOf numberOrText)) := node?_single _
  have ho : Occurrence.choice (.choice {} numberOrText) choicePlace.key
      (some (.primitive {} .numeric none))
      (some (.scalar (.primitive {} .numeric none) (choicePlace.key.named "numeric") .numeric
        (.ok (some (.text ""))))) ∈ (Node.fresh (choiceOf numberOrText)).occurrences :=
    List.mem_of_getElem? (i := 1) rfl
  have declared : Grammar.primitive {} .string none ∈ numberOrText :=
    List.mem_cons_of_mem _ (List.mem_singleton_self _)
  obtain ⟨succeeds, -, next⟩ := selectOption_switches found ho declared (by decide)
  obtain ⟨edited, ok⟩ := succeeds.2 fun current mem => by
    obtain rfl := Option.some.inj mem
    rfl
  obtain ⟨after, found_after, ⟨current, content, here⟩, selects⟩ := next edited ok
  exact ⟨edited, after, ok, found_after, current, content, here, selects true _ _ _ here⟩

/-- A group without a name, or a text. -/
def groupOrText : List Grammar :=
  [.group {} [.primitive {} .numeric none], .primitive {} .string none]

/-- While a group without a name is selected, the text cannot be. -/
theorem selectOption_groupOrText :
    (∃ selected content, .choice (.choice {} groupOrText) choicePlace.key selected content ∈
        (Node.fresh (choiceOf groupOrText)).occurrences) ∧
      (single (choiceOf groupOrText)).node? choicePlace.node =
        some (.fresh (choiceOf groupOrText)) ∧
      "string" ∈ groupOrText.map Grammar.identifier ∧
      (single (choiceOf groupOrText)).selectOption choicePlace "string" =
        .error (.invalidKey choicePlace .choice) := by
  have found : (single (choiceOf groupOrText)).node? choicePlace.node =
      some (.fresh (choiceOf groupOrText)) := node?_single _
  have ho : ∃ content, Occurrence.choice (.choice {} groupOrText) choicePlace.key
      (some (.group {} [.primitive {} .numeric none])) content ∈
        (Node.fresh (choiceOf groupOrText)).occurrences :=
    ⟨_, List.mem_of_getElem? (i := 2) rfl⟩
  obtain ⟨content, ho⟩ := ho
  refine ⟨⟨_, content, ho⟩, found, by decide, selectOption_eq_error found ?_ _⟩
  exact Node.options?_of_isNameless ho rfl

/-! ### Switching away and back -/

/-- **Switching a choice away and back restores it.**  Let an option be selected in a node that is
complete.  When another one is selected and then the first one again, all entries of the node are as
they were, all that has been added lies below the other option, and the sockets are those of the
values as they were. -/
theorem switching_restores (found : g.node? place.node = some node) (complete : node.IsComplete)
    {a b : String} (stored : node.values[place.key]? = some (.text a)) (ne : b ≠ a)
    {away back : Graph} (leaves : g.selectOption place b = .ok away)
    (returns : away.selectOption place a = .ok back) :
    ∃ after, back.node? place.node = some after ∧
      (∀ (x : Key) (value : Scalar), node.values[x]? = some value →
        after.values[x]? = some value) ∧
      (∀ x ∈ after.values, x ∉ node.values → x.isUnder (place.key.named b) = true) ∧
      after.sockets = node.command.sockets node.values node.expanded := by
  obtain ⟨found_away, attrs, options, selected, content, first⟩ := of_selectOption found leaves
  obtain ⟨found_back, _, _, _, _, second⟩ := of_selectOption found_away returns
  have mem_stored : place.key ∈ node.values := Values.mem_iff_exists.2 ⟨_, stored⟩
  obtain ⟨le, values_eq⟩ := Node.values_select_select complete stored b
  -- what is new to both edits has come in with the first one
  have left : ∀ x ∈ (node.select place.key b).values.insert place.key (.text a),
      x ∉ node.values → x.isUnder (place.key.named b) = true := by
    intro x mem new
    refine Node.isUnder_of_mem_select complete mem_stored (Node.of_locate? first).1 second ?_ new
    rcases Std.ExtTreeMap.mem_insert.1 mem with e | mem
    · exact absurd (Std.LawfulEqCmp.eq_of_compare e ▸ mem_stored) new
    · exact mem
  have walks := Node.walk_eq_of_leftovers first stored ne le left
  rw [← values_eq] at le left walks
  refine ⟨_, found_back, le, left, ?_⟩
  exact Command.sockets_congr walks node.expanded

/-- A choice is switched from a number to a text and back. -/
theorem switching_restores_numberOrText :
    ∃ away back after, (single (choiceOf numberOrText)).selectOption choicePlace "string" =
        .ok away ∧
      away.selectOption choicePlace "numeric" = .ok back ∧
      back.node? "node-1" = some after ∧
      (∀ (x : Key) (value : Scalar),
        (Node.fresh (choiceOf numberOrText)).values[x]? = some value →
          after.values[x]? = some value) ∧
      (∀ x ∈ after.values, x ∉ (Node.fresh (choiceOf numberOrText)).values →
        x.isUnder (choicePlace.key.named "string") = true) ∧
      after.sockets = (Node.fresh (choiceOf numberOrText)).sockets := by
  have found : (single (choiceOf numberOrText)).node? choicePlace.node =
      some (.fresh (choiceOf numberOrText)) := node?_single _
  have complete : (Node.fresh (choiceOf numberOrText)).IsComplete :=
    (choiceOf numberOrText).completes_fillDefaults.idem ∅
  have leaves : (single (choiceOf numberOrText)).selectOption choicePlace "string" = .ok _ :=
    selectOption_eq_ok_iff.2 ⟨_, found, ⟨numberOrText, false, rfl, rfl⟩, rfl⟩
  have returns : Graph.selectOption _ choicePlace "numeric" = .ok _ :=
    selectOption_eq_ok_iff.2 ⟨_, (of_selectOption found leaves).1,
      ⟨numberOrText, false, rfl, rfl⟩, rfl⟩
  obtain ⟨after, found_after, kept, left, sockets_eq⟩ :=
    switching_restores found complete (by decide +kernel) (by decide) leaves returns
  exact ⟨_, _, after, leaves, returns, found_after, kept, left, sockets_eq⟩

end Graph

end CommandGraph
