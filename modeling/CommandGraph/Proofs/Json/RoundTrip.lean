/-
CommandGraph/Proofs/Json/RoundTrip.lean

JSON text reads back.

A value is legible (`IsLegible`) if it has a text of its own: its integers fit 64 bits, its
doubles are read as they are written, and its containers are nested no deeper than the reader
goes.  The text of such a value is read as this value, in front of whatever may follow a value
(`value?_chars`), whatever blanks the writer puts between the tokens; so the indented text of a
legible value denotes it (`ofText?_pretty`).

Containers are lists of texts with commas between them, and the reader takes them apart by one
function, which is given how to read an item.  So there is one lemma for the items of arrays
and the members of objects (`separated?_append`).
-/
import CommandGraph.Proofs.Except
import CommandGraph.Proofs.Json.Tokens

namespace CommandGraph.Json

/-! ### Layout -/

/-- Whether only layout stands between tokens. -/
structure Spacing.IsBlank (spacing : Spacing) : Prop where
  lineBreak : ∀ depth, ∀ c ∈ spacing.lineBreak depth, isLayout c = true
  gap : ∀ c ∈ spacing.gap, isLayout c = true

/-- Indented text has layout alone between its tokens. -/
theorem Spacing.isBlank_indented : Spacing.indented.IsBlank where
  lineBreak depth c h := by
    rcases List.mem_cons.1 h with rfl | h
    · rfl
    · rw [List.eq_of_mem_replicate h]
      rfl
  gap c h := by
    rw [List.mem_singleton.1 h]
    rfl

/-- Layout is skipped up to the first other character. -/
theorem skipLayout_append {blank : List Char} (h : ∀ c ∈ blank, isLayout c = true) {c : Char}
    (hc : isLayout c = false) (rest : List Char) :
    skipLayout (blank ++ c :: rest) = c :: rest := by
  refine (span_append h ?_).2
  rintro d ⟨⟩
  exact hc

theorem skipLayout_cons {c : Char} (hc : isLayout c = false) (rest : List Char) :
    skipLayout (c :: rest) = c :: rest :=
  List.dropWhile_cons_of_neg (by simpa using hc)

/-- A number ends in front of layout and of what closes or separates items. -/
theorem endsNumber_append {blank : List Char} (h : ∀ c ∈ blank, isLayout c = true) {c : Char}
    (hc : c = ',' ∨ c = ']' ∨ c = '\x7d') (rest : List Char) : EndsNumber (blank ++ c :: rest) := by
  cases blank with
  | nil =>
    rintro d ⟨⟩
    rcases hc with rfl | rfl | rfl <;> decide
  | cons d blank =>
    rintro _ ⟨⟩
    have layout := h d List.mem_cons_self
    simp only [isLayout, Bool.or_eq_true, beq_iff_eq] at layout
    rcases layout with ((rfl | rfl) | rfl) | rfl <;> decide

/-! ### Items between commas -/

section

variable {α β : Type} {read : List Char → Option (β × List Char)} {text : α → List Char}
  {value : α → β} {close : Char}

/-- Texts between commas are read one after the other, up to the closing character. -/
theorem separated?_append (closes : close = ']' ∨ close = '\x7d') {lineBreak final : List Char}
    (blank : ∀ c ∈ lineBreak, isLayout c = true) (blank_end : ∀ c ∈ final, isLayout c = true)
    {a : α} {as : List α} {fuel : Nat} (enough : as.length < fuel)
    (starts : ∀ b ∈ as, ∃ c cs, text b = c :: cs ∧ isLayout c = false)
    (reads : ∀ b ∈ a :: as, ∀ rest, EndsNumber rest → read (text b ++ rest) = some (value b, rest))
    (rest : List Char) :
    separated? read close fuel
        (text a ++ ((as.flatMap fun b => ',' :: lineBreak ++ text b) ++ (final ++ close :: rest))) =
      some ((a :: as).map value, rest) := by
  induction as generalizing a fuel with
  | nil =>
    -- the last item stands in front of the closing character, with layout between them
    obtain ⟨fuel, rfl⟩ := Nat.exists_eq_succ_of_ne_zero (Nat.ne_of_gt enough)
    have no_layout : isLayout close = false := by rcases closes with rfl | rfl <;> rfl
    have no_comma : ¬ (close == ',') = true := by rcases closes with rfl | rfl <;> decide
    rw [List.flatMap_nil, List.nil_append, separated?,
      reads a List.mem_cons_self _ (endsNumber_append blank_end (.inr closes) rest)]
    simp only [skipLayout_append blank_end no_layout]
    rw [if_neg no_comma, if_pos (beq_self_eq_true close)]
    rfl
  | cons b as ih =>
    obtain ⟨fuel, rfl⟩ := Nat.exists_eq_succ_of_ne_zero (Nat.ne_of_gt (Nat.zero_lt_of_lt enough))
    -- any other item stands in front of a comma, and behind it layout is skipped
    have comma (rest : List Char) : EndsNumber (',' :: rest) :=
      endsNumber_append (List.forall_mem_nil _) (.inl rfl) rest
    obtain ⟨c, cs, first, no_layout⟩ := starts b List.mem_cons_self
    have next := ih (Nat.lt_of_succ_lt_succ enough)
      (fun d mem => starts d (List.mem_cons_of_mem b mem))
      (fun d mem => reads d (List.mem_cons_of_mem a mem))
    rw [separated?, List.flatMap_cons, List.append_assoc, List.append_assoc, List.cons_append,
      reads a List.mem_cons_self _ (comma _)]
    simp only [skipLayout_cons (show isLayout ',' = false from rfl)]
    rw [first, List.cons_append, skipLayout_append blank no_layout, ← List.cons_append, ← first,
      next]
    rfl

/-- Each of several texts between commas is shorter than all of them. -/
theorem length_le_flatMap (text : α → List Char) (lineBreak : List Char) {a : α} {as : List α}
    (h : a ∈ as) : (text a).length ≤ (as.flatMap fun b => ',' :: lineBreak ++ text b).length := by
  induction as with
  | nil => cases h
  | cons b as ih =>
    rw [List.flatMap_cons, List.length_append, List.length_append]
    rcases List.mem_cons.1 h with rfl | h
    · omega
    · have le := ih h
      omega

/-- There are at most as many texts as characters, as each has its comma. -/
theorem length_items_le_flatMap (text : α → List Char) (lineBreak : List Char) (as : List α) :
    as.length ≤ (as.flatMap fun b => ',' :: lineBreak ++ text b).length := by
  induction as with
  | nil => exact Nat.le_refl 0
  | cons b as ih =>
    rw [List.flatMap_cons, List.length_append, List.length_append, List.length_cons,
      List.length_cons]
    omega

/-- The length of all texts is enough fuel to read them, and more than enough for each. -/
theorem separated?_of_length_lt (closes : close = ']' ∨ close = '\x7d')
    {lineBreak final : List Char} (blank : ∀ c ∈ lineBreak, isLayout c = true)
    (blank_end : ∀ c ∈ final, isLayout c = true) {a : α} {as : List α} {fuel : Nat}
    (enough : (text a ++ as.flatMap fun b => ',' :: lineBreak ++ text b).length < fuel)
    (starts : ∀ b ∈ as, ∃ c cs, text b = c :: cs ∧ isLayout c = false)
    (reads : ∀ b ∈ a :: as, (text b).length < fuel →
      ∀ rest, EndsNumber rest → read (text b ++ rest) = some (value b, rest))
    (rest : List Char) :
    separated? read close fuel
        (text a ++ ((as.flatMap fun b => ',' :: lineBreak ++ text b) ++ (final ++ close :: rest))) =
      some ((a :: as).map value, rest) := by
  rw [List.length_append] at enough
  have items := length_items_le_flatMap text lineBreak as
  refine separated?_append closes blank blank_end (by omega) starts (fun b mem => ?_) rest
  refine reads b mem ?_
  rcases List.mem_cons.1 mem with rfl | mem
  · omega
  · have le := length_le_flatMap text lineBreak mem
    omega

end

/-! ### Induction over values -/

/-- The values right inside a value. -/
def children : Json → List Json
  | array items => items
  | object members => members.map Prod.snd
  | _ => []

/-- The values right inside a value are smaller. -/
theorem sizeOf_lt_of_mem_children {v w : Json} (h : w ∈ v.children) : sizeOf w < sizeOf v := by
  cases v with
  | array items =>
    have lt : sizeOf w < sizeOf items := List.sizeOf_lt_of_mem h
    rw [array.sizeOf_spec]
    omega
  | object members =>
    obtain ⟨⟨name, value⟩, mem, rfl⟩ := List.mem_map.1 h
    have lt := List.sizeOf_lt_of_mem mem
    rw [Prod.mk.sizeOf_spec] at lt
    rw [object.sizeOf_spec]
    show sizeOf value < _
    omega
  | _ => cases h

/-- What holds of a value as soon as it holds of the values inside holds of every value. -/
@[elab_as_elim]
theorem inductionOn {P : Json → Prop} (v : Json)
    (value : ∀ v : Json, (∀ w ∈ v.children, P w) → P v) : P v :=
  value v fun w _ => inductionOn w value
termination_by sizeOf v
decreasing_by exact sizeOf_lt_of_mem_children ‹_›

/-! ### Legible values -/

mutual

/-- Whether the reader has room for a value, and can tell its numbers. -/
def IsLegible : Json → Nat → Prop
  | null, _ | bool _, _ | string _, _ => True
  | int n, _ => Fits n
  | float x, _ => ReadsBack x
  | array items, room => 0 < room ∧ AreLegible items (room - 1)
  | object members, room => 0 < room ∧ MembersAreLegible members (room - 1)
  | unreadable, _ => False

/-- Whether all items of an array are legible. -/
def AreLegible : List Json → Nat → Prop
  | [], _ => True
  | item :: items, room => item.IsLegible room ∧ AreLegible items room

/-- Whether the values of all members of an object are legible. -/
def MembersAreLegible : List (String × Json) → Nat → Prop
  | [], _ => True
  | (_, value) :: members, room => value.IsLegible room ∧ MembersAreLegible members room

end

theorem areLegible_iff {items : List Json} {room : Nat} :
    AreLegible items room ↔ ∀ item ∈ items, item.IsLegible room := by
  induction items with
  | nil => simp [AreLegible]
  | cons item items ih => simp [AreLegible, ih]

theorem membersAreLegible_iff {members : List (String × Json)} {room : Nat} :
    MembersAreLegible members room ↔ ∀ member ∈ members, member.2.IsLegible room := by
  induction members with
  | nil => simp [MembersAreLegible]
  | cons member members ih => simp [MembersAreLegible, ih]

/-! ### Values -/

section

variable {spacing : Spacing} {depth : Nat}

/-- A member as text. -/
def oneMemberChars (spacing : Spacing) (depth : Nat) (member : String × Json) : List Char :=
  stringChars member.1 ++ ':' :: spacing.gap ++ chars spacing depth member.2

theorem itemChars_eq_flatMap (items : List Json) :
    itemChars spacing depth items =
      items.flatMap fun item => ',' :: spacing.lineBreak depth ++ chars spacing depth item := by
  induction items with
  | nil => rfl
  | cons item items ih => rw [itemChars, ih, List.flatMap_cons]

theorem memberChars_eq_flatMap (members : List (String × Json)) :
    memberChars spacing depth members = members.flatMap fun member =>
      ',' :: spacing.lineBreak depth ++ oneMemberChars spacing depth member := by
  induction members with
  | nil => rfl
  | cons member members ih =>
    rw [memberChars, ih, List.flatMap_cons, oneMemberChars]
    simp

theorem isLayout_of_number {c : Char} (h : c = '-' ∨ c.isDigit = true) : isLayout c = false := by
  refine Bool.eq_false_iff.2 fun layout => ?_
  simp only [isLayout, Bool.or_eq_true, beq_iff_eq] at layout
  rcases layout with ((rfl | rfl) | rfl) | rfl <;> revert h <;> decide

/-- What starts like a number is read as one. -/
theorem value?_of_number {c : Char} (h : c = '-' ∨ c.isDigit = true) (fuel room : Nat)
    (cs : List Char) : value? (fuel + 1) room (c :: cs) = number? (c :: cs) := by
  have other {d : Char} (hd : ¬ (d = '-' ∨ d.isDigit = true)) : c ≠ d := by
    rintro rfl
    exact hd h
  rw [value?]
  all_goals exact fun _ e => other (by decide) (List.cons.inj e).1

/-- The text of a legible value starts with a character that is no layout and closes nothing. -/
theorem exists_chars_eq_cons {v : Json} {room : Nat} (h : v.IsLegible room) :
    ∃ c cs, chars spacing depth v = c :: cs ∧ isLayout c = false ∧ c ≠ ']' := by
  -- what the reader takes for a number starts with a sign or a digit
  have number {cs left : List Char} {value : Json} (h : number? cs = some (value, left)) :
      ∃ c rest, cs = c :: rest ∧ isLayout c = false ∧ c ≠ ']' := by
    obtain ⟨c, rest, e, first⟩ := head_of_number? h
    exact ⟨c, rest, e, isLayout_of_number first, by rintro rfl; revert first; decide⟩
  cases v with
  | null => exact ⟨'n', _, rfl, rfl, by decide⟩
  | bool b => cases b with
    | true => exact ⟨'t', _, rfl, rfl, by decide⟩
    | false => exact ⟨'f', _, rfl, rfl, by decide⟩
  | int n =>
    have read : number? (intChars n ++ []) = some (.int n, []) :=
      number?_intChars h (by simp [EndsNumber])
    rw [List.append_nil] at read
    exact number read
  | float x => exact number h
  | string s => exact ⟨'"', _, rfl, rfl, by decide⟩
  | array items => cases items with
    | nil => exact ⟨'[', _, rfl, rfl, by decide⟩
    | cons => exact ⟨'[', _, rfl, rfl, by decide⟩
  | object members => cases members with
    | nil => exact ⟨'\x7b', _, rfl, rfl, by decide⟩
    | cons => exact ⟨'\x7b', _, rfl, rfl, by decide⟩
  | unreadable => cases h

/-! ### One step of the reader

The first character tells a value apart; the reader then looks for the first item, unless the
container is closed right away. -/

theorem value?_quote (fuel room : Nat) (cs : List Char) :
    value? (fuel + 1) room ('"' :: cs) = (parts? cs).map fun read =>
      ((text? read.1).elim .unreadable .string, read.2) :=
  rfl

theorem value?_string (fuel room : Nat) (s : String) (rest : List Char) :
    value? (fuel + 1) room (stringChars s ++ rest) = some (.string s, rest) := by
  obtain ⟨parts, read, text⟩ := exists_parts?_string s rest
  rw [stringChars_append, value?_quote, read, Option.map_some]
  simp only [text]
  rfl

theorem value?_bracket (fuel room : Nat) (cs : List Char) :
    value? (fuel + 1) room ('[' :: cs) =
      match skipLayout cs with
      | ']' :: rest => some (bounded room (.array []), rest)
      | rest => (separated? (value? fuel (room - 1)) ']' fuel rest).map fun read =>
        (bounded room (.array read.1), read.2) :=
  rfl

theorem value?_brace (fuel room : Nat) (cs : List Char) :
    value? (fuel + 1) room ('\x7b' :: cs) =
      match skipLayout cs with
      | '\x7d' :: rest => some (bounded room (.object []), rest)
      | rest =>
        (separated? (member? (value? fuel (room - 1))) '\x7d' fuel rest).map fun read =>
          (bounded room (ofMembers read.1), read.2) :=
  rfl

/-- An array that is not closed right away has items. -/
theorem value?_array {cs text : List Char} {c : Char} (h : skipLayout cs = c :: text)
    (ne : c ≠ ']') (fuel room : Nat) :
    value? (fuel + 1) room ('[' :: cs) =
      (separated? (value? fuel (room - 1)) ']' fuel (c :: text)).map fun read =>
        (bounded room (.array read.1), read.2) := by
  rw [value?_bracket, h]
  split
  · next e => cases ne (List.cons.inj e).1
  · rfl

/-- An object that is not closed right away has members. -/
theorem value?_object {cs text : List Char} {c : Char} (h : skipLayout cs = c :: text)
    (ne : c ≠ '\x7d') (fuel room : Nat) :
    value? (fuel + 1) room ('\x7b' :: cs) =
      (separated? (member? (value? fuel (room - 1))) '\x7d' fuel (c :: text)).map fun read =>
        (bounded room (ofMembers read.1), read.2) := by
  rw [value?_brace, h]
  split
  · next e => cases ne (List.cons.inj e).1
  · rfl

/-- A container is read if there is room for it. -/
theorem bounded_eq {room : Nat} (h : 0 < room) (v : Json) : bounded room v = v :=
  if_neg (Nat.ne_of_gt h)

theorem ofMembers_map (members : List (String × Json)) :
    ofMembers (members.map fun member => (some member.1, member.2)) = .object members := by
  rw [ofMembers, mapM_map_eq_some]
  intro member _
  rfl

/-- A member is read where its value is. -/
theorem member?_append (blank : spacing.IsBlank) {read : List Char → Option (Json × List Char)}
    {member : String × Json} {c : Char} {cs rest : List Char}
    (starts : chars spacing depth member.2 = c :: cs) (no_layout : isLayout c = false)
    (reads : read (chars spacing depth member.2 ++ rest) = some (member.2, rest)) :
    member? read (oneMemberChars spacing depth member ++ rest) =
      some ((some member.1, member.2), rest) := by
  have colon : isLayout ':' = false := rfl
  rw [oneMemberChars, List.append_assoc, List.append_assoc, stringChars_append]
  obtain ⟨parts, name, text⟩ :=
    exists_parts?_string member.1 (':' :: (spacing.gap ++ (chars spacing depth member.2 ++ rest)))
  rw [List.cons_append, member?, name]
  simp only [skipLayout_cons colon]
  rw [starts, List.cons_append, skipLayout_append blank.gap no_layout, ← List.cons_append, ← starts,
    reads, text]
  rfl

theorem chars_array_append (item : Json) (items : List Json) (rest : List Char) :
    chars spacing depth (array (item :: items)) ++ rest =
      '[' :: (spacing.lineBreak (depth + 1) ++ (chars spacing (depth + 1) item ++
        ((items.flatMap fun b => ',' :: spacing.lineBreak (depth + 1) ++
          chars spacing (depth + 1) b) ++ (spacing.lineBreak depth ++ ']' :: rest)))) := by
  rw [chars, itemChars_eq_flatMap]
  simp only [List.append_assoc, List.cons_append, List.nil_append]

theorem chars_object_append (member : String × Json) (members : List (String × Json))
    (rest : List Char) :
    chars spacing depth (object (member :: members)) ++ rest =
      '\x7b' :: (spacing.lineBreak (depth + 1) ++ (oneMemberChars spacing (depth + 1) member ++
        ((members.flatMap fun b => ',' :: spacing.lineBreak (depth + 1) ++
          oneMemberChars spacing (depth + 1) b) ++
            (spacing.lineBreak depth ++ '\x7d' :: rest)))) := by
  rw [chars, memberChars_eq_flatMap, oneMemberChars]
  simp only [List.append_assoc, List.cons_append, List.nil_append]

/-! ### Reading what was written -/

/-- An array is read if its items are. -/
theorem value?_items (blank : spacing.IsBlank) {item : Json} {items : List Json}
    {room fuel : Nat} (legible : (array (item :: items)).IsLegible room)
    (enough : (chars spacing depth (array (item :: items))).length ≤ fuel)
    (reads : ∀ b ∈ item :: items, (chars spacing (depth + 1) b).length < fuel →
      ∀ rest, EndsNumber rest →
        value? fuel (room - 1) (chars spacing (depth + 1) b ++ rest) = some (b, rest))
    (rest : List Char) :
    value? (fuel + 1) room (chars spacing depth (array (item :: items)) ++ rest) =
      some (array (item :: items), rest) := by
  have starts (b : Json) (mem : b ∈ item :: items) :
      ∃ c cs, chars spacing (depth + 1) b = c :: cs ∧ isLayout c = false ∧ c ≠ ']' :=
    exists_chars_eq_cons (areLegible_iff.1 legible.2 b mem)
  have starts_others (b : Json) (mem : b ∈ items) :
      ∃ c cs, chars spacing (depth + 1) b = c :: cs ∧ isLayout c = false := by
    obtain ⟨c, cs, first, no_layout, -⟩ := starts b (List.mem_cons_of_mem item mem)
    exact ⟨c, cs, first, no_layout⟩
  obtain ⟨c, cs, first, no_layout, ne⟩ := starts item List.mem_cons_self
  have shorter : (chars spacing (depth + 1) item ++ items.flatMap fun b =>
      ',' :: spacing.lineBreak (depth + 1) ++ chars spacing (depth + 1) b).length < fuel := by
    rw [← List.append_nil (chars _ _ _), chars_array_append] at enough
    simp only [List.length_append, List.length_cons] at enough ⊢
    omega
  have listed := separated?_of_length_lt (.inl rfl) (blank.lineBreak (depth + 1))
    (blank.lineBreak depth) shorter starts_others reads rest
  have skipped (rest : List Char) :
      skipLayout (spacing.lineBreak (depth + 1) ++ (chars spacing (depth + 1) item ++ rest)) =
        c :: (cs ++ rest) := by
    rw [first, List.cons_append]
    exact skipLayout_append (blank.lineBreak _) no_layout _
  rw [chars_array_append, value?_array (skipped _) ne, ← List.cons_append, ← first, listed]
  simp only [Option.map_some, List.map_id_fun', id_eq, bounded_eq legible.1]

theorem exists_oneMemberChars_eq_cons (spacing : Spacing) (depth : Nat) (member : String × Json) :
    ∃ cs, oneMemberChars spacing depth member = '"' :: cs := by
  rw [oneMemberChars, List.append_assoc, stringChars_append]
  exact ⟨_, rfl⟩

/-- An object is read if the values of its members are. -/
theorem value?_members (blank : spacing.IsBlank) {member : String × Json}
    {members : List (String × Json)} {room fuel : Nat}
    (legible : (object (member :: members)).IsLegible room)
    (enough : (chars spacing depth (object (member :: members))).length ≤ fuel)
    (reads : ∀ b ∈ member :: members, (chars spacing (depth + 1) b.2).length < fuel →
      ∀ rest, EndsNumber rest →
        value? fuel (room - 1) (chars spacing (depth + 1) b.2 ++ rest) = some (b.2, rest))
    (rest : List Char) :
    value? (fuel + 1) room (chars spacing depth (object (member :: members)) ++ rest) =
      some (object (member :: members), rest) := by
  have starts (b : String × Json) (_ : b ∈ members) :
      ∃ c cs, oneMemberChars spacing (depth + 1) b = c :: cs ∧ isLayout c = false := by
    obtain ⟨cs, first⟩ := exists_oneMemberChars_eq_cons spacing (depth + 1) b
    exact ⟨'"', cs, first, rfl⟩
  obtain ⟨cs, first⟩ := exists_oneMemberChars_eq_cons spacing (depth + 1) member
  have shorter : (oneMemberChars spacing (depth + 1) member ++ members.flatMap fun b =>
      ',' :: spacing.lineBreak (depth + 1) ++ oneMemberChars spacing (depth + 1) b).length <
        fuel := by
    rw [← List.append_nil (chars _ _ _), chars_object_append] at enough
    simp only [oneMemberChars, List.length_append, List.length_cons] at enough ⊢
    omega
  have members_read (b : String × Json) (mem : b ∈ member :: members)
      (below : (oneMemberChars spacing (depth + 1) b).length < fuel) (rest : List Char)
      (ends : EndsNumber rest) :
      member? (value? fuel (room - 1)) (oneMemberChars spacing (depth + 1) b ++ rest) =
        some ((some b.1, b.2), rest) := by
    obtain ⟨c, cs, first, no_layout, -⟩ :=
      exists_chars_eq_cons (membersAreLegible_iff.1 legible.2 b mem)
    refine member?_append blank first no_layout (reads b mem ?_ rest ends)
    simp only [oneMemberChars, List.length_append, List.length_cons] at below
    omega
  have listed := separated?_of_length_lt (.inr rfl) (blank.lineBreak (depth + 1))
    (blank.lineBreak depth) shorter starts members_read rest
  have skipped (rest : List Char) :
      skipLayout (spacing.lineBreak (depth + 1) ++
        (oneMemberChars spacing (depth + 1) member ++ rest)) = '"' :: (cs ++ rest) := by
    rw [first, List.cons_append]
    exact skipLayout_append (blank.lineBreak _) rfl _
  rw [chars_object_append, value?_object (skipped _) (by decide), ← List.cons_append, ← first,
    listed]
  simp only [Option.map_some, ofMembers_map, bounded_eq legible.1]

/-- The text of a legible value is read as this value, whatever follows. -/
theorem value?_chars (blank : spacing.IsBlank) {v : Json} {room fuel : Nat} {rest : List Char}
    (legible : v.IsLegible room) (ends : EndsNumber rest)
    (enough : (chars spacing depth v).length ≤ fuel) :
    value? (fuel + 1) room (chars spacing depth v ++ rest) = some (v, rest) := by
  -- the induction is on the value; the fuel is given by the length of the text, which is longer
  -- than that of any part
  induction v using inductionOn generalizing room fuel rest depth with
  | value v ih =>
    cases v with
    | null => rfl
    | bool b => cases b <;> rfl
    | int n =>
      have read := number?_intChars legible ends
      obtain ⟨c, cs, e, first⟩ := head_of_number? read
      show value? (fuel + 1) room (intChars n ++ rest) = _
      rw [e, value?_of_number first, ← e, read]
    | float x =>
      have read := number?_append legible ends
      obtain ⟨c, cs, e, first⟩ := head_of_number? read
      show value? (fuel + 1) room (floatChars x ++ rest) = _
      rw [e, value?_of_number first, ← e, read]
      rfl
    | string s => exact value?_string fuel room s rest
    | array items =>
      cases items with
      | nil =>
        have closed : skipLayout (']' :: rest) = ']' :: rest := skipLayout_cons rfl rest
        show value? (fuel + 1) room ('[' :: ']' :: rest) = _
        rw [value?_bracket, closed]
        simp only [bounded_eq legible.1]
      | cons item items =>
        refine value?_items blank legible enough (fun b mem below rest ends => ?_) rest
        obtain ⟨fuel, rfl⟩ := Nat.exists_eq_succ_of_ne_zero (Nat.ne_of_gt (Nat.zero_lt_of_lt below))
        exact ih b mem (areLegible_iff.1 legible.2 b mem) ends (Nat.le_of_lt_succ below)
    | object members =>
      cases members with
      | nil =>
        have closed : skipLayout ('\x7d' :: rest) = '\x7d' :: rest := skipLayout_cons rfl rest
        show value? (fuel + 1) room ('\x7b' :: '\x7d' :: rest) = _
        rw [value?_brace, closed]
        simp only [bounded_eq legible.1]
      | cons member members =>
        refine value?_members blank legible enough (fun b mem below rest ends => ?_) rest
        obtain ⟨fuel, rfl⟩ := Nat.exists_eq_succ_of_ne_zero (Nat.ne_of_gt (Nat.zero_lt_of_lt below))
        exact ih b.2 (List.mem_map_of_mem mem) (membersAreLegible_iff.1 legible.2 b mem) ends
          (Nat.le_of_lt_succ below)
    | unreadable => cases legible

/-- The text of a legible value denotes this value. -/
theorem ofChars?_chars (blank : spacing.IsBlank) {v : Json} (legible : v.IsLegible depthLimit) :
    ofChars? (chars spacing 0 v) = some v := by
  obtain ⟨c, cs, first, no_layout, -⟩ := exists_chars_eq_cons legible
  have skipped : skipLayout (chars spacing 0 v) = chars spacing 0 v := by
    rw [first, skipLayout_cons no_layout]
  have ends : EndsNumber [] := by
    intro c mem
    cases mem
  have read := value?_chars blank legible ends (Nat.le_refl (chars spacing 0 v).length)
  rw [List.append_nil] at read
  rw [ofChars?, skipped, read]
  rfl

end

/-- The indented text of a legible value denotes this value. -/
theorem ofText?_pretty {v : Json} (legible : v.IsLegible depthLimit) :
    ofText? v.pretty = some v := by
  rw [ofText?, pretty, String.toList_ofList, ofChars?_chars Spacing.isBlank_indented legible]

end CommandGraph.Json
