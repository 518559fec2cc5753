/-
CommandGraph/Proofs/Key/RoundTrip.lean

Written keys are read back.

A segment is legible unless it is an empty name or a position beyond 64 bits.  The text of a
legible segment is one piece, whatever separators and escapes stand in it, and this piece
stands for the segment again (`Segment.reads`); so a key of legible segments is read from its
own text (`Key.ofText_text`), and no two such keys share one.

No text denotes any other key (`Key.isLegible_of_ofText`): reading a text and writing the key
again gives a text that denotes the same key.
-/
import CommandGraph.Key.Text
import CommandGraph.Proofs.Except
import CommandGraph.Proofs.Text.Digits

namespace CommandGraph

/-! ### Legible keys -/

/-- Whether a segment can be told from its text: a name must not be empty, and positions fit
64 bits. -/
def Segment.IsLegible : Segment → Prop
  | .ordinal index => index < Natural.bound
  | .name text => text ≠ ""
  | .arrayParam | .marker _ => True

/-- Whether all segments of a key can be told from their texts. -/
def Key.IsLegible (key : Key) : Prop :=
  ∀ s ∈ key.segments, s.IsLegible

instance (s : Segment) : Decidable s.IsLegible := by
  cases s <;> unfold Segment.IsLegible <;> infer_instance

instance (key : Key) : Decidable key.IsLegible := by
  unfold Key.IsLegible
  infer_instance

namespace Key

/-! ### One character at the front of a text -/

/-- An escaped character belongs to the first piece, which it makes literal. -/
theorem pieces?_escape (c : Char) (rest : List Char) :
    pieces? ('\\' :: c :: rest) =
      (pieces? rest).map fun (first, others) => (first.cons c true, others) := by
  rw [pieces?]

theorem pieces?_separator (rest : List Char) :
    pieces? ('/' :: rest) =
      (pieces? rest).map fun (first, others) => ({}, first :: others) := by
  rw [pieces?]

theorem pieces?_plain {c : Char} (slash : c ≠ '/') (backslash : c ≠ '\\') (rest : List Char) :
    pieces? (c :: rest) =
      (pieces? rest).map fun (first, others) => (first.cons c false, others) := by
  rw [pieces?]
  · exact fun e => absurd e backslash
  · exact fun _ _ e => absurd e backslash
  · exact slash

/-- Text without separators and escapes goes to the first piece as it is. -/
theorem pieces?_append {cs rest : List Char} {others : List Piece}
    (plain : ∀ c ∈ cs, c ≠ '/' ∧ c ≠ '\\') (h : pieces? rest = some ({}, others)) :
    pieces? (cs ++ rest) = some ({ body := cs }, others) := by
  induction cs with
  | nil => exact h
  | cons c cs ih =>
    obtain ⟨slash, backslash⟩ := plain c List.mem_cons_self
    rw [List.cons_append, pieces?_plain slash backslash,
      ih fun d mem => plain d (List.mem_cons_of_mem c mem)]
    rfl

/-- Escaped separators are put back into the first piece. -/
theorem pieces?_escapeSeparators {rest : List Char} {others : List Piece}
    (h : pieces? rest = some ({}, others)) (cs : List Char) :
    ∃ literal, pieces? (Segment.escapeSeparators cs ++ rest) =
      some ({ body := cs, literal }, others) := by
  induction cs with
  | nil => exact ⟨false, h⟩
  | cons c cs ih =>
    obtain ⟨literal, ih⟩ := ih
    rw [Segment.escapeSeparators, List.flatMap_cons, List.append_assoc]
    change ∃ l, pieces? (_ ++ (Segment.escapeSeparators cs ++ rest)) = _
    split
    · refine ⟨true, ?_⟩
      rw [List.cons_append, List.singleton_append, pieces?_escape, ih]
      rfl
    · next free =>
      rw [Bool.or_eq_true, not_or, beq_iff_eq, beq_iff_eq] at free
      refine ⟨false, ?_⟩
      rw [List.singleton_append, pieces?_plain free.1 free.2, ih]
      rfl

/-! ### The segment that a piece stands for -/

theorem segment?_literal (cs : List Char) :
    Piece.segment? { body := cs, literal := true } = some (.name (String.ofList cs)) := rfl

theorem ofText?_eq_none {text : String} (h : text.toList.head? ≠ some '#') :
    Marker.ofText? text = none := by
  rw [Marker.ofText?, List.find?_eq_none]
  intro m _ e
  obtain rfl := beq_iff_eq.1 e
  cases m <;> exact h rfl

/-- A piece is read as a name if it looks like nothing else. -/
theorem segment?_name {cs : List Char} (some_char : cs ≠ [])
    (clear : Segment.isAmbiguous cs = false) (literal : Bool) :
    Piece.segment? { body := cs, literal } = some (.name (String.ofList cs)) := by
  obtain ⟨c, cs, rfl⟩ := List.exists_cons_of_ne_nil some_char
  rw [Segment.isAmbiguous, Bool.or_eq_false_iff, List.head?_cons, Option.any_some] at clear
  obtain ⟨sigil, digits⟩ := clear
  have no_hash : c ≠ '#' := by
    rintro rfl
    cases sigil
  have no_at : c ≠ '@' := by
    rintro rfl
    cases sigil
  have no_param : String.ofList (c :: cs) ≠ arrayParamText := by
    intro e
    have chars := congrArg String.toList e
    rw [String.toList_ofList] at chars
    exact no_at (List.cons.inj chars).1
  have no_marker : Marker.ofText? (String.ofList (c :: cs)) = none := by
    apply ofText?_eq_none
    rw [String.toList_ofList, List.head?_cons]
    exact fun e => no_hash (Option.some.inj e)
  cases literal with
  | true => exact segment?_literal _
  | false =>
    simp only [Piece.segment?, Bool.false_eq_true, if_false, beq_iff_eq, no_param, no_marker,
      digits, sigil]

/-- The digits of a number that fits are read as a position. -/
theorem segment?_digits {n : Nat} (h : n < Natural.bound) :
    Piece.segment? { body := Natural.digits n } = some (.ordinal n) := by
  -- neither `@` nor `#` is a digit
  obtain ⟨c, cs, e⟩ := List.exists_cons_of_ne_nil (Natural.digits_ne_nil n)
  have digit : c.isDigit = true :=
    Natural.isDigit_of_mem_digits (e ▸ List.mem_cons_self)
  have no_param : String.ofList (Natural.digits n) ≠ arrayParamText := by
    intro eq
    have chars := congrArg String.toList eq
    rw [String.toList_ofList, e] at chars
    rw [(List.cons.inj chars).1] at digit
    cases digit
  have no_marker : Marker.ofText? (String.ofList (Natural.digits n)) = none := by
    apply ofText?_eq_none
    rw [String.toList_ofList, e, List.head?_cons]
    intro eq
    rw [Option.some.inj eq] at digit
    cases digit
  simp only [Piece.segment?, Bool.false_eq_true, if_false, beq_iff_eq, no_param, no_marker,
    Natural.isDigits_digits, if_true, Natural.ofDigits?_digits h, Option.map_some]

end Key

/-! ### Segments -/

namespace Segment

open Key

/-- What could be misread does not start with a separator. -/
theorem exists_cons_of_isAmbiguous {name : List Char} (h : isAmbiguous name = true) :
    ∃ c cs, name = c :: cs ∧ c ≠ '/' ∧ c ≠ '\\' := by
  cases name with
  | nil => cases h
  | cons c cs =>
    refine ⟨c, cs, rfl, ?_⟩
    rw [isAmbiguous, List.head?_cons, Option.any_some, Bool.or_eq_true] at h
    rcases h with sigil | digits
    · constructor <;> rintro rfl <;> cases sigil
    · have digit : c.isDigit = true := List.all_eq_true.1 digits c List.mem_cons_self
      constructor <;> rintro rfl <;> cases digit

/-- The text of a legible segment is one piece, and this stands for the segment. -/
theorem reads {s : Segment} (h : s.IsLegible) {rest : List Char} {others : List Piece}
    (behind : pieces? rest = some ({}, others)) :
    ∃ piece, pieces? (s.chars ++ rest) = some (piece, others) ∧ piece.segment? = some s := by
  cases s with
  | ordinal index =>
    refine ⟨_, pieces?_append (fun c mem => ?_) behind, segment?_digits h⟩
    have digit := Natural.isDigit_of_mem_digits mem
    constructor <;> rintro rfl <;> cases digit
  | name text =>
    have same : String.ofList text.toList = text := String.ofList_toList
    rw [chars]
    split
    · next ambiguous =>
      -- the escape in front hits the first character, as this is no separator
      obtain ⟨c, cs, e, slash, backslash⟩ := exists_cons_of_isAmbiguous ambiguous
      obtain ⟨literal, split⟩ := pieces?_escapeSeparators behind cs
      have front : escapeSeparators (c :: cs) = c :: escapeSeparators cs := by
        rw [escapeSeparators, List.flatMap_cons, if_neg (by simp [slash, backslash])]
        rfl
      refine ⟨{ body := c :: cs, literal := true }, ?_, ?_⟩
      · rw [e, front, List.cons_append, List.cons_append, pieces?_escape, split]
        rfl
      · rw [segment?_literal, ← e, same]
    · next clear =>
      obtain ⟨literal, split⟩ := pieces?_escapeSeparators behind text.toList
      refine ⟨_, split, ?_⟩
      rw [segment?_name (fun e => h (String.toList_eq_nil_iff.1 e)) (by simpa using clear), same]
  | arrayParam =>
    exact ⟨_, pieces?_append (by simp [chars, arrayParamText]) behind, rfl⟩
  | marker m =>
    -- no marker has separators or escapes in its text
    have plain : ∀ c ∈ m.text.toList, c ≠ '/' ∧ c ≠ '\\' := by
      cases m <;> simp [Marker.text]
    refine ⟨_, pieces?_append plain behind, ?_⟩
    cases m <;> rfl

end Segment

namespace Key

/-! ### Keys -/

/-- The text of a key that is not the root has a piece for each segment. -/
theorem pieces?_chars {s : Segment} {segments : List Segment}
    (h : ∀ t ∈ s :: segments, t.IsLegible) :
    ∃ first others, pieces? (Key.mk (s :: segments)).chars = some (first, others) ∧
      (first :: others).mapM Piece.segment? = some (s :: segments) := by
  induction segments generalizing s with
  | nil =>
    have behind : pieces? [] = some ({}, []) := rfl
    obtain ⟨piece, split, stands⟩ := Segment.reads (h s List.mem_cons_self) behind
    refine ⟨piece, [], ?_, ?_⟩
    · rw [← split, List.append_nil]
      exact congrArg pieces? (List.append_nil _)
    · simp [stands]
  | cons t segments ih =>
    obtain ⟨next, others, split, stand⟩ := ih fun u mem => h u (List.mem_cons_of_mem s mem)
    -- behind the first segment the text goes on with a separator and the text of the others
    have behind : pieces? ('/' :: (Key.mk (t :: segments)).chars) = some ({}, next :: others) := by
      rw [pieces?_separator, split]
      rfl
    obtain ⟨piece, split, stands⟩ := Segment.reads (h s List.mem_cons_self) behind
    refine ⟨piece, next :: others, ?_, ?_⟩
    · rw [← split, chars, List.map_cons, List.map_cons, List.intercalate_cons_cons,
        List.append_assoc, List.singleton_append]
      rfl
    · rw [List.mapM_cons, stands, stand]
      rfl

/-- A text that is not empty is split into pieces. -/
theorem ofChars?_of_ne_nil {cs : List Char} (h : cs ≠ []) :
    ofChars? cs = (pieces? cs).bind fun (first, others) =>
      ((first :: others).mapM Piece.segment?).map Key.mk := by
  rw [ofChars?]
  · cases pieces? cs with
    | none => rfl
    | some p =>
      show (do return Key.mk (← (p.1 :: p.2).mapM Piece.segment?)) = Option.map _ _
      cases (p.1 :: p.2).mapM Piece.segment? <;> rfl
  · exact h

/-- A legible key is read from its text. -/
theorem ofText_text {key : Key} (h : key.IsLegible) : ofText key.text = .ok key := by
  have read : ofChars? key.chars = some key := by
    obtain ⟨segments⟩ := key
    cases segments with
    | nil => rfl
    | cons s segments =>
      obtain ⟨first, others, split, stand⟩ := pieces?_chars h
      -- the only piece of the empty text stands for no segment
      have some_char : (Key.mk (s :: segments)).chars ≠ [] := by
        intro e
        rw [e] at split
        cases split
        cases stand
      rw [ofChars?_of_ne_nil some_char, split]
      show ((first :: others).mapM Piece.segment?).map Key.mk = _
      rw [stand]
      rfl
  rw [ofText, text, String.toList_ofList, read]

/-! ### What texts denote -/

/-- A piece whose first character was escaped has a first character. -/
theorem body_ne_nil_of_mem_pieces? {cs : List Char} {first : Piece} {others : List Piece}
    (h : pieces? cs = some (first, others)) {piece : Piece} (mem : piece ∈ first :: others)
    (literal : piece.literal = true) : piece.body ≠ [] := by
  -- only an escape makes a piece literal, and it adds a character to it
  induction cs using pieces?.induct generalizing first others with
  | case1 =>
    cases h
    obtain rfl := List.mem_singleton.1 mem
    cases literal
  | case2 => cases h
  | case3 c rest ih =>
    rw [pieces?_escape, Option.map_eq_some_iff] at h
    obtain ⟨⟨next, behind⟩, split, e⟩ := h
    cases e
    rcases List.mem_cons.1 mem with rfl | mem
    · exact List.cons_ne_nil _ _
    · exact ih split (List.mem_cons_of_mem _ mem)
  | case4 rest ih =>
    rw [pieces?_separator, Option.map_eq_some_iff] at h
    obtain ⟨⟨next, behind⟩, split, e⟩ := h
    cases e
    rcases List.mem_cons.1 mem with rfl | mem
    · cases literal
    · exact ih split mem
  | case5 c rest no_end no_escape slash ih =>
    have backslash : c ≠ '\\' := by
      rintro rfl
      cases rest with
      | nil => exact no_end rfl rfl
      | cons d rest => exact no_escape d rest rfl rfl
    rw [pieces?_plain slash backslash, Option.map_eq_some_iff] at h
    obtain ⟨⟨next, behind⟩, split, e⟩ := h
    cases e
    rcases List.mem_cons.1 mem with rfl | mem
    · cases literal
    · exact ih split (List.mem_cons_of_mem _ mem)

/-- A piece stands for legible segments only. -/
theorem isLegible_of_segment? {piece : Piece} {s : Segment} (h : piece.segment? = some s)
    (some_char : piece.literal = true → piece.body ≠ []) : s.IsLegible := by
  have named {c : Char} {cs : List Char} : String.ofList (c :: cs) ≠ "" := by
    intro e
    have chars := congrArg String.toList e
    rw [String.toList_ofList] at chars
    cases chars
  rw [Piece.segment?] at h
  split at h
  · next literal =>
    obtain ⟨c, cs, e⟩ := List.exists_cons_of_ne_nil (some_char literal)
    obtain rfl := Option.some.inj h
    rw [e]
    exact named
  split at h
  · obtain rfl := Option.some.inj h
    trivial
  split at h
  · obtain rfl := Option.some.inj h
    trivial
  split at h
  · obtain ⟨n, digits, rfl⟩ := Option.map_eq_some_iff.1 h
    exact Natural.lt_bound_of_ofDigits? digits
  split at h
  · cases h
  · next c cs e =>
    split at h
    · cases h
    · obtain rfl := Option.some.inj h
      rw [e]
      exact named

/-- Texts denote legible keys only. -/
theorem isLegible_of_ofText {text : String} {key : Key} (h : ofText text = .ok key) :
    key.IsLegible := by
  rw [ofText] at h
  split at h
  · next key' read =>
    obtain rfl := Except.ok.inj h
    by_cases some_char : text.toList = []
    · rw [some_char] at read
      cases read
      exact fun s mem => absurd mem List.not_mem_nil
    · rw [ofChars?_of_ne_nil some_char, Option.bind_eq_some_iff] at read
      obtain ⟨⟨first, others⟩, split, read⟩ := read
      obtain ⟨segments, stand, rfl⟩ := Option.map_eq_some_iff.1 read
      intro s mem
      obtain ⟨piece, among, stands⟩ := exists_of_mem_mapM stand mem
      exact isLegible_of_segment? stands (body_ne_nil_of_mem_pieces? split among)
  · cases h

/-- Legible keys are told apart by their texts. -/
theorem text_injective {a b : Key} (ha : a.IsLegible) (hb : b.IsLegible) (h : a.text = b.text) :
    a = b := by
  have read := ofText_text ha
  rw [h, ofText_text hb] at read
  exact (Except.ok.inj read).symm

/-- **The text form of keys loses nothing.**  A key is read from its own text exactly if it is
legible, so that no two legible keys have the same text.  Every text that denotes a key denotes a
legible one, so that the text that is written for this key denotes it, too. -/
theorem text_lossless :
    (∀ key : Key, ofText key.text = .ok key ↔ key.IsLegible) ∧
      (∀ a b : Key, a.IsLegible → b.IsLegible → a.text = b.text → a = b) ∧
      ∀ (text : String) (key : Key), ofText text = .ok key →
        key.IsLegible ∧ ofText key.text = .ok key := by
  refine ⟨fun key => ⟨isLegible_of_ofText, ofText_text⟩, fun a b => text_injective, ?_⟩
  intro text key h
  have legible := isLegible_of_ofText h
  exact ⟨legible, ofText_text legible⟩

/-! ### A misleading key -/

/-- A key with names that look like other segments. -/
def misleading : Key where
  segments := [.ordinal 18446744073709551615, .name "42", .name "#enabled", .name "/a\\/",
    .name "@param", .arrayParam, .name "#", .marker .count]

/-- The text of `misleading`, and a text that is not written for the key that it denotes. -/
theorem text_lossless_misleading :
    misleading.text =
        "18446744073709551615/\\42/\\#enabled/\\/a\\\\\\//\\@param/@param/\\#/#count" ∧
      ofText misleading.text = .ok misleading ∧
      (∀ b : Key, b.IsLegible → misleading.text = b.text → misleading = b) ∧
      ∃ key, ofText "007/\\x" = .ok key ∧ key.text = "7/x" ∧ key.IsLegible ∧
        ofText key.text = .ok key := by
  have legible : misleading.IsLegible := by decide
  refine ⟨by decide +kernel, (text_lossless.1 misleading).2 legible,
    fun b => text_lossless.2.1 misleading b legible, ?_⟩
  have read : ofText "007/\\x" = .ok ⟨[.ordinal 7, .name "x"]⟩ := rfl
  obtain ⟨key_legible, again⟩ := text_lossless.2.2 _ _ read
  exact ⟨_, read, by decide +kernel, key_legible, again⟩

end Key

end CommandGraph
