/-
CommandGraph/Proofs/Text/Lines.lean

Lines of a text, and its pieces between newlines.

A text is indented line by line, and its lines leave out more of it than the newlines between
its pieces: a carriage return in front of a newline, and an empty piece at the end.  What is left
of the pieces (`Lines.kept`) are the pieces of the text that is put together from its lines, and
each of them is indented by itself (`Lines.pieces_indent`).  So indenting leaves the pieces as they
are exactly if there is no carriage return in front of a newline, nor a newline at the end
(`Lines.pieces_indent_eq_iff`).

Pieces that stand within a text one after the other, as whole lines, stand between newlines
(`Lines.block`).  If no carriage return ends any of them, nor do they end with an empty one, then
indenting the text indents each of them and loses none (`Lines.Steady.block_indent`).
-/
import CommandGraph.Render.Text
import Mathlib.Data.List.Basic

namespace CommandGraph.Lines

/-- The pieces of a text between its newlines. -/
def pieces (cs : List Char) : List (List Char) :=
  cs.splitOn '\n'

/-- A piece without a carriage return at its end. -/
def dropReturn (piece : List Char) : List Char :=
  if piece.getLast? = some '\r' then piece.dropLast else piece

/-- What the lines of a text leave of its pieces: all but the last one lose a carriage return at
their end, and an empty last one is left out if there are others. -/
def kept : List (List Char) → List (List Char)
  | [] => []
  | [last] => [last]
  | [piece, []] => [dropReturn piece]
  | piece :: pieces => dropReturn piece :: kept pieces

/-- Whether no carriage return stands in front of a newline and no newline at the end. -/
def IsPlain (cs : List Char) : Prop :=
  ¬ ['\r', '\n'] <:+: cs ∧ cs.getLast? ≠ some '\n'

instance (cs : List Char) : Decidable (IsPlain cs) :=
  inferInstanceAs (Decidable (_ ∧ _))

variable {c : Char} {cs i : List Char}

/-! ### Pieces -/

theorem pieces_ne_nil (cs : List Char) : pieces cs ≠ [] :=
  List.splitOn_ne_nil '\n' cs

theorem intercalate_pieces (cs : List Char) : ['\n'].intercalate (pieces cs) = cs :=
  List.intercalate_splitOn '\n'

theorem pieces_newline (cs : List Char) : pieces ('\n' :: cs) = [] :: pieces cs :=
  List.splitOn_append_cons_self [] cs

theorem pieces_cons (ne : c ≠ '\n') {piece : List Char} {rest : List (List Char)}
    (h : pieces cs = piece :: rest) : pieces (c :: cs) = (c :: piece) :: rest := by
  rw [pieces, List.splitOn_cons_eq_if_modifyHead, if_neg (by simpa using ne), ← pieces, h,
    List.modifyHead_cons]

theorem pieces_eq_singleton_nil : pieces cs = [[]] ↔ cs = [] := by
  constructor
  · intro h
    rw [← intercalate_pieces cs, h]
    rfl
  · rintro rfl
    rfl

/-- Where the first of several pieces is empty, a newline stands in front. -/
theorem exists_newline_of_pieces (more : cs ≠ []) {rest : List (List Char)}
    (h : pieces cs = [] :: rest) : ∃ behind, cs = '\n' :: behind := by
  cases cs with
  | nil => exact absurd rfl more
  | cons c cs =>
    by_cases newline : c = '\n'
    · exact ⟨cs, newline ▸ rfl⟩
    · obtain ⟨first, others, e⟩ := List.exists_cons_of_ne_nil (pieces_ne_nil cs)
      rw [pieces_cons newline e] at h
      cases h

/-- No newline stands in a piece. -/
theorem newline_not_mem_of_mem_pieces {piece : List Char} (mem : piece ∈ pieces cs) :
    '\n' ∉ piece := by
  induction cs generalizing piece with
  | nil =>
    rw [List.mem_singleton.1 mem]
    exact List.not_mem_nil
  | cons c cs ih =>
    rcases Decidable.em (c = '\n') with rfl | ne
    · rw [pieces_newline] at mem
      rcases List.mem_cons.1 mem with rfl | mem
      · exact List.not_mem_nil
      · exact ih mem
    · obtain ⟨first, rest, h⟩ := List.exists_cons_of_ne_nil (pieces_ne_nil cs)
      rw [h] at ih
      rw [pieces_cons ne h] at mem
      rcases List.mem_cons.1 mem with rfl | mem
      · exact List.not_mem_cons_of_ne_of_not_mem (Ne.symm ne) (ih List.mem_cons_self)
      · exact ih (List.mem_cons_of_mem _ mem)

/-! ### Lines -/

/-- A piece in front of others loses its carriage return. -/
theorem kept_cons {piece : List Char} {rest : List (List Char)} (more : rest ≠ [])
    (ne : rest ≠ [[]]) : kept (piece :: rest) = dropReturn piece :: kept rest := by
  cases rest with
  | nil => exact absurd rfl more
  | cons next rest =>
    rw [kept]
    · exact more
    · intro e
      exact ne e

theorem dropReturn_nil : dropReturn [] = [] :=
  rfl

/-- A character in front of a piece stays, unless it is a carriage return by itself. -/
theorem dropReturn_cons {piece : List Char} (h : piece ≠ [] ∨ c ≠ '\r') :
    dropReturn (c :: piece) = c :: dropReturn piece := by
  cases piece with
  | nil =>
    have ne := h.resolve_left (fun h => h rfl)
    rw [dropReturn, if_neg (by simpa using ne)]
    rfl
  | cons d piece =>
    rw [dropReturn, dropReturn, List.getLast?_cons_cons]
    split <;> rfl

theorem dropReturn_eq_self {piece : List Char} (h : piece.getLast? ≠ some '\r') :
    dropReturn piece = piece :=
  if_neg h

theorem ofChars_eq_nil : ofChars cs = [] ↔ cs = [] := by
  fun_induction ofChars cs <;> simp

/-- A character in front of the pieces of a text stands in front of its first line, unless it is a
carriage return that belongs to a newline. -/
theorem kept_push {piece line : List Char} {rest lines : List (List Char)}
    (h : kept (piece :: rest) = line :: lines) (inside : piece ≠ [] ∨ c ≠ '\r') :
    kept ((c :: piece) :: rest) = (c :: line) :: lines := by
  by_cases single : rest = []
  · subst single
    obtain ⟨rfl, rfl⟩ := List.cons.inj h
    rfl
  by_cases ended : rest = [[]]
  · subst ended
    obtain ⟨rfl, rfl⟩ := List.cons.inj h
    exact congrArg (· :: []) (dropReturn_cons inside)
  · rw [kept_cons single ended] at h ⊢
    obtain ⟨rfl, rfl⟩ := List.cons.inj h
    rw [dropReturn_cons inside]

/-- The lines of a text are what is left of its pieces. -/
theorem ofChars_eq (ne : cs ≠ []) : ofChars cs = kept (pieces cs) := by
  -- a piece that is no line by itself is kept in front of the lines of what follows it
  have front {cs : List Char} (piece : List Char) (ih : cs ≠ [] → ofChars cs = kept (pieces cs)) :
      kept (piece :: pieces cs) = dropReturn piece :: ofChars cs := by
    by_cases last : cs = []
    · rw [last]
      rfl
    · rw [kept_cons (pieces_ne_nil cs) (fun h => last (pieces_eq_singleton_nil.1 h)), ih last]
  fun_induction ofChars cs with
  | case1 => exact absurd rfl ne
  | case2 cs ih => rw [pieces_newline, front [] ih, dropReturn_nil]
  | case3 cs ih =>
    rw [pieces_cons (by decide) (pieces_newline cs), front ['\r'] ih]
    rfl
  | case4 c cs ne_newline _ none_left _ =>
    obtain rfl := ofChars_eq_nil.1 none_left
    rw [pieces_cons ne_newline rfl]
    rfl
  | case5 c cs ne_newline no_ending line lines found ih =>
    have more : cs ≠ [] := by
      rintro rfl
      cases found
    obtain ⟨piece, pieces_left, h⟩ := List.exists_cons_of_ne_nil (pieces_ne_nil cs)
    rw [pieces_cons ne_newline h, kept_push (found.symm.trans (h ▸ ih more)).symm]
    -- an empty piece in front is that of a newline, which no carriage return precedes here
    by_cases empty : piece = []
    · obtain ⟨rest, e⟩ := exists_newline_of_pieces more (empty ▸ h)
      exact .inr fun return_ => no_ending rest return_ e
    · exact .inl empty

/-- No newline stands in a line. -/
theorem newline_not_mem_of_mem_ofChars {line : List Char} (mem : line ∈ ofChars cs) :
    '\n' ∉ line := by
  fun_induction ofChars cs generalizing line with
  | case1 => cases mem
  | case2 cs ih | case3 cs ih =>
    rcases List.mem_cons.1 mem with rfl | mem
    · exact List.not_mem_nil
    · exact ih mem
  | case4 c cs ne_newline =>
    rw [List.mem_singleton.1 mem]
    exact List.not_mem_cons_of_ne_of_not_mem (Ne.symm ne_newline) List.not_mem_nil
  | case5 c cs ne_newline _ first lines found ih =>
    rw [found] at ih
    rcases List.mem_cons.1 mem with rfl | mem
    · exact List.not_mem_cons_of_ne_of_not_mem (Ne.symm ne_newline) (ih List.mem_cons_self)
    · exact ih (List.mem_cons_of_mem _ mem)

/-! ### Indenting -/

theorem newline_not_mem_indentLine (unbroken : '\n' ∉ i) {line : List Char} (h : '\n' ∉ line) :
    '\n' ∉ indentLine i line := by
  rw [indentLine]
  split
  · exact List.not_mem_nil
  · exact List.not_mem_append unbroken h

theorem indentLine_of_ne_nil {line : List Char} (ne : line ≠ []) : indentLine i line = i ++ line :=
  if_neg (by simpa using ne)

theorem indentLine_eq_nil {line : List Char} : indentLine i line = [] ↔ line = [] := by
  by_cases empty : line = []
  · simp [empty, indentLine]
  · rw [indentLine_of_ne_nil empty, List.append_eq_nil_iff, and_iff_right_iff_imp]
    exact fun h => absurd h empty

theorem indentLine_nil (line : List Char) : indentLine [] line = line := by
  rw [indentLine]
  split
  · next empty => exact (List.isEmpty_iff.1 empty).symm
  · rfl

theorem indentLine_indentLine (i j line : List Char) :
    indentLine i (indentLine j line) = indentLine (i ++ j) line := by
  by_cases empty : line = []
  · rw [empty]
    rfl
  · have ne : j ++ line ≠ [] := fun h => empty (List.append_eq_nil_iff.1 h).2
    rw [indentLine_of_ne_nil empty, indentLine_of_ne_nil ne, indentLine_of_ne_nil empty,
      List.append_assoc]

theorem indentLine_injective (i : List Char) : Function.Injective (indentLine i) := by
  intro line other h
  by_cases empty : line = []
  · rw [empty] at h ⊢
    exact (indentLine_eq_nil.1 h.symm).symm
  · have other_ne : other ≠ [] := fun e =>
      empty (indentLine_eq_nil.1 (h.trans (indentLine_eq_nil.2 e)))
    rw [indentLine_of_ne_nil empty, indentLine_of_ne_nil other_ne] at h
    exact List.append_cancel_left h

/-- Each piece is indented by itself, as far as it is kept. -/
theorem pieces_indent (unbroken : '\n' ∉ i) (cs : List Char) :
    pieces (indent i cs) = (kept (pieces cs)).map (indentLine i) := by
  by_cases empty : cs = []
  · rw [empty]
    rfl
  · rw [indent, ← ofChars_eq empty]
    refine List.splitOn_intercalate '\n' (fun line mem => ?_) ?_
    · obtain ⟨original, inside, rfl⟩ := List.mem_map.1 mem
      exact newline_not_mem_indentLine unbroken (newline_not_mem_of_mem_ofChars inside)
    · exact fun h => empty (ofChars_eq_nil.1 (List.map_eq_nil_iff.1 h))

/-- A character in front of a text matters for its line endings only in front of a newline. -/
theorem isPlain_cons (more : cs ≠ [])
    (no_ending : ∀ rest, c = '\r' → cs = '\n' :: rest → False) :
    IsPlain (c :: cs) ↔ IsPlain cs := by
  obtain ⟨next, rest, rfl⟩ := List.exists_cons_of_ne_nil more
  have no_prefix : ¬ ['\r', '\n'] <+: c :: next :: rest := by
    rw [List.cons_prefix_cons, List.cons_prefix_cons]
    rintro ⟨rfl, rfl, -⟩
    exact no_ending rest rfl rfl
  rw [IsPlain, IsPlain, List.infix_cons_iff, or_iff_right no_prefix, List.getLast?_cons_cons]

/-- Which texts are put together again from their lines. -/
theorem intercalate_ofChars_eq_iff : ['\n'].intercalate (ofChars cs) = cs ↔ IsPlain cs := by
  fun_induction ofChars cs with
  | case1 => decide
  | case2 cs ih =>
    by_cases last : cs = []
    · rw [last]
      decide
    · rw [List.intercalate_cons_of_ne_nil (mt ofChars_eq_nil.1 last),
        isPlain_cons last (by simp), ← ih]
      exact List.cons_inj_right '\n'
  | case3 cs ih =>
    -- a carriage return in front of a newline is lost
    refine iff_of_false (fun h => ?_) fun plain => plain.1 ⟨[], cs, rfl⟩
    by_cases last : cs = []
    · rw [last] at h
      cases h
    · rw [List.intercalate_cons_of_ne_nil (mt ofChars_eq_nil.1 last)] at h
      cases h
  | case4 c cs ne_newline _ none_left _ =>
    -- a last character that is no newline is a line
    obtain rfl := ofChars_eq_nil.1 none_left
    refine iff_of_true rfl ⟨fun h => ?_, fun h => ne_newline (Option.some.inj h)⟩
    exact absurd h.length_le (by simp)
  | case5 c cs ne_newline no_ending line lines found ih =>
    have more : cs ≠ [] := by
      rintro rfl
      cases found
    rw [isPlain_cons more no_ending, ← ih, found]
    cases lines with
    | nil => exact List.cons_inj_right c
    | cons next lines =>
      rw [List.intercalate_cons_cons, List.intercalate_cons_cons]
      exact List.cons_inj_right c

/-- Indenting leaves the pieces of a text as they are exactly if no carriage return stands in front
of a newline and no newline at the end. -/
theorem pieces_indent_eq_iff (unbroken : '\n' ∉ i) :
    pieces (indent i cs) = (pieces cs).map (indentLine i) ↔ IsPlain cs := by
  have rejoined : pieces (['\n'].intercalate (ofChars cs)) = kept (pieces cs) := by
    have pieces_eq := pieces_indent (i := []) List.not_mem_nil cs
    rwa [indent, show indentLine [] = id from funext indentLine_nil, List.map_id, List.map_id]
      at pieces_eq
  have pieces_injective : Function.Injective pieces :=
    Function.LeftInverse.injective intercalate_pieces
  have map_injective : Function.Injective (List.map (indentLine i)) :=
    List.map_injective_iff.2 (indentLine_injective i)
  rw [pieces_indent unbroken, map_injective.eq_iff, ← rejoined, pieces_injective.eq_iff,
    intercalate_ofChars_eq_iff]

/-! ### Whole lines within a text -/

/-- Lines between newlines. -/
def block (lines : List (List Char)) : List Char :=
  '\n' :: lines.flatMap (· ++ ['\n'])

/-- Whether lines are left as they are where they stand in a text: no carriage return ends one of
them, and they do not end with an empty one. -/
structure Steady (lines : List (List Char)) : Prop where
  ne_nil : lines ≠ []
  whole : ∀ line ∈ lines, '\n' ∉ line
  no_return : ∀ line ∈ lines, line.getLast? ≠ some '\r'
  last_ne : lines.getLast? ≠ some []

/-- Lines that are indented once for each of the braces that they stand in. -/
def nested (i : List Char) (depth : Nat) (lines : List (List Char)) : List (List Char) :=
  lines.map (indentLine (List.replicate depth i).flatten)

section

variable {lines others : List (List Char)}

theorem nested_zero (i : List Char) (lines : List (List Char)) : nested i 0 lines = lines := by
  rw [nested, List.replicate_zero, List.flatten_nil, show indentLine [] = id from
    funext indentLine_nil, List.map_id]

/-- Lines in braces within braces are indented for all of them. -/
theorem nested_nested (i : List Char) (outer inner : Nat) (lines : List (List Char)) :
    nested i outer (nested i inner lines) = nested i (outer + inner) lines := by
  rw [nested, nested, nested, List.map_map, List.replicate_add, List.flatten_append]
  exact List.map_congr_left fun line _ => indentLine_indentLine _ _ line

theorem nested_one (i : List Char) (lines : List (List Char)) :
    nested i 1 lines = lines.map (indentLine i) := by
  rw [nested, List.replicate_one, List.flatten_singleton]

/-- Blocks that follow each other share the newline between them. -/
theorem block_append (lines others : List (List Char)) :
    block (lines ++ others) = block lines ++ others.flatMap (· ++ ['\n']) := by
  rw [block, block, List.flatMap_append, List.cons_append]

/-- A block ends with a newline, which is where the next one may start. -/
theorem exists_block_eq (lines : List (List Char)) : ∃ before, block lines = before ++ ['\n'] := by
  rcases List.eq_nil_or_concat lines with rfl | ⟨front, last, rfl⟩
  · exact ⟨[], rfl⟩
  · refine ⟨block front ++ last, ?_⟩
    rw [List.concat_eq_append, block_append, List.flatMap_singleton, List.append_assoc]

theorem block_infix (h : lines <:+: others) : block lines <:+: block others := by
  obtain ⟨above, below, rfl⟩ := h
  obtain ⟨before, e⟩ := exists_block_eq above
  refine ⟨before, below.flatMap (· ++ ['\n']), ?_⟩
  rw [block_append, block_append, e, block]
  simp only [List.append_assoc, List.cons_append, List.nil_append]

theorem block_infix_of_mem {line : List Char} (mem : line ∈ lines) :
    block [line] <:+: block lines := by
  obtain ⟨above, below, rfl⟩ := List.append_of_mem mem
  exact block_infix ⟨above, below, List.append_assoc _ _ _⟩

/-- Lines with a newline behind each are the text of the lines with a newline at its end. -/
theorem flatMap_ended (ne : lines ≠ []) :
    lines.flatMap (· ++ ['\n']) = ['\n'].intercalate lines ++ ['\n'] := by
  induction lines with
  | nil => exact absurd rfl ne
  | cons line lines ih =>
    by_cases last : lines = []
    · rw [last, List.flatMap_singleton, List.intercalate_singleton]
    · rw [List.flatMap_cons, ih last, List.intercalate_cons_of_ne_nil last, List.append_assoc,
        List.append_assoc, List.append_assoc]

/-! ### Blocks of texts -/

/-- Lines stand between newlines just as the text that is put together from them. -/
theorem block_intercalate (ne : lines ≠ []) : block [['\n'].intercalate lines] = block lines := by
  rw [block, block, List.flatMap_singleton, flatMap_ended ne]

/-- Lines stand in the text that is put together from them. -/
theorem block_infix_intercalate (lines : List (List Char)) :
    block lines <:+: block [['\n'].intercalate lines] := by
  by_cases none_left : lines = []
  · rw [none_left]
    decide
  · exact (block_intercalate none_left).symm ▸ List.infix_refl _

theorem block_pieces (cs : List Char) : block (pieces cs) = block [cs] := by
  rw [← block_intercalate (pieces_ne_nil cs), intercalate_pieces]

theorem infix_block_singleton (cs : List Char) : cs <:+: block [cs] :=
  ⟨['\n'], ['\n'], by rw [block, List.flatMap_singleton, List.singleton_append, List.cons_append]⟩

/-- Each of several texts stands in what is put together from them. -/
theorem infix_intercalate {texts : List (List Char)} (mem : cs ∈ texts) (separator : List Char) :
    cs <:+: separator.intercalate texts := by
  induction texts with
  | nil => cases mem
  | cons text texts ih =>
    by_cases last : texts = []
    · obtain rfl := List.mem_singleton.1 (last ▸ mem)
      rw [last]
      exact List.intercalate_singleton.symm ▸ List.infix_refl _
    rw [List.intercalate_cons_of_ne_nil last, List.append_assoc]
    rcases List.mem_cons.1 mem with rfl | mem
    · exact List.infix_append_of_infix_left (List.infix_refl _)
    · exact List.infix_append_of_infix_right (List.infix_append_of_infix_right (ih mem))

/-- Texts with empty lines between them stand between newlines each. -/
theorem block_infix_paragraphs {texts : List (List Char)} (mem : cs ∈ texts) :
    block [cs] <:+: block [['\n', '\n'].intercalate texts] := by
  induction texts with
  | nil => cases mem
  | cons text texts ih =>
    by_cases last : texts = []
    · obtain rfl := List.mem_singleton.1 (last ▸ mem)
      rw [last]
      exact List.intercalate_singleton.symm ▸ List.infix_refl _
    -- of the two newlines, one ends what is above it and the other starts what is below
    have parts : block [['\n', '\n'].intercalate (text :: texts)] =
        block [text] ++ block [['\n', '\n'].intercalate texts] := by
      rw [List.intercalate_cons_of_ne_nil last]
      simp only [block, List.flatMap_singleton, List.append_assoc, List.cons_append,
        List.nil_append]
    rw [parts]
    rcases List.mem_cons.1 mem with rfl | mem
    · exact List.infix_append_of_infix_left (List.infix_refl _)
    · exact List.infix_append_of_infix_right (ih mem)

/-- Whole lines in front of a text are its first pieces. -/
theorem pieces_flatMap_append (whole : ∀ line ∈ lines, '\n' ∉ line) (cs : List Char) :
    pieces (lines.flatMap (· ++ ['\n']) ++ cs) = lines ++ pieces cs := by
  induction lines with
  | nil => rfl
  | cons line lines ih =>
    have behind := ih fun other mem => whole other (List.mem_cons_of_mem _ mem)
    rw [List.flatMap_cons, List.append_assoc, List.append_assoc, List.singleton_append, pieces,
      List.splitOn_append_cons_self_of_not_mem (whole line List.mem_cons_self), ← pieces, behind,
      List.cons_append]

/-- Lines that stand between newlines are pieces. -/
theorem infix_pieces_of_block (whole : ∀ line ∈ lines, '\n' ∉ line)
    (h : block lines <:+: block [cs]) : lines <:+: pieces cs := by
  obtain ⟨before, behind, e⟩ := h
  have outer : pieces (block [cs]) = [] :: (pieces cs ++ [[]]) := by
    rw [block, List.flatMap_singleton, pieces_newline]
    exact congrArg ([] :: ·) (List.splitOn_append_cons_self cs [])
  have inner : pieces (before ++ block lines ++ behind) =
      pieces before ++ (lines ++ pieces behind) := by
    rw [block, List.append_assoc, List.cons_append, ← pieces_flatMap_append whole]
    exact List.splitOn_append_cons_self before _
  rw [e, outer] at inner
  -- the first and the last piece are what stands outside of the newlines around the text
  obtain ⟨first, above, e_before⟩ := List.exists_cons_of_ne_nil (pieces_ne_nil before)
  obtain ⟨below, last, e_behind⟩ := (List.eq_nil_or_concat (pieces behind)).resolve_left
    (pieces_ne_nil behind)
  rw [e_before, e_behind, List.concat_eq_append, List.cons_append, ← List.append_assoc,
    ← List.append_assoc] at inner
  have middle := (List.append_inj' (List.cons.inj inner).2 rfl).1
  exact ⟨above, below, middle.symm⟩

namespace Steady

/-! ### Steady lines -/

theorem exists_ne_nil (h : Steady lines) : ∃ line ∈ lines, line ≠ [] := by
  refine ⟨lines.getLast h.ne_nil, List.getLast_mem h.ne_nil, fun empty => h.last_ne ?_⟩
  rw [List.getLast?_eq_some_getLast h.ne_nil, empty]

theorem ne_singleton_nil (h : Steady lines) (inside : lines ⊆ others) : others ≠ [[]] := by
  rintro rfl
  obtain ⟨line, mem, ne⟩ := h.exists_ne_nil
  exact ne (List.mem_singleton.1 (inside mem))

theorem tail {line next : List Char} (h : Steady (line :: next :: lines)) :
    Steady (next :: lines) where
  ne_nil := List.cons_ne_nil _ _
  whole other mem := h.whole other (List.mem_cons_of_mem _ mem)
  no_return other mem := h.no_return other (List.mem_cons_of_mem _ mem)
  last_ne := by
    have last_ne := h.last_ne
    rwa [List.getLast?_cons_cons] at last_ne

/-- Steady lines in front of others are kept. -/
theorem prefix_kept (h : Steady lines) (below : List (List Char)) :
    lines <+: kept (lines ++ below) := by
  induction lines with
  | nil => exact absurd rfl h.ne_nil
  | cons line lines ih =>
    have same : dropReturn line = line := dropReturn_eq_self (h.no_return line List.mem_cons_self)
    cases lines with
    | nil =>
      -- behind the last of the lines nothing may follow, or an empty piece, or more
      by_cases single : below = []
      · rw [single]
        exact List.prefix_refl _
      by_cases ended : below = [[]]
      · rw [ended]
        exact ⟨[], congrArg (· :: []) same.symm⟩
      · rw [List.singleton_append, kept_cons single ended, same]
        exact List.prefix_append [line] _
    | cons next lines =>
      have ne := h.tail.ne_singleton_nil (List.subset_append_left (next :: lines) below)
      have more : next :: lines ++ below ≠ [] := List.cons_ne_nil _ _
      rw [List.cons_append, kept_cons more ne, same]
      exact List.cons_prefix_cons.2 ⟨rfl, ih h.tail⟩

/-- Lines within a text are kept if they are left as they are. -/
theorem infix_kept (h : Steady lines) (inside : lines <:+: others) : lines <:+: kept others := by
  obtain ⟨above, below, rfl⟩ := inside
  rw [List.append_assoc]
  induction above with
  | nil => exact (h.prefix_kept below).isInfix
  | cons piece above ih =>
    have mem : lines ⊆ above ++ (lines ++ below) :=
      List.subset_append_of_subset_right _ (List.subset_append_left _ _)
    have more : above ++ (lines ++ below) ≠ [] := by
      intro e
      exact h.ne_nil (List.subset_nil.1 (e ▸ mem))
    rw [List.cons_append, kept_cons more (h.ne_singleton_nil mem)]
    exact List.infix_cons ih

/-- Steady lines stay steady when they are indented. -/
theorem map_indentLine (h : Steady lines) (unbroken : '\n' ∉ i) :
    Steady (lines.map (indentLine i)) where
  ne_nil := mt List.map_eq_nil_iff.1 h.ne_nil
  whole line mem := by
    obtain ⟨original, inside, rfl⟩ := List.mem_map.1 mem
    exact newline_not_mem_indentLine unbroken (h.whole original inside)
  no_return line mem := by
    obtain ⟨original, inside, rfl⟩ := List.mem_map.1 mem
    by_cases empty : original = []
    · rw [indentLine_eq_nil.2 empty]
      decide
    · rw [indentLine_of_ne_nil empty, List.getLast?_append_of_ne_nil i empty]
      exact h.no_return original inside
  last_ne := by
    rw [List.getLast?_map]
    intro e
    obtain ⟨last, found, empty⟩ := Option.map_eq_some_iff.1 e
    exact h.last_ne (indentLine_eq_nil.1 empty ▸ found)

theorem nested (h : Steady lines) (unbroken : '\n' ∉ i) (depth : Nat) :
    Steady (nested i depth lines) := by
  refine h.map_indentLine fun mem => ?_
  obtain ⟨copy, repeated, mem⟩ := List.mem_flatten.1 mem
  exact unbroken (List.eq_of_mem_replicate repeated ▸ mem)

/-- Lines that stand in a text stand in the indented text, each indented by itself. -/
theorem block_indent (h : Steady lines) (unbroken : '\n' ∉ i)
    (inside : block lines <:+: block [cs]) :
    block (Lines.nested i 1 lines) <:+: block [indent i cs] := by
  have kept_lines := h.infix_kept (infix_pieces_of_block h.whole inside)
  rw [nested_one, ← block_pieces, pieces_indent unbroken]
  exact block_infix (kept_lines.map _)

theorem ne_nil_of_block (h : Steady lines) (inside : block lines <:+: block [cs]) : cs ≠ [] := by
  rintro rfl
  exact h.ne_singleton_nil (infix_pieces_of_block h.whole inside).subset rfl

end Steady

/-- The pieces of a text are left as they are if no carriage return stands in front of a newline or
at the end, and no newline at the end. -/
theorem steady_pieces (plain : IsPlain cs) (ne : cs ≠ []) (no_return : cs.getLast? ≠ some '\r') :
    Steady (pieces cs) := by
  -- with a newline at the end, all pieces are followed by one
  have ended : (pieces cs).flatMap (· ++ ['\n']) = cs ++ ['\n'] := by
    rw [flatMap_ended (pieces_ne_nil cs), intercalate_pieces]
  refine ⟨pieces_ne_nil cs, fun _ => newline_not_mem_of_mem_pieces, fun piece mem returns => ?_,
    fun empty => ?_⟩
  · obtain ⟨front, rfl⟩ := List.getLast?_eq_some_iff.1 returns
    obtain ⟨above, below, e⟩ := List.append_of_mem mem
    have returned : ['\r', '\n'] <:+: cs ++ ['\n'] := by
      refine ⟨above.flatMap (· ++ ['\n']) ++ front, below.flatMap (· ++ ['\n']), ?_⟩
      rw [← ended, e, List.flatMap_append, List.flatMap_cons]
      simp only [List.append_assoc, List.cons_append, List.nil_append]
    -- the carriage return stands at the end of the text, or in front of a newline within it
    rcases List.infix_concat_iff.1 returned with ⟨before, at_end⟩ | inside
    · rw [List.append_cons before, List.append_left_inj] at at_end
      rw [← at_end, List.getLast?_concat] at no_return
      exact no_return rfl
    · exact plain.1 inside
  · obtain ⟨front, e⟩ := List.getLast?_eq_some_iff.1 empty
    rw [e, List.flatMap_append, List.flatMap_singleton, List.nil_append,
      List.append_left_inj] at ended
    obtain ⟨before, at_end⟩ := exists_block_eq front
    rw [block, ended] at at_end
    have last := List.getLast?_concat (l := before) (a := '\n')
    rw [← at_end, List.getLast?_cons_of_ne_nil ne] at last
    exact plain.2 last

end

end CommandGraph.Lines
