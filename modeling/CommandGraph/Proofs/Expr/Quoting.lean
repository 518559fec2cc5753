/-
CommandGraph/Proofs/Expr/Quoting.lean

Texts in quotes, written and read back.

The reader of expressions knows escapes for newlines and tabs; of any other escape it drops the
backslash (`Lexeme.unescape`), which is what quotes and backslashes need.  Two writers put texts in
quotes.

* Arguments of statements (`Render.quote`) are written with escapes that are known.  An argument is
  one text token whatever it holds, and what follows it is read as it would be on its own
  (`Lexeme.ofText_quote_append`): a token depends on its position in nothing else
  (`Lexeme.ofChars_add`).
* Literals of expressions (`Quoted.chars`) are written for people, with more escapes than these.  A
  literal is one text token as well, but characters whose escape is not known come back as what
  stands behind the backslash (`Lexeme.ofText_display_text`).
-/
import CommandGraph.Proofs.Expr.Lexing
import CommandGraph.Render.Text

namespace CommandGraph

/-! ### Positions -/

/-- An error of a text that stands further to the right. -/
def ScriptError.moved (k : Nat) : ScriptError → ScriptError
  | malformed position fault => malformed (position + k) fault
  | error => error

namespace Lexeme

/-- A token of a text that stands further to the right. -/
def moved (k : Nat) (l : Lexeme) : Lexeme :=
  { l with position := l.position + k }

/-- A text in quotes is read alike further to the right. -/
theorem scanText_add (quote : Char) (start position : Nat) (cs : List Char) (k : Nat) :
    scanText quote (start + k) (position + k) cs =
      (scanText quote start position cs).mapError (ScriptError.moved k) := by
  fun_induction scanText quote start position cs with
  | case1 => rfl
  | case2 => rfl
  | case3 position c rest ih =>
    rw [scanText, Nat.add_right_comm, ih]
    cases scanText quote start (position + 2) rest <;> rfl
  | case4 position c rest ends escapes closing =>
    rw [scanText, if_pos closing]
    · rfl
    -- the equation is one of characters that neither end the text nor escape another
    · exact ends
    · exact escapes
  | case5 position c rest ends escapes other ih =>
    rw [scanText, if_neg other, Nat.add_right_comm, ih]
    · cases scanText quote start (position + 1) rest <;> rfl
    · exact ends
    · exact escapes

/-- A token is read alike further to the right. -/
theorem scan_add (position : Nat) (c : Char) (cs : List Char) (k : Nat) :
    scan (position + k) c cs = (scan position c cs).mapError (ScriptError.moved k) := by
  unfold scan
  split
  · dsimp only
    split <;> rfl
  split
  -- a text alone looks at its position while it is read, for the errors of one that does not end
  · have text := scanText_add c position (position + 1) cs k
    rw [Nat.add_right_comm] at text
    split
    · next found =>
      split
      · next read =>
        rw [found, read] at text
        obtain ⟨rfl, rfl⟩ := eq_of_ok_eq text
        rfl
      · next read =>
        rw [found, read] at text
        cases text
    · next failed =>
      split
      · next read =>
        rw [failed, read] at text
        cases text
      · next read =>
        rw [failed, read] at text
        exact congrArg Except.error (Except.error.inj text)
  split
  · rfl
  split
  · rfl
  · split <;> rfl

/-- Where a text stands makes no difference but for the positions. -/
theorem ofChars_add (position : Nat) (cs : List Char) (k : Nat) :
    ofChars (position + k) cs =
      ((ofChars position cs).map (List.map (moved k))).mapError (ScriptError.moved k) := by
  fun_induction ofChars position cs with
  | case1 =>
    rw [ofChars]
    rfl
  | case2 position c cs blank ih => rw [ofChars, if_pos blank, Nat.add_right_comm, ih]
  | case3 position c cs visible error failed =>
    rw [ofChars, if_neg visible, scan_add, failed]
    rfl
  | case4 position c cs visible token rest le scanned ih =>
    rw [ofChars, if_neg visible, scan_add, scanned]
    show (ofChars (position + k + 1 + (cs.length - rest.length)) rest).map _ = _
    rw [Nat.add_right_comm position, Nat.add_right_comm (position + 1), ih]
    cases ofChars (position + 1 + (cs.length - rest.length)) rest <;> rfl

/-! ### Literals and their escapes -/

/-- What is read where quoting has written a character.  Of an escape that the reader does not know
it drops the backslash. -/
def reread (c : Char) : List Char :=
  if IsPlain c then [c] else (Quoted.escape c).tail

/-- Characters in a code point stand for themselves. -/
theorem ne_of_mem_codePoint {c x : Char} (h : x ∈ '\x7b' :: Nat.toDigits 16 c.toNat ++ ['\x7d']) :
    x ≠ '"' ∧ x ≠ '\\' := by
  rcases List.mem_append.1 h with h | h
  · rcases List.mem_cons.1 h with rfl | h
    · decide
    · obtain ⟨d, lt, rfl⟩ := exists_digit_of_mem_toDigits (by decide) h
      have all : ∀ d : Fin 16, d.val.digitChar ≠ '"' ∧ d.val.digitChar ≠ '\\' := by decide
      exact all ⟨d, lt⟩
  · rw [List.mem_singleton.1 h]
    decide

/-- An escape that is not known is a backslash in front of characters that stand for themselves. -/
theorem escape_of_not_isPlain {c : Char} (h : ¬ IsPlain c) :
    ∃ d tail, Quoted.escape c = '\\' :: d :: tail ∧ d :: tail ≠ [c] ∧ unescape d = d ∧
      ∀ x ∈ tail, x ≠ '"' ∧ x ≠ '\\' := by
  have none : ∀ x ∈ ([] : List Char), x ≠ '"' ∧ x ≠ '\\' := List.forall_mem_nil _
  unfold IsPlain at h
  unfold Quoted.escape at *
  split at h
  · exact ⟨'0', [], rfl, by decide, rfl, none⟩
  · exact absurd (.inr (by decide)) h
  · exact ⟨'r', [], rfl, by decide, rfl, none⟩
  · exact absurd (.inr (by decide)) h
  · exact absurd (.inr (by decide)) h
  · exact absurd (.inr (by decide)) h
  · split at h
    · next coded =>
      exact ⟨'u', _, if_pos coded, fun e => List.cons_ne_nil _ _ (List.cons.inj e).2, rfl,
        fun x mem => ne_of_mem_codePoint mem⟩
    · exact absurd (.inl rfl) h

/-- The escape of a character spells what is read for it. -/
theorem spells_reread (c : Char) : SpellsText '"' (Quoted.escape c) (reread c) := by
  rw [reread]
  split
  · next plain => exact .single (spells_escape plain)
  · next unknown =>
    obtain ⟨d, tail, escape, -, same, plain⟩ := escape_of_not_isPlain unknown
    have first : Spells '"' ['\\', d] (unescape d) := .escaped d
    rw [same] at first
    rw [escape]
    exact .cons first (.plain plain)

theorem reread_ne_nil (c : Char) : reread c ≠ [] := by
  rw [reread]
  split
  · exact List.cons_ne_nil _ _
  · next unknown =>
    obtain ⟨d, tail, escape, -⟩ := escape_of_not_isPlain unknown
    rw [escape]
    exact List.cons_ne_nil _ _

/-- Plain characters are read as they are, and no others. -/
theorem reread_eq_iff {c : Char} : reread c = [c] ↔ IsPlain c := by
  rw [reread]
  split
  · next plain => exact ⟨fun _ => plain, fun _ => rfl⟩
  · next unknown =>
    obtain ⟨d, tail, escape, ne, -⟩ := escape_of_not_isPlain unknown
    rw [escape]
    exact ⟨fun e => absurd e ne, fun plain => absurd plain unknown⟩

/-- A text stays the same only if each of its characters does, as none of them gets lost. -/
theorem flatMap_eq_self_iff {f : Char → List Char} (ne_nil : ∀ c, f c ≠ []) {cs : List Char} :
    cs.flatMap f = cs ↔ ∀ c ∈ cs, f c = [c] := by
  have grows (cs : List Char) : cs.length ≤ (cs.flatMap f).length := by
    induction cs with
    | nil => exact Nat.le_refl 0
    | cons c cs ih =>
      have := List.length_pos_of_ne_nil (ne_nil c)
      rw [List.flatMap_cons, List.length_append, List.length_cons]
      omega
  induction cs with
  | nil => simp
  | cons c cs ih =>
    rw [List.flatMap_cons, List.forall_mem_cons]
    constructor
    · intro same
      -- what stands behind the first character makes the text longer, and nothing makes it shorter
      obtain ⟨d, more, first⟩ := List.exists_cons_of_ne_nil (ne_nil c)
      rw [first, List.cons_append] at same
      obtain ⟨rfl, others⟩ := List.cons.inj same
      have length := congrArg List.length others
      have := grows cs
      rw [List.length_append] at length
      obtain rfl : more = [] := List.eq_nil_of_length_eq_zero (by omega)
      exact ⟨first, ih.1 others⟩
    · rintro ⟨first, others⟩
      rw [first, ih.2 others]
      rfl

/-- **A literal is read as one text token.**  Its text is the one that was written exactly if all
characters are plain; of other characters it has what follows the backslash of their escapes. -/
theorem ofText_display_text (s : String) :
    ofText (Expr.literal (.text s)).display =
        .ok [⟨0, .text (String.ofList (s.toList.flatMap reread))⟩] ∧
      (String.ofList (s.toList.flatMap reread) = s ↔ ∀ c ∈ s.toList, IsPlain c) := by
  constructor
  · have spelled := SpellsText.flatMap fun c (_ : c ∈ s.toList) => spells_reread c
    rw [ofText, Expr.display, Expr.chars, Datum.chars, String.toList_ofList]
    exact spelled.ofChars_closed 0
  · have same : String.ofList (s.toList.flatMap reread) = s ↔
        s.toList.flatMap reread = s.toList := by
      rw [← String.ofList_inj, String.ofList_toList]
    rw [same, flatMap_eq_self_iff reread_ne_nil]
    exact forall₂_congr fun c _ => reread_eq_iff

/-- A carriage return is written with an escape that is read as a letter. -/
theorem ofText_display_carriageReturn :
    ofText (Expr.literal (.text "\r")).display = .ok [⟨0, .text "r"⟩] ∧ "r" ≠ "\r" := by
  have spelled : SpellsText '"' ['\\', 'r'] ['r'] := .single (.escaped 'r')
  exact ⟨spelled.ofChars_closed 0, by decide⟩

/-! ### Quoted arguments -/

/-- Arguments are quoted with escapes that are read. -/
theorem spells_quoteChar (c : Char) : Spells '"' (Render.quoteChar c) c := by
  unfold Render.quoteChar
  split
  · exact .escaped '"'
  · exact .escaped '\\'
  · exact .escaped 'n'
  · next quote_ne escape_ne _ => exact .plain quote_ne escape_ne

/-- Quoting leaves no newline. -/
theorem newline_not_mem_quoteChars (cs : List Char) : '\n' ∉ Render.quoteChars cs := by
  have inside (c : Char) : '\n' ∉ Render.quoteChar c := by
    unfold Render.quoteChar
    split
    · decide
    · decide
    · decide
    · next ne => exact fun mem => ne (List.mem_singleton.1 mem).symm
  intro mem
  rw [Render.quoteChars, List.mem_append, List.mem_cons, List.mem_flatMap] at mem
  rcases mem with (mem | ⟨c, -, mem⟩) | mem
  · cases mem
  · exact inside c mem
  · cases List.mem_singleton.1 mem

/-- **A quoted argument does not get out of its quotes.**  It has no newline in it, and it is read
as one text token, the argument itself, in front of what follows, which is read as it would be on
its own. -/
theorem ofText_quote_append (t r : String) :
    '\n' ∉ (Render.quote t).toList ∧
      (∀ lexemes, ofText r = .ok lexemes →
        ofText (Render.quote t ++ r) =
          .ok (⟨0, .text t⟩ :: lexemes.map (moved (Render.quote t).length))) ∧
      ∀ error, ofText r = .error error →
        ofText (Render.quote t ++ r) = .error (error.moved (Render.quote t).length) := by
  have chars : (Render.quote t).toList = Render.quoteChars t.toList := String.toList_ofList
  have spelled := SpellsText.of_spells fun c (_ : c ∈ t.toList) => spells_quoteChar c
  have whole : ofText (Render.quote t ++ r) =
      (ofChars (0 + (Render.quote t).length) r.toList).map (⟨0, .text t⟩ :: ·) := by
    have token := spelled.ofChars_eq 0 r.toList
    rw [String.ofList_toList] at token
    rw [ofText, String.toList_append, ← String.length_toList, chars]
    exact token
  rw [ofChars_add] at whole
  refine ⟨chars ▸ newline_not_mem_quoteChars t.toList, ?_, ?_⟩
  · intro lexemes read
    rw [whole, show ofChars 0 r.toList = _ from read]
    rfl
  · intro error failed
    rw [whole, show ofChars 0 r.toList = _ from failed]
    rfl

/-- A text that ends with a backslash does not run into what follows it. -/
theorem ofText_quote_append_backslashes :
    Render.quote "\\\"\n\\" = "\"\\\\\\\"\\n\\\\\"" ∧ ofText " \"+\"" = .ok [⟨1, .text "+"⟩] ∧
      ofText (Render.quote "\\\"\n\\" ++ " \"+\"") =
        .ok [⟨0, .text "\\\"\n\\"⟩, ⟨11, .text "+"⟩] := by
  have quoted : Render.quote "\\\"\n\\" = "\"\\\\\\\"\\n\\\\\"" := by decide
  have behind : ofText " \"+\"" = .ok [⟨1, .text "+"⟩] := by
    have spelled : SpellsText '"' ['+'] ['+'] := .single (.plain (by decide) (by decide))
    show ofChars 0 [' ', '"', '+', '"'] = _
    rw [ofChars, if_pos (by decide : isBlank ' ' = true)]
    exact spelled.ofChars_closed 1
  exact ⟨quoted, behind, (ofText_quote_append "\\\"\n\\" " \"+\"").2.1 _ behind⟩

end Lexeme

end CommandGraph
