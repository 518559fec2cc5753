/-
CommandGraph/Proofs/Expr/Lexing.lean

Tokens one after the other.

`Lexeme.Lexes cs tokens rest` says that a text that goes on with `rest` has the tokens of
`cs` in front, wherever it stands.  Texts are put together with `Lexes.append`, down to
single tokens: symbols, names, numbers and quoted texts.

Names and numbers end where a character follows that cannot be part of them
(`Stops`); an exclamation mark must not be followed by an equals sign.
-/
import CommandGraph.Expr.Parser
import CommandGraph.Expr.Printer
import CommandGraph.Proofs.Except
import CommandGraph.Proofs.Text.Digits
import Mathlib.Data.List.Basic
import Mathlib.Data.List.TakeWhile

namespace CommandGraph

/-- The operator that is written in front of an operand. -/
def UnaryOp.operator : UnaryOp → Operator
  | .not => .not
  | .negate => .binary .subtract

namespace Lexeme

/-- Whether the front of a text that goes on with `rest` consists of the given tokens, whatever its
position is. -/
def Lexes (cs : List Char) (tokens : List Token) (rest : List Char) : Prop :=
  ∀ position, ∃ lexemes : List Lexeme, lexemes.map Lexeme.token = tokens ∧
    ofChars position (cs ++ rest) = (ofChars (position + cs.length) rest).map (lexemes ++ ·)

/-- Whether names and numbers end in front of a text. -/
def Stops (rest : List Char) : Prop :=
  ∀ c ∈ rest.head?, isNameChar c = false ∧ isNumberChar c = false

/-! ### Composition -/

/-- The first token of a text stands in front of the tokens of what follows it. -/
theorem ofChars_of_scan {position : Nat} {c : Char} {cs rest : List Char} {token : Token}
    {le : rest.length ≤ (cs ++ rest).length} (visible : isBlank c = false)
    (scanned : scan position c (cs ++ rest) = .ok (token, ⟨rest, le⟩)) :
    ofChars position (c :: cs ++ rest) =
      (ofChars (position + (c :: cs).length) rest).map (⟨position, token⟩ :: ·) := by
  rw [List.cons_append, ofChars, if_neg (by rw [visible]; decide), scanned]
  have behind : position + 1 + ((cs ++ rest).length - rest.length) =
      position + (c :: cs).length := by
    rw [List.length_append, List.length_cons]
    omega
  show (ofChars (position + 1 + ((cs ++ rest).length - rest.length)) rest).map _ = _
  rw [behind]

namespace Lexes

variable {c : Char} {cs more rest : List Char} {token : Token} {tokens others : List Token}

theorem nil (rest : List Char) : Lexes [] [] rest := by
  intro position
  refine ⟨[], rfl, ?_⟩
  rw [List.nil_append, List.length_nil, Nat.add_zero]
  cases ofChars position rest <;> rfl

/-- Texts that follow each other have their tokens one after the other. -/
theorem append (h : Lexes cs tokens (more ++ rest)) (h' : Lexes more others rest) :
    Lexes (cs ++ more) (tokens ++ others) rest := by
  intro position
  obtain ⟨lexemes, rfl, front⟩ := h position
  obtain ⟨behind, rfl, back⟩ := h' (position + cs.length)
  refine ⟨lexemes ++ behind, List.map_append, ?_⟩
  rw [List.append_assoc, front, back, List.length_append, Nat.add_assoc]
  cases ofChars (position + (cs.length + more.length)) rest with
  | error error => rfl
  | ok found => exact congrArg Except.ok (List.append_assoc ..).symm

theorem blank (blank : isBlank c = true) : Lexes [c] [] rest := by
  intro position
  refine ⟨[], rfl, ?_⟩
  rw [List.singleton_append, ofChars, if_pos blank]
  show _ = (ofChars (position + 1) rest).map ([] ++ ·)
  cases ofChars (position + 1) rest <;> rfl

theorem single (visible : isBlank c = false)
    (scanned : ∀ position, ∃ le, scan position c (cs ++ rest) = .ok (token, ⟨rest, le⟩)) :
    Lexes (c :: cs) [token] rest := by
  intro position
  obtain ⟨le, scanned⟩ := scanned position
  exact ⟨[⟨position, token⟩], rfl, ofChars_of_scan visible scanned⟩

end Lexes

/-! ### Symbols -/

/-- The characters that symbols are made of. -/
def marks : List Char :=
  ['(', ')', ',', '?', ':', '=', '!', '<', '>', '&', '|', '+', '-', '*', '/', '%']

/-- Symbols are neither blanks nor parts of names, numbers or texts. -/
theorem classes_of_mem_marks : ∀ c ∈ marks, isBlank c = false ∧ isNumberChar c = false ∧
    (c == '"' || c == '\'') = false ∧ isNameStart c = false ∧ isNameChar c = false := by
  -- as a `Bool`: a quantifier over characters may be decided by going through all of them
  have all : marks.all (fun c => !isBlank c && (!isNumberChar c && (!(c == '"' || c == '\'') &&
      (!isNameStart c && !isNameChar c)))) = true := by
    decide +kernel
  intro c mem
  simpa only [Bool.and_eq_true, Bool.not_eq_true'] using List.all_eq_true.1 all c mem

/-- A number starts with a character of numbers. -/
theorem startsNumber_eq_false {c : Char} (cs : List Char) (h : isNumberChar c = false) :
    startsNumber (c :: cs) = false := by
  rw [isNumberChar, Bool.or_eq_false_iff] at h
  unfold startsNumber
  split
  · next e =>
    obtain ⟨rfl, -⟩ := List.cons.inj e
    cases h.2
  · next e =>
    obtain ⟨rfl, -⟩ := List.cons.inj e
    exact h.1
  · rfl

theorem stops_of_mem_marks {c : Char} (mem : c ∈ marks) (cs : List Char) : Stops (c :: cs) := by
  intro first h
  obtain rfl := Option.some.inj h
  obtain ⟨-, number, -, -, name⟩ := classes_of_mem_marks c mem
  exact ⟨name, number⟩

theorem stops_blank (cs : List Char) : Stops (' ' :: cs) := by
  intro first h
  obtain rfl := Option.some.inj h
  decide +kernel

theorem stops_nil : Stops [] :=
  fun _ h => absurd h (Option.not_mem_none _)

namespace Lexes

variable {c : Char} {cs rest : List Char}

theorem symbol {symbol : Symbol} (h : Symbol.ofChar? c = some symbol) :
    Lexes [c] [.symbol symbol] rest := by
  have mem : c ∈ marks := by
    unfold Symbol.ofChar? at h
    split at h <;> first | decide | cases h
  obtain ⟨visible, number, quote, name, -⟩ := classes_of_mem_marks c mem
  refine .single visible fun position => ⟨Nat.le_refl _, ?_⟩
  simp only [scan, List.nil_append, startsNumber_eq_false rest number, quote, name,
    Bool.false_eq_true, if_false, h]

/-- An operator is a token if it is the one that is found in front of the text. -/
theorem operator {op : Operator} (mem : c ∈ marks) (none : Symbol.ofChar? c = none)
    (h : Operator.scan? (c :: (cs ++ rest)) = some (op, rest)) :
    Lexes (c :: cs) [.symbol (.op op)] rest := by
  obtain ⟨visible, number, quote, name, -⟩ := classes_of_mem_marks c mem
  refine .single visible fun position => ?_
  have le := Nat.le_of_lt_succ (Operator.scan?_length h)
  refine ⟨le, ?_⟩
  simp only [scan, startsNumber_eq_false _ number, quote, name, Bool.false_eq_true, if_false, none]
  split
  · next found =>
    obtain ⟨rfl, rfl⟩ := Prod.mk.inj (Option.some.inj (h.symm.trans found))
    rfl
  · next missing =>
    rw [h] at missing
    cases missing

/-- Operators with two operands have blanks around them. -/
theorem binary (op : BinaryOp) :
    Lexes op.text.toList [.symbol (.op (.binary op))] (' ' :: rest) := by
  cases op <;> exact .operator (by decide) rfl rfl

/-- The sign of negation takes an equals sign behind it into another operator. -/
theorem unary (op : UnaryOp) (free : ∀ c ∈ rest.head?, c ≠ '=') :
    Lexes op.text.toList [.symbol (.op op.operator)] rest := by
  cases op with
  | negate => exact .operator (by decide) rfl rfl
  | not =>
    refine .operator (by decide) rfl ?_
    cases rest with
    | nil => rfl
    | cons c rest =>
      have ne : c ≠ '=' := free c rfl
      show Operator.scan? ('!' :: c :: rest) = _
      rw [Operator.scan?]
      · rfl
      · intro cs e
        exact ne (List.cons.inj e).1

end Lexes

/-! ### Names -/

/-- Whether a name is a single token. -/
def IsName (name : String) : Prop :=
  ofText name = .ok [⟨0, .ident name⟩]

/-- Tokens stand no further to the left than the text that they are read from. -/
theorem le_position {position : Nat} {cs : List Char} {lexemes : List Lexeme}
    (h : ofChars position cs = .ok lexemes) : ∀ l ∈ lexemes, position ≤ l.position := by
  fun_induction ofChars position cs generalizing lexemes with
  | case1 =>
    obtain rfl := Except.ok.inj h
    exact fun _ mem => absurd mem List.not_mem_nil
  | case2 position c cs blank ih => exact fun l mem => Nat.le_of_succ_le (ih h l mem)
  | case3 => cases h
  | case4 position c cs visible token rest le scanned ih =>
    cases more : ofChars (position + 1 + (cs.length - rest.length)) rest with
    | error error =>
      rw [more] at h
      cases h
    | ok behind =>
      rw [more] at h
      obtain rfl := Except.ok.inj h
      intro l mem
      rcases List.mem_cons.1 mem with rfl | mem
      · exact Nat.le_refl _
      · exact Nat.le_trans (by omega) (ih more l mem)

/-- A name starts with no digit or point, unless it would be read as a number. -/
theorem isNumberChar_eq_false {c : Char} {cs : List Char} (number : startsNumber (c :: cs) = false)
    (start : isNameStart c = true) : isNumberChar c = false := by
  have ne : c ≠ '.' := by
    rintro rfl
    exact absurd start (by decide +kernel)
  have digit : c.isDigit = false := by
    cases cs <;> simpa [startsNumber, ne] using number
  rw [isNumberChar, digit, Bool.false_or]
  simpa using ne

/-- Of the tokens, only names are names. -/
theorem scan_eq_ident {position : Nat} {c : Char} {cs : List Char} {name : String} {rest : Rest cs}
    (h : scan position c cs = .ok (.ident name, rest)) :
    isNumberChar c = false ∧ (c == '"' || c == '\'') = false ∧ isNameStart c = true ∧
      name = String.ofList (c :: cs.takeWhile isNameChar) := by
  -- the scanner tries numbers first, then texts, then names, and symbols in the end
  rw [scan] at h
  split at h
  · dsimp only at h
    split at h
    · cases (eq_of_ok_eq h).1
    · cases h
  next number =>
  split at h
  · split at h
    · cases (eq_of_ok_eq h).1
    · cases h
  next quote =>
  split at h
  · next start =>
    have text := Token.ident.inj (eq_of_ok_eq h).1
    have no_number := isNumberChar_eq_false (by simpa using number) start
    exact ⟨no_number, by simpa using quote, start, text.symm⟩
  · split at h
    · cases (eq_of_ok_eq h).1
    · split at h
      · cases (eq_of_ok_eq h).1
      · cases h

/-- Whether a text consists of characters of a name. -/
def NameChars (name : String) : Prop :=
  ∃ c cs, name.toList = c :: cs ∧ isBlank c = false ∧ isNumberChar c = false ∧
    (c == '"' || c == '\'') = false ∧ isNameStart c = true ∧ ∀ d ∈ cs, isNameChar d = true

/-- A text that is read as a name consists of characters of names. -/
theorem NameChars.of_isName {name : String} (h : IsName name) : NameChars name := by
  rw [IsName, ofText] at h
  cases e : name.toList with
  | nil =>
    rw [e, ofChars] at h
    cases h
  | cons c cs =>
    have text : name = String.ofList (c :: cs) := by
      rw [← e, String.ofList_toList]
    rw [e, ofChars] at h
    split at h
    · -- a blank in front moves the name
      have moved := le_position h _ (List.mem_singleton.2 rfl)
      cases moved
    next visible =>
    split at h
    · cases h
    next token rest le scanned =>
    cases more : ofChars (0 + 1 + (cs.length - rest.length)) rest with
    | error error =>
      rw [more] at h
      cases h
    | ok behind =>
      rw [more] at h
      obtain rfl := (Lexeme.mk.inj (List.cons.inj (Except.ok.inj h)).1).2
      obtain ⟨number, quote, start, run⟩ := scan_eq_ident scanned
      rw [text, String.ofList_inj] at run
      -- the name is all that the scanner has taken, so that it has taken all of it
      have all := List.takeWhile_eq_self_iff.1 (List.cons.inj run).2.symm
      exact ⟨c, cs, e, by simpa using visible, number, quote, start, all⟩

/-- A name ends in front of characters that cannot be part of it. -/
theorem NameChars.scan {name : String} (h : NameChars name) :
    ∃ c cs, name.toList = c :: cs ∧ isBlank c = false ∧
      ∀ rest, Stops rest → ∀ position, ∃ le,
        Lexeme.scan position c (cs ++ rest) = .ok (.ident name, ⟨rest, le⟩) := by
  obtain ⟨c, cs, e, visible, number, quote, start, all⟩ := h
  refine ⟨c, cs, e, visible, fun rest stops position => ⟨by rw [List.length_append]; omega, ?_⟩⟩
  obtain ⟨run, behind⟩ := span_append all fun d mem => (stops d mem).1
  have text : name = String.ofList (c :: cs) := by
    rw [← e, String.ofList_toList]
  simp only [Lexeme.scan, startsNumber_eq_false _ number, quote, start, Bool.false_eq_true,
    if_false, if_true, run, Rest.after, behind, text]

/-- A text is a single name exactly if it consists of characters of names. -/
theorem isName_iff {name : String} : IsName name ↔ NameChars name := by
  refine ⟨.of_isName, fun h => ?_⟩
  obtain ⟨c, cs, e, visible, scanned⟩ := h.scan
  have scanned := scanned [] stops_nil 0
  rw [List.append_nil] at scanned
  obtain ⟨le, scanned⟩ := scanned
  rw [IsName, ofText, e, ofChars, if_neg (by rw [visible]; decide), scanned]
  show (ofChars _ []).map _ = _
  rw [ofChars]
  rfl

instance (name : String) : Decidable (NameChars name) :=
  decidable_of_iff
    (name.toList.head?.any (fun c => !isBlank c && (!isNumberChar c && (!(c == '"' || c == '\'') &&
      (isNameStart c && name.toList.tail.all isNameChar)))) = true) <| by
    simp only [Option.any_eq_true, Bool.and_eq_true, Bool.not_eq_true', List.all_eq_true]
    constructor
    · rintro ⟨c, first, classes⟩
      exact ⟨c, name.toList.tail, List.eq_cons_of_mem_head? first, classes⟩
    · rintro ⟨c, cs, e, classes⟩
      rw [e]
      exact ⟨c, rfl, classes⟩

instance (name : String) : Decidable (IsName name) :=
  decidable_of_iff _ isName_iff.symm

/-- A name is one token, if what follows ends it. -/
theorem Lexes.name {name : String} {rest : List Char} (h : NameChars name) (stops : Stops rest) :
    Lexes name.toList [.ident name] rest := by
  obtain ⟨c, cs, e, visible, scanned⟩ := h.scan
  rw [e]
  exact .single visible (scanned rest stops)

/-! ### Numbers -/

theorem isBlank_of_isDigit {c : Char} (h : c.isDigit = true) : isBlank c = false := by
  rw [Char.isDigit, Bool.and_eq_true, decide_eq_true_eq, decide_eq_true_eq] at h
  have least : 48 ≤ c.toNat := h.1
  have greatest : c.toNat ≤ 57 := h.2
  refine Bool.eq_false_iff.2 fun blank => ?_
  obtain ⟨range, mem, le, ge⟩ := CodePoints.mem_iff.1 blank
  have apart : ∀ range ∈ CodePoints.blank.ranges, range.2 < 48 ∨ 57 < range.1 := by decide
  have := apart range mem
  omega

theorem startsNumber_of_isDigit {c : Char} (cs : List Char) (h : c.isDigit = true) :
    startsNumber (c :: cs) = true := by
  unfold startsNumber
  split
  · next e =>
    obtain ⟨rfl, -⟩ := List.cons.inj e
    cases h
  · next e =>
    obtain ⟨rfl, -⟩ := List.cons.inj e
    exact h
  · next e => cases e

/-- A literal that starts with a digit is a number. -/
theorem Lexes.number {c : Char} {cs rest : List Char} {x : Float} (digit : c.isDigit = true)
    (all : ∀ d ∈ cs, isNumberChar d = true)
    (read : (Decimal.ofChars? (c :: cs)).map Decimal.toFloat = some x) (stops : Stops rest) :
    Lexes (c :: cs) [.number x] rest := by
  obtain ⟨run, behind⟩ := span_append all fun d mem => (stops d mem).2
  obtain ⟨decimal, literal, rfl⟩ := Option.map_eq_some_iff.1 read
  refine .single (isBlank_of_isDigit digit) fun position => ⟨by rw [List.length_append]; omega, ?_⟩
  simp only [scan, startsNumber_of_isDigit _ digit, if_true, run, literal, Rest.after, behind]

theorem isDigit_of_mem_append {zeros : Nat} {digits : List Char}
    (h : ∀ c ∈ digits, c.isDigit = true) :
    ∀ c ∈ List.replicate zeros '0' ++ digits, c.isDigit = true := by
  intro c mem
  rcases List.mem_append.1 mem with mem | mem
  · rw [List.eq_of_mem_replicate mem]
    rfl
  · exact h c mem

theorem isNumberChar_of_isDigit {c : Char} (h : c.isDigit = true) : isNumberChar c = true := by
  rw [isNumberChar, h, Bool.true_or]

/-! ### Numbers as they are written -/

/-- A point is put behind a digit. -/
theorem exists_cons_withPoint {digits : List Char} (h : ∀ c ∈ digits, c.isDigit = true)
    (places : Nat) : ∃ c cs, Layout.withPoint digits places = c :: cs ∧ c.isDigit = true ∧
      ∀ d ∈ cs, isNumberChar d = true := by
  have length :
      places + 1 ≤ (List.replicate (places + 1 - digits.length) '0' ++ digits).length := by
    rw [List.length_append, List.length_replicate]
    omega
  have all : ∀ c ∈ List.replicate (places + 1 - digits.length) '0' ++ digits, c.isDigit = true :=
    isDigit_of_mem_append h
  rw [Layout.withPoint]
  generalize List.replicate (places + 1 - digits.length) '0' ++ digits = padded at length all
  -- the point has at least one digit in front of it
  obtain ⟨k, whole⟩ : ∃ k, padded.length - places = k + 1 := ⟨padded.length - places - 1, by omega⟩
  cases padded with
  | nil => cases length
  | cons c tail =>
    refine ⟨c, tail.take k ++ '.' :: tail.drop k, ?_, all c List.mem_cons_self, ?_⟩
    · show (c :: tail).take ((c :: tail).length - places) ++
        '.' :: (c :: tail).drop ((c :: tail).length - places) = _
      rw [whole, List.take_succ_cons, List.drop_succ_cons, List.cons_append]
    · intro d mem
      rcases List.mem_append.1 mem with mem | mem
      · exact isNumberChar_of_isDigit (all d (List.mem_cons_of_mem _ (List.mem_of_mem_take mem)))
      · rcases List.mem_cons.1 mem with rfl | mem
        · rfl
        · exact isNumberChar_of_isDigit (all d (List.mem_cons_of_mem _ (List.mem_of_mem_drop mem)))

theorem negative_shortest (tie : Tie) (x : Float) :
    (Decimal.shortest tie x).negative = (Binary64.ofFloat x).negative := by
  rw [Decimal.shortest]
  dsimp only
  split <;> rfl

theorem magnitude_numberLayout (x : Decimal) :
    Datum.numberLayout.magnitude x =
      if x.exponent < 0 then Layout.withPoint (Natural.digits x.digits) x.exponent.natAbs
      else Natural.digits x.digits ++ List.replicate x.exponent.natAbs '0' :=
  rfl

/-- A finite number without a sign starts with a digit, and has digits and points only. -/
theorem exists_cons_numberChars {x : Float} (finite : x.isFinite = true)
    (unsigned : (Binary64.ofFloat x).negative = false) :
    ∃ c cs, Datum.numberChars x = c :: cs ∧ c.isDigit = true ∧
      ∀ d ∈ cs, isNumberChar d = true := by
  -- a finite number is neither infinite nor undefined, so that it is written with digits
  have bounded : x.isNaN = false ∧ x.isInf = false := by
    rw [Float.isFinite, Float.Model.isFinite] at finite
    rw [Float.isNaN, Float.isInf, Float.Model.isNaN, Float.Model.isInf]
    generalize x.toModel.unpack = parts at finite ⊢
    cases parts <;> first | exact ⟨rfl, rfl⟩ | cases finite
  rw [Datum.numberChars, bounded.1, bounded.2, if_neg Bool.false_ne_true,
    if_neg Bool.false_ne_true]
  split
  · exact ⟨'0', [], rfl, rfl, fun d mem => absurd mem List.not_mem_nil⟩
  rw [Layout.chars, negative_shortest, unsigned, if_neg Bool.false_ne_true, magnitude_numberLayout]
  split
  · exact exists_cons_withPoint (fun c => Natural.isDigit_of_mem_digits) _
  · cases digits : Natural.digits (Decimal.shortest .up x).digits with
    | nil => exact absurd digits Nat.toDigits_ne_nil
    | cons c cs =>
      have all : ∀ d ∈ c :: cs, d.isDigit = true :=
        fun d mem => Natural.isDigit_of_mem_digits (digits ▸ mem)
      refine ⟨c, _, List.cons_append, all c List.mem_cons_self, fun d mem => ?_⟩
      rcases List.mem_append.1 mem with mem | mem
      · exact isNumberChar_of_isDigit (all d (List.mem_cons_of_mem _ mem))
      · rw [List.eq_of_mem_replicate mem]
        rfl

/-! ### Texts -/

/-- Whether some characters inside quotes stand for another one. -/
inductive Spells (quote : Char) : List Char → Char → Prop
  | plain {c : Char} (quote_ne : c ≠ quote) (escape_ne : c ≠ '\\') : Spells quote [c] c
  | escaped (c : Char) : Spells quote ['\\', c] (unescape c)

/-- In a text in quotes a character that is no backslash closes the text or stands for itself. -/
theorem scanText_cons {quote c : Char} (ne : c ≠ '\\') (start position : Nat) (cs : List Char) :
    scanText quote start position (c :: cs) =
      if c == quote then .ok ([], cs)
      else (scanText quote start (position + 1) cs).map fun (text, rest) => (c :: text, rest) := by
  rw [scanText]
  · intro e
    exact fun _ => ne e
  · intro d rest e
    exact fun _ => ne e

/-- Whether some characters inside quotes stand for a text. -/
inductive SpellsText (quote : Char) : List Char → List Char → Prop
  | nil : SpellsText quote [] []
  | cons {front more : List Char} {c : Char} {cs : List Char} (head : Spells quote front c)
    (tail : SpellsText quote more cs) : SpellsText quote (front ++ more) (c :: cs)

namespace SpellsText

variable {quote : Char} {front more text others : List Char}

/-- Spellings that follow each other spell the texts one after the other. -/
theorem append (h : SpellsText quote front text) (h' : SpellsText quote more others) :
    SpellsText quote (front ++ more) (text ++ others) := by
  induction h with
  | nil => exact h'
  | cons head tail ih =>
    rw [List.append_assoc]
    exact .cons head ih

/-- Texts are spelled character by character. -/
theorem flatMap {spell meaning : Char → List Char} {cs : List Char}
    (h : ∀ c ∈ cs, SpellsText quote (spell c) (meaning c)) :
    SpellsText quote (cs.flatMap spell) (cs.flatMap meaning) := by
  induction cs with
  | nil => exact .nil
  | cons c cs ih =>
    rw [List.flatMap_cons, List.flatMap_cons]
    exact (h c List.mem_cons_self).append (ih fun d mem => h d (List.mem_cons_of_mem _ mem))

theorem single {c : Char} (h : Spells quote front c) : SpellsText quote front [c] := by
  have spelled := cons h nil
  rwa [List.append_nil] at spelled

theorem of_spells {cs : List Char} {spell : Char → List Char}
    (h : ∀ c ∈ cs, Spells quote (spell c) c) : SpellsText quote (cs.flatMap spell) cs := by
  have spelled := flatMap fun c mem => single (h c mem)
  rwa [List.flatMap_singleton'] at spelled

/-- Characters that are neither quotes nor backslashes stand for themselves. -/
theorem plain {cs : List Char} (h : ∀ c ∈ cs, c ≠ quote ∧ c ≠ '\\') :
    SpellsText quote cs cs := by
  have spelled := of_spells fun c mem => Spells.plain (h c mem).1 (h c mem).2
  rwa [List.flatMap_singleton'] at spelled

/-- What is spelled inside quotes is read back, up to the closing quote. -/
theorem scanText_eq (h : SpellsText quote front text) (quote_ne : quote ≠ '\\')
    (start position : Nat) (rest : List Char) :
    scanText quote start position (front ++ quote :: rest) = .ok (text, rest) := by
  induction h generalizing position with
  | nil => rw [List.nil_append, scanText_cons quote_ne, if_pos (beq_self_eq_true quote)]
  | @cons piece more c cs head tail ih =>
    rw [List.append_assoc]
    cases head with
    | plain ne escape_ne =>
      rw [List.singleton_append, scanText_cons escape_ne, if_neg (by simpa using ne), ih]
      rfl
    | escaped d =>
      show scanText quote start position ('\\' :: d :: (more ++ quote :: rest)) = _
      rw [scanText, ih]
      rfl

/-- A text in quotes is one token, up to the closing quote. -/
theorem ofChars_eq (h : SpellsText '"' front text) (position : Nat) (rest : List Char) :
    ofChars position ('"' :: front ++ ['"'] ++ rest) =
      (ofChars (position + ('"' :: front ++ ['"']).length) rest).map
        (⟨position, .text (String.ofList text)⟩ :: ·) := by
  have read := h.scanText_eq (by decide) position (position + 1) rest
  have number : startsNumber ('"' :: (front ++ ['"'] ++ rest)) = false :=
    startsNumber_eq_false _ (by decide)
  have quote : ('"' == '"' || '"' == '\'') = true := by decide
  have le : rest.length ≤ (front ++ ['"'] ++ rest).length := by
    rw [List.length_append]
    omega
  have scanned : scan position '"' (front ++ ['"'] ++ rest) =
      .ok (.text (String.ofList text), ⟨rest, le⟩) := by
    simp only [scan, number, quote, Bool.false_eq_true, if_false, if_true]
    rw [← List.singleton_append, ← List.append_assoc] at read
    split
    · next found =>
      obtain ⟨rfl, rfl⟩ := eq_of_ok_eq (read.symm.trans found)
      rfl
    · next failed =>
      rw [read] at failed
      cases failed
  exact ofChars_of_scan (by decide) scanned

/-- A text in quotes with nothing behind it. -/
theorem ofChars_closed (h : SpellsText '"' front text) (position : Nat) :
    ofChars position ('"' :: front ++ ['"']) = .ok [⟨position, .text (String.ofList text)⟩] := by
  have token := h.ofChars_eq position []
  rwa [List.append_nil, ofChars] at token

end SpellsText

/-- Whether quoting writes a character as it is, or by one of the escapes that are read. -/
def IsPlain (c : Char) : Prop :=
  Quoted.escape c = [c] ∨ c ∈ ['"', '\\', '\n', '\t']

instance : DecidablePred IsPlain :=
  fun _ => inferInstanceAs (Decidable (_ ∨ _))

/-- What is written for a plain character stands for it. -/
theorem spells_escape {c : Char} (h : IsPlain c) : Spells '"' (Quoted.escape c) c := by
  by_cases special : c ∈ ['"', '\\', '\n', '\t']
  · simp only [List.mem_cons, List.not_mem_nil, or_false] at special
    rcases special with rfl | rfl | rfl | rfl
    · exact .escaped '"'
    · exact .escaped '\\'
    · exact .escaped 'n'
    · exact .escaped 't'
  · rw [h.resolve_right special]
    simp only [List.mem_cons, not_or] at special
    exact .plain special.1 special.2.1

/-- A text of plain characters is one token when it is quoted. -/
theorem Lexes.text {s : String} (h : ∀ c ∈ s.toList, IsPlain c) (rest : List Char) :
    Lexes (Quoted.chars s.toList) [.text s] rest := by
  intro position
  have spelled := SpellsText.of_spells fun c mem => spells_escape (h c mem)
  have token := spelled.ofChars_eq position rest
  rw [String.ofList_toList] at token
  exact ⟨[⟨position, .text s⟩], rfl, token⟩

end Lexeme

end CommandGraph
