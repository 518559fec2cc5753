/-
CommandGraph/Proofs/Json/Tokens.lean

Strings and numbers of JSON text read back.

A string is read up to its closing quote, whatever follows (`exists_parts?_escape`): each
character is written as one part, and this part stands for the character again.

A number has no such end, and is read for as long as the text goes on with it.  In front of
anything else (`EndsNumber`) an integer of 64 bits reads back (`number?_intChars`).  Of a double
only one thing is used here, that its text alone is read back (`ReadsBack`); then it is read
back within a longer text, too.  The reader rounds twice, so that this is no matter of course.
-/
import CommandGraph.Json.Reader
import CommandGraph.Json.Writer
import CommandGraph.Proofs.Text.Digits

namespace CommandGraph.Json

/-! ### Strings -/

/-- Any character but a quote, a backslash and a control character is a part of its own. -/
theorem parts?_plain {c : Char} (quote : c ≠ '"') (backslash : c ≠ '\\') (h : ¬ c.toNat < 0x20)
    (rest : List Char) : parts? (c :: rest) = (parts? rest).map (consPart (.char c)) := by
  rw [parts?]
  · exact if_neg h
  · exact quote
  · exact fun _ _ _ _ _ e _ => backslash e
  · exact fun _ _ e _ => backslash e

/-- The two hexadecimal digits of a control character. -/
theorem hexUnit?_control {n : Nat} (h : n < 0x20) :
    hexUnit? '0' '0' (Nat.digitChar (n / 16)) (Nat.digitChar (n % 16)) = some n := by
  have all : ∀ n : Fin 0x20,
      hexUnit? '0' '0' (Nat.digitChar (n / 16)) (Nat.digitChar (n % 16)) = some (n : Nat) := by
    decide
  exact all ⟨n, h⟩

/-- A code unit that is no surrogate is a character. -/
theorem join?_unit {n : Nat} (h : n < 0xD800) (parts : List Part) :
    join? (.unit n :: parts) = (join? parts).map (Char.ofNat n :: ·) := by
  have leading : isLeading n = false := by
    rw [isLeading, decide_eq_false (Nat.not_le_of_lt h), Bool.false_and]
  have trailing : isTrailing n = false := by
    rw [isTrailing, decide_eq_false (by omega), Bool.false_and]
  cases parts with
  | nil => simp [join?, leading, trailing]
  | cons part parts =>
    cases part with
    | char c => simp [join?, leading, trailing]
    | unit m => simp [join?, leading, trailing]

/-- A character is written as one part of a string, which stands for it. -/
theorem exists_part (c : Char) :
    ∃ part, (∀ rest, parts? (escape c ++ rest) = (parts? rest).map (consPart part)) ∧
      ∀ parts, join? (part :: parts) = (join? parts).map (c :: ·) := by
  fun_cases escape c
  case case8 _ _ _ _ _ _ _ control =>
    refine ⟨.unit c.toNat, fun rest => ?_, fun parts => ?_⟩
    · show parts? ('\\' :: 'u' :: '0' :: '0' :: _ :: _ :: rest) = _
      rw [parts?, hexUnit?_control control]
    · rw [join?_unit (by omega), Char.ofNat_toNat]
  case case9 quote backslash _ _ _ _ _ shown =>
    exact ⟨.char c, parts?_plain quote backslash shown, fun parts => by rw [join?]⟩
  all_goals exact ⟨.char _, fun rest => rfl, fun parts => rfl⟩

/-- A string is read up to its closing quote. -/
theorem exists_parts?_escape (cs rest : List Char) :
    ∃ parts, parts? (cs.flatMap escape ++ '"' :: rest) = some (parts, rest) ∧
      join? parts = some cs := by
  induction cs with
  | nil => exact ⟨[], by rw [List.flatMap_nil, List.nil_append, parts?], rfl⟩
  | cons c cs ih =>
    obtain ⟨parts, read, joined⟩ := ih
    obtain ⟨part, reads, joins⟩ := exists_part c
    refine ⟨part :: parts, ?_, ?_⟩
    · rw [List.flatMap_cons, List.append_assoc, reads, read]
      rfl
    · rw [joins, joined]
      rfl

theorem stringChars_append (s : String) (rest : List Char) :
    stringChars s ++ rest = '"' :: (s.toList.flatMap escape ++ '"' :: rest) := by
  simp [stringChars]

/-- A quoted string is read as its text. -/
theorem exists_parts?_string (s : String) (rest : List Char) :
    ∃ parts, parts? (s.toList.flatMap escape ++ '"' :: rest) = some (parts, rest) ∧
      text? parts = some s := by
  obtain ⟨parts, read, joined⟩ := exists_parts?_escape s.toList rest
  refine ⟨parts, read, ?_⟩
  rw [text?, joined]
  exact congrArg some String.ofList_toList

/-! ### Numbers -/

/-- Whether a number that stands in front of a text ends there. -/
def EndsNumber (rest : List Char) : Prop :=
  ∀ c ∈ rest.head?, c.isDigit = false ∧ c ≠ '.' ∧ c ≠ 'e' ∧ c ≠ 'E'

theorem EndsNumber.isDigit {rest : List Char} (h : EndsNumber rest) :
    ∀ c ∈ rest.head?, c.isDigit = false :=
  fun c mem => (h c mem).1

/-! ### Parts of a number

Each part of a number is read in front of a longer text as it is read alone, if the text does not go
on with a number. -/

/-- A run of digits is read up to the first other character. -/
theorem digits?_of_append {cs rest : List Char} (ne : cs ≠ [])
    (all : ∀ c ∈ cs, c.isDigit = true) (stops : ∀ c ∈ rest.head?, c.isDigit = false) :
    digits? (cs ++ rest) = some (cs, rest) := by
  obtain ⟨taken, dropped⟩ := span_append all stops
  rw [digits?, taken, dropped]
  cases cs with
  | nil => cases ne rfl
  | cons => rfl

/-- Digits end where they did, if no more digits follow. -/
theorem digits?_append {cs ds left rest : List Char} (h : digits? cs = some (ds, left))
    (stops : ∀ c ∈ rest.head?, c.isDigit = false) :
    digits? (cs ++ rest) = some (ds, left ++ rest) := by
  rw [digits?] at h
  split at h
  · cases h
  · next run =>
    cases h
    have all : ∀ c ∈ cs.takeWhile Char.isDigit, c.isDigit = true :=
      List.all_eq_true.1 List.all_takeWhile
    have split_cs : cs ++ rest =
        cs.takeWhile Char.isDigit ++ (cs.dropWhile Char.isDigit ++ rest) := by
      rw [← List.append_assoc, List.takeWhile_append_dropWhile]
    -- the digits end within the text, or with it
    have ends : ∀ c ∈ (cs.dropWhile Char.isDigit ++ rest).head?, c.isDigit = false := by
      intro c mem
      cases e : cs.dropWhile Char.isDigit with
      | nil =>
        rw [e] at mem
        exact stops c mem
      | cons d left =>
        rw [e] at mem
        obtain rfl := Option.some.inj mem
        have not := List.head?_dropWhile_not Char.isDigit cs
        rw [e] at not
        simpa using not
    rw [split_cs]
    exact digits?_of_append run all ends

/-- A whole part that does not start with zero is a run of digits. -/
theorem whole?_of_ne_zero {c : Char} (h : c ≠ '0') (cs : List Char) :
    whole? (c :: cs) = digits? (c :: cs) := by
  rw [whole?]
  exact fun _ e => h (List.cons.inj e).1

/-- A whole part is read in front of a longer text. -/
theorem whole?_append {cs ds left rest : List Char} (h : whole? cs = some (ds, left))
    (stops : ∀ c ∈ rest.head?, c.isDigit = false) :
    whole? (cs ++ rest) = some (ds, left ++ rest) := by
  cases cs with
  | nil => cases h
  | cons c cs =>
    by_cases zero : c = '0'
    · subst zero
      cases h
      rfl
    · rw [whole?_of_ne_zero zero] at h
      rw [List.cons_append, whole?_of_ne_zero zero]
      exact digits?_append h stops

theorem fraction?_of_ne_point {cs : List Char} (h : ∀ c ∈ cs.head?, c ≠ '.') :
    fraction? cs = some ([], cs) := by
  rw [fraction?]
  rintro rest rfl
  exact h '.' rfl rfl

/-- A fraction is read in front of a longer text. -/
theorem fraction?_append {cs ds left rest : List Char} (h : fraction? cs = some (ds, left))
    (ends : EndsNumber rest) : fraction? (cs ++ rest) = some (ds, left ++ rest) := by
  cases cs with
  | nil =>
    cases h
    exact fraction?_of_ne_point fun c mem => (ends c mem).2.1
  | cons c cs =>
    by_cases point : c = '.'
    · subst point
      exact digits?_append h ends.isDigit
    · have other : ∀ d ∈ (c :: cs).head?, d ≠ '.' := by
        rintro d ⟨⟩
        exact point
      rw [fraction?_of_ne_point other] at h
      cases h
      refine fraction?_of_ne_point ?_
      rintro d ⟨⟩
      exact point

/-- Without an `e` there is no exponent. -/
theorem power?_of_ne_e {cs : List Char} (h : ∀ c ∈ cs.head?, c ≠ 'e' ∧ c ≠ 'E') :
    power? cs = some (none, cs) := by
  cases cs with
  | nil => rfl
  | cons c cs =>
    unfold power?
    refine if_neg ?_
    simpa using h c rfl

theorem power?_of_eq_e {c : Char} (h : (c == 'e' || c == 'E') = true) (cs : List Char) :
    power? (c :: cs) = (digits? (Decimal.splitSign cs).2).map fun digits =>
      let n : Int := Natural.ofDigits digits.1
      (some (if (Decimal.splitSign cs).1 then -n else n), digits.2) := by
  unfold power?
  exact if_pos h

/-- The sign of a text is that of its front. -/
theorem splitSign_append {cs : List Char} (ne : cs ≠ []) (rest : List Char) :
    Decimal.splitSign (cs ++ rest) =
      ((Decimal.splitSign cs).1, (Decimal.splitSign cs).2 ++ rest) := by
  cases cs with
  | nil => cases ne rfl
  | cons c cs =>
    by_cases minus : c = '-'
    · subst minus
      rfl
    by_cases plus : c = '+'
    · subst plus
      rfl
    · simp [Decimal.splitSign, minus, plus]

/-- An exponent is read in front of a longer text. -/
theorem power?_append {cs left rest : List Char} {power : Option Int}
    (h : power? cs = some (power, left)) (ends : EndsNumber rest) :
    power? (cs ++ rest) = some (power, left ++ rest) := by
  cases cs with
  | nil =>
    cases h
    exact power?_of_ne_e fun c mem => (ends c mem).2.2
  | cons c cs =>
    by_cases exponent : (c == 'e' || c == 'E') = true
    · rw [power?_of_eq_e exponent, Option.map_eq_some_iff] at h
      obtain ⟨⟨ds, left'⟩, read, e⟩ := h
      cases e
      -- an exponent has digits, so that its sign does not come from what follows
      have ne : cs ≠ [] := by
        rintro rfl
        cases read
      rw [List.cons_append, power?_of_eq_e exponent, splitSign_append ne,
        digits?_append read ends.isDigit]
      rfl
    · have other : ∀ d ∈ (c :: cs).head?, d ≠ 'e' ∧ d ≠ 'E' := by
        rintro d ⟨⟩
        simpa using exponent
      rw [power?_of_ne_e other] at h
      cases h
      refine power?_of_ne_e ?_
      rintro d ⟨⟩
      simpa using exponent

/-! ### Whole numbers and signs -/

/-- A number behind its sign. -/
def unsigned? (negative : Bool) (cs : List Char) : Option (Json × List Char) :=
  (whole? cs).bind fun whole => (fraction? whole.2).bind fun fraction =>
    (power? fraction.2).map fun power =>
      ((Literal.mk negative whole.1 fraction.1 power.1).value, power.2)

/-- What is read behind a sign. -/
theorem unsigned?_eq (negative : Bool) (cs : List Char) :
    (do
      let (whole, cs) ← whole? cs
      let (fraction, cs) ← fraction? cs
      let (power, cs) ← power? cs
      return ((Literal.mk negative whole fraction power).value, cs)) = unsigned? negative cs := by
  rw [unsigned?]
  rcases whole? cs with - | ⟨whole, left⟩
  · rfl
  show (fraction? left).bind _ = (fraction? left).bind _
  rcases fraction? left with - | ⟨fraction, left⟩
  · rfl
  show (power? left).bind _ = (power? left).map _
  cases power? left <;> rfl

theorem number?_minus (cs : List Char) : number? ('-' :: cs) = unsigned? true cs :=
  unsigned?_eq true cs

theorem number?_of_ne_minus {cs : List Char} (h : ∀ c ∈ cs.head?, c ≠ '-') :
    number? cs = unsigned? false cs := by
  unfold number?
  split
  next negative rest e =>
    split at e
    · cases h '-' rfl rfl
    · cases e
      exact unsigned?_eq false _

/-- A number without its sign is read in front of a longer text. -/
theorem unsigned?_append {negative : Bool} {cs left rest : List Char} {value : Json}
    (h : unsigned? negative cs = some (value, left)) (ends : EndsNumber rest) :
    unsigned? negative (cs ++ rest) = some (value, left ++ rest) := by
  rw [unsigned?, Option.bind_eq_some_iff] at h
  obtain ⟨whole, hw, h⟩ := h
  obtain ⟨fraction, hf, h⟩ := Option.bind_eq_some_iff.1 h
  obtain ⟨power, hp, e⟩ := Option.map_eq_some_iff.1 h
  cases e
  rw [unsigned?, whole?_append hw ends.isDigit, Option.bind_some, fraction?_append hf ends,
    Option.bind_some, power?_append hp ends]
  rfl

/-- A number that is read alone is read in front of a text that does not go on with it. -/
theorem number?_append {cs left rest : List Char} {value : Json}
    (h : number? cs = some (value, left)) (ends : EndsNumber rest) :
    number? (cs ++ rest) = some (value, left ++ rest) := by
  cases cs with
  | nil => cases h
  | cons c cs =>
    by_cases minus : c = '-'
    · subst minus
      rw [number?_minus] at h
      rw [List.cons_append, number?_minus]
      exact unsigned?_append h ends
    · have other (cs : List Char) : ∀ d ∈ (c :: cs).head?, d ≠ '-' := by
        rintro d ⟨⟩
        exact minus
      rw [number?_of_ne_minus (other cs)] at h
      rw [List.cons_append, number?_of_ne_minus (other _)]
      exact unsigned?_append h ends

/-- What is read as a number starts with a minus sign or a digit. -/
theorem head_of_number? {cs left : List Char} {value : Json} (h : number? cs = some (value, left)) :
    ∃ c rest, cs = c :: rest ∧ (c = '-' ∨ c.isDigit = true) := by
  cases cs with
  | nil => cases h
  | cons c cs =>
    refine ⟨c, cs, rfl, ?_⟩
    by_cases minus : c = '-'
    · exact .inl minus
    · rcases digit : c.isDigit with - | -
      · -- a lone zero is a digit as well
        have zero : c ≠ '0' := by
          rintro rfl
          cases digit
        rw [number?_of_ne_minus (by rintro d ⟨⟩; exact minus), unsigned?, whole?_of_ne_zero zero,
          digits?, List.takeWhile_cons_of_neg (by simpa using digit)] at h
        cases h
      · exact .inr rfl

/-! ### Integers -/

/-- The digits of a natural number are read as a number without a fraction or an exponent. -/
theorem unsigned?_digits (negative : Bool) (n : Nat) {rest : List Char} (ends : EndsNumber rest) :
    unsigned? negative (Natural.digits n ++ rest) =
      some ((Literal.mk negative (Natural.digits n) [] none).value, rest) := by
  have whole : whole? (Natural.digits n ++ rest) = some (Natural.digits n, rest) := by
    -- zero is written with one digit, and all other numbers start with a digit that is not zero
    rcases Nat.eq_zero_or_pos n with rfl | positive
    · rfl
    · have first := Natural.head?_digits_ne_zero positive
      have read := digits?_of_append (Natural.digits_ne_nil n)
        (fun c mem => Natural.isDigit_of_mem_digits mem) ends.isDigit
      cases e : Natural.digits n with
      | nil => cases Natural.digits_ne_nil n e
      | cons c cs =>
        rw [e] at first read
        rw [List.cons_append, whole?_of_ne_zero fun zero => first (congrArg some zero)]
        exact read
  rw [unsigned?, whole, Option.bind_some, fraction?_of_ne_point fun c mem => (ends c mem).2.1,
    Option.bind_some, power?_of_ne_e fun c mem => (ends c mem).2.2]
  rfl

/-- Whether an integer fits 64 bits, signed or unsigned. -/
def Fits (n : Int) : Prop :=
  Int64.minValue.toInt ≤ n ∧ n < Natural.bound

theorem value_digits {n : Nat} (h : n < Natural.bound) :
    (Literal.mk false (Natural.digits n) [] none).value = .int n := by
  simp [Literal.value, Literal.int?, Natural.ofDigits_digits, h]

/-- Digits behind a minus sign stand for the negative number, if it fits. -/
theorem value_minus_digits {n : Nat} (positive : 0 < n) (h : Int64.minValue.toInt ≤ -n) :
    (Literal.mk true (Natural.digits n) [] none).value = .int (-n) := by
  have fits : (decide (0 < n) && decide (Int64.minValue.toInt ≤ -n)) = true := by
    rw [decide_eq_true positive, decide_eq_true h]
    rfl
  have read : (Literal.mk true (Natural.digits n) [] none).int? = some (-(n : Int)) := by
    simp only [Literal.int?, Natural.ofDigits_digits]
    exact if_pos fits
  rw [Literal.value, read]

/-- An integer of 64 bits is read back from its text. -/
theorem number?_intChars {n : Int} (h : Fits n) {rest : List Char} (ends : EndsNumber rest) :
    number? (intChars n ++ rest) = some (.int n, rest) := by
  rw [intChars]
  split
  · next negative =>
    have abs : n = -(n.natAbs : Int) := by omega
    rw [List.cons_append, number?_minus, unsigned?_digits true _ ends,
      value_minus_digits (by omega) (abs ▸ h.1), ← abs]
  · next natural =>
    have abs : n = (n.natAbs : Int) := by omega
    have no_minus : ∀ c ∈ (Natural.digits n.natAbs ++ rest).head?, c ≠ '-' := by
      cases e : Natural.digits n.natAbs with
      | nil => cases Natural.digits_ne_nil _ e
      | cons c cs =>
        have digit : c.isDigit = true :=
          Natural.isDigit_of_mem_digits (e ▸ List.mem_cons_self)
        rintro d ⟨⟩ rfl
        cases digit
    have below := h.2
    rw [number?_of_ne_minus no_minus, unsigned?_digits false _ ends, value_digits (by omega), ← abs]

/-! ### Doubles -/

/-- Whether the text of a double is read as this double. -/
def ReadsBack (x : Float) : Prop :=
  number? (floatChars x) = some (.float x, [])

/-- Whether a double has been read, and nothing is left. -/
def isDouble (x : Float) : Option (Json × List Char) → Bool
  | some (float y, []) => y = x
  | _ => false

/-- The test says that just this double has been read. -/
theorem isDouble_iff {x : Float} {read : Option (Json × List Char)} :
    isDouble x read = true ↔ read = some (.float x, []) := by
  rcases read with - | ⟨value, left⟩
  · simp [isDouble]
  · cases value with
    | float y => cases left <;> simp [isDouble]
    | _ => simp [isDouble]

instance (x : Float) : Decidable (ReadsBack x) :=
  decidable_of_iff (isDouble x (number? (floatChars x)) = true) isDouble_iff

end CommandGraph.Json
