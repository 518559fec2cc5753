/-
CommandGraph/Expr/Lexer.lean

Splitting expression text into tokens.

Numbers are runs of digits and points, texts stand in single or double quotes with
backslash escapes, names start with a letter or an underscore.  Positions count
characters.  `scan` reads one token and returns what follows it, which is shorter than
the text.
-/
import CommandGraph.Expr.Token
import CommandGraph.Text.Characters

namespace CommandGraph.Lexeme

/-! ### Character classes -/

/-- Whether a character may stand in a number. -/
def isNumberChar (c : Char) : Bool :=
  c.isDigit || c == '.'

/-- Whether a text starts with a number: with a digit, or with a point and a digit. -/
def startsNumber : List Char → Bool
  | '.' :: c :: _ => c.isDigit
  | c :: _ => c.isDigit
  | [] => false

/-- Whether a name may start with a character. -/
def isNameStart (c : Char) : Bool :=
  isAlphabetic c || c == '_'

/-- Whether a name may continue with a character. -/
def isNameChar (c : Char) : Bool :=
  isAlphabetic c || isNumeric c || c == '_'

/-! ### Texts -/

/-- The character that an escape stands for. -/
def unescape : Char → Char
  | 'n' => '\n'
  | 't' => '\t'
  | c => c

/-- Reads a text behind its opening quote.  `start` is the position of that quote and
`position` that of the next character. -/
def scanText (quote : Char) (start : Nat) :
    Nat → List Char → Except ScriptError (List Char × List Char)
  -- a text without its closing quote is reported where it starts
  | _, [] => .error (.malformed start .unterminatedString)
  | position, '\\' :: [] => .error (.malformed position .danglingEscape)
  | position, '\\' :: c :: rest =>
    (scanText quote start (position + 2) rest).map fun (cs, rest) => (unescape c :: cs, rest)
  | position, c :: rest =>
    if c == quote then .ok ([], rest)
    else (scanText quote start (position + 1) rest).map fun (cs, rest) => (c :: cs, rest)

theorem scanText_length {quote : Char} {start position : Nat} {cs text rest : List Char}
    (h : scanText quote start position cs = .ok (text, rest)) : rest.length ≤ cs.length := by
  fun_induction scanText quote start position cs generalizing text rest with
  | case1 => simp at h
  | case2 => simp at h
  | case3 position c others ih =>
    rcases hs : scanText quote start (position + 2) others with e | ⟨t, r⟩
    · simp [hs, Except.map] at h
    · simp only [hs, Except.map, Except.ok.injEq, Prod.mk.injEq] at h
      have := ih hs
      simp only [List.length_cons, ← h.2]
      omega
  | case4 position c others _ _ _ =>
    simp only [Except.ok.injEq, Prod.mk.injEq] at h
    simp [← h.2]
  | case5 position c others _ _ _ ih =>
    rcases hs : scanText quote start (position + 1) others with e | ⟨t, r⟩
    · simp [hs, Except.map] at h
    · simp only [hs, Except.map, Except.ok.injEq, Prod.mk.injEq] at h
      have := ih hs
      simp only [List.length_cons, ← h.2]
      omega

/-! ### Tokens -/

/-- What follows a token that starts with `c` and goes on in `cs`. -/
abbrev Rest (cs : List Char) :=
  { rest : List Char // rest.length ≤ cs.length }

/-- The rest behind a run of characters. -/
def Rest.after (p : Char → Bool) (cs : List Char) : Rest cs :=
  ⟨cs.dropWhile p, (List.dropWhile_sublist p).length_le⟩

/-- Reads the token at the front of a text that starts with `c`, which is not blank. -/
def scan (position : Nat) (c : Char) (cs : List Char) : Except ScriptError (Token × Rest cs) :=
  if startsNumber (c :: cs) then
    -- all digits and points belong to the literal, even where it is then none: `1.2.3` is one fault
    let literal := c :: cs.takeWhile isNumberChar
    match Decimal.ofChars? literal with
    | some x => .ok (.number x.toFloat, .after isNumberChar cs)
    | none => .error (.malformed position (.invalidNumber (String.ofList literal)))
  else if c == '"' || c == '\'' then
    match h : scanText c position (position + 1) cs with
    | .ok (text, rest) => .ok (.text (String.ofList text), ⟨rest, scanText_length h⟩)
    | .error e => .error e
  else if isNameStart c then
    .ok (.ident (String.ofList (c :: cs.takeWhile isNameChar)), .after isNameChar cs)
  else match Symbol.ofChar? c with
    | some symbol => .ok (.symbol symbol, ⟨cs, Nat.le_refl _⟩)
    | none =>
      match h : Operator.scan? (c :: cs) with
      | some (op, rest) =>
        .ok (.symbol (.op op), ⟨rest, Nat.le_of_lt_succ (Operator.scan?_length h)⟩)
      | none => .error (.malformed position (.unexpectedCharacter c))

/-- The tokens of a text whose first character is at the given position. -/
def ofChars (position : Nat) : List Char → Except ScriptError (List Lexeme)
  | [] => .ok []
  | c :: cs =>
    if isBlank c then ofChars (position + 1) cs
    else match scan position c cs with
      | .error e => .error e
      | .ok (token, ⟨rest, _⟩) =>
        (ofChars (position + 1 + (cs.length - rest.length)) rest).map ({ position, token } :: ·)
termination_by cs => cs.length

/-- The tokens of an expression. -/
def ofText (source : String) : Except ScriptError (List Lexeme) :=
  ofChars 0 source.toList

end CommandGraph.Lexeme
