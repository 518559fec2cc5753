/-
CommandGraph/Render/Text.lean

Pieces of the written text: indented lines, quoted strings, braces, error markers.

A line ends with a newline, which a carriage return may precede; the end of the text
ends the last line unless it is empty.
-/
import CommandGraph.Grammar.Basic

namespace CommandGraph

/-! ### Lines -/

namespace Lines

/-- The lines of a text, without what ends them. -/
def ofChars : List Char → List (List Char)
  | [] => []
  | '\n' :: cs => [] :: ofChars cs
  | '\r' :: '\n' :: cs => [] :: ofChars cs
  | c :: cs =>
    match ofChars cs with
    | [] => [[c]]
    | line :: lines => (c :: line) :: lines

/-- Puts a text in front of a line that is not empty. -/
def indentLine (indent line : List Char) : List Char :=
  if line.isEmpty then [] else indent ++ line

/-- Puts a text in front of every line that is not empty, and a newline between the lines. -/
def indent (indent cs : List Char) : List Char :=
  ['\n'].intercalate ((ofChars cs).map (indentLine indent))

end Lines

/-! ### Pieces -/

namespace Render

/-- A character of a quoted string. -/
def quoteChar : Char → List Char
  | '"' => ['\\', '"']
  | '\\' => ['\\', '\\']
  | '\n' => ['\\', 'n']
  | c => [c]

/-- The characters of a quoted string, with its quotes. -/
def quoteChars (cs : List Char) : List Char :=
  '"' :: cs.flatMap quoteChar ++ ['"']

/-- A string in double quotes. -/
def quote (text : String) : String :=
  String.ofList (quoteChars text.toList)

/-- A comment that shows an error in its place. -/
def errorMarker (message : String) : String :=
  "/* Error: " ++ message ++ " */"

/-- A text with every line indented. -/
def indentLines (text indent : String) : String :=
  String.ofList (Lines.indent indent.toList text.toList)

/-- A body in braces, indented. -/
def braced (body indent : String) : String :=
  if body.isEmpty then "\x7b\x7d"
  else "\x7b\n" ++ indentLines body indent ++ "\n\x7d"

/-- The texts that are not empty. -/
def nonEmpty (texts : List String) : List String :=
  texts.filter (!·.isEmpty)

/-- A text in brackets, if there is one and it is not empty. -/
def bracketed (param : Option String) : String :=
  match param with
  | some text => if text.isEmpty then "" else "[" ++ text ++ "]"
  | none => ""

/-- Replaces a backslash with an `n` behind it by a newline. -/
def unescapeNewlines : List Char → List Char
  | '\\' :: 'n' :: cs => '\n' :: unescapeNewlines cs
  | c :: cs => c :: unescapeNewlines cs
  | [] => []

end Render

/-- What is written for a value that is missing but required. -/
def Primitive.fallback : Primitive → String
  | numeric | numericRange => "0"
  | switch | condition => "false"
  | string => "\"\""
  | _ => ""

namespace Grammar

/-- A literal with the leading text of its primitive, unless it is empty. -/
def withLead (g : Grammar) (literal : String) : String :=
  match g with
  | primitive _ _ (some lead) => if literal.isEmpty then literal else lead ++ literal
  | _ => literal

/-- What stands between repeated items: the text of the node, with its newlines unescaped, or a
newline if there are blocks in the items, or a space. -/
def itemJoiner (g : Grammar) : String :=
  match g.attrs.joiner with
  | some joiner => String.ofList (Render.unescapeNewlines joiner.toList)
  | none => if g.containsBlock then "\n" else " "

/-- The name of a subcommand or a base as it is written. -/
def writtenName (g : Grammar) : String :=
  g.name.getD g.identifier

/-- Whether the arguments of a subcommand are written like those of a statement, without
parentheses: if one of them is a block. -/
def hasBlockStyle : Grammar → Bool
  | subcommand _ _ args => args.any isBlock
  | _ => false

/-- The delimiters and the separator of an array. -/
def arrayStyle : Grammar → (String × String) × String
  | array _ _ delimiters separator => (delimiters.getD ("[", "]"), separator.getD ", ")
  | _ => (("[", "]"), ", ")

end Grammar

end CommandGraph
