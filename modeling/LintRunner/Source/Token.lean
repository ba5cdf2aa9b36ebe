import LintRunner.Text.Basic
import LintRunner.Text.Quoted

/-!
# Tokens of source text

A token has a kind, its text, where it starts and stops, and the line it stands on. Rows count from
one, columns from zero.
-/

namespace LintRunner.Source

inductive TokenKind where
  | name
  | number
  | string
  | operator
  | comment
  | newline
  | lineBreak
  | indent
  | dedent
  | endMarker
  | errorToken
deriving DecidableEq, Repr, Inhabited

def TokenKind.label : TokenKind → String
  | name => "NAME"
  | number => "NUMBER"
  | string => "STRING"
  | operator => "OP"
  | comment => "COMMENT"
  | newline => "NEWLINE"
  | lineBreak => "NL"
  | indent => "INDENT"
  | dedent => "DEDENT"
  | endMarker => "ENDMARKER"
  | errorToken => "ERRORTOKEN"

def TokenKind.ofLabel? (label : String) : Option TokenKind :=
  [name, number, string, operator, comment, newline, lineBreak, indent, dedent, endMarker,
    errorToken].find? fun k => k.label = label

@[ext] structure Pos where
  row : Int
  col : Int
deriving DecidableEq, Repr, Inhabited

structure Token where
  kind : TokenKind
  text : String
  start : Pos
  stop : Pos
  line : String
deriving DecidableEq, Repr, Inhabited

namespace Token

def isNewline (t : Token) : Bool := t.kind = .newline || t.kind = .lineBreak

/-- The text from a column on; a negative column counts from the end. -/
def textFrom (s : String) (col : Int) : List Char :=
  let cs := s.toList
  if 0 ≤ col then cs.drop col.toNat else cs.drop (cs.length - (-col).toNat)

/-- The token is the last on its physical line: it ends the line, or only a continuation mark
follows it. -/
def endsLine (t : Token) : Bool :=
  t.isNewline || Text.dropLeading Text.isBlank (textFrom t.line t.stop.col) = ['\\', '\n']

def isMultilineString (t : Token) : Bool :=
  t.kind = .string && t.text.toList.contains '\n'

def isLayout (t : Token) : Bool :=
  t.kind = .lineBreak || t.kind = .newline || t.kind = .indent || t.kind = .dedent

end Token

/-- The depth of brackets after one more token text. A text that occurs in the row of opening
brackets opens one, a text that occurs in the row of closing brackets closes one. -/
def bracketDepth (depth : Int) (text : String) : Int :=
  if Text.contains "([\x7b" text then depth + 1
  else if Text.contains "\x7d])" text then depth - 1
  else depth

end LintRunner.Source
