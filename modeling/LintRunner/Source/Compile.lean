import LintRunner.Fault
import LintRunner.Source.Tokenizer
import LintRunner.Text.Lines

/-!
# Sources that do not compile

Compiling a source is not the business of this library, but some sources show by their tokens alone
that they cannot be compiled: they end too early, hold a character that no token starts with, put
one operand right after another, close a bracket with one of another kind, or have a block where none
belongs or none where one does. Of all other sources it is assumed that they compile.
-/

namespace LintRunner.Source

def keywords : List String :=
  ["False", "None", "True", "and", "as", "assert", "async", "await", "break", "class", "continue",
   "def", "del", "elif", "else", "except", "finally", "for", "from", "global", "if", "import", "in",
   "is", "lambda", "nonlocal", "not", "or", "pass", "raise", "return", "try", "while", "with",
   "yield"]

def statementWords : List String := ["match", "case"]

def Token.isOperand (t : Token) : Bool :=
  match t.kind with
  | .number => true
  | .string => true
  | .name => !keywords.contains t.text
  | _ => false

/-- The second of two tokens cannot follow the first: both are operands, and not pieces of one
string. -/
def Token.clashes (a b : Token) : Bool :=
  a.isOperand && b.isOperand && !(a.kind = .string && b.kind = .string) &&
    !statementWords.contains a.text

def Token.isStray (t : Token) : Bool :=
  t.kind = .errorToken &&
    match t.text.toList with
    | c :: _ => if c.toNat < 128 then c != ' ' && c != '\t' && c.toNat != 12 else Text.isBlank c
    | [] => false

/-- The token holds something, and not just layout. -/
def Token.isSubstance (t : Token) : Bool := t.kind ≠ .comment && t.kind ≠ .lineBreak

/-- The first token that has no place, among tokens without layout. -/
def misplaced? : List Token → Option Token
  | [] => none
  | [t] => if t.isStray then some t else none
  | a :: b :: rest =>
    if a.isStray then some a else if a.clashes b then some b else misplaced? (b :: rest)

def closer? (text : String) : Option String :=
  [("(", ")"), ("[", "]"), ("\x7b", "\x7d")].lookup text

/-- The first closing bracket that does not close the innermost open one; `expected` are the brackets
that close the open ones, the innermost first. -/
def mismatched? (expected : List String) : List Token → Option Token
  | [] => none
  | t :: rest =>
    if t.kind ≠ .operator then mismatched? expected rest
    else
      match closer? t.text with
      | some close => mismatched? (close :: expected) rest
      | none =>
        if !(["\x7d", ")", "]"].contains t.text) then mismatched? expected rest
        else if expected.head? = some t.text then mismatched? expected.tail rest
        else some t

def Token.opensBlock (t : Token) : Bool := t.kind = .operator && t.text = ":"

/-- The first token that starts a block without being asked to, or fails to start one that a line
asks for by ending in a colon. -/
def misindented? : List Token → Option Token
  | last :: newline :: next :: rest =>
    if newline.kind = .newline && last.opensBlock != (next.kind = .indent : Bool) then some next
    else misindented? (newline :: next :: rest)
  | _ => none

def firstFault? (tokens : List Token) : Option Token :=
  match tokens with
  | t :: _ =>
    if t.kind = .indent then some t
    else misplaced? tokens <|> mismatched? [] tokens <|> misindented? tokens
  | [] => none

def syntaxFault (row col : Int) (line : String) : Fault :=
  .raised .badSyntax [.text "invalid syntax",
    .tuple [.text "", .int row, .int (col + 1), .text line, .int row, .int (col + 2)]]

/-- The lines of a source as a compiler sees them: only line feeds end lines, and carriage returns
count as such. -/
def compiledLines (lines : List String) : List String :=
  (Text.linesAfterFeed (Text.unifyNewlines (String.join lines).toList)).map String.ofList

def compileFault? (lines : List String) : Option Fault :=
  if (String.join lines).toList.any (·.toNat = 0) then
    some (Fault.because .badSyntax "source code string cannot contain null bytes")
  else
    match tokenize (compiledLines lines) with
    | .error (.openString start) => some (syntaxFault start.row start.col "")
    | .error (.openStatement row) => some (syntaxFault row 0 "")
    | .error (.badDedent row col line) => some (syntaxFault row col line)
    | .ok tokens =>
      (firstFault? (tokens.filter Token.isSubstance)).map fun t =>
        syntaxFault t.start.row t.start.col t.line

end LintRunner.Source
