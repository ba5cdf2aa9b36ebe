import LintRunner.Entries
import LintRunner.Source.Compile
import LintRunner.Source.LogicalLine
import LintRunner.Source.Tokenizer
import LintRunner.Suppression
import LintRunner.Value.Arithmetic

/-!
# The state of a file while it is checked

The lines of a file, the tokens of the statement at hand, and what checks may ask about their
surroundings: blank lines, indentation, earlier logical lines. Tokens are pulled one by one, and a
line is read only when the tokens before it are used up.
-/

namespace LintRunner.Source

/-- The private memory of a check, kept between its calls on one file. -/
abbrev CheckerState := List (String × Value)

/-- A tokenizer together with the tokens of its last line that nobody has taken yet. -/
structure TokenStream where
  state : TokenizerState := {}
  pending : List Token := []
  closed : Bool := false
deriving Repr, Inhabited

structure Processor where
  filename : Value
  lines : List String
  blankBefore : Nat := 0
  blankLines : Nat := 0
  checkerStates : List (String × CheckerState) := []
  currentChecker : Option String := none
  hangClosing : Value := .none
  /-- The character that indents, once it is settled. -/
  indentChar : Value := .none
  indentLevel : Nat := 0
  lineNumber : Int := 0
  logicalLine : String := ""
  maxLineLength : Value := .none
  multiline : Bool := false
  noqa : Bool := false
  previousIndentLevel : Nat := 0
  previousLogical : String := ""
  previousUnindentedLogical : String := ""
  tokens : List Token := []
  verbose : Value := .none
  logicalLineCount : Nat := 0
  fileTokens : Option (List Token) := none
  compileFault : Option Fault := none
deriving Inhabited

namespace Processor

def totalLines (p : Processor) : Nat := p.lines.length

/-- A byte-order mark at the start of the first line is dropped, whether it was decoded or not. An
empty first line is a fault. -/
def withoutMark : List String → Except Fault (List String)
  | [] => .ok []
  | line :: rest =>
    match line.toList with
    | [] => .error Fault.badIndex
    | c :: cs =>
      if c.toNat = 0xfeff then .ok (String.ofList cs :: rest)
      else
        match c :: cs with
        | a :: b :: d :: after =>
          if a.toNat = 0xef && b.toNat = 0xbb && d.toNat = 0xbf then
            .ok (String.ofList after :: rest)
          else .ok (line :: rest)
        | _ => .ok (line :: rest)

def linesOf (v : Value) : Except Fault (Option (List String)) := do
  match v with
  | .none => return none
  | .dict (_ :: _) => throw (.raised .missingKey [.int 0])
  | v =>
    if let some first := (← v.elements).head? then
      let _ ← (← first.itemAt 0).asText
    return some (← v.asTexts)

def compileFailure (p : Processor) : Option Fault := p.compileFault <|> compileFault? p.lines

/-- The next line for the tokenizer, or nothing at the end. The first line that starts with a space
or tab settles the character that indents. -/
def nextLine (p : Processor) : Except Fault (String × Processor) :=
  if (p.totalLines : Int) ≤ p.lineNumber then .ok ("", p)
  else
    match elementAt? p.lines p.lineNumber with
    | none => .error Fault.badIndex
    | some line =>
      let indentChar := match p.indentChar, line.toList.head? with
        | .none, some c => if c = ' ' || c = '\t' then Value.ofChar c else .none
        | old, _ => old
      .ok (line, { p with lineNumber := p.lineNumber + 1, indentChar := indentChar })

def tokenizeFault : TokenizeFault → Fault
  | .openString start =>
    .raised .badToken
      [.text "EOF in multi-line string", .tuple [.int start.row, .int start.col]]
  | .openStatement row =>
    .raised .badToken [.text "EOF in multi-line statement", .tuple [.int row, .int 0]]
  | .badDedent row col line =>
    .raised .badIndentation
      [.text "unindent does not match any outer indentation level",
        .tuple [.text "<tokenize>", .int row, .int col, .text line]]

/-- Reads lines until tokens are pending or the source ends; `fuel` is more than the number of lines
left. -/
def fill (fuel : Nat) (s : TokenStream) (p : Processor) :
    Except Fault TokenStream × Processor :=
  if !s.pending.isEmpty || s.closed then (.ok s, p)
  else if s.state.finished then (.ok { s with closed := true }, p)
  else
    match fuel with
    | 0 => (.ok { s with closed := true }, p)
    | fuel + 1 =>
      match p.nextLine with
      | .error f => (.error f, p)
      | .ok (line, p) =>
        match s.state.feed line with
        | .error why => (.error (Fault.ofTokenFault (tokenizeFault why)), p)
        | .ok (tokens, state) => fill fuel { s with state := state, pending := tokens } p

/-- The next token, which is also added to the tokens of the statement at hand. Nothing at the end,
which is also where a token lies beyond the last line. -/
def nextToken (s : TokenStream) (p : Processor) :
    Except Fault (Option Token) × TokenStream × Processor :=
  if s.closed then (.ok none, s, p)
  else
    match fill (((p.totalLines : Int) - p.lineNumber).toNat + 2) s p with
    | (.error f, p) => (.error f, { s with closed := true, pending := [] }, p)
    | (.ok s, p) =>
      match s.pending with
      | [] => (.ok none, { s with closed := true }, p)
      | t :: rest =>
        if (p.totalLines : Int) < t.start.row then
          (.ok none, { s with closed := true, pending := [] }, p)
        else (.ok (some t), { s with pending := rest }, { p with tokens := p.tokens ++ [t] })

def nextTokens : (n : Nat) → TokenStream → Processor →
    Except Fault (List Token) × TokenStream × Processor
  | 0, s, p => (.ok [], s, p)
  | n + 1, s, p =>
    match nextToken s p with
    | (.error f, s, p) => (.error f, s, p)
    | (.ok none, s, p) => (.ok [], s, p)
    | (.ok (some t), s, p) =>
      match nextTokens n s p with
      | (.error f, s, p) => (.error f, s, p)
      | (.ok ts, s, p) => (.ok (t :: ts), s, p)

/-- All tokens of the file, read independently of the stream and kept. A source that ends inside a
string or statement leaves an attribute missing; a bad indentation is reported as it is. -/
def allTokens (p : Processor) : Except Fault (List Token) × Processor :=
  match p.fileTokens with
  | some ts => (.ok ts, p)
  | none =>
    match tokenize p.lines with
    | .ok ts => (.ok ts, { p with fileTokens := some ts })
    | .error (.badDedent row col line) => (.error (tokenizeFault (.badDedent row col line)), p)
    | .error _ =>
      (.error (Fault.because .missingAttribute "'TokenError' object has no attribute 'message'"), p)

def resetBlankBefore (p : Processor) : Processor := { p with blankBefore := 0 }

def deleteFirstToken (p : Processor) : Except Fault Processor :=
  match p.tokens with
  | [] => .error Fault.badIndex
  | _ :: rest => .ok { p with tokens := rest }

def visitBlankLine (p : Processor) : Processor := { p with blankLines := p.blankLines + 1 }

/-- A logical line starts at a row, before a column if there is one: the blanks that lead up to it
are its indentation, and the blank lines before it are remembered. -/
def startLine (p : Processor) (row : Int) (col : Option Int) : Except Fault Processor :=
  match elementAt? p.lines (row - 1) with
  | none => .error Fault.badIndex
  | some line =>
    let lead := match col with
      | some col => slice line.toList 0 col
      | none => line.toList
    .ok { p with
      indentLevel := indentWidth lead
      blankBefore := if p.blankBefore < p.blankLines then p.blankLines else p.blankBefore }

/-- Takes the indentation from where the logical line starts, and remembers the blank lines before
it. -/
def updateState (p : Processor) (mapping : Mapping) : Except Fault Processor :=
  match mapping with
  | [] => .error Fault.badIndex
  | (_, start) :: _ => p.startLine start.row (some start.col)

def updateStateBy (p : Processor) (mapping : Value) : Except Fault Processor := do
  let (row, col) ← (← (← mapping.itemAt 0).itemAt 1).unpack2
  let row ← row.asInt
  let p ← p.startLine row none
  match col with
  | .none => return p
  | col => p.startLine row (some (← col.asInt))

def checkerState (p : Processor) : Option CheckerState :=
  p.currentChecker.map fun name => (p.checkerStates.lookup name).getD []

/-- Turns to the memory of a check, which starts out empty. -/
def turnTo (p : Processor) (name : String) : Processor :=
  let states := match p.checkerStates.lookup name with
    | some _ => p.checkerStates
    | none => p.checkerStates ++ [(name, [])]
  { p with checkerStates := states, currentChecker := some name }

def setCheckerState (p : Processor) (state : CheckerState) : Processor :=
  match p.currentChecker with
  | some name => { p with checkerStates := Entries.put name state p.checkerStates }
  | none => p

/-- The logical line at hand becomes the previous one, unless it is empty. -/
def nextLogicalLine (p : Processor) : Processor :=
  let p :=
    if p.logicalLine.isEmpty then p
    else { p with
      previousIndentLevel := p.indentLevel
      previousLogical := p.logicalLine
      previousUnindentedLogical :=
        if p.indentLevel = 0 then p.logicalLine else p.previousUnindentedLogical }
  { p with blankLines := 0, tokens := [], noqa := false }

def logicalTokens (p : Processor) : Except Fault LogicalParts := logicalParts p.lines p.tokens

def buildLogicalLine (p : Processor) : Except Fault (LogicalParts × Processor) :=
  match p.logicalTokens with
  | .error f => .error f
  | .ok parts =>
    .ok (parts, { p with
      logicalLine := parts.line
      noqa := p.noqa || (Suppression.mark? parts.comment).isSome
      logicalLineCount := p.logicalLineCount + 1 })

def splitLine (text : String) : List String := (Text.splitOnChar '\n' text).dropLast

def splittable (v : Value) : Except Fault String :=
  match v with
  | .text s => .ok s
  | _ => .error Fault.missingAttribute

def numberedPieces (p : Processor) (text : String) : List (String × Int) × Processor :=
  let pieces := splitLine text
  (pieces.zip ((List.range pieces.length).map fun (n : Nat) => p.lineNumber + n),
    { p with lineNumber := p.lineNumber + pieces.length })

/-- A check found mixed indentation: its first character indents from here on. -/
def checkPhysicalError (p : Processor) (code line : Value) : Except Fault Processor :=
  if code.same (.text "E101") then return { p with indentChar := ← line.itemAt 0 } else return p

def lineFor (p : Processor) (n : Value) : Except Fault Value := do
  if ← n.isBetween 1 p.totalLines then
    return (p.lines[((← n.asInt) - 1).toNat]?.map Value.text).getD .none
  return .none

def shouldIgnoreFile (p : Processor) : Bool := Suppression.fileSuppressed p.lines

def tokenValue (t : Token) : Value :=
  .tuple [.text t.kind.label, .text t.text, .tuple [.int t.start.row, .int t.start.col],
    .tuple [.int t.stop.row, .int t.stop.col], .text t.line]

def statistics (p : Processor) : Value := .dict [("logical lines", .int p.logicalLineCount)]

def checkerStateValue (p : Processor) : Value :=
  match p.checkerState with
  | some state => .dict state
  | none => .none

def operationNames : List String :=
  ["inside_multiline", "reset_blank_before", "delete_first_token", "visited_new_blank_line",
   "update_state", "update_checker_state_for", "next_logical_line", "build_logical_line_tokens",
   "build_ast", "build_logical_line", "split_line", "keyword_arguments_for",
   "check_physical_error", "generate_tokens", "line_for", "next_line", "read_lines",
   "read_lines_from_filename", "read_lines_from_stdin", "should_ignore_file", "strip_utf_bom",
   "_readlines_py2", "_readlines_py3"]

def answer (p : Processor) (name : String) : Except Fault Value × Processor :=
  let plain (v : Value) : Except Fault Value × Processor := (.ok v, p)
  match name with
  | "blank_before" => plain (.int p.blankBefore)
  | "blank_lines" => plain (.int p.blankLines)
  | "checker_state" => plain p.checkerStateValue
  | "filename" => plain p.filename
  | "hang_closing" => plain p.hangClosing
  | "indent_char" => plain p.indentChar
  | "indent_level" => plain (.int p.indentLevel)
  | "line_number" => plain (.int p.lineNumber)
  | "lines" => plain (Value.texts p.lines)
  | "logical_line" => plain (.text p.logicalLine)
  | "max_line_length" => plain p.maxLineLength
  | "multiline" => plain (.bool p.multiline)
  | "noqa" => plain (.bool p.noqa)
  | "options" => plain (.object "Values")
  | "previous_indent_level" => plain (.int p.previousIndentLevel)
  | "previous_logical" => plain (.text p.previousLogical)
  | "previous_unindented_logical_line" => plain (.text p.previousUnindentedLogical)
  | "statistics" => plain p.statistics
  | "tokens" => plain (.list (p.tokens.map tokenValue))
  | "total_lines" => plain (.int p.totalLines)
  | "verbose" => plain p.verbose
  | "_checker_states" => plain (.dict (p.checkerStates.map fun (name, m) => (name, .dict m)))
  | "_file_tokens" =>
    plain (match p.fileTokens with
      | some ts => .list (ts.map tokenValue)
      | none => .none)
  | "file_tokens" =>
    match p.allTokens with
    | (.ok ts, p) => (.ok (.list (ts.map tokenValue)), p)
    | (.error f, p) => (.error f, p)
  | name =>
    if operationNames.contains name then plain (.object "method")
    else
      (.error (Fault.because .missingAttribute
        ("'FileProcessor' object has no attribute " ++ Text.literal name)), p)

/-- The arguments for a check's parameters: those given, and what the file answers for the others. A
parameter that nothing answers is left out when it is optional. -/
def argumentsFor (p : Processor) (args : List (String × Value)) :
    List (String × Bool) → Except Fault (List (String × Value)) × Processor
  | [] => (.ok args, p)
  | (param, required) :: rest =>
    if (args.lookup param).isSome then p.argumentsFor args rest
    else
      match p.answer param with
      | (.ok v, p) => p.argumentsFor (args ++ [(param, v)]) rest
      | (.error f, p) =>
        if f.isKind .missingAttribute && !required then p.argumentsFor args rest
        else (.error f, p)

def parametersOf (v : Value) : Except Fault (List (String × Bool)) :=
  match v with
  | .dict es => .ok (es.map fun (name, required) => (name, required.truthy))
  | _ => .error Fault.missingAttribute

/-- The same where the given arguments may be anything: what is no dictionary holds some parameters,
and cannot take up the others. -/
def argumentsBy (p : Processor) (args : Value) (params : List (String × Bool)) :
    Except Fault Value × Processor :=
  match args with
  | .none => asValue (p.argumentsFor [] params)
  | .dict es => asValue (p.argumentsFor es params)
  | args => withheld p args params
where
  asValue (r : Except Fault (List (String × Value)) × Processor) : Except Fault Value × Processor :=
    (r.1.map .dict, r.2)
  /-- The parameters that are not among the arguments must have no answer. -/
  withheld (p : Processor) (args : Value) :
      List (String × Bool) → Except Fault Value × Processor
    | [] => (.ok args, p)
    | (param, required) :: rest =>
      match (Value.text param).isIn args with
      | .error f => (.error f, p)
      | .ok true => withheld p args rest
      | .ok false =>
        match p.answer param with
        | (.ok _, p) => (.error Fault.badType, p)
        | (.error f, p) =>
          if f.isKind .missingAttribute && !required then withheld p args rest else (.error f, p)

/-- Turns to the memory of a check that is described by its parameters and its name, and counts the
visit there. -/
def visit (p : Processor) (check : Value) : Except Fault Processor := do
  let wanted ← (Value.text "checker_state").isIn (← check.entry "parameters")
  let p ← if wanted then pure (p.turnTo (← (← check.entry "name").asKey).plain) else pure p
  match p.checkerState with
  | none => return p
  | some m =>
    let n := ((m.lookup "n").getD (.int 0)).int?.getD 0
    return p.setCheckerState (Entries.put "n" (.int (n + 1)) m)

end Processor

end LintRunner.Source
