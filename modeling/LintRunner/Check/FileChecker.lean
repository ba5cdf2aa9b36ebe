import LintRunner.Check.Basic
import LintRunner.Check.OpenFile

/-!
# Checking one file

A file checker runs the checks of a run over one file. Tokens are pulled one by one: at the end of a
physical line the line checks run, at the end of a statement the logical-line checks, and at last
the checks of the whole file. Findings are kept in the order in which they come.
-/

namespace LintRunner.Check

open Source (Token Mapping Processor)

structure FileCounts where
  tokens : Nat := 0
  logicalLines : Nat := 0
  physicalLines : Nat := 0
deriving DecidableEq, Repr, Inhabited

structure FileChecker where
  filename : Value
  displayName : Value
  checks : Checks
  results : List Finding := []
  counts : FileCounts := {}
  /-- The counts are there; a file whose results went astray has none. -/
  counted : Bool := true
  handed : Option (Value × Value) := none
  processor : Option Processor := none
  shouldProcess : Bool := false
deriving Inhabited

/-- Work on one file; what was found remains when it fails. -/
abbrev Checking := ExceptT Fault (StateM FileChecker)

namespace FileChecker

def lift {α : Type} (r : Except Fault α) : Checking α :=
  match r with
  | .ok a => pure a
  | .error f => throw f

def getProcessor : Checking Processor := do
  match (← get).processor with
  | some p => return p
  | none => throw Fault.missingAttribute

def setProcessor (p : Processor) : Checking Unit :=
  modify fun c => { c with processor := some p }

/-- The line shown with a finding: the one given, unless it is empty, or the line with that
number. -/
def shownLine (c : FileChecker) (line given : Value) : Except Fault Value :=
  match given.truthy, c.processor with
  | false, some p => p.lineFor line
  | _, _ => .ok given

def addFinding (code line column text given : Value) : Checking Unit := do
  let source ← lift ((← get).shownLine line given)
  modify fun c => { c with results := c.results ++ [⟨code, line, column, text, source⟩] }

/-- Keeps a result as a finding; the message starts with the code, which is given back. -/
def addResult (line column text given : Value) : Checking Value := do
  let (code, message) ← lift (splitMessage text)
  addFinding code line column message given
  return code

def remember (memory : Option Source.CheckerState) : Checking Unit := do
  match memory with
  | none => pure ()
  | some m => setProcessor ((← getProcessor).setCheckerState m)

/-- Calls a check. The file answers for the parameters that are not given. A parameter that nothing
answers is a fault that names the plugin; an ordinary failure of the check leaves a key missing in
the report about it. -/
def runCheck (check : Checker) (args : Arguments) : Checking Reply := do
  let p ← getProcessor
  let (found, p) := p.argumentsFor args check.parameters
  setProcessor p
  let args ← match found with
    | .ok args => pure args
    | .error f =>
      if f.isKind .missingAttribute then throw (.unknownParameters check.pluginName.plain f) else throw f
  let outcome := check.call args
  if check.wantsMemory then remember outcome.memory
  match outcome.reply with
  | .ok reply => return reply
  | .error f => if f.isOrdinary then throw (Fault.missingKey "exception") else throw f

/-- Gives each result to `use`, in order; results that are produced while they are taken store the
check's memory as they come, and may end in a fault. -/
def forEachResult (check : Checker) (results : Results) (use : Value → Checking Unit) :
    Checking Unit := do
  match results with
  | .nothing => throw Fault.badType
  | .inert => throw Fault.badType
  | .ready items => items.forM use
  | .lone items => items.forM use
  | .stream items memory fault =>
    items.forM fun e => do
      if check.wantsMemory then remember e.memory
      use e.result
    if check.wantsMemory then remember memory
    match fault with
    | some f => throw f
    | none => pure ()

/-! ## Whole files -/

/-- The results of a check of the whole file: those of the run of the object it gave, or what it
gave itself. A run that lacks an attribute counts as no run. -/
def treeResults (check : Checker) (reply : Reply) : Checking Results := do
  match reply with
  | .results r => return r
  | .runner outcome memory =>
    if check.wantsMemory then remember memory
    match outcome with
    | .ok r => return r
    | .error f => if f.isKind .missingAttribute then return .inert else throw f

def isCompileFault (f : Fault) : Bool :=
  f.isKind .badValue || f.isKind .badType || isSyntaxFault f

def reportCompileFault (f : Fault) : Checking Unit := do
  let (row, column) ← lift (syntaxPlace f)
  match f.args with
  | [] => throw Fault.badIndex
  | message :: _ =>
    addFinding (.text "E999") row column (.text (f.name ++ ": " ++ message.plain)) .none

def runTreeChecks : Checking Unit := do
  let p ← getProcessor
  match p.compileFailure with
  | some f => if isCompileFault f then reportCompileFault f else throw f
  | none =>
    for check in (← get).checks.trees do
      let reply ← runCheck check [("tree", .object "Module")]
      let results ← treeResults check reply
      forEachResult check results fun result => do
        let (line, column, text, _) ← lift (unpack4 result)
        let _ ← addResult line column text .none

/-! ## Logical lines -/

def resultPlace (offset : Value) (mapping : Mapping) : Except Fault (Value × Value) := do
  match offset with
  | .tuple items => (Value.tuple items).unpack2
  | .float x =>
    match Source.entryFor (fun stop => !(offset.exceeds stop).toOption.getD true) mapping with
    | some (stop, p) =>
      let column := ((← Binary64.ofInteger p.col).add x).sub (← Binary64.ofInteger stop)
      return (.int p.row, .float column)
    | none => throw Fault.unassigned
  | v =>
    match Source.placeOf (← v.asInt) mapping with
    | some p => return (.int p.row, .int p.col)
    | none => throw Fault.unassigned

def turnTo (check : Checker) : Checking Unit := do
  if check.wantsMemory then setProcessor ((← getProcessor).turnTo check.name)

def callLogicalChecks (parts : Source.LogicalParts) : Checking Unit := do
  for check in (← get).checks.logicalLines do
    turnTo check
    let reply ← runCheck check [("logical_line", .text parts.line)]
    let results := match reply with
      | .results r => r
      | .runner .. => .inert
    match results with
    | .nothing => pure ()
    | results =>
      forEachResult check results fun result => do
        let (offset, text) ← lift result.unpack2
        let (row, col) ← lift (resultPlace offset parts.mapping)
        let _ ← addResult row col text .none

/-- Runs the checks of logical lines on the tokens at hand, which are then done with. Layout alone
makes no line, and stays. -/
def runLogicalChecks : Checking Unit := do
  let (parts, p) ← lift (← getProcessor).buildLogicalLine
  setProcessor p
  if parts.mapping.isEmpty then return
  setProcessor (← lift (p.updateState parts.mapping))
  callLogicalChecks parts
  setProcessor (← getProcessor).nextLogicalLine

/-! ## Physical lines -/

def addLineResult (line shown result : Value) : Checking Unit := do
  let (column, text) ← lift result.unpack2
  let n := (← getProcessor).lineNumber
  let code ← addResult (.int n) column text shown
  setProcessor (← lift ((← getProcessor).checkPhysicalError code line))

def runPhysicalChecks (line override : Value) : Checking Unit := do
  let shown := if override.truthy then override else line
  for check in (← get).checks.physicalLines do
    turnTo check
    let reply ← runCheck check [("physical_line", line)]
    let results := match reply with
      | .results r => r
      | .runner .. => .inert
    match results with
    | .nothing => pure ()
    | .lone items =>
      match items with
      | .int n :: rest => addLineResult line shown (.tuple (.int n :: rest))
      | .bool b :: rest => addLineResult line shown (.tuple (.bool b :: rest))
      | items => items.forM (addLineResult line shown)
    | results => forEachResult check results (addLineResult line shown)

/-! ## Tokens -/

/-- At a line end the line is checked; in a string of several lines each line but the last is, with
the line number wound back to where the string starts. -/
def checkLineEnd (token : Token) : Checking Unit := do
  if token.endsLine then runPhysicalChecks (.text token.line) .none
  else if token.isMultilineString then
    setProcessor { ← getProcessor with lineNumber := token.start.row, multiline := true }
    for line in Processor.splitLine token.text do
      runPhysicalChecks (.text (line ++ "\n")) (.text token.line)
      let p ← getProcessor
      setProcessor { p with lineNumber := p.lineNumber + 1 }
    setProcessor { ← getProcessor with multiline := false }

/-- At the end of a statement its logical line is checked. A line that holds nothing is counted as
blank. -/
def handleNewline (kind : Source.TokenKind) : Checking Unit := do
  if kind = .newline then
    runLogicalChecks
    setProcessor (← getProcessor).resetBlankBefore
  else
    let p ← getProcessor
    if p.tokens.length = 1 then
      setProcessor (← lift p.visitBlankLine.deleteFirstToken)
    else runLogicalChecks

def processToken (depth : Int) (token : Token) : Checking Int := do
  if !(← get).counted then throw (Fault.missingKey "tokens")
  modify fun c => { c with counts := { c.counts with tokens := c.counts.tokens + 1 } }
  checkLineEnd token
  if token.kind = .operator then return Source.bracketDepth depth token.text
  if depth = 0 && token.isNewline then handleNewline token.kind
  return depth

/-- The tokens of one line, one after the other; each joins the tokens of the statement at hand
before it is looked at. Gives the depth of brackets after them, or nothing when a token lies beyond
the last line, which ends the file. -/
def processLineTokens : List Token → (depth : Int) → Checking (Option Int)
  | [], depth => return some depth
  | token :: rest, depth => do
    let p ← getProcessor
    if (p.totalLines : Int) < token.start.row then return none
    setProcessor { p with tokens := p.tokens ++ [token] }
    processLineTokens rest (← processToken depth token)

/-- Feeds lines to a tokenizer until the file ends, `fuel` at most. A line is read only after the
tokens of the line before it have been looked at. -/
def processLinesBy (feed : Source.Feed) :
    (fuel : Nat) → Source.TokenizerState → (depth : Int) → Checking Unit
  | 0, _, _ => pure ()
  | fuel + 1, st, depth => do
    if st.finished then return
    let (line, p) ← lift (← getProcessor).nextLine
    setProcessor p
    match feed st line with
    | .error why => throw (Fault.ofTokenFault (Processor.tokenizeFault why))
    | .ok (tokens, st) =>
      match ← processLineTokens tokens depth with
      | none => pure ()
      | some depth => processLinesBy feed fuel st depth

/-- More lines than a file of `n` lines can feed to the tokenizer: each is fed once, and once more
when the line number is wound back behind the end. -/
def feedBound (n : Nat) : Nat := 3 * (n + 2)

def processRest : Checking Unit := do
  let p ← getProcessor
  if !p.tokens.isEmpty then
    match p.lines.getLast? with
    | none => throw Fault.badIndex
    | some line =>
      runPhysicalChecks (.text line) .none
      runLogicalChecks

def processTokensBy (feed : Source.Feed) : Checking Unit := do
  processLinesBy feed (feedBound (← getProcessor).totalLines) {} 0
  processRest

def processTokens : Checking Unit := processTokensBy Source.TokenizerState.feed

/-- Runs all checks. A file that cannot be cut into tokens gives a finding on its first line. -/
def runChecks : Checking Unit := do
  tryCatch processTokens fun
    | .invalidSyntax message => addFinding (.text "E902") (.int 1) (.int 0) (.text message) .none
    | f => throw f
  runTreeChecks
  let p ← getProcessor
  modify fun c => { c with counts := { c.counts with logicalLines := p.logicalLineCount } }

/-- Opens a file for checking. A file that cannot be read gives a finding; bytes that cannot be
decoded are a fault. -/
def make (s : Settings) (checks : Checks) (filename : Value) (w : World) :
    Except Fault FileChecker × World :=
  let blank : FileChecker := { filename := filename, displayName := filename, checks := checks }
  match openFile s filename none w with
  | (.ok p, w) =>
    (.ok { blank with
      processor := some p
      displayName := p.filename
      shouldProcess := !p.shouldIgnoreFile
      counts := { physicalLines := p.lines.length } }, w)
  | (.error f, w) =>
    if f.isKind .system then
      (.ok { blank with results := [Finding.plain "E902" 0 0 (f.name ++ ": " ++ f.message) none] }, w)
    else (.error f, w)

def shown (c : FileChecker) : String := "FileChecker for " ++ c.filename.plain

end FileChecker

end LintRunner.Check
