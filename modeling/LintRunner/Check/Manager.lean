import LintRunner.Check.FileChecker
import LintRunner.Discovery.Dynamic
import LintRunner.Number.Integer
import LintRunner.StyleGuide

/-!
# Checking many files

A manager finds the files of a run, checks them one after the other or spread over worker processes,
and hands the findings to the style guides, file by file and in the order of their places.
-/

namespace LintRunner.Check

structure RunCounts where
  files : Nat := 0
  logicalLines : Value := .int 0
  physicalLines : Value := .int 0
  tokens : Value := .int 0
deriving Repr, Inhabited

def RunCounts.plus (r : RunCounts) (name : String) (n : Value) : Except Fault RunCounts := do
  if name = "tokens" then return { r with tokens := ← r.tokens.sum n }
  else if name = "logical lines" then return { r with logicalLines := ← r.logicalLines.sum n }
  else return { r with physicalLines := ← r.physicalLines.sum n }

structure Manager where
  arguments : Value
  jobs : Value
  parallel : Bool
  poolFault : Option Value
  checkers : List FileChecker := []
  counts : RunCounts := {}
deriving Inhabited

/-- Work on many files; what was found remains when it fails. -/
abbrev Supervising := ExceptT Fault (StateM Manager)

def Supervising.lift {α : Type} (r : Except Fault α) : Supervising α :=
  match r with
  | .ok a => pure a
  | .error f => throw f

namespace Manager

/-! ## Making a manager -/

/-- The number of worker processes for a text that the user gave: as many as there are processors,
a number, or none when it is neither. -/
def jobsOfText (processors : Value) (s : String) : Except Fault Value :=
  if s = "auto" then .ok (if processors == .none then .int 0 else processors)
  else if !Text.allDigits s then .ok (.int 0)
  else
    match Integer.ofDecimal? s with
    | some n => .ok (.int n)
    | none => .error (Fault.badInteger s)

/-- The number of worker processes. There are none where processes cannot be started, on Windows,
for standard input, and for a diff. -/
def jobCount (s : Settings) (w : World) (arguments : Value) : Except Fault Value := do
  if !w.canFork || w.windows then return .int 0
  if ← usesStdin arguments then return .int 0
  if (← s.get "diff").truthy then return .int 0
  match ← s.get "jobs" with
  | .text t => jobsOfText w.processors t
  | _ => throw Fault.missingAttribute

def make (s : Settings) (w : World) (arguments : Value) : Except Fault Manager := do
  let jobs ← jobCount s w arguments
  return { arguments := arguments, jobs := jobs, parallel := ← jobs.exceeds 1,
           poolFault := w.poolFault }

/-! ## Finding files -/

/-- The path is not to be checked. Standard input goes by the name it is shown under; under its
usual name it is always checked. -/
def excludes (s : Settings) (cwd : String) (path : Value) : Except Fault Bool := do
  if path.same (.text "-") then
    let shown ← s.get "stdin_display_name"
    if shown.same (.text "stdin") then return false
    return (← Discovery.isMatched cwd (← s.get "exclude") shown).1
  return (← Discovery.isMatched cwd (← s.get "exclude") path).1

/-- A file found for an argument is checked: the user named it, its name matches a pattern, or it is
standard input. Naming a file is not enough when the names come from a repository or a diff. -/
def wants (s : Settings) (argument file : Value) : Except Fault Bool := do
  let accepted ← Discovery.acceptedOr (.bool true) (← s.get "filename") file
  let named := !s.flag "_running_from_vcs" && !s.flag "diff" && argument.same file
  return named || accepted.truthy || file.same (.text "-")

/-- The paths whose files are checked: those given, or else those of the run; without any it is the
current directory. -/
def pathsOf (m : Manager) (paths : Value) : Value :=
  let chosen := if paths == .none then m.arguments else paths
  if chosen.truthy then chosen else .list [.text "."]

/-- Opens a file found for an argument, if it is to be checked. A file that cannot be read, or that
is suppressed, is left out. -/
def openFound (s : Settings) (checks : Checks) (argument file : Value) : Run (List FileChecker) := do
  if !(← Run.lift (wants s argument file)) then return []
  let c ← Run.step (FileChecker.make s checks file)
  return if c.shouldProcess then [c] else []

def openArgument (s : Settings) (checks : Checks) (argument : Value) : Run (List FileChecker) := do
  let t ← Run.tree
  let files ← Run.lift (Discovery.filesBy t (excludes s t.cwd) argument)
  return (← files.mapM (openFound s checks argument)).flatten

def openFiles (s : Settings) (checks : Checks) (m : Manager) (paths : Value) : Run Manager := do
  let arguments ← Run.lift (m.pathsOf paths).elements
  return { m with checkers := (← arguments.mapM (openArgument s checks)).flatten }

/-! ## Order of findings -/

def byColumn (fs : List Finding) : Except Fault (List Finding) :=
  Value.sortBy (fun f => .tuple [f.column, f.column]) fs

def byPlace (fs : List Finding) : Except Fault (List Finding) :=
  Value.sortBy (fun f => .tuple [f.line, f.column]) fs

/-! ## Checking -/

/-- Checks files one after the other; a fault ends this, and the files after it stay as they are. -/
def checkAll : List FileChecker → Except Fault Unit × List FileChecker
  | [] => (.ok (), [])
  | c :: rest =>
    match FileChecker.runChecks.run c with
    | (.error f, c) => (.error f, c :: rest)
    | (.ok _, c) =>
      let (r, rest) := checkAll rest
      (r, c :: rest)

def runSerial : Supervising Unit := do
  let (r, checkers) := checkAll (← get).checkers
  modify fun m => { m with checkers := checkers }
  Supervising.lift r

structure Delivery where
  filename : Value
  results : List Finding
  counts : FileCounts
deriving Repr, Inhabited

def delivery (c : FileChecker) : Delivery := ⟨c.filename, c.results, c.counts⟩

def deliveredFor (name : Value) (ds : List Delivery) : Option Delivery :=
  ds.reverse.find? (·.filename.same name)

/-- A file with what was delivered for it. Deliveries are known by the file as it was given, and are
looked for under the name that is shown. -/
def collect (ds : List Delivery) (c : FileChecker) : Except Fault FileChecker := do
  match deliveredFor c.displayName ds with
  | none => return { c with results := [], counts := {}, counted := false }
  | some d => return { c with results := ← byColumn d.results, counts := d.counts, counted := true }

def collectAll (ds : List Delivery) : List FileChecker → Except Fault Unit × List FileChecker
  | [] => (.ok (), [])
  | c :: rest =>
    match collect ds c with
    | .error f => (.error f, c :: rest)
    | .ok c =>
      let (r, rest) := collectAll ds rest
      (r, c :: rest)

def noSpace : Value := .int 28

/-- The processes of a run: how deliveries come in, and whether files are copied to them. -/
structure Pool where
  arrange : List Delivery → List Delivery
  /-- Every delivery comes in, and comes in once. -/
  arrange_perm : ∀ ds, (arrange ds).Perm ds
  copies : Bool

def Pool.inOrder : Pool := ⟨id, .refl, false⟩

/-- Checks all files with worker processes. Where these cannot be started for want of space the files
are checked one after the other. -/
def runParallelBy (pool : Pool) : Supervising Unit := do
  match (← get).poolFault with
  | some n =>
    if !n.same noSpace then throw (.raised .system [n, .text "pool failure"])
    modify fun m => { m with parallel := false }
    runSerial
  | none =>
    let m ← get
    let _ ← Supervising.lift (chunkSize (.int m.checkers.length) m.jobs)
    let (r, checked) := checkAll m.checkers
    let kept := if pool.copies then m.checkers else checked
    modify fun m => { m with checkers := kept }
    Supervising.lift r
    let (r, checkers) := collectAll (pool.arrange (checked.map delivery)) kept
    modify fun m => { m with checkers := checkers }
    Supervising.lift r

def runParallel : Supervising Unit := runParallelBy .inOrder

/-- Checks all files. Want of space is met by checking one file after the other; an interrupt ends
the run early. -/
def run : Supervising Unit :=
  tryCatch (do if (← get).parallel then runParallel else runSerial) fun f =>
    match f with
    | .raised .system (n :: what :: rest) =>
      if n.same noSpace && Fault.isSystemReport (n :: what :: rest) then runSerial
      else throw (.raised .system (n :: what :: rest))
    | .raised .interrupted _ =>
      throw (Fault.because .earlyQuit "Early quit while running checks")
    | f => throw f

def countNames : List String := ["logical lines", "physical lines", "tokens"]

def countOf (c : FileChecker) (name : String) : Except Fault Value :=
  match c.handed with
  | some (_, counts) => counts.entry name
  | none =>
    if !c.counted then .error (Fault.missingKey name)
    else if name = "tokens" then .ok (.int c.counts.tokens)
    else if name = "logical lines" then .ok (.int c.counts.logicalLines)
    else .ok (.int c.counts.physicalLines)

def countFile (c : FileChecker) : Supervising Unit := do
  for name in countNames do
    let old := (← get).counts
    let counts ← Supervising.lift (do old.plus name (← countOf c name))
    modify fun m => { m with counts := counts }

def stop : Supervising Unit := do
  for c in (← get).checkers do
    countFile c
  modify fun m => { m with counts := { m.counts with files := m.counts.files + m.checkers.length } }

/-! ## Reporting -/

/-- Hands findings of a file to the style guides, in order; gives the number of those reported. A
result is read as a finding when its turn comes. -/
def handleAll {α : Type} (read : α → Except Fault Finding) (file : Value) :
    StyleGuides → List α → Run (Nat × StyleGuides)
  | guides, [] => return (0, guides)
  | guides, x :: rest => do
    let (n, guides) ← guides.handle file (← Run.lift (read x))
    let (more, guides) ← handleAll read file guides rest
    return (n + more, guides)

def findingOf (v : Value) : Except Fault Finding := do
  match ← v.elements with
  | [code, line, column, text, source] => return ⟨code, line, column, text, source⟩
  | items => throw (Value.unpackFault 5 items.length)

def handedInOrder (results : Value) : Except Fault (List Value) := do
  let placed ← (← results.elements).mapM fun r => do
    return (Value.tuple [← r.itemAt 1, ← r.itemAt 2], r)
  return (← Value.sortBy (·.1) placed).map (·.2)

/-- Hands over the findings of a file between two notices to the formatter; gives how many there were
and how many of them were reported. -/
def reportResults {α : Type} (read : α → Except Fault Finding) (file : Value) (guides : StyleGuides)
    (results : List α) : Run ((Nat × Nat) × StyleGuides) := do
  let guides ← guides.inform (·.beginning file)
  let (reported, guides) ← handleAll read file guides results
  let guides ← guides.inform (·.finished file)
  return ((results.length, reported), guides)

/-- Hands over the findings of a file in the order of their places. -/
def reportFile (guides : StyleGuides) (c : FileChecker) : Run ((Nat × Nat) × StyleGuides) := do
  match c.handed with
  | none =>
    reportResults .ok c.displayName guides (← Run.lift (byPlace c.results))
  | some (results, _) =>
    reportResults findingOf c.displayName guides (← Run.lift (handedInOrder results))

def reportAll : StyleGuides → List FileChecker → Run ((Nat × Nat) × StyleGuides)
  | guides, [] => return ((0, 0), guides)
  | guides, c :: rest => do
    let ((found, reported), guides) ← reportFile guides c
    let ((moreFound, moreReported), guides) ← reportAll guides rest
    return ((found + moreFound, reported + moreReported), guides)

def report (m : Manager) (guides : StyleGuides) : Run ((Nat × Nat) × StyleGuides) :=
  reportAll guides m.checkers

end Manager

end LintRunner.Check
