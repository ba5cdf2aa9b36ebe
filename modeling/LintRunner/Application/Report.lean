import LintRunner.Application.Stages

/-!
# Checks and reports of a run

Runs the checks, reports what they found, and ends with a status.
-/

namespace LintRunner.Running

open Check (Manager)
open Plugin (Managing)

/-- The files of a diff, in order. A file without a name cannot be checked. -/
def diffFiles (d : Diff.Coverage) : Except Fault (List String) := do
  let names ← d.mapM fun (file, _) =>
    match file with
    | some name => .ok name
    | none => Except.error Fault.badType
  return Text.sorted names

def openFiles (paths : Value) : Running Unit := do
  let m ← need (← get).manager
  let s ← settings
  let checks ← withChecks Managing.checks
  let m ← inWorld (m.openFiles s checks paths)
  modify fun a => { a with manager := some m }

/-- Runs the checks. A plugin that says that it failed makes the run fail, and not stop. -/
def runChecks (files : Value) : Running Unit := do
  let files ← match (← get).diff with
    | some d => pure (Value.texts (← lift (diffFiles d)))
    | none => pure files
  openFiles files
  tryCatch (withManager Manager.run) fun f =>
    match f with
    | .executionFailed .. => do
      inWorld (Run.printLine f.message)
      inWorld (Run.printLine "Run flake8 with greater verbosity to see more details")
      modify fun a => { a with failed := true }
    | f => throw f
  withManager Manager.stop
  modify fun a => { a with finished := true }

def reportErrors : Running Unit := do
  let a ← get
  let m ← need a.manager
  let ((found, reported), guides) ← inWorld (m.report (← need a.guides))
  modify fun a => { a with
    guides := some guides
    formatter := if a.sharesFormatter then guides.formatter else a.formatter
    found := found
    reported := reported }

/-- Shows how often each code was reported, if that is asked for. Nothing is counted for the run as a
whole, so nothing is shown. -/
def reportStatistics : Running Unit := do
  if !(← settings).flag "statistics" then return
  let a ← get
  let f ← need a.formatter
  let _ ← need a.guides
  inWorld (f.showStatistics {})

def perSecond (count : Value) (seconds : Binary64) : Except Fault Int := do
  if seconds.isZero then throw (Fault.because .divisionByZero "float division by zero")
  ((← count.asReal).div seconds).toInteger

def figures (seconds : Binary64) (name : String) (count : Value) : Except Fault (List Value) := do
  return [.tuple [.text ("total " ++ name ++ " processed"), count],
    .tuple [.text (name ++ " processed per second"), .int (← perSecond count seconds)]]

def reportBenchmarks : Running Unit := do
  if !(← settings).flag "benchmark" then return
  let a ← get
  if !a.finished then throw Fault.badType
  let seconds := a.world.clock.2.sub a.world.clock.1
  let c := (← need a.manager).counts
  let counts := [("logical lines", c.logicalLines), ("physical lines", c.physicalLines),
    ("tokens", c.tokens), ("files", .int c.files)]
  let shown ← lift (counts.mapM fun (name, count) => figures seconds name count)
  inWorld ((← need a.formatter).showBenchmarks
    (.list (.tuple [.text "seconds elapsed", .float seconds] :: shown.flatten)))

def report : Running Unit := do
  setFormatter (← inWorld (← need (← get).formatter).start)
  reportErrors
  reportStatistics
  reportBenchmarks
  setFormatter (← need (← get).formatter).stop

/-- All stages, the checks and the report. An interrupt or an early end makes the run fail; so does a
fault in the execution, which is then told without its text being there. -/
def execute (argv : Option (List String)) : Running Unit := do
  let attempt : Running Unit := do
    start argv
    runChecks .none
    report
  let stopped (line : String) : Running Unit := do
    inWorld (Run.printLine line)
    modify fun a => { a with failed := true }
  tryCatch attempt fun f =>
    match f with
    | .raised .interrupted _ => stopped "... stopped"
    | .raised .earlyQuit _ => stopped "... stopped while processing files"
    | .raised .execution _ => do
      inWorld (Run.printLine "There was a critical error during execution of Flake8:")
      throw Fault.missingAttribute
    | f => throw f

def program : Running Unit := do
  execute none
  exit

end LintRunner.Running
