import LintRunner.Application.Report

/-!
# Sessions

A session checks files again and again with the settings of one run, and may change the format of
its reports in between.
-/

namespace LintRunner.Running.Session

/-- Starts a session with values for settings. Settings that are not known are left alone. A session
needs a notifier, which a run does not have, so it never gets under way. -/
def start (values : List (String × Value)) : Running Unit := do
  parsePreliminary (some [])
  let (s, _) ← need (← get).preliminary
  let _ ← inWorld (configureLogging ((s.value "verbose").int?.getD 0) (s.value "output_file").text?)
  makeFinder
  findPlugins
  registerPluginOptions
  parseConfiguration (some [])
  for (name, v) in values do
    let s ← settings
    if (s.find? name).isSome then setSettings (s.set name v)
  makeFormatter none
  throw Fault.missingAttribute

def checkFiles (paths : Value) : Running Nat := do
  runChecks paths
  reportErrors
  return (← get).reported

/-- A file is excluded, by itself or below a directory. No directory is given back as it is. -/
def excluded (file parent : Value) : Running Value := do
  let s ← settings
  let _ ← need (← get).manager
  let cwd := (← get).world.tree.cwd
  if ← lift (Check.Manager.excludes s cwd file) then return .bool true
  if !parent.truthy then return parent
  let dir ← lift parent.asText
  return .bool (← lift (Check.Manager.excludes s cwd (.text (Path.join dir (← lift file.asText)))))

/-- Changes the format of reports; what depends on it is made anew. -/
def useFormat (style : FormatStyle) : Running Unit := do
  if style = .foreign then
    throw (Fault.badValue "Report should be subclass of flake8.formatter.BaseFormatter.")
  modify fun a => { a with formatter := none, guides := none }
  makeFormatter (some style)
  makeGuides
  modify fun a => { a with manager := none }
  makeManager

/-- The lines that say how often violations were reported. Nothing is counted for the run as a whole,
so there are none. -/
def statistics : List String := []

end LintRunner.Running.Session
