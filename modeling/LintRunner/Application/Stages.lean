import LintRunner.Application.Basic
import LintRunner.Log
import LintRunner.Options.Aggregate

/-!
# The stages of a run

From the words of the command line to a manager that knows the files to check.
-/

namespace LintRunner.Running

open Check (Manager)
open Config (Finder)
open Options (Registry)
open Plugin (Collection Entity Managing)

/-- Ends the run as its settings say: after the number of reported findings, if it is asked for, with
a status that tells whether there were any or something went wrong. -/
def exit : Running Unit := do
  let s ← settings
  let a ← get
  if s.flag "count" then inWorld (Run.printLine (toString a.reported))
  if !s.flag "exit_zero" then throw (.exit (.bool (0 < a.reported || a.failed)))

def readWords (how : Registry.Strictness) (words : Options.Words) :
    Running (Settings × List String) := do
  let a ← get
  let (r, registry) := a.registry.parse how a.world.tree.cwd words none
  set { a with registry := registry }
  match r with
  | .ok result => return result
  | .error h => inWorld (registry.settle h)

def deferredWords : List String := ["--version", "--help", "-h"]

/-- The words that are read for preliminary settings: each that has to wait is left out once. -/
def preliminaryWords (words : List String) : List String := deferredWords.foldl List.erase words

/-- Reads the command line before plugins are known. Options that are not known are kept for later;
the arguments are what is left and looks like no option. Without words the command line of the
program counts. -/
def parsePreliminary (argv : Option (List String)) : Running Unit := do
  let own := (← get).words
  let given := match argv with
    | some (w :: rest) => w :: rest
    | _ => own
  let (s, rest) ← readWords .lenient (.ok (preliminaryWords given))
  let arguments := (rest.drop 1).filter fun word => !Text.startsWith word "-"
  modify fun a => { a with preliminary := some (s, arguments) }

def makeFinder : Running Unit := do
  let a ← get
  if a.finder.isSome then return
  let (s, arguments) ← need a.preliminary
  let cwd := a.world.tree.cwd
  let extra ← lift (Options.Declaration.listed .commaOrBlank (s.value "append_config"))
  let finder := Finder.make a.world a.registry.program arguments
    (extra.map (Path.normalized cwd "."))
  set { a with finder := some finder }

/-- Finds the plugins that configuration files name, unless that has been done. -/
def findLocalPlugins : Running Config.LocalPlugins := do
  let a ← get
  match a.localPlugins with
  | some l => return l
  | none =>
    let (s, _) ← need a.preliminary
    let isolated := s.flag "isolated"
    let (found, finder) : Except Fault Config.LocalPlugins × Option Finder := match a.finder with
      | some f =>
        let (r, f) := ((Config.localPlugins (s.value "config") isolated).run a.world.tree).run f
        (r, some f)
      | none => (if isolated then .ok {} else .error Fault.missingAttribute, none)
    set { a with finder := finder }
    let l ← lift found
    modify fun a => { a with localPlugins := some l }
    return l

def findPlugins : Running Unit := do
  let l ← findLocalPlugins
  let catalogue := (← get).catalogue
  if (← get).checks.isNone then
    let c ← lift (Collection.make (Value.texts l.extensions) catalogue.extensions)
    modify fun a => { a with checks := some c }
  if (← get).formats.isNone then
    let c ← lift (Collection.make (Value.texts l.reports) catalogue.reports)
    modify fun a => { a with formats := some c }
  withChecks Managing.loadAll
  withFormats Managing.loadAll

def registerPluginOptions : Running Unit := do
  withChecks (Managing.registerAllOptions true)
  withChecks Managing.announceAll
  withFormats (Managing.registerAllOptions false)

/-- Reads configuration files and the command line, unless that has been done. -/
def readSettings (argv : Option Options.Words) : Running Unit := do
  let a ← get
  if a.settings.isSome then return
  let words := argv.getD (.ok (a.words.drop 1))
  let (r, registry, finder) := Options.aggregate a.registry a.finder a.world.tree words none
  set { a with registry := registry, finder := finder }
  match r with
  | .ok result => modify fun a => { a with settings := some result }
  | .error h => inWorld (registry.settle h)

/-- Reads the diff on standard input, if the run is about one. An empty one ends the run. -/
def readDiff : Running Unit := do
  if (← settings).flag "diff" then
    modify fun a => { a with diff := some [] }
    let coverage ← lift (Diff.read (← inWorld Run.stdin))
    modify fun a => { a with diff := some coverage }
    if coverage.isEmpty then exit
  else modify fun a => { a with diff := none }

def parseConfiguration (argv : Option (List String)) : Running Unit := do
  readSettings (argv.map .ok)
  readDiff
  setSettings ((← settings).set "_running_from_vcs" (.bool false))
  let arguments := (← need (← get).settings).2
  withChecks (Managing.provideAllOptions (Value.texts arguments))
  withFormats (Managing.provideAllOptions (Value.texts arguments))

def formatPlugin (name : Value) : Running String := do
  match (← get).formats with
  | none => throw Fault.badType
  | some c =>
    if (c.find? "default").isNone then throw (Fault.missingKey "default")
    match ← lift name.asKey with
    | .text name => return if (c.find? name).isSome then name else "default"
    | _ => return "default"

def formatterOf (plugin : String) (s : Settings) : Running Formatter := do
  match ← withFormats (Managing.entity plugin) with
  | .format style own => lift (Formatter.make style own s)
  | .extension x =>
    let _ ← lift ((x.signature.bindPlaces [.object "Values"]).bind fun args => (x.call args).reply)
    return { style := .foreign, template := none, output := .none, tee := false, showsSource := false }
  | _ => throw Fault.badType

def formatName (s : Settings) : Except Fault Value := do
  let format ← s.get "format"
  let quiet ← s.get "quiet"
  if ← quiet.isAtLeast 2 then return .text "quiet-nothing"
  return if ← quiet.isAtLeast 1 then .text "quiet-filename" else format

/-- Makes the formatter, unless there is one; `style` is the one to use, if it is given. -/
def makeFormatter (style : Option FormatStyle) : Running Unit := do
  if (← get).formatter.isSome then return
  let s ← settings
  let name ← lift (formatName s)
  let f ← match style with
    | some style => lift (Formatter.ofSettings style s)
    | none => formatterOf (← formatPlugin name) s
  modify fun a => { a with formatter := some f, sharesFormatter := a.guides.isNone }

/-- Makes the style guides, unless there are some. They cannot take the rows of a diff. -/
def makeGuides : Running Unit := do
  let a ← get
  if a.guides.isNone then
    let g ← lift (StyleGuides.ofSettings a.world.tree.cwd (← settings) a.formatter)
    set { a with guides := some g, sharesFormatter := true }
  if a.diff.isSome then throw Fault.missingAttribute

def makeManager : Running Unit := do
  let a ← get
  if a.manager.isSome then return
  let _ ← need a.guides
  let (s, arguments) ← need a.settings
  let m ← lift (Manager.make s a.world (Value.texts arguments))
  set { a with manager := some m }

def start (argv : Option (List String)) : Running Unit := do
  parsePreliminary argv
  let (s, _) ← need (← get).preliminary
  let _ ← inWorld (configureLogging ((s.value "verbose").int?.getD 0) (s.value "output_file").text?)
  makeFinder
  findPlugins
  registerPluginOptions
  parseConfiguration argv
  makeFormatter none
  makeGuides
  makeManager

end LintRunner.Running
