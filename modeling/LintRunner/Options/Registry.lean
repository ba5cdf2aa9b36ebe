import LintRunner.Options.CommandLine
import LintRunner.Text.Template
import LintRunner.World

/-!
# Registered options and plugins

All options that were declared, the plugins that announced themselves, and the codes that plugins
add to the defaults. The registry reads the command line and brings every value into its normal
form.
-/

namespace LintRunner.Options

structure PluginVersion where
  name : Value
  version : Value
  isLocal : Value := .bool false
deriving Inhabited, Repr

/-- The options of the program and its plugins, and the codes that these add. -/
structure Registry where
  program : String := "flake8"
  version : Value := .none
  commandLine : CommandLine := {}
  declarations : List Declaration := []
  configOptions : List (String × Declaration) := []
  plugins : List PluginVersion := []
  extendedIgnore : List String := []
  extendedSelect : List String := []
  fullVersion : Value := .none
  epilog : Option String := none
deriving Inhabited

/-- The words of a command line, unless something among them is no word. -/
abbrev Words := Except Fault (List String)

def wordsOf (own : List String) (v : Value) : Words :=
  match v with
  | .none => .ok own
  | .list items => items.mapM Value.asText
  | _ => .error Fault.badType

namespace Registry

def make (program : String) (version : Value) : Registry :=
  let versionOption : CommandOption :=
    { longs := ["--version"], action := .version,
      help := .text "show program's version number and exit" }
  let helpOption : CommandOption :=
    { shorts := ["-h"], longs := ["--help"], action := .help,
      help := .text "show this help message and exit" }
  { program := program
    version := version
    fullVersion := version
    commandLine :=
      { options := (if version.truthy then [versionOption] else []) ++ [helpOption] } }

def add (r : Registry) (d : Declaration) : Except Fault Registry := do
  let o ← CommandOption.ofDeclaration d
  let line ← r.commandLine.add o d.dest d.default
  let configOptions := match d.configName with
    | some name =>
      Entries.put (Text.replace name "_" "-") d (Entries.put name d r.configOptions)
    | none => r.configOptions
  return { r with
    commandLine := line
    declarations := r.declarations ++ [d]
    configOptions := configOptions }

def addCallback (r : Registry) (call : Callback) : Registry :=
  { r with commandLine := { r.commandLine with callbacks := r.commandLine.callbacks ++ [call] } }

def addWith (r : Registry) (callback : Option Callback) (d : Declaration) : Except Fault Registry :=
  match callback with
  | none => r.add d
  | some call =>
    (r.addCallback call).add { d with
      callback := .object "function"
      handler := some (.plugin r.commandLine.callbacks.length) }

/-- Declares an option by properties without and with names, one of which may be a callback. A single
name may be a long one. -/
def declare (r : Registry) (positional : List Value) (named : List (String × Value))
    (callback : Option Callback := none) : Except Fault Registry := do
  let positional ← match positional with
    | [.text s] => pure (if Text.startsWith s "--" then [.none, .text s] else [.text s])
    | [_] => throw Fault.missingAttribute
    | ps => pure ps
  r.addWith callback (← Declaration.bind positional named)

def union (codes more : List String) : List String :=
  codes ++ Text.dedup (more.filter (!codes.contains ·))

def extendIgnore (r : Registry) (codes : List String) : Registry :=
  { r with extendedIgnore := union r.extendedIgnore codes }

def removeIgnore (r : Registry) (codes : List String) : Registry :=
  { r with extendedIgnore := r.extendedIgnore.filter (!codes.contains ·) }

def extendSelect (r : Registry) (codes : List String) : Registry :=
  { r with extendedSelect := union r.extendedSelect codes }

/-- The codes among the items of a value, up to an item that cannot be in a set. -/
def codesOf (v : Value) : Except Fault (List String × Option Fault) := do
  let items ← v.elements
  let kept := items.takeWhile Value.isHashable
  return (kept.filterMap Value.text?,
    if kept.length < items.length then some Fault.badType else none)

/-- What tells plugins apart, and what they are sorted by: the name, the version, and whether the
plugin is local. -/
def pluginKey (p : PluginVersion) : Value := .tuple [p.name, p.version, p.isLocal]

def announce (r : Registry) (p : PluginVersion) : Except Fault Registry := do
  let key ← (pluginKey p).asKey
  return if r.plugins.any fun q => (pluginKey q).same key then r else { r with plugins := r.plugins ++ [p] }

def sortedPlugins (r : Registry) : Except Fault (List PluginVersion) :=
  Value.sortBy pluginKey r.plugins

def versionFormat : Value := .text "%(name)s: %(version)s"

def versions (r : Registry) (form : Value) (joint : String) : Except Fault String := do
  let ps ← r.sortedPlugins
  let parts ← ps.mapM fun p => do
    Template.fill (← form.asText) (.named [("name", p.name), ("version", p.version)])
  return Text.joinWith joint parts

/-- All plugins, in the form and with the joint that are given, or in the usual ones. -/
def versionsBy (r : Registry) (args : List Value) : Except Fault String :=
  match args with
  | [] => r.versions versionFormat ", "
  | [form] => r.versions form ", "
  | [form, .text joint] => r.versions form joint
  | [_, _] => .error Fault.missingAttribute
  | _ => .error Fault.badType

def makeEpilog (r : Registry) : Except Fault Registry := do
  return { r with epilog := some ("Installed plugins: " ++ (← r.versions versionFormat ", ")) }

def makeFullVersion (r : Registry) : Except Fault Registry :=
  do
    let v ← r.version.asText
    return { r with fullVersion := .text (v ++ " (" ++ (← r.versions versionFormat ", ") ++ ") " ++
      Release.platform) }

def normalizeAll (cwd : String) (s : Settings) : List Declaration → Except Fault Settings
  | [] => .ok s
  | d :: rest => do
    let dest ← d.dest.asText
    let v ← d.normalize cwd "." (← s.get dest)
    normalizeAll cwd (s.set dest v) rest

/-- How unknown options on the command line are taken. -/
inductive Strictness where
  | strict
  | lenient
deriving DecidableEq, Repr

def reader (r : Registry) : CommandLine := { r.commandLine with canReport := !r.plugins.isEmpty }

def readBy (r : Registry) (how : Strictness) (words : List String) (start : Settings) :
    Except Halt (Settings × List String) × CommandLine :=
  match how with
  | .strict =>
    let (result, line) := r.reader.read words start
    (match result with
      | .error (.unknown _ message) => .error (.usage message)
      | .error (.badValue message) => .error (.usage message)
      | result => result, line)
  | .lenient => r.reader.readKnown words start

/-- Reads words; the values start from those given, or from the defaults. Gives the settings in
normal form and the arguments, and the registry with the defaults as they are then. -/
def parseWords (r : Registry) (how : Strictness) (cwd : String) (words : List String)
    (values : Option Settings) : Except Halt (Settings × List String) × Registry :=
  let start : Except Fault Settings := match values with
    | some v => .ok v
    | none => r.commandLine.defaultValues
  match start with
  | .error f => (.error (.fault f), r)
  | .ok start =>
    let (result, line) := r.readBy how words start
    let settled : Except Halt (Settings × List String) := do
      let (found, args) ← result
      let s ← (normalizeAll cwd found r.declarations).mapError Halt.fault
      return (s, args)
    (settled, { r with commandLine := { r.commandLine with defaults := line.defaults } })

/-- Reads words after the texts about plugins have been made, which remain. -/
def parse (r : Registry) (how : Strictness) (cwd : String) (words : Words)
    (values : Option Settings) : Except Halt (Settings × List String) × Registry :=
  match r.makeEpilog with
  | .error f => (.error (.fault f), r)
  | .ok r =>
    match r.makeFullVersion with
    | .error f => (.error (.fault f), r)
    | .ok r =>
      match words with
      | .error f => (.error (.fault f), r)
      | .ok words => r.parseWords how cwd words values

end Registry

end LintRunner.Options
