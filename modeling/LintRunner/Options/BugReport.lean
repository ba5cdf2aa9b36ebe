import LintRunner.Hook.Mercurial
import LintRunner.Options.Help
import LintRunner.Options.Registry

/-!
# Bug reports and other halts

What a bug report needs to know: the version, the plugins, and the platform, written as JSON over
several lines. A halt in reading the command line prints what was asked for, or what is wrong, and
ends the run.
-/

namespace LintRunner.Options

mutual

/-- JSON over several lines, two spaces for each level; keys are in order. -/
def prettyJson (depth : Nat) : Value → String
  | .list [] => "[]"
  | .list items =>
    "[\n" ++ prettyItems (depth + 1) items ++ "\n" ++ Text.spaces (2 * depth) ++ "]"
  | .dict [] => "\x7b\x7d"
  | .dict entries =>
    let lines := (prettyEntries (depth + 1) entries).mergeSort fun a b => !Text.lt b.1 a.1
    "\x7b\n" ++ Text.joinWith ",\n" (lines.map (·.2)) ++ "\n" ++ Text.spaces (2 * depth) ++ "\x7d"
  | .text s => Text.jsonString true s
  | v => v.json

def prettyItems (depth : Nat) : List Value → String
  | [] => ""
  | [v] => Text.spaces (2 * depth) ++ prettyJson depth v
  | v :: rest => Text.spaces (2 * depth) ++ prettyJson depth v ++ ",\n" ++ prettyItems depth rest

/-- Entries of an object: each key with its line. -/
def prettyEntries (depth : Nat) : List (String × Value) → List (String × String)
  | [] => []
  | (k, v) :: rest =>
    (k, Text.spaces (2 * depth) ++ Text.jsonString true k ++ ": " ++ prettyJson depth v) ::
      prettyEntries depth rest

end

namespace Registry

def reportedPlugins (r : Registry) : Except Fault Value := do
  return .list ((← r.sortedPlugins).map fun p =>
    .dict [("plugin", p.name), ("version", p.version), ("is_local", p.isLocal)])

def bugReport (r : Registry) : Except Fault Value := do
  return .dict [
    ("version", r.version),
    ("plugins", ← r.reportedPlugins),
    ("dependencies", .list [.dict [("dependency", .text "entrypoints"),
      ("version", .text Release.loaderVersion)]]),
    ("platform", .dict [
      ("python_implementation", .text Release.interpreter),
      ("python_version", .text Release.interpreterVersion),
      ("system", .text Release.system)])]

end Registry

def screenColumns (w : World) : Int :=
  ((w.envValue "COLUMNS").bind Integer.ofDecimal?).getD 80

def Registry.settle {α : Type} (r : Registry) (h : Halt) : Run α := do
  match h with
  | .help =>
    let page ← Run.lift (helpPage r.commandLine r.program (r.epilog.getD "") (screenColumns (← get)))
    Run.print page
    throw (.exit (.int 0))
  | .version =>
    let v := r.fullVersion
    if v.truthy then Run.printLine (Text.replace v.plain "%prog" r.program)
    throw (.exit (.int 0))
  | .usage message => refuse message
  | .unknown _ message => refuse message
  | .badValue message => refuse message
  | .handled .installHook v =>
    Hook.install v.plain
    throw (.exit (.bool false))
  | .handled .bugReport _ =>
    Run.printLine (prettyJson 0 (← Run.lift r.bugReport))
    throw (.exit (.bool false))
  | .handled (.plugin _) _ => throw Fault.badType
  | .fault f => throw f
where
  refuse {α : Type} (message : String) : Run α := do
    modify fun w => { w with stderr := w.stderr ++ usageLine r.program ++ "\n" ++ r.program ++
      ": error: " ++ message ++ "\n" }
    throw (.exit (.int 2))

end LintRunner.Options
