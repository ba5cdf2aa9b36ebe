import LintRunner.Config.Merge

/-!
# Settings of a run

The settings of a run come from four places. Defaults are the weakest; the codes that plugins add
to the defaults join them; values from configuration files replace them; and the command line has
the last word.
-/

namespace LintRunner.Options

open Config (Finder Finding)

def Registry.extendDefaults (r : Registry) (defaults : Settings) : Except Fault Settings := do
  let ignored ← defaults.get "ignore"
  let codes := Registry.union r.extendedIgnore ignored.textItems
  return (defaults.set "ignore" (Value.texts (Text.sorted codes))).set "extended_default_select"
    (.set (r.extendedSelect.map .text))

/-- Puts values from configuration files over the defaults. A value goes to the setting of its own
name, or, where there is none, to the one that the option stores into. -/
def Registry.overlay (r : Registry) (defaults : Settings) (found : List (String × Value)) :
    Settings :=
  found.foldl (fun s (name, v) =>
    let dest := match s.find? name, r.configOptions.lookup name with
      | none, some d => d.dest.text?.getD name
      | _, _ => name
    s.set dest v) defaults

/-- The values of configuration files. Without a finder there are none in isolation, and asking for
them is a fault otherwise. -/
def configured (r : Registry) (finder : Option Finder) (t : FileTree) (asked : Settings) :
    Except Fault (List (String × Value)) × Option Finder :=
  match finder with
  | some f =>
    let (found, f) :=
      ((Config.parse r (asked.value "config") (asked.flag "isolated")).run t).run f
    (found, some f)
  | none => (if asked.flag "isolated" then .ok [] else .error Fault.missingAttribute, none)

/-- The settings of a run and its arguments. The texts about plugins that reading the command line
makes, and what the finder remembers, remain. -/
def aggregate (r : Registry) (finder : Option Finder) (t : FileTree) (words : Words)
    (values : Option Settings) : Except Halt (Settings × List String) × Registry × Option Finder :=
  match r.parse .strict t.cwd (.ok []) values with
  | (.error h, r) => (.error h, r, finder)
  | (.ok (defaults, _), r) =>
    match r.parse .strict t.cwd words none with
    | (.error h, r) => (.error h, r, finder)
    | (.ok (asked, _), r) =>
      let (found, finder) := configured r finder t asked
      let settings : Except Fault Settings := do
        let found ← found
        return r.overlay (← r.extendDefaults defaults) found
      match settings with
      | .error f => (.error (.fault f), r, finder)
      | .ok s =>
        let (out, r) := r.parse .strict t.cwd words (some s)
        (out, r, finder)

end LintRunner.Options
