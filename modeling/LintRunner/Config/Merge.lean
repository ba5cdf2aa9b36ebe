import LintRunner.Config.Finder
import LintRunner.Options.Registry

/-!
# Values from configuration files

Options that are registered as configurable take values from the program's section of the
configuration files. The project's configuration comes before the user's, and a file named by the
user comes in place of both.
-/

namespace LintRunner.Config

open Options (Declaration Registry)

def truthWord? (s : String) : Option Bool :=
  let word := Text.lower s
  if ["1", "yes", "true", "on"].contains word then some true
  else if ["0", "no", "false", "off"].contains word then some false
  else none

/-- A value in a file as the option wants it: an integer, a truth value, or a text. -/
def readValue (d : Declaration) (s : String) : Except Fault Value :=
  if [d.type, d.action].any fun v => v == .text "int" || v == .text "count" then
    Declaration.toInteger (.text s)
  else if d.action == .text "store_true" || d.action == .text "store_false" then
    match truthWord? s with
    | some b => .ok (.bool b)
    | none => .error (Fault.badValue ("Not a boolean: " ++ s))
  else .ok (.text s)

/-- The value that an option takes from a text in a file. -/
def valueOf (d : Declaration) (cwd directory s : String) : Except Fault Value :=
  readValue d s >>= d.normalize cwd directory

/-- One more option of a section, which counts if it is configurable. -/
def readOption (r : Registry) (ini : Ini) (cwd directory : String) (found : List (String × Value))
    (option : String) : Except Fault (List (String × Value)) :=
  match r.configOptions.lookup option, ini.get? r.program option with
  | some d, some s => do
    let v ← valueOf d cwd directory s
    return Entries.put (d.configName.getD "") v found
  | _, _ => .ok found

def sectionValues (r : Registry) (ini : Ini) (cwd directory : String) :
    Except Fault (List (String × Value)) :=
  (ini.options r.program).foldlM (readOption r ini cwd directory) []

def valuesOf (r : Registry) (ini : Ini) : Finding (List (String × Value)) := do
  match sectionValues r ini (← read).cwd (← get).localDirectory with
  | .ok vs => return vs
  | .error f => throw f

def localValues (r : Registry) : Finding (List (String × Value)) := do
  valuesOf r (← Finder.localConfig)

def userValues (r : Registry) : Finding (List (String × Value)) := do
  valuesOf r (← Finder.userConfigs)

def cliValues (r : Registry) (file : Value) : Finding (List (String × Value)) := do
  valuesOf r (← Finder.cliConfig file)

/-- The project's values and those of the user's that it does not set. -/
def mergedValues (r : Registry) : Finding (List (String × Value)) := do
  let user ← userValues r
  let own ← localValues r
  return user.foldl (fun vs e => Entries.putNew e.1 e.2 vs) own

/-- The values of all configuration that counts: none in isolation, a file that the user named, or
the project's and the user's. -/
def parse (r : Registry) (cliConfig : Value) (isolated : Bool) :
    Finding (List (String × Value)) := do
  if isolated then return []
  if cliConfig.truthy then cliValues r cliConfig else mergedValues r

end LintRunner.Config
