import LintRunner.Application.Report
import LintRunner.Plugin.BuiltIn

/-!
# The command line

Gathers the part of the disk that a command line is about into a file tree, runs the program on it,
and carries out what the run did: files that it wrote, and what it printed. Directories are not
listed, so files have to be named one by one.
-/

namespace LintRunner.CommandLine

def watchedVariables : List String := ["HOME", "XDG_CONFIG_HOME", "COLUMNS"]

/-- The texts in a word that may be paths: the word, what follows its equals sign, and the items of
both. -/
def pathsIn (word : String) : List String :=
  let values := word :: (Text.splitOnChar '=' word).drop 1
  (values ++ values.flatMap (Text.splitOnChar ',')).filter (!·.isEmpty)

def above (path : String) : List String :=
  let names := (Path.parts path).filter (!·.isEmpty)
  (List.range (names.length + 1)).map fun n => "/" ++ Text.joinWith "/" (names.take n)

/-- The files that a run may want to read: those that are named, the project's configuration beside
or above them, and the user's configuration. -/
def wanted (env : List (String × String)) (cwd : String) (words : List String) : List String :=
  let named := (words.flatMap pathsIn).map (Path.absolute cwd)
  let directories := (cwd :: named).flatMap above
  let project := directories.flatMap fun dir =>
    ["setup.cfg", "tox.ini", ".flake8"].map (Path.join dir)
  let home := (env.lookup "HOME").getD "/"
  let user := Path.join ((env.lookup "XDG_CONFIG_HOME").getD (Path.join home ".config")) "flake8"
  Text.dedup (named ++ project ++ [user])

def fileBytes? (path : String) : IO (Option (List UInt8)) := do
  try
    return some (← IO.FS.readBinFile path).toList
  catch _ => return none

def gather (cwd : String) (paths : List String) : IO FileTree := do
  let start : FileTree := { root := .empty, cwd := "/" }
  let mut tree := { start.place cwd .empty with cwd := cwd }
  for path in paths do
    if let some bytes ← fileBytes? path then
      tree := tree.place path (.ofBytes bytes)
  return tree

def writeChanges (before after : FileTree) : IO Unit := do
  for (way, content) in after.root.files do
    let path := "/" ++ Text.joinWith "/" way
    let same := match before.read path with
      | .ok old => old == content
      | .error _ => false
    if !same then IO.FS.writeBinFile path content.toByteArray

/-- The status that a run ends with, and what it says about a fault. -/
def outcome : Except Fault Unit → UInt32 × String
  | .ok () => (0, "")
  | .error (.exit .none) => (0, "")
  | .error (.exit (.bool b)) => (if b then 1 else 0, "")
  | .error (.exit (.int n)) => (UInt32.ofNat (n % 256).toNat, "")
  | .error (.exit v) => (1, v.plain ++ "\n")
  | .error f => (1, f.name ++ ": " ++ f.message ++ "\n")

def run (words : List String) (w : World) : Except Fault Unit × Application :=
  Running.program.run.run { catalogue := Plugin.installed, world := w, words := "flake8" :: words }

/-- Runs the program. A run takes what the clock shows as given, so one that shows benchmarks is
timed first and then run with that time. -/
def perform (words : List String) : IO UInt32 := do
  let env ← watchedVariables.filterMapM fun name => do
    return (← IO.getEnv name).map (name, ·)
  let cwd := (← IO.getEnv "PWD").getD "/"
  let stdin ← if words.any (fun w => w == "-" || w == "--diff")
    then (← IO.getStdin).readBinToEnd else pure .empty
  let tree ← gather cwd (wanted env cwd words)
  let world : World := { tree := tree, env := env, stdin := stdin.toList }
  let begun ← IO.monoNanosNow
  let first ← IO.lazyPure fun _ => run words world
  let ended ← IO.monoNanosNow
  let elapsed := (Binary64.ofInt (ended - begun)).div (Binary64.ofInt 1000000000)
  let timed := (first.2.settings.map (·.1.flag "benchmark")).getD false
  let (result, a) := if timed then run words { world with clock := (⟨0⟩, elapsed) } else first
  writeChanges tree a.world.tree
  IO.print a.world.stdout
  let (status, complaint) := outcome result
  IO.eprint (a.world.stderr ++ complaint)
  return status

end LintRunner.CommandLine

def main (words : List String) : IO UInt32 := LintRunner.CommandLine.perform words
