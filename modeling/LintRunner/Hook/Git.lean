import LintRunner.Text.Upper
import LintRunner.World

/-!
# The commit hook of a git repository

Installing the hook writes a script into the repository. The hook itself checks what is about to be
committed, and not what lies in the working directory, so the staged files are copied to a temporary
directory first.
-/

namespace LintRunner.Hook.Git

def outputText (out : List UInt8) : Run String :=
  match Source.decodeUtf8 out with
  | some cs => return String.ofList cs
  | none => throw Fault.undecodable

def directory : Run (Option String) := do
  let r ← Run.command ["git", "rev-parse", "--git-dir"]
  let out ← outputText r.output
  return if r.status = 0 then some (Text.trim out) else none

def executable (w : World) : Value :=
  if w.executable == .none then .text "/usr/bin/env python" else w.executable

def script (executable : String) : String :=
  "#!" ++ executable ++ "\nimport sys\n\nfrom flake8.main import git\n\n" ++
    "if __name__ == '__main__':\n    sys.exit(\n        git.hook(\n" ++
    "            strict=git.config_for('strict'),\n            lazy=git.config_for('lazy'),\n" ++
    "        )\n    )\n"

/-- The permissions of the script: all for its owner, reading for everyone. -/
def scriptMode : Nat := 0o744

def printGuide (system : String) : Run Unit := do
  Run.printLine (system ++ " installed, for configuration options see")
  Run.printLine "http://flake8.pycqa.org/en/latest/user/using-hooks.html"

def install : Run Bool := do
  match ← directory with
  | none => return false
  | some dir =>
    if !(← Run.tree).present dir then return false
    let hooks := Path.join dir "hooks"
    if !(← Run.tree).present hooks then Run.changeTree (·.makeDirectory hooks)
    let w ← get
    let file := Path.absolute w.tree.cwd (Path.join hooks "pre-commit")
    if w.tree.present file then throw (.gitHookExists file)
    Run.changeTree (·.write file (script (executable w).plain).toUTF8.toList)
    Run.changeTree fun t => .ok (t.setMode file scriptMode)
    printGuide "git pre-commit hook"
    return true

def outputLines (words : List String) : Run (List String) := do
  let r ← Run.command words
  return (Text.wideLines (← outputText r.output).toList).map fun line =>
    String.ofList (Text.dropLineEnd line)

/-- Files that are about to be committed, or, when `lazy`, that differ from the last commit. -/
def modifiedFiles (lazy : Bool) : Run (List String) :=
  outputLines (["git", "diff-index"] ++ (if lazy then [] else ["--cached"]) ++
    ["--name-only", "--diff-filter=ACMRTUXB", "HEAD"])

def setupFiles (lazy : Bool) : Run (List String) :=
  outputLines (["git", "ls-files"] ++ (if lazy then [] else ["--cached"]) ++ ["*setup.cfg"])

def staged (file : String) : Run (List UInt8) := return (← Run.command ["git", "show", ":" ++ file]).output

def wayTo (cwd start path : String) : Except Fault String :=
  if path.isEmpty then .error (Fault.badValue "no path specified")
  else .ok (Path.relative cwd start path)

/-- The place for a directory below a temporary one: the way that leads to it from what both paths
have in common. -/
def placeBelow (cwd destination dir : String) : Except Fault String := do
  return Path.join destination (← wayTo cwd (Path.commonStart [dir, destination]) dir)

def copyPath (cwd destination file : String) : Except Fault (String × String) := do
  let path := Path.absolute cwd file
  let dir ← placeBelow cwd destination (Path.dirName path)
  return (dir, Path.join dir (Path.baseName path))

def copyTo (destination file : String) (content : List UInt8) : Run String := do
  let (dir, path) ← Run.lift (copyPath (← Run.tree).cwd destination file)
  if !(← Run.tree).present dir then Run.makeDirectories dir
  Run.changeTree (·.write path content)
  return path

def copyStaged (destination file : String) : Run String := do
  copyTo destination file (← staged file)

/-- Copies the staged setup files and the files that are about to be committed; gives the latter. -/
def copyIndexed (destination : String) (lazy : Bool) : Run (List String) := do
  for file in ← setupFiles lazy do
    let _ ← copyStaged destination file
  (← modifiedFiles lazy).mapM (copyStaged destination)

def makeTemporary : Run String := do
  let dir := (← get).temporary
  Run.changeTree fun t => .ok (t.place dir .empty)
  return dir

def removeTemporary (dir : String) : Run Unit := Run.changeTree fun t => .ok (t.remove dir)

def setting (name : String) : Run String := do
  let r ← Run.command ["git", "config", "--get", "--bool", name]
  return Text.trim (← outputText r.output)

def onWords : List String := ["true", "1", "t"]

/-- A switch of the hook: a variable of the environment comes before the repository's setting. -/
def isOn (parameter : String) : Run Bool := do
  let fallback ← setting ("flake8." ++ parameter)
  let value := ((← get).envValue (Text.upper ("flake8_" ++ parameter))).getD fallback
  return onWords.contains (Text.lower value)

def moveExcludes (dir patterns : Value) : Except Fault (List Value) := do
  (← patterns.elements).mapM fun pattern => do
    let p ← pattern.asText
    if Path.isAbsolute p then return .text ((← dir.asText) ++ p) else return pattern

def restoreName (cwd dir name : String) : Except Fault String :=
  if Text.startsWith name dir then wayTo cwd "." (Text.drop dir.length name) else .ok name

def restoreNames (cwd : String) (dir names : Value) : Except Fault (List String) := do
  let _ ← dir.size
  (← names.elements).mapM fun
    | .text name => do restoreName cwd (← dir.asText) name
    | _ => throw Fault.missingAttribute

end LintRunner.Hook.Git
