import LintRunner.FileTree
import LintRunner.Settings
import LintRunner.Source.Encoding
import LintRunner.Text.Basic
import LintRunner.Value.Arithmetic

/-!
# The world of a run

Everything a run can see and change: files, standard input and output, the environment, the machine
it runs on, and commands it may start. A run is a function on this value that may stop with a fault;
what it did before the fault stays done. The release says what the program calls itself.
-/

namespace LintRunner

structure CommandResult where
  status : Int
  output : List UInt8
deriving Repr, Inhabited

structure World where
  tree : FileTree
  stdout : String := ""
  stderr : String := ""
  stdin : List UInt8 := []
  stdinText : Option String := none
  env : List (String × String) := []
  processors : Value := .int 1
  canFork : Bool := true
  windows : Bool := false
  windowsHome : Bool := false
  poolFault : Option Value := none
  /-- What the clock shows, in seconds, when a run starts and when its checks are done. -/
  clock : Binary64 × Binary64 := (⟨0⟩, ⟨0⟩)
  compileFault : Option Fault := none
  executable : Value := .text "/usr/bin/python"
  commands : List (String × CommandResult) := []
  temporary : String := "/tmp/staged"
  started : List String := []
  provided : List Value := []
deriving Inhabited

/-- A computation in a world; what it changes remains when it fails. -/
abbrev Run := ExceptT Fault (StateM World)

namespace World

def print (w : World) (s : String) : World := { w with stdout := w.stdout ++ s }

def envValue (w : World) (name : String) : Option String := w.env.lookup name

def readStdin (w : World) : Except Fault String × World :=
  match w.stdinText with
  | some s => (.ok s, w)
  | none =>
    match Source.pipeText w.stdin with
    | some cs => (.ok (String.ofList cs), { w with stdinText := some (String.ofList cs) })
    | none => (.error Fault.undecodable, w)

/-- The lines of a source file, each with its line feed; none when it cannot be read. A name in
angle brackets stands for no file. -/
def sourceLines (w : World) (file : String) : Except Fault (List String) := do
  if file.isEmpty || (Text.startsWith file "<" && Text.endsWith file ">") then return []
  if file.toList.contains '\x00' then throw (PathFault.notPath.fault file)
  match w.tree.read file with
  | .error _ => return []
  | .ok bytes =>
    let lines := Text.linesAfterFeed (Text.unifyNewlines ((Source.announcedText bytes).getD []))
    return lines.map fun line =>
      String.ofList (if line.getLast? = some '\n' then line else line ++ ['\n'])

def lineOf (w : World) (file line : Value) : Except Fault String := do
  let lines ← match ← file.asKey with
    | .text name => w.sourceLines name
    | file => if file.truthy then throw Fault.missingAttribute else pure []
  if ← line.isBetween 1 lines.length then
    return (lines[((← line.asInt) - 1).toNat]?).getD ""
  return ""

end World

namespace Run

def lift {α : Type} (r : Except Fault α) : Run α :=
  match r with
  | .ok a => pure a
  | .error f => throw f

def step {α : Type} (f : World → Except Fault α × World) : Run α := do
  let (r, w) := f (← get)
  set w
  lift r

def print (s : String) : Run Unit := modify (·.print s)

def printLine (s : String) : Run Unit := print (s ++ "\n")

def stdin : Run String := step World.readStdin

def tree : Run FileTree := return (← get).tree

def changeTree (f : FileTree → Except Fault FileTree) : Run Unit := do
  let t ← lift (f (← get).tree)
  modify fun w => { w with tree := t }

/-- Makes a directory, and first the one it lies in if that is missing; a way that turns back makes
that one before it is asked for. -/
def makeDirectories (path : String) : Run Unit := do
  let parent := (Path.splitLast path).1
  let isThere := (← tree).present parent
  if h : (Path.splitLast path).2 ≠ "" ∧ parent ≠ "" ∧ isThere = false then
    have : parent.length < path.length := Path.length_splitLast h.1
    tryCatch (makeDirectories parent) fun
      | .raised .system (.int 17 :: _) => pure ()
      | f => throw f
    unless (Path.splitLast path).2 = "." do changeTree (·.makeDirectory path)
  else changeTree (·.makeDirectory path)
termination_by path.length

/-- Starts a command and waits for its end. A command that is not known fails and prints nothing. -/
def command (words : List String) : Run CommandResult := do
  let line := Text.joinWith " " words
  modify fun w => { w with started := w.started ++ [line] }
  return ((← get).commands.lookup line).getD ⟨1, []⟩

end Run

end LintRunner

namespace LintRunner.Release

def version : String := "3.7.0dev1"

def versionNumbers : List Nat := [3, 7]

def interpreterVersion : String := "3.11.6"

def interpreter : String := "CPython"

def loaderVersion : String := "0.2.3"

def system : String := "Linux"

def platform : String := interpreter ++ " " ++ interpreterVersion ++ " on " ++ system

end LintRunner.Release
