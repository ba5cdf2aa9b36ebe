import LintRunner.Config.Ini
import LintRunner.Hook.Git

/-!
# The hooks of a mercurial repository

The hooks are entries of the repository's configuration file. One option of the command line installs
hooks in both kinds of repository, and always ends the run.
-/

namespace LintRunner.Hook.Mercurial

open Config (Ini)

/-- The configuration file of the repository. It is made if it is not there and `create` says so. -/
def configFile (create : Bool) : Run (Option String) := do
  let root ← Git.outputText (← Run.command ["hg", "root"]).output
  let t ← Run.tree
  if !t.isDirectory root then return none
  let file := Path.absolute t.cwd (Path.join (Path.join root ".hg") "hgrc")
  if t.present file then return some file
  if !create then return none
  Run.changeTree (·.write file [])
  return some file

/-- Adds what a configuration file holds; a file that cannot be opened is passed over. -/
def readInto (ini : Ini) (file : Value) : Run Ini := do
  match (← Run.tree).readNamed file with
  | .error f => if f.isKind .system then return ini else throw f
  | .ok bytes =>
    match Source.decodeUtf8 bytes with
    | none => throw Fault.undecodable
    | some text =>
      match ini.read file.plain text with
      | (ini, none) => return ini
      | (_, some f) => throw f

/-- What a configuration file, or each of several, holds; nothing when it is not there. -/
def readConfig (files : Value) : Run Ini := do
  let files ← match files with
    | .text _ => pure [files]
    | files => Run.lift files.elements
  files.foldlM readInto {}

def entry : String := "python:flake8.main.mercurial.hook"

/-- The configuration with both hooks. A hook that is already configured stays, and a file that does
not say how strict the hook is cannot be completed. -/
def withHooks (file : String) (ini : Ini) : Except Fault Ini := do
  let ini := ini.addSection "hooks"
  match ini.get? "hooks" "commit" with
  | some v => throw (.mercurialHookExists .commit v file)
  | none =>
    match ini.get? "hooks" "qrefresh" with
    | some v => throw (.mercurialHookExists .refresh v file)
    | none =>
      let ini := (ini.set "hooks" "commit" entry).set "hooks" "qrefresh" entry
      let ini := ini.addSection "flake8"
      if ini.hasOption "flake8" "strict" then return ini else throw Fault.badType

def install : Run Bool := do
  match ← configFile true with
  | none => return false
  | some file =>
    let ini ← Run.lift (withHooks file (← readConfig (.text file)))
    Run.changeTree (·.write file ini.text.toUTF8.toList)
    Git.printGuide "mercurial hooks"
    return true

/-- A repository as a hook sees it: its directory, the number of each named revision, and the files
of each revision. -/
structure Repository where
  root : String
  nodes : List (String × Value)
  revisions : List Value
deriving Inhabited, Repr

/-- Files among `files` that are there and have not been seen; gives them and all that were seen. -/
def unseen (t : FileTree) (root : String) (seen : List String) :
    List String → List String × List String
  | [] => ([], seen)
  | file :: rest =>
    let path := Path.join root file
    if seen.contains path || !t.present path then unseen t root seen rest
    else
      let (found, seen) := unseen t root (seen ++ [path]) rest
      (path :: found, seen)

/-- The revisions from a number on. Those with negative numbers are counted from the end, and come
first. -/
def revisionsFrom {α : Type} (revisions : List α) (first : Int) : Except Fault (List α) := do
  if 0 ≤ first then return revisions.drop first.toNat
  let before := (-first).toNat
  if revisions.length < before then throw Fault.badIndex
  return revisions.drop (revisions.length - before) ++ revisions

def revisionOf (repo : Repository) (node : Value) : Except Fault Int := do
  if node.int?.isSome then throw Fault.badType
  match ← node.asKey with
  | .text name =>
    match repo.nodes.lookup name with
    | some first => first.asInt
    | none => throw (Fault.missingKey name)
  | key => throw (.raised .missingKey [key])

def changedSources (t : FileTree) (repo : Repository) (node : Value) :
    Except Fault (List String) := do
  let changed ← revisionsFrom repo.revisions (← revisionOf repo node)
  let files ← changed.mapM Value.asTexts
  return (unseen t repo.root [] files.flatten).1.filter (Text.endsWith · ".py")

end LintRunner.Hook.Mercurial

namespace LintRunner.Hook

def isInstallFault : Fault → Bool
  | .gitHookExists _ => true
  | .mercurialHookExists .. => true
  | .raised .hookInstallation _ => true
  | _ => false

def installIn : (system : String) → Run Bool
  | "git" => Git.install
  | "mercurial" => Mercurial.install
  | _ => throw Fault.badType

def install (system : String) : Run Unit := do
  let (successful, failed) ← tryCatch (do return (← installIn system, false)) fun f =>
    if isInstallFault f then do
      Run.printLine f.message
      return (false, true)
    else throw f
  if !successful then Run.printLine ("Could not find the " ++ system ++ " directory")
  throw (.exit (.bool (!successful && failed)))

end LintRunner.Hook
