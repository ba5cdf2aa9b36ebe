import LintRunner.Application.Report
import LintRunner.Hook.Mercurial

/-!
# What hooks do at a commit

A hook checks what is committed and gives the number of findings, or zero if it is not strict.
-/

namespace LintRunner.Running

open Check (FileChecker)

def verdict (strict : Bool) : Running Nat := do
  let n := (← get).reported
  return if strict then n else 0

/-- Files are shown under the names that the user knows, and not by those of their copies. -/
def restoreNames (dir : String) : Running Unit := do
  let a ← get
  let m ← need a.manager
  let checkers ← lift (m.checkers.mapM fun c => do
    let name ← Hook.Git.restoreName a.world.tree.cwd dir (← c.displayName.asText)
    return { c with displayName := .text name })
  set { a with manager := some { m with checkers := checkers } }

/-- The hook of a git repository: staged files are checked in a temporary directory. -/
def gitHook (lazy strict : Bool) : Running Nat := do
  let dir ← inWorld Hook.Git.makeTemporary
  let files ← inWorld (Hook.Git.copyIndexed dir lazy)
  start (some ["."])
  let s ← settings
  let exclude ← lift (Hook.Git.moveExcludes (.text dir) (s.value "exclude"))
  setSettings ((s.set "exclude" (.list exclude)).set "_running_from_vcs" (.bool true))
  if !files.isEmpty then runChecks (Value.texts files)
  inWorld (Hook.Git.removeTemporary dir)
  if !files.isEmpty then
    restoreNames dir
    reportErrors
  verdict strict

/-- The hook of a mercurial repository: the sources that changed since a revision are checked. The
hook is strict unless the repository's configuration says nothing in its place. -/
def mercurialHook (repo : Hook.Mercurial.Repository) (node : Value) : Running Nat := do
  match ← inWorld (Hook.Mercurial.configFile false) with
  | none =>
    inWorld (Run.printLine "Cannot locate your root mercurial repository.")
    throw (.exit (.bool true))
  | some file =>
    let ini ← inWorld (Hook.Mercurial.readConfig (.text file))
    let strict := match ini.get? "flake8" "strict" with
      | some v => !v.isEmpty
      | none => true
    let files ← lift (Hook.Mercurial.changedSources (← get).world.tree repo node)
    start (some files)
    setSettings ((← settings).set "_running_from_vcs" (.bool true))
    runChecks .none
    report
    verdict strict

end LintRunner.Running
