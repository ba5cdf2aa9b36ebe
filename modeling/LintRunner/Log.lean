import LintRunner.World

/-!
# Where the log goes

The verbosity chooses how much is logged, and a file name where: to a standard stream or to a file.
-/

namespace LintRunner

inductive LogLevel where
  | info
  | debug
  | verbose
deriving DecidableEq, Repr

def LogLevel.name : LogLevel → String
  | info => "INFO"
  | debug => "DEBUG"
  | verbose => "VERBOSE"

inductive LogTarget where
  | stream (name : String)
  | file (path : String)
deriving DecidableEq, Repr

def logLevel? (verbosity : Int) : Option LogLevel :=
  if verbosity ≤ 0 then none
  else if verbosity = 1 then some .info
  else if verbosity = 2 then some .debug
  else some .verbose

/-- The target for a file name: no name is standard error, and the streams have names. -/
def logTarget (filename : Option String) : LogTarget :=
  match filename with
  | none => .stream "stderr"
  | some "" => .stream "stderr"
  | some "stderr" => .stream "stderr"
  | some "stdout" => .stream "stdout"
  | some path => .file path

/-- Sets up logging; a log file is opened at its end, by its absolute path. -/
def configureLogging (verbosity : Int) (filename : Option String) :
    Run (Option (LogLevel × LogTarget)) := do
  match logLevel? verbosity with
  | none => return none
  | some level =>
    match logTarget filename with
    | .stream name => return some (level, .stream name)
    | .file path =>
      let w ← get
      let whole := Path.absolute w.tree.cwd path
      let tree ← Run.lift (w.tree.append whole [])
      set { w with tree := tree }
      return some (level, .file whole)

end LintRunner
