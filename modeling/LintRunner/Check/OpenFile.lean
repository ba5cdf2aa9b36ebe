import LintRunner.Source.Processor
import LintRunner.World

/-!
# Opening a file for checking

A file is named by its path; a dash, or no name, stands for standard input, which is then shown
under a name from the settings.
-/

namespace LintRunner

def usesStdin (paths : Value) : Except Fault Bool := (Value.text "-").isIn paths

def defaultExclude : List String :=
  [".svn", "CVS", ".bzr", ".hg", ".git", "__pycache__", ".tox", ".eggs", "*.egg"]

namespace Check

def readLines (s : Settings) (filename : Value) (w : World) :
    Except Fault (Value × List String) × World :=
  let fromStdin : Except Fault (Value × List String) × World :=
    match s.get "stdin_display_name" with
    | .error f => (.error f, w)
    | .ok shown =>
      match w.readStdin with
      | (.error f, w) => (.error f, w)
      | (.ok text, w) =>
        (.ok (if shown.truthy then shown else .text "stdin", Source.pipeLines text), w)
  match filename with
  | .none => fromStdin
  | .text "-" => fromStdin
  | filename =>
    match w.tree.readNamed filename with
    | .error f => (.error f, w)
    | .ok bytes => (.ok (filename, Source.fileLines bytes), w)

/-- The state of a file at the start of its check. `given` are its lines, if they are not read. -/
def openFile (s : Settings) (filename : Value) (given : Option (List String)) (w : World) :
    Except Fault Source.Processor × World :=
  let (lines, w) : Except Fault (Value × List String) × World := match given with
    | some lines => (.ok (filename, lines), w)
    | none => readLines s filename w
  let opened : Except Fault Source.Processor := do
    let (name, lines) ← lines
    let lines ← Source.Processor.withoutMark lines
    return {
      filename := name
      lines := lines
      hangClosing := ← s.get "hang_closing"
      maxLineLength := ← s.get "max_line_length"
      verbose := ← s.get "verbose"
      compileFault := w.compileFault }
  (opened, w)

/-- The number of files that a worker process takes at a time: two batches for each worker, and at
least one file. -/
def chunkSize (checkers jobs : Value) : Except Fault Value := do
  let size ← checkers.floorQuotient (← jobs.sum jobs)
  if ← size.isBelow 1 then return .int 1 else return size

end Check

end LintRunner
