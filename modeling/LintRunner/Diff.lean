import LintRunner.Fault
import LintRunner.Text.Basic
import LintRunner.Text.Digit
import LintRunner.Text.Lines

/-!
# Line ranges of a unified diff

A diff names files and hunks. For each file the rows that its hunks cover in the new version are
collected. While rows of a hunk remain, every line that does not start with a minus uses one up,
whatever it looks like.
-/

namespace LintRunner.Diff

structure Rows where
  first : Nat
  count : Nat
deriving DecidableEq, Repr

/-- For each file, in order of its first hunk, its hunks. A hunk before any file name belongs to no
file. -/
abbrev Coverage := List (Option String × List Rows)

def Rows.holds (r : Rows) (n : Int) : Bool := (r.first : Int) ≤ n && n < r.first + r.count

def addRows (file : Option String) (rows : Rows) : Coverage → Coverage
  | [] => [(file, [rows])]
  | (f, rs) :: rest =>
    if f = file then (f, rs ++ [rows]) :: rest else (f, rs) :: addRows file rows rest

def digits? (cs : List Char) : Option (List Char × List Char) :=
  match cs.takeWhile Text.isDecimal with
  | [] => none
  | ds => some (ds, cs.dropWhile Text.isDecimal)

/-- A range `a` or `a,b` at the start of the text. -/
def range? (cs : List Char) : Option ((List Char × Option (List Char)) × List Char) :=
  match digits? cs with
  | none => none
  | some (a, ',' :: rest) =>
    match digits? rest with
    | some (b, rest') => some ((a, some b), rest')
    | none => some ((a, none), ',' :: rest)
  | some (a, rest) => some ((a, none), rest)

/-- The numerals of a hunk header for the new version: the first row, and how many there are. -/
def numerals? (line : List Char) : Option (List Char × Option (List Char)) := do
  let rest ← Text.afterPrefix? "@@ -".toList line
  let (_, rest) ← range? rest
  let rest ← Text.afterPrefix? " +".toList rest
  let (numerals, rest) ← range? rest
  let _ ← Text.afterPrefix? " @@".toList rest
  return numerals

def hunk? (line : List Char) : Option Rows :=
  (numerals? line).map fun (first, count) =>
    ⟨Text.digitsValue first, (count.map Text.digitsValue).getD 1⟩

/-- The file that a `+++` line names: up to the first tab, without the `b/` of some tools. -/
def namedFile (line : List Char) : String :=
  let name := (line.drop 4).takeWhile (· != '\t')
  match name with
  | 'b' :: '/' :: rest => String.ofList rest
  | _ => String.ofList name

/-- Where the reader of a diff stands: rows left in the hunk, and the file named last. -/
structure State where
  rowsLeft : Nat := 0
  file : Option String := none
  coverage : Coverage := []
deriving DecidableEq, Repr

def State.feed (s : State) (line : List Char) : State :=
  if s.rowsLeft ≠ 0 then
    if line.head? = some '-' then s else { s with rowsLeft := s.rowsLeft - 1 }
  else if line.take 3 = ['+', '+', '+'] then { s with file := some (namedFile line) }
  else
    match hunk? line with
    | some rows =>
      { s with rowsLeft := rows.count, coverage := addRows s.file rows s.coverage }
    | none => s

/-- The numerals of a hunk header can be read: none has too many digits. -/
def checkNumerals (line : List Char) : Except Fault Unit :=
  match numerals? line with
  | none => .ok ()
  | some (first, count) =>
    (first :: count.toList).forM fun ds =>
      match Integer.ofDecimal? (String.ofList ds) with
      | some _ => .ok ()
      | none => .error (Fault.badInteger (String.ofList ds))

def State.take (s : State) (line : List Char) : Except Fault State := do
  if s.rowsLeft = 0 && line.take 3 ≠ ['+', '+', '+'] then checkNumerals line
  return s.feed line

def read (diff : String) : Except Fault Coverage := do
  let s ← ((Text.wideLines diff.toList).map Text.dropLineEnd).foldlM State.take {}
  return s.coverage

def covers (rows : List Rows) (n : Int) : Bool := rows.any (·.holds n)

def runs (rows : List Rows) : List (Nat × Nat) :=
  let spans := (rows.filter (·.count ≠ 0)).map fun r => (r.first, r.first + r.count - 1)
  (spans.mergeSort fun a b => a.1 ≤ b.1).foldl
    (fun acc span =>
      match acc.getLast? with
      | some last =>
        if span.1 ≤ last.2 + 1 then acc.dropLast ++ [(last.1, max last.2 span.2)]
        else acc ++ [span]
      | none => [span])
    []

end LintRunner.Diff
