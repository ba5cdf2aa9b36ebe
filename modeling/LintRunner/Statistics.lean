import LintRunner.Violation

/-!
# Statistics of reported violations

For each file and code: the text of the first violation and how many there were.
-/

namespace LintRunner

structure Statistic where
  code : Value
  file : Value
  message : Value
  count : Nat
deriving Repr, Inhabited

/-- All counts, in the order in which their first violation came. -/
structure Statistics where
  entries : List Statistic := []
deriving Repr, Inhabited

namespace Statistics

def recordIn (v : Violation) : List Statistic → List Statistic
  | [] => [⟨v.code, v.file, v.text, 1⟩]
  | s :: rest =>
    if s.code.same v.code && s.file.same v.file then { s with count := s.count + 1 } :: rest
    else s :: recordIn v rest

/-- Counts a violation; its file and code must be able to be keys. -/
def record (stats : Statistics) (v : Violation) : Except Fault Statistics :=
  if v.file.isHashable && v.code.isHashable then .ok ⟨recordIn v stats.entries⟩
  else .error Fault.badType

/-- The codes seen, in order and without repetition. -/
def codes (stats : Statistics) : Except Fault (List Value) :=
  Value.sorted (Value.distinct (stats.entries.map (·.code)))

def concerns (start file : Value) (s : Statistic) : Except Fault Bool :=
  match s.code, start with
  | .text code, .text start =>
    .ok (Text.startsWith code start && (file matches .none || s.file.same file))
  | .text _, _ => .error Fault.badType
  | _, _ => .error Fault.missingAttribute

def key (s : Statistic) : Value := .tuple [s.file, s.code]

def select (stats : Statistics) (start file : Value) : Except Fault (List Statistic) := do
  Value.sortBy key (← stats.entries.filterM (concerns start file))

end Statistics

end LintRunner
