import LintRunner.Suppression
import LintRunner.Value.Arithmetic

/-!
# Findings and violations

A check finds something at a place of a file. Once it is attributed to the file, with its column
counted from one, it is a violation. Checks are free in what they tell, so nothing is known of the
parts until they are used: a part of the wrong kind is a fault where something is asked of it.
-/

namespace LintRunner

/-- What a check found: a code, a place, a text, and the line it is shown with. -/
structure Finding where
  code : Value
  line : Value
  column : Value
  text : Value
  source : Value
deriving Repr, Inhabited

structure Violation where
  code : Value
  file : Value
  line : Value
  column : Value
  text : Value
  source : Value
deriving Repr, Inhabited

def Finding.plain (code : String) (line column : Int) (text : String) (source : Option String) :
    Finding :=
  ⟨.text code, .int line, .int column, .text text, (source.map Value.text).getD .none⟩

/-- The violation of a finding: columns count from one, a missing column is the first. -/
def Finding.violation (f : Finding) (file : Value) : Except Fault Violation := do
  let column ← (if f.column.truthy then f.column else .int 0).plus 1
  return ⟨f.code, file, f.line, column, f.text, f.source⟩

/-- The violation lies in the lines that may be reported, which `filter` gives for each file; an
empty filter lets everything through, and a file without lines nothing. -/
def Violation.within (v : Violation) (filter : Value) : Except Fault Bool :=
  if !filter.truthy then .ok true
  else
    match filter with
    | .dict files => do
      let file ← v.file.asKey
      match files.find? fun e => file.same (.text e.1) with
      | some (_, lines) => if lines.truthy then v.line.isIn lines else return false
      | none => return false
    | _ => .error Fault.missingAttribute

/-- A comment on the violation's line suppresses it. `lookup` gives the line of a file when the
violation carries none. -/
def Violation.suppressed (v : Violation) (lookup : Value → Value → Except Fault String) :
    Except Fault Bool := do
  let line ← match v.source with
    | .none => lookup v.file v.line
    | source => source.asText
  match Suppression.mark? line with
  | none => return false
  | some mark =>
    if mark.codes.isNone then return true
    match ← v.code.asKey with
    | .text code => return mark.suppresses code
    | _ => throw Fault.missingAttribute

end LintRunner
