import LintRunner.Source.Processor
import LintRunner.Value.Arithmetic
import LintRunner.Violation

/-!
# Checks and what they give back

A check is called with named arguments. It may give nothing, results that are ready, or results that
are produced while they are taken, so that a fault may follow some of them. A check for whole files
may also give an object whose run gives the results. Where a source fails to compile, the place that
is reported comes from the details of the fault.
-/

namespace LintRunner.Check

open Source (CheckerState)

abbrev Arguments := List (String × Value)

/-- A result produced while it is taken, with the check's memory at that point. -/
structure Emission where
  result : Value
  memory : Option CheckerState

inductive Results where
  | nothing
  | ready (items : List Value)
  | lone (result : List Value)
  /-- Results produced one by one; then the memory at the end, and perhaps a fault. -/
  | stream (items : List Emission) (memory : Option CheckerState) (fault : Option Fault)
  | inert

inductive Reply where
  | results (r : Results)
  /-- An object with a run of its own: the outcome of that run. -/
  | runner (outcome : Except Fault Results) (memory : Option CheckerState)

/-- The outcome of a call: what it gives back or why it failed, and the check's memory after it. -/
structure Call where
  reply : Except Fault Reply
  memory : Option CheckerState
deriving Inhabited

/-- A check: its name, the name of the plugin it belongs to, the parameters it asks for, each
required or not, and what a call does. -/
structure Checker where
  name : String
  pluginName : Value
  parameters : List (String × Bool)
  call : Arguments → Call
deriving Inhabited

def Checker.wantsMemory (c : Checker) : Bool := c.parameters.any (·.1 = "checker_state")

structure Checks where
  trees : List Checker := []
  logicalLines : List Checker := []
  physicalLines : List Checker := []
deriving Inhabited

def unpack4 (v : Value) : Except Fault (Value × Value × Value × Value) := do
  match ← v.elements with
  | [a, b, c, d] => return (a, b, c, d)
  | items => throw (Value.unpackFault 4 items.length)

/-- The code and the text of a message: what stands before the first space, and what stands after
it. -/
def splitMessage (v : Value) : Except Fault (Value × Value) :=
  match v with
  | .text s =>
    match Text.cut (· == ' ') s.toList with
    | (code, some text) => .ok (.text (String.ofList code), .text (String.ofList text))
    | (_, none) => .error (Value.unpackFault 2 1)
  | _ => .error Fault.missingAttribute

def isSyntaxFault (f : Fault) : Bool := f.isKind .badSyntax || f.isKind .badIndentation

/-- The lines of the text in which a fault was found: how many come after the first one, and how long
that one is. -/
def linesOf (found : Value) : Except Fault (Option (Nat × Nat)) :=
  match found with
  | .none => .ok none
  | .text s =>
    let lines := Text.splitBy (· == '\n') (Text.dropTrailing (· == '\n') s.toList)
    .ok (some (lines.length - 1, (lines.headD []).length))
  | _ => .error Fault.missingAttribute

def syntaxPlace (f : Fault) : Except Fault (Value × Value) :=
  match f.args with
  | _ :: details :: _ => do
    match ← details.elements with
    | _ :: row :: column :: rest =>
      if let .dict _ := details then throw Fault.badType
      if (← column.exceeds 0) && isSyntaxFault f then
        match ← linesOf ((row :: column :: rest).getLastD .none) with
        | none => return (← row.plus 0, ← column.plus (-1))
        | some (later, length) =>
          let column := if ← column.exceeds length then .int length else column
          return (← row.plus (-later), ← column.plus (-1))
      else return (row, column)
    | _ => throw Fault.unassigned
  | _ => .ok (.int 1, .int 0)

end LintRunner.Check
