import LintRunner.Decision
import LintRunner.Discovery.Dynamic
import LintRunner.Log
import LintRunner.Options.Declaration
import LintRunner.Source.LogicalLine
import LintRunner.Value.Arithmetic

/-!
# Calls with data

Other programs call single functions of this library with data of any kind. Each function here takes
such data: what is of the right kind goes on to the function itself, and anything else is a fault
that says what was asked of it in vain.
-/

namespace LintRunner.Calls

def filesFrom (t : FileTree) (exclude arg : Value) : Except Fault (List Value) :=
  Discovery.filesBy t (fun path => (Discovery.acceptedOr (.bool false) exclude path).map Value.truthy)
    arg

def normalizedPaths (cwd : String) (parent paths : Value) : Except Fault (List Value) := do
  (← Options.Declaration.listed .commaOrBlank paths).mapM fun path =>
    Discovery.normalizedPath cwd parent (.text path)

def firstMatch (code codes : Value) : Except Fault Value :=
  match code with
  | .text code => do
    let found ← (← codes.elements).findM? fun c => return Text.startsWith code (← c.asText)
    return found.getD .none
  | _ => .error Fault.missingAttribute

def moreSpecific (selected ignored : Value) : Except Fault Decision :=
  match selected with
  | .text selected => return LintRunner.moreSpecific selected (← ignored.asText)
  | _ => .error Fault.missingAttribute

/-- The width of the blanks at the start of a line. A list counts as the row of its items if it holds
a tab. -/
def indentWidth (line : Value) : Except Fault Nat := do
  match line with
  | .text s => return Source.indentWidth s.toList
  | v =>
    if !(← (Value.text "\t").isIn v) then throw Fault.missingAttribute
    return Source.indentWidth.tabbed 0 ((← v.elements).map fun item =>
      if item.same (.text "\t") then '\t' else if item.same (.text " ") then ' ' else 'x')

def mute (text : Value) : Except Fault String := do
  match text with
  | .text s =>
    match Source.mute? s.toList with
    | some cs => return String.ofList cs
    | none => throw Fault.badIndex
  | .dict _ => throw (.raised .missingKey [.int (-1)])
  | v => if (← v.size) = 0 then throw Fault.badIndex else throw Fault.badType

def bracketDepth (depth text : Value) : Except Fault Value := do
  let depth := if depth.truthy then depth else .int 0
  match Source.bracketDepth 0 (← text.asText) with
  | 0 => return depth
  | n => depth.plus n

def bracketDepths (depth : Value) : List Value → Except Fault (List Value)
  | [] => .ok []
  | text :: rest => do
    let depth ← bracketDepth depth text
    return depth :: (← bracketDepths depth rest)

/-- Looks for the first entry of a mapping whose offset is not less than the given one; `last` is the
entry before, which counts at the end. -/
def entryFor (offset : Value) (last : Option (Value × Value)) :
    List Value → Except Fault (Value × Value)
  | [] =>
    match last with
    | some e => .ok e
    | none => .error Fault.unassigned
  | e :: rest => do
    let (stop, place) ← e.unpack2
    match offset.precedes? stop with
    | none => throw Fault.badType
    | some before =>
      if before || offset.same stop then return (stop, place)
      else entryFor offset (some (stop, place)) rest

def placeOf (offset mapping : Value) : Except Fault Value := do
  match offset with
  | .list place => return .list place
  | offset =>
    let (stop, place) ← entryFor offset none (← mapping.elements)
    let row ← place.itemAt 0
    return .list [row, ← (← (← place.itemAt 1).sum offset).difference stop]

def endsLine (kind : Source.TokenKind) (token : Value) : Except Fault Bool := do
  if kind = .newline || kind = .lineBreak then return true
  let stop ← (← token.itemAt 3).itemAt 1
  match ← token.itemAt 4 with
  | .text line =>
    let col ← match stop with
      | .none => pure 0
      | stop => stop.asInt
    return Text.dropLeading Text.isBlank (Source.Token.textFrom line col) = ['\\', '\n']
  | .list _ => throw Fault.missingAttribute
  | _ => throw Fault.badType

def tokenTrace (kind : Source.TokenKind) (token : Value) : Except Fault String := do
  let start ← token.itemAt 2
  let stop ← token.itemAt 3
  let row ← start.itemAt 0
  let place ←
    if row.same (← stop.itemAt 0) then do
      let column ← start.itemAt 1
      pure ("[" ++ (if column.truthy then column.plain else "") ++ ":" ++
        (← stop.itemAt 1).plain ++ "]")
    else pure ("l." ++ (← stop.itemAt 0).plain)
  return "l." ++ row.plain ++ "\t" ++ place ++ "\t" ++ kind.label ++ "\t" ++
    (← token.itemAt 1).literal

/-- The verbosity that counts: one that is too high counts as the highest. A number between two
verbosities is no key for a level. -/
def verbosity (v : Value) : Except Fault Int := do
  if v.extent?.isSome && !(← v.exceeds 0) then return 0
  if ← v.exceeds 3 then return 3
  match v.whole? with
  | some n => return n
  | none => throw (.raised .missingKey [v])

def configureLogging (level filename : Value) : Run (Option (LogLevel × LogTarget)) := do
  let n ← Run.lift (verbosity level)
  if n = 0 then return none
  if !filename.truthy then LintRunner.configureLogging n none
  else LintRunner.configureLogging n (some (← Run.lift filename.asText))

end LintRunner.Calls
