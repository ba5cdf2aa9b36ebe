import LintRunner.Exchange.Json
import LintRunner.Value.Sequence

/-!
# Faults as data

A fault is described by the name of its kind and its arguments, where sequences stand for tuples.
-/

namespace LintRunner.Fault

def describedKinds : List FaultKind :=
  [.badSyntax, .badIndentation, .badToken, .badValue, .badType, .missingKey, .missingAttribute,
   .interrupted, .system, .missingImport, .runtime, .execution]

mutual

def tupled : Value → Value
  | .list items => .tuple (tupledItems items)
  | v => v

def tupledItems : List Value → List Value
  | [] => []
  | v :: rest => tupled v :: tupledItems rest

end

def ofName (name : String) (args : List Value) : Fault :=
  .raised ((describedKinds.find? (·.name = name)).getD .badValue) (args.map tupled)

/-- The details of a fault of syntax are its file, row, column and text, and, if the place has an end,
the end's row and column. -/
def checkDetails (details : Value) : Except Fault Unit :=
  let given (n : Nat) : String := toString n ++ " given)"
  let count? : Option Nat := match details with
    | .text s => some s.length
    | .dict es => some es.length
    | v => v.items?.map List.length
  match count? with
  | none => .error (because .badType ("'" ++ details.typeName ++ "' object is not iterable"))
  | some 5 => .error (because .badType "end_offset must be provided when end_lineno is provided")
  | some n =>
    if n < 4 then .error (because .badType ("function takes at least 4 arguments (" ++ given n))
    else if 6 < n then .error (because .badType ("function takes at most 6 arguments (" ++ given n))
    else .ok ()

/-- Where an operation would have blocked, a number in the place of the file counts what was written:
an integer that fits into a machine word. -/
def checkWritten (args : List Value) : Except Fault Unit :=
  if systemName args = "BlockingIOError" then
    match args with
    | _ :: _ :: .float _ :: _ =>
      .error (because .badType "'float' object cannot be interpreted as an integer")
    | _ :: _ :: .int n :: _ =>
      if -9223372036854775808 ≤ n && n ≤ 9223372036854775807 then .ok ()
      else .error (badValue "cannot fit 'int' into an index-sized integer")
    | _ => .ok ()
  else .ok ()

def argsOf (v : Value) : List Value := (v.field "args").elements.toOption.getD []

def plainOf (v : Value) : Except Fault Fault := do
  let f := ofName (v.strD "type" "") (argsOf v)
  match f with
  | .raised .system args => checkWritten args
  | .raised kind [_, details] =>
    if kind = .badSyntax || kind = .badIndentation then checkDetails details
  | _ => pure ()
  return f

/-- The fault that data describes, if there can be one. A plugin's failure names the plugin and
describes its cause, `depth` levels deep at most. -/
def describedTo : (depth : Nat) → Value → Except Fault Fault
  | 0, v => plainOf v
  | depth + 1, v =>
    match v.strD "type" "", argsOf v with
    | "PluginExecutionFailed", plugin :: cause :: _ => do
      return .executionFailed plugin.plain (← describedTo depth cause)
    | _, _ => plainOf v

mutual

def levels : Value → Nat
  | .list vs => 1 + levelsOfItems vs
  | .dict es => 1 + levelsOfEntries es
  | _ => 1

def levelsOfItems : List Value → Nat
  | [] => 0
  | v :: vs => max (levels v) (levelsOfItems vs)

def levelsOfEntries : List (String × Value) → Nat
  | [] => 0
  | (_, v) :: es => max (levels v) (levelsOfEntries es)

end

def described (v : Value) : Except Fault Fault := describedTo (levels v) v

def ofValue (v : Value) : Fault :=
  match described v with
  | .ok f => f
  | .error f => f

/-- A fault of this program that data describes by the name of its kind, with what it is about: a
plugin and a cause, a path and a value, or arguments. The answer is its message and arguments; one
that says that a file could not be cut into tokens also tells its code and place. -/
def report (v : Value) : Except Fault Value := do
  let plugin := (v.field "plugin").plain
  let path := (v.field "path").plain
  let args := argsOf v
  let cause? : Option Fault ← match v.field "exception" with
    | .none => pure none
    | x => (described x).map some
  let because (wording : Fault → Fault) : String :=
    (wording (cause?.getD (raised .unspecified [.none]))).message
  let hook (h : TakenHook) : String := (mercurialHookExists h (v.field "value").plain path).message
  let told (message : String) (args : List Value) : Value := .list [.text message, .list args]
  match v.strD "kind" "" with
  | "InvalidSyntax" =>
    match ofTokenFault (← cause?.elim (.error missingAttribute) .ok) with
    | .invalidSyntax message =>
      let args := .text message :: args
      return .list [.text (argumentsMessage args), .text "E902", .int 1, .int 0, .text message,
        .list args]
    | f => throw f
  | "PluginExecutionFailed" =>
    let message := because (executionFailed plugin)
    return told message (.text message :: args)
  | "FailedToLoadPlugin" => return told (because (loadFailed plugin)) args
  | "PluginRequestedUnknownParameters" => return told (because (unknownParameters plugin)) args
  | "GitHookAlreadyExists" => return told (gitHookExists path).message args
  | "MercurialHookAlreadyExists" => return told (hook .unnamed) args
  | "MercurialCommitHookAlreadyExists" => return told (hook .commit) args
  | "MercurialQRefreshHookAlreadyExists" => return told (hook .refresh) args
  | _ => return told (argumentsMessage args) args

def silentKinds : List FaultKind :=
  [.missingAttribute, .badType, .badIndex, .unassigned, .undecodable, .unencodable,
   .assertionFailed, .overflow]

/-- A fault as data: its name and message, or the status that ends the run. -/
def entries (f : Fault) : List (String × Value) :=
  match f with
  | exit (.bool b) => [("exit", .int (if b then 1 else 0))]
  | exit status => [("exit", status)]
  | f =>
    ("error", .text f.name) ::
      if silentKinds.any (f.isKind ·) then [] else [("message", .text f.message)]

end LintRunner.Fault
