import LintRunner.Number.Complex
import LintRunner.Number.Integer
import LintRunner.Path
import LintRunner.Settings
import LintRunner.Text.Basic
import LintRunner.Text.Upper
import LintRunner.Value.Arithmetic

/-!
# Declared options

The program and its plugins declare options: names, what the option does on the command line, and
how its value is read elsewhere. A declaration holds what was asked for; whether the command line
can serve it is checked later.
-/

namespace LintRunner.Options

/-- What an option does when it is met, beyond storing a value: something of the program, or one of
the callbacks that plugins gave. -/
inductive Handler where
  | installHook
  | bugReport
  | plugin (index : Nat)
deriving DecidableEq, Repr

/-- An option as it is declared, before anything is checked. -/
structure Declaration where
  short : Value := .none
  long : Value := .none
  action : Value := .none
  default : Value := .none
  type : Value := .none
  dest : Value := .none
  nargs : Value := .none
  const : Value := .none
  choices : Value := .none
  callback : Value := .none
  callbackArgs : Value := .none
  callbackKwargs : Value := .none
  help : Value := .none
  metavar : Value := .none
  fromConfig : Bool := false
  isList : Bool := false
  isPath : Bool := false
  handler : Option Handler := none
deriving Inhabited, Repr

namespace Declaration

def properties : List String :=
  ["short_option_name", "long_option_name", "action", "default", "type", "dest", "nargs", "const",
   "choices", "callback", "callback_args", "callback_kwargs", "help", "metavar",
   "parse_from_config", "comma_separated_list", "normalize_paths"]

def settingName (long : String) : String := Text.replace (Text.drop 2 long) "-" "_"

def settingOf (long : Value) : Except Fault String :=
  match long with
  | .text s => .ok (settingName s)
  | .list _ => .error Fault.missingAttribute
  | _ => .error Fault.badType

/-- The setting that a short name stands for: its second part, which is the letter after the dash. -/
def letterOf (short : Value) : Except Fault Value :=
  match short with
  | .dict _ => .error (.raised .missingKey [.int 1])
  | v => do
    match ← v.elements with
    | _ :: letter :: _ => return letter
    | _ => throw Fault.badIndex

/-- The setting that holds the option's value: the one asked for, or one made from a name. -/
def makeDest (asked short long : Value) : Except Fault Value :=
  if asked.truthy then .ok asked
  else if long.truthy then (settingOf long).map .text
  else letterOf short

/-- A declaration from properties without and with names. A configurable option needs a long
name. -/
def bind (positional : List Value) (named : List (String × Value)) : Except Fault Declaration := do
  if properties.length < positional.length then throw Fault.badType
  let given := (properties.zip positional) ++ named
  if named.any fun e => !properties.contains e.1 || ((properties.zip positional).lookup e.1).isSome
  then throw Fault.badType
  let get (name : String) : Value := (given.lookup name).getD .none
  let short := get "short_option_name"
  let long := get "long_option_name"
  let d : Declaration := {
    short := short
    long := long
    action := get "action"
    default := get "default"
    type := get "type"
    dest := ← makeDest (get "dest") short long
    nargs := get "nargs"
    const := get "const"
    choices := get "choices"
    callback := get "callback"
    callbackArgs := get "callback_args"
    callbackKwargs := get "callback_kwargs"
    help := get "help"
    metavar := get "metavar"
    fromConfig := (get "parse_from_config").truthy
    isList := (get "comma_separated_list").truthy
    isPath := (get "normalize_paths").truthy }
  if d.fromConfig then
    if !long.truthy then
      throw (Fault.badValue ("When specifying parse_from_config=True, " ++
        "a long_option_name must also be specified."))
    let _ ← settingOf long
  return d

def configName (d : Declaration) : Option String :=
  if d.fromConfig then d.long.text?.map settingName else none

def names (d : Declaration) : List Value := [d.short, d.long].filter fun n => !n matches .none

def shown (d : Declaration) : String :=
  "Option(" ++ d.short.plain ++ ", " ++ d.long.plain ++ ", action=" ++ d.action.plain ++
    ", default=" ++ d.default.plain ++ ", dest=" ++ d.dest.plain ++ ", type=" ++ d.type.plain ++
    ", callback=" ++ d.callback.plain ++ ", help=" ++ d.help.plain ++ ", callback=" ++
    d.callback.plain ++ ", callback_args=" ++ d.callbackArgs.plain ++ ", callback_kwargs=" ++
    d.callbackKwargs.plain ++ ", metavar=" ++ d.metavar.plain ++ ")"

def listed (sep : Text.ItemSeparator) (v : Value) : Except Fault (List String) :=
  if !v.truthy then .ok []
  else
    match v with
    | .text s => .ok (Text.items sep s)
    | .list vs => keep vs
    | .tuple vs => keep vs
    | _ => .error Fault.badType
where
  keep (vs : List Value) : Except Fault (List String) := do
    let ts ← vs.mapM fun
      | .text s => .ok s
      | _ => .error Fault.missingAttribute
    return Text.keepItems ts

/-- The value of an option in its normal form; relative paths lie below `parent`. -/
def normalize (d : Declaration) (cwd parent : String) (v : Value) : Except Fault Value := do
  if d.isPath then
    if d.isList then
      return Value.texts ((← listed .commaOrBlank v).map (Path.normalized cwd parent))
    else
      match v with
      | .text s => return .text (Path.normalized cwd parent s)
      | v => if ← (Value.text "/").isIn v then throw Fault.badType else throw Fault.missingAttribute
  else if d.isList then return Value.texts (← listed .commaOrBlank v)
  else return v

def toInteger (v : Value) : Except Fault Value :=
  match v with
  | .text s =>
    match Integer.ofDecimal? s with
    | some n => .ok (.int n)
    | none => .error (Fault.badInteger s)
  | .float x => x.toInteger.map .int
  | v =>
    match v.int? with
    | some n => .ok (.int n)
    | none => .error Fault.badType

def toReal (v : Value) : Except Fault Value :=
  match v with
  | .float x => .ok (.float x)
  | .text s =>
    match Binary64.ofText? s with
    | some x => .ok (.float x)
    | none => .error (Fault.badValue ("could not convert string to float: " ++ Text.literal s))
  | v =>
    match v.int? with
    | some n => return .float (← Binary64.ofInteger n)
    | none => .error Fault.badType

def toComplex (v : Value) : Except Fault Value :=
  match v with
  | .float x => .ok (.complex x (Binary64.ofInt 0))
  | .text s =>
    match Complex.ofText? s with
    | some (x, y) => .ok (.complex x y)
    | none =>
      .error (Fault.badValue (if (Numeral.join? (Numeral.plain s)).isSome
        then "complex() arg is a malformed string"
        else "could not convert string to complex: " ++ Text.literal s))
  | v =>
    match v.int? with
    | some n => return .complex (← Binary64.ofInteger n) (Binary64.ofInt 0)
    | none => .error Fault.badType

/-- A text that a build command gave for the option, as a value of the option's type. Words for
truth are understood where the option stores a truth value; any other word stays, in capitals. -/
def ofAttribute (d : Declaration) (cwd : String) (v : Value) : Except Fault Value := do
  let v ← d.normalize cwd "." v
  if d.type == .text "int" || d.action == .text "count" then toInteger v
  else if d.type == .text "float" then toReal v
  else if d.type == .text "complex" then toComplex v
  else if d.action == .text "store_true" || d.action == .text "store_false" then
    let word := Text.upper v.plain
    if ["1", "T", "TRUE", "ON"].contains word then return .bool true
    else if ["0", "F", "FALSE", "OFF"].contains word then return .bool false
    else return .text word
  else return v

end Declaration

end LintRunner.Options
