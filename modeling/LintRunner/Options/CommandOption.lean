import LintRunner.Options.Declaration

/-!
# Options of the command line

A declared option becomes an option of the command line when its names are well formed and its
properties fit together. The first property that does not fit is a fault that names the option.
-/

namespace LintRunner.Options

inductive Action where
  | store
  | storeConst
  | storeTrue
  | storeFalse
  | append
  | appendConst
  | count
  | callback
  | help
  | version
deriving DecidableEq, Repr, Inhabited

def Action.word : Action → String
  | store => "store"
  | storeConst => "store_const"
  | storeTrue => "store_true"
  | storeFalse => "store_false"
  | append => "append"
  | appendConst => "append_const"
  | count => "count"
  | callback => "callback"
  | help => "help"
  | version => "version"

def Action.all : List Action :=
  [store, storeConst, storeTrue, storeFalse, append, appendConst, count, callback, help, version]

def Action.ofWord? (s : String) : Option Action := Action.all.find? (·.word = s)

def Action.isTyped : Action → Bool
  | store => true
  | append => true
  | callback => true
  | _ => false

inductive ArgumentType where
  | string
  | int
  | long
  | float
  | complex
  | choice
deriving DecidableEq, Repr, Inhabited

def ArgumentType.word : ArgumentType → String
  | string => "string"
  | int => "int"
  | long => "long"
  | float => "float"
  | complex => "complex"
  | choice => "choice"

def ArgumentType.ofWord? (s : String) : Option ArgumentType :=
  [string, int, long, float, complex, choice].find? (·.word = (if s = "str" then "string" else s))

/-- An option as it is met on the command line. -/
structure CommandOption where
  shorts : List String := []
  longs : List String := []
  action : Action := .store
  type : Option ArgumentType := none
  dest : Option String := none
  nargs : Value := .none
  const : Value := .none
  choices : List Value := []
  handler : Option Handler := none
  help : Value := .none
  metavar : Value := .none
deriving DecidableEq, Inhabited, Repr

namespace CommandOption

def label (shorts longs : List String) : String := Text.joinWith "/" (shorts ++ longs)

def refuse {α : Type} (shorts longs : List String) (why : String) : Except Fault α :=
  let name := label shorts longs
  .error (Fault.because .badOption
    (if name.isEmpty then why else "option " ++ name ++ ": " ++ why))

inductive NameKind where
  | short
  | long
deriving DecidableEq, Repr

def kindOfName (name : Value) : Except Fault (Except String NameKind) := do
  let refused (what why : String) : Except String NameKind :=
    .error ("invalid " ++ what ++ " " ++ name.literal ++ ": " ++ why)
  let long := refused "long option string" "must start with --, followed by non-dash"
  match name, ← name.elements with
  | _, [] => return refused "option string" "must be at least two characters long"
  | _, [_] => return refused "option string" "must be at least two characters long"
  | .dict _, [_, _] => throw (.raised .missingKey [.int 0])
  | .dict _, _ => throw Fault.badType
  | name, [.text a, b] =>
    if a = "-" && b != .text "-" then
      let _ ← name.asText
      return .ok .short
    return refused "short option string" "must be of the form -x, (x any non-dash char)"
  | _, [_, _] => return refused "short option string" "must be of the form -x, (x any non-dash char)"
  | .text _, a :: b :: c :: _ =>
    return if a == .text "-" && b == .text "-" && c != .text "-" then .ok .long else long
  | _, _ => return long

def sortNames (shorts longs : List String) : List Value → Except Fault (List String × List String)
  | [] => .ok (shorts, longs)
  | name :: rest => do
    match ← kindOfName name with
    | .ok .short => sortNames (shorts ++ [name.plain]) longs rest
    | .ok .long => sortNames shorts (longs ++ [name.plain]) rest
    | .error why => refuse shorts longs why

def ofDeclaration (d : Declaration) : Except Fault CommandOption := do
  let names := d.names.filter (·.truthy)
  if names.isEmpty then throw Fault.badType
  let (shorts, longs) ← sortNames [] [] names
  let refuse {α : Type} (why : String) : Except Fault α := refuse shorts longs why
  let action ← match d.action with
    | .none => pure Action.store
    | v =>
      match v.text?.bind Action.ofWord? with
      | some a => pure a
      | none => refuse ("invalid action: " ++ v.literal)
  let type ← match d.type with
    | .none =>
      if action = .store || action = .append then
        pure (some (if d.choices == .none then ArgumentType.string else .choice))
      else pure none
    | v =>
      match v.text?.bind ArgumentType.ofWord? with
      | some t =>
        if action.isTyped then pure (some t)
        else refuse ("must not supply a type for action " ++ Text.literal action.word)
      | none => refuse ("invalid option type: " ++ v.literal)
  let choices ← if type = some .choice then
      match d.choices with
      | .none => refuse "must supply a list of choices for type 'choice'"
      | .list vs => pure vs
      | .tuple vs => pure vs
      | v => refuse ("choices must be a list of strings ('" ++ v.typeName ++ "' supplied)")
    else if d.choices == .none then pure []
    else
      refuse ("must not supply choices for type " ++ (match type with
        | some t => Text.literal t.word
        | none => "None"))
  if action ≠ .storeConst && action ≠ .appendConst && !(d.const == .none) then
    refuse ("'const' must not be supplied for action " ++ Text.literal action.word)
  let nargs ← if action.isTyped then
      pure (if d.nargs == .none then .int 1 else d.nargs)
    else if d.nargs == .none then pure .none
    else refuse ("'nargs' must not be supplied for action " ++ Text.literal action.word)
  if action = .callback then
    if d.handler.isNone then refuse ("callback not callable: " ++ d.callback.literal)
  else if !(d.callback == .none) then
    refuse ("callback supplied (" ++ d.callback.literal ++ ") for non-callback option")
  else if !(d.callbackArgs == .none) then
    refuse "callback_args supplied for non-callback option"
  else if !(d.callbackKwargs == .none) then
    refuse "callback_kwargs supplied for non-callback option"
  return {
    shorts := shorts
    longs := longs
    action := action
    type := type
    dest := d.dest.text?
    nargs := nargs
    const := d.const
    choices := choices
    handler := d.handler
    help := d.help
    metavar := d.metavar }

def name (o : CommandOption) : String := (o.longs ++ o.shorts).headD ""

def takesValue (o : CommandOption) : Bool := o.type.isSome

/-- An integer in decimal, or with a mark for another base; a leading zero means base eight. -/
def readInteger? (s : String) : Option Int :=
  match s.toList with
  | '0' :: c :: rest =>
    if c = 'x' || c = 'X' then Integer.ofText? 16 s
    else if c = 'b' || c = 'B' then
      Integer.ofText? 2 (if rest.isEmpty then "0" else String.ofList rest)
    else Integer.ofText? 8 s
  | '0' :: [] => some 0
  | _ => Integer.ofDecimal? s

/-- A word of the command line as a value of the option; a word that does not fit gives the
message. -/
def checkValue (o : CommandOption) (opt word : String) : Except String Value :=
  let invalid (what : String) : Except String Value :=
    .error ("option " ++ opt ++ ": invalid " ++ what ++ " value: " ++ Text.literal word)
  let integer : Except String Value :=
    match readInteger? word with
    | some n => .ok (.int n)
    | none => invalid "integer"
  match o.type with
  | some .int => integer
  | some .long => integer
  | some .float =>
    match Binary64.ofText? word with
    | some x => .ok (.float x)
    | none => invalid "floating-point"
  | some .complex =>
    match Complex.ofText? word with
    | some (x, y) => .ok (.complex x y)
    | none => invalid "complex"
  | some .choice =>
    if o.choices.any (· == .text word) then .ok (.text word)
    else
      .error ("option " ++ opt ++ ": invalid choice: " ++ Text.literal word ++ " (choose from " ++
        Text.joinWith ", " (o.choices.map Value.literal) ++ ")")
  | _ => .ok (.text word)

end CommandOption

end LintRunner.Options
