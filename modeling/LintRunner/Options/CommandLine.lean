import LintRunner.Options.CommandOption

/-!
# Reading the command line

Words are taken from the left. A word that starts with a dash names options; all others are kept as
arguments, also between options. Two dashes end the options. Reading may halt: a word asks for help
or is refused. What was read before a halt remains, so that a caller may go on after an unknown
option.
-/

namespace LintRunner.Options

/-- Why reading stops before the words are used up. -/
inductive Halt where
  | help
  | version
  | usage (message : String)
  | unknown (name message : String)
  | badValue (message : String)
  | handled (handler : Handler) (value : Value)
  | fault (f : Fault)
deriving Inhabited

/-- Where reading stands: arguments found, words left, settings, and the default of each setting. -/
structure Reading where
  found : List String := []
  left : List String := []
  values : Settings := {}
  defaults : List (String × Value) := []
deriving Inhabited

abbrev Reader := ExceptT Halt (StateM Reading)

/-- A word names options if it has a dash and more. -/
def isArgument (word : String) : Bool :=
  match word.toList with
  | '-' :: _ :: _ => false
  | _ => true

/-- The callback of a plugin is told the name that was written and the value. It may change the words
that are left and all else that was read, and halt. -/
abbrev Callback := String → Value → Reader Unit

structure CommandLine where
  options : List CommandOption := []
  defaults : List (String × Value) := []
  /-- A bug report can be given; otherwise its option does nothing. -/
  canReport : Bool := false
  /-- The options that have a setting whose name is no text, with the default of it. Where there are
  any, nothing can be read. -/
  nameless : List (String × Value) := []
  callbacks : List Callback := []
deriving Inhabited

namespace CommandLine

def long? (c : CommandLine) (name : String) : Option CommandOption :=
  c.options.find? (·.longs.contains name)

def short? (c : CommandLine) (name : String) : Option CommandOption :=
  c.options.find? (·.shorts.contains name)

def conflicts (c : CommandLine) (o : CommandOption) : List String :=
  o.shorts.filter (fun n => (c.short? n).isSome) ++ o.longs.filter (fun n => (c.long? n).isSome)

def add (c : CommandLine) (o : CommandOption) (dest default : Value) : Except Fault CommandLine :=
  match c.conflicts o with
  | [] => do
    match ← dest.asKey with
    | .text dest =>
      return { c with options := c.options ++ [o], defaults := Entries.put dest default c.defaults }
    | _ =>
      return { c with options := c.options ++ [o], nameless := c.nameless ++ [(o.name, default)] }
  | taken =>
    .error (Fault.because .optionConflict ("option " ++ CommandOption.label o.shorts o.longs ++
      ": conflicting option string(s): " ++ Text.joinWith ", " taken))

/-- The settings before any word is read: defaults that are texts are read like words. -/
def defaultValues (c : CommandLine) : Except Fault Settings :=
  let asWord (o : CommandOption) (default : Option Value) : Except Fault (Option Value) :=
    match default with
    | some (.text s) =>
      match o.checkValue o.name s with
      | .ok v => .ok (some v)
      | .error message => .error (Fault.because .badOptionValue message)
    | _ => .ok none
  let step (defaults : List (String × Value)) (o : CommandOption) :
      Except Fault (List (String × Value)) := do
    match o.dest with
    | some dest => return ((← asWord o (defaults.lookup dest)).map
        (Entries.put dest · defaults)).getD defaults
    | none =>
      let _ ← asWord o (c.nameless.lookup o.name)
      return defaults
  do
    let defaults ← c.options.foldlM step c.defaults
    if !c.nameless.isEmpty then throw Fault.badType
    return ⟨defaults⟩

/-- The long name that a word means: itself, or the only name that it starts. -/
def fullName (c : CommandLine) (word : String) : Except Halt String :=
  let names := c.options.flatMap (·.longs)
  if names.contains word then .ok word
  else
    match Text.dedup (names.filter (Text.startsWith · word)) with
    | [name] => .ok name
    | [] => .error (.unknown word ("no such option: " ++ word))
    | several =>
      .error (.unknown word ("ambiguous option: " ++ word ++ " (" ++
        Text.joinWith ", " (Text.sorted several) ++ "?)"))

def wordCount (n : Value) : Except Fault Int :=
  match n with
  | .float x => x.toInteger
  | n => n.asInt

def takeWords (opt : String) (n : Value) : Reader (List String) := do
  let st ← get
  let fault {α : Type} (r : Except Fault α) : Reader α := liftExcept (r.mapError Halt.fault)
  if ← fault (n.exceeds st.left.length) then
    throw (.usage (opt ++ " option requires " ++ toString (← fault (wordCount n)) ++
      (if n.whole? = some 1 then " argument" else " arguments")))
  let n ← if n.whole? = some 1 then pure 1 else fault n.asInt
  let k := if 0 ≤ n then n.toNat else (st.left.length : Int) + n |>.toNat
  set { st with left := st.left.drop k }
  return st.left.take k

/-- The words as the option's value. One word is a value by itself; any other number makes a
tuple. -/
def convert (o : CommandOption) (opt : String) (words : List String) : Except Halt Value := do
  let check (w : String) : Except Halt Value :=
    match o.checkValue opt w with
    | .ok v => .ok v
    | .error message => .error (.badValue message)
  match o.nargs.whole?, words with
  | some 1, [w] => check w
  | _, ws => return .tuple (← ws.mapM check)

def put (dest : Option String) (v : Value) : Reader Unit :=
  match dest with
  | some d => modify fun st => { st with values := st.values.set d v }
  | none => pure ()

/-- Appends to the list in a setting, which starts out empty. A setting that still has its default
list shares it, so the default grows as well. -/
def appendTo (dest : String) (v : Value) : Reader Unit := do
  let st ← get
  match st.values.value dest with
  | .none => put (some dest) (.list [v])
  | .list vs =>
    let grown : Value := .list (vs ++ [v])
    put (some dest) grown
    if st.defaults.lookup dest == some (.list vs) then
      modify fun st => { st with defaults := Entries.put dest grown st.defaults }
  | _ => throw (.fault Fault.missingAttribute)

/-- One more than a number; nothing counts as zero. -/
def countUp : Value → Except Halt Value
  | .none => .ok (.int 1)
  | .float x => .ok (.float (x.add (.ofInt 1)))
  | v =>
    match v.int? with
    | some n => .ok (.int (n + 1))
    | none => .error (.fault Fault.badType)

def perform (c : CommandLine) (o : CommandOption) (opt : String) (v : Value) : Reader Unit := do
  match o.action with
  | .store => put o.dest v
  | .storeConst => put o.dest o.const
  | .storeTrue => put o.dest (.bool true)
  | .storeFalse => put o.dest (.bool false)
  | .append => appendTo (o.dest.getD "") v
  | .appendConst => appendTo (o.dest.getD "") o.const
  | .count => put o.dest (← liftExcept (countUp ((← get).values.value (o.dest.getD ""))))
  | .callback =>
    match o.handler with
    | some .bugReport => if c.canReport then throw (.handled .bugReport v) else pure ()
    | some .installHook => throw (.handled .installHook v)
    | some (.plugin i) =>
      match c.callbacks[i]? with
      | some call => call opt v
      | none => throw (.fault Fault.badType)
    | none => pure ()
  | .help => throw .help
  | .version => throw .version

def meet (c : CommandLine) (o : CommandOption) (opt : String) : Reader Unit := do
  if o.takesValue then
    let words ← takeWords opt o.nargs
    match convert o opt words with
    | .ok v => c.perform o opt v
    | .error h => throw h
  else c.perform o opt .none

def meetNamed (c : CommandLine) (written : String) (explicit : Bool) : Reader Unit := do
  match c.fullName written with
  | .error h => throw h
  | .ok name =>
    match c.long? name with
    | none => pure ()
    | some o =>
      if !o.takesValue && explicit then
        throw (.usage (name ++ " option does not take a value"))
      c.meet o name

/-- Reads a long option, whose value may follow an equals sign in the same word. -/
def readLong (c : CommandLine) (word : String) : Reader Unit := do
  match Text.cut (· == '=') word.toList with
  | (written, some v) =>
    modify fun st => { st with left := String.ofList v :: st.left }
    c.meetNamed (String.ofList written) true
  | (_, none) => c.meetNamed word false

/-- Reads the letters of a word with one dash. The first that takes a value has the rest of the
word, or the next word. -/
def readShorts (c : CommandLine) : List Char → Reader Unit
  | [] => pure ()
  | letter :: rest => do
    let opt := String.ofList ['-', letter]
    match c.short? opt with
    | none => throw (.unknown opt ("no such option: " ++ opt))
    | some o =>
      if o.takesValue then
        if !rest.isEmpty then
          modify fun st => { st with left := String.ofList rest :: st.left }
          c.meet o opt
        else c.meet o opt
      else
        c.meet o opt
        c.readShorts rest

def readDashed (c : CommandLine) (word : String) : Reader Unit :=
  match word.toList with
  | '-' :: '-' :: _ => c.readLong word
  | '-' :: letter :: letters => c.readShorts (letter :: letters)
  | _ => pure ()

def readWords (c : CommandLine) : (fuel : Nat) → Reader Unit
  | 0 => pure ()
  | fuel + 1 => do
    let st ← get
    match st.left with
    | [] => pure ()
    | word :: rest =>
      set { st with left := rest }
      if word = "--" then pure ()
      else
        if isArgument word then set { st with left := rest, found := st.found ++ [word] }
        else c.readDashed word
        c.readWords fuel

/-- More steps than reading the words can take, as long as no callback makes them longer: each step
makes the words left shorter. -/
def fuelFor (words : List String) : Nat := words.foldr (fun w n => w.length + 1 + n) 1

def start (c : CommandLine) (words : List String) (values : Settings) : Reading :=
  { left := words, values := values, defaults := c.defaults }

/-- Settings and arguments after the words have been read, and the command line with the defaults
that it has then. -/
def finish (c : CommandLine) (r : Except Halt Unit) (st : Reading) :
    Except Halt (Settings × List String) × CommandLine :=
  (r.map fun _ => (st.values, st.found ++ st.left), { c with defaults := st.defaults })

def read (c : CommandLine) (words : List String) (values : Settings) :
    Except Halt (Settings × List String) × CommandLine :=
  let (r, st) := (c.readWords (fuelFor words)).run (c.start words values)
  c.finish r st

/-- How reading goes on after a pass over the words, or how it ends: an unknown option is kept among
the arguments. -/
def resume : Except Halt Unit × Reading → Reading ⊕ (Except Halt Unit × Reading)
  | (.ok _, st) => .inl st
  | (.error (.unknown name _), st) => .inl { st with found := st.found ++ [name] }
  | (.error (.badValue _), st) => .inr (.error (.fault Fault.missingAttribute), st)
  | (.error h, st) => .inr (.error h, st)

/-- One pass over the words that are left, up to their end, two dashes or a halt. -/
def pass (c : CommandLine) (st : Reading) : Reading ⊕ (Except Halt Unit × Reading) :=
  if st.left.isEmpty then .inr (.ok (), st)
  else resume ((c.readWords (fuelFor st.left)).run st)

/-- Passes over the words until none is left. -/
def readKnownFrom (c : CommandLine) : (fuel : Nat) → Reading → Except Halt Unit × Reading
  | 0, st => (.ok (), st)
  | fuel + 1, st => (c.pass st).elim (c.readKnownFrom fuel) id

def readKnown (c : CommandLine) (words : List String) (values : Settings) :
    Except Halt (Settings × List String) × CommandLine :=
  let (r, st) := c.readKnownFrom (fuelFor words) (c.start words values)
  c.finish r st

end CommandLine

end LintRunner.Options
