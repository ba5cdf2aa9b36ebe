import LintRunner.Entries
import LintRunner.Fault
import LintRunner.Text.Blank
import LintRunner.Text.Lines
import LintRunner.Text.Lower

/-!
# Configuration files

A file consists of sections, each with a header in brackets, and options with values. A line that
is indented more than its option continues the value. Lines that start with `#` or `;` are
comments. Several files may be read one after the other; later values replace earlier ones, but
within one file neither a section nor an option may come twice.
-/

namespace LintRunner.Config

abbrev Section := List (String × String)

structure Ini where
  sections : List (String × Section) := []
  defaults : Section := []
deriving Inhabited, Repr, BEq

def defaultSection : String := "DEFAULT"

namespace Ini

def hasSection (ini : Ini) (name : String) : Bool := Entries.has name ini.sections

/-- The options of a section, its own first; nothing when there is no such section. -/
def options (ini : Ini) (name : String) : List String :=
  match ini.sections.lookup name with
  | none => []
  | some s => s.map (·.1) ++ (ini.defaults.map (·.1)).filter (!Entries.has · s)

/-- The value of an option in a section that is there; its own values come before those that hold
everywhere. -/
def get? (ini : Ini) (name option : String) : Option String :=
  match ini.sections.lookup name with
  | none => none
  | some s =>
    let key := Text.lower option
    (s.lookup key).or (ini.defaults.lookup key)

def hasOption (ini : Ini) (name option : String) : Bool := (ini.get? name option).isSome

/-- The section with the options that hold in it, in the order in which they are listed. -/
def values (ini : Ini) (name : String) : Section :=
  (ini.options name).filterMap fun o => (ini.get? name o).map fun v => (o, v)

def addSection (ini : Ini) (name : String) : Ini :=
  { ini with sections := Entries.putNew name [] ini.sections }

def modify (ini : Ini) (name : String) (f : Section → Section) : Ini :=
  if name = defaultSection then { ini with defaults := f ini.defaults }
  else { ini with sections := Entries.put name (f ((ini.sections.lookup name).getD [])) ini.sections }

def set (ini : Ini) (name option value : String) : Ini :=
  ini.modify name (Entries.put (Text.lower option) value)

/-! ## Reading -/

/-- The header of a section that a line holds: what stands between its first and last bracket. -/
def header? (line : List Char) : Option String :=
  match line with
  | '[' :: rest =>
    match rest.reverse.dropWhile (· != ']') with
    | _ :: c :: body => some (String.ofList (c :: body).reverse)
    | _ => none
  | _ => none

/-- The option and the value that a line holds, cut at the first equals sign or colon. -/
def option? (line : List Char) : Option (String × String) :=
  match Text.cut (fun c => c == '=' || c == ':') line with
  | (name, some value) =>
    some (Text.lower (Text.trimEnd (String.ofList name)), Text.trim (String.ofList value))
  | (_, none) => none

structure Reader where
  ini : Ini
  place : Option String := none
  option : Option String := none
  /-- How far that option, or the last line that was no continuation, is indented. -/
  indent : Nat := 0
  sections : List String := []
  options : List (String × String) := []
  badLines : List (Nat × String) := []
deriving Inhabited

def Reader.append (r : Reader) (line : String) : Reader :=
  match r.place, r.option with
  | some s, some o =>
    let grow (opts : Section) : Section :=
      match opts.lookup o with
      | some v => Entries.put o (v ++ "\n" ++ line) opts
      | none => opts
    { r with ini := r.ini.modify s grow }
  | _, _ => r

def locus (file : String) (n : Nat) : String :=
  "While reading from " ++ Text.literal file ++ " [line " ++ Text.padStart 2 (toString n) ++ "]: "

def Reader.enter (r : Reader) (file : String) (n : Nat) (name : String) : Except Fault Reader :=
  let r := { r with place := some name, option := none }
  if r.ini.hasSection name && r.sections.contains name then
    .error (Fault.because .duplicateSection (locus file n ++ "section " ++ Text.literal name ++
      " already exists"))
  else if name = defaultSection then .ok r
  else .ok { r with ini := r.ini.addSection name, sections := name :: r.sections }

/-- Starts an option of the section at hand. An option without a name is kept, but its line is
bad. -/
def Reader.start (r : Reader) (file place : String) (n : Nat) (line : String)
    (option value : String) : Except Fault Reader :=
  let r :=
    if option.isEmpty then { r with badLines := r.badLines ++ [(n, line)] } else r
  if r.options.contains (place, option) then
    .error (Fault.because .duplicateOption (locus file n ++ "option " ++ Text.literal option ++
      " in section " ++ Text.literal place ++ " already exists"))
  else
    .ok { r with
      ini := r.ini.modify place (Entries.put option value)
      options := (place, option) :: r.options
      option := if option.isEmpty then none else some option }

def Reader.line (r : Reader) (file : String) (n : Nat) (line : String) : Except Fault Reader :=
  let body := Text.trim line
  let isComment := Text.startsWith body "#" || Text.startsWith body ";"
  if isComment then .ok r
  else if body.isEmpty then .ok (r.append "")
  else
    let indent := (line.toList.takeWhile Text.isBlank).length
    if r.place.isSome && r.option.isSome && r.indent < indent then .ok (r.append body)
    else
      let r := { r with indent := indent }
      match header? body.toList with
      | some name => r.enter file n name
      | none =>
        match r.place with
        | none =>
          .error (Fault.because .missingSectionHeader
            ("File contains no section headers.\nfile: " ++ Text.literal file ++ ", line: " ++
              toString n ++ "\n" ++ Text.literal line))
        | some place =>
          match option? body.toList with
          | some (option, value) => r.start file place n line option value
          | none => .ok { r with badLines := r.badLines ++ [(n, line)] }

/-- Reads lines, numbered from `n`; stops at the first fault. -/
def Reader.lines (r : Reader) (file : String) (n : Nat) : List String → Reader × Option Fault
  | [] => (r, none)
  | l :: rest =>
    match r.line file n l with
    | .ok r => r.lines file (n + 1) rest
    | .error f => (r, some f)

def trimmed (ini : Ini) : Ini :=
  let trimValues (s : Section) : Section := s.map fun e => (e.1, Text.trimEnd e.2)
  ⟨ini.sections.map fun e => (e.1, trimValues e.2), trimValues ini.defaults⟩

def badLinesFault (file : String) (lines : List (Nat × String)) : Fault :=
  Fault.because .unparsableFile ("Source contains parsing errors: " ++ Text.literal file ++
    String.join (lines.map fun (n, line) =>
      "\n\t[line " ++ Text.padStart 2 (toString n) ++ "]: " ++ Text.literal line))

/-- Reads a file into what was read before. What precedes a fault is kept; bad lines are reported
at the end. -/
def read (ini : Ini) (file : String) (text : List Char) : Ini × Option Fault :=
  let lines := (Text.linesAfterFeed (Text.unifyNewlines text)).map String.ofList
  let (r, fault) := Reader.lines { ini := ini } file 1 lines
  match fault with
  | some f => (r.ini.trimmed, some f)
  | none =>
    (r.ini.trimmed, if r.badLines.isEmpty then none else some (badLinesFault file r.badLines))

/-! ## Writing -/

def sectionText (name : String) (s : Section) : String :=
  "[" ++ name ++ "]\n" ++
    String.join (s.map fun (o, v) => o ++ " = " ++ Text.replace v "\n" "\n\t" ++ "\n") ++ "\n"

def text (ini : Ini) : String :=
  (if ini.defaults.isEmpty then "" else sectionText defaultSection ini.defaults) ++
    String.join (ini.sections.map fun (name, s) => sectionText name s)

end Ini

end LintRunner.Config
