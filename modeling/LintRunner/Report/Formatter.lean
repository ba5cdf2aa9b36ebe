import LintRunner.Statistics
import LintRunner.Text.Lower
import LintRunner.Text.Template
import LintRunner.World

/-!
# Writing reports

A formatter turns violations into lines and writes them to standard output or to a file. Most
formatters fill in a template; one names each file once, one writes nothing. A formatter of a plugin
may do anything with the violations it is given.
-/

namespace LintRunner

inductive FormatStyle where
  /-- No way of its own: writing a violation is a fault. -/
  | base
  | simple
  /-- One line per violation; the user may give a template. -/
  | default
  | pylint
  /-- The name of each file with violations, once. -/
  | fileNames
  | nothing
  /-- Something that is no formatter: whatever it is asked for is missing. -/
  | foreign
deriving DecidableEq, Repr, Inhabited

def FormatStyle.className : FormatStyle → String
  | base => "BaseFormatter"
  | simple => "SimpleFormatter"
  | default => "Default"
  | pylint => "Pylint"
  | fileNames => "FilenameOnly"
  | nothing => "Nothing"
  | foreign => "object"

def FormatStyle.template : FormatStyle → Option String
  | default => some "%(path)s:%(row)d:%(col)d: %(code)s %(text)s"
  | pylint => some "%(path)s:%(row)d: [%(code)s] %(text)s"
  | fileNames => some "%(path)s"
  | _ => none

structure FormatterState where
  template : Option String
  output : Value
  tee : Bool
  showsSource : Bool
  isOpen : Bool := false
  named : List Value := []
  /-- What a formatter of a plugin keeps for itself. -/
  memory : Value := .none
deriving Repr, Inhabited

/-- What a formatter of a plugin does in its own way: when it is made, when the findings of a file
begin and end, and with each violation. -/
structure FormatterMethods where
  module : String
  afterInit : Settings → FormatterState → Except Fault FormatterState := fun _ f => .ok f
  beginning : FormatterState → Value → Run FormatterState := fun f _ => pure f
  handle : FormatterState → Violation → Run FormatterState
  finished : FormatterState → Value → Run FormatterState := fun f _ => pure f

structure Formatter extends FormatterState where
  style : FormatStyle
  own : Option FormatterMethods := none
deriving Inhabited

namespace Formatter

/-- A formatter for settings. In the default style a format other than the word `default` is a
template. -/
def ofSettings (style : FormatStyle) (s : Settings) : Except Fault Formatter := do
  let output ← s.get "output_file"
  let template ←
    if style = .default then
      match ← s.get "format" with
      | .text t => pure (if Text.lower t = "default" then style.template else some t)
      | _ => throw Fault.missingAttribute
    else pure style.template
  return {
    style := style
    template := template
    output := output
    tee := s.flag "tee"
    showsSource := s.flag "show_source" }

/-- A formatter of a plugin, or of the program if there are no methods, for settings. -/
def make (style : FormatStyle) (own : Option FormatterMethods) (s : Settings) :
    Except Fault Formatter := do
  let f ← ofSettings style s
  match own with
  | none => return f
  | some methods =>
    return { toFormatterState := ← methods.afterInit s f.toFormatterState, style := style, own := own }

def filled (f : Formatter) (v : Violation) : Except Fault String :=
  match f.template with
  | none => .error Fault.badType
  | some t =>
    Template.fill t (.named [("code", v.code), ("text", v.text), ("path", v.file), ("row", v.line),
      ("col", v.column)])

/-- The line for a violation; some styles write none. -/
def format (f : Formatter) (v : Violation) : Except Fault (Option String × Formatter) :=
  match f.style with
  | .foreign => .error Fault.missingAttribute
  | .nothing => .ok (none, f)
  | .base =>
    .error (Fault.because .notImplemented "Subclass of BaseFormatter did not implement format.")
  | .fileNames => do
    let file ← v.file.asKey
    if f.named.any file.same then return (none, f)
    return (some (← f.filled v), { f with named := f.named ++ [file] })
  | _ => return (some (← f.filled v), f)

/-- The spaces before a column that counts from one. A row of them that is too long for the machine
is a fault. -/
def indentTo (column : Value) : Except Fault String := do
  let n ← (← column.plus (-1)).asInt
  if n < Template.mostRoom then return Text.spaces n.toNat
  else throw (.raised (if n < 0x8000000000000000 then .noMemory else .overflow) [])

/-- The source line of a violation with a pointer below it; nothing unless it is asked for. -/
def source (f : Formatter) (v : Violation) : Except Fault (Option String) :=
  match f.style with
  | .fileNames => .ok none
  | .nothing => .ok none
  | _ =>
    match f.showsSource, v.source with
    | false, _ => .ok (some "")
    | true, .none => .ok (some "")
    | true, line => do
      let gap ← indentTo v.column
      return some ((← line.asText) ++ gap ++ "^")

/-- Writes something and a line feed, to the file if it is open, to standard output if it is not or
both are asked for. Only a text can be written to a file. -/
def writeText (f : Formatter) (v : Value) : Run Unit := do
  if f.isOpen then
    let s ← Run.lift v.asText
    let path ← Run.lift f.output.asText
    let w ← get
    set { w with tree := ← Run.lift (w.tree.append path (s ++ "\n").toUTF8.toList) }
  if !f.isOpen || f.tee then Run.print (v.plain ++ "\n")

def write (f : Formatter) (line excerpt : Value) : Run Unit := do
  if line.truthy then f.writeText line
  if excerpt.truthy then f.writeText excerpt

def optional (s : Option String) : Value := (s.map Value.text).getD .none

def handleByStyle (f : Formatter) (v : Violation) : Run Formatter := do
  let (line, f) ← Run.lift (f.format v)
  f.write (optional line) (optional (← Run.lift (f.source v)))
  return f

def changeBy (f : Formatter) (step : FormatterState → Run FormatterState) : Run Formatter :=
  return { f with toFormatterState := ← step f.toFormatterState }

def handle (f : Formatter) (v : Violation) : Run Formatter :=
  match f.own with
  | none => f.handleByStyle v
  | some methods => f.changeBy (methods.handle · v)

def require (f : Formatter) : Run Unit :=
  if f.style = .foreign then throw Fault.missingAttribute else pure ()

/-- The findings of a file follow. -/
def beginning (f : Formatter) (file : Value) : Run Formatter := do
  f.require
  match f.own with
  | none => return f
  | some methods => f.changeBy (methods.beginning · file)

/-- There are no more findings of a file. -/
def finished (f : Formatter) (file : Value) : Run Formatter := do
  f.require
  match f.own with
  | none => return f
  | some methods => f.changeBy (methods.finished · file)

/-- Gets ready: the file to write to is opened at its end. A number stands for a file that is open
already, and there is none. -/
def start (f : Formatter) : Run Formatter := do
  f.require
  if !f.output.truthy then return f
  match f.output.int? with
  | some n =>
    throw (if n < 0 then Fault.badValue "negative file descriptor"
      else .raised .system [.int 9, .text "Bad file descriptor"])
  | none =>
    let path ← Run.lift f.output.asText
    Run.changeTree (·.append path [])
    return { f with isOpen := true }

def stop (f : Formatter) : Formatter := { f with isOpen := false }

def showStatistics (f : Formatter) (stats : Statistics) : Run Unit := do
  f.require
  for code in ← Run.lift stats.codes do
    match ← Run.lift (stats.select code .none) with
    | [] => pure ()
    | first :: rest =>
      let count := rest.foldl (fun n s => n + s.count) first.count
      f.writeText (.text (Text.padEnd 5 (toString count) ++ " " ++ code.plain ++ " " ++
        first.message.plain))

/-- The text of a benchmark figure: integers as they are, other numbers with three digits. -/
def figure (v : Value) : Except Fault String :=
  match v with
  | .int n => .ok (Text.padEnd 10 (toString n))
  | .bool b => .ok (Text.padEnd 10 (if b then "1" else "0"))
  | .float x => .ok (Text.padEnd 10 (x.general 3))
  | .text s => .ok (Text.padEnd 10 (Text.take 3 s))
  | _ => .error Fault.badType

def showBenchmarks (f : Formatter) (figures : Value) : Run Unit := do
  f.require
  for pair in ← Run.lift figures.elements do
    let (name, v) ← Run.lift pair.unpack2
    f.writeText (.text ((← Run.lift (figure v)) ++ " " ++ name.plain))

end Formatter

end LintRunner
