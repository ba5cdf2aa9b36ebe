import LintRunner.Check.Manager
import LintRunner.Config.Finder
import LintRunner.Exchange.FaultData
import LintRunner.Options.Registry

/-!
# Results as data

What a run holds and finds, as data that other programs read.
-/

namespace LintRunner

class ToData (α : Type) where
  data : α → Value

namespace ToData

variable {α β : Type}

instance : ToData Value := ⟨id⟩

instance : ToData String := ⟨.text⟩

instance : ToData Bool := ⟨.bool⟩

instance : ToData Int := ⟨.int⟩

instance : ToData Nat := ⟨fun n => .int n⟩

instance : ToData Unit := ⟨fun _ => .none⟩

instance [ToData α] : ToData (Option α) := ⟨fun x => (x.map data).getD .none⟩

instance [ToData α] : ToData (List α) := ⟨fun xs => .list (xs.map data)⟩

instance [ToData α] [ToData β] : ToData (α × β) := ⟨fun (a, b) => .list [data a, data b]⟩

instance : ToData Decision := ⟨fun
  | .ignored => .text "Decision.Ignored"
  | .selected => .text "Decision.Selected"⟩

instance : ToData Standing := ⟨fun
  | .selectedExplicitly => .text "Selected.Explicitly"
  | .selectedImplicitly => .text "Selected.Implicitly"
  | .ignoredExplicitly => .text "Ignored.Explicitly"
  | .ignoredImplicitly => .text "Ignored.Implicitly"⟩

instance : ToData Statistic := ⟨fun s => .list [s.code, s.file, s.message, data s.count]⟩

instance : ToData Finding := ⟨fun f =>
  .list [f.code, f.line, f.column, f.text, f.source]⟩

instance : ToData Suppression.Mark := ⟨fun m => .list [data m.start, data m.stop, data m.codes]⟩

instance : ToData Check.FileCounts := ⟨fun c => .dict [("logical lines", data c.logicalLines),
  ("physical lines", data c.physicalLines), ("tokens", data c.tokens)]⟩

instance : ToData Check.RunCounts := ⟨fun c => .dict [("files", data c.files),
  ("logical lines", c.logicalLines), ("physical lines", c.physicalLines), ("tokens", c.tokens)]⟩

instance : ToData Source.Pos := ⟨fun p => .list [data p.row, data p.col]⟩

instance : ToData Source.Token := ⟨Source.Processor.tokenValue⟩

instance : ToData Config.Ini := ⟨fun ini => .dict (ini.sections.map fun (name, _) =>
  (name, .dict ((ini.values name).map fun (o, x) => (o, data x))))⟩

instance : ToData Config.LocalPlugins := ⟨fun l =>
  .list [data l.extensions, data l.reports, data (Text.sorted l.paths)]⟩

instance : ToData Check.Checker := ⟨fun c => .dict [("name", data c.name),
  ("plugin_name", c.pluginName), ("parameters", data c.parameters),
  ("parameter_names", data (c.parameters.map (·.1)))]⟩

instance : ToData Check.Checks := ⟨fun c => .dict [("ast_plugins", data c.trees),
  ("logical_line_plugins", data c.logicalLines), ("physical_line_plugins", data c.physicalLines)]⟩

instance : ToData Options.PluginVersion := ⟨fun p => .list [p.name, p.version, p.isLocal]⟩

end ToData

open ToData (data)

namespace Value

def byLiteral (vs : List Value) : List Value := vs.mergeSort fun a b => !Text.lt b.literal a.literal

def inOrder (vs : List Value) : List Value := (sorted vs).toOption.getD (byLiteral vs)

mutual

/-- A value in terms of what JSON has: numbers that are not integers are written by their text, and
sets in order. -/
def exchanged : Value → Value
  | float x => dict [("float", text x.text)]
  | complex re im => dict [("complex", text (complexText re im))]
  | list vs => list (exchangedItems vs)
  | tuple vs => list (exchangedItems vs)
  | set vs => list (inOrder (exchangedItems vs))
  | dict es => dict (exchangedEntries es)
  | v => v

def exchangedItems : List Value → List Value
  | [] => []
  | v :: rest => exchanged v :: exchangedItems rest

def exchangedEntries : List (String × Value) → List (String × Value)
  | [] => []
  | (k, v) :: rest => (k, exchanged v) :: exchangedEntries rest

end

end Value

/-- Settings as data, the codes to ignore in order; only those with the given names, if any are
given. -/
def Settings.shown (s : Settings) (only : Option (List String)) : Value :=
  let shown (name : String) (v : Value) : Value :=
    if name = "ignore" then ((v.items?.map Value.inOrder).map data).getD v else v
  .dict (match only with
    | some names => names.map fun n => (n, shown n (s.value n))
    | none => s.entries.map fun (n, v) => (n, shown n v))

def Options.Registry.shown (r : Registry) : List (String × Value) :=
  [("ignore", data (Text.sorted r.extendedIgnore)), ("select", data (Text.sorted r.extendedSelect)),
   ("plugins", data (Value.byLiteral (r.plugins.map data)))]

def Source.Processor.shownNames : List String :=
  ["blank_before", "blank_lines", "checker_state", "indent_char", "indent_level", "line_number",
   "logical_line", "multiline", "noqa", "previous_indent_level", "previous_logical",
   "previous_unindented_logical_line", "statistics"]

def Source.Processor.shown (p : Processor) : Value :=
  .dict (("tokens", data p.tokens.length) ::
    shownNames.map fun n => (n, data (p.answer n).1.toOption))

def Check.FileChecker.shownResults (c : FileChecker) : Value :=
  match c.handed with
  | some (results, _) => results
  | none => data c.results

def Check.FileChecker.view (c : FileChecker) : List (String × Value) :=
  [("repr", data c.shown), ("display_name", data c.displayName),
   ("should_process", data c.shouldProcess), ("results", data c.results),
   ("statistics", data c.counts)]

def Check.Reply.view (r : Reply) : Except Fault Value :=
  match r with
  | .results .nothing => .ok .none
  | .results (.ready items) => .ok (data items)
  | .results (.lone items) => .ok (data items)
  | .results (.stream items _ fault) =>
    match fault with
    | some f => .error f
    | none => .ok (data (items.map (·.result)))
  | _ => .ok (.text "<object>")

/-- What a policy says about a code, with the decision and what is remembered after it. -/
def Policy.row (p : Policy) (d : Decider) (code : Value) : Except Fault (Value × Decider) := do
  match code with
  | .text code =>
    let (decision, d) ← d.decisionFor code
    return (.list [data code, data (p.wasSelected code), data (p.wasIgnored code),
      data (p.moreSpecificDecision code), data decision], d)
  | _ => throw Fault.missingAttribute

def Policy.rows (p : Policy) : Decider → List Value → Except Fault (List Value × Decider)
  | d, [] => .ok ([], d)
  | d, code :: rest => do
    let (row, d) ← p.row d code
    let (rows, d) ← p.rows d rest
    return (row :: rows, d)

def Policy.view (p : Policy) (codes : Value) : Except Fault Value := do
  let (rows, d) ← p.rows ⟨p, []⟩ (← codes.elements)
  return .dict [("selected", data p.select), ("all_selected", data p.allSelected),
    ("extended_selected", data p.extendedSelected), ("ignored", data p.allIgnored),
    ("default_ignore", data p.usesDefaultIgnore), ("default_select", data p.usesDefaultSelect),
    ("decisions", data rows), ("cache", data (Text.sorted (d.taken.map (·.1))))]

end LintRunner
