import LintRunner.Exchange.FaultData
import LintRunner.Plugin.BuiltIn

/-!
# Plugins described by data

A plugin may be described by a dictionary: its name, where it lies, its parameters, the rules of its
check, and the options that it declares.
-/

namespace LintRunner.Plugin.Described

def rule (v : Value) : Rule :=
  match v.field? "raise", v.field? "find" with
  | some fault, _ => .fail (Fault.ofValue fault)
  | _, some needle => .find (v.field "text") needle
  | _, _ => .say (v.field "text") (v.field? "at") (v.strs "show") (v.field "state").text?

def mode (name : String) : Mode :=
  match name with
  | "single" => .single
  | "none" => .none
  | "generator" => .generator
  | _ => .list

/-- What a plugin does when it is told the settings: if the way in which it is told fits, it notes
those it is interested in, and may then fail. -/
def brief (v : Value) (n : Int) (b : Briefing) : Run Unit := do
  let note (s : Settings) (extra : Value) : Run Unit := do
    let wanted := (v.strs "wants").map fun name => (name, s.value name)
    modify fun w => { w with provided := w.provided ++
      [.list [.text (v.strD "name" ""), .int n, extra, .dict wanted]] }
    match v.field? "parse_raise" with
    | some fault => throw (Fault.ofValue fault)
    | none => pure ()
  match b with
  | .full s arguments => if n = 3 then note s arguments else throw Fault.badType
  | .short s => if n = 1 then note s .none else throw Fault.badType

def check (v : Value) : RuleCheck :=
  { signature := Signature.ofWords (v.strs "params")
    rules := (v.items "checks").map rule
    mode := mode (v.strD "mode" "")
    isClass := v.strD "kind" "" = "class"
    noRun := v.on "norun"
    eager := v.on "raise_init" }

def option (v : Value) : OptionRequest where
  positional := (v.item 0).sequence
  named := (v.item 1).entries

/-- What stands behind a plugin's entry point; `home` is the module where it lies. -/
def entity (home : String) (v : Value) : Entity :=
  match v.field? "value" with
  | some data => .data data
  | none =>
    let c := check v
    .extension
      { isClass := c.isClass
        signature := c.signature
        attributes := (v.field "attrs").entries
        module := v.strD "module_attr" home
        options := (v.items "options").map option
        brief := (v.field "parse_options").int?.map (brief v)
        call := c.call }

/-- Descriptions with the names of their objects: the one given, or `kind` and the position. -/
def named (kind : String) (vs : List Value) : List (String × Value) :=
  ((List.range vs.length).zip vs).map fun (n, v) => (v.strD "obj" (kind ++ toString n), v)

def entryPoints (home : String) (named : List (String × Value)) : List EntryPoint :=
  (named.filter (!·.2.on "local")).map fun (object, v) =>
    ⟨v.strD "name" "", v.strD "module" home, some object⟩

/-- A catalogue of described plugins, which lie in the module `home`, together with what is always
installed. -/
def catalogue (home : String) (v : Value) : Catalogue :=
  let checks := named "plugins" (v.items "plugins")
  let reports := named "report_plugins" (v.items "report_plugins")
  let present := (checks ++ reports).filter (!·.2.on "missing")
  { modules :=
      { name := home
        members := (present.map fun (object, v) => (object, entity home v)).reverse
        version := (v.field? "module_version").getD (.text "9.9") } ::
      exampleModule :: ownModules
    extensions := entryPoints home checks ++
      (if v.on "pyflakes" then [flakesEntryPoint] else []) ++
      (if v.on "example_plugin" then exampleEntryPoints else [])
    reports := entryPoints home reports ++ ownReports }

end LintRunner.Plugin.Described
