import LintRunner.Options.Registry
import LintRunner.Plugin.Rules
import LintRunner.Report.Formatter

/-!
# What stands behind an entry point

An extension is something that can be called. It may have attributes, declare options, and ask to be
told the settings of a run.
-/

namespace LintRunner.Plugin

open Check (Arguments Call)

inductive Briefing where
  | full (settings : Settings) (arguments : Value)
  | short (settings : Settings)

/-- An option that an extension declares: properties without and with names, and the callback that
may be among them. -/
structure OptionRequest where
  positional : List Value
  named : List (String × Value)
  callback : Option Options.Callback := none
deriving Inhabited

structure Extension where
  isClass : Bool := false
  signature : Signature
  attributes : List (String × Value) := []
  module : String
  options : List OptionRequest := []
  brief : Option (Briefing → Run Unit) := none
  call : Arguments → Call

inductive Entity where
  | extension (e : Extension)
  /-- A formatter: one of the program, or one of a plugin that builds on it. -/
  | format (style : FormatStyle) (own : Option FormatterMethods := none)
  | data (v : Value)
  | module (name : String)

namespace Entity

def callable : Entity → Bool
  | extension _ => true
  | format .. => true
  | _ => false

def attribute? (e : Entity) (name : String) : Option Value :=
  match e with
  | extension x => x.attributes.lookup name
  | _ => none

def get (e : Entity) (name : String) : Except Fault Value :=
  match e.attribute? name with
  | some v => .ok v
  | none => .error Fault.missingAttribute

def moduleName : Entity → Except Fault String
  | extension x => .ok x.module
  | format _ own => .ok ((own.map (·.module)).getD "flake8.formatting.default")
  | _ => .error Fault.missingAttribute

def parameters : Entity → List (String × Bool)
  | extension x => x.signature.requested.filter fun p => !(x.isClass && p.1 = "self")
  | format .. => [("options", true)]
  | _ => []

def options : Entity → List OptionRequest
  | extension x => x.options
  | _ => []

def brief : Entity → Option (Briefing → Run Unit)
  | extension x => x.brief
  | _ => none

def call : Entity → Arguments → Call
  | extension x => x.call
  | _ => fun _ => ⟨.error Fault.badType, none⟩

def shown : Entity → String
  | data v => v.literal
  | module name => "<module " ++ Text.literal name ++ ">"
  | _ => "<class>"

end Entity

end LintRunner.Plugin
