import LintRunner.Plugin.EntryPoint
import LintRunner.Plugin.Extension

/-!
# What can be loaded

The modules that are installed, what each of them holds, and the entry points that they announce.
-/

namespace LintRunner.Plugin

structure Module where
  name : String
  version : Value := .none
  isPackage : Bool := false
  members : List (String × Entity) := []

structure Catalogue where
  modules : List Module := []
  extensions : List EntryPoint := []
  reports : List EntryPoint := []

namespace Catalogue

def module? (c : Catalogue) (name : String) : Option Module := c.modules.find? (·.name = name)

def ancestors (name : String) : List String :=
  let parts := Text.splitOnChar '.' name
  (List.range parts.length).map fun i => Text.joinWith "." (parts.take (i + 1))

def missingModule (parent : Option Module) (name : String) : Fault :=
  let why := "No module named " ++ Text.literal name
  Fault.because .missingImport (match parent with
    | some p => if p.isPackage then why else why ++ "; " ++ Text.literal p.name ++ " is not a package"
    | none => why)

def importFrom (c : Catalogue) (parent : Option Module) : List String → Except Fault (Option Module)
  | [] => .ok parent
  | name :: rest =>
    match c.module? name with
    | some m => c.importFrom (some m) rest
    | none => .error (missingModule parent name)

def import? (c : Catalogue) (name : String) : Except Fault Module := do
  match ← c.importFrom none (ancestors name) with
  | some m => return m
  | none => throw (missingModule none name)

def versionOf (c : Catalogue) (module : String) : Value :=
  match c.import? module with
  | .error _ => .none
  | .ok _ => ((c.module? ((Text.splitOnChar '.' module).headD "")).map (·.version)).getD .none

def load (c : Catalogue) (e : EntryPoint) : Except Fault Entity := do
  let m ← c.import? e.module
  match e.object with
  | none => return .module m.name
  | some object =>
    match Text.splitOnChar '.' object with
    | [] => return .module m.name
    | name :: rest =>
      match m.members.lookup name with
      | none =>
        throw (Fault.because .missingAttribute ("module " ++ Text.literal m.name ++
          " has no attribute " ++ Text.literal name))
      | some entity =>
        match rest with
        | [] => return entity
        | inner :: _ =>
          match entity.attribute? inner with
          | some v => return .data v
          | none =>
            throw (Fault.because .missingAttribute ("object has no attribute " ++ Text.literal inner))

end Catalogue

end LintRunner.Plugin
