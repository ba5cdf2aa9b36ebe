import LintRunner.Plugin.Catalogue

/-!
# The plugins of a run

Plugins named in configuration files come first, then installed ones. A plugin is loaded when
something is asked of it. Names may come twice: the later plugin then takes the place of the
earlier one, and is visited once for each time that its name came.
-/

namespace LintRunner.Plugin

open Options (Registry PluginVersion)

structure Member where
  name : String
  entryPoint : EntryPoint
  isLocal : Bool := false
  object : Option Entity := none

namespace Member

def shown (p : Member) : String :=
  "Plugin(name=\"" ++ p.name ++ "\", entry_point=\"" ++ p.entryPoint.shown ++ "\")"

/-- The group of a plugin: what stands before the first dot of its name. -/
def group? (p : Member) : Option String :=
  match Text.cut (· == '.') p.name.toList with
  | (group, some _) => some (String.ofList group)
  | (_, none) => none

end Member

structure Collection where
  names : List String := []
  plugins : List (String × Member) := []
  loaded : Bool := false

namespace Collection

def add (c : Collection) (isLocal : Bool) (e : EntryPoint) : Collection :=
  { c with
    names := c.names ++ [e.name]
    plugins := Entries.put e.name ⟨e.name, e, isLocal, none⟩ c.plugins }

def make (lines : Value) (installed : List EntryPoint) : Except Fault Collection := do
  let found ← (← if lines.truthy then lines.elements else pure []).mapM fun
    | .text line => EntryPoint.ofLine line
    | _ => throw Fault.missingAttribute
  return installed.foldl (add · false) (found.foldl (add · true) {})

def find? (c : Collection) (name : String) : Option Member := c.plugins.lookup name

/-- A plugin by a key of any kind; only a text may be a name. -/
def findBy (c : Collection) (key : Value) : Except Fault (Option Member) := do
  return (← key.asKey).text?.bind c.find?

end Collection

/-- Plugins, with all that their work may look at or change. -/
structure Managed where
  catalogue : Catalogue
  collection : Collection
  registry : Registry := {}
  settings : Settings := {}
  world : World

/-- Work with plugins; what was done before a fault stays done. -/
abbrev Managing := ExceptT Fault (StateM Managed)

namespace Managing

def lift {α : Type} (r : Except Fault α) : Managing α :=
  match r with
  | .ok a => pure a
  | .error f => throw f

def inWorld {α : Type} (r : Run α) : Managing α := do
  let (result, w) := r.run (← get).world
  modify fun m => { m with world := w }
  lift result

def changeRegistry (f : Registry → Except Fault Registry) : Managing Unit := do
  let r ← lift (f (← get).registry)
  modify fun m => { m with registry := r }

def plugin (name : String) : Managing Member := do
  match (← get).collection.find? name with
  | some p => return p
  | none => throw (Fault.missingKey name)

def nameOf (key : Value) : Managing String := do
  match ← lift ((← get).collection.findBy key) with
  | some p => return p.name
  | none => throw (.raised .missingKey [key])

def notCallable (e : Entity) : Fault :=
  Fault.because .badType ("Plugin " ++ e.shown ++ " is not a callable. It might be written for an " ++
    "older version of flake8 and might not work with this version")

/-- What a plugin leads to; it is loaded if it has not been. Something that cannot be called is a
fault when it is loaded, but it stays. -/
def entity (name : String) : Managing Entity := do
  let p ← plugin name
  match p.object with
  | some e => return e
  | none =>
    match (← get).catalogue.load p.entryPoint with
    | .error f => throw (.loadFailed p.name f)
    | .ok e =>
      let keep := match e with
        | .data .none => none
        | e => some e
      modify fun m => { m with collection := { m.collection with
        plugins := Entries.put name { p with object := keep } m.collection.plugins } }
      if e.callable then return e else throw (.loadFailed p.name (notCallable e))

def loadAll : Managing Unit := do
  if (← get).collection.loaded then return
  for name in (← get).collection.names do
    let _ ← entity name
  modify fun m => { m with collection := { m.collection with loaded := true } }

def pluginName (name : String) : Managing Value := do
  match (← plugin name).group? with
  | some g => return .text g
  | none => lift ((← entity name).get "name")

/-- The version of a plugin: that of its package when it is in a group, or the one it gives
itself. -/
def version (name : String) : Managing Value := do
  let e ← entity name
  match (← plugin name).group? with
  | some _ => return (← get).catalogue.versionOf (← lift e.moduleName)
  | none => lift (e.get "version")

/-- Whether the plugin does nothing unless the user asks for it, as the plugin says. -/
def offByDefault (name : String) : Managing Value := do
  return ((← entity name).attribute? "off_by_default").getD (.bool false)

def parameters (name : String) : Managing (List (String × Bool)) := do
  return (← entity name).parameters

def removeFirst (name : String) : List Value → List Value
  | [] => []
  | v :: rest => if v == .text name then rest else v :: removeFirst name rest

def unignore (name : String) : Managing Unit := do
  let v ← lift ((← get).settings.get "ignore")
  let v ← match v with
    | .list items => pure (.list (removeFirst name items))
    | .set items => pure (.set (removeFirst name items))
    | _ => throw Fault.missingAttribute
  modify fun m => { m with settings := m.settings.set "ignore" v }

def enable (name : String) (withSettings : Bool) : Managing Unit := do
  changeRegistry fun r => .ok ((r.removeIgnore [name]).extendSelect [name])
  if withSettings then unignore name

def disable (name : String) : Managing Unit := changeRegistry fun r => .ok (r.extendIgnore [name])

def registerOptions (name : String) : Managing Unit := do
  for o in (← entity name).options do
    changeRegistry fun r => r.declare o.positional o.named o.callback
  if (← offByDefault name).truthy then disable name

/-- Declares the options of all plugins. With `enabling`, plugins outside of groups that are not off
by default are enabled. -/
def registerAllOptions (enabling : Bool) : Managing Unit := do
  loadAll
  for name in (← get).collection.names do
    registerOptions name
    if enabling && (← plugin name).group?.isNone && !(← offByDefault name).truthy then enable name false

/-- Tells a plugin the settings: in full, or, where that does not fit, the settings alone. A plugin
that the user asks for is enabled. -/
def provideOptions (arguments : Value) (name : String) : Managing Unit := do
  match (← entity name).brief with
  | none => pure ()
  | some brief =>
    let s := (← get).settings
    tryCatch (inWorld (brief (.full s arguments))) fun f =>
      if f.isKind .badType then inWorld (brief (.short s)) else throw f
  let wanted ← lift ((← get).settings.get "enable_extensions")
  if ← lift ((Value.text name).isIn wanted) then enable name true

def provideAllOptions (arguments : Value) : Managing Unit := do
  for name in (← get).collection.names do
    provideOptions arguments name

def versionsFrom (seen : List Value) : List String → Managing (List (Value × Value))
  | [] => return []
  | name :: rest => do
    let shown ← lift (← pluginName name).asKey
    if seen.any shown.same then versionsFrom seen rest
    else
      let v ← version name
      return (shown, v) :: (← versionsFrom (shown :: seen) rest)

def versions : Managing (List (Value × Value)) := do versionsFrom [] (← get).collection.names

def announceFrom (seen : List Value) : List String → Managing Unit
  | [] => return
  | name :: rest => do
    let shown ← lift (← pluginName name).asKey
    if seen.any shown.same then announceFrom seen rest
    else
      let v ← version name
      changeRegistry (·.announce ⟨shown, v, .bool false⟩)
      announceFrom (shown :: seen) rest

def announceAll : Managing Unit := do
  loadAll
  announceFrom [] (← get).collection.names

/-- The names of the plugins whose first parameter is the given one. A plugin without parameters is
a fault. -/
def expecting (parameter : Value) : Managing (List String) := do
  let mut found := []
  for (name, _) in (← get).collection.plugins do
    match ← parameters name with
    | [] => throw Fault.badIndex
    | (first, _) :: _ => if parameter.same (.text first) then found := found ++ [name]
  return found

def check (name : String) : Managing Check.Checker := do
  let ps ← parameters name
  let e ← entity name
  let shown ← pluginName name
  return ⟨name, shown, ps, e.call⟩

def checks : Managing Check.Checks := do
  let trees ← (← expecting (.text "tree")).mapM check
  let logicalLines ← (← expecting (.text "logical_line")).mapM check
  let physicalLines ← (← expecting (.text "physical_line")).mapM check
  return ⟨trees, logicalLines, physicalLines⟩

end Managing

end LintRunner.Plugin
