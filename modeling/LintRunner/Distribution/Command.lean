import LintRunner.Application.Report

/-!
# Checking a distribution

A distribution lists its packages and modules. All of them are checked, and so is its setup file.
-/

namespace LintRunner.Distribution

open Options (Declaration)

/-- What a distribution lists. What counts as nothing lists nothing. -/
structure Contents where
  packages : Value := .none
  /-- The directory of a package; the empty name is the directory of all other packages. -/
  directories : Value := .none
  modules : Value := .none
deriving Inhabited, Repr

def itemsOf (v : Value) : Except Fault (List Value) := if v.truthy then v.elements else .ok []

def entryOf (v key : Value) : Except Fault Value := do v.entry (← key.asText)

def Contents.directoryOf (c : Contents) (package : Value) : Except Fault Value := do
  let directories := if c.directories.truthy then c.directories else .dict []
  let hasRoot ← (Value.text "").isIn directories
  if ← package.isIn directories then entryOf directories package
  else if hasRoot then
    let root ← (← entryOf directories (.text "")).asText
    return .text (Path.join root (← package.asText))
  else return package

/-- The directories of packages, without those that lie in one that came before; `seen` are the
starts of names below the ones that came. -/
def topDirectories (c : Contents) (seen : List String) : List Value → Except Fault (List String)
  | [] => .ok []
  | package :: rest => do
    match ← c.directoryOf package with
    | .text dir =>
      if seen.any (Text.startsWith dir ·) then topDirectories c seen rest
      else return dir :: (← topDirectories c ((dir ++ ".") :: seen) rest)
    | _ => throw Fault.missingAttribute

def Contents.packageFiles (c : Contents) : Except Fault (List String) := do
  topDirectories c [] (← itemsOf c.packages)

def Contents.moduleFiles (c : Contents) : Except Fault (List String) := do
  return (← itemsOf c.modules).map fun m => m.plain ++ ".py"

def Contents.files (c : Contents) : Except Fault (List String) := do
  return (← c.packageFiles) ++ (← c.moduleFiles) ++ ["setup.py"]

def commandOptions : Running (List (String × Declaration)) := do
  return (← get).registry.declarations.filterMap fun d => d.configName.map fun name => (name, d)

def applyAttributes (attributes : List (String × Value)) : Running Unit := do
  for (name, d) in ← commandOptions do
    match attributes.lookup name with
    | none => pure ()
    | some v =>
      let v ← Running.lift (d.ofAttribute (← get).world.tree.cwd v)
      Running.setSettings ((← Running.settings).set name v)

def check (c : Contents) : Running Unit := do
  Running.runChecks (Value.texts (← Running.lift c.files))
  Running.report
  tryCatch Running.exit fun
    | .exit status => if status.truthy then throw (.exit status) else pure ()
    | f => throw f

end LintRunner.Distribution
