import LintRunner.Check.Manager
import LintRunner.Config.Finder
import LintRunner.Diff
import LintRunner.Options.BugReport
import LintRunner.Options.Defaults
import LintRunner.Plugin.Collection

/-!
# A run of the program

A run goes through stages, each of which makes something that later ones need: preliminary settings,
a finder of configuration files, plugins, settings, a formatter, style guides, and a manager of the
files. What has not been made yet cannot be asked for.
-/

namespace LintRunner

open Check (Manager Supervising)
open Config (Finder LocalPlugins)
open Options (Registry)
open Plugin (Catalogue Collection Managed Managing)

structure Application where
  catalogue : Catalogue
  world : World
  words : List String
  registry : Registry := Registry.initial
  preliminary : Option (Settings × List String) := none
  finder : Option Finder := none
  localPlugins : Option LocalPlugins := none
  checks : Option Collection := none
  formats : Option Collection := none
  settings : Option (Settings × List String) := none
  formatter : Option Formatter := none
  guides : Option StyleGuides := none
  sharesFormatter : Bool := true
  manager : Option Manager := none
  diff : Option Diff.Coverage := none
  found : Nat := 0
  reported : Nat := 0
  failed : Bool := false
  finished : Bool := false

/-- Work on a run; what was done before a fault stays done. -/
abbrev Running := ExceptT Fault (StateM Application)

namespace Running

variable {α : Type}

def lift (r : Except Fault α) : Running α :=
  match r with
  | .ok a => pure a
  | .error f => throw f

def need (x : Option α) : Running α :=
  match x with
  | some a => pure a
  | none => throw Fault.missingAttribute

def inWorld (r : Run α) : Running α := do
  let (result, w) := r.run (← get).world
  modify fun a => { a with world := w }
  lift result

def settings : Running Settings := return (← need (← get).settings).1

/-- Replaces the settings. What reads them while it works follows: the formatter, and the style guide
of all files. -/
def setSettings (s : Settings) : Running Unit :=
  modify fun a =>
    let follow (f : Formatter) : Formatter :=
      { f with tee := s.flag "tee", showsSource := s.flag "show_source" }
    let guides := a.guides.map fun g =>
      { g with
        formatter := g.formatter.map follow
        guides := match g.guides with
          | [] => []
          | first :: rest => { first with disableNoqa := s.flag "disable_noqa" } :: rest }
    { a with
      settings := a.settings.map fun old => (s, old.2)
      formatter := a.formatter.map follow
      guides := guides }

/-- Work with the plugins of one kind: `collection` picks them and `keep` puts them back. -/
def withPlugins (collection : Application → Option Collection)
    (keep : Application → Collection → Application) (m : Managing α) : Running α := do
  let a ← get
  let c ← need (collection a)
  let (r, m) := m.run
    { catalogue := a.catalogue, collection := c, registry := a.registry,
      settings := (a.settings.map (·.1)).getD {}, world := a.world }
  set (keep { a with
    registry := m.registry
    settings := a.settings.map fun old => (m.settings, old.2)
    world := m.world } m.collection)
  lift r

def withChecks (m : Managing α) : Running α :=
  withPlugins (·.checks) (fun a c => { a with checks := some c }) m

def withFormats (m : Managing α) : Running α :=
  withPlugins (·.formats) (fun a c => { a with formats := some c }) m

def withManager (m : Supervising α) : Running α := do
  let (r, manager) := m.run (← need (← get).manager)
  modify fun a => { a with manager := some manager }
  lift r

def setFormatter (f : Formatter) : Running Unit :=
  modify fun a =>
    { a with
      formatter := some f
      guides := if a.sharesFormatter then a.guides.map ({ · with formatter := some f })
        else a.guides }

end Running

end LintRunner
