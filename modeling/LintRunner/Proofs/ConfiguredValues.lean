import LintRunner.Config.Merge
import LintRunner.Proofs.NamedEntries
import LintRunner.Proofs.Registrations

/-!
# Values that configuration files give

What counts are layers of configuration: none in isolation, a file that the user named, or the
project's files over the user's. The value of an option comes from the strongest layer that writes
it, in either spelling of its name.
-/

namespace LintRunner

open Stateful

namespace Config

open Options (Declaration Registry dashed underscored)

/-- An option in a file is spelled like a name, with underscores or with dashes. -/
def isSpelled (name option : String) : Bool := option = name || option = dashed name

def Ini.writtenAmong (ini : Ini) (program name : String) (options : List String) : List String :=
  (options.filter (isSpelled name)).filterMap (ini.get? program)

/-- What a configuration says for a name. Of both spellings the one that is listed last counts. -/
def Ini.written? (ini : Ini) (program name : String) : Option String :=
  (ini.writtenAmong program name (ini.options program)).getLast?

/-- The declaration is the one that its name in configuration files stands for. -/
structure Known (r : Registry) (d : Declaration) (name : String) : Prop where
  named : d.configName = some name
  registered : r.configOptions.lookup name = some d

section OneConfiguration

variable {r : Registry} {d : Declaration} {name cwd directory : String} {ini : Ini}
  {option : String} {found : List (String × Value)} {options : List String}

theorem isSpelled_iff :
    isSpelled name option = true ↔ option = name ∨ option = dashed name := by
  rw [isSpelled, Bool.or_eq_true, decide_eq_true_iff, decide_eq_true_iff]

theorem underscored_of_isSpelled (hd : d.configName = some name)
    (h : isSpelled name option = true) : underscored option = name := by
  have hplain := d.underscored_configName hd
  rcases isSpelled_iff.mp h with rfl | rfl
  · exact hplain
  · exact (Options.underscored_dashed name).trans hplain

theorem Known.mem (hd : Known r d name) (hr : r.Sound) : d ∈ r.declarations :=
  (hr.configured name d hd.registered).1

theorem Known.lookup_configOptions (hd : Known r d name) (hr : r.Sound)
    (h : isSpelled name option = true) : r.configOptions.lookup option = some d := by
  rcases isSpelled_iff.mp h with rfl | rfl
  · exact hd.registered
  · rw [hr.spelled name (d.underscored_configName hd.named)]
    exact hd.registered

theorem exists_known (hr : r.Sound) (h : r.configOptions.lookup option = some d) :
    ∃ name, Known r d name ∧ isSpelled name option = true := by
  obtain ⟨-, name, hname, hkey⟩ := hr.configured option d h
  refine ⟨name, ⟨hname, ?_⟩, isSpelled_iff.mpr hkey⟩
  rcases hkey with rfl | rfl
  · exact h
  · rw [← hr.spelled name (d.underscored_configName hname)]
    exact h

/-- Reading an option puts the value that is written for it, under its name in configuration
files. -/
theorem readOption_ok {found' : List (String × Value)}
    (h : readOption r ini cwd directory found option = .ok found') (hr : r.Sound) :
    (found' = found ∧ (r.configOptions.lookup option = none ∨ ini.get? r.program option = none)) ∨
    ∃ d name s v, Known r d name ∧ isSpelled name option = true ∧
      ini.get? r.program option = some s ∧ valueOf d cwd directory s = .ok v ∧
      found' = Entries.put name v found := by
  unfold readOption at h
  cases hd : r.configOptions.lookup option with
  | none =>
    rw [hd] at h
    cases h
    exact .inl ⟨rfl, .inl rfl⟩
  | some d =>
    cases hs : ini.get? r.program option with
    | none =>
      rw [hd, hs] at h
      cases h
      exact .inl ⟨rfl, .inr rfl⟩
    | some s =>
      rw [hd, hs] at h
      obtain ⟨v, hv, h⟩ := bind_ok h
      obtain ⟨name, hknown, hspelled⟩ := exists_known hr hd
      rw [hknown.named] at h
      cases h
      exact .inr ⟨d, name, s, v, hknown, hspelled, rfl, hv, rfl⟩

theorem listed_foldlM_readOption {start : List (String × Value)}
    (hr : r.Sound) (hstart : Entries.Listed (fun name => ∃ d, Known r d name) start)
    (h : options.foldlM (readOption r ini cwd directory) start = .ok found) :
    Entries.Listed (fun name => ∃ d, Known r d name) found := by
  induction options generalizing start with
  | nil =>
    cases h
    exact hstart
  | cons option rest ih =>
    rw [List.foldlM_cons] at h
    obtain ⟨next, hnext, hrest⟩ := bind_ok h
    rcases readOption_ok hnext hr with ⟨rfl, -⟩ | ⟨d, name, s, v, hd, -, -, -, rfl⟩
    · exact ih hstart hrest
    · exact ih (hstart.put ⟨d, hd⟩) hrest

theorem listed_sectionValues (hr : r.Sound)
    (h : sectionValues r ini cwd directory = .ok found) :
    Entries.Listed (fun name => ∃ d, Known r d name) found := by
  rw [sectionValues] at h
  refine listed_foldlM_readOption hr ?_ h
  exact ⟨List.nodup_nil, List.forall_mem_nil _⟩

theorem writtenAmong_cons_of_not {program : String} {rest : List String}
    (h : isSpelled name option = true → ini.get? program option = none) :
    ini.writtenAmong program name (option :: rest) = ini.writtenAmong program name rest := by
  unfold Ini.writtenAmong
  rw [List.filter_cons]
  split
  · rename_i hspelled
    rw [List.filterMap_cons_none (h hspelled)]
  · rfl

theorem lookup_foldlM_readOption {start : List (String × Value)}
    (hr : r.Sound) (hd : Known r d name)
    (h : options.foldlM (readOption r ini cwd directory) start = .ok found) :
    (found.lookup name).map Except.ok =
      ((ini.writtenAmong r.program name options).getLast?.map (valueOf d cwd directory)).or
        ((start.lookup name).map .ok) := by
  induction options generalizing start with
  | nil =>
    cases h
    rfl
  | cons option rest ih =>
    rw [List.foldlM_cons] at h
    obtain ⟨next, hnext, h⟩ := bind_ok h
    rw [ih h]
    rcases readOption_ok hnext hr with
      ⟨rfl, habsent⟩ | ⟨e, other, s, v, he, hspelled, hs, hv, rfl⟩
    · rw [writtenAmong_cons_of_not fun hspelled => habsent.resolve_left ?_]
      rw [hd.lookup_configOptions hr hspelled]
      exact Option.some_ne_none d
    · rw [Entries.lookup_put]
      by_cases hsame : name = other
      · subst hsame
        cases hd.registered.symm.trans he.registered
        have hcons : ini.writtenAmong r.program name (option :: rest) =
            s :: ini.writtenAmong r.program name rest := by
          unfold Ini.writtenAmong
          rw [List.filter_cons_of_pos hspelled, List.filterMap_cons_some hs]
        rw [if_pos rfl, hcons, List.getLast?_cons, Option.map_some, ← hv]
        cases (ini.writtenAmong r.program name rest).getLast? <;> rfl
      · rw [if_neg hsame, writtenAmong_cons_of_not fun hown => absurd ?_ hsame]
        exact (underscored_of_isSpelled hd.named hown).symm.trans
          (underscored_of_isSpelled he.named hspelled)

theorem lookup_sectionValues (hr : r.Sound) (hd : Known r d name)
    (h : sectionValues r ini cwd directory = .ok found) :
    (found.lookup name).map Except.ok =
      (ini.written? r.program name).map (valueOf d cwd directory) := by
  rw [sectionValues] at h
  rw [lookup_foldlM_readOption hr hd h]
  exact Option.or_none

theorem exists_readOption_iff (start : List (String × Value)) :
    (∃ next, readOption r ini cwd directory start option = .ok next) ↔
      ∀ d s, r.configOptions.lookup option = some d → ini.get? r.program option = some s →
        ∃ v, valueOf d cwd directory s = .ok v := by
  unfold readOption
  split
  · rename_i d s hd hs
    constructor
    · rintro ⟨next, hnext⟩ d' s' hd' hs'
      cases hd.symm.trans hd'
      cases hs.symm.trans hs'
      obtain ⟨v, hv, -⟩ := bind_ok hnext
      exact ⟨v, hv⟩
    · intro h
      obtain ⟨v, hv⟩ := h d s hd hs
      exact ⟨_, by rw [hv]; rfl⟩
  · rename_i hnone
    exact ⟨fun _ d s hd hs => (hnone d s hd hs).elim, fun _ => ⟨start, rfl⟩⟩

theorem exists_foldlM_readOption_iff (start : List (String × Value)) :
    (∃ found, options.foldlM (readOption r ini cwd directory) start = .ok found) ↔
      ∀ option ∈ options, ∀ d s, r.configOptions.lookup option = some d →
        ini.get? r.program option = some s → ∃ v, valueOf d cwd directory s = .ok v := by
  induction options generalizing start with
  | nil => exact ⟨fun _ => List.forall_mem_nil _, fun _ => ⟨start, rfl⟩⟩
  | cons option rest ih =>
    rw [List.foldlM_cons, List.forall_mem_cons, ← exists_readOption_iff start]
    constructor
    · rintro ⟨found, hfound⟩
      obtain ⟨next, hnext, hrest⟩ := bind_ok hfound
      exact ⟨⟨next, hnext⟩, (ih next).mp ⟨found, hrest⟩⟩
    · rintro ⟨⟨next, hnext⟩, hrest⟩
      obtain ⟨found, hfound⟩ := (ih next).mpr hrest
      exact ⟨found, by rw [hnext]; exact hfound⟩

/-- A configuration can be read exactly if all that it says for registered options can. -/
theorem exists_sectionValues_iff :
    (∃ found, sectionValues r ini cwd directory = .ok found) ↔
      ∀ option ∈ ini.options r.program, ∀ d s, r.configOptions.lookup option = some d →
        ini.get? r.program option = some s → ∃ v, valueOf d cwd directory s = .ok v := by
  rw [sectionValues]
  exact exists_foldlM_readOption_iff []

end OneConfiguration

/-- A configuration with the directory that relative paths in it are taken from. -/
structure Layer where
  ini : Ini
  directory : String

def layerOf (find : Finding Ini) : Finding Layer := do
  let ini ← find
  return ⟨ini, (← get).localDirectory⟩

/-- The layers that count, the strongest first: none in isolation, the file that the user named, or
the project's and the user's, which is looked for before. -/
def layersOf (file : Value) (isolated : Bool) : Finding (List Layer) := do
  if isolated then return []
  if file.truthy then return [← layerOf (Finder.cliConfig file)]
  let user ← layerOf Finder.userConfigs
  let own ← layerOf Finder.localConfig
  return [own, user]

def layeredValue? (layers : List Layer) (program : String) (d : Declaration) (name cwd : String) :
    Option (Except Fault Value) :=
  layers.findSome? fun l => (l.ini.written? program name).map (valueOf d cwd l.directory)

section Layers

variable {r : Registry} {t : FileTree} {f f' : Finder} {found : List (String × Value)}

theorem find_bind_ok {α β : Type} {x : Finding α} {k : α → Finding β} {b : β}
    (h : ((x >>= k).run t).run f = (.ok b, f')) :
    ∃ a g, (x.run t).run f = (.ok a, g) ∧ ((k a).run t).run g = (.ok b, f') := run_bind_ok h

theorem find_bind_of_ok {α β : Type} {x : Finding α} {k : α → Finding β} {a : α}
    (h : (x.run t).run f = (.ok a, f')) :
    ((x >>= k).run t).run f = ((k a).run t).run f' := run_bind_of_ok h

theorem run_valuesOf (r : Registry) (ini : Ini) (t : FileTree) (f : Finder) :
    ((valuesOf r ini).run t).run f = (sectionValues r ini t.cwd f.localDirectory, f) := by
  unfold valuesOf
  rw [find_bind_of_ok (show ((read : Finding FileTree).run t).run f = (.ok t, f) from rfl),
    find_bind_of_ok (show ((get : Finding Finder).run t).run f = (.ok f, f) from rfl)]
  cases sectionValues r ini t.cwd f.localDirectory <;> rfl

theorem layerOf_ok (find : Finding Ini)
    (h : ((find >>= valuesOf r).run t).run f = (.ok found, f')) : ∃ l,
      ((layerOf find).run t).run f = (.ok l, f') ∧
      sectionValues r l.ini t.cwd l.directory = .ok found := by
  obtain ⟨ini, g, hfind, h⟩ := find_bind_ok h
  obtain ⟨hfound, rfl⟩ := Prod.mk.inj ((run_valuesOf r ini t g).symm.trans h)
  refine ⟨⟨ini, g.localDirectory⟩, ?_, hfound⟩
  exact find_bind_of_ok hfind

/-- Values from configuration files are listed by names of registered options, and the strongest
layer that writes an option gives its value. -/
theorem parse_ok {file : Value} {isolated : Bool} (hr : r.Sound)
    (h : ((parse r file isolated).run t).run f = (.ok found, f')) : ∃ layers,
      ((layersOf file isolated).run t).run f = (.ok layers, f') ∧
      Entries.Listed (fun name => ∃ d, Known r d name) found ∧
      ∀ d name, Known r d name →
        (found.lookup name).map Except.ok = layeredValue? layers r.program d name t.cwd := by
  unfold parse at h
  unfold layersOf
  cases isolated with
  | true =>
    rw [if_pos rfl] at h ⊢
    cases h
    exact ⟨[], rfl, ⟨List.nodup_nil, List.forall_mem_nil _⟩, fun _ _ _ => rfl⟩
  | false =>
    rw [if_neg Bool.false_ne_true] at h ⊢
    by_cases hfile : file.truthy = true
    · rw [if_pos hfile] at h ⊢
      obtain ⟨l, hl, hfound⟩ := layerOf_ok (Finder.cliConfig file) h
      refine ⟨[l], find_bind_of_ok hl, listed_sectionValues hr hfound, fun d name hd => ?_⟩
      rw [lookup_sectionValues hr hd hfound, layeredValue?, List.findSome?_singleton]
    · rw [if_neg hfile] at h ⊢
      obtain ⟨user, g, huser, h⟩ := find_bind_ok h
      obtain ⟨own, g', hown, h⟩ := find_bind_ok h
      cases h
      obtain ⟨l, hl, huser⟩ := layerOf_ok Finder.userConfigs huser
      obtain ⟨l', hl', hown⟩ := layerOf_ok Finder.localConfig hown
      refine ⟨[l', l], ?_, ?_, fun d name hd => ?_⟩
      · exact (find_bind_of_ok hl).trans (find_bind_of_ok hl')
      · exact (listed_sectionValues hr hown).foldl_putNew (listed_sectionValues hr huser).names
      · have hfirst := lookup_sectionValues hr hd hown
        have hsecond := lookup_sectionValues hr hd huser
        rw [Entries.lookup_foldl_putNew, layeredValue?, List.findSome?_cons, ← hfirst,
          List.findSome?_singleton, ← hsecond]
        cases own.lookup name <;> rfl

end Layers

end Config

end LintRunner
