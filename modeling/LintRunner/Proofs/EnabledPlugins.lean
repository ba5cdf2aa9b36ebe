import LintRunner.Proofs.CodeSettings
import LintRunner.Proofs.Decisions
import LintRunner.StyleGuide
import Mathlib.Data.List.Sort

/-!
# Plugins that are off by default

A plugin that is off by default has its name among the codes that are ignored by default. Where the
user enables it, the name is taken off the ignored codes again and counts as selected. So its codes
are reported if and only if the user enables it, as long as nothing else speaks about them.
-/

namespace LintRunner

open Stateful
open Config (Finder layersOf)

namespace Plugin.Managing

open Options

variable {m m' : Managed} {name : String} {codes wanted : List String} {arguments : Value}

theorem removeFirst_texts (name : String) (codes : List String) :
    removeFirst name (codes.map .text) = (codes.erase name).map .text := by
  induction codes with
  | nil => rfl
  | cons code rest ih =>
    rw [List.map_cons, removeFirst, List.erase_cons]
    by_cases hsame : code = name
    · rw [if_pos (by simpa using hsame), if_pos (by simpa using hsame)]
    · rw [if_neg (by simpa using hsame), if_neg (by simpa using hsame), ih, List.map_cons]

theorem isIn_texts (name : String) (codes : List String) :
    (Value.text name).isIn (Value.texts codes) = .ok (codes.contains name) := by
  have hany : (codes.map Value.text).any (Value.text name).same = codes.contains name := by
    rw [List.any_map, List.contains_eq_any_beq]
    exact congrArg codes.any (funext fun code => by rw [Function.comp_apply, Value.same])
  exact congrArg Except.ok hany

theorem setting_ok {α : Type} {key : String} {v : Value} {k : Value → Managing α} {a : α}
    (hv : m.settings.find? key = some v)
    (h : (do k (← lift ((← get).settings.get key))).run m = (.ok a, m')) :
    (k v).run m = (.ok a, m') := by
  rw [run_get_bind, Settings.get, hv] at h
  exact h

theorem unignore_ok (hcodes : m.settings.find? "ignore" = some (Value.texts codes))
    (h : (unignore name).run m = (.ok (), m')) :
    m' = { m with settings := m.settings.set "ignore" (Value.texts (codes.erase name)) } := by
  cases setting_ok hcodes h
  rw [removeFirst_texts]
  rfl

def enableWanted (name : String) : Managing Unit := do
  let wanted ← lift ((← get).settings.get "enable_extensions")
  if ← lift ((Value.text name).isIn wanted) then enable name true

theorem enableWanted_ok (hwanted : m.settings.find? "enable_extensions" = some (Value.texts wanted))
    (hcodes : m.settings.find? "ignore" = some (Value.texts codes))
    (h : (enableWanted name).run m = (.ok (), m')) :
    m'.settings = if name ∈ wanted then
      m.settings.set "ignore" (Value.texts (codes.erase name)) else m.settings := by
  replace h := setting_ok hwanted h
  obtain ⟨b, _, hlift, h⟩ := run_bind_ok h
  obtain ⟨hb, rfl⟩ := lift_ok hlift
  rw [isIn_texts] at hb
  cases hb
  by_cases hmem : name ∈ wanted
  · rw [if_pos (List.contains_iff_mem.mpr hmem)] at h
    obtain ⟨_, _, hchange, h⟩ := run_bind_ok h
    obtain ⟨r, -, rfl⟩ := changeRegistry_ok hchange
    rw [if_pos rfl] at h
    rw [if_pos hmem, unignore_ok (m := { m with registry := r }) hcodes h]
  · rw [if_neg (mt List.contains_iff_mem.mp hmem)] at h
    cases h
    rw [if_neg hmem]

theorem keeps_lift {α γ : Type} {view : Managed → γ} (x : Except Fault α) :
    Keeps view (lift x) := by
  cases x <;> exact fun _ => rfl

theorem keeps_inWorld {α : Type} (r : Run α) : Keeps Managed.settings (inWorld r) :=
  .bind .get fun _ => .bind (.modify fun _ => rfl) fun _ => keeps_lift _

theorem provideOptions_ok
    (hwanted : m.settings.find? "enable_extensions" = some (Value.texts wanted))
    (hcodes : m.settings.find? "ignore" = some (Value.texts codes))
    (h : (provideOptions arguments name).run m = (.ok (), m')) :
    m'.settings = if name ∈ wanted then
      m.settings.set "ignore" (Value.texts (codes.erase name)) else m.settings := by
  obtain ⟨e, u, hentity, h⟩ := run_bind_ok h
  obtain ⟨-, -, -, hsettings⟩ := entity_ok hentity
  rw [← hsettings] at hwanted hcodes ⊢
  dsimp only at h
  split at h
  · exact enableWanted_ok hwanted hcodes h
  · rename_i brief _
    obtain ⟨_, _, hget, h⟩ := run_bind_ok h
    cases hget
    obtain ⟨_, u', htold, h⟩ := run_bind_ok h
    have hkept : Keeps Managed.settings
        (tryCatch (inWorld (brief (.full u.settings arguments))) fun f =>
          if f.isKind .badType then inWorld (brief (.short u.settings)) else throw f) :=
      .tryCatch (keeps_inWorld _) fun _ => .ite (keeps_inWorld _) (.throw _)
    have hsame : u'.settings = u.settings := by
      have hview := hkept u
      rwa [htold] at hview
    rw [← hsame] at hwanted hcodes ⊢
    exact enableWanted_ok hwanted hcodes h

/-- Once all plugins have been told the settings, the names that the user enables are taken off the
ignored codes, and the other settings are as before. -/
theorem provideAllOptions_ok
    (hwanted : m.settings.find? "enable_extensions" = some (Value.texts wanted))
    (hcodes : m.settings.find? "ignore" = some (Value.texts codes))
    (h : (provideAllOptions arguments).run m = (.ok (), m')) :
    m'.settings.find? "ignore" =
        some (Value.texts (codes.diff (m.collection.names.filter (· ∈ wanted)))) ∧
      ∀ key, key ≠ "ignore" → m'.settings.find? key = m.settings.find? key := by
  obtain ⟨_, _, hget, h⟩ := run_bind_ok h
  cases hget
  obtain ⟨_, _, hloop, h⟩ := run_bind_ok h
  cases h
  have hdone := Gives.forIn (I := fun rest t => (∀ key, key ≠ "ignore" →
      t.settings.find? key = m.settings.find? key) ∧ ∃ left,
    t.settings.find? "ignore" = some (Value.texts left) ∧
      left.diff (rest.filter (· ∈ wanted)) = codes.diff (m.collection.names.filter (· ∈ wanted)))
    ?_ ⟨fun _ _ => rfl, codes, hcodes, rfl⟩ _ _ hloop
  · obtain ⟨hothers, left, hleft, hdiff⟩ := hdone
    rw [List.filter_nil, List.diff_nil] at hdiff
    rw [← hdiff]
    exact ⟨hleft, hothers⟩
  · rintro name rest t ⟨hothers, left, hleft, hdiff⟩ _ t' hstep
    obtain ⟨_, _, hprovide, hstep⟩ := run_bind_ok hstep
    cases hstep
    have hset := provideOptions_ok ((hothers _ (by decide)).trans hwanted) hleft hprovide
    rw [List.filter_cons] at hdiff
    refine ⟨rfl, ?_⟩
    rw [hset]
    by_cases hmem : name ∈ wanted
    · rw [if_pos hmem]
      rw [if_pos (decide_eq_true hmem), List.diff_cons] at hdiff
      refine ⟨fun key hkey => ?_, left.erase name, ?_, hdiff⟩
      · rw [find?_set, if_neg hkey]
        exact hothers key hkey
      · rw [find?_set, if_pos rfl]
    · rw [if_neg hmem]
      rw [if_neg (by simpa using hmem)] at hdiff
      exact ⟨hothers, left, hleft, hdiff⟩

end Plugin.Managing

/-! ## The decision -/

open Policy (Uncovered)

variable {name code : String}

theorem Settings.texts_of_find? {s : Settings} {codes : List String}
    (h : s.find? name = some (Value.texts codes)) : s.texts name = codes := by
  rw [texts, value, h]
  exact Options.Declaration.textItems_texts codes

theorem Policy.ofSettings_of_find? {s : Settings}
    {select enabled extended ignore extend : List String}
    (hselect : s.find? "select" = some (Value.texts select))
    (henabled : s.find? "enable_extensions" = some (Value.texts enabled))
    (hextended : s.find? "extended_default_select" = some (.set (extended.map .text)))
    (hignore : s.find? "ignore" = some (Value.texts ignore))
    (hextend : s.find? "extend_ignore" = some (Value.texts extend)) :
    Policy.ofSettings s = .ok ⟨select, enabled, extended, ignore, extend⟩ := by
  have hlist : ∀ codes, (Value.texts codes).asTexts = .ok codes := mapM_map_ok fun _ => rfl
  have hset : ∀ codes : List String, (Value.set (codes.map .text)).asTexts = .ok codes :=
    mapM_map_ok fun _ => rfl
  have hget : ∀ {name v}, s.find? name = some v → s.get name = .ok v := by
    intro name v hv
    rw [Settings.get, hv]
  unfold ofSettings
  simp only [hget hselect, hget henabled, hget hextended, hget hignore, hget hextend, bind,
    Except.bind, hlist, hset]
  rfl

/-- Where nothing but one name speaks about a code, the code is selected if the user enables the
name, and ignored otherwise. -/
theorem Policy.decide_of_name {p : Policy} (hp : p.NoEmptyEntry)
    (hname : name.toList <+: code.toList)
    (hselect : Uncovered p.select code) (hextended : Uncovered p.extendedDefaultSelect code)
    (henabled : ∀ e ∈ p.enableExtensions, e ≠ name → ¬ e.toList <+: code.toList)
    (hignored : name ∈ p.enableExtensions → Uncovered (p.ignore ++ p.extendIgnore) code) :
    p.decide code = .ok (if name ∈ p.enableExtensions then .selected else .ignored) := by
  have hiff : p.Selects code ↔ name ∈ p.enableExtensions := by
    constructor
    · intro hselects
      by_contra hmem
      have hnone : longestEntry code (p.select ++ p.enableExtensions) = none := by
        refine longestEntry_eq_none_iff.mpr (List.forall_mem_append.mpr ⟨hselect, fun e he => ?_⟩)
        refine henabled e he ?_
        rintro rfl
        exact hmem he
      rcases hselects with ⟨hsome, -⟩ | ⟨-, -, hsome, -⟩
      · exact hsome hnone
      · exact hsome (longestEntry_eq_none_iff.mpr hextended)
    · intro hmem
      refine .inl ⟨fun hnone => ?_, .inl (longestEntry_eq_none_iff.mpr (hignored hmem))⟩
      exact longestEntry_eq_none_iff.mp hnone name (List.mem_append_right _ hmem) hname
  simp only [decide_eq p hp, hiff]

theorem uncovered_keepItems_diff {codes taken : List String} (hcodes : codes.Nodup)
    (hstripped : ∀ e ∈ codes, Text.trim e = e) (htaken : name ∈ taken)
    (hothers : ∀ e ∈ codes, e ≠ name → ¬ e.toList <+: code.toList) :
    Uncovered ((Text.keepItems codes).diff taken) code := by
  rw [Text.keepItems_of_trim hstripped]
  intro e he
  have hmem := (List.mem_filter.mp (List.diff_subset _ _ he)).1
  refine hothers e hmem ?_
  rintro rfl
  have hcount : (codes.filter (· ≠ "")).count e ≤ 1 :=
    List.nodup_iff_count_le_one.mp (hcodes.filter _) e
  have hleft := List.count_pos_iff.mpr he
  have htook := List.count_pos_iff.mpr htaken
  rw [List.count_diff] at hleft
  omega

/-- Once a name has been taken off the codes that are ignored by default, none of them starts a code
of its plugin. -/
theorem Options.Registry.Enrolled.uncovered_diff {r : Registry} {names taken : List String}
    (hr : Registry.initial.Enrolled names name r) (hstripped : ∀ n ∈ names, Text.trim n = n)
    (htaken : name ∈ taken) (hdefault : Uncovered defaultIgnore code)
    (hothers : ∀ other ∈ names, other ≠ name → ¬ other.toList <+: code.toList) :
    Uncovered ((Text.keepItems (Text.sorted (union r.extendedIgnore
      (Text.items .commaOrBlank (Text.joinWith "," defaultIgnore))))).diff taken) code := by
  have hitems : Text.items .commaOrBlank (Text.joinWith "," defaultIgnore) = defaultIgnore := by
    decide +kernel
  have hmem : ∀ e ∈ Text.sorted (union r.extendedIgnore
      (Text.items .commaOrBlank (Text.joinWith "," defaultIgnore))),
      e ∈ r.extendedIgnore ∨ e ∈ Text.items .commaOrBlank (Text.joinWith "," defaultIgnore) := by
    intro e he
    rwa [Text.sorted, List.mem_mergeSort, mem_union] at he
  refine uncovered_keepItems_diff ?_ (fun e he => ?_) htaken fun e he hne => ?_
  · exact (List.mergeSort_perm _ _).nodup_iff.mpr (nodup_union hr.nodup _)
  · rcases hmem e he with he | he
    · exact hstripped e (hr.ignored e he)
    · exact (Text.isItem_of_mem_keepItems e he).trim_eq
  · rcases hmem e he with he | he
    · exact hothers e (hr.ignored e he) hne
    · rw [hitems] at he
      exact hdefault e he

namespace Plugin

open Options Managing

variable {m₀ m₁ m₂ : Managed} {r' : Registry} {f : Finder} {finder : Option Finder} {t : FileTree}
  {words args : List String} {s : Settings} {lines arguments v : Value} {name code : String}
  {installed : List EntryPoint} {c : Collection}

theorem EntryPoint.name_of_parse {text : String} {e : EntryPoint} (h : parse name text = .ok e) :
    e.name = name := by
  unfold parse at h
  split at h <;> cases h
  rfl

theorem EntryPoint.trim_of_ofLine {line : String} {e : EntryPoint} (h : ofLine line = .ok e) :
    Text.trim e.name = e.name := by
  unfold ofLine at h
  split at h
  rw [name_of_parse h, Text.trim_trim]

theorem Collection.names_foldl_add (isLocal : Bool) (found : List EntryPoint) (c : Collection) :
    (found.foldl (add · isLocal) c).names = c.names ++ found.map (·.name) := by
  induction found generalizing c with
  | nil => exact (List.append_nil _).symm
  | cons e rest ih =>
    rw [List.foldl_cons, ih]
    exact (List.append_cons ..).symm

/-- Where the names of the installed plugins have no blanks at their ends, no name has: those of
configuration lose theirs. -/
theorem Collection.trim_of_make (hmade : make lines installed = .ok c)
    (hinstalled : ∀ e ∈ installed, Text.trim e.name = e.name) :
    ∀ n ∈ c.names, Text.trim n = n := by
  obtain ⟨found, hfound, rfl⟩ := make_ok hmade
  rw [names_foldl_add, names_foldl_add, List.nil_append, ← List.map_append]
  intro n hn
  obtain ⟨e, he, rfl⟩ := List.mem_map.mp hn
  rcases List.mem_append.mp he with he | he
  · obtain ⟨line, hline⟩ := hfound e he
    exact EntryPoint.trim_of_ofLine hline
  · exact hinstalled e he

theorem Managing.registering_of_initial (hstart : m₀.registry = Registry.initial)
    (hregister : (registerAllOptions true).run m₀ = (.ok (), m₁))
    (hflag : ((offByDefault name).run m₀).1 = .ok v) (hoff : v.truthy = true) :
    Registering m₀ name m₁ := by
  obtain ⟨⟨e, hlead, rfl⟩, -⟩ := offByDefault_ok (Prod.ext hflag rfl)
  obtain ⟨hignore, hselect⟩ := Registry.extended_foldlM_add withDefaults_make
  refine registering_registerAllOptions ?_ ?_ ?_ hlead hoff hregister <;> rw [hstart]
  · exact (Registry.Built.make _ _).foldlM_add withDefaults_make
  · exact hignore
  · exact hselect

theorem Managing.Registering.aggregated {held : String} (hr : Registering m₀ held m₁)
    (hstart : m₀.registry = Registry.initial) (hspares : m₁.registry.SparesCodes)
    (h : aggregate m₁.registry (some f) t (.ok words) none = (.ok (s, args), r', finder)) :
    ∀ e ∈ codeDefaults, ∃ codes, s.find? e.1 = some (Value.texts codes) ∧
      (∀ code ∈ codes, Text.IsItem code) ∧
      (e.1 = "ignore" → ¬ m₁.registry.SetByUser f t words e.1 →
        codes = Text.keepItems (Text.sorted (Registry.union m₁.registry.extendedIgnore
          (Text.items .commaOrBlank e.2)))) := by
  intro e he
  have henrolled := hr.enrolled
  rw [hstart] at henrolled
  obtain ⟨d, o, hd⟩ := exists_codeOption he
  have hname : e.1 ∈ codeDefaults.map (·.1) := List.mem_map.mpr ⟨e, he, rfl⟩
  refine (hd.enrolled hname henrolled hspares).aggregated (henrolled.built hspares.callbacks) ?_ h
  rintro heq
  rw [heq] at hname
  exact absurd hname (by decide)

/-- Plugins register their options, the settings are read, and the plugins are told them. -/
structure Arranged (m₀ : Managed) (f : Finder) (t : FileTree) (words : List String)
    (arguments : Value) (m₁ : Managed) (s : Settings) (m₂ : Managed) : Prop where
  registered : (registerAllOptions true).run m₀ = (.ok (), m₁)
  told : ∃ args r finder,
    aggregate m₁.registry (some f) t (.ok words) none = (.ok (s, args), r, finder) ∧
    (provideAllOptions arguments).run { m₁ with registry := r, settings := s } = (.ok (), m₂)

/-- A code of a plugin that is off by default, about which nothing else speaks, is selected if the
user enables the plugin, and ignored otherwise. The plugins are those of any configuration and any
installation; as package metadata gives them, the names of installed plugins have no blanks at their
ends. -/
theorem offByDefault_selected_by_enabling (hmade : Collection.make lines installed = .ok c)
    (hinstalled : ∀ e ∈ installed, Text.trim e.name = e.name)
    (hnames : m₀.collection.names = c.names) (hstart : m₀.registry = Registry.initial)
    (harranged : Arranged m₀ f t words arguments m₁ s m₂) (hspares : m₁.registry.SparesCodes)
    (hname : name ∈ m₀.collection.names) (hflag : ((offByDefault name).run m₀).1 = .ok v)
    (hoff : v.truthy = true) (hcode : name.toList <+: code.toList)
    (hselect : Uncovered (s.texts "select") code) (hdefault : Uncovered defaultIgnore code)
    (hignore : m₁.registry.SetByUser f t words "ignore" →
      Uncovered (s.texts "ignore") code)
    (hextend : Uncovered (s.texts "extend_ignore") code)
    (hothers : ∀ other ∈ m₀.collection.names, other ≠ name → ¬ other.toList <+: code.toList)
    (henabled : ∀ e ∈ s.texts "enable_extensions", e ≠ name → ¬ e.toList <+: code.toList) :
    ∃ p, Policy.ofSettings m₂.settings = .ok p ∧ ∀ earlier, p.decisionAfter earlier code =
      .ok (if name ∈ s.texts "enable_extensions" then .selected else .ignored) := by
  obtain ⟨args, r', finder, hread, hprovide⟩ := harranged.told
  have hregistering := registering_of_initial hstart harranged.registered hflag hoff
  have hlists := hregistering.aggregated hstart hspares hread
  obtain ⟨select, hfselect, hiselect, -⟩ := hlists _ List.mem_cons_self
  obtain ⟨ignore, hfignore, hiignore, hunset⟩ := hlists _ (.tail _ (.head _))
  obtain ⟨extend, hfextend, hiextend, -⟩ := hlists _ (.tail _ (.tail _ (.head _)))
  obtain ⟨enabled, hfenabled, hienabled, -⟩ := hlists _ (.tail _ (.tail _ (.tail _ (.head _))))
  dsimp only at hfselect hfignore hfextend hfenabled hunset
  rw [Settings.texts_of_find? hfselect] at hselect
  rw [Settings.texts_of_find? hfignore] at hignore
  rw [Settings.texts_of_find? hfextend] at hextend
  rw [Settings.texts_of_find? hfenabled] at henabled ⊢
  have henrolled := hregistering.enrolled
  rw [hstart] at henrolled
  have hfextended := Registry.aggregate_extendedSelect (henrolled.built hspares.callbacks)
    (hspares.free henrolled) hread
  obtain ⟨hleft, hkept⟩ := provideAllOptions_ok hfenabled hfignore hprovide
  refine ⟨_, Policy.ofSettings_of_find? ((hkept _ (by decide)).trans hfselect)
    ((hkept _ (by decide)).trans hfenabled) ((hkept _ (by decide)).trans hfextended) hleft
    ((hkept _ (by decide)).trans hfextend), fun earlier => ?_⟩
  rw [Policy.decisionAfter_eq]
  have hextended : Uncovered m₁.registry.extendedSelect code := by
    intro e he
    obtain ⟨hmem, hne⟩ := henrolled.selected e he
    exact hothers e hmem hne
  refine Policy.decide_of_name ?_ hcode hselect hextended henabled fun hwanted => ?_
  · simp only [Policy.NoEmptyEntry, List.forall_mem_append]
    refine ⟨⟨⟨⟨fun e he => (hiselect e he).ne_empty, fun e he => (hienabled e he).ne_empty⟩, ?_⟩,
      fun e he => (hiignore e (List.diff_subset _ _ he)).ne_empty⟩,
      fun e he => (hiextend e he).ne_empty⟩
    rintro _ he rfl
    exact hextended "" he List.nil_prefix
  · refine List.forall_mem_append.mpr ⟨?_, hextend⟩
    by_cases hset : m₁.registry.SetByUser f t words "ignore"
    · exact fun e he => hignore hset e (List.diff_subset _ _ he)
    · rw [hunset rfl hset]
      refine henrolled.uncovered_diff ?_ ?_ hdefault hothers
      · exact hnames ▸ Collection.trim_of_make hmade hinstalled
      refine List.mem_filter.mpr ⟨?_, decide_eq_true hwanted⟩
      exact hregistering.stays.names ▸ hname

def restingPoints (names : List String) : List EntryPoint :=
  names.map fun name => ⟨name, "plug", some "Check"⟩

/-- Installed plugins that are all off by default. -/
def resting (names : List String) : Managed where
  catalogue := { modules := [{ name := "plug", members := [("Check", .extension
    { signature := {}, attributes := [("off_by_default", .bool true)], module := "plug",
      call := fun _ => default })] }] }
  collection := (restingPoints names).foldl (Collection.add · false) {}
  registry := .initial
  world := { tree := Registry.projectWith "" }

def enablingTwo : FileTree := Registry.projectWith "[flake8]\nenable_extensions = X, Y\n"

/-- The registry after all plugins have registered, and the settings that are read in the project and
that all plugins can be told. -/
def settled (m : Managed) : Option (Registry × Settings) :=
  match (registerAllOptions true).run m with
  | (.error _, _) => none
  | (.ok (), m₁) =>
    match aggregate m₁.registry (some Registry.projectFinder) enablingTwo (.ok []) none with
    | (.error _, _) => none
    | (.ok (s, _), r, _) =>
      match (provideAllOptions .none).run { m₁ with registry := r, settings := s } with
      | (.error _, _) => none
      | (.ok (), _) => some (m₁.registry, s)

theorem exists_of_settled {m : Managed} {r : Registry} {s : Settings}
    (h : settled m = some (r, s)) : ∃ m₁ m₂, m₁.registry = r ∧
      Arranged m Registry.projectFinder enablingTwo [] .none m₁ s m₂ := by
  unfold settled at h
  split at h
  · cases h
  · rename_i m₁ hregister
    split at h
    · cases h
    · rename_i args r' finder hread
      split at h
      · cases h
      · rename_i m₂ hprovide
        cases h
        exact ⟨m₁, m₂, rfl, hregister, args, r', finder, hread, hprovide⟩

/-- Whether a layer of configuration writes an option, where there are no words. -/
def writes? (r : Registry) (f : Finder) (t : FileTree) (name : String) : Option Bool := do
  let (asked, _) ← (r.parse .strict t.cwd (.ok []) none).1.toOption
  let layers ←
    (((layersOf (asked.value "config") (asked.flag "isolated")).run t).run f).1.toOption
  return layers.any fun l => (l.ini.written? r.program name).isSome

theorem not_setByUser {r : Registry} (h : writes? r f t name = some false) :
    ¬ r.SetByUser f t [] name := by
  rintro (⟨met, args, hreads, hmet⟩ | ⟨asked, args, layers, g, hasked, hlayers, l, hl, hwritten⟩)
  · obtain ⟨rfl, -⟩ := hreads.unique .done
    exact hmet rfl
  · rw [writes?, hasked] at h
    dsimp only [Except.toOption, Option.bind_some, bind] at h
    rw [hlayers] at h
    have hnone := Option.some.inj h
    rw [List.any_eq_false] at hnone
    exact hnone l hl hwritten

theorem sorted_eq_insertionSort : Text.sorted = List.insertionSort (· ≤ ·) := by
  funext codes
  have horder : (fun a b : String => !Text.lt b a) = fun a b => decide (a ≤ b) := by
    funext a b
    rw [Bool.eq_iff_iff, not_lt_iff, decide_eq_true_iff]
  rw [Text.sorted, horder, List.mergeSort_eq_insertionSort]

/-- No plugin adds an option, the two plugins are enabled, and nothing else is said. -/
def enablesTwo (out : Registry × Settings) : Bool :=
  out.1.declarations.length = 28 && out.1.commandLine.callbacks.isEmpty &&
    writes? out.1 Registry.projectFinder enablingTwo "ignore" = some false &&
    out.2.texts "select" = defaultSelect && out.2.texts "extend_ignore" = [] &&
    out.2.texts "enable_extensions" = ["X", "Y"]

theorem settled_resting : (settled (resting ["X", "Y", "Z"])).any enablesTwo = true := by
  -- the sorting of codes is replaced for all plugins at once, so that a run can be evaluated
  obtain ⟨run, hrun, hvalues⟩ : ∃ run : Managed → Option (Registry × Settings),
      (∀ m, settled m = run m) ∧ (run (resting ["X", "Y", "Z"])).any enablesTwo = true := by
    apply Exists.intro
    constructor
    · intro m
      unfold settled aggregate Registry.extendDefaults
      rw [sorted_eq_insertionSort]
    · decide +kernel
  rw [hrun]
  exact hvalues

theorem exists_resting : ∃ m₁ s m₂,
    Arranged (resting ["X", "Y", "Z"]) Registry.projectFinder enablingTwo [] .none m₁ s m₂ ∧
    m₁.registry.SparesCodes ∧
    ¬ m₁.registry.SetByUser Registry.projectFinder enablingTwo [] "ignore" ∧
    s.texts "select" = defaultSelect ∧ s.texts "extend_ignore" = [] ∧
    s.texts "enable_extensions" = ["X", "Y"] := by
  obtain ⟨⟨r, s⟩, hsettled, hvalues⟩ := (Option.any_eq_true ..).mp settled_resting
  obtain ⟨m₁, m₂, rfl, harranged⟩ := exists_of_settled hsettled
  simp only [enablesTwo, Bool.and_eq_true, decide_eq_true_eq] at hvalues
  obtain ⟨⟨⟨⟨⟨hlength, hown⟩, hwrites⟩, hselect⟩, hextend⟩, henabled⟩ := hvalues
  refine ⟨m₁, s, m₂, harranged, ⟨?_, List.isEmpty_iff.mp hown⟩, not_setByUser hwrites, hselect,
    hextend, henabled⟩
  intro e he
  have hinitial : Registry.initial.declarations.length = 28 := by
    rw [Registry.declarations_initial]
    rfl
  rw [hinitial, ← hlength, List.drop_length] at he
  cases he

/-- Of two plugins about which nothing else is said, the codes of the one that is enabled are
selected and those of the other one are ignored. -/
theorem offByDefault_selected_beside_resting : ∃ m₁ s m₂ p,
    Arranged (resting ["X", "Y", "Z"]) Registry.projectFinder enablingTwo [] .none m₁ s m₂ ∧
    s.texts "enable_extensions" = ["X", "Y"] ∧ Policy.ofSettings m₂.settings = .ok p ∧
    p.decisionAfter ["Z1"] "Y1" = .ok .selected ∧ p.decisionAfter ["Y1"] "Z1" = .ok .ignored := by
  obtain ⟨m₁, s, m₂, harranged, hspares, hunset, hselect, hextend, henabled⟩ := exists_resting
  have hmade : Collection.make .none (restingPoints ["X", "Y", "Z"]) =
      .ok (resting ["X", "Y", "Z"]).collection := rfl
  have hinstalled : ∀ e ∈ restingPoints ["X", "Y", "Z"], Text.trim e.name = e.name := by
    decide +kernel
  have hstart : (resting ["X", "Y", "Z"]).registry = .initial := by rw [resting]
  have hnames : (resting ["X", "Y", "Z"]).collection.names = ["X", "Y", "Z"] := rfl
  have hflag : ∀ e ∈ [("Y", "Y1"), ("Z", "Z1")],
      ((offByDefault e.1).run (resting ["X", "Y", "Z"])).1.toOption = some (.bool true) := by
    decide +kernel
  have hapart : ∀ e ∈ [("Y", "Y1"), ("Z", "Z1")],
      e.1 ∈ ["X", "Y", "Z"] ∧ e.1.toList <+: e.2.toList ∧
      Uncovered defaultSelect e.2 ∧ Uncovered defaultIgnore e.2 ∧
      (∀ other ∈ ["X", "Y", "Z"], other ≠ e.1 → ¬ other.toList <+: e.2.toList) ∧
      ∀ a ∈ ["X", "Y"], a ≠ e.1 → ¬ a.toList <+: e.2.toList := by
    decide +kernel
  have hdecided : ∀ e ∈ [("Y", "Y1"), ("Z", "Z1")], ∃ p, Policy.ofSettings m₂.settings = .ok p ∧
      ∀ earlier, p.decisionAfter earlier e.2 =
        .ok (if e.1 ∈ s.texts "enable_extensions" then .selected else .ignored) := by
    intro e he
    obtain ⟨hname, hcode, hselected, hdefault, hothers, hwanted⟩ := hapart e he
    rw [← hnames] at hname hothers
    rw [← hselect] at hselected
    rw [← henabled] at hwanted
    refine offByDefault_selected_by_enabling hmade hinstalled rfl hstart harranged hspares hname
      (eq_ok_of_toOption (hflag e he)) rfl hcode hselected hdefault
      (fun hset => absurd hset hunset) ?_ hothers hwanted
    rw [hextend]
    exact List.forall_mem_nil _
  obtain ⟨p, hp, hselected⟩ := hdecided _ List.mem_cons_self
  obtain ⟨q, hq, hignored⟩ := hdecided _ (List.mem_cons_of_mem _ List.mem_cons_self)
  cases hp.symm.trans hq
  refine ⟨m₁, s, m₂, p, harranged, henabled, hp, ?_, ?_⟩
  · rw [hselected, henabled, if_pos (by decide)]
  · rw [hignored, henabled, if_neg (by decide)]

end Plugin

end LintRunner
