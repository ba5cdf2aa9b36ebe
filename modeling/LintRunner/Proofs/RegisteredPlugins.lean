import LintRunner.Plugin.Collection
import LintRunner.Proofs.AggregatedSettings

/-!
# What plugins register

All plugins are loaded, their options are declared, and their names join the codes that are ignored
or selected by default. What a plugin leads to stays the same on the way, so one that is off by
default is among the ignored codes alone.
-/

namespace LintRunner

open Stateful

theorem Stateful.Gives.forIn {σ α : Type} {s : σ} {xs : List α}
    {f : α → PUnit → Work σ (ForInStep PUnit)} {I : List α → σ → Prop}
    (hf : ∀ a rest t, I (a :: rest) t → Gives t (f a ⟨⟩) fun step u => step = .yield ⟨⟩ ∧ I rest u)
    (hs : I xs s) : Gives s (ForIn.forIn xs ⟨⟩ f) fun _ t => I [] t := by
  induction xs generalizing s with
  | nil => exact pure hs
  | cons a rest ih =>
    rw [List.forIn_cons]
    refine bind (hf a rest s hs) ?_
    rintro _ t ⟨rfl, ht⟩
    exact ih ht

theorem Text.nodup_dedup (names : List String) : (dedup names).Nodup := by
  have hfold : ∀ kept : List String, kept.Nodup →
      (names.foldl (fun acc x => if acc.contains x then acc else acc ++ [x]) kept).Nodup := by
    induction names with
    | nil => exact fun _ hkept => hkept
    | cons x rest ih =>
      intro kept hkept
      refine ih _ ?_
      dsimp only
      split
      · exact hkept
      · rename_i hx
        refine List.nodup_append.mpr ⟨hkept, by simp, fun a ha b hb => ?_⟩
        rintro rfl
        rw [List.mem_singleton.mp hb] at ha
        exact hx (List.contains_iff_mem.mpr ha)
  exact hfold [] List.nodup_nil

namespace Options.Registry

variable {base r r' : Registry} {names : List String} {held name : String} {d : Declaration}

theorem nodup_union {codes : List String} (h : codes.Nodup) (more : List String) :
    (union codes more).Nodup := by
  refine List.nodup_append.mpr ⟨h, Text.nodup_dedup _, fun a ha b hb => ?_⟩
  rintro rfl
  have hnew := (List.mem_filter.mp ((Text.mem_dedup _).mp hb)).2
  simp [ha] at hnew

theorem addWith_ok {callback : Option Callback} (h : r.addWith callback d = .ok r') :
    ∃ d, r.add d = .ok r' ∨ ∃ call, (r.addCallback call).add d = .ok r' := by
  cases callback with
  | none => exact ⟨d, .inl h⟩
  | some call => exact ⟨_, .inr ⟨call, h⟩⟩

theorem declare_ok {positional : List Value} {named : List (String × Value)}
    {callback : Option Callback} (h : r.declare positional named callback = .ok r') :
    ∃ d, r.add d = .ok r' ∨ ∃ call, (r.addCallback call).add d = .ok r' := by
  unfold declare at h
  split at h
  · obtain ⟨_, -, h⟩ := bind_ok h
    obtain ⟨d, -, h⟩ := bind_ok h
    exact addWith_ok h
  · cases h
  · obtain ⟨_, -, h⟩ := bind_ok h
    obtain ⟨d, -, h⟩ := bind_ok h
    exact addWith_ok h

theorem lookup_configOptions_add_of_ne (h : r.add d = .ok r') (hname : underscored name = name)
    (hd : d.configName ≠ some name) :
    r'.configOptions.lookup name = r.configOptions.lookup name := by
  obtain ⟨_, _, _, -, rfl, -⟩ := add_ok h
  refine lookup_withNames_of_ne fun key hkey => ⟨?_, fun heq => hd ?_⟩
  · rintro rfl
    exact hd hkey
  · rw [hkey, ← hname, heq, underscored_dashed, d.underscored_configName hkey]

/-- What plugins make of a registry: options are added to those that were there, and names of
plugins to the codes. The name of one plugin is held back from the selected codes. -/
structure Enrolled (base : Registry) (names : List String) (held : String) (r : Registry) : Prop where
  built : r.commandLine.callbacks = [] → r.Built
  grown : ∃ more, r.declarations = base.declarations ++ more ∧
    ∀ key, underscored key = key → (∀ e ∈ more, e.configName ≠ some key) →
      r.configOptions.lookup key = base.configOptions.lookup key
  ignored : ∀ code ∈ r.extendedIgnore, code ∈ names
  nodup : r.extendedIgnore.Nodup
  selected : ∀ code ∈ r.extendedSelect, code ∈ names ∧ code ≠ held

namespace Enrolled

theorem add (h : Enrolled base names held r) (hadd : r.add d = .ok r') :
    Enrolled base names held r' := by
  obtain ⟨more, hmore, hkept⟩ := h.grown
  have hbuilt := fun hown => (h.built hown).add hadd
  obtain ⟨_, _, _, -, rfl, -⟩ := add_ok hadd
  refine ⟨hbuilt, ⟨more ++ [d], ?_, fun key hkey hfree => ?_⟩, h.ignored, h.nodup, h.selected⟩
  · rw [← List.append_assoc, ← hmore]
  · obtain ⟨hfree, hlast⟩ := List.forall_mem_append.mp hfree
    exact (lookup_configOptions_add_of_ne hadd hkey (hlast d (List.mem_singleton_self d))).trans
      (hkept key hkey hfree)

theorem addCallback (h : Enrolled base names held r) (call : Callback) :
    Enrolled base names held (r.addCallback call) :=
  ⟨fun hown => absurd hown (List.append_ne_nil_of_right_ne_nil _ (List.cons_ne_nil _ _)), h.grown,
    h.ignored, h.nodup, h.selected⟩

theorem declare (h : Enrolled base names held r) {positional : List Value}
    {named : List (String × Value)} {callback : Option Callback}
    (hdeclare : r.declare positional named callback = .ok r') : Enrolled base names held r' := by
  obtain ⟨d, hadd | ⟨call, hadd⟩⟩ := declare_ok hdeclare
  · exact h.add hadd
  · exact (h.addCallback call).add hadd

theorem extendIgnore (h : Enrolled base names held r) (hname : name ∈ names) :
    Enrolled base names held (r.extendIgnore [name]) := by
  refine ⟨fun hown => (h.built hown).extendIgnore _, h.grown, fun code hcode => ?_, nodup_union h.nodup _, h.selected⟩
  rcases (mem_union _ _).mp hcode with hcode | hcode
  · exact h.ignored code hcode
  · rw [List.mem_singleton.mp hcode]
    exact hname

theorem enable (h : Enrolled base names held r) (hname : name ∈ names) (hne : name ≠ held) :
    Enrolled base names held ((r.removeIgnore [name]).extendSelect [name]) := by
  refine ⟨fun hown => ((h.built hown).removeIgnore _).extendSelect _, h.grown, fun code hcode => ?_,
    h.nodup.filter _, fun code hcode => ?_⟩
  · exact h.ignored code (List.mem_filter.mp hcode).1
  · rcases (mem_union _ _).mp hcode with hcode | hcode
    · exact h.selected code hcode
    · rw [List.mem_singleton.mp hcode]
      exact ⟨hname, hne⟩

end Enrolled

end Options.Registry

namespace Plugin

open Options (Registry)

variable {m m' u : Managed} {name : String} {e : Entity}

/-- The plugins that configuration names come first, each of them from a line, and the installed ones
follow. -/
theorem Collection.make_ok {lines : Value} {installed : List EntryPoint} {c : Collection}
    (hmade : Collection.make lines installed = .ok c) : ∃ found : List EntryPoint,
      (∀ e ∈ found, ∃ line, EntryPoint.ofLine line = .ok e) ∧
      c = installed.foldl (Collection.add · false) (found.foldl (Collection.add · true) {}) := by
  unfold Collection.make at hmade
  split at hmade
  all_goals
    obtain ⟨_, -, hmade⟩ := bind_ok hmade
    obtain ⟨found, hfound, hmade⟩ := bind_ok hmade
    cases hmade
    refine ⟨found, fun e he => ?_, rfl⟩
    obtain ⟨line, -, hline⟩ := exists_of_mem_mapM hfound he
    split at hline
    · exact ⟨_, hline⟩
    · cases hline

/-- The plugin has been loaded to this object, or can be. -/
def Managed.LeadsTo (m : Managed) (name : String) (e : Entity) : Prop :=
  ∃ p, m.collection.find? name = some p ∧
    (p.object = some e ∨ p.object = none ∧ m.catalogue.load p.entryPoint = .ok e)

theorem Managed.LeadsTo.unique {e e' : Entity} (h : m.LeadsTo name e) (h' : m.LeadsTo name e') :
    e = e' := by
  obtain ⟨p, hp, hobject⟩ := h
  obtain ⟨p', hp', hobject'⟩ := h'
  cases hp.symm.trans hp'
  grind

/-- The names of the plugins are the same, and what they lead to. -/
structure Managed.Stays (m m' : Managed) : Prop where
  names : m'.collection.names = m.collection.names
  leads : ∀ name e, m.LeadsTo name e → m'.LeadsTo name e

theorem Managed.Stays.refl (m : Managed) : m.Stays m := ⟨rfl, fun _ _ h => h⟩

theorem Managed.Stays.trans (h : m.Stays u) (h' : u.Stays m') : m.Stays m' :=
  ⟨h'.names.trans h.names, fun name e hlead => h'.leads name e (h.leads name e hlead)⟩

namespace Managing

theorem lift_ok {α : Type} {x : Except Fault α} {a : α} (h : (lift x).run m = (.ok a, m')) :
    x = .ok a ∧ m = m' := by
  cases x <;> cases h
  exact ⟨rfl, rfl⟩

theorem plugin_ok {p : Member} (h : (plugin name).run m = (.ok p, m')) :
    m.collection.find? name = some p ∧ m = m' := by
  obtain ⟨_, _, hget, h⟩ := run_bind_ok h
  cases hget
  split at h <;> cases h
  exact ⟨by assumption, rfl⟩

theorem entity_ok (h : (entity name).run m = (.ok e, m')) :
    m.LeadsTo name e ∧ m.Stays m' ∧ m'.registry = m.registry ∧ m'.settings = m.settings := by
  obtain ⟨p, _, hplugin, h⟩ := run_bind_ok h
  obtain ⟨hp, rfl⟩ := plugin_ok hplugin
  split at h
  · rename_i hobject
    cases h
    exact ⟨⟨p, hp, .inl hobject⟩, .refl m, rfl, rfl⟩
  · rename_i hobject
    obtain ⟨_, _, hget, h⟩ := run_bind_ok h
    cases hget
    split at h
    · cases h
    · rename_i loaded hload
      obtain ⟨_, _, hmodify, h⟩ := run_bind_ok h
      cases hmodify
      by_cases hcallable : loaded.callable = true
      · rw [if_pos hcallable] at h
        cases h
        have hlead : m.LeadsTo name e := ⟨p, hp, .inr ⟨hobject, hload⟩⟩
        refine ⟨hlead, ⟨rfl, fun other e' hother => ?_⟩, rfl, rfl⟩
        by_cases hsame : other = name
        · subst hsame
          refine ⟨_, (Entries.lookup_put ..).trans (if_pos rfl), .inl ?_⟩
          rw [← hlead.unique hother]
          cases e <;> first | rfl | cases hcallable
        · obtain ⟨q, hq, hq'⟩ := hother
          exact ⟨q, (Entries.lookup_put ..).trans ((if_neg hsame).trans hq), hq'⟩
      · rw [if_neg hcallable] at h
        cases h

theorem loadAll_ok (h : loadAll.run m = (.ok (), m')) :
    m.Stays m' ∧ m'.registry = m.registry := by
  obtain ⟨_, _, hget, h⟩ := run_bind_ok h
  cases hget
  split at h
  · cases h
    exact ⟨.refl m, rfl⟩
  · obtain ⟨_, _, hget, h⟩ := run_bind_ok h
    cases hget
    obtain ⟨_, u, hloop, h⟩ := run_bind_ok h
    cases h
    have hkept : m.Stays u ∧ u.registry = m.registry := by
      refine Gives.forIn (I := fun _ u => m.Stays u ∧ u.registry = m.registry) ?_ ⟨.refl m, rfl⟩ _ _
        hloop
      rintro name rest t ⟨hstays, hregistry⟩ _ u hrun
      obtain ⟨e, u', hentity, hrun⟩ := run_bind_ok hrun
      cases hrun
      obtain ⟨-, hstays', hregistry', -⟩ := entity_ok hentity
      exact ⟨rfl, hstays.trans hstays', hregistry'.trans hregistry⟩
    exact ⟨⟨hkept.1.names, hkept.1.leads⟩, hkept.2⟩

theorem offByDefault_ok {v : Value} (h : (offByDefault name).run m = (.ok v, m')) :
    (∃ e, m.LeadsTo name e ∧ v = (e.attribute? "off_by_default").getD (.bool false)) ∧
      m.Stays m' ∧ m'.registry = m.registry := by
  obtain ⟨e, u, hentity, h⟩ := run_bind_ok h
  cases h
  obtain ⟨hlead, hstays, hregistry, -⟩ := entity_ok hentity
  exact ⟨⟨e, hlead, rfl⟩, hstays, hregistry⟩

theorem changeRegistry_ok {f : Registry → Except Fault Registry}
    (h : (changeRegistry f).run m = (.ok (), m')) :
    ∃ r, f m.registry = .ok r ∧ m' = { m with registry := r } := by
  obtain ⟨_, _, hget, h⟩ := run_bind_ok h
  cases hget
  obtain ⟨r, _, hlift, h⟩ := run_bind_ok h
  obtain ⟨hr, rfl⟩ := lift_ok hlift
  cases h
  exact ⟨r, hr, rfl⟩

/-- What has come of the plugins `m₀` while they register. -/
structure Registering (m₀ : Managed) (held : String) (m : Managed) : Prop where
  stays : m₀.Stays m
  enrolled : m₀.registry.Enrolled m₀.collection.names held m.registry

variable {m₀ : Managed} {held : String}

theorem Registering.of_stays (h : Registering m₀ held m) (hstays : m.Stays m')
    (hregistry : m'.registry = m.registry) : Registering m₀ held m' :=
  ⟨h.stays.trans hstays, hregistry ▸ h.enrolled⟩

theorem Registering.changed {r : Registry} (h : Registering m₀ held m)
    (hr : m₀.registry.Enrolled m₀.collection.names held r) :
    Registering m₀ held { m with registry := r } :=
  ⟨⟨h.stays.names, h.stays.leads⟩, hr⟩

theorem Registering.registerOptions (h : Registering m₀ held m)
    (hname : name ∈ m₀.collection.names) (hrun : (registerOptions name).run m = (.ok (), m')) :
    Registering m₀ held m' := by
  obtain ⟨e, u, hentity, hrun⟩ := run_bind_ok hrun
  obtain ⟨-, hstays, hregistry, -⟩ := entity_ok hentity
  obtain ⟨_, t, hloop, hrun⟩ := run_bind_ok hrun
  have hdeclared : Registering m₀ held t := by
    refine Gives.forIn (I := fun _ t => Registering m₀ held t) ?_ (h.of_stays hstays hregistry) _ _
      hloop
    intro o rest t ht _ t' hstep
    obtain ⟨_, _, hchange, hstep⟩ := run_bind_ok hstep
    cases hstep
    obtain ⟨r, hr, rfl⟩ := changeRegistry_ok hchange
    exact ⟨rfl, ht.changed (ht.enrolled.declare hr)⟩
  obtain ⟨v, t', hoff, hrun⟩ := run_bind_ok hrun
  obtain ⟨-, hstays, hregistry⟩ := offByDefault_ok hoff
  have hkept := hdeclared.of_stays hstays hregistry
  split at hrun
  · obtain ⟨r, hr, rfl⟩ := changeRegistry_ok hrun
    cases hr
    exact hkept.changed (hkept.enrolled.extendIgnore hname)
  · cases hrun
    exact hkept

/-- A plugin that is off by default leaves nothing but its options and its name among the ignored
codes. -/
theorem registering_registerAllOptions {e : Entity} (hbuilt : m₀.registry.Built)
    (hignore : m₀.registry.extendedIgnore = []) (hselect : m₀.registry.extendedSelect = [])
    (hlead : m₀.LeadsTo held e)
    (hoff : ((e.attribute? "off_by_default").getD (.bool false)).truthy = true)
    (h : (registerAllOptions true).run m₀ = (.ok (), m)) : Registering m₀ held m := by
  have hstart : m₀.registry.Enrolled m₀.collection.names held m₀.registry := by
    refine ⟨fun _ => hbuilt, ⟨[], (List.append_nil _).symm, fun _ _ _ => rfl⟩, ?_, ?_, ?_⟩
    · rw [hignore]
      exact List.forall_mem_nil _
    · rw [hignore]
      exact List.nodup_nil
    · rw [hselect]
      exact List.forall_mem_nil _
  obtain ⟨_, u, hload, h⟩ := run_bind_ok h
  obtain ⟨hstays, hregistry⟩ := loadAll_ok hload
  have hu : Registering m₀ held u := ⟨hstays, hregistry ▸ hstart⟩
  obtain ⟨_, _, hget, h⟩ := run_bind_ok h
  cases hget
  rw [hu.stays.names] at h
  obtain ⟨_, _, hloop, h⟩ := run_bind_ok h
  cases h
  refine (Gives.forIn (I := fun rest t => (∀ name ∈ rest, name ∈ m₀.collection.names) ∧
    Registering m₀ held t) ?_ ⟨fun _ hname => hname, hu⟩ _ _ hloop).2
  rintro name rest t ⟨hnames, ht⟩ _ t' hstep
  obtain ⟨hname, hrest⟩ := List.forall_mem_cons.mp hnames
  obtain ⟨_, t₁, hregister, hstep⟩ := run_bind_ok hstep
  have ht₁ := ht.registerOptions hname hregister
  obtain ⟨p, _, hplugin, hstep⟩ := run_bind_ok hstep
  obtain ⟨-, rfl⟩ := plugin_ok hplugin
  obtain ⟨v, t₂, hflag, hstep⟩ := run_bind_ok hstep
  obtain ⟨⟨e', hlead', rfl⟩, hstays', hregistry'⟩ := offByDefault_ok hflag
  have ht₂ := ht₁.of_stays hstays' hregistry'
  split at hstep
  · rename_i hon
    -- whether it is off by default is asked again after loading, with the same answer
    have hne : name ≠ held := by
      rintro rfl
      rw [(ht₁.stays.leads name e hlead).unique hlead'] at hoff
      rw [hoff, Bool.not_true, Bool.and_false] at hon
      cases hon
    obtain ⟨_, _, henable, hstep⟩ := run_bind_ok hstep
    cases hstep
    obtain ⟨_, _, hchange, henable⟩ := run_bind_ok henable
    obtain ⟨r, hr, rfl⟩ := changeRegistry_ok hchange
    cases hr
    cases henable
    exact ⟨rfl, hrest, ht₂.changed (ht₂.enrolled.enable hname hne)⟩
  · cases hstep
    exact ⟨rfl, hrest, ht₂⟩

end Managing

end Plugin

end LintRunner
