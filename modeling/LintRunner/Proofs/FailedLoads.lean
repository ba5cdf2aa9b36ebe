import LintRunner.Proofs.RegisteredPlugins
import Mathlib.Data.List.Pairwise
import Mathlib.Data.List.Nodup
import Mathlib.Logic.Function.Iterate

/-!
# Plugins that fail to load

Loading a plugin stores what its entry point leads to before asking whether that can be called. So
where it cannot, the first attempt fails and every later one finds it stored. Only an entry point
that cannot be followed, or that leads to nothing, fails each time. Loading all plugins thus fails
once for each plugin of the first kind, and each time if there is one of the second.
-/

namespace LintRunner.Plugin

open Stateful

/-- How a plugin stands before an attempt to load it. If it is stale the attempt fails, but what it
leads to stays; if it is broken the attempt fails and nothing stays. -/
inductive LoadState where
  | usable
  | stale
  | broken
deriving DecidableEq

namespace LoadState

def next : LoadState → LoadState
  | usable => usable
  | stale => usable
  | broken => broken

def ofLoad : Except Fault Entity → LoadState
  | .error _ => broken
  | .ok (.data .none) => broken
  | .ok e => if e.callable then usable else stale

theorem eq_stale {s : LoadState} (husable : s ≠ usable) (hbroken : s ≠ broken) : s = stale := by
  cases s <;> simp_all

end LoadState

def Entity.kept : Entity → Option Entity
  | .data .none => none
  | e => some e

theorem Entity.kept_cases (e : Entity) :
    e.kept = some e ∧ LoadState.ofLoad (.ok e) = (if e.callable then .usable else .stale) ∨
      e.kept = none ∧ LoadState.ofLoad (.ok e) = .broken ∧ e.callable = false := by
  cases e with
  | data v => cases v <;> simp [kept, LoadState.ofLoad, callable]
  | _ => simp [kept, LoadState.ofLoad]

def failed {α : Type} : Except Fault α → Bool
  | .error (.loadFailed _ _) => true
  | _ => false

def Collection.Complete (c : Collection) : Prop :=
  ∀ name ∈ c.names, (c.find? name).isSome = true

variable {m m' : Managed} {name other : String} {p : Member} {e : Entity} {f : Fault}

namespace Managed

/-- What comes of a plugin when it is loaded next. -/
def loadState (m : Managed) (name : String) : LoadState :=
  match m.collection.find? name with
  | none => .broken
  | some p => if p.object.isSome then .usable else .ofLoad (m.catalogue.load p.entryPoint)

/-- The names, each once, of the plugins that fail to load a single time. -/
def staleNames (m : Managed) : List String :=
  (Text.dedup m.collection.names).filter fun name => m.loadState name = .stale

def keep (m : Managed) (name : String) (p : Member) : Managed :=
  { m with collection := { m.collection with
      plugins := Entries.put name p m.collection.plugins } }

theorem find?_keep : (m.keep name p).collection.find? other =
    if other = name then some p else m.collection.find? other :=
  Entries.lookup_put ..

theorem loadState_of_find? (hp : m.collection.find? name = some p) : m.loadState name =
    if p.object.isSome then .usable else .ofLoad (m.catalogue.load p.entryPoint) := by
  simp [loadState, hp]

theorem leadsTo_of_loadState (m : Managed) (name : String) (h : m.loadState name ≠ .broken) :
    ∃ e, m.LeadsTo name e := by
  cases hp : m.collection.find? name with
  | none => simp [loadState, hp] at h
  | some p =>
    rw [loadState_of_find? hp] at h
    cases hobject : p.object with
    | some e => exact ⟨e, p, hp, .inl hobject⟩
    | none =>
      cases hload : m.catalogue.load p.entryPoint with
      | error f => simp [hobject, hload, LoadState.ofLoad] at h
      | ok e => exact ⟨e, p, hp, .inr ⟨hobject, hload⟩⟩

theorem LeadsTo.isSome (h : m.LeadsTo name e) : (m.collection.find? name).isSome = true := by
  obtain ⟨p, hp, -⟩ := h
  simp [hp]

theorem loadState_keep_of_ne (h : other ≠ name) :
    (m.keep name p).loadState other = m.loadState other := by
  simp only [loadState, find?_keep, if_neg h]
  rfl

/-- A plugin stands as it does after an attempt, and all else as before. -/
structure Moved (m : Managed) (name : String) (m' : Managed) : Prop where
  stays : m.Stays m'
  loaded : m'.collection.loaded = m.collection.loaded
  known : ∀ other, (m'.collection.find? other).isSome = (m.collection.find? other).isSome
  state : m'.loadState name = (m.loadState name).next
  others : ∀ other, other ≠ name → m'.loadState other = m.loadState other

namespace Moved

theorem of_next (h : (m.loadState name).next = m.loadState name) : m.Moved name m :=
  ⟨.refl m, rfl, fun _ => rfl, h.symm, fun _ _ => rfl⟩

theorem loadState_eq (h : m.Moved name m') (husable : m.loadState name = .usable) (other : String) :
    m'.loadState other = m.loadState other := by
  by_cases hsame : other = name
  · simp [hsame, h.state, husable, LoadState.next]
  · exact h.others other hsame

theorem after_usable {u : Managed} (h : m.Moved name u) (husable : m.loadState name = .usable)
    (h' : u.Moved other m') : m.Moved other m' where
  stays := h.stays.trans h'.stays
  loaded := h'.loaded.trans h.loaded
  known key := (h'.known key).trans (h.known key)
  state := by rw [h'.state, h.loadState_eq husable]
  others key hne := by rw [h'.others key hne, h.loadState_eq husable]

theorem complete (h : m.Moved name m') (hcomplete : m.collection.Complete) :
    m'.collection.Complete := by
  intro key hkey
  rw [h.stays.names] at hkey
  rw [h.known]
  exact hcomplete key hkey

theorem broken_iff (h : m.Moved name m') :
    m'.loadState other = .broken ↔ m.loadState other = .broken := by
  by_cases hsame : other = name
  · subst hsame
    rw [h.state]
    cases m.loadState other <;> simp [LoadState.next]
  · rw [h.others other hsame]

theorem length_staleNames (h : m.Moved name m') (hname : name ∈ m.collection.names)
    (hstale : m.loadState name = .stale) : m'.staleNames.length + 1 = m.staleNames.length := by
  have hnodup : m.staleNames.Nodup := (Text.nodup_dedup _).filter _
  have hmem : name ∈ m.staleNames := by simp [staleNames, Text.mem_dedup, hname, hstale]
  have hless : m'.staleNames = m.staleNames.erase name := by
    rw [hnodup.erase_eq_filter, staleNames, staleNames, List.filter_filter, h.stays.names]
    apply List.filter_congr
    intro key _
    by_cases hsame : key = name
    · simp [hsame, h.state, hstale, LoadState.next]
    · simp [hsame, h.others key hsame]
  rw [hless, List.length_erase_of_mem hmem]
  exact Nat.sub_add_cancel (List.length_pos_of_mem hmem)

end Moved

theorem staleNames_eq_nil (h : ∀ name ∈ m.collection.names, m.loadState name = .usable) :
    m.staleNames = [] := by
  apply List.filter_eq_nil_iff.mpr
  intro name hname
  simp [h name ((Text.mem_dedup _).mp hname)]

end Managed

/-! ## One attempt -/

namespace Managing

theorem run_plugin (hp : m.collection.find? name = some p) :
    (plugin name).run m = (.ok p, m) := by
  rw [plugin, run_bind_of_ok (run_get m), hp]
  rfl

theorem run_entity_of_object (hp : m.collection.find? name = some p) (hobject : p.object = some e) :
    (entity name).run m = (.ok e, m) := by
  rw [entity, run_bind_of_ok (run_plugin hp), hobject]
  rfl

theorem run_entity_of_error (hp : m.collection.find? name = some p) (hobject : p.object = none)
    (hload : m.catalogue.load p.entryPoint = .error f) :
    (entity name).run m = (.error (.loadFailed p.name f), m) := by
  rw [entity, run_bind_of_ok (run_plugin hp), hobject]
  simp only [run_bind_of_ok (run_get m), hload]
  rfl

theorem run_entity_of_load (hp : m.collection.find? name = some p) (hobject : p.object = none)
    (hload : m.catalogue.load p.entryPoint = .ok e) : (entity name).run m =
      (if e.callable then .ok e else .error (.loadFailed p.name (notCallable e)),
        m.keep name { p with object := e.kept }) := by
  rw [entity, run_bind_of_ok (run_plugin hp), hobject]
  simp only [run_bind_of_ok (run_get m), hload, run_bind_of_ok (run_modify _ m)]
  by_cases hcallable : e.callable = true
  · simp only [if_pos hcallable]
    rfl
  · simp only [if_neg hcallable]
    rfl

structure Attempted (m : Managed) (name : String) (answer : Except Fault Entity) (m' : Managed) :
    Prop where
  moved : m.Moved name m'
  usable : m.loadState name = .usable → ∃ e, m.LeadsTo name e ∧ answer = .ok e
  unusable : m.loadState name ≠ .usable → ∃ plugin f, answer = .error (.loadFailed plugin f)

theorem attempted_load (hp : m.collection.find? name = some p) (hobject : p.object = none)
    (hload : m.catalogue.load p.entryPoint = .ok e) :
    Attempted m name (if e.callable then .ok e else .error (.loadFailed p.name (notCallable e)))
      (m.keep name { p with object := e.kept }) := by
  have hstate : m.loadState name = .ofLoad (.ok e) := by
    simp [Managed.loadState_of_find? hp, hobject, hload]
  have hstate' : (m.keep name { p with object := e.kept }).loadState name =
      if e.kept.isSome then .usable else .ofLoad (.ok e) := by
    rw [Managed.loadState_of_find? (Managed.find?_keep.trans (if_pos rfl)), ← hload]
    rfl
  have hlead : m.LeadsTo name e := ⟨p, hp, .inr ⟨hobject, hload⟩⟩
  refine ⟨⟨⟨rfl, fun other e' hother => ?_⟩, rfl, fun other => ?_, ?_,
    fun other hne => Managed.loadState_keep_of_ne hne⟩, fun husable => ⟨e, hlead, ?_⟩,
    fun hunusable => ⟨p.name, notCallable e, ?_⟩⟩
  · by_cases hsame : other = name
    · subst hsame
      obtain rfl := hlead.unique hother
      refine ⟨_, Managed.find?_keep.trans (if_pos rfl), ?_⟩
      rcases e.kept_cases with ⟨hkept, -⟩ | ⟨hkept, -⟩
      · exact .inl hkept
      · exact .inr ⟨hkept, hload⟩
    · obtain ⟨q, hq, hq'⟩ := hother
      exact ⟨q, Managed.find?_keep.trans ((if_neg hsame).trans hq), hq'⟩
  · rw [Managed.find?_keep]
    split
    · simp [*]
    · rfl
  · rw [hstate', hstate]
    rcases e.kept_cases with ⟨hkept, hof⟩ | ⟨hkept, hof, -⟩
    · cases hcallable : e.callable <;> simp [hkept, hof, hcallable, LoadState.next]
    · simp [hkept, hof, LoadState.next]
  · rcases e.kept_cases with ⟨-, hof⟩ | ⟨-, hof, -⟩ <;> simp_all
  · rcases e.kept_cases with ⟨-, hof⟩ | ⟨-, -, hcallable⟩
    · cases hcallable : e.callable <;> simp_all
    · simp [hcallable]

theorem attempted_entity (hknown : (m.collection.find? name).isSome = true) :
    Attempted m name ((entity name).run m).1 ((entity name).run m).2 := by
  obtain ⟨p, hp⟩ := Option.isSome_iff_exists.mp hknown
  have hstate := Managed.loadState_of_find? hp
  cases hobject : p.object with
  | some e =>
    have husable : m.loadState name = .usable := by simp [hstate, hobject]
    rw [run_entity_of_object hp hobject]
    exact ⟨.of_next (by simp [husable, LoadState.next]),
      fun _ => ⟨e, ⟨p, hp, .inl hobject⟩, rfl⟩, fun h => absurd husable h⟩
  | none =>
    cases hload : m.catalogue.load p.entryPoint with
    | error f =>
      have hbroken : m.loadState name = .broken := by
        simp [hstate, hobject, hload, LoadState.ofLoad]
      rw [run_entity_of_error hp hobject hload]
      exact ⟨.of_next (by simp [hbroken, LoadState.next]), fun h => by simp [hbroken] at h,
        fun _ => ⟨_, _, rfl⟩⟩
    | ok e =>
      rw [run_entity_of_load hp hobject hload]
      exact attempted_load hp hobject hload

/-- What is asked of a plugin: that it is loaded, or what it leads to. -/
inductive Request where
  | load
  | access

def Request.reply : Request → Entity → Option Entity
  | load, _ => none
  | access, e => some e

def Request.perform (name : String) (r : Request) : Managing (Option Entity) :=
  return r.reply (← entity name)

/-- The answers to several requests, one after the other. -/
def answers (name : String) : List Request → Managed → List (Except Fault (Option Entity))
  | [], _ => []
  | r :: rest, m => ((r.perform name).run m).1 :: answers name rest ((r.perform name).run m).2

variable {r : Request} {rest requests : List Request} {names : List String} {c : Collection}
  {lines : Value} {installed : List EntryPoint}

theorem answers_cons : answers name (r :: rest) m =
    ((entity name).run m).1.map r.reply :: answers name rest ((entity name).run m).2 := by
  have hperform : (r.perform name).run m =
      (((entity name).run m).1.map r.reply, ((entity name).run m).2) := by
    rw [Request.perform, run_bind]
    rcases (entity name).run m with ⟨_ | _, _⟩ <;> rfl
  rw [answers, hperform]

theorem answers_of_usable (hlead : m.LeadsTo name e) (husable : m.loadState name = .usable) :
    answers name requests m = requests.map fun r => .ok (r.reply e) := by
  induction requests generalizing m with
  | nil => rfl
  | cons r rest ih =>
    have hattempt := attempted_entity hlead.isSome
    obtain ⟨e', hlead', hanswer⟩ := hattempt.usable husable
    obtain rfl := hlead.unique hlead'
    have hstill : ((entity name).run m).2.loadState name = .usable :=
      (hattempt.moved.loadState_eq husable name).trans husable
    rw [answers_cons, hanswer, ih (hattempt.moved.stays.leads name e hlead) hstill]
    rfl

theorem answers_of_stale (r : Request) (rest : List Request) (hlead : m.LeadsTo name e)
    (hstale : m.loadState name = .stale) : ∃ plugin f, answers name (r :: rest) m =
      .error (.loadFailed plugin f) :: rest.map fun r => .ok (r.reply e) := by
  have hattempt := attempted_entity hlead.isSome
  obtain ⟨plugin, f, hanswer⟩ := hattempt.unusable (by simp [hstale])
  have husable : ((entity name).run m).2.loadState name = .usable := by
    rw [hattempt.moved.state, hstale, LoadState.next]
  refine ⟨plugin, f, ?_⟩
  rw [answers_cons, hanswer,
    answers_of_usable (hattempt.moved.stays.leads name e hlead) husable]
  rfl

theorem failed_of_broken (hknown : (m.collection.find? name).isSome = true)
    (hbroken : m.loadState name = .broken) : ∀ a ∈ answers name requests m, failed a = true := by
  induction requests generalizing m with
  | nil => simp [answers]
  | cons r rest ih =>
    have hattempt := attempted_entity hknown
    obtain ⟨plugin, f, hanswer⟩ := hattempt.unusable (by simp [hbroken])
    rw [answers_cons, hanswer, List.forall_mem_cons]
    refine ⟨rfl, ih ?_ ?_⟩
    · rw [hattempt.moved.known, hknown]
    · rw [hattempt.moved.state, hbroken, LoadState.next]

theorem failures_stay_iff (hknown : (m.collection.find? name).isSome = true) :
    (∀ requests, (answers name requests m).Pairwise fun earlier later =>
      failed earlier = true → failed later = true) ↔ m.loadState name ≠ .stale := by
  constructor
  · intro hstay hstale
    obtain ⟨e, hlead⟩ := m.leadsTo_of_loadState name (by simp [hstale])
    obtain ⟨plugin, f, hanswers⟩ := answers_of_stale .load [.access] hlead hstale
    have hpair := hstay [.load, .access]
    rw [hanswers] at hpair
    simp [failed] at hpair
  · intro hne requests
    cases hstate : m.loadState name with
    | usable =>
      obtain ⟨e, hlead⟩ := m.leadsTo_of_loadState name (by simp [hstate])
      rw [answers_of_usable hlead hstate, List.pairwise_map]
      exact List.pairwise_of_forall fun _ _ h => by simp [failed] at h
    | stale => exact absurd hstate hne
    | broken =>
      apply List.pairwise_of_forall_mem_list
      exact fun _ _ later hlater _ => failed_of_broken hknown hstate later hlater

def loadEach (names : List String) : Managing PUnit :=
  ForIn.forIn names PUnit.unit fun name _ => do
    let _ ← entity name
    return .yield ⟨⟩

theorem run_loadEach_cons : (loadEach (name :: names)).run m =
    match (entity name).run m with
    | (.ok _, t) => (loadEach names).run t
    | (.error f, t) => (.error f, t) := by
  rw [loadEach, List.forIn_cons, run_bind, run_bind]
  rcases (entity name).run m with ⟨_ | _, _⟩ <;> rfl

theorem loadEach_cases
    (hknown : ∀ name ∈ names, (m.collection.find? name).isSome = true) :
    (∀ name ∈ names, m.loadState name = .usable) ∧ (∃ t, (loadEach names).run m = (.ok ⟨⟩, t)) ∨
      ∃ name ∈ names, m.loadState name ≠ .usable ∧
        ∃ plugin f t, (loadEach names).run m = (.error (.loadFailed plugin f), t) ∧
          m.Moved name t := by
  induction names generalizing m with
  | nil => exact .inl ⟨by simp, m, rfl⟩
  | cons name rest ih =>
    obtain ⟨hname, hrest⟩ := List.forall_mem_cons.mp hknown
    have hattempt := attempted_entity hname
    rw [run_loadEach_cons]
    generalize (entity name).run m = attempt at hattempt ⊢
    obtain ⟨answer, u⟩ := attempt
    by_cases husable : m.loadState name = .usable
    · obtain ⟨e, -, rfl⟩ := hattempt.usable husable
      have hsame := hattempt.moved.loadState_eq husable
      refine (ih fun key hkey => (hattempt.moved.known key).trans (hrest key hkey)).imp ?_ ?_
      · rintro ⟨hall, hok⟩
        refine ⟨List.forall_mem_cons.mpr ⟨husable, fun key hkey => ?_⟩, hok⟩
        rw [← hsame, hall key hkey]
      · rintro ⟨bad, hbad, hunusable, plugin, f, t, hrun, hmoved⟩
        exact ⟨bad, List.mem_cons_of_mem _ hbad, by rwa [← hsame], plugin, f, t, hrun,
          hattempt.moved.after_usable husable hmoved⟩
    · obtain ⟨plugin, f, rfl⟩ := hattempt.unusable husable
      exact .inr ⟨name, List.mem_cons_self, husable, plugin, f, u, rfl, hattempt.moved⟩

theorem run_loadAll_of_loaded (hloaded : m.collection.loaded = true) :
    loadAll.run m = (.ok (), m) := by
  rw [loadAll, run_bind_of_ok (run_get m)]
  simp only [if_pos hloaded]
  rfl

theorem loadAll_cases (hcomplete : m.collection.Complete) (hloaded : m.collection.loaded = false) :
    (∀ name ∈ m.collection.names, m.loadState name = .usable) ∧ failed (loadAll.run m).1 = false ∧
        (loadAll.run m).2.collection.loaded = true ∨
      ∃ name ∈ m.collection.names, m.loadState name ≠ .usable ∧ failed (loadAll.run m).1 = true ∧
        m.Moved name (loadAll.run m).2 := by
  have hrun : loadAll.run m = (loadEach m.collection.names >>= fun _ => modify fun m =>
      { m with collection := { m.collection with loaded := true } }).run m := by
    rw [loadAll, run_bind_of_ok (run_get m)]
    simp only [hloaded, Bool.false_eq_true, if_false]
    rfl
  rw [hrun, run_bind]
  refine (loadEach_cases hcomplete).imp ?_ ?_
  · rintro ⟨hall, t, ht⟩
    rw [ht]
    exact ⟨hall, rfl, rfl⟩
  · rintro ⟨name, hname, hunusable, plugin, f, t, ht, hmoved⟩
    rw [ht]
    exact ⟨name, hname, hunusable, rfl, hmoved⟩

/-! ## Loading all plugins again and again -/

/-- All plugins have been loaded so many times. -/
def reloaded (k : Nat) (m : Managed) : Managed := (fun m => (loadAll.run m).2)^[k] m

theorem reloaded_of_loaded (hloaded : m.collection.loaded = true) (k : Nat) :
    reloaded k m = m := by
  apply Function.iterate_fixed
  rw [run_loadAll_of_loaded hloaded]

theorem reloaded_succ (k : Nat) (m : Managed) :
    reloaded (k + 1) m = reloaded k (loadAll.run m).2 :=
  Function.iterate_succ_apply _ _ _

theorem failed_reloaded_of_loaded (hloaded : m.collection.loaded = true) (k : Nat) :
    failed (loadAll.run (reloaded k m)).1 = false := by
  rw [reloaded_of_loaded hloaded, run_loadAll_of_loaded hloaded]
  rfl

theorem loaded_reloaded (hcomplete : m.collection.Complete) (hloaded : m.collection.loaded = false)
    (k : Nat) :
    (reloaded (k + 1) m).collection.loaded = !failed (loadAll.run (reloaded k m)).1 := by
  induction k generalizing m with
  | zero =>
    rcases loadAll_cases hcomplete hloaded with ⟨-, hok, hdone⟩ | ⟨_, -, -, hfailed, hmoved⟩
    · simpa [reloaded, hok] using hdone
    · simp [reloaded, hfailed, hmoved.loaded, hloaded]
  | succ k ih =>
    rw [reloaded_succ (k + 1) m, reloaded_succ k m]
    rcases loadAll_cases hcomplete hloaded with ⟨-, -, hdone⟩ | ⟨_, -, -, -, hmoved⟩
    · rw [failed_reloaded_of_loaded hdone, reloaded_of_loaded hdone, hdone]
      rfl
    · exact ih (hmoved.complete hcomplete) (hmoved.loaded.trans hloaded)

theorem failed_reloaded_of_broken (hcomplete : m.collection.Complete)
    (hloaded : m.collection.loaded = false)
    (hbroken : ∃ name ∈ m.collection.names, m.loadState name = .broken) (k : Nat) :
    failed (loadAll.run (reloaded k m)).1 = true := by
  obtain ⟨name, hname, hstate⟩ := hbroken
  induction k generalizing m with
  | zero =>
    rcases loadAll_cases hcomplete hloaded with ⟨hall, -, -⟩ | ⟨_, -, -, hfailed, -⟩
    · simp [hall name hname] at hstate
    · exact hfailed
  | succ k ih =>
    rw [reloaded_succ]
    rcases loadAll_cases hcomplete hloaded with ⟨hall, -, -⟩ | ⟨_, -, -, -, hmoved⟩
    · simp [hall name hname] at hstate
    · apply ih (hmoved.complete hcomplete) (hmoved.loaded.trans hloaded)
      · rwa [hmoved.stays.names]
      · rwa [hmoved.broken_iff]

theorem failed_reloaded_iff (hcomplete : m.collection.Complete)
    (hloaded : m.collection.loaded = false)
    (hwhole : ∀ name ∈ m.collection.names, m.loadState name ≠ .broken) (k : Nat) :
    failed (loadAll.run (reloaded k m)).1 = true ↔ k < m.staleNames.length := by
  induction k generalizing m with
  | zero =>
    rcases loadAll_cases hcomplete hloaded with ⟨hall, hok, -⟩ | ⟨name, hname, hne, hfailed, hmoved⟩
    · simp [reloaded, hok, Managed.staleNames_eq_nil hall]
    · have hstale := LoadState.eq_stale hne (hwhole name hname)
      simp [reloaded, hfailed, ← hmoved.length_staleNames hname hstale]
  | succ k ih =>
    rw [reloaded_succ]
    rcases loadAll_cases hcomplete hloaded with ⟨hall, -, hdone⟩ | ⟨name, hname, hne, -, hmoved⟩
    · simp [failed_reloaded_of_loaded hdone, Managed.staleNames_eq_nil hall]
    · have hstale := LoadState.eq_stale hne (hwhole name hname)
      have hwhole' : ∀ key ∈ (loadAll.run m).2.collection.names,
          (loadAll.run m).2.loadState key ≠ .broken := by
        intro key hkey
        rw [hmoved.stays.names] at hkey
        rw [Ne, hmoved.broken_iff]
        exact hwhole key hkey
      rw [ih (hmoved.complete hcomplete) (hmoved.loaded.trans hloaded) hwhole',
        ← hmoved.length_staleNames hname hstale]
      omega

theorem complete_add (h : c.Complete) (isLocal : Bool) (e : EntryPoint) :
    (c.add isLocal e).Complete := by
  intro name hname
  have hfind : (c.add isLocal e).find? name = _ := Entries.lookup_put ..
  rw [hfind]
  split
  · rfl
  · rename_i hne
    rcases List.mem_append.mp hname with hname | hname
    · exact h name hname
    · exact absurd (List.mem_singleton.mp hname) hne

theorem complete_of_make
    (hmade : Collection.make lines installed = .ok c) : c.Complete ∧ c.loaded = false := by
  have hadd : ∀ (isLocal : Bool) (found : List EntryPoint) (c : Collection),
      c.Complete ∧ c.loaded = false →
        (found.foldl (Collection.add · isLocal) c).Complete ∧
          (found.foldl (Collection.add · isLocal) c).loaded = false := by
    intro isLocal found
    induction found with
    | nil => exact fun _ hc => hc
    | cons e rest ih => exact fun c hc => ih _ ⟨complete_add hc.1 isLocal e, hc.2⟩
  obtain ⟨found, -, rfl⟩ := Collection.make_ok hmade
  apply hadd
  apply hadd
  exact ⟨by simp [Collection.Complete], rfl⟩

theorem failed_reloaded (hcomplete : m.collection.Complete) (hloaded : m.collection.loaded = false)
    (k : Nat) : failed (loadAll.run (reloaded k m)).1 = true ↔
      (∃ name ∈ m.collection.names, m.loadState name = .broken) ∨ k < m.staleNames.length := by
  by_cases hbroken : ∃ name ∈ m.collection.names, m.loadState name = .broken
  · simp [hbroken, failed_reloaded_of_broken hcomplete hloaded hbroken k]
  · rw [failed_reloaded_iff hcomplete hloaded (by simpa using hbroken)]
    simp [hbroken]

theorem reloads_stay_failed_iff (hcomplete : m.collection.Complete)
    (hloaded : m.collection.loaded = false) :
    (∀ k, failed (loadAll.run (reloaded k m)).1 = true →
      failed (loadAll.run (reloaded (k + 1) m)).1 = true ∧
        (reloaded (k + 2) m).collection.loaded = false) ↔
    (∃ name ∈ m.collection.names, m.loadState name = .broken) ∨ m.staleNames = [] := by
  simp only [loaded_reloaded hcomplete hloaded, Bool.not_eq_false', and_self,
    failed_reloaded hcomplete hloaded]
  constructor
  · intro hagain
    by_contra hnot
    obtain ⟨hwhole, hsome⟩ := not_or.mp hnot
    have hpos := List.length_pos_of_ne_nil hsome
    rcases hagain (m.staleNames.length - 1) (.inr (by omega)) with hbroken | hless
    · exact hwhole hbroken
    · omega
  · rintro (hbroken | hnone) k hk
    · exact .inl hbroken
    · simpa [hnone] using hk

/-- A plugin that failed to load fails again unless it is stale; the attempts after the first one
then give what cannot be called. Loading all plugins fails again and again if one is broken.
Otherwise it fails once for each stale plugin, and then the plugins count as loaded. -/
theorem failed_loads_stay_iff {lines : Value} {installed : List EntryPoint}
    (hmade : Collection.make lines installed = .ok m.collection) :
    (∀ name ∈ m.collection.names,
      ((∀ requests, (answers name requests m).Pairwise fun earlier later =>
        failed earlier = true → failed later = true) ↔ m.loadState name ≠ .stale) ∧
      (m.loadState name = .stale → ∃ e, m.LeadsTo name e ∧ ∀ r rest, ∃ plugin f,
        answers name (r :: rest) m =
          .error (.loadFailed plugin f) :: rest.map fun r => .ok (r.reply e))) ∧
    (∀ k, (failed (loadAll.run (reloaded k m)).1 = true ↔
        (∃ name ∈ m.collection.names, m.loadState name = .broken) ∨ k < m.staleNames.length) ∧
      (reloaded (k + 1) m).collection.loaded = !failed (loadAll.run (reloaded k m)).1) ∧
    ((∀ k, failed (loadAll.run (reloaded k m)).1 = true →
        failed (loadAll.run (reloaded (k + 1) m)).1 = true ∧
          (reloaded (k + 2) m).collection.loaded = false) ↔
      (∃ name ∈ m.collection.names, m.loadState name = .broken) ∨ m.staleNames = []) := by
  obtain ⟨hcomplete, hloaded⟩ := complete_of_make hmade
  refine ⟨fun name hname => ⟨failures_stay_iff (hcomplete name hname), fun hstale => ?_⟩,
    fun k => ⟨failed_reloaded hcomplete hloaded k, loaded_reloaded hcomplete hloaded k⟩,
    reloads_stay_failed_iff hcomplete hloaded⟩
  obtain ⟨e, hlead⟩ := m.leadsTo_of_loadState name (by simp [hstale])
  exact ⟨e, hlead, fun r rest => answers_of_stale r rest hlead hstale⟩

/-- Plugins of a module that holds a number, nothing, and a way to format reports. -/
def toolsOf (installed : List EntryPoint) : Managed where
  catalogue.modules := [⟨"tools", .none, false,
    [("five", .data (.int 5)), ("nothing", .data .none), ("plain", .format .simple)]⟩]
  collection := installed.foldl (Collection.add · false) {}
  world := { tree := { cwd := "/", root := .directory [] } }

example : (toolsOf [⟨"N", "tools", some "nothing"⟩]).loadState "N" = .broken := by decide +kernel

def threeTools : List EntryPoint :=
  [⟨"A", "tools", some "five"⟩, ⟨"B", "tools", some "plain"⟩, ⟨"C", "tools", none⟩]

/-- Of three plugins one leads to a number and one to a whole module. Two calls fail, and the third
one succeeds. -/
theorem failed_loads_stay_twice :
    Collection.make .none threeTools = .ok (toolsOf threeTools).collection ∧
      (toolsOf threeTools).staleNames = ["A", "C"] ∧
      (∀ k, failed (loadAll.run (reloaded k (toolsOf threeTools))).1 = true ↔ k < 2) ∧
      (reloaded 3 (toolsOf threeTools)).collection.loaded = true := by
  have hmade : Collection.make .none threeTools = .ok (toolsOf threeTools).collection := rfl
  have hstale : (toolsOf threeTools).staleNames = ["A", "C"] := by decide +kernel
  have hwhole : ¬∃ name ∈ (toolsOf threeTools).collection.names,
      (toolsOf threeTools).loadState name = .broken := by decide +kernel
  obtain ⟨-, hcalls, -⟩ := failed_loads_stay_iff hmade
  have hfailed : ∀ k, failed (loadAll.run (reloaded k (toolsOf threeTools))).1 = true ↔ k < 2 := by
    intro k
    simpa [hstale, hwhole] using (hcalls k).1
  refine ⟨hmade, hstale, hfailed, ?_⟩
  rw [(hcalls 2).2, Bool.not_eq_true', ← Bool.not_eq_true, hfailed]
  exact Nat.lt_irrefl 2

/-- A plugin that leads to a number fails to load once. The next call marks it as loaded, and the
number is given out. -/
theorem failed_load_is_forgotten :
    (loadAll.run (toolsOf [⟨"A", "tools", some "five"⟩])).1 =
        .error (.loadFailed "A" (notCallable (.data (.int 5)))) ∧
      (loadAll.run (reloaded 1 (toolsOf [⟨"A", "tools", some "five"⟩]))).1 = .ok () ∧
      (reloaded 2 (toolsOf [⟨"A", "tools", some "five"⟩])).collection.loaded = true ∧
      answers "A" [.load, .load, .access] (toolsOf [⟨"A", "tools", some "five"⟩]) =
        [.error (.loadFailed "A" (notCallable (.data (.int 5)))), .ok none,
          .ok (some (.data (.int 5)))] :=
  ⟨rfl, rfl, rfl, rfl⟩

end Managing

end LintRunner.Plugin
