import LintRunner.Proofs.ReadSettings

/-!
# Options that join others

Plugins register options beside those that are there. Where they store into other settings, they do
not show in the settings of the options before them: these start with the same defaults, are changed
by the same options that are met, and are brought into the same normal forms.
-/

namespace LintRunner.Options

open Stateful

def Agree (names : List String) (s t : List (String × Value)) : Prop :=
  ∀ name ∈ names, s.lookup name = t.lookup name

section Agreement

variable {names : List String} {s t : List (String × Value)} {name : String} {v : Value}

theorem Agree.put (h : Agree names s t) (name : String) (v : Value) :
    Agree names (Entries.put name v s) (Entries.put name v t) := by
  intro key hkey
  rw [Entries.lookup_put, Entries.lookup_put, h key hkey]

theorem Agree.put_right (h : Agree names s t) (hname : name ∉ names) :
    Agree names s (Entries.put name v t) := by
  intro key hkey
  rw [Entries.lookup_put, if_neg (ne_of_mem_of_not_mem hkey hname)]
  exact h key hkey

end Agreement

section Meeting

variable {names : List String} {s t t' : Settings} {m : Meeting} {v : Value}

theorem Agree.value {dest : String} (h : Agree names s.entries t.entries) (hdest : dest ∈ names) :
    s.value dest = t.value dest := congrArg (·.getD .none) (h dest hdest)

theorem Agree.putAt (h : Agree names s.entries t.entries) (dest : Option String) (v : Value) :
    Agree names (putAt s dest v).entries (putAt t dest v).entries := by
  cases dest with
  | none => exact h
  | some d => exact h.put d v

theorem Agree.appendAt {dest : String} (h : Agree names s.entries t.entries) (hdest : dest ∈ names)
    (happend : appendAt t dest v = .ok t') :
    ∃ s', appendAt s dest v = .ok s' ∧ Agree names s'.entries t'.entries := by
  unfold Options.appendAt at happend ⊢
  rw [h.value hdest]
  split at happend <;> cases happend
  · exact ⟨_, rfl, h.put _ _⟩
  · exact ⟨_, rfl, h.put _ _⟩

theorem Meeting.apply_agree (h : Agree names s.entries t.entries)
    (hdest : m.option.dest.getD "" ∈ names) (happly : m.apply t = .ok t') :
    ∃ s', m.apply s = .ok s' ∧ Agree names s'.entries t'.entries := by
  unfold Meeting.apply at happly ⊢
  cases haction : m.option.action <;> rw [haction] at happly <;> dsimp only at happly ⊢
  case append => exact h.appendAt hdest happly
  case appendConst => exact h.appendAt hdest happly
  case count =>
    rw [h.value hdest]
    cases hup : CommandLine.countUp (t.value (m.option.dest.getD "")) <;> rw [hup] at happly <;>
      cases happly
    exact ⟨_, rfl, h.putAt _ _⟩
  case callback =>
    cases happly
    exact ⟨s, rfl, h⟩
  case help => cases happly
  case version => cases happly
  all_goals
    cases happly
    exact ⟨_, rfl, h.putAt _ _⟩

theorem foldlM_apply_agree {met : List Meeting} (h : Agree names s.entries t.entries)
    (hmet : met.foldlM (fun s m => m.apply s) t = .ok t') : ∃ s',
      (met.filter fun m => m.option.dest.getD "" ∈ names).foldlM (fun s m => m.apply s) s = .ok s' ∧
        Agree names s'.entries t'.entries := by
  induction met generalizing s t with
  | nil =>
    cases hmet
    exact ⟨s, rfl, h⟩
  | cons m rest ih =>
    rw [List.foldlM_cons] at hmet
    obtain ⟨next, hm, hmet⟩ := bind_ok hmet
    by_cases hdest : m.option.dest.getD "" ∈ names
    · obtain ⟨s₁, hs₁, hnext⟩ := Meeting.apply_agree h hdest hm
      obtain ⟨s', hs', hagree⟩ := ih hnext hmet
      refine ⟨s', ?_, hagree⟩
      rw [List.filter_cons_of_pos (by simpa using hdest), List.foldlM_cons, hs₁]
      exact hs'
    · rw [List.filter_cons_of_neg (by simpa using hdest)]
      refine ih (fun name hname => (h name hname).trans ?_) hmet
      exact (Meeting.find?_apply_of_ne (ne_of_mem_of_not_mem hname hdest).symm hm).symm

end Meeting

section Start

variable {names : List String} {ds ds' es : List (String × Value)} {o : CommandOption}

/-- Reads the default of an option like a word, if it is a text. -/
def CommandOption.readDefault (ds : List (String × Value)) (o : CommandOption) :
    Except Fault (List (String × Value)) :=
  match o.dest with
  | none => .ok ds
  | some dest =>
    match ds.lookup dest with
    | some (.text s) =>
      match o.checkValue o.name s with
      | .ok v => .ok (Entries.put dest v ds)
      | .error message => .error (Fault.because .badOptionValue message)
    | _ => .ok ds

theorem CommandLine.defaultValues_eq {c : CommandLine} (h : c.nameless = []) :
    c.defaultValues =
      (c.options.foldlM CommandOption.readDefault c.defaults).map fun ds => ⟨ds⟩ := by
  unfold defaultValues
  extract_lets asWord step
  have hstep : step = CommandOption.readDefault := by
    funext ds o
    unfold step CommandOption.readDefault
    cases o.dest with
    | none =>
      dsimp only
      rw [h]
      rfl
    | some dest =>
      dsimp only
      unfold asWord
      cases ds.lookup dest with
      | none => rfl
      | some default =>
        cases default
        case text s =>
          dsimp only
          cases o.checkValue o.name s <;> rfl
        all_goals rfl
  rw [hstep, h]
  cases c.options.foldlM CommandOption.readDefault c.defaults <;> rfl

theorem Agree.readDefault (h : Agree names ds ds') (ho : ∀ dest ∈ o.dest, dest ∈ names)
    (hread : o.readDefault ds' = .ok es) :
    ∃ es', o.readDefault ds = .ok es' ∧ Agree names es' es := by
  unfold CommandOption.readDefault at hread ⊢
  cases hdest : o.dest with
  | none =>
    rw [hdest] at hread
    cases hread
    exact ⟨ds, rfl, h⟩
  | some dest =>
    rw [hdest] at hread
    dsimp only at hread ⊢
    rw [h dest (ho dest hdest)]
    split at hread
    · split at hread <;> cases hread
      exact ⟨_, rfl, h.put dest _⟩
    · cases hread
      exact ⟨ds, rfl, h⟩

theorem Agree.readDefault_right (h : Agree names ds ds') (ho : ∀ dest ∈ o.dest, dest ∉ names)
    (hread : o.readDefault ds' = .ok es) : Agree names ds es := by
  unfold CommandOption.readDefault at hread
  split at hread
  · cases hread
    exact h
  · rename_i dest hdest
    split at hread
    · split at hread <;> cases hread
      exact h.put_right (ho dest hdest)
    · cases hread
      exact h

theorem Agree.foldlM_readDefault {own others : List CommandOption} (h : Agree names ds ds')
    (hown : ∀ o ∈ own, ∀ dest ∈ o.dest, dest ∈ names)
    (hothers : ∀ o ∈ others, ∀ dest ∈ o.dest, dest ∉ names)
    (hread : (own ++ others).foldlM CommandOption.readDefault ds' = .ok es) :
    ∃ es', own.foldlM CommandOption.readDefault ds = .ok es' ∧ Agree names es' es := by
  induction own generalizing ds ds' with
  | nil =>
    refine ⟨ds, rfl, ?_⟩
    rw [List.nil_append] at hread
    clear hown
    induction others generalizing ds' with
    | nil =>
      cases hread
      exact h
    | cons o rest ih =>
      obtain ⟨ho, hrest⟩ := List.forall_mem_cons.mp hothers
      rw [List.foldlM_cons] at hread
      obtain ⟨next, hnext, hread⟩ := bind_ok hread
      exact ih hrest (h.readDefault_right ho hnext) hread
  | cons o rest ih =>
    obtain ⟨ho, hrest⟩ := List.forall_mem_cons.mp hown
    rw [List.cons_append, List.foldlM_cons] at hread
    obtain ⟨next, hnext, hread⟩ := bind_ok hread
    obtain ⟨first, hfirst, hagree⟩ := h.readDefault ho hnext
    obtain ⟨es', hes', hsame⟩ := ih hagree hrest hread
    refine ⟨es', ?_, hsame⟩
    rw [List.foldlM_cons, hfirst]
    exact hes'

theorem CommandLine.defaultValues_agree {c c' : CommandLine} {others : List CommandOption}
    {start : Settings} (hoptions : c'.options = c.options ++ others) (hnone : c.nameless = [])
    (hown : ∀ o ∈ c.options, ∀ dest ∈ o.dest, dest ∈ names)
    (hothers : ∀ o ∈ others, ∀ dest ∈ o.dest, dest ∉ names)
    (h : Agree names c.defaults c'.defaults) (hstart : c'.defaultValues = .ok start) :
    ∃ own, c.defaultValues = .ok own ∧ Agree names own.entries start.entries := by
  rw [defaultValues_eq (nameless_of_defaultValues hstart), hoptions] at hstart
  cases hread : (c.options ++ others).foldlM CommandOption.readDefault c'.defaults with
  | error f =>
    rw [hread] at hstart
    cases hstart
  | ok es =>
    rw [hread] at hstart
    cases hstart
    obtain ⟨es', hes', hagree⟩ := h.foldlM_readDefault hown hothers hread
    refine ⟨⟨es'⟩, ?_, hagree⟩
    rw [defaultValues_eq hnone, hes']
    rfl

end Start

namespace Registry

variable {r r' r'' : Registry} {ds : List Declaration} {names : List String} {cwd : String}

theorem normalizeAll_agree {own others : List Declaration} {s t t' : Settings}
    (h : Agree names s.entries t.entries)
    (hown : ∀ d ∈ own, ∀ name, d.dest = .text name → name ∈ names)
    (hothers : ∀ d ∈ others, ∀ name, d.dest = .text name → name ∉ names)
    (hnormal : normalizeAll cwd t (own ++ others) = .ok t') :
    ∃ s', normalizeAll cwd s own = .ok s' ∧ Agree names s'.entries t'.entries := by
  induction own generalizing s t with
  | nil =>
    refine ⟨s, rfl, fun name hname => (h name hname).trans ?_⟩
    refine (find?_normalizeAll_of_ne (fun d hd hdest => ?_) hnormal).symm
    exact hothers d hd name hdest hname
  | cons d rest ih =>
    obtain ⟨hd, hrest⟩ := List.forall_mem_cons.mp hown
    obtain ⟨dest, v, w, hdest, hv, hw, hnormal⟩ := normalizeAll_cons hnormal
    have hs : s.find? dest = some v := (h dest (hd dest hdest)).trans hv
    obtain ⟨s', hs', hagree⟩ := ih (h.put dest w : Agree names (s.set dest w).entries _) hrest hnormal
    refine ⟨s', ?_, hagree⟩
    have hget : s.get dest = .ok v := by
      unfold Settings.get
      rw [hs]
    rw [normalizeAll, hdest]
    change (s.get dest >>= fun v => d.normalize cwd "." v >>= fun w =>
      normalizeAll cwd (s.set dest w) rest) = _
    rw [hget]
    change (d.normalize cwd "." v >>= fun w => normalizeAll cwd (s.set dest w) rest) = _
    rw [hw]
    exact hs'

/-- What plugins do to a registry when they join it: they add options, announce themselves, and
change the codes that are ignored and selected by default. -/
inductive Joined (r : Registry) : List Declaration → Registry → Prop
  | start : Joined r [] r
  | add {ds : List Declaration} {d : Declaration} {r' r'' : Registry} (h : Joined r ds r')
      (hadd : r'.add d = .ok r'') : Joined r (ds ++ [d]) r''
  | announce {ds : List Declaration} {p : PluginVersion} {r' r'' : Registry} (h : Joined r ds r')
      (hannounce : r'.announce p = .ok r'') : Joined r ds r''
  | extendIgnore {ds : List Declaration} {r' : Registry} (h : Joined r ds r') (codes : List String) :
      Joined r ds (r'.extendIgnore codes)
  | removeIgnore {ds : List Declaration} {r' : Registry} (h : Joined r ds r') (codes : List String) :
      Joined r ds (r'.removeIgnore codes)
  | extendSelect {ds : List Declaration} {r' : Registry} (h : Joined r ds r') (codes : List String) :
      Joined r ds (r'.extendSelect codes)

theorem announce_ok {p : PluginVersion} (h : r.announce p = .ok r') :
    ∃ plugins, r' = { r with plugins := plugins } := by
  obtain ⟨key, -, h⟩ := bind_ok h
  cases h
  split
  · exact ⟨r.plugins, rfl⟩
  · exact ⟨_, rfl⟩

theorem Joined.built (h : r.Joined ds r') (hr : r.Built) : r'.Built := by
  induction h with
  | start => exact hr
  | add _ hadd ih => exact ih.add hadd
  | announce _ hannounce ih => exact ih.announce hannounce
  | extendIgnore _ codes ih => exact ih.extendIgnore codes
  | removeIgnore _ codes ih => exact ih.removeIgnore codes
  | extendSelect _ codes ih => exact ih.extendSelect codes

theorem Joined.foldlM_add {more : List Declaration} (h : r.Joined ds r')
    (hadd : more.foldlM Registry.add r' = .ok r'') : r.Joined (ds ++ more) r'' := by
  induction more generalizing ds r' with
  | nil =>
    cases hadd
    rw [List.append_nil]
    exact h
  | cons d rest ih =>
    rw [List.foldlM_cons] at hadd
    obtain ⟨next, hnext, hadd⟩ := bind_ok hadd
    rw [List.append_cons]
    exact ih (h.add hnext) hadd

/-- A registry with more options. Where every setting has a name, those that the new options do not
store into keep their defaults. -/
structure Wider (r : Registry) (ds : List Declaration) (r' : Registry) : Prop where
  version : r'.version = r.version
  declarations : r'.declarations = r.declarations ++ ds
  options : ∃ os, r'.commandLine.options = r.commandLine.options ++ os ∧
    ∀ o ∈ os, ∃ d ∈ ds, CommandOption.ofDeclaration d = .ok o
  named : r'.commandLine.nameless = [] → r.commandLine.nameless = []
  defaults : r'.commandLine.nameless = [] → ∀ name, (∀ d ∈ ds, d.dest ≠ .text name) →
    r'.commandLine.defaults.lookup name = r.commandLine.defaults.lookup name

theorem Wider.of_fields (h : r.Wider ds r') (hversion : r''.version = r'.version)
    (hline : r''.commandLine = r'.commandLine) (hdeclared : r''.declarations = r'.declarations) :
    r.Wider ds r'' where
  version := hversion.trans h.version
  declarations := hdeclared.trans h.declarations
  options := hline ▸ h.options
  named := hline ▸ h.named
  defaults := hline ▸ h.defaults

theorem Wider.add {d : Declaration} (h : r.Wider ds r') (hadd : r'.add d = .ok r'') :
    r.Wider (ds ++ [d]) r'' := by
  obtain ⟨o, defaults, nameless, ho, rfl, hplace⟩ := add_ok hadd
  obtain ⟨os, hos, hserved⟩ := h.options
  refine ⟨h.version, ?_, ⟨os ++ [o], ?_, ?_⟩, fun hnone => ?_, fun hnone name hname => ?_⟩
  · rw [← List.append_assoc, ← h.declarations]
  · rw [← List.append_assoc, ← hos]
  · refine List.forall_mem_append.mpr ⟨fun o' ho' => ?_, List.forall_mem_singleton.mpr ?_⟩
    · obtain ⟨e, he, hserved⟩ := hserved o' ho'
      exact ⟨e, List.mem_append_left _ he, hserved⟩
    · exact ⟨d, List.mem_append_right _ (List.mem_singleton_self d), ho⟩
  · obtain ⟨dest, -, -, rfl⟩ := hplace.resolve_right fun hne => hne hnone
    exact h.named hnone
  · obtain ⟨dest, hdest, rfl, rfl⟩ := hplace.resolve_right fun hne => hne hnone
    obtain ⟨hds, hd⟩ := List.forall_mem_append.mp hname
    rw [← h.defaults hnone name hds, Entries.lookup_put, if_neg]
    rintro rfl
    exact List.forall_mem_singleton.mp hd hdest

theorem Joined.wider (h : r.Joined ds r') : r.Wider ds r' := by
  induction h with
  | start =>
    refine ⟨rfl, (List.append_nil _).symm, ⟨[], (List.append_nil _).symm, ?_⟩, id,
      fun _ _ _ => rfl⟩
    exact List.forall_mem_nil _
  | add _ hadd ih => exact ih.add hadd
  | announce _ hannounce ih =>
    obtain ⟨_, rfl⟩ := announce_ok hannounce
    exact ih.of_fields rfl rfl rfl
  | extendIgnore _ _ ih => exact ih.of_fields rfl rfl rfl
  | removeIgnore _ _ ih => exact ih.of_fields rfl rfl rfl
  | extendSelect _ _ ih => exact ih.of_fields rfl rfl rfl

end Registry

end LintRunner.Options
