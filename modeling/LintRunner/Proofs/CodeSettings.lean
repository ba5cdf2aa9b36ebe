import LintRunner.Options.Defaults
import LintRunner.Proofs.RegisteredPlugins

/-!
# Lists of codes in the settings

Four options of the program hold lists of codes. As long as plugins leave them alone, their values
are lists of items in the settings of a run. The codes that are ignored by default are joined by the
names of plugins, unless the user says what to ignore.
-/

namespace LintRunner

open Stateful
open Config (Finder Known layersOf)

namespace Options

variable {r r' : Registry} {d : Declaration} {o : CommandOption} {name written : String}

theorem withDefaults_make :
    (Registry.make "flake8" (.text Release.version)).withDefaults = .ok Registry.initial := by
  have hsome : (Registry.make "flake8" (.text Release.version)).withDefaults.toOption.isSome =
      true := by
    decide +kernel
  obtain ⟨r, hr⟩ := Option.isSome_iff_exists.mp hsome
  rw [eq_ok_of_toOption hr, Registry.initial, hr]
  rfl

theorem Registry.declarations_initial :
    Registry.initial.declarations = checkingOptions ++ runningOptions :=
  declarations_foldlM_add withDefaults_make

theorem Registry.extended_foldlM_add {ds : List Declaration}
    (h : ds.foldlM Registry.add r = .ok r') :
    r'.extendedIgnore = r.extendedIgnore ∧ r'.extendedSelect = r.extendedSelect := by
  induction ds generalizing r with
  | nil =>
    cases h
    exact ⟨rfl, rfl⟩
  | cons d rest ih =>
    rw [List.foldlM_cons] at h
    obtain ⟨next, hnext, h⟩ := bind_ok h
    obtain ⟨hignore, hselect⟩ := ih h
    obtain ⟨_, _, _, -, rfl, -⟩ := add_ok hnext
    exact ⟨hignore, hselect⟩

theorem Registry.lookup_configOptions_foldlM_add {ds : List Declaration}
    (h : ds.foldlM Registry.add r = .ok r') (hname : underscored name = name)
    (hds : ∀ d ∈ ds, d.configName ≠ some name) :
    r'.configOptions.lookup name = r.configOptions.lookup name := by
  induction ds generalizing r with
  | nil =>
    cases h
    rfl
  | cons d rest ih =>
    obtain ⟨hd, hrest⟩ := List.forall_mem_cons.mp hds
    rw [List.foldlM_cons] at h
    obtain ⟨next, hnext, h⟩ := bind_ok h
    exact (ih h hrest).trans (lookup_configOptions_add_of_ne hnext hname hd)

/-- An option whose value is a list of codes, with what is written for its default. -/
structure CodeOption (r : Registry) (d : Declaration) (o : CommandOption) (name written : String) :
    Prop where
  sole : r.Sole d name
  known : Known r d name
  isList : d.isList = true
  isPath : d.isPath = false
  served : CommandOption.ofDeclaration d = .ok o
  stores : o.action = .store
  start : o.startValue d.default = .ok (.text written)

/-- The settings that hold lists of codes, with their defaults as they are written. -/
def codeDefaults : List (String × String) :=
  [("select", Text.joinWith "," defaultSelect), ("ignore", Text.joinWith "," defaultIgnore),
    ("extend_ignore", ""), ("enable_extensions", "")]

def Declaration.listsCodes (name written : String) (d : Declaration) : Bool :=
  d.dest = .text name && d.configName = some name && d.isList && !d.isPath &&
    (CommandOption.ofDeclaration d).toOption.any fun o =>
      o.action = .store && (o.startValue d.default).toOption = some (.text written)

theorem find?_listsCodes : ∀ e ∈ codeDefaults,
    ((checkingOptions ++ runningOptions).find? (·.listsCodes e.1 e.2)).isSome = true ∧
      (checkingOptions ++ runningOptions).countP (fun d =>
        d.dest = .text e.1 || d.configName = some e.1) = 1 := by
  decide +kernel

theorem exists_codeOption {e : String × String} (he : e ∈ codeDefaults) :
    ∃ d o, CodeOption Registry.initial d o e.1 e.2 := by
  obtain ⟨hfind, hcount⟩ := find?_listsCodes e he
  obtain ⟨d, hd⟩ := Option.isSome_iff_exists.mp hfind
  have hfit := List.find?_some hd
  simp only [Declaration.listsCodes, Bool.and_eq_true, decide_eq_true_eq, Bool.not_eq_true',
    Option.any_eq_true] at hfit
  obtain ⟨⟨⟨⟨hdest, hconfig⟩, hlist⟩, hpath⟩, o, ho, hstores, hstart⟩ := hfit
  obtain ⟨before, after, hsplit⟩ := List.append_of_mem (List.mem_of_find?_eq_some hd)
  have hothers : ∀ e' ∈ before ++ after, e'.dest ≠ .text e.1 ∧ e'.configName ≠ some e.1 := by
    rw [hsplit, List.countP_append, List.countP_cons_of_pos (by simp [hdest])] at hcount
    have hzero : (before ++ after).countP (fun d =>
        d.dest = .text e.1 || d.configName = some e.1) = 0 := by
      rw [List.countP_append]
      omega
    intro e' he'
    simpa using List.countP_eq_zero.mp hzero e' he'
  have hdeclared := Registry.declarations_initial.trans hsplit
  refine ⟨d, o, ⟨hdest, before, after, hdeclared, fun e' he' => (hothers e' he').1⟩,
    ⟨hconfig, ?_⟩, hlist, hpath, eq_ok_of_toOption ho, hstores, eq_ok_of_toOption hstart⟩
  have hadded := withDefaults_make
  rw [Registry.withDefaults, hsplit, List.foldlM_append] at hadded
  obtain ⟨r₁, -, hadded⟩ := bind_ok hadded
  rw [List.foldlM_cons] at hadded
  obtain ⟨r₂, hadd, hrest⟩ := bind_ok hadded
  rw [Registry.lookup_configOptions_foldlM_add hrest (d.underscored_configName hconfig)
    fun e' he' => (hothers e' (List.mem_append_right _ he')).2]
  exact Registry.lookup_configOptions_add hadd hconfig

/-- The options that plugins declared leave the lists of codes alone: none is for one of them, and
none has a callback, which might do anything. -/
structure Registry.SparesCodes (r : Registry) : Prop where
  options : ∀ e ∈ r.declarations.drop Registry.initial.declarations.length,
    ∀ name ∈ "extended_default_select" :: codeDefaults.map (·.1),
      e.dest ≠ .text name ∧ e.configName ≠ some name
  callbacks : r.commandLine.callbacks = []

theorem CodeOption.enrolled {names : List String} {held : String}
    (h : CodeOption Registry.initial d o name written)
    (hname : name ∈ codeDefaults.map (·.1))
    (hr : Registry.initial.Enrolled names held r) (hspares : r.SparesCodes) :
    CodeOption r d o name written := by
  obtain ⟨more, hmore, hkept⟩ := hr.grown
  have hfree : ∀ e ∈ more, e.dest ≠ .text name ∧ e.configName ≠ some name := by
    intro e he
    refine hspares.options e ?_ name (List.mem_cons_of_mem _ hname)
    rwa [hmore, List.drop_left]
  obtain ⟨before, after, hsplit, hothers⟩ := h.sole.alone
  refine ⟨⟨h.sole.dest, before, after ++ more, ?_, ?_⟩, ⟨h.known.named, ?_⟩, h.isList, h.isPath,
    h.served, h.stores, h.start⟩
  · rw [hmore, hsplit, List.append_assoc, List.cons_append]
  · rw [← List.append_assoc]
    exact List.forall_mem_append.mpr ⟨hothers, fun e he => (hfree e he).1⟩
  · rw [hkept name (d.underscored_configName h.known.named) fun e he => (hfree e he).2]
    exact h.known.registered

theorem Declaration.normalize_list_ok (hlist : d.isList = true) (hpath : d.isPath = false)
    {cwd parent : String} {v w : Value} (h : d.normalize cwd parent v = .ok w) :
    ∃ codes, Declaration.listed .commaOrBlank v = .ok codes ∧ w = Value.texts codes := by
  unfold normalize at h
  rw [hpath, hlist] at h
  obtain ⟨codes, hcodes, h⟩ := bind_ok h
  cases h
  exact ⟨codes, hcodes, rfl⟩

/-- The user sets an option: it is met on the command line, or a layer of configuration that counts
writes it. -/
def Registry.SetByUser (r : Registry) (f : Finder) (t : FileTree) (words : List String)
    (name : String) : Prop :=
  (∃ met args, Reads r.reader words met args ∧ givenFor name met ≠ []) ∨
  ∃ asked args layers g, (r.parse .strict t.cwd (.ok words) none).1 = .ok (asked, args) ∧
    ((layersOf (asked.value "config") (asked.flag "isolated")).run t).run f = (.ok layers, g) ∧
    ∃ l ∈ layers, (l.ini.written? r.program name).isSome

section Reading

variable {t : FileTree} {f f' : Finder} {finder : Option Finder} {words args : List String}
  {s asked start defaults : Settings} {met : List Meeting} {layers : List Config.Layer}
  {found : List (String × Value)}

theorem CodeOption.action_stores (hd : CodeOption r d o name written) :
    o.action.stores = true := by
  rw [hd.stores]
  rfl

theorem CodeOption.find?_defaults {cwd : String} (hd : CodeOption r d o name written)
    (hr : r.Sound) (hstart : r.commandLine.defaultValues = .ok start)
    (hdefaults : r.ReadsTo cwd [] start [] defaults []) :
    defaults.find? name = some (Value.texts (Text.items .commaOrBlank written)) := by
  have hnone := CommandLine.nameless_of_defaultValues hstart
  obtain ⟨_, hfirst, hset⟩ := hd.sole.find?_defaultValues hr hd.served hd.action_stores hstart
  cases hd.start.symm.trans hfirst
  obtain ⟨_, w, hsame, hw, hdefault⟩ := hdefaults.find? hr hnone hd.sole hd.served
    hd.action_stores hset
  cases hsame
  obtain ⟨codes, hcodes, rfl⟩ := Declaration.normalize_list_ok hd.isList hd.isPath hw
  rw [Declaration.listed_text] at hcodes
  cases hcodes
  exact hdefault

/-- Where the user does not set an option, neither the command line nor configuration has a value
for it. -/
theorem Registry.unset_of_not_setByUser (hd : Known r d name)
    (hreads : Reads r.reader words met args)
    (hasked : (r.parse .strict t.cwd (.ok words) none).1 = .ok (asked, args))
    (hlayers : ((layersOf (asked.value "config") (asked.flag "isolated")).run t).run f =
      (.ok layers, f'))
    (hvalues : ∀ d name, Known r d name →
      (found.lookup name).map Except.ok = Config.layeredValue? layers r.program d name t.cwd)
    (h : ¬ r.SetByUser f t words name) : givenFor name met = [] ∧ found.lookup name = none := by
  constructor
  · by_contra hne
    exact h (.inl ⟨met, args, hreads, hne⟩)
  · cases hlookup : found.lookup name with
    | none => rfl
    | some v =>
      have hlayered := hvalues d name hd
      rw [hlookup] at hlayered
      obtain ⟨l, hl, hwritten⟩ := List.exists_of_findSome?_eq_some hlayered.symm
      obtain ⟨text, htext, -⟩ := Option.map_eq_some_iff.mp hwritten
      refine absurd (.inr ⟨asked, args, layers, f', hasked, hlayers, l, hl, ?_⟩) h
      rw [htext]
      rfl

/-- A list of codes holds items in the end. The list of ignored ones, unless the user sets it, joins
the names of plugins that are off by default and the codes that are ignored by default. -/
theorem CodeOption.aggregated (hr : r.Built) (hd : CodeOption r d o name written)
    (hname : name ≠ "extended_default_select")
    (h : aggregate r (some f) t (.ok words) none = (.ok (s, args), r', finder)) :
    ∃ codes, s.find? name = some (Value.texts codes) ∧ (∀ code ∈ codes, Text.IsItem code) ∧
      (name = "ignore" → ¬ r.SetByUser f t words name →
        codes = Text.keepItems (Text.sorted (Registry.union r.extendedIgnore
          (Text.items .commaOrBlank written)))) := by
  obtain ⟨start, defaults, asked, found, extended, g, met, hstart, hdefaults, hasked, hfound, -,
    hextended, hread⟩ := Registry.aggregate_ok hr.sound.own h
  have hsound := hr.sound
  have hnone := CommandLine.nameless_of_defaultValues hstart
  obtain ⟨layers, hlayers, hlisted, hvalues⟩ := Config.parse_ok hsound hfound
  obtain ⟨raw, hraw, -⟩ := Registry.find?_overlay_base hsound hd.sole hd.known hd.served
    hd.action_stores hname hstart hdefaults hextended hlisted (hvalues d name hd.known)
  obtain ⟨last, v, hlast, hv, hs⟩ := hread.find? hsound hnone hd.sole hd.served hd.action_stores
    hraw
  obtain ⟨codes, hcodes, rfl⟩ := Declaration.normalize_list_ok hd.isList hd.isPath hv
  refine ⟨codes, hs, Declaration.isItem_of_listed hcodes, ?_⟩
  rintro rfl hunset
  obtain ⟨hgiven, hunwritten⟩ := Registry.unset_of_not_setByUser hd.known hread.reads hasked hlayers
    hvalues hunset
  obtain ⟨old, hold, hignore, -⟩ := Registry.extendDefaults_ok hextended
  cases hold.symm.trans (hd.find?_defaults hsound hstart hdefaults)
  have hplace : ∀ e ∈ r.declarations, e.dest = .text "ignore" → e.configName = some "ignore" := by
    intro e he hdest
    rw [hd.sole.eq_of_dest he hdest]
    exact hd.known.named
  rw [Registry.find?_overlay hsound hplace hlisted (by rw [hignore]; rfl), hunwritten, hignore,
    Declaration.textItems_texts] at hraw
  cases hraw
  rw [hgiven] at hlast
  cases hlast
  rw [Declaration.listed_texts] at hcodes
  cases hcodes
  rfl

theorem Registry.SparesCodes.free {names : List String} {held : String}
    (hr : Registry.initial.Enrolled names held r) (hspares : r.SparesCodes) :
    ∀ e ∈ r.declarations, e.dest ≠ .text "extended_default_select" ∧
      e.configName ≠ some "extended_default_select" := by
  have hown : ∀ e ∈ checkingOptions ++ runningOptions,
      e.dest ≠ .text "extended_default_select" ∧
        e.configName ≠ some "extended_default_select" := by
    decide +kernel
  obtain ⟨more, hmore, -⟩ := hr.grown
  rw [hmore]
  refine List.forall_mem_append.mpr ⟨Registry.declarations_initial ▸ hown, fun e he => ?_⟩
  refine hspares.options e ?_ _ List.mem_cons_self
  rwa [hmore, List.drop_left]

end Reading

end Options

end LintRunner
