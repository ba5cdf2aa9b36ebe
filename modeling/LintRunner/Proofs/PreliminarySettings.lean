import LintRunner.Application.Stages
import LintRunner.Proofs.JoinedOptions
import LintRunner.Proofs.RefusedValues

/-!
# Settings before plugins are known

The command line is read twice: by the program's own options before plugins are known, and again by
all options. The first reading gives the same values of the program's own options and the same
arguments, if the words can be told apart without the options of plugins. They cannot where a plugin's
option has a value that is a word of its own, where the letter of a plugin's option stands before one
of the program's, and where something after two dashes looks like an option of the program.
-/

namespace LintRunner.Options

open Stateful

/-- The words can be told apart by whoever knows only the options of `c` among those of `c'`. After
two dashes nothing looks like an option of `c`. Of the options that a word meets, those of `c` come
first; the value of another one, wherever it is not lost with its name, consists of words that meet no
option of `c` and do not look like arguments. -/
inductive Separate (c c' : CommandLine) : List String → Prop
  | done : Separate c c' []
  | dashes {rest kept : List String} (h : ReadsKnown c rest [] kept)
      (hkept : plainWords kept = plainWords rest) : Separate c c' ("--" :: rest)
  | argument {word : String} {rest : List String} (h : isArgument word = true)
      (hrest : Separate c c' rest) : Separate c c' (word :: rest)
  | option {word : String} {left left' kept value strays : List String} {met others : List Meeting}
      (h : MeetsKnown c word left met kept (value ++ left'))
      (h' : MeetsKnown c' word left (met ++ others) [] left')
      (hothers : ∀ m ∈ others, m.option ∉ c.options) (hvalue : ReadsKnown c value [] strays)
      (hstrays : plainWords strays = []) (hrest : Separate c c' left') :
      Separate c c' (word :: left)

section Apart

variable {c c' : CommandLine} {left left' words args : List String} {met more : List Meeting}

theorem MeetsLetters.readsLetters {letters : List Char}
    (h : MeetsLetters c letters left met [] left') : ReadsLetters c letters left met left' := by
  generalize hkept : ([] : List String) = kept at h
  induction h with
  | done => exact .done
  | flag ho hflag _ ih => exact .flag ho hflag (ih hkept)
  | value ho htakes hv => exact .value ho htakes hv
  | unknown => cases hkept

theorem MeetsKnown.reads {word : String} (h : MeetsKnown c word left met [] left')
    (hrest : Reads c left' more args) : Reads c (word :: left) (met ++ more) args := by
  cases h with
  | long hword hlong => exact .long hword hlong hrest
  | letters hword hne hletters => exact .letters hword hne hletters.readsLetters hrest

theorem Separate.reads (h : Separate c c' words) : ∃ met kept all args,
    ReadsKnown c words met kept ∧ Reads c' words all args ∧
      met = all.filter (·.option ∈ c.options) ∧ plainWords kept = plainWords args := by
  induction h with
  | done => exact ⟨[], [], [], [], .done, .done, rfl, rfl⟩
  | @dashes rest kept h hkept => exact ⟨[], kept, [], rest, .dashes h, .dashes, rfl, hkept⟩
  | @argument word rest harg _ ih =>
    obtain ⟨met, kept, all, args, hknown, hreads, hmet, hkept⟩ := ih
    refine ⟨met, word :: kept, all, word :: args, .argument harg hknown, .argument harg hreads,
      hmet, ?_⟩
    rw [← List.singleton_append, plainWords_append, hkept, ← plainWords_append]
    rfl
  | @option word left left' kept value strays met others hword hall hothers hvalue hstrays _ ih =>
    obtain ⟨more, keptMore, allMore, args, hknown, hreads, hmore, hkept⟩ := ih
    refine ⟨met ++ more, kept ++ (strays ++ keptMore), met ++ others ++ allMore, args,
      .option hword (hvalue.append hknown), hall.reads hreads, ?_, ?_⟩
    · have hown : met.filter (·.option ∈ c.options) = met :=
        List.filter_eq_self.mpr fun m hm => decide_eq_true (hword.option_mem m hm)
      have hnone : others.filter (·.option ∈ c.options) = [] :=
        List.filter_eq_nil_iff.mpr fun m hm => by simpa using hothers m hm
      rw [List.filter_append, List.filter_append, hown, hnone, List.append_nil, ← hmore]
    · rw [plainWords_append, plainWords_append, hword.plainWords_kept, hstrays]
      exact hkept

end Apart

namespace CommandLine

variable {c : CommandLine} {name : String}

def Fresh (c : CommandLine) : Prop :=
  ∀ o ∈ c.options, o.action.appends = true → ∀ vs,
    c.defaults.lookup (o.dest.getD "") ≠ some (.list vs)

/-- The default of a setting, where all lists look alike. -/
def outline (name : String) (defaults : List (String × Value)) : Option Value :=
  match defaults.lookup name with
  | some (.list _) => some (.list [])
  | v => v

theorem hides_outline (o : CommandOption) (name : String) : Hides o (outline name) := by
  intro _ defaults vs v hlookup
  unfold outline
  rw [Entries.lookup_put]
  by_cases heq : name = o.dest.getD ""
  · rw [if_pos heq, heq, hlookup]
  · rw [if_neg heq]

theorem Fresh.lookup (hc : c.Fresh) {defaults : List (String × Value)}
    (h : ∀ view : List (String × Value) → Option Value,
      (∀ o ∈ c.options, Hides o view) → view defaults = view c.defaults) (name : String) :
    defaults.lookup name = c.defaults.lookup name := by
  by_cases hlist : ∃ vs, c.defaults.lookup name = some (.list vs)
  · obtain ⟨vs, hvs⟩ := hlist
    refine h (List.lookup name) (Spares.hides fun o ho happends heq => ?_)
    exact hc o ho happends vs (heq ▸ hvs)
  · have hsame := h (outline name) fun o _ => hides_outline o name
    unfold outline at hsame
    split at hsame
    · split at hsame
      · rename_i vs heq
        exact absurd ⟨vs, heq⟩ hlist
      · exact absurd ⟨[], hsame.symm⟩ hlist
    · split at hsame
      · rename_i vs heq
        exact absurd ⟨vs, heq⟩ hlist
      · exact hsame

end CommandLine

namespace Registry

variable {r r' : Registry} {ds : List Declaration} {cwd : String} {words args : List String}
  {s : Settings}

def ownNames (r : Registry) : List String := r.declarations.filterMap (·.dest.text?)

variable {name : String} {o : CommandOption}

theorem mem_ownNames {d : Declaration} (hd : d ∈ r.declarations)
    (hdest : d.dest = .text name) : name ∈ r.ownNames := by
  refine List.mem_filterMap.mpr ⟨d, hd, ?_⟩
  rw [hdest]
  rfl

theorem eq_text_of_text? {v : Value} {text : String} (h : v.text? = some text) :
    v = .text text := by
  unfold Value.text? at h
  split at h <;> cases h
  rfl

theorem exists_of_mem_ownNames (h : name ∈ r.ownNames) :
    ∃ d ∈ r.declarations, d.dest = .text name := by
  obtain ⟨d, hd, hdest⟩ := List.mem_filterMap.mp h
  exact ⟨d, hd, eq_text_of_text? hdest⟩

theorem dest_of_ofDeclaration {d : Declaration}
    (h : CommandOption.ofDeclaration d = .ok o) (hdest : o.dest = some name) :
    d.dest = .text name := by
  rw [CommandOption.dest_eq h] at hdest
  exact eq_text_of_text? hdest

theorem Sound.mem_ownNames (hr : r.Sound) (ho : o ∈ r.commandLine.options) :
    ∀ name ∈ o.dest, name ∈ r.ownNames := by
  intro name hname
  rcases hr.declared o ho with ⟨hnone, -⟩ | ⟨d, hd, hserved⟩
  · cases hnone.symm.trans hname
  · exact Registry.mem_ownNames hd (dest_of_ofDeclaration hserved hname)

theorem goesOn_of_no_plugins (hplugins : r.plugins = [])
    (h : r'.reader.GoesOn o) : r.reader.GoesOn o := by
  intro hcall handler hhandler
  refine ⟨(h hcall handler hhandler).1, ?_⟩
  rw [reader, hplugins]
  rfl

theorem version_of_parse_ok {how : Strictness} {words : Words} {values : Option Settings}
    (h : (r.parse how cwd words values).1 = .ok (s, args)) :
    ∃ version, r.version = .text version := by
  rw [parse_fst] at h
  split at h
  · cases h
  · cases h
  · cases h
  · rename_i version _ _ hversion
    refine ⟨version, ?_⟩
    unfold Value.asText at hversion
    split at hversion <;> cases hversion
    assumption

theorem parseWords_lenient {kept : List String} {met : List Meeting} {start found : Settings}
    (hstart : r.commandLine.defaultValues = .ok start) (hwords : ReadsKnown r.reader words met kept)
    (hmet : met.foldlM (fun s m => m.apply s) start = .ok found)
    (hon : ∀ m ∈ met, r.reader.GoesOn m.option)
    (hnormal : normalizeAll cwd found r.declarations = .ok s) :
    (r.parseWords .lenient cwd words none).1 = .ok (s, kept) := by
  have hstart : r.startOf none = .ok start := hstart
  rw [parseWords_given hstart hwords.given hmet hon, if_pos rfl, hnormal]
  rfl

/-- Read leniently before others join, the words give the same values of the options that were there
and keep the same arguments, if they can be told apart. -/
theorem parse_lenient_agrees {program : String} {keptProgram : String} (hr : r.Built)
    (hplugins : r.plugins = []) (hfresh : r.commandLine.Fresh)
    (hjoined : Joined (r.parse .lenient cwd (.ok (program :: words)) none).2 ds r')
    (hfinal : (r'.parse .strict cwd (.ok words) none).1 = .ok (s, args))
    (hprogram : ReadsKnown r.reader [program] [] [keptProgram])
    (hwords : Separate r.reader r'.reader words)
    (hdests : ∀ d ∈ ds, ∀ e ∈ r.declarations, d.dest ≠ e.dest) :
    ∃ own kept, (r.parse .lenient cwd (.ok (program :: words)) none).1 =
        .ok (own, keptProgram :: kept) ∧
      plainWords kept = plainWords args ∧ Agree r.ownNames own.entries s.entries := by
  obtain ⟨defaults, epilog, fullVersion, hremade, hview⟩ :=
    r.parse_remade .lenient cwd (.ok (program :: words)) none
  rw [hremade] at hjoined
  have hlookup := hfresh.lookup fun view => hview view hr.sound.own
  have hr' : r'.Sound := (hjoined.built (hremade ▸ hr.parse _ _ _ _)).sound
  have hwider := hjoined.wider
  obtain ⟨start, all, hstart, hread⟩ := parse_ok hr'.own hfinal
  have hstart : r'.commandLine.defaultValues = .ok start := hstart
  have hnone' := CommandLine.nameless_of_defaultValues hstart
  have hnone : r.commandLine.nameless = [] := hwider.named hnone'
  have hothers : ∀ d ∈ ds, ∀ name, d.dest = .text name → name ∉ r.ownNames := by
    intro d hd name hdest hname
    obtain ⟨e, he, hown⟩ := exists_of_mem_ownNames hname
    exact hdests d hd e he (hdest.trans hown.symm)
  obtain ⟨os, hos, hserved⟩ := hwider.options
  have hos : r'.commandLine.options = r.commandLine.options ++ os := hos
  have hownOptions : ∀ o ∈ r.commandLine.options, ∀ dest ∈ o.dest, dest ∈ r.ownNames :=
    fun o ho => hr.sound.mem_ownNames ho
  have hotherOptions : ∀ o ∈ os, ∀ dest ∈ o.dest, dest ∉ r.ownNames := by
    intro o ho dest hdest
    obtain ⟨d, hd, hserved⟩ := hserved o ho
    exact hothers d hd dest (dest_of_ofDeclaration hserved hdest)
  have hdefaults : Agree r.ownNames r.commandLine.defaults r'.commandLine.defaults := by
    intro name hname
    rw [hwider.defaults hnone' name fun d hd hdest => hothers d hd name hdest hname]
    exact (hlookup name).symm
  obtain ⟨own, hown, hagree⟩ :=
    CommandLine.defaultValues_agree hos hnone hownOptions hotherOptions hdefaults hstart
  obtain ⟨met, kept, all', args', hknown, hreads, hmet, hkept⟩ := hwords.reads
  obtain ⟨rfl, rfl⟩ := hreads.unique hread.reads
  obtain ⟨found, hfound, hnormal⟩ := hread.settled
  obtain ⟨found', hfound', hagree⟩ := foldlM_apply_agree hagree hfound
  have hsame : all'.filter (fun m => m.option.dest.getD "" ∈ r.ownNames) = met := by
    rw [hmet]
    refine List.filter_congr fun m hm => decide_eq_decide.mpr ?_
    obtain ⟨e, -, dest, -, -, hdest⟩ := hread.declared hr' hnone' m hm
    have hmem : m.option ∈ r.commandLine.options ++ os := hos ▸ hread.reads.option_mem m hm
    rw [hdest, Option.getD_some]
    refine ⟨fun hname => (List.mem_append.mp hmem).resolve_right fun ho => ?_,
      fun ho => hownOptions _ ho dest hdest⟩
    exact hotherOptions _ ho dest hdest hname
  have hon : ∀ m ∈ met, r.reader.GoesOn m.option := by
    intro m hm
    rw [hmet] at hm
    exact goesOn_of_no_plugins hplugins (hread.goesOn m (List.mem_filter.mp hm).1)
  rw [hsame] at hfound'
  rw [hwider.declarations] at hnormal
  obtain ⟨s', hs', hagree⟩ := normalizeAll_agree hagree (fun d hd name => mem_ownNames hd) hothers
    hnormal
  refine ⟨s', kept, ?_, hkept, hagree⟩
  obtain ⟨version, hversion⟩ := version_of_parse_ok hfinal
  rw [parse_of_versions (versions_of_no_plugins hplugins _ _) (hwider.version.symm.trans hversion)]
  exact parseWords_lenient hown (hprogram.append hknown) hfound' hon hs'

theorem plugins_foldlM_add (h : ds.foldlM Registry.add r = .ok r') : r'.plugins = r.plugins := by
  induction ds generalizing r with
  | nil =>
    cases h
    rfl
  | cons d rest ih =>
    rw [List.foldlM_cons] at h
    obtain ⟨next, hnext, h⟩ := bind_ok h
    have hkept := ih h
    obtain ⟨_, _, _, -, rfl, -⟩ := add_ok hnext
    exact hkept

theorem built_withDefaults (hr : r.Built) (h : r.withDefaults = .ok r') : r'.Built :=
  hr.foldlM_add h

theorem plugins_withDefaults (h : r.withDefaults = .ok r') : r'.plugins = r.plugins :=
  plugins_foldlM_add h

theorem getD_toOption {α : Type} {P : α → Prop} {x : Except Fault α} {d : α} (hd : P d)
    (h : ∀ a, x = .ok a → P a) : P (x.toOption.getD d) := by
  cases x with
  | error f => exact hd
  | ok a => exact h a rfl

theorem built_initial : Registry.initial.Built :=
  getD_toOption (Built.make _ _) fun _ => built_withDefaults (.make _ _)

theorem plugins_initial : Registry.initial.plugins = [] :=
  getD_toOption (P := fun r : Registry => r.plugins = []) rfl fun _ => plugins_withDefaults

theorem fresh_initial : Registry.initial.commandLine.Fresh := by
  have hnone : ∀ o ∈ Registry.initial.commandLine.options, o.action.appends = true →
      Registry.initial.commandLine.defaults.lookup (o.dest.getD "") = some .none := by
    decide +kernel
  intro o ho happends vs hlist
  cases (hnone o ho happends).symm.trans hlist

end Registry

end LintRunner.Options

namespace LintRunner.Running

open Options (CommandOption Declaration MeetsKnown ReadsKnown Registry Separate Takes plainWords)
open Stateful

variable {a : Application} {argv : Option (List String)} {words args : List String}
  {program : String}

theorem run_readWords {how : Registry.Strictness} {words : Options.Words}
    {result : Settings × List String}
    (h : (a.registry.parse how a.world.tree.cwd words none).1 = .ok result) :
    (readWords how words).run a =
      (.ok result, { a with registry := (a.registry.parse how a.world.tree.cwd words none).2 }) := by
  unfold readWords
  rw [run_bind_of_ok (run_get a)]
  dsimp only
  rw [run_bind_of_ok (run_set _ a), h]
  rfl

theorem keeps_inWorld {α : Type} (r : Run α) :
    Keeps (fun a : Application => a.registry) (inWorld r) := by
  intro a
  unfold inWorld
  rw [run_bind_of_ok (run_get a)]
  rcases r.run a.world with ⟨_ | _, w⟩ <;> rfl

theorem registry_readWords (how : Registry.Strictness) (words : Options.Words) :
    ((readWords how words).run a).2.registry =
      (a.registry.parse how a.world.tree.cwd words none).2 := by
  unfold readWords
  rw [run_bind_of_ok (run_get a)]
  dsimp only
  rw [run_bind_of_ok (run_set _ a)]
  split
  · rfl
  · exact keeps_inWorld _ _

theorem preliminaryWords_of_not_mem (h : ∀ word ∈ deferredWords, word ∉ words) :
    preliminaryWords words = words := by
  unfold preliminaryWords
  generalize deferredWords = deferred at h
  induction deferred with
  | nil => rfl
  | cons word rest ih =>
    obtain ⟨hword, hrest⟩ := List.forall_mem_cons.mp h
    rw [List.foldl_cons, List.erase_of_not_mem hword]
    exact ih hrest

theorem parsePreliminary_eq (hwords : argv.getD a.words = program :: words)
    (hdeferred : ∀ word ∈ deferredWords, word ∉ program :: words) :
    (parsePreliminary argv).run a = (readWords .lenient (.ok (program :: words)) >>= fun result =>
      modify fun a => { a with preliminary := some (result.1, plainWords (result.2.drop 1)) }).run
        a := by
  have hread := preliminaryWords_of_not_mem hdeferred
  unfold parsePreliminary
  rw [run_bind_of_ok (run_get a)]
  cases argv with
  | none =>
    have hwords : a.words = program :: words := hwords
    dsimp only
    rw [hwords, hread]
    rfl
  | some given =>
    cases given with
    | nil => cases hwords
    | cons word rest =>
      cases hwords
      dsimp only
      rw [hread]
      rfl

/-- Before plugins are known, the program's own options get the values that the command line gives
them in the end, and the arguments are those that do not look like options. For this the words must be
such that they can be told apart, and no plugin may store into the settings of the program. -/
theorem parsePreliminary_agrees {ds : List Declaration} {r : Registry} {s : Settings}
    {kept : String} (hinitial : a.registry = Registry.initial)
    (hwords : argv.getD a.words = program :: words)
    (hdeferred : ∀ word ∈ deferredWords, word ∉ program :: words)
    (hplugins : Registry.Joined ((parsePreliminary argv).run a).2.registry ds r)
    (hfinal : (r.parse .strict a.world.tree.cwd (.ok words) none).1 = .ok (s, args))
    (hprogram : ReadsKnown Registry.initial.reader [program] [] [kept])
    (hapart : Separate Registry.initial.reader r.reader words)
    (hdests : ∀ d ∈ ds, ∀ e ∈ Registry.initial.declarations, d.dest ≠ e.dest) :
    ((parsePreliminary argv).run a).1 = .ok () ∧
      ∃ own, ((parsePreliminary argv).run a).2.preliminary = some (own, plainWords args) ∧
        ∀ d ∈ Registry.initial.declarations, ∀ name, d.dest = .text name →
          own.find? name = s.find? name := by
  have hregistry : ((parsePreliminary argv).run a).2.registry =
      (Registry.initial.parse .lenient a.world.tree.cwd (.ok (program :: words)) none).2 := by
    rw [parsePreliminary_eq hwords hdeferred, ← hinitial, ← registry_readWords, run_bind]
    rcases (readWords .lenient (.ok (program :: words))).run a with ⟨_ | _, b⟩ <;> rfl
  rw [hregistry] at hplugins
  obtain ⟨own, more, hread, hmore, hagree⟩ := Registry.parse_lenient_agrees Registry.built_initial
    Registry.plugins_initial Registry.fresh_initial hplugins hfinal hprogram hapart hdests
  rw [← hinitial] at hread
  have hrun := run_readWords hread
  rw [parsePreliminary_eq hwords hdeferred, run_bind_of_ok hrun]
  refine ⟨rfl, own, ?_, fun d hd name hdest => hagree name (Registry.mem_ownNames hd hdest)⟩
  rw [← hmore]
  rfl

def blank : Application where
  catalogue := {}
  world := { tree := { cwd := "/", root := .directory [] } }
  words := []

/-- The registry after the first reading of some words, with the options of plugins. -/
def joinedBy (ds : List Declaration) (words : List String) : Except Fault Registry :=
  ds.foldlM Registry.add ((parsePreliminary (some ("flake8" :: words))).run blank).2.registry

theorem joined_of_joinedBy {ds : List Declaration} {r : Registry} (h : joinedBy ds words = .ok r) :
    Registry.Joined ((parsePreliminary (some ("flake8" :: words))).run blank).2.registry ds r :=
  Registry.Joined.start.foldlM_add h

/-- An option of a plugin that takes a value, and one that takes none. -/
def pluginOptions : List Declaration :=
  [{ short := .text "-x", dest := .text "x" },
   { long := .text "--foo", dest := .text "foo", action := .text "store_true" }]

def valueOption : CommandOption :=
  { shorts := ["-x"], type := some .string, dest := some "x", nargs := .int 1 }

def flagOption : CommandOption :=
  { longs := ["--foo"], action := .storeTrue, dest := some "foo" }

/-- A plugin's letter with its value after a letter of the program, and a plugin's name. -/
theorem parsePreliminary_agrees_letters :
    ∃ r s own,
      Registry.Joined
        ((parsePreliminary (some ["flake8", "-vx5", "src", "--foo"])).run blank).2.registry
        pluginOptions r ∧
      (r.parse .strict "/" (.ok ["-vx5", "src", "--foo"]) none).1 = .ok (s, ["src"]) ∧
      ((parsePreliminary (some ["flake8", "-vx5", "src", "--foo"])).run blank).2.preliminary =
        some (own, ["src"]) ∧
      own.find? "verbose" = s.find? "verbose" ∧ s.find? "verbose" = some (.int 1) := by
  have hown :
      (Registry.initial.reader.short? (String.ofList ['-', 'v'])).map (·.takesValue) = some false ∧
      Registry.initial.reader.short? (String.ofList ['-', 'x']) = none ∧
      (Registry.initial.reader.fullName "--foo").isOk = false ∧
      valueOption ∉ Registry.initial.reader.options ∧ flagOption ∉ Registry.initial.reader.options ∧
      Registry.initial.declarations.any (·.dest = .text "verbose") = true ∧
      ∀ d ∈ pluginOptions, ∀ e ∈ Registry.initial.declarations, d.dest ≠ e.dest := by
    decide +kernel
  obtain ⟨hv, hx, hfoo, hx', hfoo', hverbose, hdests⟩ := hown
  obtain ⟨verbose, hv, hflag⟩ := Option.map_eq_some_iff.mp hv
  have hjoined : ((joinedBy pluginOptions ["-vx5", "src", "--foo"]).toOption.map fun r => decide (
      r.reader.short? (String.ofList ['-', 'v']) =
          Registry.initial.reader.short? (String.ofList ['-', 'v']) ∧
        r.reader.short? (String.ofList ['-', 'x']) = some valueOption ∧
        (r.reader.fullName "--foo").toOption = some "--foo" ∧
        r.reader.long? "--foo" = some flagOption ∧
        ((r.parse .strict "/" (.ok ["-vx5", "src", "--foo"]) none).1.toOption.map fun p =>
          (p.1.find? "verbose", p.2)) = some (some (.int 1), ["src"]))) = some true := by
    decide +kernel
  obtain ⟨r, hr, hjoined⟩ := Option.map_eq_some_iff.mp hjoined
  obtain ⟨hv', hrx, hname, hrfoo, hfinal⟩ := of_decide_eq_true hjoined
  obtain ⟨⟨s, args⟩, hfinal, hshown⟩ := Option.map_eq_some_iff.mp hfinal
  obtain ⟨hs, rfl⟩ := Prod.mk.inj hshown
  obtain ⟨d, hd, hdest⟩ := List.any_eq_true.mp hverbose
  have hfinal : (r.parse .strict "/" (.ok ["-vx5", "src", "--foo"]) none).1 = .ok (s, ["src"]) :=
    eq_ok_of_toOption hfinal
  have hlong : r.reader.fullName "--foo" = .ok "--foo" := eq_ok_of_toOption hname
  have hplugins := joined_of_joinedBy (eq_ok_of_toOption hr)
  have hname : "--foo".toList = ['-', '-', 'f', 'o', 'o'] := by decide
  have hletters : "-vx5".toList = ['-', 'v', 'x', '5'] := by decide
  have htakes : Takes valueOption (String.ofList ['-', 'x']) [String.ofList ['5'], "src", "--foo"]
      (.text (String.ofList ['5'])) ["src", "--foo"] :=
    .words (n := 1) rfl rfl rfl
  have hcut : (Text.cut (· == '=') "--foo".toList).2 = none := by
    rw [hname]
    rfl
  have hunknown : MeetsKnown Registry.initial.reader "--foo" [] [] ["--foo"] [] :=
    .unknown hname hcut hfoo
  have hmet : MeetsKnown r.reader "--foo" [] [⟨flagOption, .none⟩] [] [] :=
    .long hname (.plain hcut hlong hrfoo (.nothing rfl))
  have hlast : Separate Registry.initial.reader r.reader ["--foo"] :=
    .option hunknown hmet (List.forall_mem_singleton.mpr hfoo') .done rfl .done
  have hfirst : MeetsKnown Registry.initial.reader "-vx5" ["src", "--foo"] [⟨verbose, .none⟩]
      [String.ofList ['-', 'x']] ["src", "--foo"] :=
    .letters hletters (by decide) (.flag hv hflag (.unknown hx))
  have hall : MeetsKnown r.reader "-vx5" ["src", "--foo"]
      [⟨verbose, .none⟩, ⟨valueOption, .text (String.ofList ['5'])⟩] [] ["src", "--foo"] :=
    .letters hletters (by decide) (.flag (hv'.trans hv) hflag (.value hrx rfl htakes))
  have hapart : Separate Registry.initial.reader r.reader ["-vx5", "src", "--foo"] :=
    .option hfirst hall (List.forall_mem_singleton.mpr hx') .done rfl (.argument rfl hlast)
  have hinitial : blank.registry = Registry.initial := by rw [blank]
  have hwords : (some ["flake8", "-vx5", "src", "--foo"]).getD blank.words =
      "flake8" :: ["-vx5", "src", "--foo"] := rfl
  have hprogram : ReadsKnown Registry.initial.reader ["flake8"] [] ["flake8"] := .argument rfl .done
  obtain ⟨-, own, hpreliminary, hagree⟩ := parsePreliminary_agrees hinitial hwords (by decide) hplugins
    hfinal hprogram hapart hdests
  exact ⟨r, s, own, hplugins, hfinal, hpreliminary, hagree d hd "verbose" (of_decide_eq_true hdest), hs⟩

/-- What both readings say about the program's own option, and the arguments of both. -/
def bothReadings (ds : List Declaration) (words : List String) :
    Option ((Value × List String) × (Value × List String)) := do
  let (own, found) ← ((parsePreliminary (some ("flake8" :: words))).run blank).2.preliminary
  let r ← (joinedBy ds words).toOption
  let (s, args) ← (r.parse .strict "/" (.ok words) none).1.toOption
  return ((own.value "verbose", found), (s.value "verbose", args))

/-- Two dashes are passed over. A plugin's value is taken for an argument, and a letter after a
plugin's letter is lost. -/
theorem parsePreliminary_misreads :
    bothReadings [] ["--", "-v"] = some ((.int 1, []), (.int 0, ["-v"])) ∧
    bothReadings pluginOptions ["-x", "src"] = some ((.int 0, ["src"]), (.int 0, [])) ∧
    bothReadings [{ short := .text "-x", dest := .text "x", action := .text "count" }] ["-xv"] =
      some ((.int 0, []), (.int 1, [])) := by
  decide +kernel

end LintRunner.Running
