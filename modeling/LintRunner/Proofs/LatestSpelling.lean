import LintRunner.Proofs.MergedFiles

/-!
# The spelling that counts

Several files may mention an option, each in either spelling of its name. A later file replaces what
an earlier one says in the same spelling, but the two spellings stay apart until values are read,
and then the one that was mentioned first after the other counts, whichever file spoke last.
-/

namespace LintRunner

open Stateful

namespace Config

open Options (Declaration Registry)

/-- What the files mention in a section, in the order in which they are read. -/
def mentions (owns : List Ini) (program : String) : Section :=
  owns.flatMap fun own => (own.sections.lookup program).getD []

/-- What the files say for all sections. -/
def everywhere (owns : List Ini) : Section := owns.flatMap (·.defaults)

/-- What the files say together under one spelling: the last mention in the section counts, and
without one the last mention for all sections. Where no file has the section, nothing is said. -/
def said? (owns : List Ini) (program option : String) : Option String :=
  if owns.any (·.hasSection program) then
    ((mentions owns program).reverse.lookup option).or ((everywhere owns).reverse.lookup option)
  else none

/-- The spelling of a name that was mentioned first after all other ones. -/
def latestSpelling? (owns : List Ini) (program name : String) : Option String :=
  ((Text.dedup ((mentions owns program ++ everywhere owns).map (·.1))).filter
    (isSpelled name)).getLast?

/-- The last option with this name in either spelling, and its value. -/
def lastMention? (owns : List Ini) (program name : String) : Option (String × String) :=
  (mentions owns program).reverse.find? fun e => isSpelled name e.1

structure Merged (owns : List Ini) (ini : Ini) : Prop where
  plain : ∀ own ∈ owns, own.Plain
  part : ∀ n, ini.part n = Entries.putAll (owns.flatMap (·.part n)) []
  hasSection : ∀ n, ini.hasSection n = owns.any (·.hasSection n)

theorem exists_merged {t : FileTree} {files : List String} {owns : List Ini}
    (h : List.Forall₂ (Says t) files owns) :
    ∃ ini, Finder.readFiles t {} [] files = .ok (ini, files) ∧ Merged owns ini := by
  obtain ⟨hplain, ini, hread, hpart, hhas⟩ := readFiles_says h Ini.trimmed_empty []
  exact ⟨ini, hread, hplain, fun n => Ini.part_empty n ▸ hpart n, hhas⟩

section Merged

variable {owns : List Ini} {ini : Ini} {program name option : String}

theorem Merged.ne_default (h : Merged owns ini) (hsection : ini.hasSection program = true) :
    program ≠ defaultSection := by
  rintro rfl
  rw [h.hasSection, List.any_eq_true] at hsection
  obtain ⟨own, hown, hhas⟩ := hsection
  rw [(h.plain own hown).noDefault] at hhas
  cases hhas

theorem Merged.lookup_sections (h : Merged owns ini) (hsection : ini.hasSection program = true) :
    ini.sections.lookup program = some (Entries.putAll (mentions owns program) []) := by
  have hne := h.ne_default hsection
  obtain ⟨s, hs⟩ := Option.isSome_iff_exists.mp hsection
  have hpart := h.part program
  rw [Ini.part, if_neg hne, hs, Option.getD_some] at hpart
  rw [hs, hpart, mentions]
  refine congrArg (fun entries => some (Entries.putAll entries [])) (List.flatMap_congr fun own _ => ?_)
  exact if_neg hne

theorem Merged.part_default (h : Merged owns ini) :
    ini.defaults = Entries.putAll (everywhere owns) [] := h.part defaultSection

theorem Merged.lower (h : Merged owns ini) (hsection : ini.hasSection program = true) :
    ∀ e ∈ mentions owns program ++ everywhere owns, Text.lower e.1 = e.1 := by
  have hpart : ∀ own ∈ owns, ∀ n, ∀ e ∈ own.part n, Text.lower e.1 = e.1 := by
    intro own hown n e he
    exact ((h.plain own hown).listed n).names e.1 (List.mem_map.mpr ⟨e, he, rfl⟩)
  refine List.forall_mem_append.mpr ⟨fun e he => ?_, fun e he => ?_⟩
  · obtain ⟨own, hown, he⟩ := List.mem_flatMap.mp he
    refine hpart own hown program e ?_
    rw [Ini.part, if_neg (h.ne_default hsection)]
    exact he
  · obtain ⟨own, hown, he⟩ := List.mem_flatMap.mp he
    exact hpart own hown defaultSection e he

theorem Merged.options (h : Merged owns ini) (hsection : ini.hasSection program = true) :
    ini.options program = Text.dedup ((mentions owns program ++ everywhere owns).map (·.1)) := by
  have hnames : ∀ entries : Section,
      (Entries.putAll entries []).map (·.1) = Text.dedup (entries.map (·.1)) := by
    intro entries
    rw [Entries.map_fst_putAll, Text.dedup_eq_foldl]
    rfl
  rw [Ini.options, h.lookup_sections hsection, h.part_default, List.map_append, Text.dedup_append,
    ← hnames, ← hnames]
  refine congrArg (_ ++ ·) (List.filter_congr fun option _ => ?_)
  rw [Entries.has, decide_not, Bool.not_inj_iff, eq_comm, Bool.eq_iff_iff, decide_eq_true_iff]
  exact Entries.isSome_lookup_iff.symm

theorem Merged.get? (h : Merged owns ini) (hsection : ini.hasSection program = true)
    (hlower : Text.lower option = option) :
    ini.get? program option = said? owns program option := by
  rw [Ini.get?, h.lookup_sections hsection, h.part_default, said?, ← h.hasSection, if_pos hsection]
  simp only [hlower, Entries.lookup_putAll, List.lookup_nil, Option.or_none]

theorem isSome_said?_iff (hsection : owns.any (·.hasSection program) = true) :
    (said? owns program option).isSome = true ↔
      option ∈ (mentions owns program ++ everywhere owns).map (·.1) := by
  rw [said?, if_pos hsection, Option.isSome_or, Bool.or_eq_true, Entries.isSome_lookup_iff,
    Entries.isSome_lookup_iff, List.map_reverse, List.map_reverse, List.mem_reverse,
    List.mem_reverse, ← List.mem_append, ← List.map_append]

theorem options_of_no_section (hsection : ini.hasSection program = false) :
    ini.options program = [] := by
  have hnone : ini.sections.lookup program = none := by
    cases hlookup : ini.sections.lookup program with
    | none => rfl
    | some s =>
      rw [Ini.hasSection, Entries.has, hlookup] at hsection
      cases hsection
  rw [Ini.options, hnone]

theorem Merged.mem_options_iff (h : Merged owns ini) :
    option ∈ ini.options program ↔ (said? owns program option).isSome = true := by
  cases hsection : ini.hasSection program with
  | false =>
    rw [options_of_no_section hsection, said?, ← h.hasSection, hsection, if_neg Bool.false_ne_true]
    simp
  | true =>
    rw [isSome_said?_iff (h.hasSection program ▸ hsection), h.options hsection, Text.mem_dedup]

theorem Merged.get?_of_mem (h : Merged owns ini) (hoption : option ∈ ini.options program) :
    ini.get? program option = said? owns program option := by
  cases hsection : ini.hasSection program with
  | false =>
    rw [options_of_no_section hsection] at hoption
    cases hoption
  | true =>
    rw [h.options hsection, Text.mem_dedup] at hoption
    obtain ⟨e, he, rfl⟩ := List.mem_map.mp hoption
    exact h.get? hsection (h.lower hsection e he)

theorem getLast?_filterMap {α β : Type} {g : α → Option β} {xs : List α}
    (h : ∀ x ∈ xs, (g x).isSome = true) : (xs.filterMap g).getLast? = xs.getLast?.bind g := by
  induction xs using List.reverseRecOn with
  | nil => rfl
  | append_singleton xs x _ =>
    obtain ⟨y, hy⟩ := Option.isSome_iff_exists.mp (h x (by simp))
    rw [List.filterMap_append, List.filterMap_cons_some hy, List.filterMap_nil,
      List.getLast?_concat, List.getLast?_concat, Option.bind_some, hy]

theorem Merged.written? (h : Merged owns ini) (program name : String) :
    ini.written? program name =
      (latestSpelling? owns program name).bind (said? owns program) := by
  have hget : ∀ option ∈ (ini.options program).filter (isSpelled name),
      ini.get? program option = said? owns program option :=
    fun option hoption => h.get?_of_mem (List.mem_filter.mp hoption).1
  have hsome : ∀ option ∈ (ini.options program).filter (isSpelled name),
      (said? owns program option).isSome = true :=
    fun option hoption => h.mem_options_iff.mp (List.mem_filter.mp hoption).1
  rw [Ini.written?, Ini.writtenAmong, List.filterMap_congr hget, getLast?_filterMap hsome]
  cases hsection : ini.hasSection program with
  | true =>
    rw [h.options hsection]
    rfl
  | false =>
    rw [options_of_no_section hsection, List.filter_nil, List.getLast?_nil]
    cases latestSpelling? owns program name with
    | none => rfl
    | some spelling =>
      rw [Option.bind_some, said?, ← h.hasSection, hsection, if_neg Bool.false_ne_true]
      rfl

theorem said?_of_lastMention? {spelling s : String}
    (hlast : lastMention? owns program name = some (spelling, s)) :
    said? owns program spelling = some s := by
  have hsection : owns.any (·.hasSection program) = true := by
    obtain ⟨own, hown, hmem⟩ := List.mem_flatMap.mp (List.mem_reverse.mp (List.mem_of_find?_eq_some hlast))
    refine List.any_eq_true.mpr ⟨own, hown, ?_⟩
    rw [Ini.hasSection, Entries.has]
    cases hlookup : own.sections.lookup program with
    | none =>
      rw [hlookup] at hmem
      cases hmem
    | some entries => rfl
  have hfind : ∀ entries : Section, (entries.find? fun e => isSpelled name e.1) = some (spelling, s) →
      entries.lookup spelling = some s := by
    intro entries hfound
    induction entries with
    | nil => cases hfound
    | cons e rest ih =>
      rw [List.find?_cons] at hfound
      split at hfound
      · cases hfound
        exact List.lookup_cons_self
      · rename_i hother
        have hne : spelling ≠ e.1 := by
          rintro rfl
          have hspelled := List.find?_some hfound
          rw [hother] at hspelled
          cases hspelled
        rw [List.lookup_cons, beq_eq_false_iff_ne.mpr hne]
        exact ih hfound
  rw [said?, if_pos hsection, hfind _ hlast, Option.some_or]

theorem latestSpelling?_of_unique {spelling : String}
    (hmem : spelling ∈ (mentions owns program ++ everywhere owns).map (·.1))
    (hspelled : isSpelled name spelling = true)
    (hsame : ∀ e ∈ mentions owns program ++ everywhere owns, isSpelled name e.1 = true →
      e.1 = spelling) : latestSpelling? owns program name = some spelling := by
  rw [latestSpelling?]
  have hlisted : spelling ∈ (Text.dedup ((mentions owns program ++ everywhere owns).map (·.1))).filter
      (isSpelled name) :=
    List.mem_filter.mpr ⟨(Text.mem_dedup _).mpr hmem, hspelled⟩
  cases hlast : ((Text.dedup ((mentions owns program ++ everywhere owns).map (·.1))).filter
      (isSpelled name)).getLast? with
  | none =>
    rw [List.getLast?_eq_none_iff.mp hlast] at hlisted
    cases hlisted
  | some other =>
    obtain ⟨hother, hspelled⟩ := List.mem_filter.mp (List.mem_of_getLast? hlast)
    obtain ⟨e, he, rfl⟩ := List.mem_map.mp ((Text.mem_dedup _).mp hother)
    rw [hsame e he hspelled]

end Merged

/-- If all files of a project can be read, its values can be read exactly if all that the files say
for registered options can. An option then has what the files say in the spelling that was mentioned
first after the other one. This is the last mention if that is spelled so, and so if all mentions
are spelled alike. -/
theorem localValues_latest_spelling {r : Registry} (hr : r.Built) {t : FileTree} {f : Finder}
    (hfresh : f.localConfigs = none) {owns : List Ini}
    (hfiles : List.Forall₂ (Says t) (f.projectFiles t) owns) :
    ((∃ found, (((localValues r).run t).run f).1 = .ok found) ↔
      ∀ d name option s, Known r d name → isSpelled name option = true →
        said? owns r.program option = some s →
        ∃ v, valueOf d t.cwd (f.projectDirectory t) s = .ok v) ∧
    ∀ found, (((localValues r).run t).run f).1 = .ok found → ∀ d name, Known r d name →
      (found.lookup name).map .ok =
        ((latestSpelling? owns r.program name).bind (said? owns r.program)).map
          (valueOf d t.cwd (f.projectDirectory t)) ∧
      ∀ spelling s, lastMention? owns r.program name = some (spelling, s) →
        (latestSpelling? owns r.program name = some spelling ∨
          ∀ e ∈ mentions owns r.program ++ everywhere owns,
            isSpelled name e.1 = true → e.1 = spelling) →
        (found.lookup name).map .ok = some (valueOf d t.cwd (f.projectDirectory t) s) := by
  obtain ⟨ini, hread, hmerged⟩ := exists_merged hfiles
  have hinis : f.projectInis t = .ok (ini, f.projectFiles t) := by
    rw [Finder.projectInis, hfresh]
    exact hread
  have hrun : (((localValues r).run t).run f).1 =
      sectionValues r ini t.cwd (f.projectDirectory t) := by
    rw [run_localValues, hinis]
    rfl
  rw [hrun]
  refine ⟨exists_sectionValues_iff.trans ⟨fun h => ?_, fun h => ?_⟩, fun found hfound d name hd => ?_⟩
  · intro d name option s hd hspelled hsaid
    have hmem : option ∈ ini.options r.program := by
      rw [hmerged.mem_options_iff, hsaid]
      rfl
    refine h option hmem d s (hd.lookup_configOptions hr.sound hspelled) ?_
    rw [hmerged.get?_of_mem hmem, hsaid]
  · intro option hmem d s hd hs
    obtain ⟨name, hknown, hspelled⟩ := exists_known hr.sound hd
    rw [hmerged.get?_of_mem hmem] at hs
    exact h d name option s hknown hspelled hs
  · have hlookup := lookup_sectionValues hr.sound hd hfound
    rw [hmerged.written?] at hlookup
    refine ⟨hlookup, fun spelling s hlast hspelling => ?_⟩
    have hsaid := said?_of_lastMention? hlast
    have hlatest : latestSpelling? owns r.program name = some spelling := by
      rcases hspelling with hlatest | hsame
      · exact hlatest
      · have hspelled : isSpelled name spelling = true :=
          List.find?_some (p := fun e : String × String => isSpelled name e.1) hlast
        refine latestSpelling?_of_unique ?_ hspelled hsame
        have hmem := List.mem_reverse.mp (List.mem_of_find?_eq_some hlast)
        exact List.mem_map.mpr ⟨_, List.mem_append_left _ hmem, rfl⟩
    rw [hlookup, hlatest, Option.bind_some, hsaid, Option.map_some]

def limiting : Declaration :=
  { long := .text "--max-n", dest := .text "max_n", type := .text "int", fromConfig := true }

def alone (file written : String) : Ini := (Ini.read {} file written.toList).1

def threeFiles (setup tox own : String) : FileTree where
  cwd := "/p"
  root := .directory [("p", .directory
    [("setup.cfg", .ofBytes (setup.toList.map fun c => UInt8.ofNat c.toNat)),
      ("tox.ini", .ofBytes (tox.toList.map fun c => UInt8.ofNat c.toNat)),
      (".flake8", .ofBytes (own.toList.map fun c => UInt8.ofNat c.toNat))])]

def threeFinder : Finder :=
  { program := "flake8", extraFiles := [], userDirectory := "/h", localDirectory := "/p",
    parent := "/p" }

theorem says_alone {t : FileTree} {file written : String}
    (h : (t.read file).toOption.bind Source.decodeUtf8 = some written.toList)
    (hplain : (Ini.read {} file written.toList).2.isNone = true) :
    Says t file (alone file written) := by
  obtain ⟨bytes, hread, hdecode⟩ := Option.bind_eq_some_iff.mp h
  exact ⟨bytes, written.toList, eq_ok_of_toOption hread, hdecode,
    Prod.ext rfl (Option.isNone_iff_eq_none.mp hplain)⟩

def givenIn (t : FileTree) (name : String) : Option (Option Value) :=
  (Registry.ofOptions [limiting]).toOption.bind fun r =>
    (((localValues r).run t).run threeFinder).1.toOption.map (·.lookup name)

theorem exists_givenIn {t : FileTree} {name : String} {v : Option Value}
    (h : givenIn t name = some v) : ∃ r found, Registry.ofOptions [limiting] = .ok r ∧
      (((localValues r).run t).run threeFinder).1 = .ok found ∧ found.lookup name = v := by
  obtain ⟨r, hr, h⟩ := Option.bind_eq_some_iff.mp h
  obtain ⟨found, hfound, hv⟩ := Option.map_eq_some_iff.mp h
  exact ⟨r, found, eq_ok_of_toOption hr, eq_ok_of_toOption hfound, hv⟩

theorem known_limiting {r : Registry} (hr : Registry.ofOptions [limiting] = .ok r) :
    Known r limiting "max_n" := by
  obtain ⟨r', hadd, hsame⟩ := bind_ok hr
  cases hsame
  have hname : limiting.configName = some "max_n" := by decide +kernel
  exact ⟨hname, Registry.lookup_configOptions_add hadd hname⟩

theorem program_limiting {r : Registry} (hr : Registry.ofOptions [limiting] = .ok r) :
    r.program = "flake8" := by
  have hprogram : (Registry.ofOptions [limiting]).toOption.map (·.program) = some "flake8" := by
    decide +kernel
  rw [hr] at hprogram
  exact Option.some.inj hprogram

def settledSpelling : FileTree :=
  threeFiles "[flake8]\nmax-n=3" "[flake8]\nmax_n=2" "[flake8]\nmax_n=1"

/-- The last file spells the option as the file before it, which was the first to spell it so. -/
theorem localValues_latest_spelling_last :
    ∃ r found, Registry.ofOptions [limiting] = .ok r ∧
      (((localValues r).run settledSpelling).run threeFinder).1 = .ok found ∧
      (found.lookup "max_n").map .ok = some (valueOf limiting "/p" "/p" "1") := by
  have hgiven : givenIn settledSpelling "max_n" = some (some (.int 1)) := by
    decide +kernel
  obtain ⟨r, found, hr, hfound, -⟩ := exists_givenIn hgiven
  have hpaths : threeFinder.projectFiles settledSpelling =
      ["/p/setup.cfg", "/p/tox.ini", "/p/.flake8"] := by
    decide +kernel
  have hdirectory : threeFinder.projectDirectory settledSpelling = "/p" := by decide +kernel
  have hfiles : List.Forall₂ (Says settledSpelling) (threeFinder.projectFiles settledSpelling)
      [alone "/p/setup.cfg" "[flake8]\nmax-n=3", alone "/p/tox.ini" "[flake8]\nmax_n=2",
        alone "/p/.flake8" "[flake8]\nmax_n=1"] := by
    rw [hpaths]
    refine .cons (says_alone ?_ ?_) (.cons (says_alone ?_ ?_) (.cons (says_alone ?_ ?_) .nil)) <;>
      decide +kernel
  have hmain := (localValues_latest_spelling (Registry.built_ofOptions hr) rfl hfiles).2 found hfound
    limiting "max_n" (known_limiting hr)
  rw [hdirectory, program_limiting hr] at hmain
  exact ⟨r, found, hr, hfound, hmain.2 "max_n" "1" (by decide +kernel)
    (.inl (by decide +kernel))⟩

/-- The last file speaks in the spelling of the first, and the one in between counts. -/
theorem localValues_misses_last :
    ∃ r found, Registry.ofOptions [limiting] = .ok r ∧
      (((localValues r).run (threeFiles "[flake8]\nmax-n=3" "[flake8]\nmax_n=2"
        "[flake8]\nmax-n=1")).run threeFinder).1 = .ok found ∧
      found.lookup "max_n" = some (.int 2) :=
  exists_givenIn (by decide +kernel)

end Config

end LintRunner
