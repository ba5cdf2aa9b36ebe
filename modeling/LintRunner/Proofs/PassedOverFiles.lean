import LintRunner.Proofs.LatestSpelling
import Mathlib.Data.List.Forall2

/-!
# Files that are passed over

A configuration file with bad lines is not counted among the files that were read, but its other
lines have been stored by then. So the configuration is what all files say together, and it is what
the counted files say only if whatever the other ones say was said before by a counted file, or is
said again by a later file.
-/

namespace LintRunner.Config

open Stateful Finder

/-- What a file brings: what it says alone, and itself unless it is passed over. -/
def brought (t : FileTree) (file : String) : Except Fault (Ini × List String) :=
  readFiles t {} [] [file]

/-- A configuration and a list of files are what several files bring to a base. -/
structure Gathered (base : Ini) (read : List String) (owns : List (Ini × List String))
    (result : Ini × List String) : Prop where
  plain : ∀ own ∈ owns, own.1.Plain
  trimmed : result.1.Trimmed
  part : ∀ n, result.1.part n = Entries.putAll (owns.flatMap (·.1.part n)) (base.part n)
  hasSection : ∀ n, result.1.hasSection n = (base.hasSection n || owns.any (·.1.hasSection n))
  found : result.2 = read ++ owns.flatMap (·.2)

variable {t : FileTree} {base : Ini} {read : List String}

theorem Gathered.nil (hbase : base.Trimmed) (read : List String) :
    Gathered base read [] (base, read) where
  plain := List.forall_mem_nil _
  trimmed := hbase
  part := fun _ => rfl
  hasSection := fun _ => (Bool.or_false _).symm
  found := by simp

theorem Gathered.append {owns more : List (Ini × List String)} {middle result : Ini × List String}
    (h : Gathered base read owns middle) (h' : Gathered middle.1 middle.2 more result) :
    Gathered base read (owns ++ more) result where
  plain := List.forall_mem_append.mpr ⟨h.plain, h'.plain⟩
  trimmed := h'.trimmed
  part := fun n => by
    rw [h'.part, h.part, List.flatMap_append, Entries.putAll_append]
  hasSection := fun n => by
    rw [h'.hasSection, h.hasSection, List.any_append, Bool.or_assoc]
  found := by
    rw [h'.found, h.found, List.flatMap_append, List.append_assoc]

theorem readFiles_one (hbase : base.Trimmed) (read : List String) (file : String) :
    Alike (fun own result => Gathered base read [own] result) (brought t file)
      (readFiles t base read [file]) := by
  have hnothing : Gathered base read [({}, [])] (base, read) := by
    refine ⟨by simp [Ini.plain_empty], hbase, fun n => ?_, fun n => ?_, ?_⟩
    · simp [Entries.putAll]
    · simp [Ini.hasSection, Entries.has]
    · simp
  simp only [brought, readFiles]
  cases t.read file with
  | error f => exact .ite .rfl (fun _ => .ok hnothing) fun _ => .error f
  | ok bytes =>
    dsimp only
    cases Source.decodeUtf8 bytes with
    | none => exact .ok hnothing
    | some text =>
      obtain ⟨hplain, hfault, hover, htrimmed⟩ := Ini.read_over hbase file text
      dsimp only
      generalize Ini.read {} file text = alone at hplain hfault hover ⊢
      generalize base.read file text = joint at hfault hover htrimmed ⊢
      obtain ⟨own, _⟩ := alone
      obtain ⟨ini, fault⟩ := joint
      obtain rfl := hfault
      have hgathered : ∀ mine, Gathered base read [(own, mine)] (ini, read ++ mine) := by
        intro mine
        refine ⟨by simpa using hplain, htrimmed, fun n => ?_, fun n => ?_, ?_⟩
        · simpa using hover.part n
        · simpa using hover.hasSection n
        · simp
      cases fault with
      | none => exact .ok (hgathered [file])
      | some f =>
        refine .ite .rfl (fun _ => .ok ?_) fun _ => .error f
        simpa using hgathered []

theorem readFiles_cons (t : FileTree) (base : Ini) (read : List String) (file : String)
    (rest : List String) : readFiles t base read (file :: rest) =
      readFiles t base read [file] >>= fun result => readFiles t result.1 result.2 rest := by
  rw [readFiles, readFiles]
  cases t.read file with
  | error f =>
    dsimp only
    split <;> rfl
  | ok bytes =>
    dsimp only
    cases Source.decodeUtf8 bytes with
    | none => rfl
    | some text =>
      dsimp only
      rcases base.read file text with ⟨ini, _ | f⟩
      · rfl
      · dsimp only
        split <;> rfl

theorem readFiles_alike (hbase : base.Trimmed) (read files : List String) :
    Alike (Gathered base read) (files.mapM (brought t)) (readFiles t base read files) := by
  induction files generalizing base read with
  | nil => exact .ok (.nil hbase read)
  | cons file rest ih =>
    rw [readFiles_cons, List.mapM_cons]
    refine .bind (readFiles_one hbase read file) fun own middle hown => ?_
    have hrest := ih hown.trimmed middle.2
    rw [← bind_pure (readFiles t middle.1 middle.2 rest)]
    refine .bind hrest fun owns result howns => .ok ?_
    exact hown.append howns

def counted (own : Ini × List String) : Bool := !own.2.isEmpty

/-- What a text says alone, with its bad lines left out, and the file itself unless it has any. A file
that cannot be opened brings nothing. -/
def Brings (t : FileTree) (file : String) (own : Ini × List String) : Prop :=
  (∃ e, t.read file = .error e) ∧ own = ({}, []) ∨
    ∃ bytes text fault, t.read file = .ok bytes ∧ Source.decodeUtf8 bytes = some text ∧
      Ini.read {} file text = (own.1, fault) ∧ own.2 = if fault.isNone then [file] else []

theorem Brings.found {file : String} {own : Ini × List String} (h : Brings t file own) :
    own.2 = [] ∨ own.2 = [file] := by
  rcases h with ⟨-, rfl⟩ | ⟨_, _, fault, -, -, -, hfound⟩
  · exact .inl rfl
  · rw [hfound]
    cases fault with
    | none => exact .inr rfl
    | some f => exact .inl rfl

/-- The files that can be opened are texts. -/
def AllDecode (t : FileTree) (files : List String) : Prop :=
  ∀ file ∈ files, ∀ bytes, t.read file = .ok bytes → (Source.decodeUtf8 bytes).isSome = true

theorem brings_of_brought {file : String} {own : Ini × List String}
    (hdecodes : ∀ bytes, t.read file = .ok bytes → (Source.decodeUtf8 bytes).isSome = true)
    (h : brought t file = .ok own) : Brings t file own := by
  simp only [brought, readFiles] at h
  cases hread : t.read file with
  | error e =>
    rw [hread] at h
    dsimp only at h
    split at h <;> cases h
    exact .inl ⟨⟨e, hread⟩, rfl⟩
  | ok bytes =>
    obtain ⟨text, htext⟩ := Option.isSome_iff_exists.mp (hdecodes bytes hread)
    rw [hread] at h
    dsimp only at h
    rw [htext] at h
    dsimp only at h
    refine .inr ⟨bytes, text, ?_⟩
    rcases hini : Ini.read {} file text with ⟨ini, _ | f⟩ <;> rw [hini] at h <;> dsimp only at h
    · cases h
      exact ⟨none, hread, htext, rfl, rfl⟩
    · split at h <;> cases h
      exact ⟨some f, hread, htext, rfl, rfl⟩

theorem flatMap_counted (owns : List (Ini × List String)) :
    (owns.filter counted).flatMap (·.2) = owns.flatMap (·.2) := by
  induction owns with
  | nil => rfl
  | cons own rest ih =>
    obtain ⟨ini, found⟩ := own
    cases found <;> simp [counted, ih]

theorem forall₂_brought {files : List String} {owns : List (Ini × List String)}
    (hdecode : AllDecode t files) (h : files.mapM (brought t) = .ok owns) :
    List.Forall₂ (fun file own => brought t file = .ok own ∧ Brings t file own) files owns := by
  induction files generalizing owns with
  | nil =>
    cases h
    exact .nil
  | cons file rest ih =>
    rw [List.mapM_cons] at h
    obtain ⟨own, hown, h⟩ := bind_ok h
    obtain ⟨more, hmore, h⟩ := bind_ok h
    cases h
    obtain ⟨hfile, hrest⟩ := List.forall_mem_cons.mp hdecode
    exact .cons ⟨hown, brings_of_brought hfile hown⟩ (ih hrest hmore)

theorem mapM_brought_counted {files : List String} {owns : List (Ini × List String)}
    (h : List.Forall₂ (fun file own => brought t file = .ok own ∧ Brings t file own) files owns) :
    (owns.flatMap (·.2)).mapM (brought t) = .ok (owns.filter counted) := by
  induction h with
  | nil => rfl
  | cons hfirst _ ih =>
    obtain ⟨hown, hbrings⟩ := hfirst
    rcases hbrings.found with hfound | hfound
    · simpa [counted, hfound] using ih
    · rw [List.flatMap_cons, hfound, List.singleton_append, List.mapM_cons, hown, ih]
      simp [counted, hfound, bind, Except.bind, pure, Except.pure]

variable {owns : List (Ini × List String)} {result result' : Ini × List String} {n option : String}

/-- The value that the last file gives that has one. -/
def latest (owns : List (Ini × List String)) (n option : String) : Option String :=
  owns.reverse.findSome? fun own => (own.1.part n).lookup option

theorem latest_append (owns more : List (Ini × List String)) (n option : String) :
    latest (owns ++ more) n option = (latest more n option).or (latest owns n option) := by
  simp [latest, List.findSome?_append]

theorem latest_singleton (own : Ini × List String) (n option : String) :
    latest [own] n option = (own.1.part n).lookup option := by
  simp [latest]

theorem latest_cons (own : Ini × List String) (rest : List (Ini × List String))
    (n option : String) :
    latest (own :: rest) n option = (latest rest n option).or ((own.1.part n).lookup option) := by
  rw [← List.singleton_append, latest_append, latest_singleton]

theorem latest_eq_none (h : ∀ own ∈ owns, (own.1.part n).lookup option = none) :
    latest owns n option = none := by
  simpa [latest] using h

theorem Gathered.lookup (h : Gathered {} [] owns result) (n option : String) :
    (result.1.part n).lookup option = latest owns n option := by
  have hplain := h.plain
  rw [h.part, Ini.part_empty, Entries.lookup_putAll, List.lookup_nil, Option.or_none]
  clear h
  induction owns with
  | nil => rfl
  | cons own rest ih =>
    obtain ⟨hown, hrest⟩ := List.forall_mem_cons.mp hplain
    rw [List.flatMap_cons, List.reverse_append, List.lookup_append, ih hrest,
      Entries.lookup_reverse (hown.listed n).nodup, latest_cons]

/-- What files that are passed over say last for an option was said last by the counted ones before
them. -/
def Repeats (owns : List (Ini × List String)) (n option : String) : Prop :=
  ∀ before own after v, owns = before ++ own :: after → counted own = false →
    (own.1.part n).lookup option = some v →
    (∀ later ∈ after, (later.1.part n).lookup option = none) →
    latest (before.filter counted) n option = some v

theorem latest_counted_iff (owns : List (Ini × List String)) (n option : String) :
    latest owns n option = latest (owns.filter counted) n option ↔ Repeats owns n option := by
  constructor
  · rintro h before own after v rfl hown hv hafter
    have hnone : ∀ later ∈ after.filter counted, (later.1.part n).lookup option = none :=
      fun later hlater => hafter later (List.mem_filter.mp hlater).1
    simpa [latest_append, latest_cons, latest_eq_none hafter, latest_eq_none hnone, hown, hv,
      eq_comm] using h
  · intro h
    induction owns using List.reverseRecOn with
    | nil => rfl
    | append_singleton owns own ih =>
      rw [latest_append, List.filter_append, latest_append, latest_singleton]
      cases hv : (own.1.part n).lookup option with
      | some v =>
        cases hown : counted own with
        | true => simp [hown, latest_singleton, hv]
        | false =>
          have hbefore := h owns own [] v rfl hown hv (List.forall_mem_nil _)
          simpa [hown, latest] using hbefore.symm
      | none =>
        have howns : Repeats owns n option := by
          rintro before other after v rfl hother hv' hafter
          apply h before other (after ++ [own]) v (by simp) hother hv'
          exact List.forall_mem_append.mpr ⟨hafter, List.forall_mem_singleton.mpr hv⟩
        cases hown : counted own with
        | true => simpa [hown, latest_singleton, hv] using ih howns
        | false => simpa [hown, latest] using ih howns

/-- The same sections, with the same values in them. -/
structure Ini.SameContents (ini ini' : Ini) : Prop where
  sections : ∀ n, ini.hasSection n = ini'.hasSection n
  values : ∀ n option, (ini.part n).lookup option = (ini'.part n).lookup option

/-- What the files say that are passed over makes no difference: their sections are those of counted
files, and their values repeat what counted files said, unless a later file speaks of the option. -/
structure Idle (owns : List (Ini × List String)) : Prop where
  sections : ∀ own ∈ owns, counted own = false → ∀ n, own.1.hasSection n = true →
    ∃ other ∈ owns, counted other = true ∧ other.1.hasSection n = true
  values : ∀ n option, Repeats owns n option

theorem any_counted_iff (owns : List (Ini × List String)) (n : String) :
    (owns.any (·.1.hasSection n) = (owns.filter counted).any (·.1.hasSection n)) ↔
      ∀ own ∈ owns, counted own = false → own.1.hasSection n = true →
        ∃ other ∈ owns, counted other = true ∧ other.1.hasSection n = true := by
  rw [Bool.eq_iff_iff]
  simp only [List.any_eq_true, List.mem_filter]
  constructor
  · rintro h own hown - hn
    obtain ⟨other, ⟨hother, hcounted⟩, hn⟩ := h.mp ⟨own, hown, hn⟩
    exact ⟨other, hother, hcounted, hn⟩
  · intro h
    constructor
    · rintro ⟨own, hown, hn⟩
      cases hcounted : counted own with
      | true => exact ⟨own, ⟨hown, hcounted⟩, hn⟩
      | false =>
        obtain ⟨other, hother, hcounted, hn⟩ := h own hown hcounted hn
        exact ⟨other, ⟨hother, hcounted⟩, hn⟩
    · rintro ⟨own, ⟨hown, -⟩, hn⟩
      exact ⟨own, hown, hn⟩

theorem sameContents_iff (h : Gathered {} [] owns result)
    (h' : Gathered {} [] (owns.filter counted) result') :
    result.1.SameContents result'.1 ↔ Idle owns := by
  have hsections : ∀ n, result.1.hasSection n = result'.1.hasSection n ↔
      (owns.any (·.1.hasSection n) = (owns.filter counted).any (·.1.hasSection n)) := by
    intro n
    rw [h.hasSection, h'.hasSection]
    rfl
  constructor
  · rintro ⟨hsame, hvalues⟩
    refine ⟨fun own hown hcounted n => ?_, fun n option => ?_⟩
    · exact (any_counted_iff owns n).mp ((hsections n).mp (hsame n)) own hown hcounted
    · apply (latest_counted_iff owns n option).mp
      rw [← h.lookup, ← h'.lookup]
      exact hvalues n option
  · rintro ⟨hsame, hvalues⟩
    refine ⟨fun n => ?_, fun n option => ?_⟩
    · apply (hsections n).mpr
      exact (any_counted_iff owns n).mpr fun own hown hcounted => hsame own hown hcounted n
    · rw [h.lookup, h'.lookup]
      exact (latest_counted_iff owns n option).mpr (hvalues n option)

/-- If reading files succeeds and those that can be opened are texts, the files that are counted can be
read once more by themselves. The configuration has for each option what the last file says that
speaks of it, also one that is passed over. It is the configuration of the counted files exactly if
the others make no difference. -/
theorem readAll_holds_counted_iff {files found : List String} {ini : Ini} {f f' : Finder}
    (hdecode : AllDecode t files) (h : ((readAll files).run t).run f = (.ok (ini, found), f')) :
    ∃ owns, List.Forall₂ (Brings t) files owns ∧ found = owns.flatMap (·.2) ∧
      (∀ n option, (ini.part n).lookup option = latest owns n option) ∧
      ∃ ini', ((readAll found).run t).run f = (.ok (ini', found), f) ∧
        (ini.SameContents ini' ↔ Idle owns) := by
  rw [run_readAll] at h
  obtain ⟨hread, rfl⟩ := Prod.mk.inj h
  have halike := readFiles_alike (t := t) Ini.trimmed_empty [] files
  rw [hread] at halike
  cases hbrought : files.mapM (brought t) with
  | error e =>
    rw [hbrought] at halike
    cases halike
  | ok owns =>
    rw [hbrought] at halike
    cases halike with
    | ok hgathered =>
      have hfound : found = owns.flatMap (·.2) := hgathered.found
      have hall := forall₂_brought hdecode hbrought
      have halike' := readFiles_alike (t := t) Ini.trimmed_empty [] found
      rw [hfound, mapM_brought_counted hall, ← hfound] at halike'
      obtain ⟨⟨ini', found'⟩, hread', hgathered'⟩ := halike'.ok_right rfl
      have hsame : found' = found := by
        rw [hfound, ← flatMap_counted]
        exact hgathered'.found
      subst hsame
      refine ⟨owns, hall.imp fun _ _ h => h.2, hfound, hgathered.lookup, ini', ?_,
        sameContents_iff hgathered hgathered'⟩
      rw [run_readAll, hread']

theorem readFiles_eq_ok {files found : List String} {sections : List (String × Section)}
    {defaults : Section}
    (h : (readFiles t {} [] files).toOption.map (fun r => (r.1.sections, r.1.defaults, r.2)) =
      some (sections, defaults, found)) :
    readFiles t {} [] files = .ok (⟨sections, defaults⟩, found) := by
  obtain ⟨⟨ini, files'⟩, hread, hparts⟩ := Option.map_eq_some_iff.mp h
  cases hparts
  exact eq_ok_of_toOption hread

/-- A file with a bad line, and one that overrules what it says. -/
def overruling : FileTree := threeFiles "[flake8]\na=1\nbad" "[flake8]\na=2" ""

theorem readAll_holds_counted_overruled :
    ∃ ini owns, ((readAll ["/p/setup.cfg", "/p/tox.ini"]).run overruling).run threeFinder =
        (.ok (ini, ["/p/tox.ini"]), threeFinder) ∧
      List.Forall₂ (Brings overruling) ["/p/setup.cfg", "/p/tox.ini"] owns ∧ Idle owns := by
  have hboth : readFiles overruling {} [] ["/p/setup.cfg", "/p/tox.ini"] =
      .ok (⟨[("flake8", [("a", "2")])], []⟩, ["/p/tox.ini"]) :=
    readFiles_eq_ok (by decide +kernel)
  have hlast : readFiles overruling {} [] ["/p/tox.ini"] =
      .ok (⟨[("flake8", [("a", "2")])], []⟩, ["/p/tox.ini"]) :=
    readFiles_eq_ok (by decide +kernel)
  have hrun : ((readAll ["/p/setup.cfg", "/p/tox.ini"]).run overruling).run threeFinder =
      (.ok (⟨[("flake8", [("a", "2")])], []⟩, ["/p/tox.ini"]), threeFinder) := by
    rw [run_readAll, hboth]
  have hdecode : AllDecode overruling ["/p/setup.cfg", "/p/tox.ini"] := by
    have htexts : ∀ file ∈ ["/p/setup.cfg", "/p/tox.ini"],
        ((overruling.read file).toOption.bind Source.decodeUtf8).isSome = true := by
      decide +kernel
    intro file hfile bytes hread
    have htext := htexts file hfile
    rwa [hread] at htext
  obtain ⟨owns, howns, -, -, ini', hagain, hiff⟩ := readAll_holds_counted_iff hdecode hrun
  rw [run_readAll, hlast] at hagain
  cases hagain
  exact ⟨_, owns, hrun, howns, hiff.mp ⟨fun _ => rfl, fun _ _ => rfl⟩⟩

/-- No file is counted, but there is a section with a value. -/
theorem readAll_keeps_passed_over :
    ∃ ini ini', ((readAll ["/p/setup.cfg"]).run overruling).run threeFinder =
        (.ok (ini, []), threeFinder) ∧
      ((readAll []).run overruling).run threeFinder = (.ok (ini', []), threeFinder) ∧
      ini.get? "flake8" "a" = some "1" ∧ ¬ ini.SameContents ini' := by
  have hread : readFiles overruling {} [] ["/p/setup.cfg"] =
      .ok (⟨[("flake8", [("a", "1")])], []⟩, []) :=
    readFiles_eq_ok (by decide +kernel)
  refine ⟨⟨[("flake8", [("a", "1")])], []⟩, {}, ?_, ?_, by decide +kernel, ?_⟩
  · rw [run_readAll, hread]
  · rw [run_readAll, readFiles]
  · intro hsame
    cases hsame.sections "flake8"

end LintRunner.Config
