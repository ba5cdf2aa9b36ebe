import LintRunner.Proofs.PathNames
import LintRunner.Proofs.RememberedConfiguration
import Mathlib.Logic.Function.Iterate

/-!
# Where a project's configuration is looked for

The search starts at the longest text that all arguments start with, which may end inside a name, and
goes up from there. Where the arguments do not turn back, only the directory that it starts at may
miss one of them.
-/

namespace LintRunner

open Stateful

namespace Text

theorem splitBy_append (sep : Char → Bool) (cs ds : List Char) : ∃ pieces last rest,
    splitBy sep cs = pieces ++ [last] ∧ splitBy sep (cs ++ ds) = pieces ++ rest := by
  induction cs with
  | nil => exact ⟨[], [], splitBy sep ds, rfl, rfl⟩
  | cons c cs ih =>
    obtain ⟨pieces, last, rest, hcs, hwhole⟩ := ih
    rw [List.cons_append, splitBy, splitBy, hcs, hwhole]
    split
    · exact ⟨[] :: pieces, last, rest, rfl, rfl⟩
    · cases pieces with
      | nil => exact ⟨[], c :: last, _, rfl, rfl⟩
      | cons piece pieces => exact ⟨(c :: piece) :: pieces, last, rest, rfl, rfl⟩

end Text

namespace Path

variable {p cwd : String} {ps : List String}

theorem prefix_commonChars (as bs : List Char) :
    commonChars as bs <+: as ∧ commonChars as bs <+: bs := by
  induction as generalizing bs with
  | nil => exact ⟨List.nil_prefix, List.nil_prefix⟩
  | cons a as ih =>
    cases bs with
    | nil => exact ⟨List.nil_prefix, List.nil_prefix⟩
    | cons b bs =>
      rw [commonChars]
      split
      · rename_i hab
        subst hab
        exact ⟨List.cons_prefix_cons.mpr ⟨rfl, (ih bs).1⟩,
          List.cons_prefix_cons.mpr ⟨rfl, (ih bs).2⟩⟩
      · exact ⟨List.nil_prefix, List.nil_prefix⟩

theorem foldl_commonChars_prefix (ps : List String) (cs : List Char) :
    ps.foldl (fun acc q => commonChars acc q.toList) cs <+: cs ∧
      ∀ p ∈ ps, ps.foldl (fun acc q => commonChars acc q.toList) cs <+: p.toList := by
  induction ps generalizing cs with
  | nil => exact ⟨List.prefix_refl cs, List.forall_mem_nil _⟩
  | cons p ps ih =>
    obtain ⟨hcs, hps⟩ := ih (commonChars cs p.toList)
    have hboth := prefix_commonChars cs p.toList
    refine ⟨hcs.trans hboth.1, List.forall_mem_cons.mpr ⟨hcs.trans hboth.2, hps⟩⟩

theorem prefix_commonStart (ps : List String) : ∀ p ∈ ps, (commonStart ps).toList <+: p.toList := by
  cases ps with
  | nil => exact List.forall_mem_nil _
  | cons p ps =>
    obtain ⟨hp, hps⟩ := foldl_commonChars_prefix ps p.toList
    rw [commonStart, String.toList_ofList]
    exact List.forall_mem_cons.mpr ⟨hp, hps⟩

theorem isAbsolute_iff_toList :
    isAbsolute p = true ↔ ∃ cs, p.toList = '/' :: cs := by
  rw [isAbsolute_iff]
  constructor
  · rintro ⟨q, rfl⟩
    exact ⟨q.toList, by simp⟩
  · rintro ⟨cs, hcs⟩
    refine ⟨String.ofList cs, ?_⟩
    rw [← String.toList_inj, hcs]
    simp

theorem isAbsolute_commonStart_of_forall (hne : ps ≠ []) {kind : Bool}
    (h : ∀ p ∈ ps, isAbsolute p = kind) : isAbsolute (commonStart ps) = kind := by
  cases kind with
  | false =>
    obtain ⟨p, hp⟩ := List.exists_mem_of_ne_nil ps hne
    refine Bool.eq_false_iff.mpr fun habsolute => ?_
    obtain ⟨cs, hcs⟩ := isAbsolute_iff_toList.mp habsolute
    obtain ⟨ds, hds⟩ := prefix_commonStart ps p hp
    rw [hcs] at hds
    have hp' := isAbsolute_iff_toList.mpr ⟨cs ++ ds, hds.symm⟩
    rw [h p hp] at hp'
    cases hp'
  | true =>
    have hfold : ∀ qs : List String, (∀ q ∈ qs, isAbsolute q = true) → ∀ cs,
        ∃ ds, qs.foldl (fun acc q => commonChars acc q.toList) ('/' :: cs) = '/' :: ds := by
      intro qs hqs
      induction qs with
      | nil => exact fun cs => ⟨cs, rfl⟩
      | cons q qs ih =>
        intro cs
        obtain ⟨hq, hqs⟩ := List.forall_mem_cons.mp hqs
        obtain ⟨ds, hds⟩ := isAbsolute_iff_toList.mp hq
        rw [List.foldl_cons, hds, commonChars, if_pos rfl]
        exact ih hqs _
    cases ps with
    | nil => exact absurd rfl hne
    | cons p ps =>
      obtain ⟨hp, hps⟩ := List.forall_mem_cons.mp h
      obtain ⟨cs, hcs⟩ := isAbsolute_iff_toList.mp hp
      obtain ⟨ds, hds⟩ := hfold ps hps cs
      refine isAbsolute_iff_toList.mpr ⟨ds, ?_⟩
      rw [commonStart, String.toList_ofList, hcs, hds]

def startNames (cwd p : String) : List String :=
  if isAbsolute p then [] else (names cwd).foldl (step true) []

theorem absoluteNames_eq_foldl (hcwd : isAbsolute cwd = true) (p : String) :
    absoluteNames cwd p = ((parts p).foldl (step true) (startNames cwd p)).reverse := by
  rw [absoluteNames_eq hcwd, ← normalParts_names, normalParts, startNames, ← foldl_step_filter true (parts p)]
  by_cases hp : isAbsolute p = true
  · rw [if_pos hp, join_of_isAbsolute hp]
    rfl
  · rw [if_neg hp, names_join (Bool.eq_false_iff.mpr hp), List.foldl_append]
    rfl

theorem suffix_foldl_step (h : ".." ∉ ps) (seen : List String) :
    seen <:+ ps.foldl (step true) seen := by
  induction ps generalizing seen with
  | nil => exact List.suffix_refl seen
  | cons part ps ih =>
    obtain ⟨hpart, hps⟩ := not_or.mp (mt List.mem_cons.mpr h)
    refine List.IsSuffix.trans ?_ (ih hps _)
    by_cases hempty : (part = "" || part = ".") = true
    · simp only [step_of_empty hempty, List.suffix_refl]
    · rw [step_of_name hempty (Ne.symm hpart)]
      exact List.suffix_cons part seen

theorem tail_step_suffix (seen : List String) (part : String) :
    (step true seen part).tail <:+ seen := by
  unfold step
  split
  · exact List.tail_suffix seen
  · split
    · cases seen with
      | nil => exact List.nil_suffix
      | cons last rest =>
        dsimp only
        split
        · exact List.suffix_refl _
        · exact (List.tail_suffix rest).trans (List.suffix_cons last rest)
    · exact List.suffix_refl seen

/-- The directory of a text that a path starts with lies above the path, unless the path turns
back. -/
theorem prefix_dropLast_absoluteNames {q : String} (hcwd : isAbsolute cwd = true)
    (hpq : p.toList <+: q.toList) (hkind : isAbsolute p = isAbsolute q) (hdots : ".." ∉ parts q) :
    (absoluteNames cwd p).dropLast <+: absoluteNames cwd q := by
  obtain ⟨cs, hcs⟩ := hpq
  obtain ⟨pieces, last, rest, hp, hq⟩ := Text.splitBy_append (· == '/') p.toList cs
  have hparts : parts p = pieces.map String.ofList ++ [String.ofList last] := by
    rw [parts, Text.splitOnChar, hp, List.map_append]
    rfl
  have hparts' : parts q = pieces.map String.ofList ++ rest.map String.ofList := by
    rw [parts, Text.splitOnChar, ← hcs, hq, List.map_append]
  have hfrom : startNames cwd q = startNames cwd p := by rw [startNames, startNames, hkind]
  rw [hparts'] at hdots
  rw [absoluteNames_eq_foldl hcwd, absoluteNames_eq_foldl hcwd, hfrom, hparts, hparts',
    List.foldl_append, List.foldl_append, List.foldl_cons, List.foldl_nil, List.dropLast_reverse]
  refine List.reverse_prefix.mpr ((tail_step_suffix _ _).trans (suffix_foldl_step ?_ _))
  exact fun hmem => hdots (List.mem_append_right _ hmem)

theorem IsNormal.names_dirName (h : IsNormal p) :
    names (Path.dirName p) = (names p).dropLast := by
  rcases h.split_cases with ⟨hnames, hcut⟩ | ⟨ms, n, hnames, hcut⟩
  · have hdir : Path.dirName p = p := (Prod.mk.inj hcut).1
    rw [hdir, hnames]
    rfl
  · have hdir : Path.dirName p = leadingSlashes p ++ Text.joinWith "/" ms := (Prod.mk.inj hcut).1
    have hplain : ∀ m ∈ ms, Plain m := fun m hm => h.plain (hnames ▸ List.mem_append_left [n] hm)
    rw [hdir, hnames, List.dropLast_concat,
      names_lead_append (leadingSlashes_of_isAbsolute h.isAbsolute)]
    exact names_joinWith fun m hm => (hplain m hm).toIsName

theorem IsNormal.iterate_dirName (h : IsNormal p) (k : Nat) :
    IsNormal (Path.dirName^[k] p) := by
  induction k with
  | zero => exact h
  | succ k ih =>
    rw [Function.iterate_succ_apply']
    exact ih.dirName

theorem IsNormal.prefix_names_iterate (h : IsNormal p) (j k : Nat) :
    names (Path.dirName^[j + k] p) <+: names (Path.dirName^[k] p) := by
  induction j with
  | zero =>
    simp only [Nat.zero_add, List.prefix_refl]
  | succ j ih =>
    rw [Nat.succ_add, Function.iterate_succ_apply', (h.iterate_dirName (j + k)).names_dirName]
    exact (List.dropLast_prefix _).trans ih

end Path

namespace Config.Finder

open LintRunner.Path

/-- A directory lies above all the paths or is one of them, once they are resolved. -/
def AboveAll (cwd dir : String) (paths : List String) : Prop :=
  ∀ p ∈ paths, absoluteNames cwd dir <+: absoluteNames cwd p

instance (cwd dir : String) (paths : List String) : Decidable (AboveAll cwd dir paths) :=
  inferInstanceAs (Decidable (∀ p ∈ paths, absoluteNames cwd dir <+: absoluteNames cwd p))

variable {f : Finder} {t : FileTree} {dir : String} {files : List String}

theorem searchFrom_some {found : String} {fuel : Nat}
    (h : f.searchFrom t dir fuel = some (found, files)) :
    ∃ k, found = dirName^[k] dir ∧ files = f.filesIn t found ∧ files ≠ [] ∧
      ∀ j < k, f.filesIn t (dirName^[j] dir) = [] := by
  induction fuel generalizing dir with
  | zero => cases h
  | succ fuel ih =>
    rw [searchFrom] at h
    split at h
    · rename_i hfiles
      cases h
      exact ⟨0, rfl, rfl, hfiles, fun j hj => absurd hj (Nat.not_lt_zero j)⟩
    · rename_i hnone
      split at h
      · cases h
      · obtain ⟨k, hfound, hfiles, hne, hbefore⟩ := ih h
        refine ⟨k + 1, hfound, hfiles, hne, fun j hj => ?_⟩
        cases j with
        | zero => exact not_not.mp hnone
        | succ j => exact hbefore j (Nat.lt_of_succ_lt_succ hj)

section Start

variable {cwd parent : String} {args : List String}

theorem aboveAll_iff_names (hparent : IsNormal parent) (k : Nat) :
    AboveAll cwd (dirName^[k] parent) args ↔
      ∀ a ∈ args, names (dirName^[k] parent) <+: absoluteNames cwd a := by
  rw [AboveAll, (hparent.iterate_dirName k).absoluteNames_eq]

theorem AboveAll.further (hparent : IsNormal parent) {j k : Nat} (hkj : k ≤ j)
    (h : AboveAll cwd (dirName^[k] parent) args) : AboveAll cwd (dirName^[j] parent) args := by
  rw [aboveAll_iff_names hparent] at h ⊢
  intro a ha
  have hup := hparent.prefix_names_iterate (j - k) k
  rw [Nat.sub_add_cancel hkj] at hup
  exact hup.trans (h a ha)

theorem aboveAll_above_start (hcwd : isAbsolute cwd = true) (hargs : args ≠ [])
    (hdots : ∀ a ∈ args, ".." ∉ parts a) {kind : Bool} (hkind : ∀ a ∈ args, isAbsolute a = kind) :
    AboveAll cwd (dirName (absolute cwd (commonStart args))) args := by
  have hnormal : IsNormal (absolute cwd (commonStart args)) :=
    isNormal_normal (isAbsolute_join hcwd _)
  intro a ha
  have hsame : isAbsolute (commonStart args) = isAbsolute a := by
    rw [isAbsolute_commonStart_of_forall hargs hkind, hkind a ha]
  rw [hnormal.dirName.absoluteNames_eq, hnormal.names_dirName]
  exact prefix_dropLast_absoluteNames hcwd (prefix_commonStart args a ha) hsame (hdots a ha)

theorem possibleLocalFiles_found {f' : Finder}
    (h : (possibleLocalFiles.run t).run f = (.ok files, f')) (hfound : files ≠ []) :
    ∃ dir k, f' = { f with localDirectory := dir } ∧ dir = dirName^[k] f.parent ∧
      f.filesIn t dir ≠ [] ∧ ∀ j < k, f.filesIn t (dirName^[j] f.parent) = [] := by
  rw [run_possibleLocalFiles] at h
  cases hsearch : f.search t with
  | none =>
    rw [hsearch] at h
    obtain ⟨hfiles, -⟩ := Prod.mk.inj h
    exact absurd (Except.ok.inj hfiles).symm hfound
  | some result =>
    obtain ⟨dir, found⟩ := result
    obtain ⟨k, hdir, hfiles, hne, hbefore⟩ := searchFrom_some hsearch
    rw [hsearch] at h
    exact ⟨dir, k, (Prod.mk.inj h).2.symm, hdir, hfiles ▸ hne, hbefore⟩

end Start

/-- If configuration is found, its directory lies above all arguments exactly if no directory with
configuration files was met before that misses one of them. If the arguments are all relative or all
absolute, and none of them turns back, only the directory where the search starts may do so. -/
theorem localDirectory_above_all_iff {w : World} {program : String} {args extra : List String}
    (hcwd : isAbsolute w.tree.cwd = true) (hargs : args ≠ []) {f' : Finder}
    (h : (possibleLocalFiles.run w.tree).run (make w program args extra) = (.ok files, f'))
    (hfound : files ≠ []) :
    (AboveAll w.tree.cwd f'.localDirectory args ↔
      ∀ k, ¬ AboveAll w.tree.cwd (dirName^[k] f'.parent) args →
        f'.filesIn w.tree (dirName^[k] f'.parent) = []) ∧
    ((∀ a ∈ args, ".." ∉ parts a) →
      ((∀ a ∈ args, isAbsolute a = true) ∨ ∀ a ∈ args, isAbsolute a = false) →
      (AboveAll w.tree.cwd f'.localDirectory args ↔
        f'.localDirectory ≠ f'.parent ∨ AboveAll w.tree.cwd f'.parent args)) := by
  have hstart : (make w program args extra).parent = absolute w.tree.cwd (commonStart args) := by
    rw [make, if_neg]
    exact fun hempty => hargs (List.isEmpty_iff.mp hempty)
  generalize make w program args extra = f at h hstart
  have hnormal : IsNormal f.parent := hstart ▸ isNormal_normal (isAbsolute_join hcwd _)
  obtain ⟨dir, k, rfl, hdir, hne, hbefore⟩ := possibleLocalFiles_found h hfound
  have hat : AboveAll w.tree.cwd dir args ↔ AboveAll w.tree.cwd (dirName^[k] f.parent) args := by
    rw [← hdir]
  refine ⟨⟨fun hall j hmisses => ?_, fun hempty => ?_⟩, fun hdots hkind => ?_⟩
  · rcases Nat.lt_or_ge j k with hjk | hkj
    · exact hbefore j hjk
    · exact absurd ((hat.mp hall).further hnormal hkj) hmisses
  · by_contra hmisses
    refine hne ?_
    rw [hdir]
    exact hempty k (mt hat.mpr hmisses)
  · have hone : AboveAll w.tree.cwd (dirName^[1] f.parent) args := by
      rw [Function.iterate_one, hstart]
      rcases hkind with hkind | hkind
      · exact aboveAll_above_start hcwd hargs hdots hkind
      · exact aboveAll_above_start hcwd hargs hdots hkind
    constructor
    · intro hall
      by_cases hsame : dir = f.parent
      · exact .inr (hsame ▸ hall)
      · exact .inl hsame
    · rintro (hother | hall)
      · cases k with
        | zero => exact absurd hdir hother
        | succ k => exact hat.mpr (hone.further hnormal (Nat.le_add_left 1 k))
      · exact hat.mpr (AboveAll.further hnormal (Nat.zero_le k) hall)

/-- Two directories whose names start alike, with configuration above them and, if wanted, in the
first one. -/
def namesakes (inner : Bool) : World where
  tree := {
    cwd := "/p"
    root := .directory [("p", .directory [
      ("foo", .directory (if inner then [("tox.ini", .ofBytes [])] else [])), ("foobar", .directory []),
      ("setup.cfg", .ofBytes [])])] }

def foundFor (w : World) (args : List String) : Option (List String) × String × String :=
  let result := (possibleLocalFiles.run w.tree).run (make w "flake8" args [])
  (result.1.toOption, result.2.localDirectory, result.2.parent)

theorem exists_foundFor {w : World} {args files : List String} {dir parent : String}
    (h : foundFor w args = (some files, dir, parent)) :
    ∃ f', (possibleLocalFiles.run w.tree).run (make w "flake8" args []) = (.ok files, f') ∧
      f'.localDirectory = dir ∧ f'.parent = parent := by
  unfold foundFor at h
  generalize (possibleLocalFiles.run w.tree).run (make w "flake8" args []) = result at h ⊢
  obtain ⟨hfiles, hrest⟩ := Prod.mk.inj h
  obtain ⟨hdir, hparent⟩ := Prod.mk.inj hrest
  exact ⟨result.2, Prod.ext (eq_ok_of_toOption hfiles) rfl, hdir, hparent⟩

/-- The start lies beside one argument, but it has no configuration files. -/
theorem localDirectory_above_all_namesakes :
    ∃ f', (possibleLocalFiles.run (namesakes false).tree).run
        (make (namesakes false) "flake8" ["foo", "foobar"] []) = (.ok ["/p/setup.cfg"], f') ∧
      f'.parent = "/p/foo" ∧ AboveAll "/p" f'.localDirectory ["foo", "foobar"] := by
  have hfound : foundFor (namesakes false) ["foo", "foobar"] =
      (some ["/p/setup.cfg"], "/p", "/p/foo") := by
    decide +kernel
  obtain ⟨f', hrun, hdir, hparent⟩ := exists_foundFor hfound
  have hcwd : isAbsolute (namesakes false).tree.cwd = true := by decide +kernel
  have hdots : ∀ a ∈ ["foo", "foobar"], ".." ∉ parts a := by decide +kernel
  have hkind : ∀ a ∈ ["foo", "foobar"], isAbsolute a = false := by decide +kernel
  have hother : f'.localDirectory ≠ f'.parent := by
    rw [hdir, hparent]
    decide
  have habove := localDirectory_above_all_iff hcwd (List.cons_ne_nil _ _) hrun (List.cons_ne_nil _ _)
  exact ⟨f', hrun, hparent, (habove.2 hdots (.inr hkind)).mpr (.inl hother)⟩

/-- A directory with configuration files that one argument's name starts with. -/
theorem localDirectory_beside_argument :
    ∃ f', (possibleLocalFiles.run (namesakes true).tree).run
        (make (namesakes true) "flake8" ["foo", "foobar"] []) = (.ok ["/p/foo/tox.ini"], f') ∧
      ¬ AboveAll "/p" f'.localDirectory ["foo", "foobar"] := by
  have hfound : foundFor (namesakes true) ["foo", "foobar"] =
      (some ["/p/foo/tox.ini"], "/p/foo", "/p/foo") := by
    decide +kernel
  obtain ⟨f', hrun, hdir, -⟩ := exists_foundFor hfound
  refine ⟨f', hrun, ?_⟩
  rw [hdir]
  decide +kernel

end Config.Finder

end LintRunner
