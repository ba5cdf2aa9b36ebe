import LintRunner.Proofs.Rounds
import LintRunner.Proofs.SearchedDirectories
import Mathlib.Data.List.Infix

/-!
# Climbing to the root for a project's configuration

The search cuts one name after the other off a path and looks for files in what remains. The part
that was cut off says whether there is more to cut: it is empty once the root has been cut, so the
root is looked at as well, and once. The first directory with files ends the search, but only after
all its files have been seen.
-/

namespace LintRunner

open Stateful

namespace Path

/-- A path and all directories above it, up to the root. -/
def upwards (p : String) : List String :=
  (names p).inits.reverse.map fun ns => leadingSlashes p ++ Text.joinWith "/" ns

theorem IsNormal.upwards_root {p : String} (h : IsNormal p) (hp : Path.baseName p = "") :
    upwards p = [p] := by
  rcases h.split_cases with ⟨hnames, -⟩ | ⟨ms, n, hnames, hcut⟩
  · have hjoin := h.eq_joinWith
    rw [hnames] at hjoin
    simp [upwards, hnames, ← hjoin]
  · have hbase : Path.baseName p = n := (Prod.mk.inj hcut).2
    have hplain : Plain n := h.plain (hnames ▸ List.mem_append_right ms List.mem_cons_self)
    exact absurd (hbase.symm.trans hp) hplain.ne_empty

theorem IsNormal.upwards_cons {p : String} (h : IsNormal p) (hp : Path.baseName p ≠ "") :
    upwards p = p :: upwards (Path.dirName p) := by
  rcases h.split_cases with ⟨-, hcut⟩ | ⟨ms, n, hnames, hcut⟩
  · exact absurd (Prod.mk.inj hcut).2 hp
  · have hdir : Path.dirName p = leadingSlashes p ++ Text.joinWith "/" ms := (Prod.mk.inj hcut).1
    have hplain : ∀ m ∈ ms, Plain m := fun m hm => h.plain (hnames ▸ List.mem_append_left [n] hm)
    have hlead : leadingSlashes (Path.dirName p) = leadingSlashes p := by
      rw [hdir]
      exact leadingSlashes_joinWith (leadingSlashes_of_isAbsolute h.isAbsolute) hplain
    have hms : names (Path.dirName p) = ms := by simp [h.names_dirName, hnames]
    have hjoin := h.eq_joinWith
    rw [hnames] at hjoin
    simp [upwards, hms, hlead, hnames, List.inits_append, ← hjoin]

end Path

namespace Config.Finder

open LintRunner.Path

variable {f : Finder} {t : FileTree} {dir tail kept : String}

def hasFiles (f : Finder) (t : FileTree) (dir : String) : Bool := !(f.filesIn t dir).isEmpty

@[simp] theorem hasFiles_eq_true_iff : f.hasFiles t dir = true ↔ f.filesIn t dir ≠ [] := by
  simp [hasFiles]

/-- What is found on the way through some directories: the files of the first one that has some, and
that directory, or else nothing and the directory that was remembered before. -/
def firstOf (f : Finder) (t : FileTree) (kept : String) (dirs : List String) :
    List String × String :=
  ((dirs.find? (f.hasFiles t)).map fun dir => (f.filesIn t dir, dir)).getD ([], kept)

theorem firstOf_cons_of_files (h : f.filesIn t dir ≠ []) (dirs : List String) :
    f.firstOf t kept (dir :: dirs) = (f.filesIn t dir, dir) := by
  simp [firstOf, List.find?_cons_of_pos (hasFiles_eq_true_iff.mpr h)]

theorem firstOf_cons_of_empty (h : f.filesIn t dir = []) (dirs : List String) :
    f.firstOf t kept (dir :: dirs) = f.firstOf t kept dirs := by
  simp [firstOf, h]

/-- Where the climb stands: the directory that is next, the name that was cut off before, the files
that were found and the directory that is remembered. -/
structure Climb where
  parent : String
  tail : String
  found : List String
  directory : String

def Climb.look (t : FileTree) (c : Climb) (name : String) : Climb :=
  let file := Path.absolute t.cwd (Path.join c.parent name)
  if t.present file then { c with found := c.found ++ [file], directory := c.parent } else c

/-- One round of the climb: all files are looked for, and a name is cut off. There is no further
round once something was found or nothing was cut off. -/
def climb (f : Finder) (t : FileTree) (c : Climb) : Climb ⊕ (List String × String) :=
  if c.tail ≠ "" ∧ c.found = [] then
    .inl { f.projectNames.foldl (Climb.look t) c with
      parent := Path.dirName c.parent, tail := Path.baseName c.parent }
  else .inr (c.found, c.directory)

theorem foldl_look (t : FileTree) (names : List String) (c : Climb) :
    names.foldl (Climb.look t) c =
      let files := (names.map fun name => absolute t.cwd (join c.parent name)).filter t.present
      { c with found := c.found ++ files, directory := if files = [] then c.directory else c.parent } := by
  induction names generalizing c with
  | nil => simp
  | cons name names ih =>
    rw [List.foldl_cons, ih]
    by_cases hpresent : t.present (absolute t.cwd (join c.parent name)) = true
    · simp [Climb.look, hpresent]
    · simp [Climb.look, hpresent]

theorem climb_of_tail (f : Finder) (t : FileTree) (dir kept : String) (htail : tail ≠ "") :
    f.climb t ⟨dir, tail, [], kept⟩ = .inl ⟨dirName dir, baseName dir, f.filesIn t dir,
      if f.filesIn t dir = [] then kept else dir⟩ := by
  simp [climb, htail, foldl_look, filesIn]

theorem length_dirName_lt (hbase : baseName dir ≠ "") : (dirName dir).length < dir.length := by
  have hlength := length_dirName dir
  have hpos : (baseName dir).length ≠ 0 := mt String.length_eq_zero_iff.mp hbase
  omega

/-- The climb comes to an end: each directory on the way up to the root is looked at once, until one
has files. -/
theorem climb_endsAfter (f : Finder) (t : FileTree) (kept : String) (hdir : IsNormal dir)
    (htail : tail ≠ "") :
    ∃ n ≤ (upwards dir).length,
      EndsAfter (f.climb t) n ⟨dir, tail, [], kept⟩ (f.firstOf t kept (upwards dir)) := by
  induction hlength : dir.length using Nat.strongRecOn generalizing dir tail with
  | ind length ih =>
    subst hlength
    have hround := climb_of_tail f t dir kept htail
    by_cases hbase : baseName dir = ""
    · refine ⟨1, by simp [hdir.upwards_root hbase], .again hround (.stop ?_)⟩
      rw [hdir.upwards_root hbase]
      by_cases hfiles : f.filesIn t dir = []
      · simp [climb, hbase, hfiles, firstOf]
      · simp [climb, hbase, hfiles, firstOf_cons_of_files hfiles]
    · rw [hdir.upwards_cons hbase]
      by_cases hfiles : f.filesIn t dir = []
      · obtain ⟨n, hn, hends⟩ := ih _ (length_dirName_lt hbase) hdir.dirName hbase rfl
        rw [firstOf_cons_of_empty hfiles]
        rw [hfiles, if_pos rfl] at hround
        exact ⟨n + 1, by simpa using hn, .again hround hends⟩
      · refine ⟨1, by simp, .again hround (.stop ?_)⟩
        simp [climb, hfiles, firstOf_cons_of_files hfiles]

theorem searchFrom_eq_find? (hdir : IsNormal dir) {fuel : Nat} (hfuel : dir.length < fuel) :
    f.searchFrom t dir fuel =
      ((upwards dir).find? (f.hasFiles t)).map fun dir => (dir, f.filesIn t dir) := by
  induction fuel generalizing dir with
  | zero => omega
  | succ fuel ih =>
    rw [searchFrom]
    by_cases hfiles : f.filesIn t dir = []
    · rw [if_neg (not_not.mpr hfiles)]
      by_cases hbase : baseName dir = ""
      · simp [hbase, hdir.upwards_root hbase, hfiles]
      · have hless := length_dirName_lt hbase
        rw [if_neg hbase, ih hdir.dirName (by omega), hdir.upwards_cons hbase]
        simp [hfiles]
    · obtain ⟨above, habove⟩ : ∃ above, upwards dir = dir :: above := by
        by_cases hbase : baseName dir = ""
        · exact ⟨[], hdir.upwards_root hbase⟩
        · exact ⟨_, hdir.upwards_cons hbase⟩
      simp [habove, List.find?_cons_of_pos (hasFiles_eq_true_iff.mpr hfiles), hfiles]

theorem run_possibleLocalFiles_of_normal (hparent : IsNormal f.parent) :
    (possibleLocalFiles.run t).run f =
      (.ok (f.firstOf t f.localDirectory (upwards f.parent)).1,
        { f with localDirectory := (f.firstOf t f.localDirectory (upwards f.parent)).2 }) := by
  rw [run_possibleLocalFiles, search, searchFrom_eq_find? hparent (Nat.lt_succ_self _), firstOf]
  cases (upwards f.parent).find? (f.hasFiles t) <;> rfl

/-- The search comes to an end, whatever the arguments and the files are. It finds the configuration
files of the first directory that has some, from the common start of the arguments up to the root, and
remembers that directory. If there is none, it finds nothing and remembers what it remembered. -/
theorem possibleLocalFiles_climbs {w : World} {program : String} {args extra : List String}
    {f : Finder} (hcwd : isAbsolute w.tree.cwd = true) (hf : f = make w program args extra) :
    f.parent = absolute w.tree.cwd (commonStart (if args.isEmpty then ["."] else args)) ∧
    ∃ n ≤ (upwards f.parent).length, ∃ files dir,
      EndsAfter (f.climb w.tree) n ⟨f.parent, f.parent, [], f.localDirectory⟩ (files, dir) ∧
      (possibleLocalFiles.run w.tree).run f = (.ok files, { f with localDirectory := dir }) ∧
      (∀ first, (upwards f.parent).find? (f.hasFiles w.tree) = some first →
        files = f.filesIn w.tree first ∧ dir = first) ∧
      ((upwards f.parent).find? (f.hasFiles w.tree) = none →
        files = [] ∧ dir = f.localDirectory) := by
  have hparent : f.parent = absolute w.tree.cwd
      (commonStart (if args.isEmpty then ["."] else args)) := by
    rw [hf, make]
  have hnormal : IsNormal f.parent := hparent ▸ isNormal_normal (isAbsolute_join hcwd _)
  have htail : f.parent ≠ "" := by
    intro hempty
    have habsolute := hnormal.isAbsolute
    rw [hempty] at habsolute
    cases habsolute
  obtain ⟨n, hn, hends⟩ := climb_endsAfter f w.tree f.localDirectory hnormal htail
  have hrun := run_possibleLocalFiles_of_normal (t := w.tree) hnormal
  rcases hfound : f.firstOf w.tree f.localDirectory (upwards f.parent) with ⟨files, dir⟩
  rw [hfound] at hends hrun
  refine ⟨hparent, n, hn, files, dir, hends, hrun, fun first hfirst => ?_, fun hnone => ?_⟩
  · simpa [firstOf, hfirst, eq_comm] using hfound
  · simpa [firstOf, hnone, eq_comm] using hfound

/-- A directory deep down, and configuration files at the root alone. -/
def rooted : World where
  tree := {
    cwd := "/p/q"
    root := .directory [("p", .directory [("q", .directory [])]), ("setup.cfg", .ofBytes []),
      ("tox.ini", .ofBytes [])] }

theorem possibleLocalFiles_climbs_to_root :
    ∃ f', (possibleLocalFiles.run rooted.tree).run (make rooted "flake8" [] []) =
        (.ok ["/setup.cfg", "/tox.ini"], f') ∧ f'.localDirectory = "/" := by
  have hcwd : isAbsolute rooted.tree.cwd = true := by decide +kernel
  obtain ⟨-, n, -, files, dir, -, hrun, hsome, -⟩ :=
    @possibleLocalFiles_climbs rooted "flake8" [] [] _ hcwd rfl
  have hfirst : (upwards (make rooted "flake8" [] []).parent).find?
      ((make rooted "flake8" [] []).hasFiles rooted.tree) = some "/" := by
    decide +kernel
  obtain ⟨rfl, rfl⟩ := hsome "/" hfirst
  have hfiles : (make rooted "flake8" [] []).filesIn rooted.tree "/" =
      ["/setup.cfg", "/tox.ini"] := by
    decide +kernel
  rw [hfiles] at hrun
  exact ⟨_, hrun, rfl⟩

end Config.Finder

end LintRunner
