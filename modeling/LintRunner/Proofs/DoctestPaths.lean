import LintRunner.Plugin.Flakes
import LintRunner.Proofs.Decisions
import LintRunner.Proofs.Stateful

/-!
# Files whose doctests are checked

Paths are listed as included and as excluded, and a path may lie below another one. The longest listed
path that a file's name starts with should decide about the file. What decides is the excluded path
that is listed last among those that cover the file: an included path below it wins, even where the
file lies in an excluded path below that one. So the order in which paths are listed can matter.
-/

namespace LintRunner.Plugin.Flakes.Scope

open Stateful

variable {scope other : Scope} {name path last : String}

/-- No listed path is empty, and none is both included and excluded. -/
structure Unambiguous (scope : Scope) : Prop where
  ne_empty : ∀ path ∈ scope.included ++ scope.excluded, path ≠ ""
  apart : ∀ path ∈ scope.included, path ∉ scope.excluded

/-- The same paths in another order. -/
structure Reorders (other scope : Scope) : Prop where
  withDoctest : other.withDoctest = scope.withDoctest
  included : other.included.Perm scope.included
  excluded : other.excluded.Perm scope.excluded

/-- What the longest listed path that the name starts with says. Where there is none, the general
setting counts. -/
def byLongest (scope : Scope) (name : String) : Value :=
  match longestEntry name (scope.included ++ scope.excluded) with
  | some path => .bool (scope.included.contains path)
  | none => scope.withDoctest

/-- The last excluded path that starts the name. -/
def lastExcluded (scope : Scope) (name : String) : Option String :=
  (scope.excluded.filter (Text.startsWith name)).getLast?

/-- An included path lies below the excluded path `last`, but the longest listed path is an excluded
one. -/
def Overrules (scope : Scope) (name last : String) : Prop :=
  (∃ path ∈ scope.included, path.toList <+: name.toList ∧ last.length < path.length) ∧
    ∃ path ∈ scope.excluded, longestEntry name (scope.included ++ scope.excluded) = some path

theorem foldl_overwrite {α β : Type} (p : α → Bool) (f : α → β) (start : β) (xs : List α) :
    xs.foldl (fun b x => if p x then f x else b) start =
      ((xs.filter p).getLast?.map f).getD start := by
  induction xs using List.reverseRecOn with
  | nil => rfl
  | append_singleton xs x ih =>
    rw [List.foldl_append, List.foldl_cons, List.foldl_nil, List.filter_append,
      List.filter_singleton, ih]
    cases p x <;> simp

theorem Unambiguous.filter_covers (h : scope.Unambiguous) {paths : List String}
    (hsub : paths ⊆ scope.included ++ scope.excluded) (name : String) :
    paths.filter (fun path => !path.isEmpty && Text.startsWith name path) =
      paths.filter (Text.startsWith name) := by
  refine List.filter_congr fun path hpath => ?_
  rw [String.isEmpty_eq_false_iff.mpr (h.ne_empty path (hsub hpath))]
  rfl

theorem Unambiguous.checksDoctests_eq (h : scope.Unambiguous) (name : String) :
    scope.checksDoctests name = ((scope.lastExcluded name).map fun last =>
      Value.bool ((scope.included.filter (Text.startsWith name)).any (Text.startsWith · last))).getD
        (if (scope.included.filter (Text.startsWith name)).isEmpty then scope.withDoctest
          else .bool true) := by
  unfold checksDoctests lastExcluded
  rw [foldl_overwrite, h.filter_covers (List.subset_append_right _ _),
    h.filter_covers (List.subset_append_left _ _)]

theorem mem_of_lastExcluded (h : last ∈ scope.lastExcluded name) :
    last ∈ scope.excluded ∧ last.toList <+: name.toList := by
  obtain ⟨hmem, hstarts⟩ := List.mem_filter.mp (List.mem_of_getLast? h)
  exact ⟨hmem, Text.startsWith_iff.mp hstarts⟩

/-- Where an excluded path is the last one, an included path must lie below it for the doctests to be
checked. -/
theorem Unambiguous.checksDoctests_of_last (h : scope.Unambiguous)
    (hlast : last ∈ scope.lastExcluded name) : scope.checksDoctests name = .bool (decide
      (∃ path ∈ scope.included, path.toList <+: name.toList ∧ last.length < path.length)) := by
  obtain ⟨hmem, hstarts⟩ := mem_of_lastExcluded hlast
  rw [h.checksDoctests_eq, Option.mem_def.mp hlast, Option.map_some, Option.getD_some]
  refine congrArg Value.bool (Bool.eq_iff_iff.mpr ?_)
  simp only [List.any_eq_true, List.mem_filter, Text.startsWith_iff, decide_eq_true_iff, and_assoc]
  refine exists_congr fun path => and_congr_right fun hpath => and_congr_right fun hcovers => ?_
  refine ⟨fun hbelow => ?_, fun hlt => List.prefix_of_prefix_length_le hstarts hcovers hlt.le⟩
  refine Nat.lt_of_le_of_ne hbelow.length_le fun heq => h.apart path hpath ?_
  exact eq_of_prefix_of_length_eq hstarts hcovers heq ▸ hmem

theorem byLongest_of_excluded (h : scope.Unambiguous) (hmem : path ∈ scope.excluded)
    (hlong : longestEntry name (scope.included ++ scope.excluded) = some path) :
    scope.byLongest name = .bool false := by
  rw [byLongest, hlong]
  simpa using fun hincluded => h.apart path hincluded hmem

theorem byLongest_of_included (hmem : path ∈ scope.included)
    (hlong : longestEntry name (scope.included ++ scope.excluded) = some path) :
    scope.byLongest name = .bool true := by
  rw [byLongest, hlong]
  simpa using hmem

theorem Overrules.checksDoctests_eq (h : scope.Unambiguous) (hover : scope.Overrules name last)
    (hlast : last ∈ scope.lastExcluded name) : scope.checksDoctests name = .bool true := by
  rw [h.checksDoctests_of_last hlast, decide_eq_true hover.1]

theorem Unambiguous.checksDoctests_of_not_overrules (h : scope.Unambiguous)
    (hnot : ∀ last ∈ scope.lastExcluded name, ¬ scope.Overrules name last) :
    scope.checksDoctests name = scope.byLongest name := by
  cases hlast : scope.lastExcluded name with
  | none =>
    have hnone : ∀ path ∈ scope.excluded, ¬ path.toList <+: name.toList := by
      simpa [lastExcluded] using hlast
    rw [h.checksDoctests_eq, hlast]
    cases hlong : longestEntry name (scope.included ++ scope.excluded) with
    | none =>
      have hempty : ∀ path ∈ scope.included, ¬ path.toList <+: name.toList := fun path hpath =>
        longestEntry_eq_none_iff.mp hlong path (List.mem_append_left _ hpath)
      rw [byLongest, hlong]
      exact if_pos (by simpa using hempty)
    | some path =>
      obtain ⟨hmem, hstarts, -⟩ := longestEntry_eq_some_iff.mp hlong
      have hpath := (List.mem_append.mp hmem).resolve_right fun hex => hnone path hex hstarts
      rw [byLongest_of_included hpath hlong]
      exact if_neg (by simpa using ⟨path, hpath, hstarts⟩)
  | some last =>
    obtain ⟨hmem, hstarts⟩ := mem_of_lastExcluded hlast
    obtain ⟨path, hlong⟩ : ∃ path, longestEntry name (scope.included ++ scope.excluded) =
        some path := by
      refine Option.ne_none_iff_exists'.mp fun hnone => ?_
      exact longestEntry_eq_none_iff.mp hnone last (List.mem_append_right _ hmem) hstarts
    obtain ⟨hlisted, hcovers, hmax⟩ := longestEntry_eq_some_iff.mp hlong
    rw [h.checksDoctests_of_last hlast]
    rcases List.mem_append.mp hlisted with hpath | hpath
    · rw [byLongest_of_included hpath hlong, decide_eq_true]
      refine ⟨path, hpath, hcovers, Nat.lt_of_le_of_ne ?_ fun heq => h.apart path hpath ?_⟩
      · exact hmax last (List.mem_append_right _ hmem) hstarts
      · exact eq_of_prefix_of_length_eq hstarts hcovers heq ▸ hmem
    · rw [byLongest_of_excluded h hpath hlong, decide_eq_false]
      exact fun hbelow => hnot last hlast ⟨hbelow, path, hpath, hlong⟩

namespace Reorders

theorem longestEntry_eq (h : other.Reorders scope) (name : String) :
    longestEntry name (other.included ++ other.excluded) =
      longestEntry name (scope.included ++ scope.excluded) :=
  longestEntry_congr (fun _ => (h.included.append h.excluded).mem_iff) name

theorem byLongest_eq (h : other.Reorders scope) (name : String) :
    other.byLongest name = scope.byLongest name := by
  rw [byLongest, byLongest, h.longestEntry_eq, h.withDoctest]
  cases longestEntry name (scope.included ++ scope.excluded) with
  | none => rfl
  | some path => exact congrArg Value.bool h.included.contains_eq

theorem overrules_iff (h : other.Reorders scope) :
    other.Overrules name last ↔ scope.Overrules name last := by
  rw [Overrules, Overrules, h.longestEntry_eq]
  simp only [h.included.mem_iff, h.excluded.mem_iff]

theorem unambiguous (h : other.Reorders scope) (hscope : scope.Unambiguous) :
    other.Unambiguous where
  ne_empty path hpath := hscope.ne_empty path ((h.included.append h.excluded).mem_iff.mp hpath)
  apart path hpath hex := hscope.apart path (h.included.mem_iff.mp hpath) (h.excluded.mem_iff.mp hex)

end Reorders

/-- Any excluded path that covers the file may be listed last. -/
theorem exists_reorders_last (hmem : last ∈ scope.excluded)
    (hstarts : last.toList <+: name.toList) :
    ∃ other : Scope, other.Reorders scope ∧ last ∈ other.lastExcluded name := by
  refine ⟨{ scope with excluded := scope.excluded.erase last ++ [last] },
    ⟨rfl, .refl _, ?_⟩, ?_⟩
  · exact (List.perm_append_singleton _ _).trans (List.perm_cons_erase hmem).symm
  · simp [lastExcluded, List.filter_append, hstarts]

theorem doctestsIn_ok {cwd : String} {file checked : Value}
    (h : scope.doctestsIn cwd file = .ok (checked, name)) :
    checked = scope.checksDoctests name ∧ ∀ other : Scope,
      other.doctestsIn cwd file = .ok (other.checksDoctests name, name) := by
  obtain ⟨name', hname, h⟩ := bind_ok h
  cases h
  refine ⟨rfl, fun other => ?_⟩
  rw [doctestsIn, hname]
  rfl

/-- The longest listed path that the file's name starts with decides, unless the excluded path that is
listed last overrules it. The order of the paths does not matter, unless an excluded path overrules
the longest one where it is listed last. -/
theorem doctestsIn_by_longest_iff {cwd : String} {file checked : Value}
    (hscope : scope.Unambiguous) (hfile : scope.doctestsIn cwd file = .ok (checked, name)) :
    (checked = scope.byLongest name ↔
      ∀ last ∈ scope.lastExcluded name, ¬ scope.Overrules name last) ∧
    ((∀ other : Scope, other.Reorders scope → other.doctestsIn cwd file = .ok (checked, name)) ↔
      ∀ last ∈ scope.excluded, last.toList <+: name.toList → ¬ scope.Overrules name last) := by
  obtain ⟨rfl, hother⟩ := doctestsIn_ok hfile
  refine ⟨⟨fun heq last hlast hover => ?_, hscope.checksDoctests_of_not_overrules⟩,
    fun hsame last hmem hstarts hover => ?_, fun hnot other hre => ?_⟩
  · obtain ⟨path, hpath, hlong⟩ := hover.2
    rw [hover.checksDoctests_eq hscope hlast, byLongest_of_excluded hscope hpath hlong] at heq
    cases heq
  · -- With `last` at the end the doctests are checked, with the longest path at the end they are not.
    obtain ⟨path, hpath, hlong⟩ := hover.2
    obtain ⟨-, hcovers, hmax⟩ := longestEntry_eq_some_iff.mp hlong
    obtain ⟨one, hone, hlast⟩ := exists_reorders_last hmem hstarts
    obtain ⟨two, htwo, hdeepest⟩ := exists_reorders_last hpath hcovers
    have hchecked := (hone.overrules_iff.mpr hover).checksDoctests_eq (hone.unambiguous hscope) hlast
    have hunchecked := (htwo.unambiguous hscope).checksDoctests_of_last hdeepest
    rw [decide_eq_false] at hunchecked
    · have heq := (hother one).symm.trans (hsame one hone)
      rw [hchecked, ← (Prod.mk.inj (Except.ok.inj ((hother two).symm.trans (hsame two htwo)))).1,
        hunchecked] at heq
      cases heq
    · rintro ⟨deeper, hdeeper, hdeeperCovers, hlt⟩
      have hle := hmax deeper (List.mem_append_left _ (htwo.included.mem_iff.mp hdeeper)) hdeeperCovers
      omega
  · rw [hother, (hre.unambiguous hscope).checksDoctests_of_not_overrules,
      hscope.checksDoctests_of_not_overrules, hre.byLongest_eq]
    · exact fun last hlast =>
        hnot last (mem_of_lastExcluded hlast).1 (mem_of_lastExcluded hlast).2
    · intro last hlast hover
      obtain ⟨hmem, hstarts⟩ := mem_of_lastExcluded hlast
      exact hnot last (hre.excluded.mem_iff.mp hmem) hstarts (hre.overrules_iff.mp hover)

/-- Excluded paths above and below an included one, the deeper one last. -/
def nested : Scope := { included := ["/a/b"], excluded := ["/a", "/a/b/c"] }

theorem unambiguous_nested : nested.Unambiguous := ⟨by decide, by decide⟩

theorem nested_by_longest : nested.Unambiguous ∧
    nested.doctestsIn "/" (.text "/a/b/c/f.py") = .ok (.bool false, "/a/b/c/f.py") ∧
      Value.bool false = nested.byLongest "/a/b/c/f.py" := by
  have hfile : nested.doctestsIn "/" (.text "/a/b/c/f.py") = .ok (.bool false, "/a/b/c/f.py") := rfl
  refine ⟨unambiguous_nested, hfile, (doctestsIn_by_longest_iff unambiguous_nested hfile).1.mpr ?_⟩
  rintro last hlast ⟨⟨path, hpath, -, hlt⟩, -⟩
  obtain rfl : last = "/a/b/c" := (Option.mem_some_iff.mp hlast).symm
  obtain rfl : path = "/a/b" := List.mem_singleton.mp hpath
  exact absurd hlt (by decide)

/-- With the shorter excluded path last, doctests are checked in an excluded path, although the longest
listed path says that they are not, and so does the other order. -/
theorem doctestsIn_misordered : ∃ scope : Scope, scope.Unambiguous ∧ nested.Reorders scope ∧
    scope.doctestsIn "/" (.text "/a/b/c/f.py") = .ok (.bool true, "/a/b/c/f.py") ∧
      scope.byLongest "/a/b/c/f.py" = .bool false ∧
      nested.doctestsIn "/" (.text "/a/b/c/f.py") = .ok (.bool false, "/a/b/c/f.py") := by
  refine ⟨{ included := ["/a/b"], excluded := ["/a/b/c", "/a"] }, ⟨by decide, by decide⟩,
    ⟨rfl, .refl _, .swap _ _ _⟩, rfl, rfl, rfl⟩

end LintRunner.Plugin.Flakes.Scope
