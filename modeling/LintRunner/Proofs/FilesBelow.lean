import LintRunner.Discovery.Walk
import Mathlib.Tactic.ByContra

/-!
# The files below an argument

Pruning removes names from the very list it goes along, so an excluded directory that takes the
place of a removed one stays in the list. It does no harm: the walk asks again when it enters a
directory. So the walk gives the files that `below` describes, which are exactly those with no
excluded directory on the way to them.
-/

namespace LintRunner.Discovery

variable {excluded : String → Bool}

theorem mem_pruneFrom {names : List String} {name : String} (hname : excluded name = false)
    (hmem : name ∈ names) (position : Nat) : name ∈ pruneFrom excluded names position := by
  fun_induction pruneFrom excluded names position with
  | case1 names position hlt hexcluded ih =>
    have hne : name ≠ names[position] := by
      intro heq
      rw [← heq, hname] at hexcluded
      cases hexcluded
    exact ih ((List.mem_erase_of_ne hne).mpr hmem)
  | case2 names position hlt hkept ih => exact ih hmem
  | case3 names position hend => exact hmem

theorem excluded_of_not_mem_prune {names : List String} {name : String} (hmem : name ∈ names)
    (hgone : name ∉ prune excluded names) : excluded name = true := by
  by_contra hkept
  exact hgone (mem_pruneFrom (Bool.eq_false_iff.mpr hkept) hmem 0)

example : prune ["a", "b"].contains ["a", "b", "c"] = ["b", "c"] := by cbv

theorem ownFiles_eq (path : String) (entries : List (String × Node)) :
    ownFiles excluded path entries =
      (((entries.filter fun e => !e.2.isDirectory).map (·.1)).filter fun name =>
        !excluded (Path.join path name) && !excluded name).map (Path.join path) := by
  unfold ownFiles
  induction (entries.filter fun e => !e.2.isDirectory).map (·.1) with
  | nil => rfl
  | cons name rest ih =>
    rw [List.filterMap_cons, List.filter_cons, ih]
    dsimp only
    cases excluded (Path.join path name) <;> cases excluded name <;> rfl

theorem below_of_excluded {path : String} (hpath : excluded path = true) (node : Node) :
    below excluded path node = [] := by
  cases node with
  | file content mode => rw [below]
  | directory entries => rw [below, if_pos hpath]

mutual

theorem filesBelow_eq_below (path : String) :
    (node : Node) → filesBelow excluded path node = below excluded path node
  | .file .. => by rw [filesBelow, below]
  | .directory entries => by
      rw [filesBelow, below]
      split
      · rfl
      · simp only [ownFiles_eq]
        congr 1
        apply filesBelowEntries_eq_belowEntries
        intro name node hmem hdirectory hgone
        have hlisted : name ∈ (entries.filter fun e => e.2.isDirectory).map (·.1) :=
          List.mem_map.mpr ⟨(name, node), List.mem_filter.mpr ⟨hmem, hdirectory⟩, rfl⟩
        have hexcluded := excluded_of_not_mem_prune hlisted hgone
        exact hexcluded

theorem filesBelowEntries_eq_belowEntries (path : String) (kept : List String) :
    (entries : List (String × Node)) →
    (∀ name node, (name, node) ∈ entries → node.isDirectory = true → name ∉ kept →
      excluded (Path.join path name) = true) →
    filesBelowEntries excluded path kept entries = belowEntries excluded path entries
  | [], _ => by rw [filesBelowEntries, belowEntries]
  | (name, node) :: rest, hleft => by
      rw [filesBelowEntries, belowEntries, filesBelow_eq_below (Path.join path name) node,
        filesBelowEntries_eq_belowEntries path kept rest
          fun n d hmem => hleft n d (List.mem_cons_of_mem _ hmem)]
      congr 1
      split
      · rfl
      · rename_i hgone
        cases hdirectory : node.isDirectory with
        | false =>
          cases node with
          | file content mode => rw [below]
          | directory entries => cases hdirectory
        | true =>
          have hname : name ∉ kept := by simpa using hgone
          rw [below_of_excluded (hleft name node List.mem_cons_self hdirectory hname)]

end

/-- The file lies in a directory or below it, with no excluded directory on the way, and is excluded
neither by its path nor by its name. -/
inductive Reached (excluded : String → Bool) : String → List (String × Node) → String → Prop
  | here {path name : String} {entries : List (String × Node)} {content : List UInt8} {mode : Nat} :
      excluded path = false → (name, .file content mode) ∈ entries →
      excluded (Path.join path name) = false → excluded name = false →
      Reached excluded path entries (Path.join path name)
  | within {path name file : String} {entries inner : List (String × Node)} :
      excluded path = false → (name, .directory inner) ∈ entries →
      Reached excluded (Path.join path name) inner file → Reached excluded path entries file

variable {path file : String} {entries : List (String × Node)}

theorem mem_ownFiles :
    file ∈ ownFiles excluded path entries ↔
      ∃ name content mode, (name, Node.file content mode) ∈ entries ∧
        excluded (Path.join path name) = false ∧ excluded name = false ∧
        file = Path.join path name := by
  rw [ownFiles_eq, List.mem_map]
  constructor
  · rintro ⟨name, hname, rfl⟩
    obtain ⟨hname, hfree⟩ := List.mem_filter.mp hname
    obtain ⟨⟨name', node⟩, hentry, rfl⟩ := List.mem_map.mp hname
    obtain ⟨hmem, hfile⟩ := List.mem_filter.mp hentry
    simp only [Bool.and_eq_true, Bool.not_eq_true'] at hfree
    cases node with
    | file content mode => exact ⟨name', content, mode, hmem, hfree.1, hfree.2, rfl⟩
    | directory inner => simp [Node.isDirectory] at hfile
  · rintro ⟨name, content, mode, hmem, hjoined, hname, rfl⟩
    refine ⟨name, List.mem_filter.mpr ⟨?_, by simp [hjoined, hname]⟩, rfl⟩
    exact List.mem_map.mpr ⟨(name, .file content mode), List.mem_filter.mpr ⟨hmem, rfl⟩, rfl⟩

theorem mem_belowEntries :
    file ∈ belowEntries excluded path entries ↔
      ∃ name node, (name, node) ∈ entries ∧ file ∈ below excluded (Path.join path name) node := by
  induction entries with
  | nil => simp [belowEntries]
  | cons entry rest ih =>
    obtain ⟨name, node⟩ := entry
    rw [belowEntries, List.mem_append, ih]
    constructor
    · rintro (hhead | ⟨name', node', hmem, hfile⟩)
      · exact ⟨name, node, List.mem_cons_self, hhead⟩
      · exact ⟨name', node', List.mem_cons_of_mem _ hmem, hfile⟩
    · rintro ⟨name', node', hmem, hfile⟩
      rcases List.mem_cons.mp hmem with heq | hrest
      · cases heq
        exact .inl hfile
      · exact .inr ⟨name', node', hrest, hfile⟩

theorem mem_below_directory :
    file ∈ below excluded path (.directory entries) ↔ excluded path = false ∧
      (file ∈ ownFiles excluded path entries ∨ file ∈ belowEntries excluded path entries) := by
  rw [below]
  dsimp only
  rw [← ownFiles_eq]
  cases hpath : excluded path <;> simp

theorem mem_below_of_reached
    (h : Reached excluded path entries file) : file ∈ below excluded path (.directory entries) := by
  induction h with
  | here hpath hmem hjoined hname =>
    have hown := mem_ownFiles.mpr ⟨_, _, _, hmem, hjoined, hname, rfl⟩
    exact mem_below_directory.mpr ⟨hpath, .inl hown⟩
  | within hpath hmem _ ih =>
    exact mem_below_directory.mpr ⟨hpath, .inr (mem_belowEntries.mpr ⟨_, _, hmem, ih⟩)⟩

theorem reached_of_mem_below :
    (path : String) → (entries : List (String × Node)) →
    file ∈ below excluded path (.directory entries) → Reached excluded path entries file
  | path, entries, hfile => by
      obtain ⟨hpath, hown | hdeep⟩ := mem_below_directory.mp hfile
      · obtain ⟨name, content, mode, hmem, hjoined, hname, rfl⟩ := mem_ownFiles.mp hown
        exact .here hpath hmem hjoined hname
      · obtain ⟨name, node, hmem, hinner⟩ := mem_belowEntries.mp hdeep
        cases node with
        | file content mode => simp [below] at hinner
        | directory inner =>
          have hlt : sizeOf inner < sizeOf entries := by
            have hentry := List.sizeOf_lt_of_mem hmem
            simp only [Prod.mk.sizeOf_spec, Node.directory.sizeOf_spec] at hentry
            omega
          exact .within hpath hmem (reached_of_mem_below (Path.join path name) inner hinner)
termination_by _ entries => sizeOf entries

/-- The files that an argument stands for are those of the walk that leaves excluded directories out
from the start: none lies below an excluded directory, and no other is lost. -/
theorem filesFrom_eq_below (t : FileTree) (excluded : String → Bool) (arg : String) :
    filesFrom t excluded arg =
      (if excluded arg then []
      else
        match t.node? arg with
        | some (.directory entries) => below excluded arg (.directory entries)
        | _ => [arg]) ∧
      ∀ entries, t.node? arg = some (.directory entries) →
        ∀ file, file ∈ filesFrom t excluded arg ↔ Reached excluded arg entries file := by
  have hwalk : filesFrom t excluded arg =
      if excluded arg then []
      else
        match t.node? arg with
        | some (.directory entries) => below excluded arg (.directory entries)
        | _ => [arg] := by
    unfold filesFrom
    cases t.node? arg with
    | none => rfl
    | some node =>
      cases node with
      | file content mode => rfl
      | directory entries =>
        dsimp only
        rw [filesBelow_eq_below]
  refine ⟨hwalk, fun entries hnode file => ?_⟩
  have hbelow : filesFrom t excluded arg = below excluded arg (.directory entries) := by
    rw [hwalk, hnode]
    split
    · rename_i harg
      rw [below_of_excluded harg]
    · rfl
  rw [hbelow]
  exact ⟨reached_of_mem_below arg entries, mem_below_of_reached⟩

def neighbours : List (String × Node) :=
  [("a", .directory [("x.py", .ofBytes [])]), ("b", .directory [("x.py", .ofBytes [])]),
    ("c", .directory [("x.py", .ofBytes [])]), ("x.py", .ofBytes [])]

def neighbourTree : FileTree := ⟨.directory [("p", .directory neighbours)], "/"⟩

/-- Of two excluded neighbours the second one escapes the pruning, and still nothing below it is
found. -/
theorem filesFrom_excluded_neighbours :
    neighbourTree.node? "p" = some (.directory neighbours) ∧
      filesFrom neighbourTree ["p/a", "p/b"].contains "p" = ["p/x.py", "p/c/x.py"] ∧
      Reached ["p/a", "p/b"].contains "p" neighbours "p/c/x.py" := by
  obtain ⟨hwalk, hreached⟩ := filesFrom_eq_below neighbourTree ["p/a", "p/b"].contains "p"
  have hnode : neighbourTree.node? "p" = some (.directory neighbours) := rfl
  have hfiles : filesFrom neighbourTree ["p/a", "p/b"].contains "p" = ["p/x.py", "p/c/x.py"] :=
    hwalk.trans (by decide +kernel)
  refine ⟨hnode, hfiles, (hreached neighbours hnode "p/c/x.py").mp ?_⟩
  rw [hfiles]
  decide

end LintRunner.Discovery
