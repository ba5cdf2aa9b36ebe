import LintRunner.Hook.Commit
import LintRunner.Proofs.CopiedFiles
import LintRunner.Proofs.OpenedFiles
import Mathlib.Data.List.Forall2

/-!
# The names under which copies are shown

Findings in the copy of a staged file are shown under the name of the file itself. That name is
found by cutting the temporary directory off the path of the copy, as if the whole way from the root
had been copied. But a copy has only those names of its file that follow the common start of the two
paths. So the name is right exactly if the common start begins with none of them.
-/

namespace LintRunner

/-- A pass over a list succeeds when it does for each member, and gives results member by member. -/
theorem Stateful.mapM_forall₂ {ε α β : Type} {f : α → Except ε β} {R : α → β → Prop} {xs : List α}
    (h : ∀ a ∈ xs, ∃ b, f a = .ok b ∧ R a b) :
    ∃ bs, xs.mapM f = .ok bs ∧ List.Forall₂ R xs bs := by
  induction xs with
  | nil => exact ⟨[], rfl, .nil⟩
  | cons a rest ih =>
    obtain ⟨⟨b, hb, hR⟩, hrest⟩ := List.forall_mem_cons.mp h
    obtain ⟨bs, hbs, hRs⟩ := ih hrest
    refine ⟨b :: bs, ?_, .cons hR hRs⟩
    rw [List.mapM_cons, hb, hbs]
    rfl

open Stateful Text

namespace Path

variable {cwd p q : String} {as bs : List String}

theorem plain_of_mem_absoluteNames {n : String} (hcwd : isAbsolute cwd = true)
    (h : n ∈ absoluteNames cwd p) : Plain n :=
  plain_of_mem_normalParts (absoluteNames_eq hcwd p ▸ h)

theorem foldl_step_dots {ns : List String} (h : ∀ n ∈ ns, Plain n) (seen : List String) :
    (List.replicate ns.length "..").foldl (step true) (ns.reverse ++ seen) = seen := by
  induction ns generalizing seen with
  | nil => rfl
  | cons n rest ih =>
    obtain ⟨hn, hrest⟩ := List.forall_mem_cons.mp h
    have hlast : step true (n :: seen) ".." = seen := by simp [step, hn.ne_dots]
    rw [List.length_cons, List.replicate_succ', List.foldl_append, List.reverse_cons,
      List.append_assoc, ih hrest]
    exact hlast

theorem foldl_step_between (has : ∀ n ∈ as, Plain n)
    (hbs : ∀ n ∈ bs, Plain n) (seen : List String) :
    (between as bs).foldl (step true) (as.reverse ++ seen) = bs.reverse ++ seen := by
  fun_induction between as bs generalizing seen with
  | case1 as b bs ih =>
    obtain ⟨-, has⟩ := List.forall_mem_cons.mp has
    obtain ⟨-, hbs⟩ := List.forall_mem_cons.mp hbs
    rw [List.reverse_cons, List.append_assoc, ih has hbs, List.reverse_cons, List.append_assoc]
  | case2 a as b bs hne =>
    rw [List.foldl_append, ← List.length_cons (a := a), foldl_step_dots has,
      foldl_step_of_plain hbs]
  | case3 as bs hends => rw [List.foldl_append, foldl_step_dots has, foldl_step_of_plain hbs]

theorem between_eq_dots_append (as bs : List String) :
    ∃ n rest, between as bs = List.replicate n ".." ++ rest ∧ rest <:+ bs := by
  fun_induction between as bs with
  | case1 as b bs ih =>
    obtain ⟨n, rest, hway, hsuffix⟩ := ih
    exact ⟨n, rest, hway, hsuffix.trans (List.suffix_cons b bs)⟩
  | case2 a as b bs hne => exact ⟨_, _, rfl, List.suffix_rfl⟩
  | case3 as bs hends => exact ⟨_, _, rfl, List.suffix_rfl⟩

theorem isName_of_mem_between (hbs : ∀ n ∈ bs, Plain n) {n : String}
    (hn : n ∈ between as bs) : IsName n := by
  obtain ⟨k, rest, hway, hsuffix⟩ := between_eq_dots_append as bs
  rw [hway] at hn
  rcases List.mem_append.mp hn with hdots | hrest
  · rw [List.eq_of_mem_replicate hdots]
    exact ⟨by simp, by simp⟩
  · exact (hbs n (hsuffix.subset hrest)).toIsName

theorem normalParts_names_relative (hcwd : isAbsolute cwd = true)
    (start p : String) :
    normalParts true (absoluteNames cwd start ++ names (relative cwd start p)) =
      absoluteNames cwd p := by
  have hstart : ∀ n ∈ absoluteNames cwd start, Plain n := fun n => plain_of_mem_absoluteNames hcwd
  have hp : ∀ n ∈ absoluteNames cwd p, Plain n := fun n => plain_of_mem_absoluteNames hcwd
  have hway := foldl_step_between hstart hp []
  rw [List.append_nil, List.append_nil] at hway
  rw [(names_relative fun n hn => isName_of_mem_between hp hn).2,
    normalParts_append_of_plain hstart, hway, List.reverse_reverse]

theorem relative_inj (hcwd : isAbsolute cwd = true) {start : String} :
    relative cwd start p = relative cwd start q ↔ absoluteNames cwd p = absoluteNames cwd q := by
  constructor
  · intro h
    rw [← normalParts_names_relative hcwd start p, h, normalParts_names_relative hcwd]
  · intro h
    unfold relative
    rw [h]

theorem normalParts_dots_append {ns : List String} (h : ∀ n ∈ ns, Plain n) (k : Nat) :
    normalParts true (List.replicate k ".." ++ ns) = ns := by
  have hroot : (List.replicate k "..").foldl (step true) [] = [] := by
    induction k with
    | zero => rfl
    | succ k ih => exact ih
  rw [normalParts, List.foldl_append, hroot, foldl_step_of_plain h, List.append_nil,
    List.reverse_reverse]

/-- From the root, the way between two places leads to the second one unless both have the same
first name: the steps back go nowhere, and the names that follow are all of its names. -/
theorem normalParts_between_eq_iff (hbs : ∀ n ∈ bs, Plain n) :
    normalParts true (between as bs) = bs ↔ ¬ ∃ n ∈ bs.head?, n ∈ as.head? := by
  rw [between.eq_def]
  split
  · rename_i a as b bs
    obtain ⟨-, hrest⟩ := List.forall_mem_cons.mp hbs
    split
    · rename_i hsame
      -- the way lacks the shared name, so it is too short to be all the names
      obtain ⟨k, rest, hway, hsuffix⟩ := between_eq_dots_append as bs
      have hshort : normalParts true (between as bs) = rest := by
        rw [hway]
        exact normalParts_dots_append (fun n hn => hrest n (hsuffix.subset hn)) k
      refine iff_of_false ?_ (not_not_intro ⟨b, rfl, hsame ▸ rfl⟩)
      intro hwhole
      have hle := hsuffix.length_le
      rw [← hshort, hwhole, List.length_cons] at hle
      omega
    · rename_i hne
      refine iff_of_true (normalParts_dots_append hbs _) ?_
      rintro ⟨n, hb, ha⟩
      cases hb
      cases ha
      exact hne rfl
  · rename_i hends
    refine iff_of_true (normalParts_dots_append hbs _) ?_
    rintro ⟨n, hb, ha⟩
    obtain ⟨bs, rfl⟩ := List.head?_eq_some_iff.mp hb
    obtain ⟨as, rfl⟩ := List.head?_eq_some_iff.mp ha
    exact hends n as n bs rfl rfl

theorem IsNormal.not_endsWith_slash (h : IsNormal p) (hne : names p ≠ []) :
    (p.isEmpty || endsWith p "/") = false := by
  have hkept := dropTrailing_joinWith (fun n hn => h.plain hn) hne (leadingSlashes p)
  rw [← h.eq_joinWith] at hkept
  rw [Bool.or_eq_false_iff]
  constructor
  · obtain ⟨q, rfl⟩ := isAbsolute_iff.mp h.isAbsolute
    simp
  · rw [Bool.eq_false_iff]
    intro hend
    obtain ⟨front, hfront⟩ := List.isSuffixOf_iff_suffix.mp hend
    have hlast : front ++ ['/'] = p.toList := hfront
    have hshort := congrArg List.length hkept
    rw [← hlast, dropTrailing, List.reverse_concat, List.dropWhile_cons_of_pos (by simp),
      List.length_reverse, List.length_append] at hshort
    have hle := (List.dropWhile_sublist (· == '/') (l := front.reverse)).length_le
    rw [List.length_reverse] at hle
    simp only [List.length_cons, List.length_nil] at hshort
    omega

theorem endsWith_append (hq : q ≠ "") (p : String) :
    endsWith (p ++ q) "/" = endsWith q "/" := by
  obtain ⟨cs, c, hcs⟩ : ∃ cs c, q.toList = cs ++ [c] :=
    ⟨_, _, (List.dropLast_concat_getLast (mt String.toList_eq_nil_iff.mp hq)).symm⟩
  rw [endsWith, endsWith, String.toList_append, hcs, List.isSuffixOf, List.isSuffixOf,
    List.reverse_append, List.reverse_concat]
  rfl

theorem join_append {r : String} (hq : q ≠ "") (hr : isAbsolute r = false) (p : String) :
    join (p ++ q) r = p ++ join q r := by
  have hwhole : (p ++ q).isEmpty = false := by simp [hq]
  have hempty : q.isEmpty = false := by simpa using hq
  rw [join, join, hr, hwhole, hempty, endsWith_append hq]
  simp only [Bool.false_eq_true, ↓reduceIte, Bool.false_or]
  split <;> simp only [String.append_assoc]

theorem IsNormal.names_eq_append (h : IsNormal p) :
    names p = names (Path.dirName p) ++ names (Path.baseName p) := by
  rcases h.split_cases with ⟨hnames, hcut⟩ | ⟨ms, n, hnames, hcut⟩
  · obtain ⟨hdir, hbase⟩ := Prod.mk.inj hcut
    rw [hdir, hbase, names_empty, List.append_nil]
  · obtain ⟨hdir, hbase⟩ := Prod.mk.inj hcut
    have hplain : ∀ m ∈ ms ++ [n], Plain m := fun m hm => h.plain (hnames ▸ hm)
    obtain ⟨hms, hn⟩ := List.forall_mem_append.mp hplain
    rw [hdir, hbase, names_lead_append (leadingSlashes_of_isAbsolute h.isAbsolute),
      names_joinWith fun m hm => (hms m hm).toIsName, (hn n List.mem_cons_self).names_eq, hnames]

theorem IsNormal.isAbsolute_baseName (h : IsNormal p) :
    Path.isAbsolute (Path.baseName p) = false := by
  rcases h.baseName with hempty | hplain
  · rw [hempty]
    rfl
  · rw [Bool.eq_false_iff]
    intro hslash
    obtain ⟨q, hq⟩ := isAbsolute_iff.mp hslash
    exact hplain.slash_not_mem (hq ▸ by simp)

end Path

namespace Hook.Git

open LintRunner.Path

variable {cwd destination dir file : String}

/-- The place for a directory lacks names of it: resolved, the common start of the two paths begins
with the first of these names. -/
def Shortens (destination dir : String) : Prop :=
  ∃ n ∈ (names dir).head?, n ∈ (normalParts true (names (commonStart [dir, destination]))).head?

instance : DecidablePred (Shortens destination) := fun dir =>
  Option.decidableExistsMem (names dir).head?

theorem placeBelow_eq_append (hdestination : IsNormal destination) (hne : names destination ≠ [])
    (hdir : IsNormal dir) (cwd : String) :
    ∃ rest, placeBelow cwd destination dir = .ok (destination ++ rest) ∧ isAbsolute rest = true ∧
      normalParts true (names rest) = normalParts true (way destination dir) := by
  obtain ⟨hrelative, hresolved⟩ := relative_resolves hdestination hdir cwd
  refine ⟨"/" ++ relative cwd (commonStart [dir, destination]) dir, ?_,
    isAbsolute_iff.mpr ⟨_, rfl⟩, ?_⟩
  · rw [placeBelow_eq hdir, ← String.append_assoc]
    simp [join, hrelative, hdestination.not_endsWith_slash hne]
  · have hnames := hresolved []
    rw [List.nil_append, List.nil_append] at hnames
    rw [names_slash_append, hnames]

/-- The path of a copy is the temporary directory with a path behind it: that of the directory as
far as it was kept, and the name of the file. -/
theorem copyPath_eq_append (hdestination : IsNormal destination) (hne : names destination ≠ [])
    (hcwd : isAbsolute cwd = true) (file : String) :
    ∃ place rest, copyPath cwd destination file = .ok (place, destination ++ rest) ∧
      isAbsolute rest = true ∧
      absoluteNames cwd rest =
        normalParts true (way destination (Path.dirName (absolute cwd file))) ++
          names (Path.baseName (absolute cwd file)) := by
  have hfile : IsNormal (absolute cwd file) := isNormal_normal (isAbsolute_join hcwd file)
  have hbase := hfile.isAbsolute_baseName
  obtain ⟨rest, hplace, hrest, hway⟩ := placeBelow_eq_append hdestination hne hfile.dirName cwd
  have hnonempty : rest ≠ "" := by
    rintro rfl
    exact absurd hrest (by decide)
  have habsolute := isAbsolute_join hrest (Path.baseName (absolute cwd file))
  refine ⟨destination ++ rest, _, ?_, habsolute, ?_⟩
  · rw [copyPath, hplace, ← join_append hnonempty hbase]
    rfl
  · rw [absoluteNames_of_isAbsolute habsolute, names_join hbase, ← hway]
    rcases hfile.baseName with hempty | hplain
    · rw [hempty, names_empty, List.append_nil, List.append_nil]
    · rw [hplain.names_eq, normalParts_concat hplain]

theorem restoreName_append {rest : String} (h : isAbsolute rest = true) (cwd destination : String) :
    restoreName cwd destination (destination ++ rest) = .ok (relative cwd "." rest) := by
  have hstarts : startsWith (destination ++ rest) destination = true := by
    rw [startsWith, String.toList_append, List.isPrefixOf_iff_prefix]
    exact List.prefix_append _ _
  have hcut : drop destination.length (destination ++ rest) = rest := by
    rw [drop, String.toList_append, ← String.length_toList, List.drop_left, String.ofList_toList]
  have hnonempty : ¬ rest.isEmpty = true := by
    obtain ⟨q, rfl⟩ := isAbsolute_iff.mp h
    simp
  rw [restoreName, if_pos hstarts, hcut, wayTo, if_neg hnonempty]

theorem restoreName_ok {name : String} (h : name ≠ destination) (cwd : String) :
    ∃ shown, restoreName cwd destination name = .ok shown := by
  unfold restoreName
  split
  · rename_i hstarts
    obtain ⟨rest, hrest⟩ := List.isPrefixOf_iff_prefix.mp hstarts
    have hnonempty : ¬ (drop destination.length name).isEmpty = true := by
      rw [String.isEmpty_iff, drop, ← hrest, ← String.length_toList, List.drop_left]
      intro hnone
      have hnil : rest = [] := by simpa using congrArg String.toList hnone
      rw [hnil, List.append_nil] at hrest
      exact h (String.toList_inj.mp hrest).symm
    exact ⟨_, by rw [wayTo, if_neg hnonempty]⟩
  · exact ⟨name, rfl⟩

/-- The copy of a file is shown under the file's own name exactly if no name of its directory is
lacking. -/
theorem restoreName_copy_iff (hdestination : IsNormal destination) (hne : names destination ≠ [])
    (hcwd : isAbsolute cwd = true) (file : String) :
    ∃ place path, copyPath cwd destination file = .ok (place, path) ∧ isAbsolute path = true ∧
      ∃ shown, restoreName cwd destination path = .ok shown ∧
        (shown = relative cwd "." (absolute cwd file) ↔
          ¬ Shortens destination (Path.dirName (absolute cwd file))) := by
  have hfile : IsNormal (absolute cwd file) := isNormal_normal (isAbsolute_join hcwd file)
  have hdir := hfile.dirName
  obtain ⟨place, rest, hpath, habsolute, hnames⟩ :=
    copyPath_eq_append hdestination hne hcwd file
  refine ⟨place, destination ++ rest, hpath, ?_, _, restoreName_append habsolute cwd destination,
    ?_⟩
  · obtain ⟨q, hq⟩ := isAbsolute_iff.mp hdestination.isAbsolute
    exact isAbsolute_iff.mpr ⟨q ++ rest, by rw [hq, String.append_assoc]⟩
  · rw [relative_inj hcwd, hnames, hfile.absoluteNames_eq, hfile.names_eq_append,
      List.append_cancel_right_eq, way, normalParts_between_eq_iff fun n hn => hdir.plain hn]
    rfl

end Hook.Git

namespace Running

open Check (FileChecker Manager)

theorem run_restoreNames {destination : String} {a : Application} {m : Manager}
    (hm : a.manager = some m) {R : String → String → Prop}
    (h : ∀ c ∈ m.checkers, ∃ name shown, c.displayName = .text name ∧
      Hook.Git.restoreName a.world.tree.cwd destination name = .ok shown ∧ R name shown) :
    ∃ checkers, (restoreNames destination).run a =
        (.ok (), { a with manager := some { m with checkers := checkers } }) ∧
      List.Forall₂ (fun c c' => ∃ name shown, c.displayName = .text name ∧
        c' = { c with displayName := .text shown } ∧ R name shown) m.checkers checkers := by
  have hall : ∀ c ∈ m.checkers, ∃ c', (do
      let name ← Hook.Git.restoreName a.world.tree.cwd destination (← c.displayName.asText)
      return { c with displayName := .text name } : Except Fault FileChecker) = .ok c' ∧
      ∃ name shown, c.displayName = .text name ∧ c' = { c with displayName := .text shown } ∧
        R name shown := by
    intro c hc
    obtain ⟨name, shown, hname, hshown, hR⟩ := h c hc
    have htext : c.displayName.asText = .ok name := by rw [hname]; rfl
    refine ⟨_, ?_, name, shown, hname, rfl, hR⟩
    rw [htext]
    dsimp only [bind, Except.bind]
    rw [hshown]
    rfl
  obtain ⟨checkers, hmap, hR⟩ := mapM_forall₂ hall
  have hneed : (need a.manager).run a = (.ok m, a) := by rw [hm]; rfl
  refine ⟨checkers, ?_, hR⟩
  unfold restoreNames
  rw [run_bind_of_ok (run_get a), run_bind_of_ok hneed, hmap]
  rfl

end Running

namespace Hook.Git

open LintRunner.Path
open Check (Checks FileChecker Manager)

/-- A file is shown under the path of its copy until names are restored. Then every file of the run
has a name again, and a copy is shown under the name of its file as seen from the working directory
exactly if its place lacks no name of the file's directory. -/
theorem restoreNames_shows_file_iff {destination file path : String} {content : List UInt8}
    {w w' : World} (hdestination : IsNormal destination) (hcwd : isAbsolute w.tree.cwd = true)
    (houtside : ¬ Within w.tree.cwd destination w.tree.cwd)
    (hcopy : (copyTo destination file content).run w = (.ok path, w')) :
    (∀ (s : Settings) (checks : Checks) (v v' : World) (c : FileChecker),
      FileChecker.make s checks (.text path) v = (.ok c, v') → c.displayName = .text path) ∧
    ∀ (a : Application) (m : Manager), a.manager = some m → a.world.tree.cwd = w.tree.cwd →
      (∀ c ∈ m.checkers, ∃ name, c.displayName = .text name ∧ name ≠ destination) →
      ∃ checkers, (Running.restoreNames destination).run a =
          (.ok (), { a with manager := some { m with checkers := checkers } }) ∧
        List.Forall₂ (fun c c' => ∃ shown, c' = { c with displayName := .text shown } ∧
          (c.displayName = .text path →
            (shown = relative w.tree.cwd "." (absolute w.tree.cwd file) ↔
              ¬ Shortens destination (Path.dirName (absolute w.tree.cwd file)))))
          m.checkers checkers := by
  have hne : names destination ≠ [] := by
    intro hroot
    apply houtside
    rw [Within, hdestination.absoluteNames_eq, hroot]
    exact List.nil_prefix
  obtain ⟨place, path', hpath, habsolute, shown, hshown, hright⟩ :=
    restoreName_copy_iff hdestination hne hcwd file
  obtain ⟨rfl, -⟩ := (copied_copyTo hpath content).of_ok hcopy
  refine ⟨fun s checks v v' c hmake => ?_, fun a m hm ha hnames => ?_⟩
  · have hdash : path ≠ "-" := by
      rintro rfl
      exact absurd habsolute (by decide)
    exact (FileChecker.make_text hdash hmake).2.2
  · have hrestored : ∀ c ∈ m.checkers, ∃ name shown, c.displayName = .text name ∧
        restoreName a.world.tree.cwd destination name = .ok shown ∧
        (name = path → (shown = relative w.tree.cwd "." (absolute w.tree.cwd file) ↔
          ¬ Shortens destination (Path.dirName (absolute w.tree.cwd file)))) := by
      intro c hc
      obtain ⟨name, hname, hother⟩ := hnames c hc
      rw [ha]
      by_cases hcopied : name = path
      · exact ⟨name, shown, hname, hcopied ▸ hshown, fun _ => hright⟩
      · obtain ⟨shown', hshown'⟩ := restoreName_ok hother w.tree.cwd
        exact ⟨name, shown', hname, hshown', fun heq => absurd heq hcopied⟩
    obtain ⟨checkers, hrun, hall⟩ := Running.run_restoreNames hm hrestored
    refine ⟨checkers, hrun, hall.imp ?_⟩
    rintro c c' ⟨name, shown', hname, hc', hiff⟩
    refine ⟨shown', hc', fun hpathname => hiff ?_⟩
    rw [hname] at hpathname
    exact Value.text.inj hpathname

def checkedCopy (w : World) (path : String) : Application where
  catalogue := {}
  world := w
  words := []
  manager := some {
    arguments := .none
    jobs := .int 0
    parallel := false
    poolFault := none
    checkers := [{ filename := .text path, displayName := .text path, checks := {} }] }

/-- A working directory and a temporary one that have no name in common. -/
def separateRoots : World where
  tree := {
    cwd := "/home"
    root := .directory [("home", .directory [("a.py", .ofBytes [111])]), ("var", .empty)] }

/-- The names that the files of a run are shown under once names are restored. -/
def shownNames (destination : String) (a : Application) : Option (List Value) :=
  ((Running.restoreNames destination).run a).2.manager.map fun m =>
    m.checkers.map (·.displayName)

/-- Where the two directories part at the root, the whole way is copied and the name is right. -/
theorem restoreNames_shows_file_of_separateRoots :
    ∃ w', (copyTo "/var" "a.py" [110]).run separateRoots = (.ok "/var/home/a.py", w') ∧
      ¬ Within "/home" "/var" "/home" ∧ ¬ Shortens "/var" "/home" ∧
      shownNames "/var" (checkedCopy w' "/var/home/a.py") =
        some [.text (relative "/home" "." (absolute "/home" "a.py"))] := by
  have hvar : IsNormal "/var" := ⟨rfl, by decide +kernel⟩
  have hcwd : separateRoots.tree.cwd = "/home" := rfl
  have houtside : ¬ Within "/home" "/var" "/home" := by decide +kernel
  have hkept : ¬ Shortens "/var" "/home" := by decide +kernel
  have hdone : ((copyTo "/var" "a.py" [110]).run separateRoots).1 = .ok "/var/home/a.py" :=
    eq_ok_of_toOption (by decide +kernel)
  have hstays : ((copyTo "/var" "a.py" [110]).run separateRoots).2.tree.cwd = "/home" := by
    decide +kernel
  rcases hrun : (copyTo "/var" "a.py" [110]).run separateRoots with ⟨r, w'⟩
  rw [hrun] at hdone hstays
  obtain rfl : r = .ok "/var/home/a.py" := hdone
  have hdir : Path.dirName (absolute "/home" "a.py") = "/home" := by decide +kernel
  obtain ⟨-, hrestore⟩ := restoreNames_shows_file_iff hvar (hcwd ▸ rfl) (hcwd ▸ houtside) hrun
  rw [hcwd, hdir] at hrestore
  obtain ⟨checkers, hnames, hall⟩ := hrestore (checkedCopy w' "/var/home/a.py") _ rfl hstays
    (List.forall_mem_singleton.mpr ⟨"/var/home/a.py", rfl, by decide⟩)
  refine ⟨w', rfl, houtside, hkept, ?_⟩
  rw [shownNames, hnames]
  cases hall with
  | cons hfirst hrest =>
    obtain ⟨shown, rfl, hiff⟩ := hfirst
    cases hrest
    rw [(hiff rfl).mpr hkept]
    rfl

/-- Beside the working directory, the temporary one shares a name with it, and the name of that part
of the way is lost: the file is shown as one that lies elsewhere. -/
theorem restoreNames_loses_shared_names :
    IsNormal "/tmp/staged" ∧ ¬ Within "/tmp/tree" "/tmp/staged" "/tmp/tree" ∧
      ((copyTo "/tmp/staged" "a.py" [110]).run workingTree).1 = .ok "/tmp/staged/tree/a.py" ∧
      relative "/tmp/tree" "." (absolute "/tmp/tree" "a.py") = "a.py" ∧
      shownNames "/tmp/staged" (checkedCopy
        ((copyTo "/tmp/staged" "a.py" [110]).run workingTree).2 "/tmp/staged/tree/a.py") =
        some [.text "../../tree/a.py"] := by
  refine ⟨⟨rfl, by decide +kernel⟩, by decide +kernel, eq_ok_of_toOption (by decide +kernel),
    by decide +kernel, by decide +kernel⟩

end Hook.Git

end LintRunner
