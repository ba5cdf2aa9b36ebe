import LintRunner.Check.Manager
import LintRunner.Proofs.Stateful

/-!
# The files that a run opens

When standard input is not among the arguments, every file of a run is shown under the name it was
found by. Opening files leaves the world as it is, so files of one name are opened alike.
-/

namespace LintRunner

theorem Path.slash_mem_join {p : String} (hp : p ≠ "") (q : String) :
    '/' ∈ (Path.join p q).toList := by
  have hslash : "/".toList = ['/'] := rfl
  unfold Path.join
  split
  · rename_i habsolute
    simp only [Path.isAbsolute, Text.startsWith, List.isPrefixOf_iff_prefix, hslash] at habsolute
    exact habsolute.subset List.mem_cons_self
  · split
    · rename_i hend
      have hsuffix : Text.endsWith p "/" = true := by simpa [hp] using hend
      simp only [Text.endsWith, List.isSuffixOf_iff_suffix, hslash] at hsuffix
      rw [String.toList_append]
      exact List.mem_append_left _ (hsuffix.subset List.mem_cons_self)
    · simp [hslash]

namespace Discovery

theorem slash_mem_of_mem_ownFiles {excluded : String → Bool} {path f : String}
    {entries : List (String × Node)} (hpath : path ≠ "") (hf : f ∈ ownFiles excluded path entries) :
    '/' ∈ f.toList := by
  obtain ⟨name, _, hname⟩ := List.mem_filterMap.mp hf
  dsimp only at hname
  split at hname
  · cases hname
  · cases hname
    exact Path.slash_mem_join hpath name

mutual

theorem slash_mem_of_mem_filesBelow {excluded : String → Bool} {path f : String}
    (hpath : path ≠ "") :
    (node : Node) → f ∈ filesBelow excluded path node → '/' ∈ f.toList
  | .file .., hf => by simp [filesBelow] at hf
  | .directory entries, hf => by
      rw [filesBelow] at hf
      split at hf
      · cases hf
      · rcases List.mem_append.mp hf with hown | hdeep
        · exact slash_mem_of_mem_ownFiles hpath hown
        · exact slash_mem_of_mem_filesBelowEntries hpath entries hdeep

theorem slash_mem_of_mem_filesBelowEntries {excluded : String → Bool} {path f : String}
    {kept : List String} (hpath : path ≠ "") :
    (entries : List (String × Node)) → f ∈ filesBelowEntries excluded path kept entries →
      '/' ∈ f.toList
  | [], hf => by simp [filesBelowEntries] at hf
  | (name, node) :: rest, hf => by
      rw [filesBelowEntries] at hf
      rcases List.mem_append.mp hf with hhead | hrest
      · split at hhead
        · have hjoin : Path.join path name ≠ "" := by
            intro hempty
            have hmem := Path.slash_mem_join hpath name
            simp [hempty] at hmem
          exact slash_mem_of_mem_filesBelow hjoin node hhead
        · cases hhead
      · exact slash_mem_of_mem_filesBelowEntries hpath rest hrest

end

theorem ne_dash_of_mem_filesFrom {t : FileTree} {excluded : String → Bool} {arg f : String}
    (harg : arg ≠ "-") (hf : f ∈ filesFrom t excluded arg) : f ≠ "-" := by
  unfold filesFrom at hf
  split at hf
  · cases hf
  · split at hf
    · rename_i entries hnode
      have hempty : arg ≠ "" := by
        rintro rfl
        simp [FileTree.node?, FileTree.resolve] at hnode
      have hslash := slash_mem_of_mem_filesBelow hempty _ hf
      rintro rfl
      exact absurd hslash (by decide)
    · rw [List.mem_singleton.mp hf]
      exact harg

theorem exists_text_of_mem_filesBy {t : FileTree} {excluded : Value → Except Fault Bool}
    {arg : String} {files : List Value} {v : Value} (harg : arg ≠ "-")
    (hfiles : filesBy t excluded (.text arg) = .ok files) (hv : v ∈ files) :
    ∃ f, v = .text f ∧ f ≠ "-" := by
  unfold filesBy at hfiles
  rcases hex : excluded (.text arg) with e | skip <;> rw [hex] at hfiles
  · cases hfiles
  · cases skip with
    | true =>
      cases hfiles
      cases hv
    | false =>
      cases hfiles
      obtain ⟨f, hf, rfl⟩ := List.mem_map.mp hv
      exact ⟨f, rfl, ne_dash_of_mem_filesFrom harg hf⟩

end Discovery

namespace Run

open Stateful

theorem run_lift {α : Type} (r : Except Fault α) (w : World) : (lift r).run w = (r, w) := by
  cases r <;> rfl

theorem gives_lift {α : Type} {r : Except Fault α} {w : World} :
    Gives w (lift r) fun a w' => r = .ok a ∧ w' = w := by
  intro a w' h
  rw [run_lift] at h
  exact ⟨congrArg Prod.fst h, (congrArg Prod.snd h).symm⟩

theorem run_step {α : Type} (f : World → Except Fault α × World) (w : World) :
    (step f).run w = f w := by
  show (lift (f w).1).run (f w).2 = f w
  rw [run_lift]

end Run

namespace Check

open Stateful

variable {s : Settings} {checks : Checks} {w w' : World} {c : FileChecker} {f : String}

theorem readLines_text (hf : f ≠ "-") (w : World) :
    (readLines s (.text f) w).2 = w ∧
      ∀ name lines, (readLines s (.text f) w).1 = .ok (name, lines) → name = .text f := by
  unfold readLines
  dsimp only
  split
  · contradiction
  · rename_i heq
    cases heq
    contradiction
  · split
    · exact ⟨rfl, fun _ _ h => by cases h⟩
    · refine ⟨rfl, fun _ _ h => ?_⟩
      cases h
      rfl

theorem openFile_text (hf : f ≠ "-") (w : World) :
    (openFile s (.text f) none w).2 = w ∧
      ∀ p, (openFile s (.text f) none w).1 = .ok p → p.filename = .text f := by
  obtain ⟨hworld, hname⟩ := readLines_text (s := s) hf w
  unfold openFile
  dsimp only
  refine ⟨hworld, fun p hp => ?_⟩
  rcases hlines : (readLines s (.text f) w).1 with e | ⟨name, lines⟩ <;> rw [hlines] at hp
  · cases hp
  · simp only [bind, Except.bind, pure, Except.pure] at hp
    repeat' split at hp
    all_goals cases hp
    exact hname name lines hlines

/-- The file is opened in a world under its own name, and it is not standard input. -/
def OpenedIn (s : Settings) (checks : Checks) (w : World) (c : FileChecker) : Prop :=
  ∃ f, f ≠ "-" ∧ FileChecker.make s checks (.text f) w = (.ok c, w)

namespace FileChecker

theorem make_fresh {v : Value} (h : make s checks v w = (.ok c, w')) : c.handed = none ∧ c.counted = true := by
  unfold make at h
  dsimp only at h
  split at h
  · cases h
    exact ⟨rfl, rfl⟩
  · split at h <;> cases h
    exact ⟨rfl, rfl⟩

theorem make_text (hf : f ≠ "-") (h : make s checks (.text f) w = (.ok c, w')) :
    w' = w ∧ c.filename = .text f ∧ c.displayName = .text f := by
  obtain ⟨hworld, hname⟩ := openFile_text (s := s) hf w
  unfold make at h
  dsimp only at h
  split at h
  · rename_i p w₁ hopen
    rw [hopen] at hworld hname
    cases h
    exact ⟨hworld, rfl, hname p rfl⟩
  · rename_i e w₁ hopen
    rw [hopen] at hworld
    split at h <;> cases h
    exact ⟨hworld, rfl, rfl⟩

end FileChecker

theorem OpenedIn.eq_of_filename_eq {d : FileChecker} (hc : OpenedIn s checks w c) (hd : OpenedIn s checks w d) (h : c.filename = d.filename) :
    c = d := by
  obtain ⟨f, hf, hmakec⟩ := hc
  obtain ⟨g, hg, hmaked⟩ := hd
  rw [(FileChecker.make_text hf hmakec).2.1, (FileChecker.make_text hg hmaked).2.1] at h
  cases h
  rw [hmakec] at hmaked
  cases hmaked
  rfl

namespace Manager

variable {I : World → Prop} {R : FileChecker → Prop} {m m' : Manager}

def OpensWith (s : Settings) (checks : Checks) (I : World → Prop) (R : FileChecker → Prop)
    (file : Value) : Prop :=
  ∀ w c w', I w → FileChecker.make s checks file w = (.ok c, w') → I w' ∧ R c

theorem gives_openFound {arg file : Value} (hfile : OpensWith s checks I R file)
    (hw : I w) : Gives w (openFound s checks arg file) fun cs w' => I w' ∧ ∀ c ∈ cs, R c := by
  refine .bind Run.gives_lift fun wanted w₁ hlift => ?_
  obtain ⟨-, rfl⟩ := hlift
  cases wanted with
  | false => exact .pure ⟨hw, fun c hc => absurd hc List.not_mem_nil⟩
  | true =>
    have hmake : Gives w₁ (Run.step (FileChecker.make s checks file)) fun c w' => I w' ∧ R c := by
      intro c w' hrun
      rw [Run.run_step] at hrun
      exact hfile w₁ c w' hw hrun
    refine .bind hmake fun c w₂ hc => .pure ⟨hc.1, fun c' hc' => ?_⟩
    split at hc'
    · rw [List.mem_singleton.mp hc']
      exact hc.2
    · cases hc'

theorem gives_openArgument {arg : Value}
    (hfiles : ∀ t files, Discovery.filesBy t (excludes s t.cwd) arg = .ok files →
      ∀ file ∈ files, OpensWith s checks I R file) (hw : I w) :
    Gives w (openArgument s checks arg) fun cs w' => I w' ∧ ∀ c ∈ cs, R c := by
  refine .bind (P := fun t w' => w' = w) (fun t w' h => by cases h; rfl) fun t w₁ hw₁ => ?_
  rw [hw₁]
  refine .bind Run.gives_lift fun files w₂ hlift => ?_
  obtain ⟨hfound, rfl⟩ := hlift
  refine .bind
    (.mapM (fun file hfile w' hw' => gives_openFound (hfiles t files hfound file hfile) hw')
    hw) fun css w₃ hcss => .pure ⟨hcss.1, fun c hc => ?_⟩
  obtain ⟨cs, hcs, hmem⟩ := List.mem_flatten.mp hc
  exact hcss.2 cs hcs c hmem

theorem gives_openFiles {paths : Value}
    (hfiles : ∀ args, (m.pathsOf paths).elements = .ok args → ∀ arg ∈ args, ∀ t files,
      Discovery.filesBy t (excludes s t.cwd) arg = .ok files →
        ∀ file ∈ files, OpensWith s checks I R file) (hw : I w) :
    Gives w (openFiles s checks m paths) fun m' _ =>
      m' = { m with checkers := m'.checkers } ∧ ∀ c ∈ m'.checkers, R c := by
  refine .bind Run.gives_lift fun args w₁ hlift => ?_
  obtain ⟨hargs, rfl⟩ := hlift
  refine .bind (.mapM (fun arg harg w' hw' => gives_openArgument (hfiles args hargs arg harg) hw')
    hw) fun css w₂ hcss => .pure ⟨rfl, fun c hc => ?_⟩
  obtain ⟨cs, hcs, hmem⟩ := List.mem_flatten.mp hc
  exact hcss.2 cs hcs c hmem

/-- Only the files of a manager change when they are opened, and no results have been handed over
for them. -/
theorem openFiles_fresh {paths : Value}
    (h : (openFiles s checks m paths).run w = (.ok m', w')) :
    m' = { m with checkers := m'.checkers } ∧
      ∀ c ∈ m'.checkers, c.handed = none ∧ c.counted = true := by
  apply gives_openFiles (I := fun _ => True) _ trivial m' w' h
  intro args _ arg _ t files _ file _ w c w' _ hmake
  exact ⟨trivial, FileChecker.make_fresh hmake⟩

/-- When standard input is not among the arguments of a run, its files are opened in one world and
under their own names. -/
theorem openFiles_openedIn {args : List String} (hargs : m.arguments = Value.texts args)
    (hdash : "-" ∉ args) (h : (openFiles s checks m .none).run w = (.ok m', w')) :
    ∀ c ∈ m'.checkers, OpenedIn s checks w c := by
  have hpaths : ∃ paths : List String,
      (m.pathsOf .none).elements = .ok (paths.map .text) ∧ "-" ∉ paths := by
    have hnone : (Value.none == Value.none) = true := by decide
    unfold pathsOf
    dsimp only
    rw [if_pos hnone, hargs]
    split
    · exact ⟨args, rfl, hdash⟩
    · exact ⟨["."], rfl, by decide⟩
  obtain ⟨paths, hpaths, hdash⟩ := hpaths
  refine (gives_openFiles (I := (· = w)) (R := OpenedIn s checks w) ?_ rfl m' w' h).2
  intro values hvalues v hv t files hfiles file hfile w₁ c w₂ hw₁ hmake
  rw [hpaths] at hvalues
  cases hvalues
  obtain ⟨arg, harg, rfl⟩ := List.mem_map.mp hv
  obtain ⟨f, rfl, hf⟩ :=
    Discovery.exists_text_of_mem_filesBy (fun hd => hdash (hd ▸ harg)) hfiles hfile
  rw [hw₁] at hmake
  have hworld := (FileChecker.make_text hf hmake).1
  rw [hworld] at hmake
  exact ⟨hworld, f, hf, hmake⟩

theorem make_arguments {arguments : Value} (h : make s w arguments = .ok m) : m.arguments = arguments ∧ m.counts = {} := by
  unfold make at h
  obtain ⟨jobs, -, hjobs⟩ := bind_ok h
  obtain ⟨parallel, -, hend⟩ := bind_ok hjobs
  cases hend
  exact ⟨rfl, rfl⟩

theorem dash_not_mem_of_make {args : List String} {n : Int}
    (h : make s w (Value.texts args) = .ok m) (hjobs : m.jobs = .int n) (hn : 0 < n) :
    "-" ∉ args := by
  intro hdash
  have hstdin : usesStdin (Value.texts args) = .ok true := by
    have hany : (args.map Value.text).any (Value.same (.text "-")) = true := by
      simpa [Value.same_text] using hdash
    show Except.ok ((args.map Value.text).any (Value.same (.text "-"))) = Except.ok true
    rw [hany]
  have hzero : jobCount s w (Value.texts args) = .ok (.int 0) := by
    unfold jobCount
    rw [hstdin]
    split <;> rfl
  unfold make at h
  rw [hzero] at h
  cases h
  cases hjobs
  exact absurd hn (Int.lt_irrefl 0)

end Manager

end Check

end LintRunner
