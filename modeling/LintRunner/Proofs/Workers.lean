import LintRunner.Proofs.OpenedFiles
import LintRunner.Proofs.PlaceOrder
import LintRunner.Proofs.RunSteps
import Mathlib.Algebra.Ring.Int.Defs

/-!
# Checking with worker processes

Workers deliver what they found in any order, and each delivery is put where the name that a file
is shown under says. Since files of a run that go by one name are opened alike, this reports what
checking one file after the other reports: the same findings, in the same order, and the same
totals.
-/

namespace LintRunner.Check.Manager

open Stateful

theorem run_lift {α : Type} (r : Except Fault α) (m : Manager) :
    (Supervising.lift r).run m = (r, m) := by
  cases r <;> rfl

/-- A file after all of its checks. -/
def checkedFile (c : FileChecker) : FileChecker := (FileChecker.runChecks.run c).2

theorem checkedFile_identity (c : FileChecker) :
    (checkedFile c).filename = c.filename ∧ (checkedFile c).displayName = c.displayName ∧
      (checkedFile c).handed = c.handed ∧ (checkedFile c).counted = c.counted := by
  have hkept : (checkedFile c).identity = c.identity :=
    FileChecker.identity_runChecks c
  simp only [FileChecker.identity, FileChecker.mk.injEq] at hkept
  obtain ⟨hfilename, hshown, -, -, -, hcounted, hhanded, -⟩ := hkept
  exact ⟨hfilename, hshown, hhanded, hcounted⟩

theorem checkAll_ok {cs : List FileChecker} (h : (checkAll cs).1 = .ok ()) :
    (checkAll cs).2 = cs.map checkedFile := by
  induction cs with
  | nil => rfl
  | cons c rest ih =>
    unfold checkAll at h ⊢
    rcases hrun : FileChecker.runChecks.run c with ⟨e | _, c'⟩ <;> rw [hrun] at h
    · cases h
    · rw [List.map_cons, checkedFile, hrun, ← ih h]

theorem run_runSerial (m : Manager) :
    runSerial.run m = ((checkAll m.checkers).1, { m with checkers := (checkAll m.checkers).2 }) := by
  unfold runSerial
  rw [run_get_bind, run_bind, run_modify]
  exact run_lift _ _

theorem collectAll_map {ds : List Delivery} {cs : List FileChecker}
    {kept collected : FileChecker → FileChecker}
    (h : ∀ c ∈ cs, collect ds (kept c) = .ok (collected c)) :
    collectAll ds (cs.map kept) = (.ok (), cs.map collected) := by
  induction cs with
  | nil => rfl
  | cons c rest ih =>
    rw [List.map_cons, collectAll, h c List.mem_cons_self]
    simp only [ih fun c' hc' => h c' (List.mem_cons_of_mem c hc'), List.map_cons]

theorem chunkSize_ok (k : Int) {n : Int} (hn : 0 < n) :
    ∃ size, chunkSize (.int k) (.int n) = .ok size := by
  have hsum : Value.sum (.int n) (.int n) = .ok (.int (n + n)) := rfl
  have hquotient : Value.floorQuotient (.int k) (.int (n + n)) = .ok (.int (k.fdiv (n + n))) := by
    simp only [Value.floorQuotient, Value.int?]
    rw [if_neg (by omega)]
    rfl
  simp only [chunkSize, hsum, hquotient, bind, Except.bind, Value.isBelow, Value.liesWhere,
    Value.isNumber, if_true]
  split <;> exact ⟨_, rfl⟩

def Pool.keep (pool : Pool) (cs : List FileChecker) : List FileChecker :=
  if pool.copies then cs else (checkAll cs).2

theorem run_runParallelBy {m : Manager} {n : Int} (pool : Pool) (hfault : m.poolFault = none)
    (hjobs : m.jobs = .int n) (hn : 0 < n) :
    (runParallelBy pool).run m =
      match (checkAll m.checkers).1 with
      | .error e => (.error e, { m with checkers := pool.keep m.checkers })
      | .ok () =>
        let collected := collectAll (pool.arrange ((checkAll m.checkers).2.map delivery))
          (pool.keep m.checkers)
        (collected.1, { m with checkers := collected.2 }) := by
  obtain ⟨arguments, jobs, parallel, poolFault, checkers, counts⟩ := m
  cases hfault
  cases hjobs
  obtain ⟨size, hsize⟩ := chunkSize_ok checkers.length hn
  unfold runParallelBy
  rw [run_get_bind, run_get_bind]
  rw [run_bind, run_lift, hsize]
  dsimp only
  rw [run_bind, run_modify]
  dsimp only
  rw [run_bind, run_lift]
  cases (checkAll checkers).1 with
  | error e => rfl
  | ok _ =>
    dsimp only
    rw [run_bind, run_modify]
    exact run_lift _ _

section Deliveries

variable {s : Settings} {checks : Checks} {w : World} {cs : List FileChecker} {ds : List Delivery}

theorem deliveredFor_own (hopened : ∀ c ∈ cs, OpenedIn s checks w c)
    (hds : ds.Perm (cs.map fun c => delivery (checkedFile c))) {c : FileChecker} (hc : c ∈ cs) :
    deliveredFor c.displayName ds = some (delivery (checkedFile c)) := by
  have hfilename : ∀ d, (delivery (checkedFile d)).filename = d.filename :=
    fun d => (checkedFile_identity d).1
  obtain ⟨f, hf, hmake⟩ := hopened c hc
  obtain ⟨-, hname, hshown⟩ := FileChecker.make_text hf hmake
  have hmem : ∀ d, d ∈ ds.reverse ↔ ∃ c' ∈ cs, delivery (checkedFile c') = d := by
    intro d
    rw [List.mem_reverse, hds.mem_iff, List.mem_map]
  unfold deliveredFor
  cases hfind : ds.reverse.find? (·.filename.same c.displayName) with
  | none =>
    have hmiss := List.find?_eq_none.mp hfind _ ((hmem _).mpr ⟨c, hc, rfl⟩)
    rw [hfilename, hname, hshown, Value.same_text] at hmiss
    simp at hmiss
  | some d =>
    obtain ⟨c', hc', rfl⟩ := (hmem d).mp (List.mem_of_find?_eq_some hfind)
    have hsame := List.find?_some hfind
    obtain ⟨g, hg, hmake'⟩ := hopened c' hc'
    have hname' := (FileChecker.make_text hg hmake').2.1
    rw [hfilename, hname', hshown, Value.same_text, beq_iff_eq] at hsame
    have hcc : c' = c := by
      apply (hopened c' hc').eq_of_filename_eq (hopened c hc)
      rw [hname, hname', hsame]
    rw [hcc]

/-- What is collected for a file, as it stood before or after its check, is what the check found,
sorted by columns. -/
theorem collect_own (hopened : ∀ c ∈ cs, OpenedIn s checks w c)
    (hds : ds.Perm (cs.map fun c => delivery (checkedFile c))) {c kept : FileChecker} (hc : c ∈ cs)
    (hplaces : ∀ f ∈ (checkedFile c).results, f.HasIntegerPlace)
    (hkept : kept.displayName = c.displayName) :
    collect ds kept = .ok { kept with
      results := (checkedFile c).results.mergeSort leColumn
      counts := (checkedFile c).counts
      counted := true } := by
  unfold collect
  rw [hkept, deliveredFor_own hopened hds hc]
  simp only [delivery, byColumn_eq hplaces]
  rfl

end Deliveries

/-- A file as it stands when it is reported tells what checking it found. -/
structure Tells (c reported : FileChecker) : Prop where
  displayName : reported.displayName = c.displayName
  handed : reported.handed = none
  counted : reported.counted = true
  counts : reported.counts = (checkedFile c).counts
  places : byPlace reported.results = byPlace (checkedFile c).results

/-- The findings of files, each with the name it is shown under, in the order of their places. -/
def inOrder : List FileChecker → Except Fault (List (Value × List Finding))
  | [] => .ok []
  | c :: rest => do return (c.displayName, ← byPlace c.results) :: (← inOrder rest)

/-- Hands findings to the style guides, file by file; gives how many there were and how many of them
were reported. -/
def handOver : StyleGuides → List (Value × List Finding) → Run ((Nat × Nat) × StyleGuides)
  | guides, [] => return ((0, 0), guides)
  | guides, (file, findings) :: rest => do
    let ((found, reported), guides) ← reportResults .ok file guides findings
    let ((moreFound, moreReported), guides) ← handOver guides rest
    return ((found + moreFound, reported + moreReported), guides)

variable {cs : List FileChecker} {m : Manager}

theorem reportAll_eq_handOver (hhanded : ∀ c ∈ cs, c.handed = none)
    {calls : List (Value × List Finding)} (hcalls : inOrder cs = .ok calls) (guides : StyleGuides) :
    reportAll guides cs = handOver guides calls := by
  induction cs generalizing calls guides with
  | nil =>
    cases hcalls
    rfl
  | cons c rest ih =>
    rw [inOrder] at hcalls
    rcases hplaces : byPlace c.results with e | findings <;> rw [hplaces] at hcalls
    · cases hcalls
    · rcases hrest : inOrder rest with e | more <;> rw [hrest] at hcalls
      · cases hcalls
      · cases hcalls
        have hmore := fun guides => ih (fun d hd => hhanded d (List.mem_cons_of_mem c hd)) hrest guides
        simp only [reportAll, reportFile, hhanded c List.mem_cons_self, hplaces, Run.lift, handOver,
          pure_bind, hmore]

theorem inOrder_map {reported : FileChecker → FileChecker}
    (h : ∀ c ∈ cs, Tells c (reported c)) :
    inOrder (cs.map reported) = inOrder (cs.map checkedFile) := by
  induction cs with
  | nil => rfl
  | cons c rest ih =>
    have hc := h c List.mem_cons_self
    rw [List.map_cons, List.map_cons, inOrder, inOrder, hc.displayName, hc.places,
      (checkedFile_identity c).2.1, ih fun d hd => h d (List.mem_cons_of_mem c hd)]

theorem inOrder_checked
    (hplaces : ∀ c ∈ cs, ∀ f ∈ (checkedFile c).results, f.HasIntegerPlace) :
    ∃ calls, inOrder (cs.map checkedFile) = .ok calls := by
  induction cs with
  | nil => exact ⟨[], rfl⟩
  | cons c rest ih =>
    obtain ⟨calls, hcalls⟩ := ih fun d hd => hplaces d (List.mem_cons_of_mem c hd)
    rw [List.map_cons, inOrder, byPlace_eq (hplaces c List.mem_cons_self), hcalls]
    exact ⟨_, rfl⟩

def totals (ks : List FileCounts) : RunCounts where
  files := ks.length
  logicalLines := .int (ks.map fun k => (k.logicalLines : Int)).sum
  physicalLines := .int (ks.map fun k => (k.physicalLines : Int)).sum
  tokens := .int (ks.map fun k => (k.tokens : Int)).sum

theorem run_countFile {c : FileChecker} (hhanded : c.handed = none) (hcounted : c.counted = true)
    {files : Nat} {l p t : Int} (hm : m.counts = ⟨files, .int l, .int p, .int t⟩) :
    (countFile c).run m = (.ok (), { m with counts :=
      ⟨files, .int (l + c.counts.logicalLines), .int (p + c.counts.physicalLines),
        .int (t + c.counts.tokens)⟩ }) := by
  obtain ⟨arguments, jobs, parallel, poolFault, checkers, counts⟩ := m
  cases hm
  have hcount : ∀ name, countOf c name =
      if name = "tokens" then .ok (.int c.counts.tokens)
      else if name = "logical lines" then .ok (.int c.counts.logicalLines)
      else .ok (.int c.counts.physicalLines) := by
    intro name
    simp [countOf, hhanded, hcounted]
  unfold countFile countNames
  simp only [hcount]
  rfl

theorem run_countFiles
    (hfiles : ∀ c ∈ cs, c.handed = none ∧ c.counted = true) {files : Nat} {l p t : Int}
    (hm : m.counts = ⟨files, .int l, .int p, .int t⟩) :
    (forIn cs PUnit.unit fun c _ => do
        countFile c
        pure (ForInStep.yield PUnit.unit) : Supervising PUnit).run m =
      (.ok ⟨⟩, { m with counts :=
        ⟨files, .int (l + (cs.map fun c => (c.counts.logicalLines : Int)).sum),
          .int (p + (cs.map fun c => (c.counts.physicalLines : Int)).sum),
          .int (t + (cs.map fun c => (c.counts.tokens : Int)).sum)⟩ }) := by
  induction cs generalizing m l p t with
  | nil =>
    obtain ⟨arguments, jobs, parallel, poolFault, checkers, counts⟩ := m
    cases hm
    simp only [List.map_nil, List.sum_nil, Int.add_zero]
    rfl
  | cons c rest ih =>
    obtain ⟨hhanded, hcounted⟩ := hfiles c List.mem_cons_self
    rw [List.forIn_cons, run_bind, run_bind, run_countFile hhanded hcounted hm]
    dsimp only
    rw [run_pure]
    dsimp only
    rw [ih (fun d hd => hfiles d (List.mem_cons_of_mem c hd)) rfl]
    simp only [List.map_cons, List.sum_cons, Int.add_assoc]

theorem run_stop (hcounts : m.counts = {})
    (hfiles : ∀ c ∈ m.checkers, c.handed = none ∧ c.counted = true) :
    stop.run m = (.ok (), { m with counts := totals (m.checkers.map (·.counts)) }) := by
  unfold stop
  rw [run_get_bind, run_bind, run_countFiles hfiles hcounts]
  dsimp only
  rw [run_modify]
  simp only [totals, List.length_map, List.map_map, Function.comp_def, Nat.zero_add,
    Int.zero_add]

/-- Worker processes can be started, or cannot be started for want of space only. -/
def canSpread (m : Manager) : Bool :=
  match m.poolFault, m.jobs with
  | some e, _ => e.same noSpace
  | none, .int n => decide (0 < n)
  | none, _ => false

/-- Two managers hand over the same findings of the same files in the same order, to whichever style
guides, and add up the same totals. -/
structure ReportAlike (m n : Manager) : Prop where
  calls : ∃ calls, inOrder m.checkers = .ok calls ∧ inOrder n.checkers = .ok calls ∧
    ∀ guides, m.report guides = handOver guides calls ∧ n.report guides = handOver guides calls
  totals : ∃ counts, stop.run m = (.ok (), { m with counts := counts }) ∧
    stop.run n = (.ok (), { n with counts := counts })

/-- The files of a manager tell what checking the given ones found, and nothing has been counted. -/
structure TellsAll (cs : List FileChecker) (m : Manager) : Prop where
  counts : m.counts = {}
  checkers : ∃ reported, m.checkers = cs.map reported ∧ ∀ c ∈ cs, Tells c (reported c)

theorem TellsAll.inOrder (h : TellsAll cs m) :
    inOrder m.checkers = Manager.inOrder (cs.map checkedFile) := by
  obtain ⟨reported, hreported, htells⟩ := h.checkers
  rw [hreported, inOrder_map htells]

theorem TellsAll.fresh (h : TellsAll cs m) :
    ∀ c ∈ m.checkers, c.handed = none ∧ c.counted = true := by
  obtain ⟨reported, hreported, htells⟩ := h.checkers
  rw [hreported]
  intro c hc
  obtain ⟨c', hc', rfl⟩ := List.mem_map.mp hc
  exact ⟨(htells c' hc').handed, (htells c' hc').counted⟩

theorem TellsAll.totals (h : TellsAll cs m) :
    totals (m.checkers.map (·.counts)) = Manager.totals (cs.map fun c => (checkedFile c).counts) := by
  obtain ⟨reported, hreported, htells⟩ := h.checkers
  rw [hreported, List.map_map]
  congr 1
  exact List.map_congr_left fun c hc => (htells c hc).counts

theorem TellsAll.reportAlike {n : Manager} (hm : TellsAll cs m)
    (hn : TellsAll cs n) (hplaces : ∀ c ∈ cs, ∀ f ∈ (checkedFile c).results, f.HasIntegerPlace) :
    ReportAlike m n := by
  obtain ⟨calls, hcalls⟩ := inOrder_checked hplaces
  refine ⟨⟨calls, ?_, ?_, fun guides => ⟨?_, ?_⟩⟩, ⟨_, run_stop hm.counts hm.fresh, ?_⟩⟩
  · exact hm.inOrder.trans hcalls
  · exact hn.inOrder.trans hcalls
  · exact reportAll_eq_handOver (fun c hc => (hm.fresh c hc).1) (hm.inOrder.trans hcalls) guides
  · exact reportAll_eq_handOver (fun c hc => (hn.fresh c hc).1) (hn.inOrder.trans hcalls) guides
  · rw [run_stop hn.counts hn.fresh, hm.totals, hn.totals]

theorem tellsAll_runSerial (hcounts : m.counts = {})
    (hfresh : ∀ c ∈ m.checkers, c.handed = none ∧ c.counted = true)
    (hok : (runSerial.run m).1 = .ok ()) : TellsAll m.checkers (runSerial.run m).2 := by
  rw [run_runSerial] at hok ⊢
  refine ⟨hcounts, checkedFile, checkAll_ok hok, fun c hc => ?_⟩
  obtain ⟨-, hshown, hhanded, hcounted⟩ := checkedFile_identity c
  exact ⟨hshown, hhanded.trans (hfresh c hc).1, hcounted.trans (hfresh c hc).2, rfl, rfl⟩

theorem tellsAll_runParallelBy {s : Settings} {checks : Checks} {w : World} {n : Int}
    (pool : Pool) (hfault : m.poolFault = none) (hjobs : m.jobs = .int n) (hn : 0 < n)
    (hcounts : m.counts = {}) (hfresh : ∀ c ∈ m.checkers, c.handed = none ∧ c.counted = true)
    (hopened : ∀ c ∈ m.checkers, OpenedIn s checks w c)
    (hplaces : ∀ c ∈ m.checkers, ∀ f ∈ (checkedFile c).results, f.HasIntegerPlace)
    (hok : (runSerial.run m).1 = .ok ()) :
    ((runParallelBy pool).run m).1 = .ok () ∧ TellsAll m.checkers ((runParallelBy pool).run m).2 := by
  rw [run_runSerial] at hok
  have hchecked := checkAll_ok hok
  have hds : (pool.arrange ((checkAll m.checkers).2.map delivery)).Perm
      (m.checkers.map fun c => delivery (checkedFile c)) := by
    rw [hchecked, List.map_map]
    exact pool.arrange_perm _
  obtain ⟨kept, hkept, hshown, hhanded⟩ : ∃ kept : FileChecker → FileChecker,
      pool.keep m.checkers = m.checkers.map kept ∧ (∀ c, (kept c).displayName = c.displayName) ∧
        ∀ c, (kept c).handed = c.handed := by
    unfold Pool.keep
    split
    · exact ⟨id, (List.map_id _).symm, fun c => rfl, fun c => rfl⟩
    · exact ⟨checkedFile, hchecked, fun c => (checkedFile_identity c).2.1,
        fun c => (checkedFile_identity c).2.2.1⟩
  have hcollected := collectAll_map fun c hc =>
    collect_own hopened hds hc (hplaces c hc) (hshown c)
  rw [← hkept] at hcollected
  rw [run_runParallelBy pool hfault hjobs hn, hok, hcollected]
  refine ⟨rfl, hcounts, _, rfl, fun c hc => ?_⟩
  exact ⟨hshown c, (hhanded c).trans (hfresh c hc).1, rfl, rfl,
    byPlace_mergeSort_leColumn (hplaces c hc)⟩

theorem run_runParallelBy_noSpace {e : Value} (pool : Pool)
    (hfault : m.poolFault = some e) (he : e.same noSpace = true) :
    (runParallelBy pool).run m = runSerial.run { m with parallel := false } := by
  obtain ⟨arguments, jobs, parallel, poolFault, checkers, counts⟩ := m
  cases hfault
  unfold runParallelBy
  rw [run_bind, run_get]
  simp only [he]
  rfl

/-- Whichever way worker processes go about the files of a run, checking with them comes out as
checking one file after the other does, and reports the same. -/
theorem runParallelBy_reports_as_runSerial (s : Settings) (checks : Checks) (pool : Pool)
    (args : List String) {w₀ w w' : World} {m₀ m : Manager}
    (hmake : make s w₀ (Value.texts args) = .ok m₀)
    (hopen : (openFiles s checks m₀ .none).run w = (.ok m, w')) (hspread : m.canSpread = true)
    (hplaces : ∀ c ∈ m.checkers, ∀ f ∈ (checkedFile c).results, f.HasIntegerPlace) :
    ((runParallelBy pool).run m).1 = (runSerial.run m).1 ∧
      ((runSerial.run m).1 = .ok () →
        ReportAlike ((runParallelBy pool).run m).2 (runSerial.run m).2) := by
  obtain ⟨hm, hfresh⟩ := openFiles_fresh hopen
  have hmade := make_arguments hmake
  have hcounts : m.counts = {} := by
    rw [hm]
    exact hmade.2
  cases hfault : m.poolFault with
  | some e =>
    have he : e.same noSpace = true := by simpa [canSpread, hfault] using hspread
    rw [run_runParallelBy_noSpace pool hfault he]
    have hserial : (runSerial.run { m with parallel := false }).1 = (runSerial.run m).1 := by
      rw [run_runSerial, run_runSerial]
    refine ⟨hserial, fun hok => ?_⟩
    have htells := tellsAll_runSerial (m := { m with parallel := false }) hcounts hfresh
      (hserial.trans hok)
    exact htells.reportAlike (tellsAll_runSerial hcounts hfresh hok) hplaces
  | none =>
    obtain ⟨n, hjobs, hn⟩ : ∃ n : Int, m.jobs = .int n ∧ 0 < n := by
      unfold canSpread at hspread
      rw [hfault] at hspread
      split at hspread
      · contradiction
      · rename_i n _ hjobs
        exact ⟨n, hjobs, of_decide_eq_true hspread⟩
      · cases hspread
    have hdash : "-" ∉ args := dash_not_mem_of_make hmake (by rw [← hjobs, hm]) hn
    have hopened := openFiles_openedIn hmade.1 hdash hopen
    cases hserial : (runSerial.run m).1 with
    | error e =>
      refine ⟨?_, fun hok => by cases hok⟩
      rw [run_runSerial] at hserial
      rw [run_runParallelBy pool hfault hjobs hn, hserial]
    | ok _ =>
      obtain ⟨hok, htells⟩ := tellsAll_runParallelBy pool hfault hjobs hn hcounts hfresh hopened
        hplaces hserial
      refine ⟨hok, fun _ => ?_⟩
      exact htells.reportAlike (tellsAll_runSerial hcounts hfresh hserial) hplaces

/-! A file that is named twice, with findings that are not found in their order, and workers that
check copies and deliver the last file first. -/

section RepeatedFile

theorem eq_ok_get {α : Type} {x : Except Fault α} (h : x.toOption.isSome = true) :
    x = .ok (x.toOption.get h) := by
  cases x with
  | error e => cases h
  | ok a => rfl

def twoJobs : Settings where
  entries := [("jobs", .text "2"), ("diff", .bool false), ("exclude", .list []),
    ("filename", .list [.text "*.py"]), ("hang_closing", .bool false), ("max_line_length", .int 79),
    ("verbose", .int 0)]

def twoLines : World where
  tree := ⟨.directory [("a.py", .file "x\ny\n".toUTF8.toList 0)], "/"⟩

/-- A check that finds the end of each line before its start. -/
def endFirst : Checks where
  logicalLines := [{
    name := "ends", pluginName := .text "ends", parameters := [("logical_line", true)]
    call := fun _ => ⟨.ok (.results (.ready
      [.tuple [.int 1, .text "X2 end"], .tuple [.int 0, .text "X1 start"]])), none⟩ }]

def repeated : Manager :=
  (make twoJobs twoLines (Value.texts ["a.py", "a.py"])).toOption.get (by decide +kernel)

def repeatedOpen : Manager :=
  ((openFiles twoJobs endFirst repeated .none).run twoLines).1.toOption.get (by decide +kernel)

def lastFirst : Pool := ⟨List.reverse, List.reverse_perm, true⟩

theorem runParallelBy_repeated_file :
    make twoJobs twoLines (Value.texts ["a.py", "a.py"]) = .ok repeated ∧
      repeatedOpen.canSpread = true ∧
      (∀ c ∈ repeatedOpen.checkers, ∀ f ∈ (checkedFile c).results, f.HasIntegerPlace) ∧
      (repeatedOpen.checkers.map fun c => (checkedFile c).results.length) = [4, 4] ∧
      ((runParallelBy lastFirst).run repeatedOpen).1 = .ok () ∧
      ReportAlike ((runParallelBy lastFirst).run repeatedOpen).2 (runSerial.run repeatedOpen).2 := by
  have hmake := eq_ok_get (x := make twoJobs twoLines (Value.texts ["a.py", "a.py"]))
    (by decide +kernel)
  have hopen : (openFiles twoJobs endFirst repeated .none).run twoLines = (.ok repeatedOpen, _) :=
    Prod.ext (eq_ok_get _) rfl
  have hspread : repeatedOpen.canSpread = true := by decide +kernel
  have hplaces : ∀ c ∈ repeatedOpen.checkers, ∀ f ∈ (checkedFile c).results, f.HasIntegerPlace := by
    decide +kernel
  have hserial : (runSerial.run repeatedOpen).1 = .ok () := eq_ok_get (by decide +kernel)
  obtain ⟨hsame, halike⟩ :=
    runParallelBy_reports_as_runSerial twoJobs endFirst lastFirst ["a.py", "a.py"] hmake hopen
      hspread hplaces
  exact ⟨hmake, hspread, hplaces, by decide +kernel, hsame.trans hserial, halike hserial⟩

end RepeatedFile

end LintRunner.Check.Manager
