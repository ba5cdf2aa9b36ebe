import LintRunner.Proofs.OpenedFiles
import LintRunner.Proofs.RunSteps

/-!
# The memories of checks

A check that asks for a memory is handed one with each call. For checks of lines it is their own:
empty at the first call, then what they have left in it, whatever other checks do in between. Before
the checks of the whole file no memory is turned to, so they share the one that is still at hand.
-/

namespace LintRunner

open Stateful

namespace Source.Processor

variable {p : Processor} {args found : List (String × Value)} {params : List (String × Bool)}

/-- The memories of a file's checks, and whose memory is at hand. -/
def memories (p : Processor) : List (String × CheckerState) × Option String :=
  (p.checkerStates, p.currentChecker)

theorem lookup_checkerState (hparams : ∃ param ∈ params, param.1 = "checker_state")
    (hargs : args.lookup "checker_state" = none) (h : (p.argumentsFor args params).1 = .ok found) :
    found.lookup "checker_state" = some p.checkerStateValue := by
  refine lookup_answer hparams hargs (fun q hq => congrArg Except.ok ?_) h
  change q.still.checkerStateValue = p.still.checkerStateValue
  rw [hq]

def unread (p : Processor) : Processor where
  filename := p.filename
  lines := p.lines
  hangClosing := p.hangClosing
  maxLineLength := p.maxLineLength
  verbose := p.verbose
  compileFault := p.compileFault

end Source.Processor

namespace Check

open Source (CheckerState Processor)

/-- What passes between a file and the memories of its checks. -/
inductive CallEvent where
  | begun (subject : Subject) (check : Checker)
  | called (subject : Subject) (check : Checker) (args : Arguments)
  | stored (check : Checker) (memory : CheckerState)

/-- Of all that happens, runs of checks that begin, calls and stored memories are put down. -/
def CallEvent.watch : Watch CallEvent
  | _, .begun subject check => some (.begun subject check)
  | _, .called subject check args => some (.called subject check args)
  | _, .stored check memory => some (.stored check memory)
  | _, _ => none

/-- The memory that the checks of a name have left: the one that was stored last, at first an empty
one. The latest event stands first. -/
def leftBy (name : String) : List CallEvent → CheckerState
  | [] => []
  | .stored check memory :: earlier =>
    if check.name = name then memory else leftBy name earlier
  | .begun .. :: earlier => leftBy name earlier
  | .called .. :: earlier => leftBy name earlier

/-- The memory that is at hand when a check of the whole file is called: the one of the last check
of lines that asked for one, with what was stored in it since. -/
def lent : List CallEvent → Option CheckerState
  | [] => none
  | .begun subject check :: earlier =>
    if subject ≠ .tree ∧ check.wantsMemory = true then some (leftBy check.name earlier)
    else lent earlier
  | .stored _ memory :: earlier => (lent earlier).map fun _ => memory
  | .called .. :: earlier => lent earlier

def received (subject : Subject) (check : Checker) (earlier : List CallEvent) : Value :=
  if subject = .tree then ((lent earlier).map .dict).getD .none
  else .dict (leftBy check.name earlier)

def Fair : List CallEvent → Prop
  | [] => True
  | .called subject check args :: earlier =>
    (check.wantsMemory = true →
      args.lookup "checker_state" = some (received subject check earlier)) ∧ Fair earlier
  | .begun .. :: earlier => Fair earlier
  | .stored .. :: earlier => Fair earlier

variable {log : List CallEvent} {subject : Subject} {check : Checker} {p : Processor}
  {ms : List (String × CheckerState) × Option String}

theorem Fair.lookup_eq {after before : List CallEvent}
    {args : Arguments} (h : Fair log) (hlog : log = after ++ .called subject check args :: before)
    (hwants : check.wantsMemory = true) :
    args.lookup "checker_state" = some (received subject check before) := by
  induction after generalizing log with
  | nil =>
    subst hlog
    exact h.1 hwants
  | cons event rest ih =>
    subst hlog
    have hrest : Fair (rest ++ .called subject check args :: before) := by
      cases event with
      | called => exact h.2
      | _ => exact h
    exact ih hrest rfl

def memoryOf (ms : List (String × CheckerState) × Option String) (name : String) : CheckerState :=
  (ms.1.lookup name).getD []

def memoryAtHand (ms : List (String × CheckerState) × Option String) : Option CheckerState :=
  ms.2.map (memoryOf ms)

/-- The calls were fair, and what is at hand is what a check of the whole file would be lent. -/
structure Lending (ms : List (String × CheckerState) × Option String) (log : List CallEvent) :
    Prop where
  fair : Fair log
  hand : memoryAtHand ms = lent log

/-- Besides, each check has the memory that it left. -/
structure Owning (ms : List (String × CheckerState) × Option String) (log : List CallEvent) : Prop
    extends Lending ms log where
  own : ∀ name, memoryOf ms name = leftBy name log

/-- The memory of the check that runs is at hand, if it asks for one. -/
structure Serving (last : Option Checker) (ms : List (String × CheckerState) × Option String)
    (log : List CallEvent) : Prop extends Owning ms log where
  current : ∀ check ∈ last, check.wantsMemory = true → ms.2 = some check.name

theorem checkerStateValue_eq (p : Processor) :
    p.checkerStateValue = ((memoryAtHand p.memories).map .dict).getD .none := by
  have hstate : p.checkerState = memoryAtHand p.memories := rfl
  unfold Processor.checkerStateValue
  rw [hstate]
  cases memoryAtHand p.memories <;> rfl

theorem Lending.received_tree (check : Checker) (h : Lending p.memories log) :
    p.checkerStateValue = received .tree check log := by
  rw [checkerStateValue_eq, h.hand]
  rfl

theorem Serving.received_line (h : Serving (some check) p.memories log) (hline : subject ≠ .tree)
    (hwants : check.wantsMemory = true) : p.checkerStateValue = received subject check log := by
  have hcurrent : p.memories.2 = some check.name := h.current check rfl hwants
  rw [checkerStateValue_eq, memoryAtHand, hcurrent, received, if_neg hline, ← h.own]
  rfl

theorem memoryOf_turnTo (p : Processor) (name key : String) :
    memoryOf (p.turnTo name).memories key = memoryOf p.memories key := by
  unfold memoryOf Processor.memories Processor.turnTo
  dsimp only
  split
  · rfl
  · rename_i hnone
    rw [List.lookup_append]
    by_cases hkey : key = name
    · rw [hkey, hnone]
      simp
    · have hne : (key == name) = false := by simpa using hkey
      rw [List.lookup_cons, hne]
      simp

theorem memoryOf_setCheckerState {name : String}
    (h : p.currentChecker = some name) (m : CheckerState) (key : String) :
    memoryOf (p.setCheckerState m).memories key =
      if key = name then m else memoryOf p.memories key := by
  have hstates : (p.setCheckerState m).memories.1 = Entries.put name m p.checkerStates := by
    unfold Processor.setCheckerState
    rw [h]
    rfl
  unfold memoryOf
  rw [hstates, Entries.lookup_put]
  split <;> rfl

theorem current_setCheckerState (p : Processor) (m : CheckerState) :
    (p.setCheckerState m).memories.2 = p.memories.2 := by
  unfold Processor.setCheckerState
  split <;> rfl

theorem memoryAtHand_setCheckerState (p : Processor) (m : CheckerState) :
    memoryAtHand (p.setCheckerState m).memories = (memoryAtHand p.memories).map fun _ => m := by
  cases h : p.currentChecker with
  | none =>
    have hsame : p.setCheckerState m = p := by
      unfold Processor.setCheckerState
      rw [h]
    rw [hsame, memoryAtHand, Processor.memories, h]
    rfl
  | some name =>
    have hcurrent : (p.setCheckerState m).memories.2 = some name :=
      (current_setCheckerState p m).trans h
    rw [memoryAtHand, hcurrent, Option.map_some, memoryOf_setCheckerState h, if_pos rfl]
    rw [memoryAtHand, Processor.memories, h]
    rfl

theorem Lending.stored (check : Checker) (m : CheckerState) (h : Lending p.memories log) :
    Lending (p.setCheckerState m).memories (.stored check m :: log) := by
  refine ⟨h.fair, ?_⟩
  rw [memoryAtHand_setCheckerState, h.hand]
  rfl

theorem Serving.stored (m : CheckerState) (hwants : check.wantsMemory = true)
    (h : Serving (some check) p.memories log) :
    Serving (some check) (p.setCheckerState m).memories (.stored check m :: log) := by
  have hcurrent : p.currentChecker = some check.name := h.current check rfl hwants
  refine ⟨⟨h.toLending.stored check m, fun name => ?_⟩, ?_⟩
  · rw [memoryOf_setCheckerState hcurrent, h.own, leftBy]
    simp only [eq_comm]
  · rintro _ ⟨⟩ -
    exact (current_setCheckerState p m).trans hcurrent

theorem Owning.begun (h : Owning p.memories log) (hline : subject ≠ .tree) (check : Checker) :
    Serving (some check) (turned subject check p).memories (.begun subject check :: log) := by
  unfold turned
  by_cases hwants : check.wantsMemory = true
  · rw [if_pos ⟨hline, hwants⟩]
    have hlent : lent (.begun subject check :: log) = some (leftBy check.name log) := by
      simp [lent, hwants, hline]
    refine ⟨⟨⟨h.fair, ?_⟩, fun name => ?_⟩, ?_⟩
    · rw [hlent, ← h.own check.name, ← memoryOf_turnTo p check.name check.name]
      rfl
    · exact (memoryOf_turnTo p check.name name).trans (h.own name)
    · rintro _ ⟨⟩ -
      rfl
  · rw [if_neg fun hboth => hwants hboth.2]
    have hlent : lent (.begun subject check :: log) = lent log := by simp [lent, hwants]
    refine ⟨⟨⟨h.fair, hlent ▸ h.hand⟩, h.own⟩, ?_⟩
    rintro _ ⟨⟩ htrue
    exact absurd htrue hwants

/-- What is known while checks that look at a subject are called, `last` the last of them. -/
def served (subject : Subject) (last : Option Checker)
    (ms : List (String × CheckerState) × Option String) (log : List CallEvent) : Prop :=
  if subject = .tree then Lending ms log else Serving last ms log

theorem served.begun (check : Checker) {last : Option Checker}
    (h : served subject last p.memories log) :
    served subject (some check) (turned subject check p).memories (.begun subject check :: log) := by
  unfold served at h ⊢
  split
  · rename_i htree
    subst htree
    have hlent : lent (.begun .tree check :: log) = lent log := by simp [lent]
    exact ⟨h.fair, hlent ▸ h.hand⟩
  · rename_i hline
    rw [if_neg hline] at h
    exact h.toOwning.begun hline check

theorem served.called {found : Arguments} (h : served subject (some check) p.memories log)
    (hfound : check.wantsMemory = true →
      found.lookup "checker_state" = some p.checkerStateValue) :
    served subject (some check) p.memories (.called subject check found :: log) := by
  unfold served at h ⊢
  split
  · rename_i htree
    subst htree
    refine ⟨⟨fun hwants => ?_, h.fair⟩, h.hand⟩
    rw [hfound hwants, Lending.received_tree check h]
  · rename_i hline
    rw [if_neg hline] at h
    refine ⟨⟨⟨⟨fun hwants => ?_, h.fair⟩, h.hand⟩, h.own⟩, h.current⟩
    rw [hfound hwants, h.received_line hline hwants]

theorem served.stored (m : CheckerState) (hwants : check.wantsMemory = true)
    (h : served subject (some check) p.memories log) :
    served subject (some check) (p.setCheckerState m).memories (.stored check m :: log) := by
  unfold served at h ⊢
  split
  · rename_i htree
    rw [if_pos htree] at h
    exact h.stored check m
  · rename_i hline
    rw [if_neg hline] at h
    exact h.stored m hwants

theorem served.toLending {last : Option Checker} (h : served subject last ms log) :
    Lending ms log := by
  unfold served at h
  split at h
  · exact h
  · exact h.toLending

/-- What is known of the memories, wherever the work on a file stands. -/
def memoryOutline : Point → Knowledge CallEvent
  | .failed, p, log => Lending p.memories log
  | .calling spot called, p, log => served spot.subject called.getLast? p.memories log
  | .begun spot _ check, p, log => served spot.subject (some check) p.memories log
  | _, p, log => Owning p.memories log

theorem memoryOutline_concat (spot : Spot) (called : List Checker) (check : Checker) (p : Processor)
    (log : List CallEvent) : memoryOutline (.calling spot (called ++ [check])) p log =
      served spot.subject (some check) p.memories log :=
  congrArg (fun last => served spot.subject last p.memories log) List.getLast?_concat

theorem memoryOutline_lending (pt : Point) (h : memoryOutline pt p log) :
    Lending p.memories log := by
  cases pt with
  | failed => exact h
  | calling spot called => exact h.toLending
  | begun spot called check => exact h.toLending
  | _ => exact h.toLending

theorem upheld_memories {feed : Source.Feed} {checks : Checks} :
    Upheld feed checks CallEvent.watch memoryOutline := by
  intro pt p happening pt' q log hstep h
  cases hstep with
  | fail => exact memoryOutline_lending pt h
  | badLine => exact h.toLending
  | noLine => exact h.toLending
  | look => exact ⟨h, by simp⟩
  | looked => exact h.toOwning
  | build hbuild =>
    obtain ⟨-, rfl⟩ := Processor.buildLogicalLine_ok hbuild
    exact h
  | openLine hline hupdate =>
    obtain ⟨level, before, rfl⟩ := Processor.exists_of_updateState_ok hupdate
    exact ⟨h, by simp⟩
  | complete =>
    obtain ⟨level, text, unindented, hnext⟩ := p.exists_nextLogicalLine_eq
    rw [hnext]
    exact h.toOwning
  | lastLine => exact ⟨h, by simp⟩
  | lastLooked => exact h.toOwning
  | whole hpt => exact memoryOutline_lending pt h
  | @begin spot called check => exact served.begun (p := p) check h
  | @call spot called check _ found hfound =>
    rw [memoryOutline_concat]
    refine served.called (p := p) h fun hwants => Processor.lookup_checkerState ?_ ?_ hfound
    · simpa [Checker.wantsMemory] using hwants
    · cases spot <;> rfl
  | @store spot called check _ m hwants =>
    rw [memoryOutline_concat] at h ⊢
    exact served.stored (p := p) m hwants h
  | _ => exact h

variable {c : FileChecker} {s : Settings} {v : Value} {w w' : World} {checks : Checks}

theorem openFile_unread {given : Option (List String)} (h : (openFile s v given w).1 = .ok p) :
    p = p.unread := by
  unfold openFile at h
  dsimp only at h
  obtain ⟨lines, -, h⟩ := bind_ok h
  obtain ⟨unmarked, -, h⟩ := bind_ok h
  obtain ⟨hang, -, h⟩ := bind_ok h
  obtain ⟨width, -, h⟩ := bind_ok h
  obtain ⟨verbose, -, h⟩ := bind_ok h
  cases h
  rfl

theorem FileChecker.make_unread (h : make s checks v w = (.ok c, w'))
    (hp : c.processor = some p) : p = p.unread := by
  unfold make at h
  dsimp only at h
  split at h
  · rename_i q w₁ hopen
    cases h
    cases hp
    exact openFile_unread (congrArg Prod.fst hopen)
  · split at h <;> cases h
    cases hp

theorem FileChecker.make_owning (h : make s checks v w = (.ok c, w'))
    (hp : c.processor = some p) : Owning p.memories [] := by
  have hfresh : p.memories = ([], none) := congrArg Processor.memories (make_unread h hp)
  rw [hfresh]
  exact ⟨⟨trivial, rfl⟩, fun _ => rfl⟩

theorem run_recordedChecks_of_none (hp : c.processor = none) :
    (Recording.runChecks CallEvent.watch).run (c, []) =
      (.error Fault.missingAttribute, c, []) := by
  unfold Recording.runChecks Recording.processTokensBy
  rw [run_bind, run_tryCatch, run_bind, Recording.run_quietly, FileChecker.run_getProcessor_none hp]
  rfl

/-- The record of a run tells of fair calls, however it ends. -/
theorem runChecks_fair (h : FileChecker.make s checks v w = (.ok c, w')) :
    ∃ r d log, (Recording.runChecks CallEvent.watch).run (c, []) = (r, d, log) ∧
      FileChecker.runChecks.run c = (r, d) ∧ Fair log := by
  cases hp : c.processor with
  | none =>
    have hrecorded := run_recordedChecks_of_none hp
    have hrun := FileChecker.run_runChecks_of_none hp
    exact ⟨_, _, _, hrecorded, hrun, trivial⟩
  | some p =>
    have howning : Owning p.memories [] := FileChecker.make_owning h hp
    have hstart : Known c.identity (memoryOutline (.between {})) c [] := ⟨rfl, p, hp, howning⟩
    obtain ⟨hrun, hends⟩ := Upheld.tells_runChecks upheld_memories c [] hstart
    rcases hrecorded : (Recording.runChecks CallEvent.watch).run (c, []) with ⟨r, d, log⟩
    rw [hrecorded] at hrun hends
    refine ⟨r, d, log, rfl, hrun, ?_⟩
    cases r with
    | error e =>
      obtain ⟨-, q, -, hq⟩ := hends
      exact hq.fair
    | ok a =>
      obtain ⟨-, q, -, called, hq⟩ := hends
      exact hq.toLending.fair

/-- While a file is checked, each check of lines that asks for a memory receives with each call what
it has left itself, an empty one at first. A check of the whole file receives the memory at hand,
and so what it has left itself only where the two are equal. -/
theorem runChecks_hands_memories {s : Settings} {checks : Checks} {v : Value} {w w' : World}
    {c : FileChecker} (hc : FileChecker.make s checks v w = (.ok c, w')) :
    ∃ r d log, (Recording.runChecks CallEvent.watch).run (c, []) = (r, d, log) ∧
      FileChecker.runChecks.run c = (r, d) ∧
      ∀ after subject check args before, log = after ++ .called subject check args :: before →
        check.wantsMemory = true →
        (subject ≠ .tree →
          args.lookup "checker_state" = some (.dict (leftBy check.name before))) ∧
        (subject = .tree →
          args.lookup "checker_state" = some (((lent before).map .dict).getD .none) ∧
          (args.lookup "checker_state" = some (.dict (leftBy check.name before)) ↔
            lent before = some (leftBy check.name before))) := by
  obtain ⟨r, d, log, hrecorded, hrun, hfair⟩ := runChecks_fair hc
  refine ⟨r, d, log, hrecorded, hrun, fun after subject check args before hlog hwants => ?_⟩
  have hreceived := Fair.lookup_eq hfair hlog hwants
  refine ⟨fun hline => ?_, fun htree => ?_⟩
  · rw [hreceived, received, if_neg hline]
  · rw [hreceived, received, if_pos htree]
    refine ⟨rfl, ?_⟩
    cases lent before <;> simp

/-! Checks that count their runs, each under its own name. -/

section Counting

def counting (parameter name : String) : Checker where
  name := name
  pluginName := .text name
  parameters := [(parameter, true), ("checker_state", true)]
  call args :=
    match args.lookup "checker_state" with
    | some (.dict m) =>
      { reply := .ok (.results (.ready []))
        memory := some (Entries.put name (.int (((m.lookup name).bind Value.int?).getD 0 + 1)) m) }
    | _ => { reply := .ok (.results (.ready [])), memory := none }

def countingLines : Checks where
  physicalLines := [counting "physical_line" "P"]
  logicalLines := [counting "logical_line" "L"]

def countingAll : Checks := { countingLines with trees := [counting "tree" "T"] }

def twoStatements : World where
  tree := { cwd := "/", root := .directory [("a.py", .ofBytes "x = 1\ny = 2\n".toUTF8.toList)] }

def bareSettings : Settings where
  entries := [("hang_closing", .bool false), ("max_line_length", .int 79), ("verbose", .int 0)]

/-- For each call, in order, who was called, the memory it received and the one it had left. -/
def exchanges : List CallEvent → List (String × Option Value × CheckerState)
  | [] => []
  | .called _ check args :: earlier =>
    exchanges earlier ++ [(check.name, args.lookup "checker_state", leftBy check.name earlier)]
  | _ :: earlier => exchanges earlier

def exchangesWith (checks : Checks) : Option (List (String × Option Value × CheckerState)) :=
  (FileChecker.make bareSettings checks (.text "a.py") twoStatements).1.toOption.map fun c =>
    exchanges ((Recording.runChecks CallEvent.watch).run (c, [])).2.2

/-- Two checks of lines count apart, though their calls alternate. -/
theorem runChecks_hands_counting_memories :
    ∃ c w' r d log,
      FileChecker.make bareSettings countingLines (.text "a.py") twoStatements = (.ok c, w') ∧
      (Recording.runChecks CallEvent.watch).run (c, []) = (r, d, log) ∧ FileChecker.runChecks.run c = (r, d) ∧
      exchanges log = [("P", some (.dict []), []), ("L", some (.dict []), []),
        ("P", some (.dict [("P", .int 1)]), [("P", .int 1)]),
        ("L", some (.dict [("L", .int 1)]), [("L", .int 1)])] ∧
      ∀ after check args before, log = after ++ .called .logicalLine check args :: before →
        check.wantsMemory = true →
        args.lookup "checker_state" = some (.dict (leftBy check.name before)) := by
  have hcalls : exchangesWith countingLines = some [("P", some (.dict []), []),
      ("L", some (.dict []), []), ("P", some (.dict [("P", .int 1)]), [("P", .int 1)]),
      ("L", some (.dict [("L", .int 1)]), [("L", .int 1)])] := by decide +kernel
  unfold exchangesWith at hcalls
  rcases hmake : FileChecker.make bareSettings countingLines (.text "a.py") twoStatements with
    ⟨_ | c, w'⟩
  · rw [hmake] at hcalls
    cases hcalls
  · rw [hmake] at hcalls
    obtain ⟨r, d, log, hrecorded, hrun, hall⟩ := runChecks_hands_memories hmake
    have hlog : exchanges ((Recording.runChecks CallEvent.watch).run (c, [])).2.2 = _ := Option.some.inj hcalls
    rw [hrecorded] at hlog
    refine ⟨c, w', r, d, log, rfl, hrecorded, hrun, hlog, ?_⟩
    intro after check args before hsplit hwants
    exact (hall after .logicalLine check args before hsplit hwants).1 (by decide)

/-- A check of the whole file has left nothing, but receives what a check of lines has left. -/
theorem tree_check_receives_line_memory :
    exchangesWith countingAll = some [("P", some (.dict []), []), ("L", some (.dict []), []),
      ("P", some (.dict [("P", .int 1)]), [("P", .int 1)]),
      ("L", some (.dict [("L", .int 1)]), [("L", .int 1)]),
      ("T", some (.dict [("L", .int 2)]), [])] := by
  decide +kernel

end Counting

end Check

end LintRunner
