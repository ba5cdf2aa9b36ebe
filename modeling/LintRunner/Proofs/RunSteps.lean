import LintRunner.Proofs.RecordedRun

/-!
# The steps of a run

`Step` says once what can come next, wherever the work on a file stands, and what becomes of the
file. What is known at each point of the work is known all along a run, if it lasts from step to
step: the recorded run is gone through once, for whatever is to be known.
-/

namespace LintRunner.Check

open Stateful
open Source (Feed LogicalParts Processor Token TokenizeFault TokenizerState)

/-- Where the reading of tokens stands: what the tokenizer has come to, the tokens of the present
line that are still to be taken, and the depth of brackets. -/
structure Place where
  tokenizer : TokenizerState := {}
  pending : List Token := []
  depth : Int := 0

/-- What the checks of logical lines run for. -/
inductive Occasion where
  /-- The end of a statement. -/
  | statement (t : Token) (here : Place)
  /-- A line break outside of brackets that ends no statement. -/
  | pause (t : Token) (here : Place)
  /-- The end of the file. -/
  | leftover

def Occasion.place? : Occasion → Option Place
  | statement _ here => some here
  | pause _ here => some here
  | leftover => none

/-- What checks are called for. -/
inductive Spot where
  | lineOf (t : Token) (here : Place) (line : Value)
  | lastLine (line : String)
  | logicalLine (x : Occasion) (parts : LogicalParts)
  | tree

namespace Spot

def subject : Spot → Subject
  | lineOf .. => .physicalLine
  | lastLine _ => .physicalLine
  | logicalLine .. => .logicalLine
  | tree => .tree

def given : Spot → Arguments
  | lineOf _ _ line => [("physical_line", line)]
  | lastLine line => [("physical_line", .text line)]
  | logicalLine _ parts => [("logical_line", .text parts.line)]
  | tree => [("tree", .object "Module")]

def place? : Spot → Option Place
  | lineOf _ here _ => some here
  | logicalLine x _ => x.place?
  | lastLine _ => none
  | tree => none

end Spot

/-- Where the work on a file stands. -/
inductive Point where
  | between (here : Place)
  | holding (t : Token) (here : Place)
  /-- What the token calls for has been done. -/
  | settled (t : Token) (here : Place)
  /-- The checks of logical lines are to run. -/
  | due (x : Occasion)
  | built (x : Occasion) (parts : LogicalParts)
  /-- The checks of logical lines have run, or there was no line. -/
  | closed (x : Occasion)
  /-- No more tokens are read. -/
  | read
  | ended
  | failed
  /-- Checks are called one after the other, these so far. -/
  | calling (spot : Spot) (called : List Checker)
  | begun (spot : Spot) (called : List Checker) (check : Checker)

/-- Where the reading of tokens stands, unless it is over. -/
def Point.place? : Point → Option Place
  | between here => some here
  | holding _ here => some here
  | settled _ here => some here
  | due x => x.place?
  | built x _ => x.place?
  | closed x => x.place?
  | calling spot _ => spot.place?
  | begun spot _ _ => spot.place?
  | _ => none

def turned (subject : Subject) (check : Checker) (p : Processor) : Processor :=
  if subject ≠ .tree ∧ check.wantsMemory = true then p.turnTo check.name else p

theorem exists_turned_eq (subject : Subject) (check : Checker) (p : Processor) :
    ∃ states current, turned subject check p =
      { p with checkerStates := states, currentChecker := current } := by
  unfold turned
  split <;> exact ⟨_, _, rfl⟩

/-- From one point to the next: what happens, and what becomes of the file. -/
inductive Step (feed : Feed) (checks : Checks) :
    Point → Processor → Option Happening → Point → Processor → Prop
  | fail {pt p} : Step feed checks pt p none .failed p
  | readLine {here p line tokens st} (hused : here.pending = [])
      (hfeed : feed here.tokenizer line = .ok (tokens, st)) :
      Step feed checks (.between here) p (some (.read line))
        (.between { here with tokenizer := st, pending := tokens }) p
  | badLine {here p line why} (hused : here.pending = [])
      (hfeed : feed here.tokenizer line = .error why) :
      Step feed checks (.between here) p (some (.read line)) .failed p
  | take {here p t rest} (hnext : here.pending = t :: rest)
      (hrow : t.start.row ≤ p.totalLines) :
      Step feed checks (.between here) p (some (.taken t)) (.holding t { here with pending := rest })
        { p with tokens := p.tokens ++ [t] }
  | stop {here p} : Step feed checks (.between here) p none .read p
  | look {t here p} (line : Value) :
      Step feed checks (.holding t here) p none (.calling (.lineOf t here line) []) p
  | looked {t here p line called} :
      Step feed checks (.calling (.lineOf t here line) called) p none (.holding t here) p
  | pass {t here p} (hpass : (here.depth = 0 && t.isNewline) = false) :
      Step feed checks (.holding t here) p none (.settled t here) p
  | endStatement {t here p} (hkind : t.kind = .newline) (hdepth : here.depth = 0) :
      Step feed checks (.holding t here) p none (.due (.statement t here)) p
  | drop {t x here p} (hkind : t.kind = .lineBreak) (hdepth : here.depth = 0)
      (hone : p.tokens = [x]) :
      Step feed checks (.holding t here) p (some (.dropped x)) (.settled t here)
        { p with blankLines := p.blankLines + 1, tokens := [] }
  | pause {t here p} (hkind : t.kind = .lineBreak) (hdepth : here.depth = 0)
      (hmore : ∀ x, p.tokens ≠ [x]) :
      Step feed checks (.holding t here) p none (.due (.pause t here)) p
  | build {x p q parts} (hbuild : p.buildLogicalLine = .ok (parts, q)) :
      Step feed checks (.due x) p none (.built x parts) q
  | leave {x p parts} (hempty : parts.mapping = []) :
      Step feed checks (.built x parts) p none (.closed x) p
  | openLine {x p q parts} (hline : parts.mapping ≠ [])
      (hupdate : p.updateState parts.mapping = .ok q) :
      Step feed checks (.built x parts) p (some (.opened parts))
        (.calling (.logicalLine x parts) []) q
  | complete {x p parts} :
      Step feed checks (.calling (.logicalLine x parts) checks.logicalLines) p
        (some (.completed parts p.indentLevel p.tokens)) (.closed x) p.nextLogicalLine
  | reset {t here p} :
      Step feed checks (.closed (.statement t here)) p none (.settled t here) p.resetBlankBefore
  | resume {t here p} : Step feed checks (.closed (.pause t here)) p none (.settled t here) p
  | handle {t here p} :
      Step feed checks (.settled t here) p (some (.handled t))
        (.between { here with depth := depthAfter here.depth t }) p
  | enough {p} (hnone : p.tokens = []) : Step feed checks .read p none .ended p
  | lastLine {p line} (hrest : p.tokens ≠ []) (hline : p.lines.getLast? = some line) :
      Step feed checks .read p (some (.lastLine (some line))) (.calling (.lastLine line) []) p
  | noLine {p} (hrest : p.tokens ≠ []) (hline : p.lines.getLast? = none) :
      Step feed checks .read p (some (.lastLine none)) .failed p
  | lastLooked {line called p} :
      Step feed checks (.calling (.lastLine line) called) p none (.due .leftover) p
  | finish {p} : Step feed checks (.closed .leftover) p none .ended p
  | whole {pt p} (hpt : pt = .ended ∨ pt = .failed) :
      Step feed checks pt p none (.calling .tree []) p
  /-- The run of a check begins. -/
  | begin {spot called check p} :
      Step feed checks (.calling spot called) p (some (.begun spot.subject check))
        (.begun spot called check) (turned spot.subject check p)
  | call {spot called check p found}
      (hfound : (p.argumentsFor spot.given check.parameters).1 = .ok found) :
      Step feed checks (.begun spot called check) p (some (.called spot.subject check found))
        (.calling spot (called ++ [check])) p
  | store {spot called check p} (m : Source.CheckerState) (hwants : check.wantsMemory = true) :
      Step feed checks (.calling spot (called ++ [check])) p (some (.stored check m))
        (.calling spot (called ++ [check])) (p.setCheckerState m)

variable {ε : Type} {feed : Feed} {base : FileChecker} {watch : Watch ε} {know : Point → Knowledge ε}

def noted (watch : Watch ε) (p : Processor) : Option Happening → List ε → List ε
  | none, log => log
  | some happening, log => (watch p.still happening).toList ++ log

/-- What is known at each point lasts from step to step. -/
def Upheld (feed : Feed) (checks : Checks) (watch : Watch ε) (know : Point → Knowledge ε) : Prop :=
  ∀ {pt p happening pt' q log}, Step feed checks pt p happening pt' q → know pt p.still log →
    know pt' q.still (noted watch q happening log)

variable {c : FileChecker} {p : Processor}

namespace FileChecker

theorem run_turnFor (subject : Subject) (check : Checker)
    (hp : c.processor = some p) : (turnFor subject check).run c =
      (.ok (), { c with processor := some (turned subject check p) }) := by
  have hsame : { c with processor := some p } = c := by rw [← hp]
  unfold turnFor turned turnTo
  by_cases htree : subject = .tree
  · rw [if_pos htree, if_neg (fun h => h.1 htree), hsame]
    rfl
  · by_cases hwants : check.wantsMemory = true
    · rw [if_neg htree, if_pos hwants, if_pos ⟨htree, hwants⟩, run_bind, run_getProcessor hp]
      rfl
    · rw [if_neg htree, if_neg hwants, if_neg (fun h => hwants h.2), hsame]
      rfl

theorem run_remember (hp : c.processor = some p) (m : Source.CheckerState) : (remember (some m)).run c =
      (.ok (), { c with processor := some (p.setCheckerState m) }) := by
  unfold remember
  rw [run_bind_of_ok (run_getProcessor hp)]
  rfl

theorem argumentsFor_of_gather_ok {d : FileChecker} {check : Checker} {args found : Arguments}
    (hp : c.processor = some p) (h : (gather check args).run c = (.ok found, d)) :
    (p.argumentsFor args check.parameters).1 = .ok found := by
  unfold gather at h
  rw [run_bind_of_ok (run_getProcessor hp)] at h
  dsimp only at h
  rw [run_bind_of_ok (run_setProcessor _ _)] at h
  cases hfound : (p.argumentsFor args check.parameters).1 with
  | ok out =>
    rw [hfound] at h
    cases h
    rfl
  | error f =>
    rw [hfound] at h
    dsimp only at h
    split at h <;> cases h

end FileChecker

theorem Recording.run_quietly {α : Type} (x : Checking α) (c : FileChecker) (log : List ε) :
    (quietly x).run (c, log) = ((x.run c).1, (x.run c).2, log) := rfl

theorem Recording.run_note (happening : Happening) (log : List ε)
    (hp : c.processor = some p) : (note watch happening).run (c, log) =
      (.ok (), c, (watch p.still happening).toList ++ log) := by
  have hnote : (note watch happening).run (c, log) =
      (.ok (), c, (c.processor.bind fun p => watch p.still happening).toList ++ log) := rfl
  rw [hnote, hp]
  rfl

theorem Tells.note_bind {α : Type} {R I K : Knowledge ε} {J : α → Knowledge ε} {y : Recording ε α}
    {x : Checking α} {happening : Happening} (hx : Tells base R K J y x)
    (hI : ∀ p log, I (Processor.still p) log →
      K (Processor.still p) ((watch (Processor.still p) happening).toList ++ log)) :
    Tells base R I J (Recording.note watch happening >>= fun _ => y) x := by
  rintro c log ⟨hbase, p, hp, hknown⟩
  rw [run_bind_of_ok (Recording.run_note happening log hp)]
  exact hx c _ ⟨hbase, p, hp, hI p log hknown⟩

/-- The work leads from one point to another, which its result tells, unless it fails. -/
abbrev Leads {α : Type} (base : FileChecker) (know : Point → Knowledge ε) (pt : Point)
    (next : α → Point) (y : Recording ε α) (x : Checking α) : Prop :=
  Tells base (know .failed) (know pt) (fun a => know (next a)) y x

namespace Upheld

variable (h : Upheld feed base.checks watch know)

include h

theorem fails (pt : Point) : (know pt).Entails (know .failed) := fun _ _ hpt => h .fail hpt

theorem tells_turnFor (spot : Spot) (called : List Checker) (check : Checker) :
    Leads base know (.calling spot called) (fun _ => .begun spot called check)
      (Recording.turnFor watch spot.subject check) (FileChecker.turnFor spot.subject check) := by
  rintro c log ⟨hbase, p, hp, hpt⟩
  unfold Recording.turnFor
  rw [run_bind, Recording.run_quietly, FileChecker.run_turnFor _ _ hp]
  exact ⟨rfl, hbase, _, rfl, h .begin hpt⟩

theorem tells_gather (spot : Spot) (called : List Checker) (check : Checker) :
    Leads base know (.begun spot called check) (fun _ => .calling spot (called ++ [check]))
      (Recording.gather watch spot.subject check spot.given)
      (FileChecker.gather check spot.given) := by
  intro c log hknown
  have hkept := FileChecker.keeps_outlook_gather check spot.given c
  unfold Recording.gather
  rw [run_bind, Recording.run_quietly]
  rcases hrun : (FileChecker.gather check spot.given).run c with ⟨e | found, d⟩ <;>
    rw [hrun] at hkept <;> obtain ⟨hbase, q, hq, hpt⟩ := hknown.of_outlook_eq hkept
  · exact ⟨rfl, hbase, q, hq, h.fails _ q log hpt⟩
  · obtain ⟨-, p, hp, hbegun⟩ := hknown
    have hfound := FileChecker.argumentsFor_of_gather_ok hp hrun
    have hstill : p.still = q.still := by
      have hsame := congrArg Prod.snd hkept
      rw [FileChecker.outlook, FileChecker.outlook, hp, hq] at hsame
      exact (Option.some.inj hsame).symm
    dsimp only
    rw [run_bind, Recording.run_note _ _ hq, ← hstill]
    exact ⟨rfl, hbase, q, hq, hstill ▸ h (.call hfound) hbegun⟩

theorem tells_rememberFor (spot : Spot) (called : List Checker) (check : Checker)
    (memory : Option Source.CheckerState) :
    Leads base know (.calling spot (called ++ [check])) (fun _ => .calling spot (called ++ [check]))
      (Recording.rememberFor watch check memory) (FileChecker.rememberFor check memory) := by
  unfold Recording.rememberFor FileChecker.rememberFor
  refine .ite (fun hwants => ?_) fun _ => .pure fun _ _ hpt => hpt
  cases memory with
  | none => exact .pure fun _ _ hpt => hpt
  | some m =>
    rintro c log ⟨hbase, p, hp, hpt⟩
    rw [run_bind, Recording.run_quietly, FileChecker.run_remember hp]
    exact ⟨rfl, hbase, _, rfl, h (.store m hwants) hpt⟩

theorem tells_runCheck (spot : Spot) (called : List Checker) (check : Checker) :
    Leads base know (.begun spot called check) (fun _ => .calling spot (called ++ [check]))
      (Recording.runCheck watch spot.subject check spot.given)
      (FileChecker.runCheck check spot.given) := by
  rw [FileChecker.runCheck_eq]
  refine .bind (h.tells_gather spot called check) fun args => ?_
  refine .bind (h.tells_rememberFor spot called check _) fun _ => ?_
  exact .quietly (h.fails _) (FileChecker.keeps_replyOf _)

theorem tells_forEachResult (spot : Spot) (called : List Checker) (check : Checker)
    (results : Results) {use : Value → Checking Unit}
    (huse : ∀ v, Keeps FileChecker.outlook (use v)) :
    Leads base know (.calling spot (called ++ [check])) (fun _ => .calling spot (called ++ [check]))
      (Recording.forEachResult watch check results use)
      (FileChecker.forEachResult check results use) := by
  cases results with
  | nothing => exact .quietly (h.fails _) (.throw _)
  | inert => exact .quietly (h.fails _) (.throw _)
  | ready items => exact .quietly (h.fails _) (.forM huse)
  | lone items => exact .quietly (h.fails _) (.forM huse)
  | stream items memory fault =>
    unfold FileChecker.forEachResult
    simp only [← FileChecker.rememberFor_bind]
    have hremember := h.tells_rememberFor spot called check
    refine .bind (.forM fun e => ?_) fun _ => .bind (hremember memory) fun _ => ?_
    · exact .bind (hremember e.memory) fun _ => .quietly (h.fails _) (huse e.result)
    · cases fault with
      | none => exact .pure fun _ _ hpt => hpt
      | some f => exact .throw (h.fails _)

theorem tells_treeResults (called : List Checker) (check : Checker) (reply : Reply) :
    Leads base know (.calling .tree (called ++ [check])) (fun _ => .calling .tree (called ++ [check]))
      (Recording.treeResults watch check reply) (FileChecker.treeResults check reply) := by
  cases reply with
  | results r => exact .pure fun _ _ hpt => hpt
  | runner outcome memory =>
    unfold FileChecker.treeResults
    simp only [← FileChecker.rememberFor_bind]
    refine .bind (h.tells_rememberFor .tree called check memory) fun _ => ?_
    cases outcome with
    | ok r => exact .pure fun _ _ hpt => hpt
    | error f => exact .ite (fun _ => .pure fun _ _ hpt => hpt) fun _ => .throw (h.fails _)

theorem tells_runTreeChecks :
    Tells base (know .failed) (know (.calling .tree []))
      (fun _ p log => ∃ called, know (.calling .tree called) p log)
      (Recording.runTreeChecks watch) FileChecker.runTreeChecks := by
  refine .bind (.quietly (h.fails _) FileChecker.keeps_getProcessor) fun p => ?_
  cases p.compileFailure with
  | some f =>
    refine .ite (fun _ => ?_) fun _ => .throw (h.fails _)
    exact .mono (.quietly (h.fails _) (FileChecker.keeps_outlook_reportCompileFault f))
      (fun _ _ hpt => hpt) fun _ _ _ hpt => ⟨[], hpt⟩
  | none =>
    refine .get_bind fun c _ => .bind (.forIn (V := fun did => know (.calling .tree did))
      (fun did check => ?_) []) fun _ => .pure fun _ _ hpt => ⟨_, hpt⟩
    -- No turning comes before the call, which is what turning for a whole file does.
    rw [← pure_bind () fun _ => FileChecker.runCheck check _ >>= _]
    refine .bind (h.tells_turnFor .tree did check) fun _ => ?_
    refine .bind (h.tells_runCheck .tree did check) fun reply => ?_
    refine .bind (h.tells_treeResults did check reply) fun results => ?_
    refine .bind (h.tells_forEachResult .tree did check results fun result => ?_)
      fun _ => .pure fun _ _ hpt => ⟨rfl, hpt⟩
    refine .bind (FileChecker.keeps_lift _) fun _ => ?_
    exact .bind (FileChecker.keeps_addResult fun _ _ => rfl) fun _ => .pure _

theorem tells_callLogicalChecks (x : Occasion) (parts : LogicalParts) :
    Leads base know (.calling (.logicalLine x parts) [])
      (fun _ => .calling (.logicalLine x parts) base.checks.logicalLines)
      (Recording.callLogicalChecks watch parts) (FileChecker.callLogicalChecks parts) := by
  refine .get_bind fun c hbase => ?_
  have hchecks : c.checks = base.checks := by rw [← hbase]; rfl
  rw [hchecks]
  refine .bind (.forIn (V := fun did => know (.calling (.logicalLine x parts) did))
    (fun did check => ?_) []) fun _ => .pure fun _ _ hpt => hpt
  refine .bind (h.tells_turnFor (.logicalLine x parts) did check) fun _ => ?_
  refine .bind (h.tells_runCheck (.logicalLine x parts) did check) fun reply => ?_
  have huse : ∀ result, Keeps FileChecker.outlook (FileChecker.addLogicalResult parts result) :=
    fun _ => FileChecker.keeps_outlook_addLogicalResult
  have hresults := fun results =>
    h.tells_forEachResult (.logicalLine x parts) did check results huse
  cases reply with
  | runner outcome memory => exact .bind (hresults _) fun _ => .pure fun _ _ hpt => ⟨rfl, hpt⟩
  | results r =>
    cases r with
    | nothing => exact .pure fun _ _ hpt => ⟨rfl, hpt⟩
    | _ => exact .bind (hresults _) fun _ => .pure fun _ _ hpt => ⟨rfl, hpt⟩

theorem tells_runPhysicalChecks (spot : Spot) (line override : Value)
    (hsubject : spot.subject = .physicalLine) (hgiven : spot.given = [("physical_line", line)]) :
    Leads base know (.calling spot []) (fun _ => .calling spot base.checks.physicalLines)
      (Recording.runPhysicalChecks watch line override)
      (FileChecker.runPhysicalChecks line override) := by
  refine .get_bind fun c hbase => ?_
  have hchecks : c.checks = base.checks := by rw [← hbase]; rfl
  rw [hchecks]
  refine .bind (.forIn (V := fun did => know (.calling spot did)) (fun did check => ?_) [])
    fun _ => .pure fun _ _ hpt => hpt
  have hturn := h.tells_turnFor spot did check
  have hrun := h.tells_runCheck spot did check
  rw [hsubject] at hturn hrun
  rw [hgiven] at hrun
  refine .bind hturn fun _ => .bind hrun fun reply => ?_
  have huse : ∀ shown result, Keeps FileChecker.outlook
      (FileChecker.addLineResult line shown result) :=
    fun _ _ => FileChecker.keeps_outlook_addLineResult
  have hresults := fun results shown =>
    h.tells_forEachResult spot did check results (huse shown)
  have hquiet : ∀ {x : Checking Unit}, Keeps FileChecker.outlook x →
      Leads base know (.calling spot (did ++ [check])) (fun _ => .calling spot (did ++ [check]))
        (Recording.quietly x) x :=
    .quietly (h.fails _)
  cases reply with
  | runner outcome memory => exact .bind (hresults _ _) fun _ => .pure fun _ _ hpt => ⟨rfl, hpt⟩
  | results r =>
    cases r with
    | nothing => exact .pure fun _ _ hpt => ⟨rfl, hpt⟩
    | lone items =>
      dsimp only
      generalize (if override.truthy = true then override else line) = shown
      split
      · exact .bind (hquiet (huse _ _)) fun _ => .pure fun _ _ hpt => ⟨rfl, hpt⟩
      · exact .bind (hquiet (huse _ _)) fun _ => .pure fun _ _ hpt => ⟨rfl, hpt⟩
      · rw [FileChecker.addLoneResult]
        · exact .bind (hquiet (.forM (huse _))) fun _ => .pure fun _ _ hpt => ⟨rfl, hpt⟩
        · assumption
        · assumption
    | _ => exact .bind (hresults _ _) fun _ => .pure fun _ _ hpt => ⟨rfl, hpt⟩

theorem tells_openLogicalLine (x : Occasion) :
    Leads base know (.due x)
      (fun
        | none => .closed x
        | some parts => .calling (.logicalLine x parts) [])
      (Recording.openLogicalLine watch) FileChecker.openLogicalLine := by
  rintro c log ⟨hbase, p, hp, hpt⟩
  unfold Recording.openLogicalLine
  rw [run_bind, Recording.run_quietly]
  unfold FileChecker.openLogicalLine
  rw [run_bind_of_ok (FileChecker.run_getProcessor hp), run_bind, FileChecker.run_lift]
  cases hbuild : p.buildLogicalLine with
  | error f => exact ⟨rfl, hbase, p, hp, h.fails _ p log hpt⟩
  | ok built =>
    obtain ⟨parts, q⟩ := built
    have hbuilt := h (.build hbuild) hpt
    dsimp only
    rw [run_bind_of_ok (FileChecker.run_setProcessor _ _)]
    by_cases hempty : parts.mapping = []
    · rw [if_pos (List.isEmpty_iff.mpr hempty)]
      exact ⟨rfl, hbase, q, rfl, h (.leave hempty) hbuilt⟩
    · rw [if_neg (fun hnil => hempty (List.isEmpty_iff.mp hnil)), run_bind, FileChecker.run_lift]
      cases hupdate : q.updateState parts.mapping with
      | error f => exact ⟨rfl, hbase, q, rfl, h.fails _ q log hbuilt⟩
      | ok r => exact ⟨rfl, hbase, r, rfl, h (.openLine hempty hupdate) hbuilt⟩

theorem tells_completeLine (x : Occasion) (parts : LogicalParts) :
    Leads base know (.calling (.logicalLine x parts) base.checks.logicalLines) (fun _ => .closed x)
      (Recording.completeLine watch parts) (FileChecker.adjust Processor.nextLogicalLine) := by
  refine .getProcessor_bind fun p => ?_
  rintro c log ⟨hbase, -, -, -, hpt⟩
  exact ⟨rfl, hbase, _, rfl, h .complete hpt⟩

theorem tells_runLogicalChecks (x : Occasion) :
    Leads base know (.due x) (fun _ => .closed x)
      (Recording.runLogicalChecks watch) FileChecker.runLogicalChecks := by
  rw [FileChecker.runLogicalChecks_eq]
  refine .bind (h.tells_openLogicalLine x) fun opened => ?_
  cases opened with
  | none => exact .pure fun _ _ hpt => hpt
  | some parts =>
    exact .bind (h.tells_callLogicalChecks x parts) fun _ => h.tells_completeLine x parts

theorem tells_checkLineEnd (t : Token) (here : Place) :
    Leads base know (.holding t here) (fun _ => .holding t here)
      (Recording.checkLineEnd watch t) (FileChecker.checkLineEnd t) := by
  have hline : ∀ line override, Leads base know (.holding t here) (fun _ => .holding t here)
      (Recording.runPhysicalChecks watch line override)
      (FileChecker.runPhysicalChecks line override) := by
    intro line override
    refine .mono (h.tells_runPhysicalChecks (.lineOf t here line) line override rfl rfl) ?_ ?_
    · exact fun _ _ hpt => h (.look line) hpt
    · exact fun _ _ _ hpt => h .looked hpt
  have hadjust : ∀ {f : Processor → Processor}, (∀ p, (f p).still = p.still) →
      Leads base know (.holding t here) (fun _ => .holding t here)
        (Recording.quietly (FileChecker.adjust f)) (FileChecker.adjust f) :=
    fun hf => .quietly (h.fails _) (FileChecker.keeps_outlook_adjust hf)
  rw [FileChecker.checkLineEnd_eq]
  refine .ite (fun _ => hline _ _) fun _ => .ite (fun _ => ?_) fun _ => .pure fun _ _ hpt => hpt
  refine .bind (hadjust fun _ => rfl) fun _ => ?_
  refine .bind (.forIn (V := fun _ => know (.holding t here)) (fun _ line => ?_) []) fun _ => ?_
  · refine .bind (hline _ _) fun _ => .bind (hadjust fun _ => rfl) fun _ => ?_
    exact .pure fun _ _ hpt => ⟨rfl, hpt⟩
  · exact hadjust fun _ => rfl

theorem tells_dropBlankLine {t : Token} {here : Place} (hkind : t.kind = .lineBreak)
    (hdepth : here.depth = 0) :
    Leads base know (.holding t here)
      (fun dropped => if dropped.isSome then .settled t here else .due (.pause t here))
      (Recording.dropBlankLine watch) FileChecker.dropBlankLine := by
  rintro c log ⟨hbase, p, hp, hpt⟩
  unfold Recording.dropBlankLine
  rw [run_bind, Recording.run_quietly]
  unfold FileChecker.dropBlankLine
  rw [run_bind_of_ok (FileChecker.run_getProcessor hp)]
  split
  · rename_i x hone
    exact ⟨rfl, hbase, _, rfl, h (.drop hkind hdepth hone) hpt⟩
  · rename_i hmore
    exact ⟨rfl, hbase, p, hp, h (.pause hkind hdepth hmore) hpt⟩

theorem tells_handleNewline {t : Token} {here : Place} (hnewline : t.isNewline = true)
    (hdepth : here.depth = 0) :
    Leads base know (.holding t here) (fun _ => .settled t here)
      (Recording.handleNewline watch t.kind) (FileChecker.handleNewline t.kind) := by
  rw [FileChecker.handleNewline_eq]
  refine .ite (fun hkind => ?_) fun hkind => ?_
  · have hstart : (know (.holding t here)).Entails (know (.due (.statement t here))) :=
      fun _ _ hpt => h (.endStatement hkind hdepth) hpt
    refine .bind (.mono (h.tells_runLogicalChecks _) hstart fun _ _ _ hpt => hpt) fun _ => ?_
    rintro c log ⟨hbase, p, hp, hpt⟩
    rw [Recording.run_quietly, FileChecker.adjust,
      run_bind_of_ok (FileChecker.run_getProcessor hp)]
    exact ⟨rfl, hbase, _, rfl, h .reset hpt⟩
  · have hbreak : t.kind = .lineBreak := by simpa [Token.isNewline, hkind] using hnewline
    refine .bind (h.tells_dropBlankLine hbreak hdepth) fun dropped => ?_
    cases dropped with
    | some x => exact .pure fun _ _ hpt => hpt
    | none =>
      exact .mono (h.tells_runLogicalChecks (.pause t here)) (fun _ _ hpt => hpt)
        fun _ _ _ hpt => h .resume hpt

theorem tells_settleToken (t : Token) (here : Place) :
    Leads base know (.holding t here) (fun _ => .settled t here)
      (Recording.settleToken watch here.depth t)
      (if here.depth = 0 && t.isNewline then FileChecker.handleNewline t.kind else pure ()) := by
  refine .ite (fun hends => ?_) fun hpass => .pure fun _ _ hpt => ?_
  · obtain ⟨hdepth, hnewline⟩ := Bool.and_eq_true_iff.mp hends
    exact h.tells_handleNewline hnewline (of_decide_eq_true hdepth)
  · exact h (.pass (Bool.of_not_eq_true hpass)) hpt

theorem tells_processToken (t : Token) (here : Place) :
    Leads base know (.holding t here) (fun depth => .between { here with depth := depth })
      (Recording.processToken watch here.depth t) (FileChecker.processToken here.depth t) := by
  rw [FileChecker.processToken_eq]
  refine .bind (.quietly (h.fails _) (FileChecker.keeps_tallyToken fun _ _ => rfl)) fun _ => ?_
  refine .bind (h.tells_checkLineEnd t here) fun _ => .bind (h.tells_settleToken t here) fun _ => ?_
  exact .note_bind (.pure fun _ _ hpt => hpt) fun _ _ hpt => h .handle hpt

theorem tells_takeToken {here : Place} {t : Token} {rest : List Token}
    (hnext : here.pending = t :: rest) :
    Leads base know (.between here)
      (fun taken => if taken then .holding t { here with pending := rest } else .read)
      (Recording.takeToken watch t) (FileChecker.joinToken t) := by
  rintro c log ⟨hbase, p, hp, hpt⟩
  unfold Recording.takeToken
  rw [run_bind, Recording.run_quietly]
  unfold FileChecker.joinToken
  rw [run_bind_of_ok (FileChecker.run_getProcessor hp)]
  split
  · exact ⟨rfl, hbase, p, hp, h .stop hpt⟩
  · rename_i hrow
    exact ⟨rfl, hbase, _, rfl, h (.take hnext (Int.not_lt.mp hrow)) hpt⟩

/-- The tokens of a line are taken one after the other, all of them unless the file ends. -/
theorem tells_processLineTokens (here : Place) :
    Leads base know (.between here)
      (fun
        | none => .read
        | some depth => .between { here with pending := [], depth := depth })
      (Recording.processLineTokens watch here.pending here.depth)
      (FileChecker.processLineTokens here.pending here.depth) := by
  obtain ⟨st, tokens, depth⟩ := here
  induction tokens generalizing depth with
  | nil => exact .pure fun _ _ hpt => hpt
  | cons t rest ih =>
    rw [FileChecker.processLineTokens_cons]
    refine .bind (h.tells_takeToken rfl) fun taken => ?_
    cases taken with
    | false => exact .pure fun _ _ hpt => hpt
    | true =>
      exact .bind (h.tells_processToken t { tokenizer := st, pending := rest, depth := depth }) ih

theorem tells_readLine {here : Place} (hused : here.pending = []) :
    Leads base know (.between here)
      (fun line => match feed here.tokenizer line with
        | .error _ => .failed
        | .ok fed => .between { here with tokenizer := fed.2, pending := fed.1 })
      (Recording.readLine watch) FileChecker.readLine := by
  intro c log hknown
  have hkept := FileChecker.keeps_outlook_readLine c
  unfold Recording.readLine
  rw [run_bind, Recording.run_quietly]
  rcases hrun : FileChecker.readLine.run c with ⟨e | line, d⟩ <;> rw [hrun] at hkept <;>
    obtain ⟨hbase, p, hp, hpt⟩ := hknown.of_outlook_eq hkept
  · exact ⟨rfl, hbase, p, hp, h.fails _ p log hpt⟩
  · dsimp only
    rw [run_bind, Recording.run_note _ _ hp]
    refine ⟨rfl, hbase, p, hp, ?_⟩
    dsimp only
    cases hfeed : feed here.tokenizer line with
    | error why => exact h (.badLine hused hfeed) hpt
    | ok fed => exact h (.readLine hused hfeed) hpt

theorem tells_processLinesBy (fuel : Nat) (here : Place) (hused : here.pending = []) :
    Leads base know (.between here) (fun _ => .read)
      (Recording.processLinesBy watch feed fuel here.tokenizer here.depth)
      (FileChecker.processLinesBy feed fuel here.tokenizer here.depth) := by
  have hstop : ∀ here, (know (.between here)).Entails (know .read) :=
    fun _ _ _ hpt => h .stop hpt
  induction fuel generalizing here with
  | zero => exact .pure (hstop here)
  | succ fuel ih =>
    rw [FileChecker.processLinesBy_succ]
    refine .ite (fun _ => .pure (hstop here)) fun _ => .bind (h.tells_readLine hused) fun line => ?_
    dsimp only
    cases hfeed : feed here.tokenizer line with
    | error why => exact .throw fun _ _ hpt => hpt
    | ok fed =>
      refine .bind (h.tells_processLineTokens
        { here with tokenizer := fed.2, pending := fed.1 }) fun reached => ?_
      cases reached with
      | none => exact .pure fun _ _ hpt => hpt
      | some depth => exact ih { tokenizer := fed.2, pending := [], depth := depth } rfl

theorem tells_processRest :
    Leads base know .read (fun _ => .ended) (Recording.processRest watch)
      FileChecker.processRest := by
  refine .getProcessor_bind fun p => .ite (fun hsome => ?_) fun hnone => ?_
  · have hrest : p.tokens ≠ [] := by simpa using hsome
    cases hline : p.lines.getLast? with
    | none =>
      refine .note_bind (.throw fun _ _ hpt => hpt) ?_
      rintro q log ⟨hstill, hpt⟩
      rw [hstill]
      exact h (.noLine hrest hline) hpt
    | some line =>
      refine .note_bind (K := know (.calling (.lastLine line) [])) ?_ ?_
      · refine .bind (h.tells_runPhysicalChecks (.lastLine line) _ _ rfl rfl) fun _ => ?_
        refine .mono (h.tells_runLogicalChecks .leftover) ?_ fun _ _ _ hpt => h .finish hpt
        exact fun _ _ hpt => h .lastLooked hpt
      · rintro q log ⟨hstill, hpt⟩
        rw [hstill]
        exact h (.lastLine hrest hline) hpt
  · refine .pure ?_
    rintro q log ⟨hstill, hpt⟩
    have hempty : p.tokens = [] := by simpa using hnone
    exact hstill ▸ h (.enough hempty) hpt

theorem tells_processTokensBy :
    Leads base know (.between {}) (fun _ => .ended)
      (Recording.processTokensBy watch feed) (FileChecker.processTokensBy feed) := by
  refine .bind (.quietly (h.fails _) FileChecker.keeps_getProcessor) fun p => ?_
  exact .bind (h.tells_processLinesBy _ {} rfl) fun _ => h.tells_processRest

end Upheld

/-- All checks of a file. What is known at the end of processing tokens, or after it failed, is
known before the checks of the whole file. -/
theorem Upheld.tells_runChecks (h : Upheld TokenizerState.feed base.checks watch know) :
    Tells base (know .failed) (know (.between {}))
      (fun _ p log => ∃ called, know (.calling .tree called) p log)
      (Recording.runChecks watch) FileChecker.runChecks := by
  have hfound : ∀ {x : Checking Unit}, Keeps FileChecker.outlook x →
      Leads base know .failed (fun _ => .calling .tree [])
        (Recording.quietly x) x := by
    intro x hx
    refine .mono (.quietly (h.fails _) hx) (fun _ _ hpt => hpt) fun _ _ _ hpt => ?_
    exact h (.whole (.inr rfl)) hpt
  refine .bind (.tryCatch (.mono h.tells_processTokensBy (fun _ _ hpt => hpt) fun _ _ _ hpt =>
    h (.whole (.inl rfl)) hpt) fun f => ?_) fun _ => .bind h.tells_runTreeChecks fun _ => ?_
  · cases f with
    | invalidSyntax message => exact hfound (FileChecker.keeps_addFinding fun _ _ => rfl)
    | _ => exact .throw fun _ _ hpt => hpt
  · have hend : Knowledge.Entails (fun p log => ∃ called, know (.calling .tree called) p log)
        (know .failed) := fun p log ⟨_, hpt⟩ => h.fails _ p log hpt
    refine .bind (.quietly hend FileChecker.keeps_getProcessor) fun p => ?_
    exact .quietly hend (.modify fun _ => rfl)

/-- A file that could not be opened has nothing to check. -/
theorem FileChecker.run_runChecks_of_none (hp : c.processor = none) :
    runChecks.run c = (.error Fault.missingAttribute, c) := by
  unfold runChecks processTokens processTokensBy
  rw [run_bind, run_tryCatch, run_bind, run_getProcessor_none hp]
  rfl

/-- Checking a file changes neither its names nor what was asked of it. -/
theorem FileChecker.identity_runChecks (c : FileChecker) :
    (runChecks.run c).2.identity = c.identity := by
  cases hp : c.processor with
  | none => rw [run_runChecks_of_none hp]
  | some p =>
    have hupheld : Upheld TokenizerState.feed c.identity.checks
        (fun _ _ => none : Watch Unit) fun _ _ _ => True := fun _ _ => trivial
    obtain ⟨hrun, hends⟩ := hupheld.tells_runChecks c [] ⟨rfl, p, hp, trivial⟩
    rw [hrun]
    exact hends.identity_eq

end LintRunner.Check
