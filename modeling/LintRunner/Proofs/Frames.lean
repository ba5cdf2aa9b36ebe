import LintRunner.Check.FileChecker
import LintRunner.Proofs.Stateful

/-!
# What checking a file leaves alone

Calling checks adds findings, and it may change what a file remembers for checks and which character
indents; `lasting` is all the rest of a file. While the lines of a string are checked, also the line
number moves: `steady` leaves it out.
-/

namespace LintRunner

open Stateful

namespace Source.Processor

/-- The state of a file without what calling checks may change. -/
def lasting (p : Processor) : Processor :=
  { p with checkerStates := [], currentChecker := none, indentChar := .none, fileTokens := none }

/-- The same without where reading stands. -/
def steady (p : Processor) : Processor :=
  { p with checkerStates := [], currentChecker := none, indentChar := .none, lineNumber := 0,
           multiline := false, fileTokens := none }

theorem lasting_turnTo (p : Processor) (name : String) : (p.turnTo name).lasting = p.lasting := rfl

theorem lasting_setCheckerState (p : Processor) (m : CheckerState) :
    (p.setCheckerState m).lasting = p.lasting := by
  unfold setCheckerState
  split <;> rfl

theorem exists_setCheckerState_eq (p : Processor) (m : CheckerState) :
    ∃ states, p.setCheckerState m = { p with checkerStates := states } := by
  unfold setCheckerState
  split <;> exact ⟨_, rfl⟩

/-- An answer changes at most what is kept of the tokens of the whole file. -/
theorem exists_answer_snd (p : Processor) (name : String) :
    ∃ ts, (p.answer name).2 = { p with fileTokens := ts } := by
  have htokens : ∃ ts, p.allTokens.2 = { p with fileTokens := ts } := by
    unfold allTokens
    split
    · exact ⟨_, rfl⟩
    · split <;> exact ⟨_, rfl⟩
  unfold answer
  split <;> try exact ⟨_, rfl⟩
  · split <;> simp_all
  · dsimp only
    split <;> exact ⟨_, rfl⟩

theorem lasting_answer (p : Processor) (name : String) : (p.answer name).2.lasting = p.lasting := by
  obtain ⟨ts, hanswer⟩ := p.exists_answer_snd name
  rw [hanswer]
  rfl

theorem view_argumentsFor {γ : Type} {view : Processor → γ}
    (hview : ∀ p name, view (answer p name).2 = view p) (p : Processor)
    (args : List (String × Value)) (params : List (String × Bool)) :
    view (p.argumentsFor args params).2 = view p := by
  induction params generalizing p args with
  | nil => rfl
  | cons param rest ih =>
    obtain ⟨name, required⟩ := param
    have hanswer := hview p name
    unfold argumentsFor
    split
    · exact ih p args
    · split
      · rename_i v q hq
        rw [hq] at hanswer
        exact (ih q _).trans hanswer
      · rename_i f q hq
        rw [hq] at hanswer
        split
        · exact (ih q _).trans hanswer
        · exact hanswer

theorem lasting_checkPhysicalError {p q : Processor} {code line : Value}
    (h : p.checkPhysicalError code line = .ok q) : q.lasting = p.lasting := by
  unfold checkPhysicalError at h
  split at h
  · cases hitem : line.itemAt 0 with
    | error f => simp [hitem, bind, Except.bind] at h
    | ok v =>
      simp only [hitem, bind, Except.bind, pure, Except.pure, Except.ok.injEq] at h
      rw [← h]
      rfl
  · cases h
    rfl

theorem buildLogicalLine_ok {p q : Processor} {parts : LogicalParts}
    (h : p.buildLogicalLine = .ok (parts, q)) :
    logicalParts p.lines p.tokens = .ok parts ∧
      q = { p with
        logicalLine := parts.line
        noqa := p.noqa || (Suppression.mark? parts.comment).isSome
        logicalLineCount := p.logicalLineCount + 1 } := by
  unfold buildLogicalLine at h
  split at h
  · cases h
  · rename_i hparts
    cases h
    exact ⟨hparts, rfl⟩

theorem exists_of_updateState_ok {p q : Processor} {mapping : Mapping}
    (h : p.updateState mapping = .ok q) :
    ∃ level before, q = { p with indentLevel := level, blankBefore := before } := by
  unfold updateState at h
  split at h
  · cases h
  · unfold startLine at h
    split at h
    · cases h
    · cases h
      exact ⟨_, _, rfl⟩

theorem exists_nextLogicalLine_eq (p : Processor) :
    ∃ level text unindented, p.nextLogicalLine =
      { p with
        previousIndentLevel := level
        previousLogical := text
        previousUnindentedLogical := unindented
        blankLines := 0
        tokens := []
        noqa := false } := by
  unfold nextLogicalLine
  dsimp only
  split <;> exact ⟨_, _, _, rfl⟩

end Source.Processor

namespace Check

open Source (Processor)

/-- The depth of brackets after a token. -/
def depthAfter (depth : Int) (token : Source.Token) : Int :=
  if token.kind = .operator then Source.bracketDepth depth token.text else depth

namespace FileChecker

variable {α γ : Type}

/-- A file without its findings and what else calling checks may change. -/
def lasting (c : FileChecker) : FileChecker :=
  { c with results := [], processor := c.processor.map Processor.lasting }

/-- The same without where reading stands. -/
def steady (c : FileChecker) : FileChecker :=
  { c with results := [], processor := c.processor.map Processor.steady }

variable {c : FileChecker} {p q : Processor} {view : FileChecker → γ} {line : Value}
  {check : Checker}

theorem lasting_setProcessor (hp : c.processor = some p)
    (hq : q.lasting = p.lasting) : { c with processor := some q }.lasting = c.lasting := by
  simp only [lasting, hp, Option.map_some, hq]

theorem keeps_steady {x : Checking α} (h : Keeps lasting x) : Keeps steady x := by
  have hsteady : ∀ c : FileChecker, c.lasting.steady = c.steady := by
    intro c
    simp only [lasting, steady, Option.map_map]
    rfl
  intro c
  rw [← hsteady, h c, hsteady]

theorem run_lift (r : Except Fault α) (c : FileChecker) : (lift r).run c = (r, c) := by
  cases r <;> rfl

theorem keeps_lift (r : Except Fault α) : Keeps view (lift r) := by
  intro c
  rw [run_lift]

theorem run_getProcessor (h : c.processor = some p) :
    getProcessor.run c = (.ok p, c) := by
  simp only [getProcessor, run_bind, run_get, h]
  rfl

theorem run_getProcessor_none (h : c.processor = none) :
    getProcessor.run c = (.error Fault.missingAttribute, c) := by
  simp only [getProcessor, run_bind, run_get, h]
  rfl

theorem keeps_getProcessor : Keeps view getProcessor := by
  intro c
  cases hp : c.processor with
  | none => rw [run_getProcessor_none hp]
  | some p => rw [run_getProcessor hp]

theorem run_setProcessor (c : FileChecker) (p : Processor) :
    (setProcessor p).run c = (.ok (), { c with processor := some p }) := rfl

theorem keeps_getProcessor_bind {f : Processor → Checking α}
    (h : ∀ c p, c.processor = some p → view ((f p).run c).2 = view c) :
    Keeps view (getProcessor >>= f) := by
  intro c
  rw [run_bind]
  cases hp : c.processor with
  | none => rw [run_getProcessor_none hp]
  | some p =>
    rw [run_getProcessor hp]
    exact h c p hp

theorem view_setProcessor_bind
    {f : Unit → Checking α} (hq : view { c with processor := some q } = view c)
    (hf : Keeps view (f ())) : view ((setProcessor q >>= f).run c).2 = view c := by
  rw [run_bind, run_setProcessor]
  exact (hf _).trans hq

theorem keeps_addFinding {code column text given : Value}
    (h : ∀ (c : FileChecker) found, view { c with results := found } = view c) :
    Keeps view (addFinding code line column text given) :=
  .bind .get fun _ => .bind (keeps_lift _) fun _ => .modify fun c => h c _

theorem keeps_addResult {column text given : Value}
    (h : ∀ (c : FileChecker) found, view { c with results := found } = view c) :
    Keeps view (addResult line column text given) :=
  .bind (keeps_lift _) fun _ => .bind (keeps_addFinding h) fun _ => .pure _

theorem keeps_remember (memory : Option Source.CheckerState) : Keeps lasting (remember memory) := by
  unfold remember
  cases memory with
  | none => exact .pure _
  | some m =>
    apply keeps_getProcessor_bind
    intro c p hp
    rw [run_setProcessor]
    exact lasting_setProcessor hp (p.lasting_setCheckerState m)

theorem keeps_turnTo (check : Checker) : Keeps lasting (turnTo check) := by
  unfold turnTo
  refine .ite (keeps_getProcessor_bind fun c p hp => ?_) (.pure _)
  rw [run_setProcessor]
  exact lasting_setProcessor hp (p.lasting_turnTo check.name)

/-- The arguments of a call: the file answers for the parameters that are not given. -/
def gather (check : Checker) (args : Arguments) : Checking Arguments := do
  let p ← getProcessor
  let (found, p) := p.argumentsFor args check.parameters
  setProcessor p
  match found with
  | .ok args => pure args
  | .error f =>
    if f.isKind .missingAttribute then throw (.unknownParameters check.pluginName.plain f)
    else throw f

def replyOf (outcome : Call) : Checking Reply :=
  match outcome.reply with
  | .ok reply => pure reply
  | .error f => if f.isOrdinary then throw (Fault.missingKey "exception") else throw f

def rememberFor (check : Checker) (memory : Option Source.CheckerState) : Checking Unit :=
  if check.wantsMemory then remember memory else pure ()

theorem rememberFor_bind (check : Checker) (memory : Option Source.CheckerState) (k : Unit → Checking α) :
    rememberFor check memory >>= k =
      if check.wantsMemory then remember memory >>= k else k () := by
  unfold rememberFor
  split
  · rfl
  · exact pure_bind () k

theorem runCheck_eq (check : Checker) (args : Arguments) :
    runCheck check args = gather check args >>= fun args =>
      rememberFor check (check.call args).memory >>= fun _ => replyOf (check.call args) := by
  unfold runCheck gather
  simp only [bind_assoc]
  refine bind_congr fun p => bind_congr fun _ => ?_
  cases (p.argumentsFor args check.parameters).1 with
  | ok args =>
    dsimp only
    rw [pure_bind, pure_bind, rememberFor_bind]
    rfl
  | error f =>
    dsimp only
    split <;> rfl

theorem keeps_gather {args : Arguments} (h : ∀ c p, c.processor = some p →
      view { c with processor := some (p.argumentsFor args check.parameters).2 } = view c) :
    Keeps view (gather check args) := by
  refine keeps_getProcessor_bind fun c p hp => view_setProcessor_bind (h c p hp) ?_
  cases (p.argumentsFor args check.parameters).1 with
  | ok found => exact .pure _
  | error f => exact .ite (.throw _) (.throw _)

theorem keeps_replyOf (outcome : Call) : Keeps view (replyOf outcome) := by
  unfold replyOf
  split
  · exact .pure _
  · exact .ite (.throw _) (.throw _)

theorem keeps_rememberFor (memory : Option Source.CheckerState) :
    Keeps lasting (rememberFor check memory) := .ite (keeps_remember memory) (.pure _)

theorem keeps_runCheck (check : Checker) (args : Arguments) :
    Keeps lasting (runCheck check args) := by
  rw [runCheck_eq]
  refine .bind (keeps_gather fun c p hp => lasting_setProcessor hp ?_) fun _ =>
    .bind (keeps_rememberFor _) fun _ => keeps_replyOf _
  exact Processor.view_argumentsFor Processor.lasting_answer p args check.parameters

theorem keeps_forEachResult {results : Results} {use : Value → Checking Unit}
    (huse : ∀ v, Keeps lasting (use v)) : Keeps lasting (forEachResult check results use) := by
  cases results with
  | nothing => exact .throw _
  | inert => exact .throw _
  | ready items => exact .forM huse
  | lone items => exact .forM huse
  | stream items memory fault =>
    unfold forEachResult
    simp only [← rememberFor_bind]
    refine .bind (.forM fun e => .bind (keeps_rememberFor _) fun _ => huse _) fun _ =>
      .bind (keeps_rememberFor _) fun _ => ?_
    cases fault with
    | none => exact .pure _
    | some f => exact .throw _

theorem keeps_addLineResult {shown result : Value} :
    Keeps lasting (addLineResult line shown result) := by
  unfold addLineResult
  refine .bind (keeps_lift _) fun _ => ?_
  refine keeps_getProcessor_bind fun c p _ => ?_
  refine Keeps.bind (keeps_addResult fun _ _ => rfl) (fun code => ?_) c
  refine keeps_getProcessor_bind fun c p hp => ?_
  cases hcheck : p.checkPhysicalError code line with
  | error f => rfl
  | ok q =>
    have hrun : (lift (Except.ok q : Except Fault Processor) >>= setProcessor).run c =
        (.ok (), { c with processor := some q }) := rfl
    rw [hrun]
    exact lasting_setProcessor hp (Processor.lasting_checkPhysicalError hcheck)

theorem keeps_callLogicalChecks (parts : Source.LogicalParts) :
    Keeps lasting (callLogicalChecks parts) := by
  unfold callLogicalChecks
  refine .bind .get fun _ => .bind (.forIn (fun check _ => ?_) _) fun _ => .pure _
  refine .bind (keeps_turnTo check) fun _ => .bind (keeps_runCheck check _) fun reply => ?_
  dsimp only
  split
  · exact .pure _
  · refine .bind (keeps_forEachResult fun result => ?_) fun _ => .pure _
    refine .bind (keeps_lift _) fun _ => .bind (keeps_lift _) fun _ => ?_
    exact .bind (keeps_addResult fun _ _ => rfl) fun _ => .pure _

def tallyToken : Checking Unit := do
  if !(← get).counted then throw (Fault.missingKey "tokens")
  modify fun c => { c with counts := { c.counts with tokens := c.counts.tokens + 1 } }

theorem keeps_tallyToken (h : ∀ (c : FileChecker) counts, view { c with counts := counts } = view c) :
    Keeps view tallyToken :=
  .bind .get fun _ => .ite (.bind (.throw _) fun _ => .modify fun c => h c _)
    (.modify fun c => h c _)

theorem processToken_eq (depth : Int) (token : Source.Token) :
    processToken depth token = tallyToken >>= fun _ => checkLineEnd token >>= fun _ =>
      (if depth = 0 && token.isNewline then handleNewline token.kind else pure ()) >>= fun _ =>
        pure (depthAfter depth token) := by
  have hend : (if token.kind = .operator then pure (Source.bracketDepth depth token.text)
      else if depth = 0 && token.isNewline then handleNewline token.kind >>= fun _ => pure depth
      else pure depth : Checking Int) =
        (if depth = 0 && token.isNewline then handleNewline token.kind else pure ()) >>= fun _ =>
          pure (depthAfter depth token) := by
    unfold depthAfter
    by_cases hkind : token.kind = .operator
    · have hnewline : token.isNewline = false := by simp [Source.Token.isNewline, hkind]
      simp [hkind, hnewline]
    · rw [if_neg hkind, if_neg hkind]
      split
      · rfl
      · rw [pure_bind]
  rw [← hend]
  unfold processToken tallyToken
  rw [bind_assoc]
  refine bind_congr fun c => ?_
  cases c.counted <;> rfl

end FileChecker

end Check

end LintRunner
