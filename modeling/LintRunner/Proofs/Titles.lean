import LintRunner.Check.FileChecker
import LintRunner.Proofs.Frames
import LintRunner.Proofs.Stateful

/-!
# The name a file is shown under

A file can be given new names: the one it was asked for by, the one it is shown under, and the one
that checks are told. Checking it then gives the same findings, as long as no check asks for the
name that has changed.
-/

namespace LintRunner

namespace Stateful

variable {σ α β : Type}

/-- On states with `I`, which is kept, the second work does what the first one does when the state was
changed by `f` before: the state ends up changed by `f`, and the result by `g`. -/
def Mirrors (I : σ → Prop) (f : σ → σ) (g : α → α) (x y : Work σ α) : Prop :=
  ∀ s, I s → y.run (f s) = ((x.run s).1.map g, f (x.run s).2) ∧ I (x.run s).2

/-- The work takes no notice of a change of the state by `f`. -/
abbrev Blind (I : σ → Prop) (f : σ → σ) (x : Work σ α) : Prop := Mirrors I f id x x

variable {I : σ → Prop} {f : σ → σ}

namespace Mirrors

variable {g : α → α} {h : β → β}

theorem modify {change change' : σ → σ} (hchange : ∀ s, change' (f s) = f (change s))
    (hkept : ∀ s, I s → I (change s)) :
    Mirrors I f id (modify change : Work σ Unit) (modify change') := by
  intro s hs
  refine ⟨?_, hkept s hs⟩
  rw [run_modify, run_modify, hchange]
  rfl

theorem bind {x y : Work σ α} {k l : α → Work σ β} (hx : Mirrors I f g x y)
    (hk : ∀ a, Mirrors I f h (k a) (l (g a))) : Mirrors I f h (x >>= k) (y >>= l) := by
  intro s hs
  obtain ⟨hrun, hkept⟩ := hx s hs
  rw [run_bind, run_bind, hrun]
  rcases hx : x.run s with ⟨e | a, t⟩ <;> rw [hx] at hkept
  · exact ⟨rfl, hkept⟩
  · exact hk a t hkept

end Mirrors

namespace Blind

theorem pure (a : α) : Blind I f (Pure.pure a : Work σ α) := fun _ hs => ⟨rfl, hs⟩

theorem throw (e : Fault) : Blind I f (throw e : Work σ α) := fun _ hs => ⟨rfl, hs⟩

theorem bind {x : Work σ α} {k : α → Work σ β} (hx : Blind I f x) (hk : ∀ a, Blind I f (k a)) :
    Blind I f (x >>= k) := Mirrors.bind hx hk

theorem ite {c : Prop} [Decidable c] {x y : Work σ α} (hx : Blind I f x) (hy : Blind I f y) :
    Blind I f (if c then x else y) := by
  split
  · exact hx
  · exact hy

theorem get_bind {k : σ → Work σ α} (hsame : ∀ s, k (f s) = k s)
    (hk : ∀ s, I s → Blind I f (k s)) : Blind I f (MonadState.get >>= k) := by
  intro s hs
  have hfirst : (MonadState.get >>= k).run (f s) = (k (f s)).run (f s) := rfl
  rw [hfirst, hsame s]
  exact hk s hs s hs

theorem tryCatch {x : Work σ α} {handle : Fault → Work σ α} (hx : Blind I f x)
    (hh : ∀ e, Blind I f (handle e)) : Blind I f (tryCatch x handle) := by
  intro s hs
  obtain ⟨hrun, hkept⟩ := hx s hs
  rw [run_tryCatch, run_tryCatch, hrun]
  rcases hx : x.run s with ⟨e | a, t⟩ <;> rw [hx] at hkept
  · exact hh e t hkept
  · exact ⟨rfl, hkept⟩

theorem forIn {xs : List α} {body : α → β → Work σ (ForInStep β)}
    (hbody : ∀ a ∈ xs, ∀ b, Blind I f (body a b)) (b : β) : Blind I f (forIn xs b body) := by
  induction xs generalizing b with
  | nil => exact pure b
  | cons a rest ih =>
    rw [List.forIn_cons]
    refine bind (hbody a List.mem_cons_self b) fun step => ?_
    cases step with
    | done b => exact pure b
    | yield b => exact ih (fun a' ha' => hbody a' (List.mem_cons_of_mem a ha')) b

theorem forM {xs : List α} {body : α → Work σ PUnit} (hbody : ∀ a, Blind I f (body a)) :
    Blind I f (xs.forM body) := by
  induction xs with
  | nil => exact pure _
  | cons a rest ih => exact bind (hbody a) fun _ => ih

end Blind

end Stateful

open Stateful

namespace Source.Processor

/-- The file under another name, unless it keeps the one it has. -/
def retitle (title : Option Value) (p : Processor) : Processor :=
  { p with filename := title.getD p.filename }

variable {title : Option Value}

theorem retitle_nextLine (p : Processor) :
    (p.retitle title).nextLine = p.nextLine.map (Prod.map id (retitle title)) := by
  by_cases h : (p.totalLines : Int) ≤ p.lineNumber
  · have h' : ((p.retitle title).totalLines : Int) ≤ (p.retitle title).lineNumber := h
    rw [nextLine, nextLine, if_pos h, if_pos h']
    rfl
  · have h' : ¬((p.retitle title).totalLines : Int) ≤ (p.retitle title).lineNumber := h
    have hline : elementAt? (p.retitle title).lines (p.retitle title).lineNumber =
        elementAt? p.lines p.lineNumber := rfl
    rw [nextLine, nextLine, if_neg h, if_neg h', hline]
    split <;> rfl

theorem retitle_buildLogicalLine (p : Processor) :
    (p.retitle title).buildLogicalLine =
      p.buildLogicalLine.map (Prod.map id (retitle title)) := by
  have htokens : (p.retitle title).logicalTokens = p.logicalTokens := rfl
  unfold buildLogicalLine
  rw [htokens]
  split <;> rfl

theorem retitle_updateState (p : Processor) (mapping : Mapping) :
    (p.retitle title).updateState mapping = (p.updateState mapping).map (retitle title) := by
  have hlines : (p.retitle title).lines = p.lines := rfl
  unfold updateState
  split
  · rfl
  · unfold startLine
    rw [hlines]
    split <;> rfl

theorem retitle_nextLogicalLine (p : Processor) :
    (p.retitle title).nextLogicalLine = p.nextLogicalLine.retitle title := by
  have hline : (p.retitle title).logicalLine = p.logicalLine := rfl
  unfold nextLogicalLine
  rw [hline]
  dsimp only
  split <;> rfl

theorem retitle_deleteFirstToken (p : Processor) :
    (p.retitle title).deleteFirstToken = p.deleteFirstToken.map (retitle title) := by
  have htokens : (p.retitle title).tokens = p.tokens := rfl
  unfold deleteFirstToken
  rw [htokens]
  split <;> rfl

theorem retitle_checkPhysicalError (p : Processor) (code line : Value) :
    (p.retitle title).checkPhysicalError code line =
      (p.checkPhysicalError code line).map (retitle title) := by
  unfold checkPhysicalError
  split
  · cases line.itemAt 0 <;> rfl
  · rfl

theorem retitle_setCheckerState (p : Processor) (m : CheckerState) :
    (p.retitle title).setCheckerState m = (p.setCheckerState m).retitle title := by
  have hcurrent : (p.retitle title).currentChecker = p.currentChecker := rfl
  unfold setCheckerState
  rw [hcurrent]
  split <;> rfl

theorem retitle_allTokens (p : Processor) :
    (p.retitle title).allTokens = (p.allTokens.1, p.allTokens.2.retitle title) := by
  have htokens : (p.retitle title).fileTokens = p.fileTokens := rfl
  have hlines : (p.retitle title).lines = p.lines := rfl
  unfold allTokens
  rw [htokens, hlines]
  split
  · rfl
  · split <;> rfl

theorem retitle_answer (p : Processor) {name : String} (h : title = none ∨ name ≠ "filename") :
    (p.retitle title).answer name = ((p.answer name).1, (p.answer name).2.retitle title) := by
  rcases h with rfl | h
  · rfl
  · unfold answer
    split
    case h_4 => exact absurd rfl h
    case h_24 =>
      rw [retitle_allTokens]
      rcases p.allTokens with ⟨_ | _, _⟩ <;> rfl
    case h_25 => 
      dsimp only
      split <;> rfl
    all_goals rfl

theorem retitle_argumentsFor (p : Processor) (args : List (String × Value))
    {params : List (String × Bool)} (h : title = none ∨ ∀ e ∈ params, e.1 ≠ "filename") :
    (p.retitle title).argumentsFor args params =
      ((p.argumentsFor args params).1, (p.argumentsFor args params).2.retitle title) := by
  induction params generalizing p args with
  | nil => rfl
  | cons param rest ih =>
    obtain ⟨name, required⟩ := param
    have hname : title = none ∨ name ≠ "filename" := h.imp_right fun h => h _ List.mem_cons_self
    have hrest : title = none ∨ ∀ e ∈ rest, e.1 ≠ "filename" :=
      h.imp_right fun h e he => h e (List.mem_cons_of_mem _ he)
    unfold argumentsFor
    rw [retitle_answer p hname]
    split
    · exact ih p args hrest
    · rcases p.answer name with ⟨f | v, q⟩
      · dsimp only
        split
        · exact ih q args hrest
        · rfl
      · exact ih q _ hrest

end Source.Processor

namespace Check

open Source (Processor)

namespace FileChecker

/-- The file under other names: the one it was asked for by, the one it is shown under, and the one
that checks are told unless that one stays. -/
def retitle (name shown : Value) (title : Option Value) (c : FileChecker) : FileChecker :=
  { c with filename := name, displayName := shown, processor := c.processor.map (·.retitle title) }

/-- The check does not ask for the name of the file, or that name stays. -/
def Discreet (title : Option Value) (check : Checker) : Prop :=
  title = none ∨ ∀ e ∈ check.parameters, e.1 ≠ "filename"

/-- The file is checked by checks that do not ask for its name, or that name stays. -/
structure ByDiscreet (title : Option Value) (c : FileChecker) : Prop where
  trees : ∀ check ∈ c.checks.trees, Discreet title check
  logicalLines : ∀ check ∈ c.checks.logicalLines, Discreet title check
  physicalLines : ∀ check ∈ c.checks.physicalLines, Discreet title check

abbrev Untitled (name shown : Value) (title : Option Value) {α : Type} (x : Checking α) : Prop :=
  Blind (ByDiscreet title) (retitle name shown title) x

variable {α : Type} {name shown : Value} {title : Option Value}

/-! ## Elementary steps -/

variable {line : Value} {check : Checker}

theorem mirrors_getProcessor :
    Mirrors (ByDiscreet title) (retitle name shown title) (Processor.retitle title) getProcessor
      getProcessor := by
  intro c hc
  cases hp : c.processor with
  | none =>
    have hp' : (c.retitle name shown title).processor = none := by rw [retitle, hp]; rfl
    rw [run_getProcessor_none hp, run_getProcessor_none hp']
    exact ⟨rfl, hc⟩
  | some p =>
    have hp' : (c.retitle name shown title).processor = some (p.retitle title) := by
      rw [retitle, hp]; rfl
    rw [run_getProcessor hp, run_getProcessor hp']
    exact ⟨rfl, hc⟩

theorem mirrors_setProcessor (p : Processor) :
    Mirrors (ByDiscreet title) (retitle name shown title) id (setProcessor p)
      (setProcessor (p.retitle title)) :=
  fun _ hc => ⟨rfl, hc.trees, hc.logicalLines, hc.physicalLines⟩

theorem untitled_lift (r : Except Fault α) : Untitled name shown title (lift r) := by
  intro c hc
  rw [run_lift, run_lift]
  refine ⟨?_, hc⟩
  cases r <;> rfl

theorem untitled_getProcessor_bind {k : Processor → Checking α}
    (hk : ∀ p, Mirrors (ByDiscreet title) (retitle name shown title) id (k p)
      (k (p.retitle title))) : Untitled name shown title (getProcessor >>= k) :=
  Mirrors.bind mirrors_getProcessor hk

theorem shownLine_retitle (c : FileChecker) (line given : Value) :
    (c.retitle name shown title).shownLine line given = c.shownLine line given := by
  unfold shownLine retitle
  cases c.processor <;> cases given.truthy <;> rfl

theorem untitled_addFinding {code column text given : Value} :
    Untitled name shown title (addFinding code line column text given) := by
  refine .get_bind (fun c => by rw [shownLine_retitle]) fun c _ => ?_
  refine .bind (untitled_lift _) fun source => .modify (fun _ => rfl) fun _ hc => ?_
  exact ⟨hc.trees, hc.logicalLines, hc.physicalLines⟩

theorem untitled_addResult {column text given : Value} :
    Untitled name shown title (addResult line column text given) :=
  .bind (untitled_lift _) fun _ => .bind untitled_addFinding fun _ => .pure _

theorem untitled_remember (memory : Option Source.CheckerState) :
    Untitled name shown title (remember memory) := by
  unfold remember
  cases memory with
  | none => exact .pure _
  | some m =>
    refine untitled_getProcessor_bind fun p => ?_
    rw [Processor.retitle_setCheckerState]
    exact mirrors_setProcessor _

theorem untitled_rememberFor (memory : Option Source.CheckerState) :
    Untitled name shown title (rememberFor check memory) := .ite (untitled_remember memory) (.pure _)

theorem untitled_turnTo (check : Checker) : Untitled name shown title (turnTo check) :=
  .ite (untitled_getProcessor_bind fun p => mirrors_setProcessor (p.turnTo check.name)) (.pure _)

theorem untitled_runCheck (h : Discreet title check) (args : Arguments) :
    Untitled name shown title (runCheck check args) := by
  rw [runCheck_eq]
  refine .bind ?_ fun _ => .bind (untitled_rememberFor _) fun _ => ?_
  · refine untitled_getProcessor_bind fun p => ?_
    rw [p.retitle_argumentsFor args h]
    refine .bind (mirrors_setProcessor _) fun _ => ?_
    split
    · exact Blind.pure _
    · exact Blind.ite (.throw _) (.throw _)
  · unfold replyOf
    split
    · exact .pure _
    · exact .ite (.throw _) (.throw _)

theorem untitled_forEachResult {results : Results} {use : Value → Checking Unit}
    (huse : ∀ v, Untitled name shown title (use v)) :
    Untitled name shown title (forEachResult check results use) := by
  cases results with
  | nothing => exact .throw _
  | inert => exact .throw _
  | ready items => exact .forM huse
  | lone items => exact .forM huse
  | stream items memory fault =>
    unfold forEachResult
    simp only [← rememberFor_bind]
    refine .bind (.forM fun e => .bind (untitled_rememberFor _) fun _ => huse _) fun _ =>
      .bind (untitled_rememberFor _) fun _ => ?_
    cases fault with
    | none => exact .pure _
    | some f => exact .throw _

theorem untitled_treeResults {reply : Reply} :
    Untitled name shown title (treeResults check reply) := by
  unfold treeResults
  cases reply with
  | results r => exact .pure _
  | runner outcome memory =>
    simp only [← rememberFor_bind]
    refine .bind (untitled_rememberFor _) fun _ => ?_
    cases outcome with
    | ok r => exact .pure _
    | error f => exact .ite (.pure _) (.throw _)

theorem untitled_reportCompileFault (f : Fault) :
    Untitled name shown title (reportCompileFault f) := by
  unfold reportCompileFault
  refine .bind (untitled_lift _) fun _ => ?_
  dsimp only
  split
  · exact .throw _
  · exact untitled_addFinding

theorem untitled_runTreeChecks : Untitled name shown title runTreeChecks := by
  unfold runTreeChecks
  refine untitled_getProcessor_bind fun p => ?_
  have hcompile : (p.retitle title).compileFailure = p.compileFailure := rfl
  rw [hcompile]
  split
  · exact Blind.ite (untitled_reportCompileFault _) (.throw _)
  · refine Blind.get_bind (fun _ => rfl) fun c hc => ?_
    refine .bind (.forIn (fun check hcheck _ => ?_) _) fun _ => .pure _
    refine .bind (untitled_runCheck (hc.trees check hcheck) _) fun _ => ?_
    refine .bind untitled_treeResults fun _ => ?_
    refine .bind (untitled_forEachResult fun result => ?_) fun _ => .pure _
    exact .bind (untitled_lift _) fun _ => .bind untitled_addResult fun _ => .pure _

theorem untitled_callLogicalChecks (parts : Source.LogicalParts) :
    Untitled name shown title (callLogicalChecks parts) := by
  unfold callLogicalChecks
  refine .get_bind (fun _ => rfl) fun c hc => ?_
  refine .bind (.forIn (fun check hcheck _ => ?_) _) fun _ => .pure _
  refine .bind (untitled_turnTo check) fun _ => ?_
  refine .bind (untitled_runCheck (hc.logicalLines check hcheck) _) fun reply => ?_
  dsimp only
  split
  · exact .pure _
  · refine .bind (untitled_forEachResult fun result => ?_) fun _ => .pure _
    refine .bind (untitled_lift _) fun _ => .bind (untitled_lift _) fun _ => ?_
    exact .bind untitled_addResult fun _ => .pure _

theorem untitled_lift_bind {β : Type} {r r' : Except Fault β} {g : β → β} {k : β → Checking α}
    (hr : r' = r.map g)
    (hk : ∀ b, Mirrors (ByDiscreet title) (retitle name shown title) id (k b) (k (g b))) :
    Mirrors (ByDiscreet title) (retitle name shown title) id (lift r >>= k) (lift r' >>= k) := by
  refine Mirrors.bind (g := g) (fun c hc => ?_) hk
  rw [run_lift, run_lift, hr]
  exact ⟨rfl, hc⟩

theorem untitled_runLogicalChecks : Untitled name shown title runLogicalChecks := by
  unfold runLogicalChecks
  refine untitled_getProcessor_bind fun p => ?_
  refine untitled_lift_bind p.retitle_buildLogicalLine fun built => ?_
  obtain ⟨parts, q⟩ := built
  refine .bind (mirrors_setProcessor q) fun _ => ?_
  dsimp only [Prod.map, id]
  split
  · exact Blind.pure _
  · refine untitled_lift_bind (q.retitle_updateState parts.mapping) fun q' => ?_
    refine .bind (mirrors_setProcessor q') fun _ => ?_
    refine .bind (untitled_callLogicalChecks parts) fun _ => ?_
    refine untitled_getProcessor_bind fun q'' => ?_
    rw [q''.retitle_nextLogicalLine]
    exact mirrors_setProcessor _

theorem untitled_addLineResult {shownLine result : Value} :
    Untitled name shown title (addLineResult line shownLine result) := by
  unfold addLineResult
  refine .bind (untitled_lift _) fun parts => untitled_getProcessor_bind fun p => ?_
  refine Blind.bind untitled_addResult fun code => untitled_getProcessor_bind fun q => ?_
  exact untitled_lift_bind (q.retitle_checkPhysicalError code line) mirrors_setProcessor

theorem untitled_runPhysicalChecks {override : Value} :
    Untitled name shown title (runPhysicalChecks line override) := by
  unfold runPhysicalChecks
  refine .get_bind (fun _ => rfl) fun c hc => ?_
  refine .bind (.forIn (fun check hcheck _ => ?_) _) fun _ => .pure _
  refine .bind (untitled_turnTo check) fun _ => ?_
  refine .bind (untitled_runCheck (hc.physicalLines check hcheck) _) fun reply => ?_
  dsimp only
  split
  · exact .pure _
  · split
    · exact .bind untitled_addLineResult fun _ => .pure _
    · exact .bind untitled_addLineResult fun _ => .pure _
    · exact .bind (.forM fun _ => untitled_addLineResult) fun _ => .pure _
  · exact .bind (untitled_forEachResult fun _ => untitled_addLineResult) fun _ => .pure _

theorem untitled_checkLineEnd (token : Source.Token) :
    Untitled name shown title (checkLineEnd token) := by
  unfold checkLineEnd
  refine .ite untitled_runPhysicalChecks (.ite ?_ (.pure _))
  refine untitled_getProcessor_bind fun p => .bind (mirrors_setProcessor _) fun _ => ?_
  refine Blind.bind (.forIn (fun line _ _ => ?_) _) fun _ => ?_
  · refine .bind untitled_runPhysicalChecks fun _ => untitled_getProcessor_bind fun p => ?_
    exact .bind (mirrors_setProcessor _) fun _ => Blind.pure _
  · exact untitled_getProcessor_bind fun p => mirrors_setProcessor _

theorem untitled_handleNewline (kind : Source.TokenKind) :
    Untitled name shown title (handleNewline kind) := by
  unfold handleNewline
  refine .ite ?_ ?_
  · refine .bind untitled_runLogicalChecks fun _ => ?_
    exact untitled_getProcessor_bind fun p => mirrors_setProcessor _
  · refine untitled_getProcessor_bind fun p => ?_
    have htokens : (p.retitle title).tokens = p.tokens := rfl
    rw [htokens]
    split
    · exact untitled_lift_bind p.visitBlankLine.retitle_deleteFirstToken mirrors_setProcessor
    · exact untitled_runLogicalChecks

theorem untitled_processToken (depth : Int) (token : Source.Token) :
    Untitled name shown title (processToken depth token) := by
  rw [processToken_eq]
  have hcount : Untitled name shown title (modify fun c => { c with
      counts := { c.counts with tokens := c.counts.tokens + 1 } } : Checking Unit) :=
    .modify (fun _ => rfl) fun _ hc => ⟨hc.trees, hc.logicalLines, hc.physicalLines⟩
  refine .bind (.get_bind (fun _ => rfl) fun c _ => .ite (.bind (.throw _) fun _ => hcount) hcount)
    fun _ => .bind (untitled_checkLineEnd token) fun _ => .bind ?_ fun _ => .pure _
  exact .ite (untitled_handleNewline _) (.pure _)

theorem untitled_processLineTokens (tokens : List Source.Token) (depth : Int) :
    Untitled name shown title (processLineTokens tokens depth) := by
  induction tokens generalizing depth with
  | nil => exact .pure _
  | cons token rest ih =>
    unfold processLineTokens
    refine untitled_getProcessor_bind fun p => ?_
    have htotal : (p.retitle title).totalLines = p.totalLines := rfl
    rw [htotal]
    split
    · exact Blind.pure _
    · refine .bind (mirrors_setProcessor _) fun _ => ?_
      exact Blind.bind (untitled_processToken depth token) fun _ => ih _

theorem untitled_processLinesBy (feed : Source.Feed) (fuel : Nat) (st : Source.TokenizerState)
    (depth : Int) : Untitled name shown title (processLinesBy feed fuel st depth) := by
  induction fuel generalizing st depth with
  | zero => exact .pure _
  | succ fuel ih =>
    unfold processLinesBy
    refine .ite (.pure _) (untitled_getProcessor_bind fun p => ?_)
    refine untitled_lift_bind p.retitle_nextLine fun read => ?_
    obtain ⟨line, q⟩ := read
    refine .bind (mirrors_setProcessor q) fun _ => ?_
    dsimp only [Prod.map, id]
    split
    · exact Blind.throw _
    · refine Blind.bind (untitled_processLineTokens _ _) fun reached => ?_
      cases reached with
      | none => exact .pure _
      | some depth => exact ih _ depth

theorem untitled_processRest : Untitled name shown title processRest := by
  unfold processRest
  refine untitled_getProcessor_bind fun p => ?_
  have htokens : (p.retitle title).tokens = p.tokens := rfl
  have hlines : (p.retitle title).lines = p.lines := rfl
  rw [htokens, hlines]
  split
  · split
    · exact Blind.throw _
    · exact Blind.bind untitled_runPhysicalChecks fun _ => untitled_runLogicalChecks
  · exact Blind.pure _

theorem untitled_processTokensBy (feed : Source.Feed) :
    Untitled name shown title (processTokensBy feed) := by
  unfold processTokensBy
  refine untitled_getProcessor_bind fun p => ?_
  exact Blind.bind (untitled_processLinesBy feed _ _ _) fun _ => untitled_processRest

theorem untitled_runChecks : Untitled name shown title runChecks := by
  unfold runChecks
  refine .bind (.tryCatch (untitled_processTokensBy _) fun f => ?_) fun _ => ?_
  · split
    · exact untitled_addFinding
    · exact .throw _
  · refine .bind untitled_runTreeChecks fun _ => untitled_getProcessor_bind fun p => ?_
    refine .modify (fun _ => rfl) fun _ hc => ?_
    exact ⟨hc.trees, hc.logicalLines, hc.physicalLines⟩

end FileChecker

end Check

end LintRunner
