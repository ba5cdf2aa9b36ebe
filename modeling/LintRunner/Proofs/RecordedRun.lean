import LintRunner.Proofs.Frames

/-!
# A run with a record

What passes between a file and its checks is not part of the file's state, nor is the order in which
its tokens come and go. Here checking a file is told once more with a record beside the state; what
is put down of each thing that happens is a parameter. `Tells` relates this account to the work
itself: the record changes nothing, and from what is known of the file and the record before the
work it follows what is known after it.
-/

namespace LintRunner

open Stateful

namespace Source.Processor

/-- The state of a file without where reading stands and what was read ahead. -/
def still (p : Processor) : Processor :=
  { p with indentChar := .none, lineNumber := 0, multiline := false, fileTokens := none }

theorem still_answer (p : Processor) (name : String) : (p.answer name).2.still = p.still := by
  obtain ⟨ts, hanswer⟩ := p.exists_answer_snd name
  rw [hanswer]
  rfl

theorem still_checkPhysicalError {p q : Processor} {code line : Value}
    (h : p.checkPhysicalError code line = .ok q) : q.still = p.still := by
  unfold checkPhysicalError at h
  split at h
  · obtain ⟨v, -, h⟩ := bind_ok h
    cases h
    rfl
  · cases h
    rfl

theorem still_nextLine {p q : Processor} {line : String} (h : p.nextLine = .ok (line, q)) :
    q.still = p.still := by
  unfold nextLine at h
  split at h
  · cases h
    rfl
  · split at h <;> cases h
    rfl

variable {p : Processor} {args found : List (String × Value)} {params : List (String × Bool)}

theorem lookup_argumentsFor {key : String} {v : Value}
    (h : (p.argumentsFor args params).1 = .ok found) (hv : args.lookup key = some v) :
    found.lookup key = some v := by
  induction params generalizing p args with
  | nil =>
    cases h
    exact hv
  | cons param rest ih =>
    unfold argumentsFor at h
    split at h
    · exact ih h hv
    · split at h
      · refine ih h ?_
        rw [List.lookup_append, hv]
        rfl
      · split at h
        · exact ih h hv
        · cases h

/-- What is answered for a parameter that a check asks for is among its arguments, if answers for
others leave it alone. -/
theorem lookup_answer {key : String} {v : Value}
    (hparams : ∃ param ∈ params, param.1 = key) (hargs : args.lookup key = none)
    (hanswer : ∀ q : Processor, q.still = p.still → (q.answer key).1 = .ok v)
    (h : (p.argumentsFor args params).1 = .ok found) : found.lookup key = some v := by
  induction params generalizing p args with
  | nil => simp at hparams
  | cons param rest ih =>
    obtain ⟨name, required⟩ := param
    unfold argumentsFor at h
    by_cases hname : name = key
    · subst hname
      rw [hargs] at h
      have hfirst := hanswer p rfl
      rcases hp : p.answer name with ⟨r, q⟩
      rw [hp] at hfirst h
      cases hfirst
      refine lookup_argumentsFor h ?_
      rw [List.lookup_append, hargs, List.lookup_cons, beq_self_eq_true]
      rfl
    · have hrest : ∃ param ∈ rest, param.1 = key := by
        simpa [hname] using hparams
      have hkept := p.still_answer name
      split at h
      · exact ih hrest hargs hanswer h
      · split at h
        · rename_i w q hq
          rw [hq] at hkept
          have hnone : (args ++ [(name, w)]).lookup key = none := by
            have hne : (key == name) = false := by simpa using Ne.symm hname
            rw [List.lookup_append, hargs, List.lookup_cons, hne]
            rfl
          exact ih hrest hnone (fun r hr => hanswer r (hr.trans hkept)) h
        · rename_i f q hq
          rw [hq] at hkept
          split at h
          · exact ih hrest hargs (fun r hr => hanswer r (hr.trans hkept)) h
          · cases h

end Source.Processor

namespace Check

open Source (CheckerState LogicalParts Processor Token)

/-- What checks look at. -/
inductive Subject where
  | physicalLine
  | logicalLine
  | tree
deriving DecidableEq, Repr

/-- What can happen while a file is checked. -/
inductive Happening where
  | read (line : String)
  /-- A token joins those at hand. -/
  | taken (t : Token)
  /-- All that a token calls for has been done. -/
  | handled (t : Token)
  | begun (subject : Subject) (check : Checker)
  | called (subject : Subject) (check : Checker) (args : Arguments)
  | stored (check : Checker) (memory : CheckerState)
  /-- A logical line was made of the tokens at hand. -/
  | opened (parts : LogicalParts)
  /-- All checks of logical lines have seen a line with this indentation, and its tokens are no
  longer at hand. -/
  | completed (parts : LogicalParts) (level : Nat) (batch : List Token)
  /-- The only token at hand was a blank line. -/
  | dropped (t : Token)
  /-- Tokens are left at the end, and the last line is asked for. -/
  | lastLine (line : Option String)

namespace FileChecker

variable {α : Type}

/-- A run of a check begins. The file turns to the memory of a check of lines, but not to the one of
a check of the whole file. -/
def turnFor (subject : Subject) (check : Checker) : Checking Unit :=
  if subject = .tree then pure () else turnTo check

def adjust (f : Processor → Processor) : Checking Unit := do setProcessor (f (← getProcessor))

/-- Makes the logical line of the tokens at hand, if there is more to it than layout. -/
def openLogicalLine : Checking (Option LogicalParts) := do
  let (parts, p) ← lift (← getProcessor).buildLogicalLine
  setProcessor p
  if parts.mapping.isEmpty then return none
  setProcessor (← lift (p.updateState parts.mapping))
  return some parts

theorem runLogicalChecks_eq :
    runLogicalChecks = openLogicalLine >>= fun
      | none => pure ()
      | some parts => callLogicalChecks parts >>= fun _ => adjust Processor.nextLogicalLine := by
  unfold runLogicalChecks openLogicalLine adjust
  simp only [bind_assoc]
  refine bind_congr fun p => bind_congr fun built => bind_congr fun _ => ?_
  split
  · rw [pure_bind]
  · simp only [bind_assoc, pure_bind]

/-- Keeps a result of a logical line, at the place in the file that its offset stands for. -/
def addLogicalResult (parts : LogicalParts) (result : Value) : Checking Unit := do
  let (offset, text) ← lift result.unpack2
  let (row, col) ← lift (resultPlace offset parts.mapping)
  let _ ← addResult row col text .none

def addLoneResult (line shown : Value) : List Value → Checking Unit
  | .int n :: rest => addLineResult line shown (.tuple (.int n :: rest))
  | .bool b :: rest => addLineResult line shown (.tuple (.bool b :: rest))
  | items => items.forM (addLineResult line shown)

theorem checkLineEnd_eq (token : Token) :
    checkLineEnd token =
      if token.endsLine then runPhysicalChecks (.text token.line) .none
      else if token.isMultilineString then
        (adjust fun p => { p with lineNumber := token.start.row, multiline := true }) >>= fun _ =>
          (do
            for line in Processor.splitLine token.text do
              runPhysicalChecks (.text (line ++ "\n")) (.text token.line)
              adjust fun p => { p with lineNumber := p.lineNumber + 1 }
            adjust fun p => { p with multiline := false })
      else pure () := by
  unfold checkLineEnd adjust
  split
  · rfl
  · split
    · simp only [bind_assoc]
    · rfl

/-- Counts and drops a token that is alone at hand. -/
def dropBlankLine : Checking (Option Token) := do
  let p ← getProcessor
  match p.tokens with
  | [t] =>
    setProcessor { p with blankLines := p.blankLines + 1, tokens := [] }
    return some t
  | _ => return none

theorem handleNewline_eq (kind : Source.TokenKind) :
    handleNewline kind =
      if kind = .newline then runLogicalChecks >>= fun _ => adjust Processor.resetBlankBefore
      else dropBlankLine >>= fun dropped =>
        if dropped.isSome then pure () else runLogicalChecks := by
  unfold handleNewline dropBlankLine adjust
  split
  · rfl
  · rw [bind_assoc]
    refine bind_congr fun p => ?_
    split
    · rename_i hone
      obtain ⟨t, htokens⟩ := List.length_eq_one_iff.mp hone
      simp only [Processor.deleteFirstToken, Processor.visitBlankLine, htokens]
      rfl
    · rename_i hmore
      split
      · rename_i htokens
        exact absurd (congrArg List.length htokens) hmore
      · rw [pure_bind]
        rfl

/-- A token joins those at hand, unless it lies beyond the last line. -/
def joinToken (token : Token) : Checking Bool := do
  let p ← getProcessor
  if (p.totalLines : Int) < token.start.row then return false
  setProcessor { p with tokens := p.tokens ++ [token] }
  return true

theorem processLineTokens_cons (token : Token) (rest : List Token) (depth : Int) :
    processLineTokens (token :: rest) depth = joinToken token >>= fun joined =>
      if joined then processToken depth token >>= processLineTokens rest else pure none := by
  rw [processLineTokens]
  unfold joinToken
  rw [bind_assoc]
  refine bind_congr fun p => ?_
  split
  · rw [pure_bind]
    rfl
  · simp only [bind_assoc, pure_bind, if_true]

def readLine : Checking String := do
  let (line, p) ← lift (← getProcessor).nextLine
  setProcessor p
  return line

theorem processLinesBy_succ (feed : Source.Feed) (fuel : Nat) (st : Source.TokenizerState)
    (depth : Int) :
    processLinesBy feed (fuel + 1) st depth =
      if st.finished then pure ()
      else readLine >>= fun line =>
        match feed st line with
        | .error why => throw (Fault.ofTokenFault (Processor.tokenizeFault why))
        | .ok (tokens, st) => processLineTokens tokens depth >>= fun
          | none => pure ()
          | some depth => processLinesBy feed fuel st depth := by
  rw [processLinesBy]
  split
  · rfl
  · unfold readLine
    rw [bind_assoc]
    refine bind_congr fun p => ?_
    rw [bind_assoc]
    refine bind_congr fun read => ?_
    rw [bind_assoc]
    exact bind_congr fun _ => (pure_bind ..).symm

end FileChecker

/-- What is put down of a thing that happens, if anything; the file is as it is afterwards. -/
abbrev Watch (ε : Type) := Processor → Happening → Option ε

/-- Work on one file with a record beside it, the latest entry first. -/
abbrev Recording (ε : Type) := ExceptT Fault (StateM (FileChecker × List ε))

namespace Recording

variable {ε α : Type}

def quietly (x : Checking α) : Recording ε α :=
  fun s => ((x.run s.1).1, (x.run s.1).2, s.2)

section

variable (watch : Watch ε)

def note (happening : Happening) : Recording ε Unit :=
  modify fun s => (s.1, (s.1.processor.bind fun p => watch p.still happening).toList ++ s.2)

def turnFor (subject : Subject) (check : Checker) : Recording ε Unit := do
  quietly (FileChecker.turnFor subject check)
  note watch (.begun subject check)

def rememberFor (check : Checker) (memory : Option CheckerState) : Recording ε Unit :=
  if check.wantsMemory then do
    quietly (FileChecker.remember memory)
    match memory with
    | some m => note watch (.stored check m)
    | none => pure ()
  else pure ()

def gather (subject : Subject) (check : Checker) (args : Arguments) : Recording ε Arguments := do
  let args ← quietly (FileChecker.gather check args)
  note watch (.called subject check args)
  return args

def runCheck (subject : Subject) (check : Checker) (args : Arguments) : Recording ε Reply := do
  let args ← gather watch subject check args
  let outcome := check.call args
  rememberFor watch check outcome.memory
  quietly (FileChecker.replyOf outcome)

def forEachResult (check : Checker) (results : Results) (use : Value → Checking Unit) :
    Recording ε Unit := do
  match results with
  | .stream items memory fault =>
    items.forM fun e => do
      rememberFor watch check e.memory
      quietly (use e.result)
    rememberFor watch check memory
    match fault with
    | some f => throw f
    | none => pure ()
  | results => quietly (FileChecker.forEachResult check results use)

def treeResults (check : Checker) (reply : Reply) : Recording ε Results := do
  match reply with
  | .results r => return r
  | .runner outcome memory =>
    rememberFor watch check memory
    match outcome with
    | .ok r => return r
    | .error f => if f.isKind .missingAttribute then return .inert else throw f

def runTreeChecks : Recording ε Unit := do
  let p ← quietly FileChecker.getProcessor
  match p.compileFailure with
  | some f =>
    if FileChecker.isCompileFault f then quietly (FileChecker.reportCompileFault f) else throw f
  | none =>
    for check in (← quietly get).checks.trees do
      turnFor watch .tree check
      let reply ← runCheck watch .tree check [("tree", .object "Module")]
      let results ← treeResults watch check reply
      forEachResult watch check results fun result => do
        let (line, column, text, _) ← FileChecker.lift (unpack4 result)
        let _ ← FileChecker.addResult line column text .none

def callLogicalChecks (parts : LogicalParts) : Recording ε Unit := do
  for check in (← quietly get).checks.logicalLines do
    turnFor watch .logicalLine check
    let reply ← runCheck watch .logicalLine check [("logical_line", .text parts.line)]
    let results := match reply with
      | .results r => r
      | .runner .. => .inert
    match results with
    | .nothing => pure ()
    | results => forEachResult watch check results (FileChecker.addLogicalResult parts)

def openLogicalLine : Recording ε (Option LogicalParts) := do
  match ← quietly FileChecker.openLogicalLine with
  | none => return none
  | some parts =>
    note watch (.opened parts)
    return some parts

def completeLine (parts : LogicalParts) : Recording ε Unit := do
  let p ← quietly FileChecker.getProcessor
  quietly (FileChecker.setProcessor p.nextLogicalLine)
  note watch (.completed parts p.indentLevel p.tokens)

def runLogicalChecks : Recording ε Unit := do
  match ← openLogicalLine watch with
  | none => pure ()
  | some parts =>
    callLogicalChecks watch parts
    completeLine watch parts

def runPhysicalChecks (line override : Value) : Recording ε Unit := do
  let shown := if override.truthy then override else line
  for check in (← quietly get).checks.physicalLines do
    turnFor watch .physicalLine check
    let reply ← runCheck watch .physicalLine check [("physical_line", line)]
    let results := match reply with
      | .results r => r
      | .runner .. => .inert
    match results with
    | .nothing => pure ()
    | .lone items => quietly (FileChecker.addLoneResult line shown items)
    | results => forEachResult watch check results (FileChecker.addLineResult line shown)

def checkLineEnd (token : Token) : Recording ε Unit := do
  if token.endsLine then runPhysicalChecks watch (.text token.line) .none
  else if token.isMultilineString then
    quietly (FileChecker.adjust fun p =>
      { p with lineNumber := token.start.row, multiline := true })
    for line in Processor.splitLine token.text do
      runPhysicalChecks watch (.text (line ++ "\n")) (.text token.line)
      quietly (FileChecker.adjust fun p => { p with lineNumber := p.lineNumber + 1 })
    quietly (FileChecker.adjust fun p => { p with multiline := false })

def dropBlankLine : Recording ε (Option Token) := do
  match ← quietly FileChecker.dropBlankLine with
  | none => return none
  | some t =>
    note watch (.dropped t)
    return some t

def handleNewline (kind : Source.TokenKind) : Recording ε Unit := do
  if kind = .newline then
    runLogicalChecks watch
    quietly (FileChecker.adjust Processor.resetBlankBefore)
  else if (← dropBlankLine watch).isSome then pure ()
  else runLogicalChecks watch

def settleToken (depth : Int) (token : Token) : Recording ε Unit :=
  if depth = 0 && token.isNewline then handleNewline watch token.kind else pure ()

def processToken (depth : Int) (token : Token) : Recording ε Int := do
  quietly FileChecker.tallyToken
  checkLineEnd watch token
  settleToken watch depth token
  note watch (.handled token)
  return depthAfter depth token

def takeToken (token : Token) : Recording ε Bool := do
  if ← quietly (FileChecker.joinToken token) then
    note watch (.taken token)
    return true
  else return false

def processLineTokens : List Token → (depth : Int) → Recording ε (Option Int)
  | [], depth => return some depth
  | token :: rest, depth => do
    if ← takeToken watch token then
      processLineTokens rest (← processToken watch depth token)
    else return none

def readLine : Recording ε String := do
  let line ← quietly FileChecker.readLine
  note watch (.read line)
  return line

def processLinesBy (feed : Source.Feed) :
    (fuel : Nat) → Source.TokenizerState → (depth : Int) → Recording ε Unit
  | 0, _, _ => pure ()
  | fuel + 1, st, depth => do
    if st.finished then return
    let line ← readLine watch
    match feed st line with
    | .error why => throw (Fault.ofTokenFault (Processor.tokenizeFault why))
    | .ok (tokens, st) =>
      match ← processLineTokens watch tokens depth with
      | none => pure ()
      | some depth => processLinesBy feed fuel st depth

def processRest : Recording ε Unit := do
  let p ← quietly FileChecker.getProcessor
  if !p.tokens.isEmpty then
    note watch (.lastLine p.lines.getLast?)
    match p.lines.getLast? with
    | none => throw Fault.badIndex
    | some line =>
      runPhysicalChecks watch (.text line) .none
      runLogicalChecks watch

def processTokensBy (feed : Source.Feed) : Recording ε Unit := do
  let p ← quietly FileChecker.getProcessor
  processLinesBy watch feed (FileChecker.feedBound p.totalLines) {} 0
  processRest watch

def runChecks : Recording ε Unit := do
  tryCatch (processTokensBy watch Source.TokenizerState.feed) fun
    | .invalidSyntax message =>
      quietly (FileChecker.addFinding (.text "E902") (.int 1) (.int 0) (.text message) .none)
    | f => throw f
  runTreeChecks watch
  let p ← quietly FileChecker.getProcessor
  quietly (modify fun c =>
    { c with counts := { c.counts with logicalLines := p.logicalLineCount } })

end

end Recording

variable {ε α β : Type}

/-- What can be known of a file at work and of the record. -/
abbrev Knowledge (ε : Type) := Processor → List ε → Prop

/-- A file without anything that checking it may change. -/
def FileChecker.identity (c : FileChecker) : FileChecker :=
  { c with results := [], counts := {}, processor := none }

/-- The file is the one that `base` tells of and is at work, and so much is known of it, wherever
reading stands. -/
def Known (base : FileChecker) (K : Knowledge ε) (c : FileChecker) (log : List ε) : Prop :=
  c.identity = base ∧ ∃ p, c.processor = some p ∧ K p.still log

/-- After work that succeeds `J` is known of its result, and after work that fails `R`. -/
def Ends (base : FileChecker) (R : Knowledge ε) (J : α → Knowledge ε) :
    Except Fault α × FileChecker × List ε → Prop
  | (.ok a, d, log) => Known base (J a) d log
  | (.error _, d, log) => Known base R d log

theorem Ends.identity_eq {base : FileChecker} {R : Knowledge ε} {J : α → Knowledge ε}
    {r : Except Fault α × FileChecker × List ε} (h : Ends base R J r) : r.2.1.identity = base := by
  obtain ⟨_ | _, d, log⟩ := r <;> exact h.1

/-- The account tells the work as it is: with the record left out it does the same. And if `I` is
known before, then `J` is known after it, or `R` if it fails. -/
def Tells (base : FileChecker) (R I : Knowledge ε) (J : α → Knowledge ε) (y : Recording ε α)
    (x : Checking α) : Prop :=
  ∀ c log, Known base I c log →
    x.run c = ((y.run (c, log)).1, (y.run (c, log)).2.1) ∧ Ends base R J (y.run (c, log))

/-- Of every file, `J` is known whenever `I` is. -/
def Knowledge.Entails (I J : Knowledge ε) : Prop :=
  ∀ p log, I (Processor.still p) log → J (Processor.still p) log

/-- All of a file that matters for what is known of it. -/
def FileChecker.outlook (c : FileChecker) : FileChecker × Option Processor :=
  (c.identity, c.processor.map Processor.still)

theorem Known.of_outlook_eq {base : FileChecker} {K : Knowledge ε} {c d : FileChecker} {log : List ε}
    (h : Known base K c log) (hd : d.outlook = c.outlook) : Known base K d log := by
  obtain ⟨hbase, p, hp, hK⟩ := h
  obtain ⟨hsame, hstill⟩ := Prod.mk.inj hd
  rw [hp] at hstill
  obtain ⟨q, hq, heq⟩ := Option.map_eq_some_iff.mp hstill
  exact ⟨hsame.trans hbase, q, hq, heq ▸ hK⟩

namespace Tells

variable {base : FileChecker} {R I I' : Knowledge ε} {J J' : α → Knowledge ε} {K : β → Knowledge ε}
  {y : Recording ε α} {x : Checking α} {f : α → Recording ε β} {g : α → Checking β}

theorem pure {a : α} (h : I.Entails (J a)) : Tells base R I J (Pure.pure a) (Pure.pure a) := by
  rintro c log ⟨hbase, p, hp, hI⟩
  exact ⟨rfl, hbase, p, hp, h p log hI⟩

theorem throw {e : Fault} (h : I.Entails R) : Tells base R I J (throw e) (throw e) := by
  rintro c log ⟨hbase, p, hp, hI⟩
  exact ⟨rfl, hbase, p, hp, h p log hI⟩

theorem bind (hx : Tells base R I J y x) (hf : ∀ a, Tells base R (J a) K (f a) (g a)) :
    Tells base R I K (y >>= f) (x >>= g) := by
  intro c log hI
  obtain ⟨hrun, hends⟩ := hx c log hI
  rw [run_bind, run_bind]
  rcases hy : y.run (c, log) with ⟨e | a, d, more⟩ <;> rw [hy] at hrun hends <;> rw [hrun]
  · exact ⟨rfl, hends⟩
  · exact hf a d more hends

theorem mono (h : Tells base R I J y x) (hI : I'.Entails I) (hJ : ∀ a, (J a).Entails (J' a)) :
    Tells base R I' J' y x := by
  rintro c log ⟨hbase, p, hp, hI'⟩
  obtain ⟨hrun, hends⟩ := h c log ⟨hbase, p, hp, hI p log hI'⟩
  refine ⟨hrun, ?_⟩
  rcases hy : y.run (c, log) with ⟨e | a, d, more⟩ <;> rw [hy] at hends
  · exact hends
  · obtain ⟨hkept, q, hq, hK⟩ := hends
    exact ⟨hkept, q, hq, hJ a q more hK⟩

theorem ite {c : Prop} [Decidable c] {y' : Recording ε α} {x' : Checking α}
    (h : c → Tells base R I J y x) (h' : ¬ c → Tells base R I J y' x') :
    Tells base R I J (if c then y else y') (if c then x else x') := by
  split
  · exact h ‹c›
  · exact h' ‹¬ c›

theorem forM {xs : List α} {f : α → Recording ε PUnit} {g : α → Checking PUnit}
    (hf : ∀ a, Tells base R I (fun _ => I) (f a) (g a)) :
    Tells base R I (fun _ => I) (xs.forM f) (xs.forM g) := by
  induction xs with
  | nil => exact pure fun _ _ h => h
  | cons a rest ih => exact bind (hf a) fun _ => ih

/-- A loop that runs to its end: what is known depends on the members that are done with. -/
theorem forIn {V : List α → Knowledge ε} {xs : List α}
    {f : α → PUnit → Recording ε (ForInStep PUnit)} {g : α → PUnit → Checking (ForInStep PUnit)}
    (hf : ∀ did a, Tells base R (V did)
      (fun step p log => step = .yield ⟨⟩ ∧ V (did ++ [a]) p log) (f a ⟨⟩) (g a ⟨⟩))
    (did : List α) :
    Tells base R (V did) (fun _ => V (did ++ xs)) (forIn xs ⟨⟩ f) (forIn xs ⟨⟩ g) := by
  induction xs generalizing did with
  | nil =>
    rw [List.append_nil]
    exact pure fun _ _ h => h
  | cons a rest ih =>
    rw [List.forIn_cons, List.forIn_cons]
    refine bind (hf did a) fun step => ?_
    cases step with
    | done b =>
      rintro c log ⟨-, p, -, hdone, -⟩
      cases hdone
    | yield b =>
      rw [List.append_cons did a rest]
      exact mono (ih (did ++ [a])) (fun _ _ h => h.2) fun _ _ _ h => h

theorem tryCatch {R' : Knowledge ε} {h' : Fault → Recording ε α} {h : Fault → Checking α}
    (hx : Tells base R I J y x) (hh : ∀ e, Tells base R' R J (h' e) (h e)) :
    Tells base R' I J (tryCatch y h') (tryCatch x h) := by
  intro c log hI
  obtain ⟨hrun, hends⟩ := hx c log hI
  rw [run_tryCatch, run_tryCatch]
  rcases hy : y.run (c, log) with ⟨e | a, d, more⟩ <;> rw [hy] at hrun hends <;> rw [hrun]
  · exact hh e d more hends
  · exact ⟨rfl, hends⟩

theorem quietly (hR : I.Entails R) (hx : Keeps FileChecker.outlook x) :
    Tells base R I (fun _ => I) (Recording.quietly x) x := by
  intro c log hI
  refine ⟨rfl, ?_⟩
  have hkept := hx c
  change Ends base R (fun _ => I) ((x.run c).1, (x.run c).2, log)
  rcases hrun : x.run c with ⟨e | a, d⟩ <;> rw [hrun] at hkept
  · obtain ⟨hbase, p, hp, hfail⟩ := hI.of_outlook_eq hkept
    exact ⟨hbase, p, hp, hR p log hfail⟩
  · exact hI.of_outlook_eq hkept

theorem get_bind {f : FileChecker → Recording ε α} {g : FileChecker → Checking α}
    (h : ∀ c, c.identity = base → Tells base R I J (f c) (g c)) :
    Tells base R I J (Recording.quietly get >>= f) (get >>= g) :=
  fun c log hI => h c hI.1 c log hI

/-- Work that looks at the file as it is. -/
theorem getProcessor_bind {f : Processor → Recording ε α} {g : Processor → Checking α}
    (h : ∀ p, Tells base R (fun q log => q = p.still ∧ I p.still log) J (f p) (g p)) :
    Tells base R I J (Recording.quietly FileChecker.getProcessor >>= f)
      (FileChecker.getProcessor >>= g) := by
  rintro c log ⟨hbase, p, hp, hI⟩
  have hget : (Recording.quietly FileChecker.getProcessor : Recording ε Processor).run (c, log) =
      (.ok p, c, log) := by
    change ((FileChecker.getProcessor.run c).1, (FileChecker.getProcessor.run c).2, log) = _
    rw [FileChecker.run_getProcessor hp]
  rw [run_bind_of_ok hget, run_bind_of_ok (FileChecker.run_getProcessor hp)]
  exact h p c log ⟨hbase, p, hp, rfl, hI⟩

end Tells

namespace FileChecker

variable {c : FileChecker} {line column text given result : Value}

theorem outlook_setProcessor {p q : Processor} (hp : c.processor = some p)
    (hq : q.still = p.still) : { c with processor := some q }.outlook = c.outlook := by
  simp only [outlook, identity, hp, Option.map_some, hq]

theorem outlook_lift_bind {r : Except Fault β} {f : β → Checking α}
    (hf : ∀ b, r = .ok b → ((f b).run c).2.outlook = c.outlook) :
    ((lift r >>= f).run c).2.outlook = c.outlook := by
  rw [run_bind, run_lift]
  cases r with
  | error e => rfl
  | ok b => exact hf b rfl

theorem keeps_outlook_adjust {f : Processor → Processor} (hf : ∀ p, (f p).still = p.still) :
    Keeps outlook (adjust f) :=
  keeps_getProcessor_bind fun _ p hp => outlook_setProcessor hp (hf p)

theorem keeps_outlook_addLogicalResult {parts : LogicalParts} :
    Keeps outlook (addLogicalResult parts result) := by
  refine .bind (keeps_lift _) fun _ => .bind (keeps_lift _) fun _ => ?_
  exact .bind (keeps_addResult fun _ _ => rfl) fun _ => .pure _

theorem keeps_outlook_addLineResult {shown : Value} :
    Keeps outlook (addLineResult line shown result) := by
  refine .bind (keeps_lift _) fun _ => .bind keeps_getProcessor fun _ => ?_
  refine .bind (keeps_addResult fun _ _ => rfl) fun code => ?_
  refine keeps_getProcessor_bind fun c p hp => ?_
  refine outlook_lift_bind fun q hq => ?_
  exact outlook_setProcessor hp (Processor.still_checkPhysicalError hq)

theorem keeps_outlook_reportCompileFault (f : Fault) : Keeps outlook (reportCompileFault f) := by
  refine .bind (keeps_lift _) fun _ => ?_
  dsimp only
  split
  · exact .throw _
  · exact keeps_addFinding fun _ _ => rfl

theorem keeps_outlook_readLine : Keeps outlook readLine := by
  refine keeps_getProcessor_bind fun c p hp => outlook_lift_bind fun read hread => ?_
  exact outlook_setProcessor hp (Processor.still_nextLine hread)

theorem keeps_outlook_gather (check : Checker) (args : Arguments) :
    Keeps outlook (gather check args) :=
  keeps_gather fun _ p hp => outlook_setProcessor hp
    (Processor.view_argumentsFor Processor.still_answer p args check.parameters)

end FileChecker

end Check

end LintRunner
