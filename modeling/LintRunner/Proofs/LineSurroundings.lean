import LintRunner.Proofs.CheckMemories

/-!
# What surrounds a logical line

A check of logical lines may ask how many blank lines stand before the line at hand, and for the
text and the indentation of earlier lines. The file keeps these in several places and changes them
at several moments. Here they are read off the record of what was done before, and checks are told
just that, whichever tokens the file has and whatever checks do.
-/

namespace LintRunner

open Stateful

namespace Check

open Source (Processor Token LogicalParts)

/-- What is put down about logical lines. -/
inductive LineEvent where
  | taken (t : Token)
  | handled (t : Token)
  | called (check : Checker) (args : Arguments)
  /-- All checks of logical lines have seen a line with this text and indentation. -/
  | completed (text : String) (level : Nat)

namespace LineEvent

/-- Of all that happens, tokens, calls for logical lines and completed lines are put down. -/
def watch : Watch LineEvent
  | _, .taken t => some (taken t)
  | _, .handled t => some (handled t)
  | _, .called .logicalLine check args => some (called check args)
  | _, .completed parts level _ => some (completed parts.line level)
  | _, _ => none

def depth : List LineEvent → Int
  | [] => 0
  | handled t :: before => depthAfter (depth before) t
  | taken _ :: before => depth before
  | called .. :: before => depth before
  | completed .. :: before => depth before

/-- The tokens at hand. A line that is completed takes them all, and a line break outside of
brackets with nothing else at hand is a blank line, which is dropped. -/
def atHand : List LineEvent → List Token
  | [] => []
  | taken t :: before => atHand before ++ [t]
  | handled t :: before =>
    if t.kind = .lineBreak ∧ depth before = 0 ∧ atHand before = [t] then [] else atHand before
  | called .. :: before => atHand before
  | completed .. :: _ => []

def IsBlank (t : Token) (before : List LineEvent) : Prop :=
  t.kind = .lineBreak ∧ depth before = 0 ∧ atHand before = [t]
deriving Decidable

/-- The number of blank lines since the last line was completed. -/
def blankLines : List LineEvent → Nat
  | [] => 0
  | handled t :: before => if IsBlank t before then blankLines before + 1 else blankLines before
  | taken _ :: before => blankLines before
  | called .. :: before => blankLines before
  | completed .. :: _ => 0

/-- The largest number of blank lines before one of the lines that were completed since a statement
ended outside of brackets. -/
def blankBefore : List LineEvent → Nat
  | [] => 0
  | handled t :: before =>
    if t.kind = .newline ∧ depth before = 0 then 0 else blankBefore before
  | taken _ :: before => blankBefore before
  | called .. :: before => blankBefore before
  | completed .. :: before => max (blankBefore before) (blankLines before)

def line? : LineEvent → Option (String × Nat)
  | completed text level => if text.isEmpty then none else some (text, level)
  | _ => none

/-- The text and the indentation of the last line that is not empty. -/
def previous (log : List LineEvent) : String × Nat := (log.findSome? line?).getD ("", 0)

def unindented (log : List LineEvent) : String :=
  ((log.findSome? fun e => e.line?.filter (·.2 = 0)).map (·.1)).getD ""

/-- What a check of logical lines that is called after these events is to be told, by the names of
parameters. -/
def answers (before : List LineEvent) : List (String × Value) :=
  [("blank_lines", .int (blankLines before)),
    ("blank_before", .int (max (blankBefore before) (blankLines before) : Nat)),
    ("previous_logical", .text (previous before).1),
    ("previous_indent_level", .int (previous before).2),
    ("previous_unindented_logical_line", .text (unindented before))]

/-- The indentation of a logical line: the blanks that lead up to its first token. -/
def indentOf? (lines : List String) (parts : LogicalParts) : Option Nat :=
  parts.mapping.head?.bind fun entry =>
    (Source.elementAt? lines (entry.2.row - 1)).map fun line =>
      Source.indentWidth (Source.slice line.toList 0 entry.2.col)

/-- Checks were told what they asked for, and the lines that were completed were those of the tokens
at hand. -/
def Right (lines : List String) : List LineEvent → Prop
  | [] => True
  | called check args :: before =>
    (∀ e ∈ answers before, (∃ param ∈ check.parameters, param.1 = e.1) →
      args.lookup e.1 = some e.2) ∧ Right lines before
  | completed text level :: before =>
    (∃ parts, Source.logicalParts lines (atHand before) = .ok parts ∧ parts.line = text ∧
      indentOf? lines parts = some level) ∧ Right lines before
  | taken _ :: before => Right lines before
  | handled _ :: before => Right lines before

theorem Right.of_append {lines : List String} {after before : List LineEvent}
    (h : Right lines (after ++ before)) : Right lines before := by
  induction after with
  | nil => exact h
  | cons event rest ih =>
    cases event with
    | taken t => exact ih h
    | handled t => exact ih h
    | called check args => exact ih h.2
    | completed text level => exact ih h.2

end LineEvent

/-- What a file keeps about the lines before the tokens at hand. -/
structure Surroundings where
  tokens : List Token := []
  blankLines : Nat := 0
  blankBefore : Nat := 0
  previous : String × Nat := ("", 0)
  unindented : String := ""

namespace Surroundings

open LineEvent

def ofFile (p : Processor) : Surroundings where
  tokens := p.tokens
  blankLines := p.blankLines
  blankBefore := p.blankBefore
  previous := (p.previousLogical, p.previousIndentLevel)
  unindented := p.previousUnindentedLogical

def ofLog (log : List LineEvent) : Surroundings where
  tokens := atHand log
  blankLines := LineEvent.blankLines log
  blankBefore := LineEvent.blankBefore log
  previous := LineEvent.previous log
  unindented := LineEvent.unindented log

variable {log : List LineEvent}

theorem ofLog_completed (text : String) (level : Nat) :
    ofLog (.completed text level :: log) =
      { tokens := []
        blankLines := 0
        blankBefore := max (LineEvent.blankBefore log) (LineEvent.blankLines log)
        previous := if text.isEmpty then LineEvent.previous log else (text, level)
        unindented :=
          if text.isEmpty = false ∧ level = 0 then text else LineEvent.unindented log } := by
  have hprevious : LineEvent.previous (.completed text level :: log) =
      if text.isEmpty then LineEvent.previous log else (text, level) := by
    unfold LineEvent.previous
    rw [List.findSome?_cons]
    cases htext : text.isEmpty <;> simp [line?, htext]
  have hunindented : LineEvent.unindented (.completed text level :: log) =
      if text.isEmpty = false ∧ level = 0 then text else LineEvent.unindented log := by
    unfold LineEvent.unindented
    rw [List.findSome?_cons]
    cases htext : text.isEmpty <;> by_cases hlevel : level = 0 <;>
      simp [line?, htext, hlevel, Option.filter]
  rw [ofLog, hprevious, hunindented]
  rfl

theorem ofLog_handled (t : Token) :
    ofLog (.handled t :: log) =
      { ofLog log with
        tokens := if IsBlank t log then [] else atHand log
        blankLines := if IsBlank t log then LineEvent.blankLines log + 1
          else LineEvent.blankLines log
        blankBefore := if t.kind = .newline ∧ depth log = 0 then 0
          else LineEvent.blankBefore log } := rfl

end Surroundings

open LineEvent

variable {lines : List String} {parts : LogicalParts} {log : List LineEvent} {p q : Processor}

/-- The file keeps what the record tells of. -/
def Told (lines : List String) (log : List LineEvent) (p : Processor) : Prop :=
  p.lines = lines ∧ Surroundings.ofFile p = .ofLog log

/-- A logical line is at hand: it is the line of the tokens at hand, and the blank lines before it
count already. -/
def Opened (lines : List String) (parts : LogicalParts) (log : List LineEvent) (p : Processor) :
    Prop :=
  p.lines = lines ∧ p.logicalLine = parts.line ∧ indentOf? lines parts = some p.indentLevel ∧
    Source.logicalParts lines (atHand log) = .ok parts ∧
    Surroundings.ofFile p =
      { Surroundings.ofLog log with blankBefore := max (blankBefore log) (blankLines log) }

/-! ## One logical line -/

theorem updateState_ok (h : p.updateState parts.mapping = .ok q) :
    ∃ level, indentOf? p.lines parts = some level ∧
      q = { p with indentLevel := level, blankBefore := max p.blankBefore p.blankLines } := by
  unfold Processor.updateState at h
  unfold indentOf?
  cases hmapping : parts.mapping with
  | nil =>
    rw [hmapping] at h
    cases h
  | cons entry rest =>
    rw [hmapping] at h
    unfold Processor.startLine at h
    dsimp only at h
    cases hline : Source.elementAt? p.lines (entry.2.row - 1) with
    | none =>
      rw [hline] at h
      cases h
    | some line =>
      rw [hline] at h
      have hmax : (if p.blankBefore < p.blankLines then p.blankLines else p.blankBefore) =
          max p.blankBefore p.blankLines := by
        split <;> omega
      rw [hmax] at h
      cases h
      refine ⟨_, ?_, rfl⟩
      rw [List.head?_cons, Option.bind_some, hline]
      rfl

theorem Told.opened (h : Told lines log p)
    (hparts : Source.logicalParts lines (atHand log) = .ok parts) (hline : p.logicalLine = parts.line)
    (hupdate : p.updateState parts.mapping = .ok q) : Opened lines parts log q := by
  obtain ⟨level, hlevel, rfl⟩ := updateState_ok hupdate
  obtain ⟨rfl, hsurroundings⟩ := h
  have hbefore : p.blankBefore = blankBefore log := congrArg Surroundings.blankBefore hsurroundings
  have hblank : p.blankLines = blankLines log := congrArg Surroundings.blankLines hsurroundings
  refine ⟨rfl, hline, hlevel, hparts, ?_⟩
  rw [← hsurroundings, ← hbefore, ← hblank]
  rfl

theorem Opened.keeps (h : Opened lines parts log p) :
    p.blankLines = blankLines log ∧ p.blankBefore = max (blankBefore log) (blankLines log) ∧
      (p.previousLogical, p.previousIndentLevel) = previous log ∧
      p.previousUnindentedLogical = unindented log := by
  obtain ⟨-, -, -, -, hsurroundings⟩ := h
  exact ⟨congrArg Surroundings.blankLines hsurroundings,
    congrArg Surroundings.blankBefore hsurroundings,
    congrArg Surroundings.previous hsurroundings,
    congrArg Surroundings.unindented hsurroundings⟩

/-- A line that is done with becomes the previous one, unless it is empty. -/
theorem Opened.completed (h : Opened lines parts log p) :
    Told lines (.completed parts.line p.indentLevel :: log) p.nextLogicalLine := by
  obtain ⟨-, hbefore, hprevious, hunindented⟩ := h.keeps
  obtain ⟨rfl, hline, -, -, -⟩ := h
  rw [Told, Surroundings.ofLog_completed, ← hline, ← hbefore, ← hprevious, ← hunindented]
  unfold Processor.nextLogicalLine
  cases hempty : p.logicalLine.isEmpty with
  | true => exact ⟨rfl, rfl⟩
  | false =>
    refine ⟨rfl, ?_⟩
    by_cases hlevel : p.indentLevel = 0 <;> simp [Surroundings.ofFile, hlevel]

theorem Opened.isLine (h : Opened lines parts log p) :
    ∃ parts', Source.logicalParts lines (atHand log) = .ok parts' ∧ parts'.line = parts.line ∧
      indentOf? lines parts' = some p.indentLevel := by
  obtain ⟨-, -, hindent, hparts, -⟩ := h
  exact ⟨parts, hparts, rfl, hindent⟩

theorem Opened.lookup_answers (h : Opened lines parts log p) {check : Checker} {found : Arguments}
    (hfound : (p.argumentsFor [("logical_line", .text parts.line)] check.parameters).1 =
      .ok found) :
    ∀ e ∈ answers log, (∃ param ∈ check.parameters, param.1 = e.1) →
      found.lookup e.1 = some e.2 := by
  have htold : ∀ (name : String) (read : Processor → Value), name ≠ "logical_line" →
      (∀ q : Processor, (q.answer name).1 = .ok (read q)) →
      (∀ q : Processor, read q.still = read q) →
      (∃ param ∈ check.parameters, param.1 = name) → found.lookup name = some (read p) := by
    intro name read hname hread hstill hasked
    refine Processor.lookup_answer hasked ?_ (fun q hq => ?_) hfound
    · simp [List.lookup_cons, beq_eq_false_iff_ne.mpr hname]
    · rw [hread, ← hstill q, hq, hstill]
  obtain ⟨hblank, hbefore, hprevious, hunindented⟩ := h.keeps
  rw [answers, ← hbefore, ← hblank, ← hprevious, ← hunindented]
  simp only [List.forall_mem_cons]
  refine ⟨htold "blank_lines" (.int ·.blankLines) ?_ ?_ ?_,
    htold "blank_before" (.int ·.blankBefore) ?_ ?_ ?_,
    htold "previous_logical" (.text ·.previousLogical) ?_ ?_ ?_,
    htold "previous_indent_level" (.int ·.previousIndentLevel) ?_ ?_ ?_,
    htold "previous_unindented_logical_line" (.text ·.previousUnindentedLogical) ?_ ?_ ?_, ?_⟩
  all_goals first | decide | exact fun _ => rfl | simp

/-- What is known when the checks of logical lines run for this occasion. -/
def Occasion.Fits : Occasion → List LineEvent → Prop
  | statement t here, _ => t.kind = .newline ∧ here.depth = 0
  | pause t _, log => t.kind = .lineBreak ∧ atHand log ≠ [t]
  | leftover, _ => True

def Spot.Sees (lines : List String) : Spot → List LineEvent → Processor → Prop
  | lineOf t _ _, log, p => Told lines log p ∧ ∃ earlier, atHand log = earlier ++ [t]
  | lastLine _, log, p => Told lines log p
  | logicalLine x parts, log, p => Opened lines parts log p ∧ x.Fits log
  | tree, _, _ => True

def Point.Sees (lines : List String) : Point → List LineEvent → Processor → Prop
  | holding t _, log, p => Told lines log p ∧ ∃ earlier, atHand log = earlier ++ [t]
  | settled t _, log, p => Told lines (.handled t :: log) p
  | due x, log, p => Told lines log p ∧ x.Fits log
  | built x parts, log, p => (Told lines log p ∧ x.Fits log) ∧
      Source.logicalParts lines (atHand log) = .ok parts ∧ p.logicalLine = parts.line
  | closed x, log, p => Told lines log p ∧ x.Fits log
  | failed, _, _ => True
  | calling spot _, log, p => spot.Sees lines log p
  | begun spot _ _, log, p => spot.Sees lines log p
  | _, log, p => Told lines log p

/-- All calls so far were right, and the depth of brackets and what surrounds a line are those that
the record tells of. -/
def lineOutline (lines : List String) (pt : Point) : Knowledge LineEvent := fun p log =>
  Right lines log ∧ (∀ here ∈ pt.place?, depth log = here.depth) ∧ pt.Sees lines log p

variable {t : Token}

theorem Told.handled_idle (h : Told lines log p) (hblank : ¬ IsBlank t log)
    (hend : ¬ (t.kind = .newline ∧ depth log = 0)) : Told lines (.handled t :: log) p := by
  rw [Told, Surroundings.ofLog_handled, if_neg hblank, if_neg hblank, if_neg hend]
  exact h

theorem Told.handled_newline (h : Told lines log p) (hkind : t.kind = .newline)
    (hdepth : depth log = 0) : Told lines (.handled t :: log) p.resetBlankBefore := by
  have hblank : ¬ IsBlank t log := by simp [IsBlank, hkind]
  rw [Told, Surroundings.ofLog_handled, if_neg hblank, if_neg hblank, if_pos ⟨hkind, hdepth⟩]
  exact ⟨h.1, congrArg (fun s : Surroundings => { s with blankBefore := 0 }) h.2⟩

theorem Told.handled_blank (h : Told lines log p) (hblank : IsBlank t log) :
    Told lines (.handled t :: log) { p with blankLines := p.blankLines + 1, tokens := [] } := by
  have hend : ¬ (t.kind = .newline ∧ depth log = 0) := by simp [hblank.1]
  rw [Told, Surroundings.ofLog_handled, if_pos hblank, if_pos hblank, if_neg hend]
  exact ⟨h.1, congrArg (fun s : Surroundings =>
    { s with tokens := [], blankLines := s.blankLines + 1 }) h.2⟩

theorem Told.taken (h : Told lines log p) (t : Token) :
    Told lines (.taken t :: log) { p with tokens := p.tokens ++ [t] } :=
  ⟨h.1, congrArg (fun s : Surroundings => { s with tokens := s.tokens ++ [t] }) h.2⟩

theorem Occasion.Fits.completed {x : Occasion} (h : x.Fits log) (text : String) (level : Nat) :
    x.Fits (.completed text level :: log) := by
  cases x with
  | statement t here => exact h
  | pause t here => exact ⟨h.1, by simp [atHand]⟩
  | leftover => trivial

theorem upheld_surroundings (lines : List String) {feed : Source.Feed} {checks : Checks} :
    Upheld feed checks LineEvent.watch (lineOutline lines) := by
  rintro pt p happening pt' q log hstep ⟨hright, hdepth, hsees⟩
  cases hstep with
  | fail => exact ⟨hright, by simp [Point.place?], trivial⟩
  | @readLine here => exact ⟨hright, by rintro _ ⟨⟩; exact hdepth here rfl, hsees⟩
  | badLine => exact ⟨hright, by simp [Point.place?], trivial⟩
  | @take here _ t =>
    have htold : Told lines log p := hsees
    exact ⟨hright, by rintro _ ⟨⟩; exact hdepth here rfl, htold.taken t, atHand log, rfl⟩
  | stop => exact ⟨hright, by simp [Point.place?], hsees⟩
  | look => exact ⟨hright, hdepth, hsees⟩
  | looked => exact ⟨hright, hdepth, hsees⟩
  | @pass t here _ hpass =>
    have htold : Told lines log p := hsees.1
    have hsame : depth log = here.depth := hdepth here rfl
    refine ⟨hright, hdepth, htold.handled_idle ?_ ?_⟩
    · rintro ⟨hkind, hzero, -⟩
      simp [Token.isNewline, hkind, ← hsame, hzero] at hpass
    · rintro ⟨hkind, hzero⟩
      simp [Token.isNewline, hkind, ← hsame, hzero] at hpass
  | endStatement hkind hzero => exact ⟨hright, hdepth, hsees.1, hkind, hzero⟩
  | @drop t x here _ hkind hzero hone =>
    obtain ⟨htold, earlier, hhand⟩ := hsees
    have hlog : atHand log = [x] := (congrArg Surroundings.tokens htold.2).symm.trans hone
    have hx : t = x := by
      rw [hhand] at hlog
      simpa using congrArg List.getLast? hlog
    have hblank : IsBlank t log := ⟨hkind, (hdepth here rfl).trans hzero, hx ▸ hlog⟩
    have hdropped := Told.handled_blank (p := p) htold hblank
    exact ⟨hright, hdepth, hdropped⟩
  | @pause t here _ hkind hzero hmore =>
    have htokens : p.tokens = atHand log := congrArg Surroundings.tokens hsees.1.2
    exact ⟨hright, hdepth, hsees.1, hkind, htokens ▸ hmore t⟩
  | build hbuild =>
    obtain ⟨htold, hfits⟩ := hsees
    obtain ⟨hparts, rfl⟩ := Processor.buildLogicalLine_ok hbuild
    have hlines : p.lines = lines := htold.1
    have htokens : p.tokens = atHand log := congrArg Surroundings.tokens htold.2
    rw [hlines, htokens] at hparts
    exact ⟨hright, hdepth, ⟨htold, hfits⟩, hparts, rfl⟩
  | leave => exact ⟨hright, hdepth, hsees.1⟩
  | openLine hline hupdate =>
    obtain ⟨⟨htold, hfits⟩, hparts, htext⟩ := hsees
    have hopened := Told.opened (p := p) htold hparts htext hupdate
    exact ⟨hright, hdepth, hopened, hfits⟩
  | @complete x _ parts =>
    obtain ⟨hopened, hfits⟩ := hsees
    have hdone : Told lines (.completed parts.line p.indentLevel :: log) p.nextLogicalLine :=
      Opened.completed (p := p) hopened
    have hline := Opened.isLine (p := p) hopened
    exact ⟨⟨hline, hright⟩, hdepth, hdone, hfits.completed _ _⟩
  | reset =>
    obtain ⟨htold, hkind, hzero⟩ := hsees
    have hhandled := Told.handled_newline (p := p) htold hkind ((hdepth _ rfl).trans hzero)
    exact ⟨hright, hdepth, hhandled⟩
  | resume =>
    obtain ⟨htold, hkind, hmore⟩ := hsees
    refine ⟨hright, hdepth, htold.handled_idle ?_ ?_⟩
    · exact fun hblank => hmore hblank.2.2
    · simp [hkind]
  | @handle t here =>
    refine ⟨hright, ?_, hsees⟩
    rintro _ ⟨⟩
    rw [← hdepth here rfl]
    rfl
  | enough => exact ⟨hright, by simp [Point.place?], hsees⟩
  | lastLine => exact ⟨hright, by simp [Point.place?, Spot.place?], hsees⟩
  | noLine => exact ⟨hright, by simp [Point.place?], trivial⟩
  | lastLooked => exact ⟨hright, by simp [Point.place?, Occasion.place?], hsees, trivial⟩
  | finish => exact ⟨hright, by simp [Point.place?], hsees.1⟩
  | whole => exact ⟨hright, by simp [Point.place?, Spot.place?], trivial⟩
  | @begin spot called check =>
    obtain ⟨states, current, hturned⟩ := exists_turned_eq spot.subject check p
    rw [hturned]
    exact ⟨hright, hdepth, by cases spot <;> exact hsees⟩
  | @call spot called check _ found hfound =>
    cases spot with
    | logicalLine x parts =>
      have hanswers := Opened.lookup_answers (p := p) hsees.1 hfound
      exact ⟨⟨hanswers, hright⟩, hdepth, hsees.1, by cases x <;> exact hsees.2⟩
    | _ => exact ⟨hright, hdepth, hsees⟩
  | @store spot called check _ m =>
    obtain ⟨states, hstored⟩ := p.exists_setCheckerState_eq m
    rw [hstored]
    exact ⟨hright, hdepth, by cases spot <;> exact hsees⟩

/-- Whatever tokens a file is cut into and whatever checks do, a check of logical lines that asks
for what surrounds the line is told what was taken up and completed before: the blank lines since
the last line, their largest number since a statement ended, and the last lines that are not empty.
The lines that were completed are those of the tokens at hand, with their indentation. -/
theorem processTokensBy_tells_surroundings {s : Settings} {checks : Checks} {v : Value}
    {w w' : World} {c : FileChecker} (hc : FileChecker.make s checks v w = (.ok c, w'))
    {p : Processor} (hp : c.processor = some p) (feed : Source.Feed) :
    ∃ r d log, (Recording.processTokensBy LineEvent.watch feed).run (c, []) = (r, d, log) ∧
      (FileChecker.processTokensBy feed).run c = (r, d) ∧
      (∀ after check args before, log = after ++ .called check args :: before →
        ∀ e ∈ answers before, (∃ param ∈ check.parameters, param.1 = e.1) →
          args.lookup e.1 = some e.2) ∧
      ∀ after text level before, log = after ++ .completed text level :: before →
        ∃ parts, Source.logicalParts p.lines (atHand before) = .ok parts ∧ parts.line = text ∧
          indentOf? p.lines parts = some level := by
  have htold : Told p.lines [] p :=
    ⟨rfl, congrArg Surroundings.ofFile (FileChecker.make_unread hc hp)⟩
  have hstart : Known c.identity (lineOutline p.lines (.between {})) c [] := by
    refine ⟨rfl, p, hp, trivial, ?_, htold⟩
    rintro _ ⟨⟩
    rfl
  obtain ⟨hrun, hends⟩ := Upheld.tells_processTokensBy (upheld_surroundings p.lines) c [] hstart
  rcases hrecorded : (Recording.processTokensBy LineEvent.watch feed).run (c, []) with ⟨r, d, log⟩
  rw [hrecorded] at hrun hends
  have hright : Right p.lines log := by
    cases r with
    | error e =>
      obtain ⟨-, q, -, hq⟩ := hends
      exact hq.1
    | ok a =>
      obtain ⟨-, q, -, hq⟩ := hends
      exact hq.1
  refine ⟨r, d, log, rfl, hrun, ?_, ?_⟩
  · rintro after check args before rfl
    exact hright.of_append.1
  · rintro after text level before rfl
    exact hright.of_append.1

/-! A check that asks for all that surrounds a line, in a file with a comment and with blank lines
outside and inside of brackets. -/

section Survey

def surveyor : Checker where
  name := "S"
  pluginName := .text "S"
  parameters := ("logical_line", true) :: (answers []).map fun e => (e.1, true)
  call _ := { reply := .ok (.results .nothing), memory := none }

def spacedSource : World where
  tree := { cwd := "/", root := .directory [("a.py", .ofBytes
    "x = 1\n\n\n# f\n\ndef f():\n\n    y = (\n\n    2)\n    z = 3\n".toUTF8.toList)] }

def surveys : List LineEvent → List (List Value)
  | [] => []
  | .called _ args :: before => surveys before ++ [args.map (·.2)]
  | _ :: before => surveys before

/-- For each logical line its text, the blank lines before it, their largest number since a
statement ended, the previous line with its indentation, and the previous line without any. -/
def spacedSurveys : List (List Value) :=
  [[.text "x = 1", .int 0, .int 0, .text "", .int 0, .text ""],
    [.text "", .int 2, .int 2, .text "x = 1", .int 0, .text "x = 1"],
    [.text "def f():", .int 1, .int 2, .text "x = 1", .int 0, .text "x = 1"],
    [.text "y = (2)", .int 1, .int 1, .text "def f():", .int 0, .text "def f():"],
    [.text "z = 3", .int 0, .int 0, .text "y = (2)", .int 4, .text "def f():"]]

theorem processTokensBy_tells_spaced_surroundings :
    ∃ c w' p r d log,
      FileChecker.make bareSettings { logicalLines := [surveyor] } (.text "a.py") spacedSource =
        (.ok c, w') ∧
      c.processor = some p ∧
      (Recording.processTokensBy LineEvent.watch
        Source.TokenizerState.feed).run (c, []) = (r, d, log) ∧
      FileChecker.processTokens.run c = (r, d) ∧ surveys log = spacedSurveys ∧
      ∀ after check args before, log = after ++ .called check args :: before →
        ∀ e ∈ answers before, (∃ param ∈ check.parameters, param.1 = e.1) →
          args.lookup e.1 = some e.2 := by
  have hsurveys : ((FileChecker.make bareSettings { logicalLines := [surveyor] } (.text "a.py")
      spacedSource).1.toOption.map fun c => (c.processor.isSome,
        surveys ((Recording.processTokensBy LineEvent.watch
        Source.TokenizerState.feed).run (c, [])).2.2)) =
      some (true, spacedSurveys) := by
    decide +kernel
  rcases hmake : FileChecker.make bareSettings { logicalLines := [surveyor] } (.text "a.py")
    spacedSource with ⟨_ | c, w'⟩ <;> rw [hmake] at hsurveys
  · cases hsurveys
  · obtain ⟨hsome, hlog⟩ := Prod.mk.inj (Option.some.inj hsurveys)
    obtain ⟨p, hp⟩ := Option.isSome_iff_exists.mp hsome
    obtain ⟨r, d, log, hrecorded, hrun, hcalled, -⟩ :=
      processTokensBy_tells_surroundings hmake hp Source.TokenizerState.feed
    rw [hrecorded] at hlog
    exact ⟨c, w', p, r, d, log, rfl, hp, hrecorded, hrun, hlog, hcalled⟩

end Survey

end Check

end LintRunner
