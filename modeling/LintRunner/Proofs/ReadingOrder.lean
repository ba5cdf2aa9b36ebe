import LintRunner.Proofs.LineCalls
import LintRunner.Proofs.PunctualFeed

/-!
# The order in which a file is read

The line number of a file tells the tokenizer which line comes next, and it is moved about while the
lines of a string are checked. With a punctual tokenizer it is always back in its place when the
next line is asked for. So checking the tokens of a file does, one after the other, what can be told
from the lines alone: it hands out the lines by their index, takes up the tokens, calls the checks
of physical lines, each under its own number, and settles statements.
-/

namespace LintRunner

open Stateful
open Source (Token TokenKind TokenizerState TokenizeFault Feed Processor)

namespace Source.Processor

variable {p : Processor} {k : Nat}

theorem nextLine_at (h : p.lineNumber = (min k p.totalLines : Nat)) :
    ∃ q, p.nextLine = .ok (p.lines.getD k "", q) ∧ q.lines = p.lines ∧
      q.lineNumber = (min (k + 1) p.totalLines : Nat) ∧ q.multiline = p.multiline := by
  unfold nextLine
  rcases Nat.lt_or_ge k p.totalLines with hk | hk
  · have hat : elementAt? p.lines p.lineNumber = some (p.lines.getD k "") := by
      have hnat : p.lineNumber.toNat = k := by omega
      rw [elementAt?, if_pos (by omega), hnat, List.getElem?_eq_getElem hk,
        List.getD_eq_getElem _ _ hk]
    rw [if_neg (by omega), hat]
    refine ⟨_, rfl, rfl, ?_, rfl⟩
    dsimp only
    omega
  · rw [if_pos (by omega), List.getD_eq_default _ _ hk]
    exact ⟨p, rfl, rfl, by omega, rfl⟩

end Source.Processor

namespace Check

namespace FileChecker

variable {α : Type}

def reading (c : FileChecker) : Option (List String × Int × Bool) :=
  c.processor.map fun p => (p.lines, p.lineNumber, p.multiline)

variable {c : FileChecker} {p q : Processor} {lines : List String} {n : Int} {inside : Bool}

theorem reading_eq (hp : c.processor = some p) :
    c.reading = some (p.lines, p.lineNumber, p.multiline) := by
  rw [reading, hp]
  rfl

theorem exists_of_reading_eq
    (h : c.reading = some (lines, n, inside)) :
    ∃ p, c.processor = some p ∧ p.lines = lines ∧ p.lineNumber = n ∧ p.multiline = inside := by
  obtain ⟨p, hp, heq⟩ := Option.map_eq_some_iff.mp h
  simp only [Prod.mk.injEq] at heq
  exact ⟨p, hp, heq⟩

theorem cursor_of_reading_eq
    (h : c.reading = some (lines, n, inside)) : c.cursor = some (n, inside) := by
  obtain ⟨p, hp, -, rfl, rfl⟩ := exists_of_reading_eq h
  exact cursor_eq hp

theorem keeps_reading {x : Checking α} (h : Keeps lasting x) : Keeps reading x := by
  have hreading : ∀ c : FileChecker, c.lasting.reading = c.reading := by
    intro c
    simp only [reading, lasting, Option.map_map]
    rfl
  intro c
  rw [← hreading, h c, hreading]

theorem reading_setProcessor (hp : c.processor = some p)
    (hlines : q.lines = p.lines) (hnumber : q.lineNumber = p.lineNumber)
    (hinside : q.multiline = p.multiline) :
    { c with processor := some q }.reading = c.reading := by
  simp only [reading, hp, Option.map_some, hlines, hnumber, hinside]

theorem keeps_reading_runLogicalChecks : Keeps reading runLogicalChecks := by
  unfold runLogicalChecks
  refine keeps_getProcessor_bind fun c p hp => ?_
  rw [run_bind, run_lift]
  cases hbuild : p.buildLogicalLine with
  | error f => rfl
  | ok built =>
    obtain ⟨parts, q⟩ := built
    obtain ⟨-, rfl⟩ := Processor.buildLogicalLine_ok hbuild
    dsimp only
    rw [run_bind_of_ok (run_setProcessor _ _)]
    split
    · exact reading_setProcessor hp rfl rfl rfl
    · rw [run_bind, run_lift]
      cases hstate : Processor.updateState _ parts.mapping with
      | error f => exact reading_setProcessor hp rfl rfl rfl
      | ok q =>
        obtain ⟨level, before, rfl⟩ := Processor.exists_of_updateState_ok hstate
        dsimp only
        refine (view_setProcessor_bind rfl ?_).trans (reading_setProcessor hp rfl rfl rfl)
        refine .bind (keeps_reading (keeps_callLogicalChecks parts)) fun _ => ?_
        refine keeps_getProcessor_bind fun d r hr => ?_
        obtain ⟨level, text, unindented, hnext⟩ := r.exists_nextLogicalLine_eq
        rw [run_setProcessor, hnext]
        exact reading_setProcessor hr rfl rfl rfl

theorem keeps_reading_handleNewline (kind : TokenKind) : Keeps reading (handleNewline kind) := by
  unfold handleNewline
  refine .ite (.bind keeps_reading_runLogicalChecks fun _ => ?_) ?_
  · refine keeps_getProcessor_bind fun c p hp => ?_
    rw [run_setProcessor]
    exact reading_setProcessor hp rfl rfl rfl
  · refine keeps_getProcessor_bind fun c p hp => ?_
    split
    · rw [run_bind, run_lift]
      cases hfirst : p.visitBlankLine.deleteFirstToken with
      | error f => rfl
      | ok q =>
        unfold Processor.deleteFirstToken at hfirst
        split at hfirst
        · cases hfirst
        · cases hfirst
          exact reading_setProcessor hp rfl rfl rfl
    · exact keeps_reading_runLogicalChecks c

end FileChecker

/-- What a tokenizer makes of the lines of a file. -/
inductive Event where
  /-- It is handed the line with this index. -/
  | line (k : Nat)
  | token (t : Token)
  | fault (why : TokenizeFault)
deriving DecidableEq

namespace Event

def index? : Event → Option Nat
  | line k => some k
  | _ => none

/-- Where the line number stands after an event; `n` lines are all. -/
def moved (n : Nat) (place : Int) : Event → Int
  | line k => (min (k + 1) n : Nat)
  | _ => place

/-- A token beyond the last line ends the file. -/
def within (n : Nat) : Event → Bool
  | token t => t.start.row ≤ n
  | _ => true

end Event

/-- What a tokenizer makes of the lines from index `k` on; it is handed `fuel` lines at most, empty
ones after the last. -/
def eventsFrom (feed : Feed) (lines : List String) : (fuel k : Nat) → TokenizerState → List Event
  | 0, _, _ => []
  | fuel + 1, k, st =>
    if st.finished then []
    else .line k :: match feed st (lines.getD k "") with
      | .error why => [.fault why]
      | .ok (tokens, st) => tokens.map .token ++ eventsFrom feed lines fuel (k + 1) st

/-- What a tokenizer that is fed these lines gives, up to the end of the file. -/
def events (feed : Feed) (lines : List String) : List Event :=
  (eventsFrom feed lines (FileChecker.feedBound lines.length) 0 {}).takeWhile
    (Event.within lines.length)

/-- What checking the tokens of a file does, step by step. -/
inductive Act where
  | read (k : Nat)
  /-- A token joins those at hand and is counted. -/
  | take (t : Token)
  | call (made : LineCall)
  /-- A line outside of brackets has ended. -/
  | settle (kind : TokenKind)
  | fail (why : TokenizeFault)
  /-- The file has ended within a statement. -/
  | finish

/-- Does a step. A line is read by its index, wherever the line number stands. -/
def Act.perform : Act → Checking Unit
  | read k => do
    let p ← FileChecker.getProcessor
    let (_, p) ← FileChecker.lift { p with lineNumber := (min k p.totalLines : Nat) }.nextLine
    FileChecker.setProcessor p
  | take t => do
    let p ← FileChecker.getProcessor
    FileChecker.setProcessor { p with tokens := p.tokens ++ [t] }
    FileChecker.tallyToken
  | call made => made.perform
  | settle kind => FileChecker.handleNewline kind
  | fail why => throw (Fault.ofTokenFault (Processor.tokenizeFault why))
  | finish => FileChecker.runLogicalChecks

/-- The end of a statement or blank line, if a token is one. -/
def settling (depth : Int) (t : Token) : List Act :=
  if depth = 0 && t.isNewline then [.settle t.kind] else []

def Event.act : Event → Act
  | line k => .read k
  | token t => .take t
  | fault why => .fail why

/-- What is done for these events, one after the other. -/
def acts : (depth : Int) → List Event → List Act
  | _, [] => []
  | depth, .line k :: rest => .read k :: acts depth rest
  | depth, .token t :: rest =>
    .take t :: ((lineCalls t).map .call ++ (settling depth t ++ acts (depthAfter depth t) rest))
  | _, .fault why :: _ => [.fail why]

/-! ## The tokenizer's course -/

/-- An event comes when the line number stands where it should: at a line that is handed out, or
where a token ends. The line feeds in a string tell how many rows it covers. -/
def Event.InPlace (n : Nat) (place : Int) : Event → Prop
  | line k => place = (min k n : Nat)
  | token t => t.stop.row = place ∧
      (t.kind = .string → t.start.row + t.text.toList.count '\n' = t.stop.row)
  | fault _ => True

/-- Each event comes when the line number stands where it should. -/
def Timely (n : Nat) : (place : Int) → List Event → Prop
  | _, [] => True
  | place, event :: rest => event.InPlace n place ∧ Timely n (event.moved n place) rest

theorem Timely.append_iff {n : Nat} {place : Int} (xs ys : List Event) :
    Timely n place (xs ++ ys) ↔
      Timely n place xs ∧ Timely n (xs.foldl (Event.moved n) place) ys := by
  induction xs generalizing place with
  | nil => exact (true_and _).symm.to_iff
  | cons event rest ih =>
    simp only [List.cons_append, Timely, ih, and_assoc, List.foldl_cons]

theorem foldl_moved_tokens (tokens : List Token) (n : Nat) (m : Int) :
    tokens.foldl (fun place t => Event.moved n place (.token t)) m = m := by
  induction tokens with
  | nil => rfl
  | cons t rest ih => exact ih

section Course

variable {feed : Feed} {lines : List String} {k : Nat} {st : TokenizerState} {tokens : List Token}

theorem timely_tokens (hfeed : feed.Punctual lines)
    (hgives : Feed.Gives feed lines k tokens) :
    Timely lines.length (min (k + 1) lines.length : Nat)
      ((tokens.map Event.token).takeWhile (Event.within lines.length)) := by
  have hrows := hfeed.stop_eq hgives
  have hstrings := hfeed.strings hgives
  clear hgives
  induction tokens with
  | nil => trivial
  | cons t rest ih =>
    rw [List.map_cons]
    by_cases hwithin : t.start.row ≤ lines.length
    · rw [List.takeWhile_cons_of_pos (by simpa [Event.within] using hwithin)]
      refine ⟨⟨hrows t List.mem_cons_self hwithin, hstrings t List.mem_cons_self⟩, ih ?_ ?_⟩
      · exact fun u hu => hrows u (List.mem_cons_of_mem t hu)
      · exact fun u hu => hstrings u (List.mem_cons_of_mem t hu)
    · rw [List.takeWhile_cons_of_neg (by simpa [Event.within] using hwithin)]
      trivial

theorem forall_within_iff :
    (∀ event ∈ tokens.map Event.token, event.within lines.length = true) ↔
      ∀ t ∈ tokens, t.start.row ≤ lines.length := by
  rw [List.forall_mem_map]
  exact forall₂_congr fun t _ => decide_eq_true_iff

theorem takeWhile_within_tokens
    (hall : ∀ t ∈ tokens, t.start.row ≤ lines.length) :
    (tokens.map Event.token).takeWhile (Event.within lines.length) = tokens.map Event.token :=
  List.takeWhile_eq_self_iff.mpr (forall_within_iff.mpr hall)

theorem takeWhile_eventsFrom {st' : TokenizerState} (fuel : Nat)
    (hgoes : st.finished = false) (hstep : feed st (lines.getD k "") = .ok (tokens, st')) :
    (eventsFrom feed lines (fuel + 1) k st).takeWhile (Event.within lines.length) =
      .line k :: ((tokens.map Event.token).takeWhile (Event.within lines.length) ++
        if ∀ t ∈ tokens, t.start.row ≤ lines.length then
          (eventsFrom feed lines fuel (k + 1) st').takeWhile (Event.within lines.length)
        else []) := by
  rw [eventsFrom, if_neg (by simp [hgoes]), List.takeWhile_cons_of_pos rfl, hstep]
  dsimp only
  split
  · rename_i hall
    rw [List.takeWhile_append_of_pos (forall_within_iff.mpr hall), takeWhile_within_tokens hall]
  · rename_i hbeyond
    rw [List.takeWhile_append, if_neg fun hlength => ?_, List.append_nil]
    refine hbeyond (forall_within_iff.mp (List.takeWhile_eq_self_iff.mp ?_))
    exact (List.takeWhile_prefix _).eq_of_length hlength

theorem timely_eventsFrom (hfeed : feed.Punctual lines) (hfed : Feed.Fed feed lines k st)
    (fuel : Nat) :
    Timely lines.length (min k lines.length : Nat)
      ((eventsFrom feed lines fuel k st).takeWhile (Event.within lines.length)) := by
  induction fuel generalizing k st with
  | zero => trivial
  | succ fuel ih =>
    by_cases hfinished : st.finished = true
    · rw [eventsFrom, if_pos hfinished]
      trivial
    · have hgoes : st.finished = false := by simpa using hfinished
      cases hstep : feed st (lines.getD k "") with
      | error why =>
        rw [eventsFrom, if_neg hfinished, hstep]
        exact ⟨rfl, trivial, trivial⟩
      | ok fed =>
        obtain ⟨tokens, st'⟩ := fed
        have hgives : Feed.Gives feed lines k tokens := ⟨st, st', hfed, hgoes, hstep⟩
        rw [takeWhile_eventsFrom fuel hgoes hstep]
        refine ⟨rfl, (Timely.append_iff _ _).mpr ⟨timely_tokens hfeed hgives, ?_⟩⟩
        split
        · rename_i hall
          rw [takeWhile_within_tokens hall, List.foldl_map, foldl_moved_tokens]
          exact ih (hfed.next hgoes hstep)
        · trivial

/-- The lines are handed out by their index, each once; if the tokenizer does not fail, all of
them. -/
theorem indices_eventsFrom (hfeed : feed.Punctual lines) (hfed : Feed.Fed feed lines k st)
    (fuel : Nat) :
    ∃ j, ((eventsFrom feed lines fuel k st).takeWhile (Event.within lines.length)).filterMap
        Event.index? = List.range' k j ∧
      ((∀ why, Event.fault why ∉
          (eventsFrom feed lines fuel k st).takeWhile (Event.within lines.length)) →
        lines.length ≤ k + j ∨ fuel ≤ j) := by
  have hnone : ∀ tokens : List Token,
      ((tokens.map Event.token).takeWhile (Event.within lines.length)).filterMap
        Event.index? = [] := by
    intro tokens
    rw [List.filterMap_eq_nil_iff]
    intro event hevent
    obtain ⟨t, -, rfl⟩ := List.mem_map.mp ((List.takeWhile_prefix _).subset hevent)
    rfl
  have hhead : ∀ k rest, (Event.line k :: rest).filterMap Event.index? =
      k :: rest.filterMap Event.index? := fun _ _ => rfl
  induction fuel generalizing k st with
  | zero => exact ⟨0, rfl, fun _ => .inr (Nat.le_refl 0)⟩
  | succ fuel ih =>
    by_cases hfinished : st.finished = true
    · rw [eventsFrom, if_pos hfinished]
      exact ⟨0, rfl, fun _ => .inl (hfeed.patient hfed hfinished)⟩
    · have hgoes : st.finished = false := by simpa using hfinished
      cases hstep : feed st (lines.getD k "") with
      | error why =>
        rw [eventsFrom, if_neg hfinished, hstep]
        refine ⟨1, rfl, fun hsound => absurd ?_ (hsound why)⟩
        exact List.mem_cons_of_mem _ List.mem_cons_self
      | ok fed =>
        obtain ⟨tokens, st'⟩ := fed
        have hgives : Feed.Gives feed lines k tokens := ⟨st, st', hfed, hgoes, hstep⟩
        rw [takeWhile_eventsFrom fuel hgoes hstep, hhead, List.filterMap_append, hnone,
          List.nil_append]
        split
        · obtain ⟨j, hindices, hall⟩ := ih (hfed.next hgoes hstep)
          refine ⟨j + 1, by rw [hindices, List.range'_succ], fun hsound => ?_⟩
          have := hall fun why hwhy => hsound why (by simp [hwhy])
          omega
        · rename_i hbeyond
          refine ⟨1, rfl, fun _ => .inl ?_⟩
          obtain ⟨t, ht, hrow⟩ : ∃ t ∈ tokens, ¬t.start.row ≤ lines.length := by
            simpa only [not_forall, exists_prop] using hbeyond
          by_contra hk
          have := hfeed.rows hgives (by omega) t ht
          omega

end Course

namespace FileChecker

variable {c d : FileChecker} {lines : List String} {m : Int}

theorem processToken_eq_settling (depth : Int) (t : Token) :
    processToken depth t = tallyToken >>= fun _ => checkLineEnd t >>= fun _ =>
      (settling depth t).forM Act.perform >>= fun _ => pure (depthAfter depth t) := by
  have hsettle : (settling depth t).forM Act.perform =
      if depth = 0 && t.isNewline then handleNewline t.kind else pure () := by
    unfold settling
    split
    · exact bind_pure _
    · rfl
  rw [hsettle, processToken_eq]

theorem reading_of_take_ok {t : Token}
    (hrun : (Act.take t).perform.run c = (.ok (), d)) : d.reading = c.reading := by
  have hkeeps : Keeps reading (Act.take t).perform := by
    refine keeps_getProcessor_bind fun c p hp => ?_
    refine view_setProcessor_bind (reading_setProcessor hp rfl rfl rfl) ?_
    exact keeps_tallyToken fun _ _ => rfl
  have hkept := hkeeps c
  rwa [hrun] at hkept

/-- A call never changes the lines. -/
theorem keeps_lines_perform (call : LineCall) :
    Keeps (fun c : FileChecker => c.processor.map Processor.lines) call.perform := by
  have hlines : Keeps (fun c : FileChecker => c.processor.map Processor.lines)
      (runPhysicalChecks (.text call.line) call.shown) := by
    have hkept : Keeps reading (runPhysicalChecks (.text call.line) call.shown) :=
      keeps_reading keeps_runPhysicalChecks
    simpa [reading, Function.comp_def] using hkept.comp (Option.map Prod.fst)
  refine call.keeps_perform (fun c n inside => ?_) hlines
  rw [placed, Option.map_map]
  rfl

theorem reading_of_calls_ok {calls : List LineCall}
    (hc : c.reading = some (lines, m, false))
    (hrun : (calls.forM LineCall.perform).run c = (.ok (), d)) : d.reading = c.reading := by
  have hlines : d.processor.map Processor.lines = c.processor.map Processor.lines := by
    have hkept := (Keeps.forM keeps_lines_perform : Keeps _ (calls.forM LineCall.perform)) c
    rwa [hrun] at hkept
  obtain ⟨q, hq, hnumber, hinside⟩ :=
    exists_of_cursor_eq (LineCall.cursor_of_forM_ok (cursor_of_reading_eq hc) hrun)
  obtain ⟨p, hp, rfl, -⟩ := exists_of_reading_eq hc
  rw [hp, hq] at hlines
  rw [hc, reading_eq hq, hnumber, hinside, Option.some.inj hlines]

theorem reading_of_settling_ok {depth : Int} {t : Token}
    (hrun : ((settling depth t).forM Act.perform).run c = (.ok (), d)) : d.reading = c.reading := by
  have hkeeps : Keeps reading ((settling depth t).forM Act.perform) := by
    unfold settling
    split
    · exact .bind (keeps_reading_handleNewline t.kind) fun _ => .pure _
    · exact .pure _
  have hkept := hkeeps c
  rwa [hrun] at hkept

theorem run_acts_token (depth : Int) (t : Token) (rest : List Event) :
    (acts depth (.token t :: rest)).forM Act.perform =
      (Act.take t).perform >>= fun _ => (lineCalls t).forM LineCall.perform >>= fun _ =>
        (settling depth t).forM Act.perform >>= fun _ =>
          (acts (depthAfter depth t) rest).forM Act.perform := by
  simp only [acts, List.forM_eq_forM, List.forM_cons, List.forM_append, List.forM_map]
  rfl

theorem run_processLineTokens {tokens : List Token} (hc : c.reading = some (lines, m, false))
    (hrows : ∀ t ∈ tokens, t.start.row ≤ lines.length → t.stop.row = m)
    (hstrings : ∀ t ∈ tokens, t.kind = .string →
      t.start.row + t.text.toList.count '\n' = t.stop.row) (depth : Int) :
    (processLineTokens tokens depth).run c =
      ((acts depth ((tokens.map Event.token).takeWhile (Event.within lines.length))).forM
        Act.perform >>= fun _ => pure (if ∀ t ∈ tokens, t.start.row ≤ lines.length then
          some (tokens.foldl depthAfter depth) else none)).run c := by
  induction tokens generalizing c depth with
  | nil => rfl
  | cons t rest ih =>
    obtain ⟨p, hp, hlines, hnumber, hinside⟩ := exists_of_reading_eq hc
    obtain ⟨ht, hrest⟩ := List.forall_mem_cons.mp hrows
    obtain ⟨hstring, hmore⟩ := List.forall_mem_cons.mp hstrings
    rw [processLineTokens, run_bind_of_ok (run_getProcessor hp), List.map_cons]
    by_cases hwithin : t.start.row ≤ lines.length
    · rw [if_neg (by rw [Processor.totalLines, hlines]; omega),
        List.takeWhile_cons_of_pos (by simpa [Event.within] using hwithin)]
      have htake : (setProcessor { p with tokens := p.tokens ++ [t] } >>= fun _ =>
          processToken depth t >>= processLineTokens rest).run c =
            ((Act.take t).perform >>= fun _ => checkLineEnd t >>= fun _ =>
              (settling depth t).forM Act.perform >>= fun _ =>
                processLineTokens rest (depthAfter depth t)).run c := by
        rw [Act.perform, bind_assoc, run_bind_of_ok (run_getProcessor hp), bind_assoc,
          processToken_eq_settling]
        simp only [bind_assoc, pure_bind]
      refine htake.trans ?_
      rw [run_acts_token]
      simp only [bind_assoc]
      refine run_bind_congr fun _ c₁ hrun => ?_
      have h₁ : c₁.reading = some (lines, m, false) := (reading_of_take_ok hrun).trans hc
      have hstop : c₁.cursor = some (t.stop.row, false) := by
        rw [ht hwithin]
        exact cursor_of_reading_eq h₁
      rw [run_bind, run_checkLineEnd hstop hstring, ← run_bind]
      refine run_bind_congr fun _ c₂ hrun => ?_
      have h₂ : c₂.reading = some (lines, m, false) := (reading_of_calls_ok h₁ hrun).trans h₁
      refine run_bind_congr fun _ c₃ hrun => ?_
      have h₃ : c₃.reading = some (lines, m, false) := (reading_of_settling_ok hrun).trans h₂
      rw [ih h₃ hrest hmore]
      simp only [List.forall_mem_cons, hwithin, true_and, List.foldl_cons]
    · rw [if_pos (by rw [Processor.totalLines, hlines]; omega),
        List.takeWhile_cons_of_neg (by simpa [Event.within] using hwithin)]
      simp only [List.forall_mem_cons, hwithin, false_and, if_false]
      rfl

theorem exists_run_read {p : Processor} (hp : c.processor = some p) (k : Nat) :
    ∃ q, { p with lineNumber := (min k p.totalLines : Nat) }.nextLine =
        .ok (p.lines.getD k "", q) ∧
      (Act.read k).perform.run c = (.ok (), { c with processor := some q }) ∧
      { c with processor := some q }.reading =
        some (p.lines, ((min (k + 1) p.totalLines : Nat) : Int), p.multiline) := by
  obtain ⟨q, hline, hlines, hnumber, hinside⟩ := Processor.nextLine_at (k := k)
    (p := { p with lineNumber := (min k p.totalLines : Nat) }) rfl
  refine ⟨q, hline, ?_, ?_⟩
  · rw [Act.perform, run_bind_of_ok (run_getProcessor hp), run_bind, run_lift, hline]
    rfl
  · rw [reading_eq rfl, hlines, hnumber, hinside]
    rfl

theorem reading_of_acts_ok {happened : List Event} {depth : Int}
    (hc : c.reading = some (lines, m, false))
    (hrun : ((acts depth happened).forM Act.perform).run c = (.ok (), d)) :
    d.reading = some (lines, happened.foldl (Event.moved lines.length) m, false) := by
  induction happened generalizing c m depth with
  | nil =>
    cases hrun
    exact hc
  | cons event rest ih =>
    cases event with
    | line k =>
      obtain ⟨p, hp, rfl, -, hinside⟩ := exists_of_reading_eq hc
      obtain ⟨q, -, hread, hreading⟩ := exists_run_read hp k
      obtain ⟨_, e, hfirst, hrest⟩ := run_bind_ok hrun
      rw [hread] at hfirst
      cases hfirst
      rw [hinside] at hreading
      exact ih hreading hrest
    | token t =>
      rw [run_acts_token] at hrun
      obtain ⟨_, c₁, htake, hrun⟩ := run_bind_ok hrun
      obtain ⟨_, c₂, hcalls, hrun⟩ := run_bind_ok hrun
      obtain ⟨_, c₃, hsettle, hrun⟩ := run_bind_ok hrun
      have h₁ := (reading_of_take_ok htake).trans hc
      have h₂ := (reading_of_calls_ok h₁ hcalls).trans h₁
      exact ih ((reading_of_settling_ok hsettle).trans h₂) hrun
    | fault why =>
      obtain ⟨_, e, hfail, -⟩ := run_bind_ok hrun
      cases hfail

theorem acts_tokens_append (tokens : List Token) (more : List Event) (depth : Int) :
    acts depth (tokens.map Event.token ++ more) =
      acts depth (tokens.map Event.token) ++ acts (tokens.foldl depthAfter depth) more := by
  induction tokens generalizing depth with
  | nil => rfl
  | cons t rest ih =>
    simp only [List.map_cons, List.cons_append, acts, ih, List.append_assoc, List.foldl_cons]

theorem run_processLinesBy {feed : Feed} (hfeed : feed.Punctual lines) {k : Nat}
    {st : TokenizerState} (hfed : Feed.Fed feed lines k st)
    (hc : c.reading = some (lines, ((min k lines.length : Nat) : Int), false)) (fuel : Nat)
    (depth : Int) :
    (processLinesBy feed fuel st depth).run c =
      ((acts depth ((eventsFrom feed lines fuel k st).takeWhile
        (Event.within lines.length))).forM Act.perform).run c := by
  induction fuel generalizing c k st depth with
  | zero => rfl
  | succ fuel ih =>
    obtain ⟨p, hp, rfl, hnumber, hinside⟩ := exists_of_reading_eq hc
    rw [processLinesBy]
    by_cases hfinished : st.finished = true
    · rw [eventsFrom, if_pos hfinished, if_pos hfinished]
      rfl
    · rw [if_neg hfinished]
      have hgoes : st.finished = false := by simpa using hfinished
      obtain ⟨q, hline, hread, hreading⟩ := exists_run_read hp k
      have hplace : { p with lineNumber := ((min k p.totalLines : Nat) : Int) } = p := by
        rw [Processor.totalLines, ← hnumber]
      rw [hplace] at hline
      rw [hinside] at hreading
      rw [run_bind_of_ok (run_getProcessor hp), run_bind, run_lift, hline]
      dsimp only
      rw [run_bind_of_ok (run_setProcessor _ _)]
      cases hstep : feed st (p.lines.getD k "") with
      | error why =>
        rw [eventsFrom, if_neg hfinished, hstep]
        exact (run_bind_of_ok (f := fun _ => (acts depth [.fault why]).forM Act.perform)
          hread).symm
      | ok fed =>
        obtain ⟨tokens, st'⟩ := fed
        dsimp only
        have hgives : Feed.Gives feed p.lines k tokens := ⟨st, st', hfed, hgoes, hstep⟩
        rw [takeWhile_eventsFrom fuel hgoes hstep]
        refine Eq.trans ?_ (run_bind_of_ok hread).symm
        rw [run_bind, run_processLineTokens hreading (hfeed.stop_eq hgives)
          (hfeed.strings hgives), ← run_bind, bind_assoc]
        simp only [pure_bind]
        by_cases hall : ∀ t ∈ tokens, t.start.row ≤ p.lines.length
        · rw [if_pos hall, if_pos hall, takeWhile_within_tokens hall, acts_tokens_append,
            List.forM_eq_forM, List.forM_append]
          refine run_bind_congr fun _ d hrun => ?_
          have hd := reading_of_acts_ok hreading hrun
          rw [List.foldl_map, foldl_moved_tokens] at hd
          exact ih (hfed.next hgoes hstep) hd _
        · rw [if_neg hall, if_neg hall, List.append_nil]
          exact run_bind_idle fun _ _ _ => rfl

end FileChecker

/-! ## Single steps -/

theorem append_eq_append_cons {xs ys did todo : List Act} {act : Act} (hxs : act ∉ xs)
    (h : xs ++ ys = did ++ act :: todo) : ∃ more, did = xs ++ more ∧ ys = more ++ act :: todo := by
  rcases List.append_eq_append_iff.mp h with ⟨more, hdid, hys⟩ | ⟨more, hsplit, htodo⟩
  · exact ⟨more, hdid, hys⟩
  · cases more with
    | nil => exact ⟨[], by rw [hsplit, List.append_nil, List.append_nil], htodo.symm⟩
    | cons other more =>
      obtain ⟨rfl, -⟩ := List.cons.inj htodo
      exact absurd (by rw [hsplit]; simp) hxs

theorem act_not_mem_calls (event : Event) (depth : Int) (t : Token) :
    event.act ∉ (lineCalls t).map Act.call ++ settling depth t := by
  rw [List.mem_append, not_or, settling]
  constructor
  · intro h
    obtain ⟨call, -, hcall⟩ := List.mem_map.mp h
    cases event <;> cases hcall
  · split
    · intro h
      have hact := List.mem_singleton.mp h
      cases event <;> cases hact
    · exact List.not_mem_nil

theorem exists_of_acts_eq {happened : List Event} (event : Event) {depth : Int}
    {did todo : List Act} (h : acts depth happened = did ++ event.act :: todo) :
    ∃ before after depth', happened = before ++ event :: after ∧ did = acts depth before ∧
      acts depth' (event :: after) = event.act :: todo := by
  have hinj : ∀ {e₁ e₂ : Event}, e₁.act = e₂.act → e₁ = e₂ := by
    intro e₁ e₂ heq
    cases e₁ <;> cases e₂ <;> cases heq <;> rfl
  induction happened generalizing depth did with
  | nil => simp [acts] at h
  | cons first rest ih =>
    cases did with
    | nil =>
      have hfirst : ∃ more, acts depth (first :: rest) = first.act :: more := by
        cases first <;> exact ⟨_, rfl⟩
      obtain ⟨more, hmore⟩ := hfirst
      obtain rfl := hinj (List.cons.inj (hmore.symm.trans h)).1
      exact ⟨[], rest, depth, rfl, rfl, h⟩
    | cons act did =>
      cases first with
      | line k =>
        obtain ⟨rfl, hrest⟩ := List.cons.inj h
        obtain ⟨before, after, depth', rfl, rfl, hafter⟩ := ih hrest
        exact ⟨.line k :: before, after, depth', rfl, rfl, hafter⟩
      | token u =>
        obtain ⟨rfl, hrest⟩ := List.cons.inj h
        rw [← List.append_assoc] at hrest
        obtain ⟨more, rfl, hmore⟩ :=
          append_eq_append_cons (act_not_mem_calls event depth u) hrest
        obtain ⟨before, after, depth', rfl, rfl, hafter⟩ := ih hmore
        refine ⟨.token u :: before, after, depth', rfl, ?_, hafter⟩
        rw [List.append_assoc]
        rfl
      | fault why => simp [acts] at h

theorem exists_piece_of_pieceCalls {shown : String} {row : Int} {pieces : List String}
    {earlier later : List LineCall} {call : LineCall}
    (h : pieceCalls shown row pieces = earlier ++ call :: later) :
    call.number = row + earlier.length ∧
      pieces[earlier.length]?.map (· ++ "\n") = some call.line := by
  induction pieces generalizing row earlier with
  | nil => simp [pieceCalls] at h
  | cons piece rest ih =>
    cases earlier with
    | nil =>
      cases h
      exact ⟨(Int.add_zero row).symm, rfl⟩
    | cons first earlier =>
      obtain ⟨hnumber, hpiece⟩ := ih (List.cons.inj h).2
      refine ⟨?_, hpiece⟩
      rw [hnumber, List.length_cons]
      push_cast
      omega

namespace FileChecker

/-- In the state `d` the calls for a token find what they find under their own numbers, those for
the pieces of a string under the number of the line of each, and the line number is afterwards where
it was. -/
structure CallsInPlace (t : Token) (d : FileChecker) : Prop where
  run_eq : (checkLineEnd t).run d = ((lineCalls t).forM LineCall.perform).run d
  returns : ∀ e, (checkLineEnd t).run d = (.ok (), e) → e.cursor = d.cursor
  pieces : t.endsLine = false → ∀ earlier call later, lineCalls t = earlier ++ call :: later →
    call.number = t.start.row + earlier.length ∧
      (Processor.splitLine t.text)[earlier.length]?.map (· ++ "\n") = some call.line
  found : ∀ earlier call later, lineCalls t = earlier ++ call :: later →
    ∀ e, (earlier.forM LineCall.perform).run d = (.ok (), e) →
      ∃ found, (call.perform.run e).2.results = e.results ++ found ∧
        ∀ f ∈ found, f.line = .int call.number

theorem callsInPlace {t : Token} {d : FileChecker} (hcursor : d.cursor = some (t.stop.row, false))
    (hstring : t.kind = .string → t.start.row + t.text.toList.count '\n' = t.stop.row) :
    CallsInPlace t d := by
  have hcheck := run_checkLineEnd hcursor hstring
  refine ⟨hcheck, fun e he => ?_, fun hends earlier call later hsplit => ?_, ?_⟩
  · rw [hcheck] at he
    rw [LineCall.cursor_of_forM_ok hcursor he, hcursor]
  · rw [lineCalls, if_neg (by simp [hends])] at hsplit
    split at hsplit
    · exact exists_piece_of_pieceCalls hsplit
    · simp at hsplit
  · exact fun _ call _ _ e he => call.exists_found (LineCall.cursor_of_forM_ok hcursor he)

/-- With a punctual tokenizer, checking the tokens of a file hands out the lines by their index:
each once and in order, and all of them unless the tokenizer fails. Whenever the next line is asked
for, the line number stands at it, since the calls for a token leave it where it was. -/
theorem processTokensBy_reads_by_index {feed : Feed} {c : FileChecker} {p : Processor}
    (hp : c.processor = some p) (hstart : p.lineNumber = 0) (houtside : p.multiline = false)
    (hfeed : feed.Punctual p.lines) :
    (processTokensBy feed).run c =
        ((acts 0 (events feed p.lines)).forM Act.perform >>= fun _ => processRest).run c ∧
      (∃ m, (events feed p.lines).filterMap Event.index? = List.range m ∧
        ((∀ why, .fault why ∉ events feed p.lines) → p.lines.length ≤ m)) ∧
      (∀ did k todo, acts 0 (events feed p.lines) = did ++ .read k :: todo →
        ∀ d, (did.forM Act.perform).run c = (.ok (), d) →
          ∃ q r, d.processor = some q ∧ q.nextLine = .ok (p.lines.getD k "", r)) ∧
      ∀ did t todo, acts 0 (events feed p.lines) = did ++ .take t :: todo →
        (lineCalls t).map Act.call <+: todo ∧
        ∀ d, ((did ++ [.take t]).forM Act.perform).run c = (.ok (), d) → CallsInPlace t d := by
  have hc : c.reading = some (p.lines, ((min 0 p.lines.length : Nat) : Int), false) := by
    rw [reading_eq hp, hstart, houtside, Nat.zero_min]
    rfl
  -- whatever was done before an event, the line number stands where the event needs it
  have hplace : ∀ before event after, events feed p.lines = before ++ event :: after →
      ∀ d, ((acts 0 before).forM Act.perform).run c = (.ok (), d) →
        ∃ place, d.reading = some (p.lines, place, false) ∧
          event.InPlace p.lines.length place := by
    intro before event after hevents d hrun
    have htimely : Timely p.lines.length ((min 0 p.lines.length : Nat) : Int)
        (events feed p.lines) := timely_eventsFrom hfeed .start (feedBound p.lines.length)
    rw [hevents, Timely.append_iff] at htimely
    exact ⟨_, reading_of_acts_ok hc hrun, htimely.2.1⟩
  refine ⟨?_, ?_, fun did k todo hacts d hrun => ?_, fun did t todo hacts => ?_⟩
  · rw [processTokensBy, run_bind_of_ok (run_getProcessor hp), run_bind,
      run_processLinesBy hfeed .start hc, ← run_bind]
    rfl
  · obtain ⟨m, hindices, hall⟩ := indices_eventsFrom hfeed .start (feedBound p.lines.length)
    refine ⟨m, hindices.trans List.range_eq_range'.symm, fun hsound => ?_⟩
    have := hall hsound
    unfold feedBound at this
    omega
  · obtain ⟨before, after, -, hevents, rfl, -⟩ := exists_of_acts_eq (.line k) hacts
    obtain ⟨place, hreading, hplaced⟩ := hplace before (.line k) after hevents d hrun
    obtain ⟨q, hq, hlines, hnumber, -⟩ := exists_of_reading_eq hreading
    rw [hplaced, ← hlines] at hnumber
    obtain ⟨r, hline, -⟩ := Processor.nextLine_at hnumber
    exact ⟨q, r, hq, by rw [hline, hlines]⟩
  · obtain ⟨before, after, depth, hevents, rfl, htodo⟩ :=
      exists_of_acts_eq (.token t) hacts
    obtain ⟨-, rfl⟩ := List.cons.inj htodo
    refine ⟨List.prefix_append _ _, fun d hrun => ?_⟩
    rw [List.forM_eq_forM, List.forM_append] at hrun
    obtain ⟨_, d₀, hdid, hrun⟩ := run_bind_ok hrun
    obtain ⟨_, d₁, htake, hd⟩ := run_bind_ok hrun
    cases hd
    obtain ⟨place, hreading, rfl, hstring⟩ := hplace before (.token t) after hevents d₀ hdid
    exact callsInPlace (cursor_of_reading_eq ((reading_of_take_ok htake).trans hreading)) hstring

/-- A file with a string over two lines, and a check that finds something in each line. -/
def quotingFile : FileChecker :=
  { filename := .text "a.py"
    displayName := .text "a.py"
    checks := { physicalLines := [
      { name := "W"
        pluginName := .text "W"
        parameters := [("physical_line", true)]
        call _ := { reply := .ok (.results (.lone [.int 0, .text "W1 seen"])), memory := none } }] }
    processor := some { filename := .text "a.py", lines := ["x = '''a\n", "b'''\n"] } }

theorem quotingFile_reads_by_index :
    ∃ p, quotingFile.processor = some p ∧ Source.Ruled p.lines ∧
      Feed.Punctual TokenizerState.feed p.lines ∧
      processTokens.run quotingFile =
        ((acts 0 (events TokenizerState.feed p.lines)).forM Act.perform >>= fun _ =>
          processRest).run quotingFile ∧
      (events TokenizerState.feed p.lines).filterMap Event.index? = [0, 1, 2] ∧
      (processTokens.run quotingFile).2.results.map (·.line) = [.int 1, .int 2] := by
  have hruled : Source.Ruled ["x = '''a\n", "b'''\n"] := by decide
  have hfeed := Source.punctual_feed hruled
  have h := processTokensBy_reads_by_index (c := quotingFile) rfl rfl rfl hfeed
  exact ⟨_, rfl, hruled, hfeed, h.1, by decide, by decide +kernel⟩

end FileChecker

end Check

end LintRunner
