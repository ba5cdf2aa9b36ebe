import LintRunner.Proofs.Frames

/-!
# The numbers under which physical lines are checked

A token makes the checks of physical lines run once, several times or not at all. Each of these
calls has a line number of its own: the one of the line that has been read, or, in a string of
several lines, the one of the line inside the string. The line number is also where reading stands,
so it has to be back in its place after the calls; it is, when the line feeds in a string tell how
many rows it covers.
-/

namespace LintRunner

open Stateful
open Source (Token Processor)

theorem Text.length_splitBy (c : Char) (cs : List Char) :
    (splitBy (· == c) cs).length = cs.count c + 1 := by
  induction cs with
  | nil => rfl
  | cons x xs ih =>
    rw [splitBy, List.count_cons]
    split
    · rename_i hx
      rw [List.length_cons, ih]
    · split
      · rename_i hnil
        exact absurd hnil (splitBy_ne_nil _ _)
      · rename_i hcons
        rw [hcons] at ih
        exact ih

theorem Source.Processor.length_splitLine (text : String) :
    (splitLine text).length = text.toList.count '\n' := by
  rw [splitLine, Text.splitOnChar, List.length_dropLast, List.length_map, Text.length_splitBy]
  rfl

namespace Check

namespace FileChecker

variable {α β : Type}

/-- The line number, and whether it stands inside a string of several lines. -/
def cursor (c : FileChecker) : Option (Int × Bool) :=
  c.processor.map fun p => (p.lineNumber, p.multiline)

def placed (c : FileChecker) (number : Int) (inside : Bool) : FileChecker :=
  { c with processor :=
      c.processor.map fun p => { p with lineNumber := number, multiline := inside } }

variable {c : FileChecker} {p : Processor}

theorem cursor_eq (hp : c.processor = some p) :
    c.cursor = some (p.lineNumber, p.multiline) := by
  rw [cursor, hp]
  rfl

theorem exists_of_cursor_eq {n : Int} {inside : Bool}
    (h : c.cursor = some (n, inside)) :
    ∃ p, c.processor = some p ∧ p.lineNumber = n ∧ p.multiline = inside := by
  obtain ⟨p, hp, heq⟩ := Option.map_eq_some_iff.mp h
  exact ⟨p, hp, congrArg Prod.fst heq, congrArg Prod.snd heq⟩

theorem cursor_placed (hp : c.processor = some p) (n : Int)
    (inside : Bool) : (c.placed n inside).cursor = some (n, inside) := by
  rw [placed, hp]
  rfl

theorem placed_placed (c : FileChecker) (m n : Int) (inside outside : Bool) :
    (c.placed m inside).placed n outside = c.placed n outside := by
  simp only [placed, Option.map_map]
  rfl

theorem placed_eq_self {n : Int} {inside : Bool}
    (h : c.cursor = some (n, inside)) : c.placed n inside = c := by
  obtain ⟨p, hp, rfl, rfl⟩ := exists_of_cursor_eq h
  unfold placed
  rw [hp, Option.map_some, ← hp]

theorem run_setProcessor_placed (hp : c.processor = some p)
    (n : Int) (inside : Bool) :
    (setProcessor { p with lineNumber := n, multiline := inside }).run c =
      (.ok (), c.placed n inside) := by
  rw [placed, hp]
  rfl

theorem keeps_cursor {x : Checking α} (h : Keeps lasting x) : Keeps cursor x := by
  have hcursor : ∀ c : FileChecker, c.lasting.cursor = c.cursor := by
    intro c
    simp only [cursor, lasting, Option.map_map]
    rfl
  intro c
  rw [← hcursor, h c, hcursor]

/-- The work changes nothing that lasts, and while the line number is `n` it only adds findings on
line `n`. -/
structure FindsOn (n : Int) (x : Checking α) : Prop where
  lasting : Keeps lasting x
  found : ∀ c p, c.processor = some p → p.lineNumber = n →
    ∃ found, (x.run c).2.results = c.results ++ found ∧ ∀ f ∈ found, f.line = .int n

namespace FindsOn

variable {n : Int} {x : Checking α} {f : α → Checking β}

theorem of_keeps (hlasting : Keeps FileChecker.lasting x) (hresults : Keeps results x) :
    FindsOn n x :=
  ⟨hlasting, fun c _ _ _ => ⟨[], by rw [hresults c, List.append_nil], List.forall_mem_nil _⟩⟩

theorem pure (a : α) : FindsOn n (Pure.pure a) := of_keeps (.pure a) (.pure a)

theorem throw (e : Fault) : FindsOn n (throw e : Checking α) := of_keeps (.throw e) (.throw e)

theorem bind (hx : FindsOn n x) (hf : ∀ a, FindsOn n (f a)) : FindsOn n (x >>= f) := by
  refine ⟨.bind hx.lasting fun a => (hf a).lasting, fun c p hp hn => ?_⟩
  obtain ⟨found, hfound, hlines⟩ := hx.found c p hp hn
  have hcursor := keeps_cursor hx.lasting c
  rw [run_bind]
  rcases hrun : x.run c with ⟨e | a, d⟩ <;> rw [hrun] at hfound hcursor
  · exact ⟨found, hfound, hlines⟩
  · obtain ⟨q, hq, hm, -⟩ := exists_of_cursor_eq (hcursor.trans (cursor_eq hp))
    obtain ⟨more, hmore, hmorelines⟩ := (hf a).found d q hq (hm.trans hn)
    refine ⟨found ++ more, ?_, List.forall_mem_append.mpr ⟨hlines, hmorelines⟩⟩
    rw [hmore, hfound, List.append_assoc]

theorem forM {γ : Type} {xs : List γ} {f : γ → Checking PUnit} (hf : ∀ a, FindsOn n (f a)) :
    FindsOn n (xs.forM f) := by
  induction xs with
  | nil => exact pure _
  | cons a rest ih => exact bind (hf a) fun _ => ih

theorem forIn {γ : Type} {xs : List γ} {f : γ → PUnit → Checking (ForInStep PUnit)}
    (hf : ∀ a b, FindsOn n (f a b)) (b : PUnit) : FindsOn n (forIn xs b f) := by
  induction xs generalizing b with
  | nil => exact pure _
  | cons a rest ih =>
    rw [List.forIn_cons]
    refine bind (hf a b) fun step => ?_
    cases step with
    | done b => exact pure _
    | yield b => exact ih b

end FindsOn

theorem keeps_results_setProcessor (p : Processor) : Keeps results (setProcessor p) :=
  .modify fun _ => rfl

theorem keeps_results_remember (memory : Option Source.CheckerState) :
    Keeps results (remember memory) := by
  cases memory with
  | none => exact .pure _
  | some m => exact .bind keeps_getProcessor fun _ => keeps_results_setProcessor _

theorem keeps_results_rememberFor {check : Checker} (memory : Option Source.CheckerState) :
    Keeps results (rememberFor check memory) := .ite (keeps_results_remember memory) (.pure _)

theorem keeps_results_runCheck (check : Checker) (args : Arguments) :
    Keeps results (runCheck check args) := by
  rw [runCheck_eq]
  exact .bind (keeps_gather fun _ _ _ => rfl) fun _ =>
    .bind (keeps_results_rememberFor _) fun _ => keeps_replyOf _

variable {n : Int}

theorem findsOn_turnTo (check : Checker) : FindsOn n (turnTo check) := by
  refine .of_keeps (keeps_turnTo check) ?_
  exact .ite (.bind keeps_getProcessor fun _ => keeps_results_setProcessor _) (.pure _)

theorem exists_found_addResult (c : FileChecker) (line column text given : Value) :
    ∃ found, ((addResult line column text given).run c).2.results = c.results ++ found ∧
      ∀ f ∈ found, f.line = line := by
  unfold addResult
  rw [run_bind, run_lift]
  cases splitMessage text with
  | error e => exact ⟨[], (List.append_nil _).symm, List.forall_mem_nil _⟩
  | ok parts =>
    obtain ⟨code, message⟩ := parts
    dsimp only
    unfold addFinding
    rw [run_bind, run_bind, run_get]
    dsimp only
    rw [run_bind, run_lift]
    cases c.shownLine line given with
    | error e => exact ⟨[], (List.append_nil _).symm, List.forall_mem_nil _⟩
    | ok source => exact ⟨_, rfl, List.forall_mem_singleton.mpr rfl⟩

theorem findsOn_addLineResult {line shown result : Value} :
    FindsOn n (addLineResult line shown result) := by
  refine ⟨keeps_addLineResult, fun c p hp hn => ?_⟩
  have hrest : ∀ code, Keeps results (do
      setProcessor (← lift ((← getProcessor).checkPhysicalError code line))) := fun code =>
    .bind keeps_getProcessor fun _ => .bind (keeps_lift _) fun _ =>
      keeps_results_setProcessor _
  unfold addLineResult
  rw [run_bind, run_lift]
  cases result.unpack2 with
  | error e => exact ⟨[], (List.append_nil _).symm, List.forall_mem_nil _⟩
  | ok parts =>
    obtain ⟨column, text⟩ := parts
    dsimp only
    rw [run_bind, run_getProcessor hp]
    dsimp only
    rw [hn]
    obtain ⟨found, hfound, hlines⟩ := exists_found_addResult c (.int n) column text shown
    refine ⟨found, ?_, hlines⟩
    rw [run_bind]
    rcases hrun : (addResult (.int n) column text shown).run c with ⟨e | code, d⟩ <;>
      rw [hrun] at hfound
    · exact hfound
    · exact (hrest code d).trans hfound

theorem findsOn_forEachResult {check : Checker} {results : Results}
    {use : Value → Checking Unit} (huse : ∀ v, FindsOn n (use v)) :
    FindsOn n (forEachResult check results use) := by
  have hremember : ∀ memory, FindsOn n (rememberFor check memory) := fun memory =>
    .of_keeps (keeps_rememberFor memory) (keeps_results_rememberFor memory)
  cases results with
  | nothing => exact .throw _
  | inert => exact .throw _
  | ready items => exact .forM huse
  | lone items => exact .forM huse
  | stream items memory fault =>
    unfold forEachResult
    simp only [← rememberFor_bind]
    refine .bind (.forM fun e => .bind (hremember _) fun _ => huse _) fun _ =>
      .bind (hremember _) fun _ => ?_
    cases fault with
    | none => exact .pure _
    | some f => exact .throw _

theorem findsOn_runPhysicalChecks {line override : Value} :
    FindsOn n (runPhysicalChecks line override) := by
  unfold runPhysicalChecks
  refine .bind (.of_keeps .get .get) fun c => .bind (.forIn (fun check _ => ?_) _) fun _ => .pure _
  refine .bind (findsOn_turnTo check) fun _ => ?_
  refine .bind (.of_keeps (keeps_runCheck check _) (keeps_results_runCheck check _)) fun reply => ?_
  dsimp only
  split
  · exact .pure _
  · split
    · exact .bind findsOn_addLineResult fun _ => .pure _
    · exact .bind findsOn_addLineResult fun _ => .pure _
    · exact .bind (.forM fun _ => findsOn_addLineResult) fun _ => .pure _
  · exact .bind (findsOn_forEachResult fun _ => findsOn_addLineResult) fun _ => .pure _

theorem keeps_runPhysicalChecks {line override : Value} :
    Keeps lasting (runPhysicalChecks line override) :=
  (findsOn_runPhysicalChecks (n := 0)).lasting

theorem cursor_runPhysicalChecks {d : FileChecker} {line override : Value} {r : Except Fault Unit}
    {at_ : Option (Int × Bool)} (h : c.cursor = at_)
    (hrun : (runPhysicalChecks line override).run c = (r, d)) : d.cursor = at_ := by
  have hkept : ((runPhysicalChecks line override).run c).2.cursor = c.cursor :=
    keeps_cursor keeps_runPhysicalChecks c
  rw [hrun] at hkept
  exact hkept.trans h

end FileChecker

/-- A call of the checks of physical lines: the number of the line, the line, what findings show in
its place if not nothing, and whether it lies inside a string of several lines. -/
structure LineCall where
  number : Int
  line : String
  shown : Value
  inside : Bool

/-- Runs the checks under the number of the call; afterwards the line number is what it was. -/
def LineCall.perform (call : LineCall) : Checking Unit := do
  let p ← FileChecker.getProcessor
  modify (·.placed call.number call.inside)
  FileChecker.runPhysicalChecks (.text call.line) call.shown
  modify (·.placed p.lineNumber p.multiline)

def pieceCalls (shown : String) : (row : Int) → List String → List LineCall
  | _, [] => []
  | row, piece :: rest => ⟨row, piece ++ "\n", .text shown, true⟩ :: pieceCalls shown (row + 1) rest

/-- The calls of the checks of physical lines that a token makes. -/
def lineCalls (t : Token) : List LineCall :=
  if t.endsLine then [⟨t.stop.row, t.line, .none, false⟩]
  else if t.isMultilineString then pieceCalls t.line t.start.row (Processor.splitLine t.text)
  else []

namespace LineCall

variable {c : FileChecker} {m : Int} {inside : Bool}

open FileChecker

theorem keeps_perform {γ : Type} {view : FileChecker → γ} (call : LineCall)
    (hplaced : ∀ (c : FileChecker) n inside, view (c.placed n inside) = view c)
    (hchecks : Keeps view (runPhysicalChecks (.text call.line) call.shown)) :
    Keeps view call.perform := by
  refine keeps_getProcessor_bind fun c p _ => ?_
  refine Keeps.bind (.modify fun c => hplaced c _ _) (fun _ => .bind hchecks fun _ => ?_) c
  exact .modify fun c => hplaced c _ _

theorem run_perform (call : LineCall) (h : c.cursor = some (m, inside)) :
    call.perform.run c =
      (runPhysicalChecks (.text call.line) call.shown >>= fun _ =>
        modify (·.placed m inside)).run (c.placed call.number call.inside) := by
  obtain ⟨p, hp, rfl, rfl⟩ := exists_of_cursor_eq h
  rw [perform, run_bind, run_getProcessor hp]
  rfl

theorem run_perform_bind {β : Type} (call : LineCall) (h : c.cursor = some (m, inside))
    (f : Unit → Checking β) :
    (call.perform >>= f).run c =
      (runPhysicalChecks (.text call.line) call.shown >>= fun _ =>
        modify (·.placed m inside) >>= f).run (c.placed call.number call.inside) := by
  rw [run_bind, run_perform call h, ← run_bind, bind_assoc]

theorem run_perform_in_place (call : LineCall) (h : c.cursor = some (call.number, call.inside)) :
    call.perform.run c = (runPhysicalChecks (.text call.line) call.shown).run c := by
  rw [run_perform call h, placed_eq_self h]
  refine run_bind_idle fun _ d hrun => ?_
  rw [run_modify, placed_eq_self (cursor_runPhysicalChecks h hrun)]

theorem cursor_of_perform_ok {call : LineCall} {d : FileChecker} (h : c.cursor = some (m, inside))
    (hrun : call.perform.run c = (.ok (), d)) : d.cursor = some (m, inside) := by
  obtain ⟨p, hp, -⟩ := exists_of_cursor_eq h
  rw [run_perform call h] at hrun
  obtain ⟨_, e, hchecks, hback⟩ := run_bind_ok hrun
  obtain ⟨q, hq, -⟩ := exists_of_cursor_eq
    (cursor_runPhysicalChecks (cursor_placed hp call.number call.inside) hchecks)
  cases hback
  exact cursor_placed hq m inside

theorem cursor_of_forM_ok {calls : List LineCall} {d : FileChecker}
    (h : c.cursor = some (m, inside)) (hrun : (calls.forM perform).run c = (.ok (), d)) :
    d.cursor = some (m, inside) := by
  induction calls generalizing c with
  | nil =>
    cases hrun
    exact h
  | cons call rest ih =>
    obtain ⟨_, e, hfirst, hrest⟩ := run_bind_ok hrun
    exact ih (cursor_of_perform_ok h hfirst) hrest

theorem exists_found (call : LineCall) (h : c.cursor = some (m, inside)) :
    ∃ found, (call.perform.run c).2.results = c.results ++ found ∧
      ∀ f ∈ found, f.line = .int call.number := by
  obtain ⟨p, hp, -⟩ := exists_of_cursor_eq h
  have hplaced := cursor_placed hp call.number call.inside
  obtain ⟨q, hq, hn, -⟩ := exists_of_cursor_eq hplaced
  obtain ⟨found, hfound, hlines⟩ : ∃ found,
      ((runPhysicalChecks (.text call.line) call.shown).run
        (c.placed call.number call.inside)).2.results = c.results ++ found ∧
      ∀ f ∈ found, f.line = .int call.number := findsOn_runPhysicalChecks.found _ q hq hn
  refine ⟨found, ?_, hlines⟩
  rw [run_perform call h, run_bind]
  rcases hrun : (runPhysicalChecks (.text call.line) call.shown).run
      (c.placed call.number call.inside) with ⟨e | _, d⟩ <;> rw [hrun] at hfound
  · exact hfound
  · exact hfound

end LineCall

namespace FileChecker

variable {c : FileChecker} {m : Int}

theorem run_pieces (shown : String) (pieces : List String) (row : Int)
    (h : c.cursor = some (m, false)) :
    (forIn pieces PUnit.unit fun piece _ => do
        runPhysicalChecks (.text (piece ++ "\n")) (.text shown)
        let p ← getProcessor
        setProcessor { p with lineNumber := p.lineNumber + 1 }
        pure (ForInStep.yield PUnit.unit) : Checking PUnit).run (c.placed row true) =
      ((pieceCalls shown row pieces).forM LineCall.perform >>= fun _ =>
        modify (·.placed (row + pieces.length) true)).run c := by
  induction pieces generalizing c row with
  | nil =>
    rw [List.length_nil, Int.natCast_zero, Int.add_zero]
    rfl
  | cons piece rest ih =>
    obtain ⟨p, hp, -⟩ := exists_of_cursor_eq h
    have hcalls : ((pieceCalls shown row (piece :: rest)).forM LineCall.perform >>= fun _ =>
        modify (·.placed (row + (piece :: rest).length) true)).run c =
          (LineCall.perform ⟨row, piece ++ "\n", .text shown, true⟩ >>= fun _ =>
            (pieceCalls shown (row + 1) rest).forM LineCall.perform >>= fun _ =>
              modify (·.placed (row + 1 + rest.length) true)).run c := by
      rw [← bind_assoc, List.length_cons, Int.natCast_succ, Int.add_comm (rest.length : Int),
        ← Int.add_assoc]
      rfl
    rw [hcalls, LineCall.run_perform_bind _ h, List.forIn_cons, bind_assoc]
    refine run_bind_congr fun _ d hrun => ?_
    obtain ⟨q, hq, hn, hm⟩ := exists_of_cursor_eq
      (cursor_runPhysicalChecks (cursor_placed hp row true) hrun)
    have hback : (d.placed m false).cursor = some (m, false) := cursor_placed hq m false
    have hmoved : (setProcessor { q with lineNumber := q.lineNumber + 1 }).run d =
        (.ok (), (d.placed m false).placed (row + 1) true) := by
      rw [placed_placed, ← run_setProcessor_placed hq, hn, ← hm]
    rw [bind_assoc, run_bind_of_ok (run_getProcessor hq), bind_assoc, run_bind_of_ok hmoved]
    exact ih (row + 1) hback

/-- If the line feeds of a string tell how many rows it covers, then a token at the end of what has
been read makes its calls, and the line number is back in its place after each. -/
theorem run_checkLineEnd {t : Token} (h : c.cursor = some (t.stop.row, false))
    (hrows : t.kind = .string → t.start.row + t.text.toList.count '\n' = t.stop.row) :
    (checkLineEnd t).run c = ((lineCalls t).forM LineCall.perform).run c := by
  obtain ⟨p, hp, hn, hm⟩ := exists_of_cursor_eq h
  unfold checkLineEnd lineCalls
  by_cases hends : t.endsLine = true
  · rw [if_pos hends, if_pos hends]
    have hcall := LineCall.run_perform_in_place ⟨t.stop.row, t.line, .none, false⟩ h
    refine hcall.symm.trans (run_bind_idle fun _ _ _ => rfl).symm
  · rw [if_neg hends, if_neg hends]
    by_cases hstring : t.isMultilineString = true
    · rw [if_pos hstring, if_pos hstring]
      have hkind : t.kind = .string := by
        rw [Token.isMultilineString, Bool.and_eq_true, decide_eq_true_iff] at hstring
        exact hstring.1
      rw [run_bind_of_ok (run_getProcessor hp),
        run_bind_of_ok (run_setProcessor_placed hp t.start.row true), run_bind,
        run_pieces _ _ _ h, ← run_bind, bind_assoc]
      refine run_bind_idle fun _ d hrun => ?_
      have hcursor := LineCall.cursor_of_forM_ok h hrun
      obtain ⟨q, hq, -⟩ := exists_of_cursor_eq hcursor
      have hinside : (d.placed t.stop.row true).processor =
          some { q with lineNumber := t.stop.row, multiline := true } := by
        rw [placed, hq]
        rfl
      rw [Processor.length_splitLine, hrows hkind, run_bind_of_ok (run_modify _ d),
        run_bind_of_ok (run_getProcessor hinside)]
      refine (run_setProcessor_placed hinside t.stop.row false).trans ?_
      rw [placed_placed, placed_eq_self hcursor]
    · rw [if_neg hstring, if_neg hstring]
      rfl

end FileChecker

end Check

end LintRunner
