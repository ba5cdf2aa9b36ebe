import LintRunner.Proofs.CheckedLines
import LintRunner.Proofs.LogicalPlaces
import LintRunner.Proofs.PipedSource
import LintRunner.Proofs.TokenRows

/-!
# Physical lines in step with the file

Checking the tokens of a file that can be cut into tokens is a run of steps that is known from its
lines. So are the calls of the checks of physical lines among them. They are made for each line of
the file once, in order, whole and under its own number, if and only if the tokens keep step with
the lines.
-/

namespace LintRunner.Check

open Stateful
open Source (Token TokenizerState Processor Ruled)

variable {lines : List String} {tokens : List Token} {t : Token}

theorem feedLast_linesAfterFeed (cs : List Char) :
    ∀ line ∈ Text.linesAfterFeed cs, Text.FeedLast line := by
  fun_induction Text.linesAfterFeed cs with
  | case1 => exact List.forall_mem_nil _
  | case2 cs ih => exact List.forall_mem_cons.mpr ⟨List.not_mem_nil, ih⟩
  | case3 c cs hc ih =>
    cases hlines : Text.linesAfterFeed cs with
    | nil => exact List.forall_mem_singleton.mpr List.not_mem_nil
    | cons line rest =>
      rw [hlines] at ih
      obtain ⟨hline, hrest⟩ := List.forall_mem_cons.mp ih
      refine List.forall_mem_cons.mpr ⟨?_, hrest⟩
      cases line with
      | nil => exact List.not_mem_nil
      | cons d line =>
        rw [Text.FeedLast, List.dropLast_cons_cons, List.mem_cons, not_or]
        exact ⟨fun heq => hc heq.symm, hline⟩

theorem ended_linesAfterFeed (cs : List Char) :
    ∀ line ∈ (Text.linesAfterFeed cs).dropLast, '\n' ∈ line := by
  fun_induction Text.linesAfterFeed cs with
  | case1 => exact List.forall_mem_nil _
  | case2 cs ih =>
    cases hlines : Text.linesAfterFeed cs with
    | nil => exact List.forall_mem_nil _
    | cons line rest =>
      rw [hlines] at ih
      rw [List.dropLast_cons_cons]
      exact List.forall_mem_cons.mpr ⟨List.mem_cons_self, ih⟩
  | case3 c cs hc ih =>
    rcases hlines : Text.linesAfterFeed cs with _ | ⟨line, _ | ⟨next, rest⟩⟩
    · exact List.forall_mem_nil _
    · exact List.forall_mem_nil _
    · rw [hlines, List.dropLast_cons_cons] at ih
      obtain ⟨hline, hrest⟩ := List.forall_mem_cons.mp ih
      rw [Text.consToFirst, List.dropLast_cons_cons]
      exact List.forall_mem_cons.mpr ⟨List.mem_cons_of_mem c hline, hrest⟩

theorem ruled_fileLines (bytes : List UInt8) : Ruled (Source.fileLines bytes) := by
  constructor
  · rintro line hline
    obtain ⟨cs, hcs, rfl⟩ := List.mem_map.mp hline
    rw [String.toList_ofList]
    exact feedLast_linesAfterFeed _ cs hcs
  · rw [Source.fileLines, ← List.map_dropLast]
    intro line hline
    obtain ⟨cs, hcs, rfl⟩ := List.mem_map.mp hline
    rw [String.toList_ofList]
    exact ended_linesAfterFeed _ cs hcs

theorem ruled_of_drop {first : String} {rest : List String} (mark : List Char)
    {kept : List Char} (hfirst : first.toList = mark ++ kept) (hmark : '\n' ∉ mark)
    (h : Ruled (first :: rest)) : Ruled (String.ofList kept :: rest) := by
  obtain ⟨hline, hrest⟩ := List.forall_mem_cons.mp h.feedLast
  refine ⟨List.forall_mem_cons.mpr ⟨?_, hrest⟩, ?_⟩
  · rw [String.toList_ofList]
    rw [hfirst] at hline
    cases kept with
    | nil => exact List.not_mem_nil
    | cons c kept =>
      rw [Text.FeedLast, List.dropLast_append_cons, List.mem_append, not_or] at hline
      exact hline.2
  · have hended := h.ended
    cases rest with
    | nil => exact List.forall_mem_nil _
    | cons second rest =>
      rw [List.dropLast_cons_cons] at hended ⊢
      obtain ⟨hline, hrest⟩ := List.forall_mem_cons.mp hended
      refine List.forall_mem_cons.mpr ⟨?_, hrest⟩
      rw [hfirst] at hline
      rw [String.toList_ofList]
      exact (List.mem_append.mp hline).resolve_left hmark

theorem ruled_withoutMark {kept : List String} (h : Ruled lines)
    (hkept : Processor.withoutMark lines = .ok kept) : Ruled kept := by
  unfold Processor.withoutMark at hkept
  split at hkept
  · cases hkept
    exact h
  · rename_i first rest
    split at hkept
    · cases hkept
    · rename_i c cs hfirst
      split at hkept
      · rename_i hc
        cases hkept
        refine ruled_of_drop [c] hfirst ?_ h
        intro hmem
        rw [← List.mem_singleton.mp hmem] at hc
        cases hc
      · rcases cs with _ | ⟨b, _ | ⟨d, after⟩⟩ <;> dsimp only at hkept
        · cases hkept
          exact h
        · cases hkept
          exact h
        · split at hkept
          · rename_i hmark
            cases hkept
            refine ruled_of_drop [c, b, d] hfirst ?_ h
            intro hmem
            simp only [Bool.and_eq_true, decide_eq_true_iff] at hmark
            simp only [List.mem_cons, List.not_mem_nil, or_false] at hmem
            obtain ⟨⟨hc, hb⟩, hd⟩ := hmark
            rcases hmem with rfl | rfl | rfl
            · cases hc
            · cases hb
            · cases hd
          · cases hkept
            exact h

/-- A file that is opened by its path has lines with line feeds at their ends only, and reading has
not begun. -/
theorem FileChecker.make_ruled {s : Settings} {checks : Checks} {f : String} (hf : f ≠ "-")
    {w w' : World} {c : FileChecker} {p : Processor}
    (h : FileChecker.make s checks (.text f) w = (.ok c, w')) (hp : c.processor = some p) :
    Ruled p.lines ∧ p.lineNumber = 0 ∧ p.multiline = false ∧ p.tokens = [] := by
  have hread : ∀ name lines, (readLines s (.text f) w).1 = .ok (name, lines) → Ruled lines := by
    intro name lines hlines
    unfold readLines at hlines
    dsimp only at hlines
    split at hlines
    · contradiction
    · rename_i heq
      cases heq
      contradiction
    · split at hlines <;> cases hlines
      exact ruled_fileLines _
  have hopen : ∀ p, (openFile s (.text f) none w).1 = .ok p →
      Ruled p.lines ∧ p.lineNumber = 0 ∧ p.multiline = false ∧ p.tokens = [] := by
    intro p hp
    unfold openFile at hp
    dsimp only at hp
    rcases hlines : (readLines s (.text f) w).1 with e | ⟨name, lines⟩ <;> rw [hlines] at hp
    · cases hp
    · simp only [bind, Except.bind, pure, Except.pure] at hp
      split at hp
      · cases hp
      · rename_i kept hkept
        repeat' split at hp
        all_goals cases hp
        exact ⟨ruled_withoutMark (hread name lines hlines) hkept, rfl, rfl, rfl⟩
  unfold make at h
  dsimp only at h
  split at h
  · rename_i q w₁ hq
    cases h
    obtain rfl : q = p := Option.some.inj hp
    exact hopen q (by rw [hq])
  · split at h <;> cases h
    cases hp

def Event.token? : Event → Option Token
  | token t => some t
  | _ => none

theorem token?_tokens (tokens : List Token) (more : List Event) :
    (tokens.map Event.token ++ more).filterMap Event.token? =
      tokens ++ more.filterMap Event.token? := by
  rw [List.filterMap_append, List.filterMap_map]
  exact congrArg (· ++ _) List.filterMap_some

theorem token?_eventsFrom (fuel : Nat) {k : Nat} {st : TokenizerState} {more : List Token}
    (hk : k ≤ lines.length) (hfuel : lines.length < fuel + k)
    (h : Source.tokenizeFrom st (lines.drop k) = .ok more) :
    (eventsFrom TokenizerState.feed lines fuel k st).filterMap Event.token? = more ∧
      ∀ why, .fault why ∉ eventsFrom TokenizerState.feed lines fuel k st := by
  induction fuel generalizing k st more with
  | zero => omega
  | succ fuel ih =>
    rw [eventsFrom]
    rcases Source.tokenizeFrom_ok hk h with ⟨hfinished, rfl⟩ | ⟨hgoes, tokens, st', hfeed, hmore⟩
    · rw [if_pos hfinished]
      exact ⟨rfl, fun _ => List.not_mem_nil⟩
    rw [if_neg (Bool.eq_false_iff.mp hgoes), hfeed]
    dsimp only
    rcases hmore with ⟨hlt, later, hlater, rfl⟩ | ⟨rfl, rfl⟩
    · obtain ⟨htokens, hsound⟩ := ih hlt (by omega) hlater
      refine ⟨(token?_tokens tokens _).trans (by rw [htokens]), fun why => ?_⟩
      simp [hsound why]
    · rw [List.getD_eq_default _ _ (Nat.le_refl _)] at hfeed
      obtain ⟨-, -, -, hends⟩ := TokenizerState.feed_empty hfeed
      have hover : eventsFrom TokenizerState.feed lines fuel (lines.length + 1) st' = [] := by
        cases fuel with
        | zero => rfl
        | succ fuel => rw [eventsFrom, if_pos hends.finished]
      rw [hover]
      refine ⟨(token?_tokens more []).trans (List.append_nil _), fun why => ?_⟩
      simp

theorem token?_takeWhile (n : Nat) (happened : List Event) :
    (happened.takeWhile (Event.within n)).filterMap Event.token? =
      (happened.filterMap Event.token?).takeWhile (Token.within n) := by
  induction happened with
  | nil => rfl
  | cons event rest ih =>
    cases event with
    | line k => exact ih
    | fault why => exact ih
    | token t =>
      change _ = (t :: rest.filterMap Event.token?).takeWhile (Token.within n)
      rw [List.takeWhile_cons, List.takeWhile_cons, ← ih]
      have hwithin : Event.within n (.token t) = Token.within n t := rfl
      rw [hwithin]
      split <;> rfl

theorem token?_events (h : Source.tokenize lines = .ok tokens) :
    (events TokenizerState.feed lines).filterMap Event.token? =
        tokens.takeWhile (Token.within lines.length) ∧
      ∀ why, .fault why ∉ events TokenizerState.feed lines := by
  obtain ⟨htokens, hsound⟩ := token?_eventsFrom (FileChecker.feedBound lines.length)
    (Nat.zero_le _) (by unfold FileChecker.feedBound; omega) h
  refine ⟨?_, fun why hwhy => hsound why ((List.takeWhile_prefix _).subset hwhy)⟩
  rw [events, token?_takeWhile, htokens]

theorem foldl_moved (n : Nat) (happened : List Event) (place : Int) :
    happened.foldl (Event.moved n) place = (happened.filterMap Event.index?).foldl
      (fun _ k => ((min (k + 1) n : Nat) : Int)) place := by
  induction happened generalizing place with
  | nil => rfl
  | cons event rest ih => cases event <;> exact ih _

theorem moved_events (hlines : Ruled lines)
    (h : ∀ why, .fault why ∉ events TokenizerState.feed lines) :
    (events TokenizerState.feed lines).foldl (Event.moved lines.length) 0 = lines.length := by
  obtain ⟨m, hindices, hall⟩ := indices_eventsFrom (Source.punctual_feed hlines) .start
    (FileChecker.feedBound lines.length)
  have hlength : lines.length ≤ m := by
    have := hall h
    unfold FileChecker.feedBound at this
    omega
  rw [foldl_moved, events, hindices, ← List.range_eq_range']
  cases m with
  | zero =>
    rw [Nat.le_zero.mp hlength]
    rfl
  | succ m =>
    rw [List.range_succ, List.foldl_concat]
    omega

/-! ## The steps -/

/-- The call of the checks of physical lines, if the act is one. -/
def Act.call? : Act → Option LineCall
  | call made => some made
  | _ => none

theorem call?_acts {happened : List Event} (h : ∀ why, .fault why ∉ happened) (depth : Int) :
    (acts depth happened).filterMap Act.call? =
      (happened.filterMap Event.token?).flatMap lineCalls := by
  have hsettling : ∀ depth t, (settling depth t).filterMap Act.call? = [] := by
    intro depth t
    unfold settling
    split <;> rfl
  induction happened generalizing depth with
  | nil => rfl
  | cons event rest ih =>
    have hrest := ih fun why hwhy => h why (List.mem_cons_of_mem _ hwhy)
    cases event with
    | line k => exact hrest depth
    | fault why => exact absurd List.mem_cons_self (h why)
    | token t =>
      change ((lineCalls t).map Act.call ++ (settling depth t ++
        acts (depthAfter depth t) rest)).filterMap Act.call? = lineCalls t ++ _
      rw [List.filterMap_append, List.filterMap_append, hsettling, List.nil_append, hrest,
        List.filterMap_map]
      exact congrArg (· ++ _) List.filterMap_some

namespace FileChecker

variable {c d : FileChecker} {hand : List Token}

def held (c : FileChecker) : Option (List Token × List String) :=
  c.processor.map fun p => (p.tokens, p.lines)

theorem held_eq {c : FileChecker} {p : Processor} (hp : c.processor = some p) :
    c.held = some (p.tokens, p.lines) := by
  rw [held, hp]
  rfl

theorem exists_of_held_eq {c : FileChecker} {tokens : List Token} {lines : List String}
    (h : c.held = some (tokens, lines)) :
    ∃ p, c.processor = some p ∧ p.tokens = tokens ∧ p.lines = lines := by
  obtain ⟨p, hp, heq⟩ := Option.map_eq_some_iff.mp h
  exact ⟨p, hp, congrArg Prod.fst heq, congrArg Prod.snd heq⟩

theorem held_steady (c : FileChecker) : c.steady.held = c.held := by
  unfold held steady
  rw [Option.map_map]
  rfl

theorem keeps_held {α : Type} {x : Checking α} (h : Keeps steady x) : Keeps held x := by
  intro c
  rw [← held_steady, h c, held_steady]

theorem held_nextLine {p q : Processor} {line : String} (h : p.nextLine = .ok (line, q)) :
    q.tokens = p.tokens ∧ q.lines = p.lines := by
  unfold Processor.nextLine at h
  split at h
  · cases h
    exact ⟨rfl, rfl⟩
  · split at h <;> cases h
    exact ⟨rfl, rfl⟩

theorem held_setProcessor {c : FileChecker} {p q : Processor} (hp : c.processor = some p)
    (htokens : q.tokens = p.tokens) (hlines : q.lines = p.lines) :
    { c with processor := some q }.held = c.held := by
  rw [held_eq rfl, held_eq hp, htokens, hlines]

/-- Running the checks of logical lines either finds nothing but layout and leaves the tokens at
hand, or clears them, unless it fails. -/
theorem runLogicalChecks_ok_held {c c' : FileChecker} {p : Processor} (hp : c.processor = some p)
    (hrun : runLogicalChecks.run c = (.ok (), c')) :
    ∃ parts, p.logicalTokens = .ok parts ∧
      (parts.mapping = [] ∧ c'.held = c.held ∨
        parts.mapping ≠ [] ∧ c'.held = some ([], p.lines)) := by
  unfold runLogicalChecks at hrun
  rw [run_bind_of_ok (run_getProcessor hp)] at hrun
  obtain ⟨⟨parts, q⟩, c₁, hbuild, hrun⟩ := run_bind_ok hrun
  rw [run_lift, Prod.mk.injEq] at hbuild
  obtain ⟨hbuild, rfl⟩ := hbuild
  obtain ⟨hparts, hq⟩ := Processor.buildLogicalLine_ok hbuild
  refine ⟨parts, hparts, ?_⟩
  dsimp only at hrun
  rw [run_bind_of_ok (run_setProcessor _ _)] at hrun
  by_cases hempty : parts.mapping = []
  · rw [if_pos (List.isEmpty_iff.mpr hempty)] at hrun
    cases hrun
    exact .inl ⟨hempty, held_setProcessor hp (by rw [hq]) (by rw [hq])⟩
  · rw [if_neg fun hnil => hempty (List.isEmpty_iff.mp hnil)] at hrun
    obtain ⟨r, c₂, hupdate, hrun⟩ := run_bind_ok hrun
    rw [run_lift, Prod.mk.injEq] at hupdate
    obtain ⟨level, before, hr⟩ := Processor.exists_of_updateState_ok hupdate.1
    rw [run_bind_of_ok (run_setProcessor _ _)] at hrun
    obtain ⟨_, c₃, hcall, hrun⟩ := run_bind_ok hrun
    have hkept := keeps_held (keeps_steady (keeps_callLogicalChecks parts))
      { c₂ with processor := some r }
    rw [hcall] at hkept
    obtain ⟨u, hu, -, hlines⟩ := exists_of_held_eq (hkept.trans (held_eq rfl))
    rw [run_bind_of_ok (run_getProcessor hu)] at hrun
    cases hrun
    obtain ⟨_, _, _, hnext⟩ := u.exists_nextLogicalLine_eq
    refine .inr ⟨hempty, ?_⟩
    rw [held_eq rfl, hnext]
    dsimp only
    rw [hlines, hr, hq]

theorem held_of_runLogicalChecks_ok (hc : c.held = some (hand, lines))
    (hrun : runLogicalChecks.run c = (.ok (), d)) :
    d.held = some (if hand.any (!·.isLayout) then [] else hand, lines) := by
  obtain ⟨p, hp, rfl, rfl⟩ := exists_of_held_eq hc
  obtain ⟨parts, hparts, hheld⟩ := runLogicalChecks_ok_held hp hrun
  have hlayout : parts.mapping = [] ↔ p.tokens.any (!·.isLayout) = false := by
    rw [Source.mapping_eq_nil_iff hparts, List.any_eq_false]
    simp
  rcases hheld with ⟨hempty, hkept⟩ | ⟨hline, hcleared⟩
  · rw [hlayout.mp hempty, hkept, held_eq hp]
    rfl
  · rw [Bool.of_not_eq_false fun hnone => hline (hlayout.mpr hnone), hcleared]
    rfl

theorem held_of_handleNewline_ok (hc : c.held = some (hand ++ [t], lines))
    (ht : t.isNewline = true) (hrun : (handleNewline t.kind).run c = (.ok (), d)) :
    d.held = some (handAfter 0 hand t, lines) := by
  rw [handAfter, ht, if_pos (show (decide ((0 : Int) = 0) && true) = true from rfl)]
  unfold handleNewline at hrun
  by_cases hkind : t.kind = .newline
  · rw [if_pos hkind] at hrun
    obtain ⟨_, e, hlogical, hreset⟩ := run_bind_ok hrun
    have hheld := held_of_runLogicalChecks_ok hc hlogical
    obtain ⟨q, hq, -⟩ := exists_of_held_eq hheld
    rw [run_bind_of_ok (run_getProcessor hq)] at hreset
    cases hreset
    rw [hkind]
    exact (held_eq hq).symm.trans hheld
  · have hbreak : t.kind = .lineBreak := by simpa [Token.isNewline, hkind] using ht
    obtain ⟨p, hp, htokens, rfl⟩ := exists_of_held_eq hc
    rw [if_neg hkind, run_bind_of_ok (run_getProcessor hp)] at hrun
    rw [hbreak]
    cases hand with
    | nil =>
      rw [if_pos (by rw [htokens]; rfl), run_bind, run_lift] at hrun
      cases hfirst : p.visitBlankLine.deleteFirstToken with
      | error f =>
        rw [hfirst] at hrun
        cases hrun
      | ok q =>
        rw [hfirst] at hrun
        cases hrun
        unfold Processor.deleteFirstToken at hfirst
        split at hfirst
        · cases hfirst
        · rename_i hcons
          cases hfirst
          rw [held_eq rfl]
          cases hcons.symm.trans htokens
          rfl
    | cons first rest =>
      rw [if_neg (by rw [htokens]; simp)] at hrun
      rw [held_of_runLogicalChecks_ok hc hrun]
      rfl

theorem held_of_settling_ok {depth : Int} (hc : c.held = some (hand ++ [t], lines))
    (hrun : ((settling depth t).forM Act.perform).run c = (.ok (), d)) :
    d.held = some (handAfter depth hand t, lines) := by
  unfold settling at hrun
  split at hrun
  · rename_i hends
    rw [Bool.and_eq_true, decide_eq_true_iff] at hends
    obtain ⟨rfl, ht⟩ := hends
    obtain ⟨_, e, hsettle, hd⟩ := run_bind_ok hrun
    cases hd
    exact held_of_handleNewline_ok hc ht hsettle
  · rename_i hgoes
    cases hrun
    rw [handAfter, if_neg hgoes, hc]

theorem held_of_take_ok (hc : c.held = some (hand, lines))
    (hrun : (Act.take t).perform.run c = (.ok (), d)) :
    d.held = some (hand ++ [t], lines) := by
  obtain ⟨p, hp, rfl, rfl⟩ := exists_of_held_eq hc
  have hcount : Keeps held tallyToken := keeps_tallyToken fun _ _ => rfl
  rw [Act.perform, run_bind_of_ok (run_getProcessor hp),
    run_bind_of_ok (run_setProcessor _ _)] at hrun
  have hkept := hcount { c with processor := some { p with tokens := p.tokens ++ [t] } }
  rw [hrun] at hkept
  exact hkept

theorem keeps_held_perform (call : LineCall) : Keeps held call.perform := by
  refine call.keeps_perform (fun c n inside => ?_) (keeps_held (keeps_steady keeps_runPhysicalChecks))
  rw [placed, held, Option.map_map]
  rfl

theorem held_of_acts_ok {happened : List Event} {depth : Int}
    (hc : c.held = some (hand, lines))
    (hrun : ((acts depth happened).forM Act.perform).run c = (.ok (), d)) :
    d.held = some (handAfterAll depth hand (happened.filterMap Event.token?), lines) := by
  induction happened generalizing c hand depth with
  | nil =>
    cases hrun
    exact hc
  | cons event rest ih =>
    cases event with
    | line k =>
      obtain ⟨p, hp, rfl, rfl⟩ := exists_of_held_eq hc
      obtain ⟨q, hline, hread, -⟩ := exists_run_read hp k
      obtain ⟨htokens, hlines⟩ := held_nextLine hline
      obtain ⟨_, e, hfirst, hrest⟩ := run_bind_ok hrun
      rw [hread] at hfirst
      cases hfirst
      refine ih ?_ hrest
      rw [held_eq rfl, htokens, hlines]
    | token t =>
      rw [run_acts_token] at hrun
      obtain ⟨_, c₁, htake, hrun⟩ := run_bind_ok hrun
      obtain ⟨_, c₂, hcalls, hrun⟩ := run_bind_ok hrun
      obtain ⟨_, c₃, hsettle, hrun⟩ := run_bind_ok hrun
      have hkept : Keeps held ((lineCalls t).forM LineCall.perform) :=
        .forM keeps_held_perform
      have h₂ : c₂.held = c₁.held := by
        have := hkept c₁
        rwa [hcalls] at this
      exact ih (held_of_settling_ok (h₂.trans (held_of_take_ok hc htake)) hsettle) hrun
    | fault why =>
      obtain ⟨_, e, hfail, -⟩ := run_bind_ok hrun
      cases hfail

end FileChecker

def restActs (lines : List String) (left : List Token) : List Act :=
  (restCalls lines left).map .call ++ if left.isEmpty then [] else [.finish]

/-- All that is done for a file, from its lines alone. -/
def schedule (lines : List String) : List Act :=
  acts 0 (events TokenizerState.feed lines) ++
    restActs lines (handAfterAll 0 [] ((events TokenizerState.feed lines).filterMap Event.token?))

theorem keys_schedule (h : Source.tokenize lines = .ok tokens) :
    ((schedule lines).filterMap Act.call?).map LineCall.key =
      checkedLines lines (tokens.takeWhile (Token.within lines.length)) := by
  obtain ⟨htokens, hsound⟩ := token?_events h
  have hrest : ∀ left, (restActs lines left).filterMap Act.call? = restCalls lines left := by
    intro left
    rw [restActs, List.filterMap_append, List.filterMap_map]
    have hfinish : (if left.isEmpty then [] else [Act.finish]).filterMap Act.call? = [] := by
      split <;> rfl
    rw [hfinish, List.append_nil]
    exact List.filterMap_some
  rw [schedule, List.filterMap_append, call?_acts hsound, hrest, htokens, List.map_append,
    List.map_flatMap]
  rfl

namespace FileChecker

variable {c : FileChecker} {p : Processor}

theorem run_processRest {left : List Token} (hheld : c.held = some (left, lines))
    (hcursor : c.cursor = some ((lines.length : Int), false)) (hne : lines = [] → left = []) :
    processRest.run c = ((restActs lines left).forM Act.perform).run c := by
  obtain ⟨p, hp, rfl, rfl⟩ := exists_of_held_eq hheld
  rw [processRest, run_bind_of_ok (run_getProcessor hp), restActs, restCalls]
  by_cases hempty : p.tokens = []
  · rw [hempty]
    rfl
  · have hsome : p.tokens.isEmpty = false := by simpa using hempty
    rw [hsome]
    rcases p.lines.eq_nil_or_concat with hlines | ⟨init, last, hlines⟩
    · exact absurd (hne hlines) hempty
    · have hlast : p.lines.getLast? = some last := by
        rw [hlines, List.concat_eq_append, List.getLast?_concat]
      have hcall := LineCall.run_perform_in_place ⟨p.lines.length, last, .none, false⟩ hcursor
      rw [hlast]
      change (runPhysicalChecks (.text last) .none >>= fun _ => runLogicalChecks).run c =
        (LineCall.perform ⟨p.lines.length, last, .none, false⟩ >>= fun _ =>
          runLogicalChecks >>= fun _ => pure ()).run c
      rw [run_bind, run_bind, hcall, bind_pure]

theorem run_processTokens (hp : c.processor = some p) (hstart : p.lineNumber = 0)
    (houtside : p.multiline = false) (hfresh : p.tokens = []) (hlines : Ruled p.lines)
    (h : Source.tokenize p.lines = .ok tokens) :
    processTokens.run c = ((schedule p.lines).forM Act.perform).run c := by
  obtain ⟨htokens, hsound⟩ := token?_events h
  have hreading : c.reading = some (p.lines, ((min 0 p.lines.length : Nat) : Int), false) := by
    rw [reading_eq hp, hstart, houtside, Nat.zero_min]
    rfl
  rw [processTokens, processTokensBy, run_bind_of_ok (run_getProcessor hp), run_bind,
    run_processLinesBy (Source.punctual_feed hlines) .start hreading, ← run_bind, schedule,
    List.forM_eq_forM, List.forM_append]
  refine run_bind_congr fun _ d hrun => ?_
  change ((acts 0 (events TokenizerState.feed p.lines)).forM Act.perform).run c = _ at hrun
  have hheld := held_of_acts_ok ((held_eq hp).trans (by rw [hfresh])) hrun
  have hcursor := cursor_of_reading_eq (reading_of_acts_ok hreading hrun)
  rw [Nat.zero_min, Int.natCast_zero, moved_events hlines hsound] at hcursor
  refine run_processRest hheld hcursor fun hnil => ?_
  have harranged := Source.arranged_of_tokenize hlines h
  have hnone : tokens.takeWhile (Token.within p.lines.length) = [] := by
    refine List.eq_nil_iff_forall_not_mem.mpr fun t ht => ?_
    have := harranged.rows t ht
    rw [hnil, List.length_nil] at this
    omega
  rw [htokens, hnone]
  rfl

/-- Checking the tokens of a file calls the checks of physical lines for each line of the file once,
in order, whole and under its own number, if and only if the tokens keep step with the lines. -/
theorem processTokens_checks_lines_iff {c : FileChecker} {p : Processor}
    (hp : c.processor = some p) (hstart : p.lineNumber = 0) (houtside : p.multiline = false)
    (hfresh : p.tokens = []) (hlines : Ruled p.lines) {tokens : List Token}
    (h : Source.tokenize p.lines = .ok tokens) :
    processTokens.run c = ((schedule p.lines).forM Act.perform).run c ∧
      (((schedule p.lines).filterMap Act.call?).map LineCall.key = numberLines 1 p.lines ↔
        InStep p.lines (tokens.takeWhile (Token.within p.lines.length))) := by
  have harranged := Source.arranged_of_tokenize hlines h
  refine ⟨run_processTokens hp hstart houtside hfresh hlines h, ?_⟩
  rw [keys_schedule h]
  exact ⟨inStep_of_checkedLines_eq harranged, checkedLines_eq_of_inStep harranged⟩

theorem leadingString_checks_lines :
    ∃ c p tokens, make plainSettings everyLine (.text "a.py") (offering "'''a\nb'''\nx = 1\n") =
        (.ok c, offering "'''a\nb'''\nx = 1\n") ∧
      c.processor = some p ∧ Source.tokenize p.lines = .ok tokens ∧
      processTokens.run c = ((schedule p.lines).forM Act.perform).run c ∧
      InStep p.lines (tokens.takeWhile (Token.within p.lines.length)) := by
  have hlines : ((make plainSettings everyLine (.text "a.py")
      (offering "'''a\nb'''\nx = 1\n")).1.toOption.bind (·.processor)).map (·.lines) =
        some ["'''a\n", "b'''\n", "x = 1\n"] := by decide +kernel
  rcases hmake : make plainSettings everyLine (.text "a.py")
    (offering "'''a\nb'''\nx = 1\n") with ⟨_ | c, w⟩
  · rw [hmake] at hlines
    cases hlines
  rw [hmake] at hlines
  obtain ⟨p, hp, hsource⟩ := Option.map_eq_some_iff.mp hlines
  obtain ⟨hruled, hstart, houtside, hfresh⟩ := make_ruled (by decide) hmake hp
  obtain ⟨rfl, -⟩ := make_text (by decide) hmake
  obtain ⟨tokens, htokens⟩ : ∃ tokens, Source.tokenize p.lines = .ok tokens := by
    rw [hsource]
    exact ⟨_, rfl⟩
  have h := processTokens_checks_lines_iff hp hstart houtside hfresh hruled htokens
  refine ⟨c, p, tokens, rfl, hp, htokens, h.1, h.2.mp ?_⟩
  rw [hsource]
  decide +kernel

def lineTeller : Checker :=
  ⟨"line_teller", .text "X", [("physical_line", true)], fun args =>
    match args.lookup "physical_line" with
    | some (.text line) => ⟨.ok (.results (.lone [.int 0, .text ("X100 " ++ line)])), none⟩
    | _ => ⟨.ok (.results .nothing), none⟩⟩

/-- A string that starts behind something else on its line hides it: of the first line only the part
from the string on is seen. -/
theorem assignedString_checks_part :
    ((make plainSettings { physicalLines := [lineTeller] } (.text "a.py")
        (offering "x = '''a\nb'''\n")).1.toOption.map fun c =>
          (processTokens.run c).2.results.map fun f => (f.line, f.text)) =
      some [(.int 1, .text "'''a\n"), (.int 2, .text "b'''\n")] ∧
    (Source.tokenize ["x = '''a\n", "b'''\n"]).isOk = true := by
  decide +kernel

end FileChecker

end LintRunner.Check
