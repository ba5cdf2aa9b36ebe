import LintRunner.Proofs.OpenedFiles
import LintRunner.Proofs.PerFileGuides
import LintRunner.Proofs.PlaceOrder
import Mathlib.Algebra.Ring.Nat

/-!
# What style guides do with a finding

A finding is reported when the guide of its file selects its code and no comment on its line
suppresses it. Guides remember decisions and count what was reported, and neither changes which
findings they report.
-/

namespace LintRunner

open Stateful

namespace Finding

variable {f : Finding} {file code : String}

/-- A finding as checks tell it: its code is a text, its place a pair of integers, and the line it is
shown with, if there is one, a text. -/
structure Regular (f : Finding) : Prop where
  code : ∃ code, f.code = .text code
  place : f.HasIntegerPlace
  source : f.source = .none ∨ ∃ line, f.source = .text line

theorem regular_plain (code : String) (line column : Int) (text : String)
    (source : Option String) : (plain code line column text source).Regular := by
  refine ⟨⟨code, rfl⟩, ⟨line, column, rfl, rfl⟩, ?_⟩
  cases source with
  | none => exact .inl rfl
  | some shown => exact .inr ⟨shown, rfl⟩

def reportedIn (f : Finding) (file : String) : Violation :=
  ⟨f.code, .text file, f.line, .int (f.place.2 + 1), f.text, f.source⟩

theorem violation_eq (h : f.HasIntegerPlace) (file : String) :
    f.violation (.text file) = .ok (f.reportedIn file) := by
  have hcolumn := h.eq.2
  have hnext : (if f.column.truthy then f.column else .int 0).plus 1 =
      .ok (.int (f.place.2 + 1)) := by
    rw [hcolumn]
    by_cases hzero : f.place.2 = 0
    · rw [hzero]
      rfl
    · have htruthy : (Value.int f.place.2).truthy = true := by simpa [Value.truthy] using hzero
      rw [if_pos htruthy]
      rfl
  rw [violation, hnext]
  rfl

def shownLine (f : Finding) (w : World) (file : String) : String :=
  match f.source with
  | .text line => line
  | _ => (w.lineOf (.text file) f.line).toOption.getD ""

end Finding

theorem World.lineOf_ok {file : String} (hfile : '\x00' ∉ file.toList) (w : World) (n : Int) :
    ∃ line, w.lineOf (.text file) (.int n) = .ok line := by
  have hlines : ∃ lines, w.sourceLines file = .ok lines := by
    unfold sourceLines
    split
    · exact ⟨_, rfl⟩
    · rw [if_neg (by simpa using hfile)]
      cases w.tree.read file with
      | error e => exact ⟨_, rfl⟩
      | ok bytes => exact ⟨_, rfl⟩
  obtain ⟨lines, hlines⟩ := hlines
  have hbetween : ∃ b, (Value.int n).isBetween 1 lines.length = .ok b := ⟨_, rfl⟩
  obtain ⟨b, hbetween⟩ := hbetween
  have hkey : (Value.text file).asKey = .ok (.text file) := rfl
  unfold lineOf
  rw [hkey]
  dsimp only [bind, Except.bind]
  rw [hlines]
  dsimp only
  rw [hbetween]
  cases b with
  | true => exact ⟨_, rfl⟩
  | false => exact ⟨_, rfl⟩

namespace Violation

variable {v : Violation} {lookup : Value → Value → Except Fault String} {line code : String}

theorem suppressed_text (hcode : v.code = .text code) (hsource : v.source = .text line) :
    v.suppressed lookup = .ok (Suppression.lineSuppresses line code) := by
  unfold suppressed Suppression.lineSuppresses
  rw [hcode, hsource]
  dsimp only [Value.asText, bind, Except.bind]
  cases Suppression.mark? line with
  | none => rfl
  | some mark =>
    obtain ⟨start, stop, codes⟩ := mark
    cases codes <;> rfl

theorem suppressed_none (hsource : v.source = .none) (hlookup : lookup v.file v.line = .ok line) :
    v.suppressed lookup = ({ v with source := .text line } : Violation).suppressed lookup := by
  unfold suppressed
  rw [hsource]
  dsimp only
  rw [hlookup]
  rfl

end Violation

theorem Finding.Regular.suppressed_eq {f : Finding} (h : f.Regular) {file code : String}
    (hfile : '\x00' ∉ file.toList) (hcode : f.code = .text code) (w : World) :
    (f.reportedIn file).suppressed w.lineOf =
      .ok (Suppression.lineSuppresses (f.shownLine w file) code) := by
  rcases h.source with hnone | ⟨line, hsource⟩
  · obtain ⟨line, hline⟩ := World.lineOf_ok hfile w f.place.1
    rw [← h.place.eq.1] at hline
    have hshown : f.shownLine w file = line := by
      rw [shownLine, hnone, hline]
      rfl
    rw [hshown, Violation.suppressed_none hnone hline]
    exact Violation.suppressed_text hcode rfl
  · have hshown : f.shownLine w file = line := by rw [shownLine, hsource]
    rw [hshown]
    exact Violation.suppressed_text hcode hsource

theorem Statistics.sum_recordIn (v : Violation) (entries : List Statistic) :
    ((recordIn v entries).map (·.count)).sum = (entries.map (·.count)).sum + 1 := by
  induction entries with
  | nil => rfl
  | cons s rest ih =>
    rw [recordIn]
    split
    · simp only [List.map_cons, List.sum_cons]
      omega
    · simp only [List.map_cons, List.sum_cons, ih]
      omega

namespace StyleGuide

variable {g : StyleGuide} {f : Finding} {file : String}

def counted (g : StyleGuide) : Nat := (g.stats.entries.map (·.count)).sum

def standing (g : StyleGuide) : Option String × Policy × Bool :=
  (g.pattern, g.decider.policy, g.disableNoqa)

/-- The guide remembers its own decisions, and no lines of a diff are set. -/
structure Ready (g : StyleGuide) : Prop where
  truthful : g.decider.Truthful
  unfiltered : g.filter = .dict []

/-- The guide reports a finding: its code is selected, and no comment on its line suppresses it unless
such comments are passed over. -/
def reports (g : StyleGuide) (w : World) (file : String) (f : Finding) : Bool :=
  match f.code with
  | .text code =>
    (g.decider.policy.decide code).toOption = some .selected &&
      (g.disableNoqa || !Suppression.lineSuppresses (f.shownLine w file) code)
  | _ => false

theorem reports_congr {g' : StyleGuide} (h : g'.standing = g.standing) :
    g'.reports = g.reports := by
  simp only [standing, Prod.mk.injEq] at h
  obtain ⟨-, hpolicy, hnoqa⟩ := h
  funext w file f
  rw [reports, reports, hpolicy, hnoqa]

theorem reports_eq {code : String} (hcode : f.code = .text code)
    (hp : g.decider.policy.NoEmptyEntry) (w : World) (file : String) :
    g.reports w file f = (decide (g.decider.policy.Selects code) &&
      (g.disableNoqa || !Suppression.lineSuppresses (f.shownLine w file) code)) := by
  rw [reports, hcode]
  dsimp only
  rw [Policy.decide_eq _ hp]
  by_cases hselects : g.decider.policy.Selects code <;> simp [hselects, Except.toOption]

theorem Ready.judge_eq (hg : g.Ready) (hf : f.Regular) (hfile : '\x00' ∉ file.toList)
    (w : World) :
    ∃ g', g.judge w.lineOf (.text file) f =
        .ok (if g.reports w file f then some (f.reportedIn file) else none, g') ∧
      g'.Ready ∧ g'.standing = g.standing ∧ g'.counted = g.counted := by
  obtain ⟨code, hcode⟩ := hf.code
  obtain ⟨decision, hdecide⟩ := g.decider.policy.decide_isOk code
  obtain ⟨decider, hdecision, hpolicy, htruthful⟩ := decisionFor_text hg.truthful hdecide
  refine ⟨{ g with decider := decider }, ?_, ⟨htruthful, hg.unfiltered⟩, ?_, rfl⟩
  · have hdecided : g.decisionFor (f.reportedIn file).code =
        .ok (decision, { g with decider := decider }) := by
      rw [Finding.reportedIn, hcode]
      exact hdecision
    have hwithin : (f.reportedIn file).within g.filter = .ok true := by
      rw [hg.unfiltered]
      rfl
    have hsuppressed := hf.suppressed_eq hfile hcode w
    have hreports : g.reports w file f = (decision = .selected &&
        (g.disableNoqa || !Suppression.lineSuppresses (f.shownLine w file) code)) := by
      rw [reports, hcode]
      dsimp only
      rw [hdecide]
      simp [Except.toOption]
    unfold judge
    rw [Finding.violation_eq hf.place, hreports]
    dsimp only [bind, Except.bind]
    rw [hdecided]
    dsimp only
    cases hnoqa : g.disableNoqa with
    | true =>
      rw [if_pos rfl]
      dsimp only [pure, Except.pure]
      rw [hwithin]
      simp
    | false =>
      rw [if_neg Bool.false_ne_true, hsuppressed]
      dsimp only
      rw [hwithin]
      simp [pure, Except.pure]
  · rw [standing, standing, hpolicy]

theorem Ready.record_eq (hg : g.Ready) (hf : f.Regular) (file : String) :
    ∃ g', g.record (f.reportedIn file) = .ok g' ∧ g'.Ready ∧ g'.standing = g.standing ∧
      g'.counted = g.counted + 1 := by
  obtain ⟨code, hcode⟩ := hf.code
  have hkeys : ((f.reportedIn file).file.isHashable && (f.reportedIn file).code.isHashable) =
      true := by
    rw [Finding.reportedIn, hcode]
    rfl
  refine ⟨{ g with stats := ⟨Statistics.recordIn (f.reportedIn file) g.stats.entries⟩ }, ?_,
    ⟨hg.truthful, hg.unfiltered⟩, rfl, Statistics.sum_recordIn _ _⟩
  rw [record, Statistics.record, if_pos hkeys]
  rfl

def applies (g : StyleGuide) (cwd file : String) : Bool :=
  match g.pattern with
  | none => true
  | some p => (Discovery.matchesPath cwd [p] file).1

theorem appliesTo_text (g : StyleGuide) (cwd file : String) :
    g.appliesTo cwd (.text file) = .ok (g.applies cwd file) := by
  unfold appliesTo applies
  cases g.pattern <;> rfl

end StyleGuide

/-! ## The guide of a file -/

namespace StyleGuides

variable {gs gs' : StyleGuides} {f : Finding} {file cwd : String} {l : List (Nat × StyleGuide)}
  {i : Nat} {g : StyleGuide}

theorem longest_mem {e : Nat × StyleGuide} (h : longest l = some e) :
    e ∈ l := by
  induction l generalizing e with
  | nil => cases h
  | cons g rest ih =>
    rw [longest] at h
    cases hrest : longest rest with
    | none =>
      rw [hrest] at h
      cases h
      exact List.mem_cons_self
    | some best =>
      rw [hrest] at h
      dsimp only at h
      split at h
      · cases h
        exact List.mem_cons_self
      · cases h
        exact List.mem_cons_of_mem g (ih hrest)

theorem longest_isSome (h : l ≠ []) : ∃ e, longest l = some e := by
  cases l with
  | nil => exact absurd rfl h
  | cons g rest =>
    rw [longest]
    cases longest rest with
    | none => exact ⟨g, rfl⟩
    | some best =>
      dsimp only
      split
      · exact ⟨g, rfl⟩
      · exact ⟨best, rfl⟩

def key (e : Nat × StyleGuide) : Nat × Option String × Policy × Bool := (e.1, e.2.standing)

theorem longest_congr {l' : List (Nat × StyleGuide)} (h : l.map key = l'.map key) :
    (longest l).map key = (longest l').map key := by
  induction l generalizing l' with
  | nil =>
    rw [List.map_nil, eq_comm, List.map_eq_nil_iff] at h
    rw [h]
  | cons g rest ih =>
    cases l' with
    | nil => cases h
    | cons g' rest' =>
      rw [List.map_cons, List.map_cons, List.cons.injEq] at h
      obtain ⟨hfirst, hrest⟩ := h
      have hbest := ih hrest
      have hlength : ∀ a b : Nat × StyleGuide, key a = key b →
          patternLength a.2 = patternLength b.2 := by
        intro a b hab
        have hpattern := congrArg (fun k => k.2.1) hab
        simp only [key, StyleGuide.standing] at hpattern
        rw [patternLength, patternLength, hpattern]
      rw [longest, longest]
      cases hl : longest rest with
      | none =>
        rw [hl, Option.map_none, eq_comm, Option.map_eq_none_iff] at hbest
        rw [hbest]
        exact congrArg some hfirst
      | some best =>
        rw [hl, Option.map_some, eq_comm, Option.map_eq_some_iff] at hbest
        obtain ⟨best', hl', hkeys⟩ := hbest
        rw [hl']
        dsimp only
        rw [hlength g g' hfirst, ← hlength best' best hkeys]
        split
        · exact congrArg some hfirst
        · exact congrArg some hkeys.symm

theorem guideFor_text (gs : StyleGuides) (cwd file : String) :
    gs.guideFor cwd (.text file) =
      match longest (gs.numbered.filter fun e => e.2.applies cwd file) with
      | some e => .ok e
      | none => .error Fault.badIndex := by
  have happlies : (gs.numbered.filterM fun e => e.2.appliesTo cwd (.text file)) =
      .ok (gs.numbered.filter fun e => e.2.applies cwd file) := by
    have hkept := filterM_map_ok (f := id) (g := fun e => e.2.appliesTo cwd (.text file))
      (l := gs.numbered) fun e _ => StyleGuide.appliesTo_text e.2 cwd file
    simpa using hkept
  unfold guideFor
  rw [happlies]
  dsimp only [bind, Except.bind]
  cases longest (gs.numbered.filter fun e => e.2.applies cwd file) <;> rfl

theorem getElem?_of_mem_numbered (h : (i, g) ∈ gs.numbered) :
    gs.guides[i]? = some g := by
  obtain ⟨k, hk, hget⟩ := List.getElem_of_mem h
  simp only [numbered, List.getElem_zip, List.getElem_range, Prod.mk.injEq] at hget
  obtain ⟨rfl, rfl⟩ := hget
  exact List.getElem?_eq_getElem _

/-- The guides are as they are made and used: the first one applies to all files. -/
structure Sound (gs : StyleGuides) : Prop where
  general : ∃ first rest, gs.guides = first :: rest ∧ first.pattern = none
  ready : ∀ g ∈ gs.guides, g.Ready

theorem sound_ofSettings {s : Settings} {formatter : Option Formatter}
    (h : ofSettings cwd s formatter = .ok gs) : gs.Sound := by
  obtain ⟨p, pairs, -, -, rfl⟩ := ofSettings_ok h
  refine ⟨⟨_, _, rfl, rfl⟩, ?_⟩
  intro g hg
  rcases List.mem_cons.mp hg with rfl | hg
  · exact ⟨Decider.truthful_new p, rfl⟩
  · obtain ⟨pair, -, rfl⟩ := List.mem_map.mp hg
    exact ⟨Decider.truthful_new _, rfl⟩

theorem Sound.guideFor_ok (h : gs.Sound) (cwd file : String) :
    ∃ i g, gs.guideFor cwd (.text file) = .ok (i, g) ∧ gs.guides[i]? = some g := by
  obtain ⟨first, rest, hguides, hpattern⟩ := h.general
  have hnonempty : gs.numbered.filter (fun e => e.2.applies cwd file) ≠ [] := by
    have hnumbered : (0, first) ∈ gs.numbered := by
      rw [numbered, hguides, List.length_cons, List.range_succ_eq_map]
      exact List.mem_cons_self
    apply List.ne_nil_of_mem
    refine List.mem_filter.mpr ⟨hnumbered, ?_⟩
    rw [StyleGuide.applies, hpattern]
  obtain ⟨⟨i, g⟩, hlongest⟩ := longest_isSome hnonempty
  refine ⟨i, g, ?_, getElem?_of_mem_numbered (List.mem_filter.mp (longest_mem hlongest)).1⟩
  rw [guideFor_text, hlongest]

def standing (gs : StyleGuides) : List (Option String × Policy × Bool) :=
  gs.guides.map StyleGuide.standing

theorem map_key_numbered (gs : StyleGuides) :
    gs.numbered.map key = (List.range gs.standing.length).zip gs.standing := by
  rw [numbered, standing, List.length_map, List.zip_map_right]
  rfl

/-- Which guide counts for a file depends on what the guides never change. -/
theorem guideFor_congr (h : gs'.standing = gs.standing) (cwd file : String) :
    (gs'.guideFor cwd (.text file)).map key = (gs.guideFor cwd (.text file)).map key := by
  have happlies : ∀ l : List (Nat × StyleGuide),
      (l.filter fun e => e.2.applies cwd file).map key =
        (l.map key).filter fun k =>
          (match k.2.1 with
          | none => true
          | some p => (Discovery.matchesPath cwd [p] file).1) := by
    intro l
    rw [List.filter_map]
    rfl
  have hkeys : (gs'.numbered.filter fun e => e.2.applies cwd file).map key =
      (gs.numbered.filter fun e => e.2.applies cwd file).map key := by
    rw [happlies, happlies, map_key_numbered, map_key_numbered, h]
  have hlongest := longest_congr hkeys
  rw [guideFor_text, guideFor_text]
  cases hl : longest (gs.numbered.filter fun e => e.2.applies cwd file) with
  | none =>
    rw [hl, Option.map_none, Option.map_eq_none_iff] at hlongest
    rw [hlongest]
  | some e =>
    rw [hl, Option.map_some, Option.map_eq_some_iff] at hlongest
    obtain ⟨e', hl', hkey⟩ := hlongest
    rw [hl']
    exact congrArg Except.ok hkey

/-- The guide of the file reports the finding. -/
def reports (gs : StyleGuides) (w : World) (file : String) (f : Finding) : Bool :=
  match gs.guideFor w.tree.cwd (.text file) with
  | .ok (_, g) => g.reports w file f
  | .error _ => false

theorem Sound.reports_eq (h : gs.Sound) {w : World}
    (hi : (gs.guideFor w.tree.cwd (.text file)).toOption.map (·.1) = some i)
    (hg : gs.guides[i]? = some g) : gs.reports w file = g.reports w file := by
  obtain ⟨j, g', hguide, hg'⟩ := h.guideFor_ok w.tree.cwd file
  rw [hguide] at hi
  obtain rfl : j = i := Option.some.inj hi
  obtain rfl : g' = g := Option.some.inj (hg'.symm.trans hg)
  funext f
  rw [reports, hguide]

theorem reports_congr (h : gs'.standing = gs.standing) : gs'.reports = gs.reports := by
  funext w file f
  have hguide := guideFor_congr h w.tree.cwd file
  unfold reports
  cases hgs : gs.guideFor w.tree.cwd (.text file) with
  | error e =>
    rw [hgs] at hguide
    cases hgs' : gs'.guideFor w.tree.cwd (.text file) with
    | error e' => rfl
    | ok e' =>
      rw [hgs'] at hguide
      cases hguide
  | ok e =>
    rw [hgs] at hguide
    cases hgs' : gs'.guideFor w.tree.cwd (.text file) with
    | error e' =>
      rw [hgs'] at hguide
      cases hguide
    | ok e' =>
      rw [hgs'] at hguide
      have hkey : key e' = key e := Except.ok.inj hguide
      exact congrFun (congrFun (congrFun
        (StyleGuide.reports_congr (congrArg Prod.snd hkey)) w) file) f

/-- How many violations the guides have counted. -/
def counted (gs : StyleGuides) : Nat := (gs.guides.map StyleGuide.counted).sum

/-- The guides after work that reported `n` findings: they report what they reported before, and they
have counted `n` violations more. -/
structure After (gs : StyleGuides) (n : Nat) (gs' : StyleGuides) : Prop where
  sound : gs'.Sound
  standing : gs'.standing = gs.standing
  counted : gs'.counted = gs.counted + n

theorem After.trans {gs'' : StyleGuides} {m n : Nat} (h : gs.After m gs') (h' : gs'.After n gs'') :
    gs.After (m + n) gs'' := by
  refine ⟨h'.sound, h'.standing.trans h.standing, ?_⟩
  rw [h'.counted, h.counted, Nat.add_assoc]

theorem Sound.after_setGuide (h : gs.Sound) {n : Nat} {g' : StyleGuide}
    (hg : gs.guides[i]? = some g) (hready : g'.Ready) (hstanding : g'.standing = g.standing)
    (hcounted : g'.counted = g.counted + n) : gs.After n (gs.setGuide i g') := by
  obtain ⟨hi, hget⟩ := List.getElem?_eq_some_iff.mp hg
  have hset : ∀ x, gs.guides.set i x = gs.guides.take i ++ x :: gs.guides.drop (i + 1) := by
    intro x
    rw [List.set_eq_take_append_cons_drop, if_pos hi]
  have hold : gs.guides = gs.guides.take i ++ g :: gs.guides.drop (i + 1) := by
    rw [← hset, ← hget, List.set_getElem_self]
  refine ⟨⟨?_, ?_⟩, ?_, ?_⟩
  · obtain ⟨first, rest, hguides, hpattern⟩ := h.general
    cases i with
    | zero =>
      have hfirst : first = g := by simpa [hguides] using hg
      refine ⟨g', rest, ?_, ?_⟩
      · rw [setGuide, hguides, List.set_cons_zero]
      · have hsame := congrArg Prod.fst hstanding
        exact hsame.trans (hfirst ▸ hpattern)
    | succ i => exact ⟨first, rest.set i g', by rw [setGuide, hguides, List.set_cons_succ], hpattern⟩
  · intro other hother
    rcases List.mem_or_eq_of_mem_set hother with hold | rfl
    · exact h.ready other hold
    · exact hready
  · rw [StyleGuides.standing, StyleGuides.standing, setGuide, hset]
    conv_rhs => rw [hold]
    simp only [List.map_append, List.map_cons, hstanding]
  · rw [StyleGuides.counted, StyleGuides.counted, setGuide, hset]
    conv_rhs => rw [hold]
    simp only [List.map_append, List.map_cons, List.sum_append, List.sum_cons, hcounted]
    omega

variable {fm fm' : Formatter} {w w' : World}

/-- What follows once the guide at a position has judged a finding. -/
def settle (gs : StyleGuides) (i : Nat) (g : StyleGuide) :
    Option Violation → Run (Nat × StyleGuides)
  | none => return (0, gs.setGuide i g)
  | some v => do
    let formatter ← (← gs.getFormatter).handle v
    let g ← Run.lift (g.record v)
    return (1, { gs.setGuide i g with formatter := some formatter })

theorem run_handle {i : Nat} {g g' : StyleGuide} {v? : Option Violation}
    (hguide : gs.guideFor w.tree.cwd (.text file) = .ok (i, g)) (hg : gs.guides[i]? = some g)
    (hjudge : g.judge w.lineOf (.text file) f = .ok (v?, g')) :
    (gs.handle (.text file) f).run w = (gs.settle i g' v?).run w := by
  unfold handle
  rw [run_get_bind, run_bind, Run.run_lift, hguide]
  dsimp only
  unfold handleBy
  rw [hg]
  dsimp only
  rw [run_get_bind, run_bind, Run.run_lift, hjudge]
  cases v? <;> rfl

theorem Sound.handle_passes (h : gs.Sound) (hf : f.Regular) (hfile : '\x00' ∉ file.toList)
    (hreports : gs.reports w file f = false) :
    ∃ gs', (gs.handle (.text file) f).run w = (.ok (0, gs'), w) ∧ gs.After 0 gs' ∧
      gs'.formatter = gs.formatter := by
  obtain ⟨i, g, hguide, hg⟩ := h.guideFor_ok w.tree.cwd file
  obtain ⟨g', hjudge, hready, hstanding, hcounted⟩ :=
    (h.ready g (List.mem_of_getElem? hg)).judge_eq hf hfile w
  rw [reports, hguide] at hreports
  dsimp only at hreports
  refine ⟨gs.setGuide i g', ?_, h.after_setGuide hg hready hstanding hcounted, rfl⟩
  rw [run_handle hguide hg hjudge, hreports]
  rfl

theorem Sound.handle_reports (h : gs.Sound) (hf : f.Regular) (hfile : '\x00' ∉ file.toList)
    (hreports : gs.reports w file f = true) (hfm : gs.formatter = some fm)
    (hhandle : (fm.handle (f.reportedIn file)).run w = (.ok fm', w')) :
    ∃ gs', (gs.handle (.text file) f).run w = (.ok (1, gs'), w') ∧ gs.After 1 gs' ∧
      gs'.formatter = some fm' := by
  obtain ⟨i, g, hguide, hg⟩ := h.guideFor_ok w.tree.cwd file
  obtain ⟨g', hjudge, hready, hstanding, hcounted⟩ :=
    (h.ready g (List.mem_of_getElem? hg)).judge_eq hf hfile w
  obtain ⟨g'', hrecord, hready', hstanding', hcounted'⟩ := hready.record_eq hf file
  rw [reports, hguide] at hreports
  dsimp only at hreports
  have hafter := h.after_setGuide hg hready' (hstanding'.trans hstanding)
    (hcounted'.trans (by rw [hcounted]))
  refine ⟨{ gs.setGuide i g'' with formatter := some fm' }, ?_,
    ⟨⟨hafter.sound.general, hafter.sound.ready⟩, hafter.standing, hafter.counted⟩, rfl⟩
  rw [run_handle hguide hg hjudge, hreports, if_pos rfl, settle, getFormatter, hfm]
  dsimp only
  rw [pure_bind, run_bind, hhandle]
  dsimp only
  rw [run_bind, Run.run_lift, hrecord]
  rfl

end StyleGuides

end LintRunner
