import LintRunner.Proofs.GuidedFindings
import LintRunner.Proofs.MappingClauses

/-!
# The guide with the longest pattern

A mapping gives codes of their own to the files that match its patterns. These rules stand after one
for all files, which adds no codes. The rule that prevails for a file is the last of those with the
longest pattern among the rules that apply to it. Style guides follow these rules however many
findings they have handled: what they ignore in a file are the codes of the settings and those of
the rule that prevails.
-/

namespace LintRunner

open Stateful

namespace PerFile

theorem next_text_ne_empty {c : Char} {cs : List Char} (h : (next c cs).1.kind = .file) :
    (next c cs).1.text ≠ "" := by
  unfold next at h ⊢
  split_ifs at h ⊢ with hcapital hfile
  · simp
  · revert h
    split
    · simp
    · split <;> simp

theorem text_ne_empty_of_mem_scan {cs : List Char} {t : Token} (h : t ∈ scan cs)
    (hfile : t.kind = .file) : t.text ≠ "" := by
  induction cs using scan.induct with
  | case1 => simp [scan] at h
  | case2 c cs ih =>
    rw [scan, List.mem_cons] at h
    rcases h with rfl | hrest
    · exact next_text_ne_empty hfile
    · exact ih hrest

theorem file_ne_empty_of_parse {s : String} {pairs : List Pair} (h : parse s = .ok pairs) :
    ∀ pair ∈ pairs, pair.1 ≠ "" := by
  intro pair hpair
  by_cases hs : ∃ c ∈ s.toList, Text.isBlank c = false
  · obtain ⟨clauses, hspells, rfl⟩ := (parse_eq_ok_iff hs).mp h
    obtain ⟨clause, hclause, hpair⟩ := List.mem_flatMap.mp hpair
    have hfile : pair.1 ∈ clause.files := by
      unfold Clause.pairs at hpair
      split at hpair
      · cases hpair
      · obtain ⟨file, hfile, rfl⟩ := List.mem_map.mp hpair
        exact hfile
    have htoken : (⟨.file, pair.1⟩ : Token) ∈ essential (tokens s) := by
      rw [hspells.essential_eq]
      refine List.mem_append_left _ (List.mem_flatMap.mpr ⟨clause, hclause, ?_⟩)
      exact List.mem_append_left _ (List.mem_map_of_mem hfile)
    have hscan : (⟨.file, pair.1⟩ : Token) ∈ scan s.toList := by
      simpa [tokens] using (List.mem_filter.mp htoken).1
    exact text_ne_empty_of_mem_scan hscan rfl
  · have hblank : (Text.trim s).isEmpty = true := by
      rw [isEmpty_trim_iff]
      intro c hc
      by_contra hvisible
      exact hs ⟨c, hc, by simpa using hvisible⟩
    rw [parse, if_pos hblank] at h
    cases h
    cases hpair

theorem file_ne_empty_of_read {v : Value} {pairs : List Pair} (h : read v = .ok pairs) :
    ∀ pair ∈ pairs, pair.1 ≠ "" := by
  obtain ⟨s, -, h⟩ := bind_ok h
  cases hparse : parse s with
  | error u =>
    rw [hparse] at h
    cases h
  | ok read =>
    rw [hparse] at h
    cases h
    exact file_ne_empty_of_parse hparse

/-- The codes to ignore in addition where a file matches a pattern, or in all files. -/
structure Rule where
  pattern : Option String
  codes : List String
deriving DecidableEq, Repr

namespace Rule

/-- The pattern matches the last part of the file's name or all of it, seen from the root. -/
def AppliesTo (r : Rule) (cwd file : String) : Prop :=
  ∀ p ∈ r.pattern, Glob.accepts p (Path.baseName file) = true ∨
    Glob.accepts p (Path.absolute cwd file) = true

instance (r : Rule) (cwd file : String) : Decidable (r.AppliesTo cwd file) :=
  match h : r.pattern with
  | none => .isTrue (by simp [AppliesTo, h])
  | some p =>
    decidable_of_iff (Glob.accepts p (Path.baseName file) = true ∨
      Glob.accepts p (Path.absolute cwd file) = true) (by simp [AppliesTo, h])

/-- How long the pattern is; the rule for all files has none. -/
def length (r : Rule) : Nat := (r.pattern.getD "").length

end Rule

def rules (cwd : String) (pairs : List Pair) : List Rule :=
  ⟨none, []⟩ :: pairs.map fun pair => ⟨some (Path.normalized cwd "." pair.1), pair.2⟩

/-- The rule at a position is the one that counts for a file: of the rules that apply, every other
one has a shorter pattern, or one of the same length and stands before it. -/
structure Prevails (rs : List Rule) (cwd file : String) (i : Nat) (r : Rule) : Prop where
  there : rs[i]? = some r
  applies : r.AppliesTo cwd file
  longest : ∀ j other, rs[j]? = some other → other.AppliesTo cwd file →
    other.length < r.length ∨ other.length = r.length ∧ j ≤ i

theorem prevails_iff {rs : List Rule} {cwd file : String} {i : Nat} {r : Rule} :
    Prevails rs cwd file i r ↔ rs[i]? = some r ∧ r.AppliesTo cwd file ∧
      ∀ e ∈ rs.zipIdx, e.1.AppliesTo cwd file →
        e.1.length < r.length ∨ e.1.length = r.length ∧ e.2 ≤ i := by
  constructor
  · rintro ⟨hthere, happlies, hlongest⟩
    exact ⟨hthere, happlies, fun e he => hlongest e.2 e.1 (List.mem_zipIdx_iff_getElem?.mp he)⟩
  · rintro ⟨hthere, happlies, hlongest⟩
    exact ⟨hthere, happlies, fun j other hj =>
      hlongest (other, j) (List.mem_zipIdx_iff_getElem?.mpr hj)⟩

instance (rs : List Rule) (cwd file : String) (i : Nat) (r : Rule) :
    Decidable (Prevails rs cwd file i r) :=
  decidable_of_iff _ prevails_iff.symm

theorem Prevails.unique {rs : List Rule} {cwd file : String} {i j : Nat} {r r' : Rule}
    (h : Prevails rs cwd file i r) (h' : Prevails rs cwd file j r') : i = j ∧ r = r' := by
  obtain rfl : i = j := by
    have hfirst := h.longest j r' h'.there h'.applies
    have hsecond := h'.longest i r h.there h.applies
    omega
  exact ⟨rfl, Option.some.inj (h.there.symm.trans h'.there)⟩

end PerFile

/-! ## Guides that follow rules -/

namespace StyleGuide

variable {g g' : StyleGuide}

theorem standing_forFiles (g : StyleGuide) (cwd : String) {file : String} (h : file ≠ "")
    (codes : List String) :
    (g.forFiles cwd (some file) codes).standing =
      (some (Path.normalized cwd "." file), g.decider.policy.alsoIgnoring codes,
        g.disableNoqa) := by
  unfold forFiles standing
  split
  · next hempty => exact absurd (Option.some.inj hempty) h
  · next hfile =>
      cases hfile
      simp [h]
  · next hnone => cases hnone

theorem applies_iff {r : PerFile.Rule} (h : g.pattern = r.pattern) (cwd file : String) :
    g.applies cwd file = true ↔ r.AppliesTo cwd file := by
  unfold applies PerFile.Rule.AppliesTo
  rw [← h]
  cases g.pattern with
  | none => simp
  | some p =>
    by_cases hbase : Glob.accepts p (Path.baseName file) = true
    · simp [Discovery.matchesPath, Glob.acceptsAny, hbase]
    · simp [Discovery.matchesPath, Glob.acceptsAny, hbase]

theorem Ready.of_decisionFor (hg : g.Ready) {code : Value} {decision : Decision}
    (h : g.decisionFor code = .ok (decision, g')) :
    g'.Ready ∧ g'.standing = g.standing ∧ g'.counted = g.counted := by
  unfold decisionFor at h
  obtain ⟨key, -, h⟩ := bind_ok h
  cases key with
  | text code =>
    obtain ⟨⟨taken, decider⟩, hdecider, h⟩ := bind_ok h
    cases h
    obtain ⟨known, hknown⟩ := g.decider.policy.decide_isOk code
    obtain ⟨d, hd, hpolicy, htruthful⟩ := Decider.decisionFor_of_truthful hg.truthful hknown
    obtain ⟨rfl, rfl⟩ := Prod.mk.inj (Except.ok.inj (hd.symm.trans hdecider))
    exact ⟨⟨htruthful, hg.unfiltered⟩, by rw [standing, standing, hpolicy], rfl⟩
  | _ => cases h

theorem Ready.of_judge (hg : g.Ready) {lookup : Value → Value → Except Fault String}
    {file : Value} {f : Finding} {v? : Option Violation}
    (h : g.judge lookup file f = .ok (v?, g')) :
    g'.Ready ∧ g'.standing = g.standing ∧ g'.counted = g.counted := by
  unfold judge at h
  obtain ⟨v, -, h⟩ := bind_ok h
  obtain ⟨⟨decision, g₁⟩, hdecision, h⟩ := bind_ok h
  dsimp only at h
  have hsame : g' = g₁ := by
    split at h
    all_goals
      obtain ⟨suppressed, -, h⟩ := bind_ok h
      obtain ⟨included, -, h⟩ := bind_ok h
      cases h
      rfl
  exact hsame ▸ hg.of_decisionFor hdecision

theorem Ready.of_record (hg : g.Ready) {v : Violation} (h : g.record v = .ok g') :
    g'.Ready ∧ g'.standing = g.standing ∧ g'.counted = g.counted + 1 := by
  unfold record at h
  obtain ⟨stats, hstats, h⟩ := bind_ok h
  cases h
  refine ⟨⟨hg.truthful, hg.unfiltered⟩, rfl, ?_⟩
  unfold Statistics.record at hstats
  split at hstats
  · cases hstats
    exact Statistics.sum_recordIn _ _
  · cases hstats

end StyleGuide

namespace StyleGuides

variable {gs gs' : StyleGuides} {cwd file : String}

/-- Handling any finding in any file leaves the guides what they were and counts what it reports. -/
theorem Sound.after_handle (h : gs.Sound) {file : Value} {f : Finding} {n : Nat} {w w' : World}
    (hrun : (gs.handle file f).run w = (.ok (n, gs'), w')) : gs.After n gs' := by
  unfold handle at hrun
  obtain ⟨w₁, u₁, -, hrun⟩ := run_bind_ok hrun
  obtain ⟨⟨i, counts⟩, u₂, -, hrun⟩ := run_bind_ok hrun
  dsimp only [handleBy] at hrun
  cases hg : gs.guides[i]? with
  | none =>
    rw [hg] at hrun
    cases hrun
  | some g =>
    rw [hg] at hrun
    obtain ⟨w₂, u₃, -, hrun⟩ := run_bind_ok hrun
    obtain ⟨⟨v?, g₁⟩, u₄, hjudge, hrun⟩ := run_bind_ok hrun
    rw [Run.run_lift] at hjudge
    have hg₁ := (h.ready g (List.mem_of_getElem? hg)).of_judge (congrArg Prod.fst hjudge)
    cases v? with
    | none =>
      cases hrun
      exact h.after_setGuide hg hg₁.1 hg₁.2.1 hg₁.2.2
    | some v =>
      obtain ⟨fm, u₅, -, hrun⟩ := run_bind_ok hrun
      obtain ⟨fm', u₆, -, hrun⟩ := run_bind_ok hrun
      obtain ⟨g₂, u₇, hrecord, hrun⟩ := run_bind_ok hrun
      rw [Run.run_lift] at hrecord
      have hg₂ := hg₁.1.of_record (congrArg Prod.fst hrecord)
      cases hrun
      have hafter := h.after_setGuide hg hg₂.1 (hg₂.2.1.trans hg₁.2.1)
        (hg₂.2.2.trans (by rw [hg₁.2.2]))
      exact ⟨⟨hafter.sound.general, hafter.sound.ready⟩, hafter.standing, hafter.counted⟩

/-- The guides that findings leave behind, one handled after the other, in whatever files and
worlds. -/
inductive Handled (gs : StyleGuides) : StyleGuides → Prop
  | start : Handled gs gs
  | next {gs' gs'' : StyleGuides} {file : Value} {f : Finding} {n : Nat} {w w' : World} :
      Handled gs gs' → (gs'.handle file f).run w = (.ok (n, gs''), w') → Handled gs gs''

/-- There is a guide for each rule, in order. It ignores what the policy does and the codes of its
rule. -/
structure Follows (gs : StyleGuides) (p : Policy) (noqa : Bool) (rs : List PerFile.Rule) :
    Prop where
  sound : gs.Sound
  standing : gs.standing = rs.map fun r => (r.pattern, p.alsoIgnoring r.codes, noqa)

variable {p : Policy} {noqa : Bool} {rs : List PerFile.Rule} {l : List (Nat × StyleGuide)}
  {e : Nat × StyleGuide}

theorem Follows.of_handled (h : gs.Follows p noqa rs) (hrun : gs.Handled gs') :
    gs'.Follows p noqa rs := by
  induction hrun with
  | start => exact h
  | next _ hhandle ih =>
    have hafter := ih.sound.after_handle hhandle
    exact ⟨hafter.sound, hafter.standing.trans ih.standing⟩

theorem Follows.getElem? (h : gs.Follows p noqa rs) (i : Nat) :
    gs.guides[i]?.map StyleGuide.standing =
      rs[i]?.map fun r => (r.pattern, p.alsoIgnoring r.codes, noqa) := by
  rw [← List.getElem?_map, ← List.getElem?_map]
  exact congrArg (·[i]?) h.standing

theorem pairwise_numbered (gs : StyleGuides) : gs.numbered.Pairwise (·.1 < ·.1) := by
  rw [← List.pairwise_map, numbered, List.map_fst_zip (by simp)]
  exact List.pairwise_lt_range

theorem longest_eq_some
    (h : longest l = some e) :
    ∃ front back, l = front ++ e :: back ∧
      (∀ a ∈ front, patternLength a.2 ≤ patternLength e.2) ∧
      ∀ a ∈ back, patternLength a.2 < patternLength e.2 := by
  induction l generalizing e with
  | nil => cases h
  | cons g rest ih =>
    rw [longest] at h
    cases hrest : longest rest with
    | none =>
      rw [hrest] at h
      cases h
      have hnil : rest = [] := by
        by_contra hne
        obtain ⟨best, hbest⟩ := longest_isSome hne
        rw [hrest] at hbest
        cases hbest
      exact ⟨[], rest, rfl, by simp, by simp [hnil]⟩
    | some best =>
      rw [hrest] at h
      -- an earlier guide is chosen only if it is longer than the best one behind it
      obtain ⟨front, back, hsplit, hfront, hback⟩ := ih hrest
      dsimp only at h
      split at h
      · next hlonger =>
          cases h
          refine ⟨[], rest, rfl, by simp, fun a ha => ?_⟩
          rw [hsplit, List.mem_append, List.mem_cons] at ha
          rcases ha with ha | rfl | ha
          · exact lt_of_le_of_lt (hfront a ha) hlonger
          · exact hlonger
          · exact (hback a ha).trans hlonger
      · next hlonger =>
          cases h
          refine ⟨g :: front, back, by rw [hsplit]; rfl, fun a ha => ?_, hback⟩
          rcases List.mem_cons.mp ha with rfl | ha
          · exact Nat.le_of_not_lt hlonger
          · exact hfront a ha

theorem longest_last {a : Nat × StyleGuide}
    (hl : l.Pairwise (·.1 < ·.1)) (h : longest l = some e) (ha : a ∈ l) :
    patternLength a.2 < patternLength e.2 ∨
      patternLength a.2 = patternLength e.2 ∧ a.1 ≤ e.1 := by
  obtain ⟨front, back, rfl, hfront, hback⟩ := longest_eq_some h
  rcases List.mem_append.mp ha with hbefore | hafter
  · have hposition : a.1 < e.1 :=
      (List.pairwise_append.mp hl).2.2 a hbefore e List.mem_cons_self
    rcases Nat.lt_or_eq_of_le (hfront a hbefore) with hless | heq
    · exact .inl hless
    · exact .inr ⟨heq, hposition.le⟩
  · rcases List.mem_cons.mp hafter with rfl | hafter
    · exact .inr ⟨rfl, le_rfl⟩
    · exact .inl (hback a hafter)

theorem mem_numbered {i : Nat} {g : StyleGuide} (h : gs.guides[i]? = some g) :
    (i, g) ∈ gs.numbered := by
  obtain ⟨hi, rfl⟩ := List.getElem?_eq_some_iff.mp h
  rw [numbered, List.mem_iff_getElem]
  exact ⟨i, by simpa using hi, by simp⟩

theorem longest_of_guideFor (h : gs.guideFor cwd (.text file) = .ok e) :
    longest (gs.numbered.filter fun a => a.2.applies cwd file) = some e := by
  rw [guideFor_text] at h
  split at h
  · next hlongest =>
      cases h
      exact hlongest
  · cases h

theorem Follows.guideFor_prevails (h : gs.Follows p noqa rs) (cwd file : String) :
    ∃ i r g, PerFile.Prevails rs cwd file i r ∧ gs.guideFor cwd (.text file) = .ok (i, g) ∧
      gs.guides[i]? = some g ∧ g.standing = (r.pattern, p.alsoIgnoring r.codes, noqa) := by
  obtain ⟨i, g, hguide, hg⟩ := h.sound.guideFor_ok cwd file
  have hrule := h.getElem? i
  rw [hg, Option.map_some, eq_comm, Option.map_eq_some_iff] at hrule
  obtain ⟨r, hr, hstanding⟩ := hrule
  have hpattern : g.pattern = r.pattern := (congrArg Prod.fst hstanding).symm
  have hlongest := longest_of_guideFor hguide
  refine ⟨i, r, g, ⟨hr, ?_, ?_⟩, hguide, hg, hstanding.symm⟩
  · have happlies := (List.mem_filter.mp (longest_mem hlongest)).2
    exact (StyleGuide.applies_iff hpattern cwd file).mp happlies
  · intro j other hother happlies
    have hguide := h.getElem? j
    rw [hother, Option.map_some, Option.map_eq_some_iff] at hguide
    obtain ⟨g', hg', hstanding'⟩ := hguide
    have hpattern' : g'.pattern = other.pattern := congrArg Prod.fst hstanding'
    have hmem : (j, g') ∈ gs.numbered.filter fun e => e.2.applies cwd file :=
      List.mem_filter.mpr
        ⟨mem_numbered hg', (StyleGuide.applies_iff hpattern' cwd file).mpr happlies⟩
    have hlast := longest_last (gs.pairwise_numbered.filter _) hlongest hmem
    simpa only [patternLength, PerFile.Rule.length, hpattern, hpattern'] using hlast

/-- Settings whose code lists and mapping can be read have guides, which follow the rules of the
mapping. -/
theorem ofSettings_follows {s : Settings} {pairs : List PerFile.Pair} {ignored : List Value}
    (cwd : String) (formatter : Option Formatter) (hp : Policy.ofSettings s = .ok p)
    (hpairs : perFile s = .ok pairs) (hignore : s.get "ignore" = .ok (.list ignored)) :
    ∃ gs, ofSettings cwd s formatter = .ok gs ∧
      gs.Follows p (s.flag "disable_noqa") (PerFile.rules cwd pairs) := by
  have hfirst : defaultGuide s = .ok
      { pattern := none, decider := ⟨p, []⟩, disableNoqa := s.flag "disable_noqa" } := by
    rw [defaultGuide, hp]
    rfl
  have hok : ∃ gs, ofSettings cwd s formatter = .ok gs := by
    unfold ofSettings
    rw [hfirst, hpairs, hignore]
    cases pairs <;> exact ⟨_, rfl⟩
  obtain ⟨gs, hgs⟩ := hok
  refine ⟨gs, hgs, sound_ofSettings hgs, ?_⟩
  obtain ⟨p', pairs', hp', hpairs', rfl⟩ := ofSettings_ok hgs
  obtain rfl : p = p' := Except.ok.inj (hp.symm.trans hp')
  obtain rfl : pairs = pairs' := Except.ok.inj (hpairs.symm.trans hpairs')
  obtain ⟨v, -, hread⟩ := bind_ok hpairs
  have hfiles := PerFile.file_ne_empty_of_read hread
  rw [StyleGuides.standing, PerFile.rules, List.map_cons, List.map_cons, List.map_map, List.map_map]
  congr 1
  · simp [StyleGuide.standing, Policy.alsoIgnoring]
  · refine List.map_congr_left fun pair hpair => ?_
    exact StyleGuide.standing_forFiles _ cwd (hfiles pair hpair) pair.2

/-- A finding that is not reported leaves the world as it is, one that is reported goes to the
formatter. -/
structure Settles (gs : StyleGuides) (w : World) (file : String) (f : Finding) (reported : Bool) :
    Prop where
  passes : reported = false → ∃ gs', (gs.handle (.text file) f).run w = (.ok (0, gs'), w)
  reports : reported = true → ∀ fm fm' w', gs.formatter = some fm →
    (fm.handle (f.reportedIn file)).run w = (.ok fm', w') →
      ∃ gs', (gs.handle (.text file) f).run w = (.ok (1, gs'), w')

theorem Sound.settles (h : gs.Sound) {w : World} {f : Finding} (hf : f.Regular)
    (hfile : '\x00' ∉ file.toList) : gs.Settles w file f (gs.reports w file f) where
  passes := by
    intro hreports
    obtain ⟨gs', hrun, -, -⟩ := h.handle_passes hf hfile hreports
    exact ⟨gs', hrun⟩
  reports := by
    intro hreports fm fm' w' hfm hhandle
    obtain ⟨gs', hrun, -, -⟩ := h.handle_reports hf hfile hreports hfm hhandle
    exact ⟨gs', hrun⟩

/-- Guides for a mapping that can be read have one that counts for each file, whatever they have
handled before: the one of the rule that prevails. It decides about all codes, and settles all
findings, by the policy of the settings with the codes of this rule ignored in addition. The first
guide keeps the policy of the settings. -/
theorem guides_follow_prevailing_rule {s : Settings} {pairs : List PerFile.Pair}
    {ignored : List Value} (cwd : String) (formatter : Option Formatter)
    (hp : Policy.ofSettings s = .ok p) (hpairs : perFile s = .ok pairs)
    (hignore : s.get "ignore" = .ok (.list ignored)) :
    ∃ gs, ofSettings cwd s formatter = .ok gs ∧ ∀ gs', gs.Handled gs' →
      (∃ first, gs'.guides.head? = some first ∧ first.pattern = none ∧
        first.decider.policy = p) ∧
      ∀ here file, ∃ i r g, PerFile.Prevails (PerFile.rules cwd pairs) here file i r ∧
        gs'.guideFor here (.text file) = .ok (i, g) ∧ g.pattern = r.pattern ∧
        (∀ earlier code, g.decisionAfter earlier code =
          { p with ignore := p.ignore ++ r.codes }.decide code) ∧
        ∀ w f code decision, w.tree.cwd = here → '\x00' ∉ file.toList → f.Regular →
          f.code = .text code →
          { p with ignore := p.ignore ++ r.codes }.decide code = .ok decision →
          gs'.Settles w file f (decision = .selected &&
            (s.flag "disable_noqa" ||
              !Suppression.lineSuppresses (f.shownLine w file) code)) := by
  obtain ⟨gs, hgs, hfollows⟩ := ofSettings_follows cwd formatter hp hpairs hignore
  refine ⟨gs, hgs, fun gs' hhandled => ?_⟩
  have hfollows' := hfollows.of_handled hhandled
  refine ⟨?_, fun here file => ?_⟩
  · have hfirst := hfollows'.getElem? 0
    rw [PerFile.rules, List.getElem?_cons_zero, Option.map_some, Option.map_eq_some_iff] at hfirst
    obtain ⟨first, hhead, hstanding⟩ := hfirst
    refine ⟨first, by rwa [List.head?_eq_getElem?], congrArg Prod.fst hstanding, ?_⟩
    have hpolicy : first.decider.policy = { p with ignore := p.ignore ++ [] } :=
      congrArg (·.2.1) hstanding
    rw [hpolicy, List.append_nil]
  · obtain ⟨i, r, g, hprevails, hguide, hg, hstanding⟩ := hfollows'.guideFor_prevails here file
    have hpolicy : g.decider.policy = { p with ignore := p.ignore ++ r.codes } :=
      congrArg (·.2.1) hstanding
    have hnoqa : g.disableNoqa = s.flag "disable_noqa" := congrArg (·.2.2) hstanding
    have hready := hfollows'.sound.ready g (List.mem_of_getElem? hg)
    refine ⟨i, r, g, hprevails, hguide, congrArg Prod.fst hstanding, ?_, ?_⟩
    · intro earlier code
      rw [StyleGuide.decisionAfter_eq hready.truthful, hpolicy]
    · rintro w f code decision rfl hfile hf hcode hdecide
      have hreports : gs'.reports w file f = (decision = .selected &&
          (s.flag "disable_noqa" ||
            !Suppression.lineSuppresses (f.shownLine w file) code)) := by
        rw [StyleGuides.reports, hguide]
        dsimp only
        rw [StyleGuide.reports, hcode]
        dsimp only
        rw [hpolicy, hdecide, hnoqa]
        simp [Except.toOption]
      exact hreports ▸ hfollows'.sound.settles hf hfile

/-! Two patterns of one length that match the same file, and a longer one. -/

section Overlapping

def overlapping : Settings where
  entries := [("select", .texts ["E", "W"]), ("enable_extensions", .list []),
    ("extended_default_select", .list []), ("ignore", .texts ["W5"]), ("extend_ignore", .list []),
    ("per_file_ignores", .text "*.py:E1\na.py:E2 src/a.py:E3")]

def overlappingPolicy : Policy := ⟨["E", "W"], [], [], ["W5"], []⟩

def overlappingPairs : List PerFile.Pair :=
  [("*.py", ["E1"]), ("a.py", ["E2"]), ("src/a.py", ["E3"])]

/-- The later one of two equally long patterns counts, and before both the longest one; a file that
no pattern matches has the first guide. -/
theorem guides_follow_overlapping :
    Policy.ofSettings overlapping = .ok overlappingPolicy ∧
      perFile overlapping = .ok overlappingPairs ∧
      ∃ gs, ofSettings "/w" overlapping none = .ok gs ∧ ∀ gs', gs.Handled gs' →
        ∃ last longer first,
          gs'.guideFor "/w" (.text "a.py") = .ok (2, last) ∧
          gs'.guideFor "/w" (.text "src/a.py") = .ok (3, longer) ∧
          gs'.guideFor "/w" (.text "a.txt") = .ok (0, first) ∧
          last.decisionAfter [] "E11" = .ok .selected ∧
          last.decisionAfter ["E11"] "E21" = .ok .ignored ∧
          longer.decisionAfter [] "E21" = .ok .selected ∧
          longer.decisionAfter [] "E31" = .ok .ignored ∧
          first.decisionAfter ["E11", "E21"] "E31" = .ok .selected ∧
          first.decisionAfter [] "W51" = .ok .ignored := by
  have hp : Policy.ofSettings overlapping = .ok overlappingPolicy := rfl
  have hpairs : perFile overlapping = .ok overlappingPairs :=
    eq_ok_of_toOption (by decide +kernel)
  refine ⟨hp, hpairs, ?_⟩
  obtain ⟨gs, hgs, hall⟩ := guides_follow_prevailing_rule "/w" none hp hpairs rfl
  refine ⟨gs, hgs, fun gs' hhandled => ?_⟩
  obtain ⟨-, hfiles⟩ := hall gs' hhandled
  obtain ⟨i, r, last, hi, hlast, -, hdecides, -⟩ := hfiles "/w" "a.py"
  obtain ⟨j, r', longer, hj, hlonger, -, hdecides', -⟩ := hfiles "/w" "src/a.py"
  obtain ⟨k, r'', first, hk, hfirst, -, hdecides'', -⟩ := hfiles "/w" "a.txt"
  obtain ⟨rfl, rfl⟩ : i = 2 ∧ r = ⟨some "a.py", ["E2"]⟩ := hi.unique (by decide +kernel)
  obtain ⟨rfl, rfl⟩ : j = 3 ∧ r' = ⟨some "/w/src/a.py", ["E3"]⟩ := hj.unique (by decide +kernel)
  obtain ⟨rfl, rfl⟩ : k = 0 ∧ r'' = ⟨none, []⟩ := hk.unique (by decide +kernel)
  have hvalue : ∀ (p : Policy) (code : String) (decision : Decision), p.NoEmptyEntry →
      (if p.Selects code then .selected else .ignored) = decision →
      p.decide code = .ok decision := by
    rintro p code decision hentries rfl
    exact Policy.decide_eq p hentries code
  exact ⟨last, longer, first, hlast, hlonger, hfirst,
    (hdecides _ _).trans (hvalue _ _ _ (by decide) (by decide +kernel)),
    (hdecides _ _).trans (hvalue _ _ _ (by decide) (by decide +kernel)),
    (hdecides' _ _).trans (hvalue _ _ _ (by decide) (by decide +kernel)),
    (hdecides' _ _).trans (hvalue _ _ _ (by decide) (by decide +kernel)),
    (hdecides'' _ _).trans (hvalue _ _ _ (by decide) (by decide +kernel)),
    (hdecides'' _ _).trans (hvalue _ _ _ (by decide) (by decide +kernel))⟩

end Overlapping

end StyleGuides

end LintRunner
