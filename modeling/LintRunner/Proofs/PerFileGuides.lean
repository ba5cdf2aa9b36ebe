import LintRunner.Proofs.Decisions
import LintRunner.Proofs.Stateful
import LintRunner.StyleGuide

/-!
# What codes to ignore in some files change

Each file pattern with codes of its own has a style guide that ignores these codes as well. About a
code that none of them starts, such a guide decides as the guide of all files does, unless the
added codes change whether the ignored codes are just the default ones. That question is about the
whole list and enters the decision about every code, so there the two guides may differ;
`Policy.Unsettles` says exactly when they do.
-/

namespace LintRunner

open Stateful

theorem longestEntry_congr_of_prefix {code : String} {a b : List String}
    (h : ∀ e, e.toList <+: code.toList → (e ∈ a ↔ e ∈ b)) :
    longestEntry code a = longestEntry code b := by
  have hsome : ∀ {a b : List String}, (∀ e, e.toList <+: code.toList → (e ∈ a ↔ e ∈ b)) →
      ∀ e, longestEntry code a = some e → longestEntry code b = some e := by
    intro a b hab e he
    obtain ⟨hmem, hpre, hmax⟩ := longestEntry_eq_some_iff.mp he
    refine longestEntry_eq_some_iff.mpr ⟨(hab e hpre).mp hmem, hpre, fun e' he' hpre' => ?_⟩
    exact hmax e' ((hab e' hpre').mpr he') hpre'
  ext e
  exact ⟨hsome h e, hsome (fun e he => (h e he).symm) e⟩

namespace Policy

/-- With the codes added, the ignored codes are no longer just the default ones, or they are so
only then. -/
def TurnsDefault (p : Policy) (codes : List String) : Prop :=
  ¬ ((p.ignore ++ p.extendIgnore).toFinset = defaultIgnore.toFinset ↔
    (p.ignore ++ codes ++ p.extendIgnore).toFinset = defaultIgnore.toFinset)

instance (p : Policy) (codes : List String) : Decidable (p.TurnsDefault codes) := by
  delta TurnsDefault
  infer_instance

/-- Ignoring the codes as well changes what is decided about a code: it turns the question whether
just the default codes are ignored, and the answer matters. It matters where the user selects other
codes than the default ones, and of the longest beginnings of the code that are selected and ignored
the selected one is not empty and no longer than the ignored one; and where the default codes are
selected, no beginning is selected or ignored, and the longest that a plugin selects is empty. -/
def Unsettles (p : Policy) (codes : List String) (code : String) : Prop :=
  p.TurnsDefault codes ∧
    (p.select.toFinset ≠ defaultSelect.toFinset ∧
        (∃ s ∈ longestEntry code (p.select ++ p.enableExtensions),
          ∃ i ∈ longestEntry code (p.ignore ++ p.extendIgnore), s ≠ "" ∧ s.length ≤ i.length) ∨
      p.select.toFinset = defaultSelect.toFinset ∧
        longestEntry code (p.select ++ p.enableExtensions) = none ∧
        longestEntry code (p.ignore ++ p.extendIgnore) = none ∧
        longestEntry code p.extendedDefaultSelect = some "")

instance (p : Policy) (codes : List String) (code : String) : Decidable (p.Unsettles codes code) := by
  delta Unsettles
  infer_instance

theorem longestEntry_alsoIgnoring {p : Policy} {codes : List String} {code : String}
    (h : Uncovered codes code) :
    longestEntry code ((p.alsoIgnoring codes).ignore ++ (p.alsoIgnoring codes).extendIgnore) =
      longestEntry code (p.ignore ++ p.extendIgnore) := by
  apply longestEntry_congr_of_prefix
  intro e hpre
  have hnot : e ∉ codes := fun hmem => h e hmem hpre
  simp [alsoIgnoring, hnot]

theorem turnsDefault_iff (p : Policy) (codes : List String) :
    p.TurnsDefault codes ↔ (p.alsoIgnoring codes).usesDefaultIgnore ≠ p.usesDefaultIgnore := by
  rw [TurnsDefault, ne_eq, Bool.eq_iff_iff, usesDefaultIgnore_iff, usesDefaultIgnore_iff]
  exact not_congr iff_comm

/-- The lists disagree about the code, or none of the user's lists applies. -/
def Consults (p : Policy) (code : String) : Prop :=
  p.wasSelected code = .selectedExplicitly ∧ p.wasIgnored code = .ignoredExplicitly ∨
    p.wasSelected code = .ignoredImplicitly ∧ p.wasIgnored code = .selectedImplicitly

/-- Where the lists say the same about a code, the decision is the same if the more specific one is
not asked for, or is the same. -/
theorem decide_eq_iff {p q : Policy} {code : String}
    (hselected : q.wasSelected code = p.wasSelected code)
    (hignored : q.wasIgnored code = p.wasIgnored code) :
    q.decide code = p.decide code ↔
      (p.Consults code → q.moreSpecificDecision code = p.moreSpecificDecision code) := by
  unfold decide Consults
  rw [hselected, hignored]
  cases p.wasSelected code <;> cases p.wasIgnored code <;> simp

theorem Consults.eq_none_iff {p : Policy} {code : String} (h : p.Consults code) :
    longestEntry code (p.select ++ p.enableExtensions) = none ↔
      longestEntry code (p.ignore ++ p.extendIgnore) = none := by
  rw [Consults, wasSelected_eq, wasIgnored_eq] at h
  split_ifs at h <;> simp_all

theorem hit_of_ne {e : String} (h : e ≠ "") : hit (some e) = some e :=
  hit_eq_self fun e' he' => by cases he'; exact h

theorem hit_empty : hit (some "") = none := rfl

section Longest

variable {p : Policy} {code s i : String}

theorem moreSpecificDecision_of_longer
    (hs : longestEntry code (p.select ++ p.enableExtensions) = some s)
    (hi : longestEntry code (p.ignore ++ p.extendIgnore) = some i) (hlt : i.length < s.length) :
    p.moreSpecificDecision code = .selected := by
  have hne : s ≠ "" := by
    rintro rfl
    exact absurd hlt (Nat.not_lt_zero _)
  have hspecific : moreSpecific s i = .selected := by
    rw [moreSpecific_eq (longestEntry_eq_some_iff.mp hs).2.1 (longestEntry_eq_some_iff.mp hi).2.1,
      if_pos hlt]
  simp only [moreSpecificDecision, allSelected, extendedSelected, allIgnored, firstMatch_descending,
    hs, hi, hit_of_ne hne]
  by_cases hine : i = ""
  · rw [hine, hit_empty]
  · rw [hit_of_ne hine]
    simp [hspecific]

/-- A selected beginning that is no longer than the ignored one wins against the default codes only,
and only if the user selects other codes than the default ones. -/
theorem moreSpecificDecision_of_not_longer
    (hs : longestEntry code (p.select ++ p.enableExtensions) = some s)
    (hi : longestEntry code (p.ignore ++ p.extendIgnore) = some i) (hne : s ≠ "")
    (hle : s.length ≤ i.length) :
    p.moreSpecificDecision code =
      if p.usesDefaultIgnore && !p.usesDefaultSelect then .selected else .ignored := by
  have hine : i ≠ "" := by
    rintro rfl
    exact hne (String.length_eq_zero_iff.mp (Nat.le_zero.mp hle))
  have hspecific : moreSpecific s i = .ignored := by
    rw [moreSpecific_eq (longestEntry_eq_some_iff.mp hs).2.1 (longestEntry_eq_some_iff.mp hi).2.1,
      if_neg (Nat.not_lt.mpr hle)]
  simp only [moreSpecificDecision, allSelected, extendedSelected, allIgnored, firstMatch_descending,
    hs, hi, hit_of_ne hne, hit_of_ne hine, hspecific]

theorem moreSpecificDecision_of_empty
    (hs : longestEntry code (p.select ++ p.enableExtensions) = some "") :
    p.moreSpecificDecision code =
      match hit (longestEntry code p.extendedDefaultSelect),
        hit (longestEntry code (p.ignore ++ p.extendIgnore)) with
      | some e, some i => moreSpecific e i
      | _, _ => .selected := by
  simp only [moreSpecificDecision, allSelected, extendedSelected, allIgnored, firstMatch_descending,
    hs, hit_empty]
  cases hit (longestEntry code p.extendedDefaultSelect) <;>
    cases hit (longestEntry code (p.ignore ++ p.extendIgnore)) <;> simp

/-- Where no beginning is selected or ignored by the user, what plugins select counts if the default
codes are selected; the empty beginning counts only if just the default codes are ignored. -/
theorem moreSpecificDecision_of_none
    (hs : longestEntry code (p.select ++ p.enableExtensions) = none)
    (hi : longestEntry code (p.ignore ++ p.extendIgnore) = none) :
    p.moreSpecificDecision code =
      match longestEntry code p.extendedDefaultSelect with
      | none => .ignored
      | some e =>
        if p.usesDefaultSelect && (e ≠ "" || p.usesDefaultIgnore) then .selected else .ignored := by
  simp only [moreSpecificDecision, allSelected, extendedSelected, allIgnored, firstMatch_descending,
    hs, hi]
  cases longestEntry code p.extendedDefaultSelect with
  | none => rfl
  | some e =>
    by_cases hne : e = ""
    · rw [hne, hit_empty]
      cases p.usesDefaultIgnore <;> cases p.usesDefaultSelect <;> rfl
    · rw [hit_of_ne hne]
      cases p.usesDefaultIgnore <;> cases p.usesDefaultSelect <;> simp [hit, hne]

end Longest

section AlsoIgnoring

variable {p : Policy} {codes : List String} {code : String}

theorem unsettles_iff_of_both {s i : String}
    (hs : longestEntry code (p.select ++ p.enableExtensions) = some s)
    (hi : longestEntry code (p.ignore ++ p.extendIgnore) = some i) :
    p.Unsettles codes code ↔ (p.alsoIgnoring codes).usesDefaultIgnore ≠ p.usesDefaultIgnore ∧
      p.usesDefaultSelect ≠ true ∧ s ≠ "" ∧ s.length ≤ i.length := by
  rw [Unsettles, turnsDefault_iff, hs, hi, ne_eq p.usesDefaultSelect, usesDefaultSelect_iff]
  simp

theorem unsettles_iff_of_none
    (hs : longestEntry code (p.select ++ p.enableExtensions) = none)
    (hi : longestEntry code (p.ignore ++ p.extendIgnore) = none) :
    p.Unsettles codes code ↔ (p.alsoIgnoring codes).usesDefaultIgnore ≠ p.usesDefaultIgnore ∧
      p.usesDefaultSelect = true ∧ longestEntry code p.extendedDefaultSelect = some "" := by
  rw [Unsettles, turnsDefault_iff, hs, hi, usesDefaultSelect_iff]
  simp

theorem decide_alsoIgnoring_of_both {s i : String} (h : Uncovered codes code)
    (hs : longestEntry code (p.select ++ p.enableExtensions) = some s)
    (hi : longestEntry code (p.ignore ++ p.extendIgnore) = some i) :
    (p.alsoIgnoring codes).moreSpecificDecision code = p.moreSpecificDecision code ↔
      ¬ p.Unsettles codes code := by
  have hs' : longestEntry code ((p.alsoIgnoring codes).select ++
      (p.alsoIgnoring codes).enableExtensions) = some s := hs
  have hi' := (longestEntry_alsoIgnoring (p := p) h).trans hi
  rw [unsettles_iff_of_both hs hi]
  by_cases hempty : s = ""
  · subst hempty
    rw [moreSpecificDecision_of_empty hs, moreSpecificDecision_of_empty hs', hi, hi']
    simp [alsoIgnoring]
  · by_cases hlt : i.length < s.length
    · rw [moreSpecificDecision_of_longer hs hi hlt, moreSpecificDecision_of_longer hs' hi' hlt]
      simp [Nat.not_le.mpr hlt]
    · have hle : s.length ≤ i.length := Nat.not_lt.mp hlt
      rw [moreSpecificDecision_of_not_longer hs hi hempty hle,
        moreSpecificDecision_of_not_longer hs' hi' hempty hle]
      have hselect : (p.alsoIgnoring codes).usesDefaultSelect = p.usesDefaultSelect := rfl
      rw [hselect]
      cases (p.alsoIgnoring codes).usesDefaultIgnore <;> cases p.usesDefaultIgnore <;>
        cases p.usesDefaultSelect <;> simp [hempty, hle]

theorem decide_alsoIgnoring_of_none (h : Uncovered codes code)
    (hs : longestEntry code (p.select ++ p.enableExtensions) = none)
    (hi : longestEntry code (p.ignore ++ p.extendIgnore) = none) :
    (p.Consults code →
        (p.alsoIgnoring codes).moreSpecificDecision code = p.moreSpecificDecision code) ↔
      ¬ p.Unsettles codes code := by
  have hs' : longestEntry code ((p.alsoIgnoring codes).select ++
      (p.alsoIgnoring codes).enableExtensions) = none := hs
  have hi' := (longestEntry_alsoIgnoring (p := p) h).trans hi
  have hextended : (p.alsoIgnoring codes).extendedDefaultSelect = p.extendedDefaultSelect := rfl
  have hselect : (p.alsoIgnoring codes).usesDefaultSelect = p.usesDefaultSelect := rfl
  rw [unsettles_iff_of_none hs hi, moreSpecificDecision_of_none hs hi,
    moreSpecificDecision_of_none hs' hi', hextended, hselect]
  cases hx : longestEntry code p.extendedDefaultSelect with
  | none => simp
  | some e =>
    cases hdefault : p.usesDefaultSelect with
    | false => simp
    | true =>
      have hnonempty : p.select ++ p.enableExtensions ≠ [] := by
        intro hnil
        rw [usesDefaultSelect_iff, (List.append_eq_nil_iff.mp hnil).1] at hdefault
        exact absurd hdefault (by decide)
      have hconsults : p.Consults code := by
        right
        rw [wasSelected_eq, wasIgnored_eq, hs, hi]
        simp [hnonempty]
      by_cases hempty : e = ""
      · cases (p.alsoIgnoring codes).usesDefaultIgnore <;> cases p.usesDefaultIgnore <;>
          simp [hconsults, hempty]
      · simp [hempty]

/-- Ignoring more codes changes the decision about a code that none of them starts exactly where it
unsettles it. -/
theorem decide_alsoIgnoring_eq_iff (h : Uncovered codes code) :
    (p.alsoIgnoring codes).decide code = p.decide code ↔ ¬ p.Unsettles codes code := by
  have hselected : (p.alsoIgnoring codes).wasSelected code = p.wasSelected code := rfl
  have hignored : (p.alsoIgnoring codes).wasIgnored code = p.wasIgnored code := by
    rw [wasIgnored_eq, wasIgnored_eq, longestEntry_alsoIgnoring h]
  rw [decide_eq_iff hselected hignored]
  cases hs : longestEntry code (p.select ++ p.enableExtensions) with
  | some s =>
    cases hi : longestEntry code (p.ignore ++ p.extendIgnore) with
    | some i =>
      have hconsults : p.Consults code := by
        left
        rw [wasSelected_eq, wasIgnored_eq, hs, hi]
        simp
      rw [← decide_alsoIgnoring_of_both h hs hi]
      exact ⟨fun hsame => hsame hconsults, fun hsame _ => hsame⟩
    | none =>
      have hno : ¬ p.Consults code := fun hc => by simpa [hs, hi] using hc.eq_none_iff
      have hsettled : ¬ p.Unsettles codes code := by simp [Unsettles, hs, hi]
      simp [hno, hsettled]
  | none =>
    cases hi : longestEntry code (p.ignore ++ p.extendIgnore) with
    | some i =>
      have hno : ¬ p.Consults code := fun hc => by simpa [hs, hi] using hc.eq_none_iff
      have hsettled : ¬ p.Unsettles codes code := by simp [Unsettles, hs, hi]
      simp [hno, hsettled]
    | none => exact decide_alsoIgnoring_of_none h hs hi

end AlsoIgnoring

end Policy

namespace StyleGuide

/-- A guide decides about a code as its policy does, and changes in nothing but what its decider
remembers. -/
theorem decisionFor_text {g : StyleGuide} (h : g.decider.Truthful) {code : String}
    {decision : Decision} (hdecide : g.decider.policy.decide code = .ok decision) :
    ∃ d, g.decisionFor (.text code) = .ok (decision, { g with decider := d }) ∧
      d.policy = g.decider.policy ∧ d.Truthful := by
  obtain ⟨d, hd, hpolicy, htrue⟩ := Decider.decisionFor_of_truthful h hdecide
  refine ⟨d, ?_, hpolicy, htrue⟩
  have hkey : (Value.text code).asKey = .ok (.text code) := rfl
  unfold StyleGuide.decisionFor
  rw [hkey]
  dsimp only [bind, Except.bind]
  rw [hd]
  rfl

def decisionAfter : StyleGuide → List String → String → Except Fault Decision
  | g, [], code => return (← g.decisionFor (.text code)).1
  | g, other :: rest, code => do (← g.decisionFor (.text other)).2.decisionAfter rest code

theorem decisionAfter_eq {g : StyleGuide} (h : g.decider.Truthful) (earlier : List String)
    (code : String) : g.decisionAfter earlier code = g.decider.policy.decide code := by
  induction earlier generalizing g with
  | nil =>
    obtain ⟨decision, hdecide⟩ := g.decider.policy.decide_isOk code
    obtain ⟨d, hd, -, -⟩ := decisionFor_text h hdecide
    rw [decisionAfter, hd, hdecide]
    rfl
  | cons other rest ih =>
    obtain ⟨decision, hdecide⟩ := g.decider.policy.decide_isOk other
    obtain ⟨d, hd, hpolicy, htrue⟩ := decisionFor_text h hdecide
    rw [decisionAfter, hd]
    exact (ih htrue).trans (by rw [hpolicy])

end StyleGuide

namespace StyleGuides

theorem ofSettings_ok {cwd : String} {s : Settings} {formatter : Option Formatter}
    {gs : StyleGuides} (h : ofSettings cwd s formatter = .ok gs) :
    ∃ p pairs, Policy.ofSettings s = .ok p ∧ perFile s = .ok pairs ∧
      let first : StyleGuide :=
        { pattern := none, decider := ⟨p, []⟩, disableNoqa := s.flag "disable_noqa" }
      gs = ⟨first :: pairs.map fun pair => first.forFiles cwd (some pair.1) pair.2, formatter⟩ := by
  unfold ofSettings at h
  obtain ⟨first, hfirst, h⟩ := bind_ok h
  obtain ⟨pairs, hpairs, h⟩ := bind_ok h
  unfold defaultGuide at hfirst
  obtain ⟨p, hp, hfirst⟩ := bind_ok hfirst
  cases hfirst
  refine ⟨p, pairs, hp, hpairs, ?_⟩
  split at h
  · obtain ⟨ignore, -, h⟩ := bind_ok h
    obtain ⟨_, -, h⟩ := bind_ok h
    cases h
    rfl
  · cases h
    rfl

/-- About a code that none of the codes for a file pattern starts, the guide for the pattern decides
as the guide of all files does, except where the added codes unsettle the decision. -/
theorem perFile_guides_decide_alike_iff {cwd : String} {s : Settings}
    {formatter : Option Formatter} {gs : StyleGuides} (h : ofSettings cwd s formatter = .ok gs) :
    ∃ p pairs first, Policy.ofSettings s = .ok p ∧ perFile s = .ok pairs ∧
      gs.guides = first :: pairs.map (fun pair => first.forFiles cwd (some pair.1) pair.2) ∧
      ∀ pair ∈ pairs, ∀ code, Policy.Uncovered pair.2 code → ∀ earlier others,
        ∃ own general,
          (first.forFiles cwd (some pair.1) pair.2).decisionAfter earlier code = .ok own ∧
          first.decisionAfter others code = .ok general ∧
          (own = general ↔ ¬ p.Unsettles pair.2 code) := by
  obtain ⟨p, pairs, hp, hpairs, rfl⟩ := ofSettings_ok h
  refine ⟨p, pairs, _, hp, hpairs, rfl, fun pair _ code huncovered earlier others => ?_⟩
  obtain ⟨own, hown⟩ := (p.alsoIgnoring pair.2).decide_isOk code
  obtain ⟨general, hgeneral⟩ := p.decide_isOk code
  refine ⟨own, general, ?_, ?_, ?_⟩
  · rw [StyleGuide.decisionAfter_eq (Decider.truthful_new _)]
    exact hown
  · rw [StyleGuide.decisionAfter_eq (Decider.truthful_new p)]
    exact hgeneral
  · rw [← Policy.decide_alsoIgnoring_eq_iff huncovered, hown, hgeneral, Except.ok.injEq]

/-! A selection of one's own beside the default codes to ignore, and one code to ignore in one
file. -/

section OwnSelection

def ownSelection : Settings where
  entries := [("select", .texts ["E"]), ("enable_extensions", .list []),
    ("extended_default_select", .list []), ("ignore", .texts defaultIgnore),
    ("extend_ignore", .list []), ("per_file_ignores", .text "a.py:F401")]

def ownPolicy : Policy := ⟨["E"], [], [], defaultIgnore, []⟩

def ownGuide : StyleGuide := { pattern := none, decider := ⟨ownPolicy, []⟩, disableNoqa := false }

theorem ofSettings_ownSelection :
    ofSettings "/" ownSelection none =
      .ok ⟨[ownGuide, ownGuide.forFiles "/" (some "a.py") ["F401"]], none⟩ := by
  have hpairs : perFile ownSelection = .ok [("a.py", ["F401"])] :=
    eq_ok_of_toOption (by decide +kernel)
  rw [ofSettings, hpairs]
  rfl

/-- The two guides agree about a code that is not ignored by default. -/
theorem perFile_guides_agree_on_plain_code :
    ∃ gs, ofSettings "/" ownSelection none = .ok gs ∧ Policy.Uncovered ["F401"] "E501" ∧
      ¬ ownPolicy.Unsettles ["F401"] "E501" ∧
      ∃ first own decision, gs.guides = [first, own] ∧
        own.decisionAfter ["E501", "W605"] "E501" = .ok decision ∧
        first.decisionAfter [] "E501" = .ok decision := by
  obtain ⟨p, pairs, first, hp, hpairs, hguides, halike⟩ :=
    perFile_guides_decide_alike_iff ofSettings_ownSelection
  have hpolicy : Policy.ofSettings ownSelection = .ok ownPolicy := rfl
  obtain rfl : ownPolicy = p := Except.ok.inj (hpolicy.symm.trans hp)
  have hread : perFile ownSelection = .ok [("a.py", ["F401"])] :=
    eq_ok_of_toOption (by decide +kernel)
  obtain rfl : [("a.py", ["F401"])] = pairs := Except.ok.inj (hread.symm.trans hpairs)
  have hsettled : ¬ ownPolicy.Unsettles ["F401"] "E501" := by decide +kernel
  obtain ⟨own, general, hown, hgeneral, hsame⟩ :=
    halike _ List.mem_cons_self "E501" (by decide) ["E501", "W605"] []
  obtain rfl : own = general := hsame.mpr hsettled
  exact ⟨_, ofSettings_ownSelection, by decide, hsettled, first, _, own, hguides, hown, hgeneral⟩

/-- Ignoring one code in a file silences another one there: with a selection of one's own, a code
that is ignored by default is reported in all files, but no longer in that file. -/
theorem perFile_code_silences_another :
    Policy.Uncovered ["F401"] "E126" ∧
      ownGuide.decisionAfter [] "E126" = .ok .selected ∧
      (ownGuide.forFiles "/" (some "a.py") ["F401"]).decisionAfter [] "E126" = .ok .ignored ∧
      ofSettings "/" ownSelection none =
        .ok ⟨[ownGuide, ownGuide.forFiles "/" (some "a.py") ["F401"]], none⟩ := by
  refine ⟨by decide, ?_, ?_, ofSettings_ownSelection⟩
  · rw [StyleGuide.decisionAfter_eq (Decider.truthful_new ownPolicy)]
    have hselects : ownPolicy.Selects "E126" := by decide +kernel
    exact (Policy.decide_eq ownPolicy (by decide) "E126").trans (by rw [if_pos hselects])
  · rw [StyleGuide.decisionAfter_eq (Decider.truthful_new (ownPolicy.alsoIgnoring ["F401"]))]
    have hselects : ¬ (ownPolicy.alsoIgnoring ["F401"]).Selects "E126" := by decide +kernel
    exact (Policy.decide_eq (ownPolicy.alsoIgnoring ["F401"]) (by decide) "E126").trans
      (by rw [if_neg hselects])

end OwnSelection

end StyleGuides

end LintRunner
