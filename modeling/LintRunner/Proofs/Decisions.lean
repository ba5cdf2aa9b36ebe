import LintRunner.Decision
import Mathlib.Data.Finset.Lattice.Lemmas
import Mathlib.Data.List.MinMax
import Mathlib.Data.String.Basic

/-!
# What decides about a code

Of each list only the longest entry that starts the code counts. The lists are searched in
decreasing order, where the first entry that starts the code is the longest one, so neither the
order nor the repetition of entries matters. `Policy.Selects` says in these terms which codes are
reported. A decider that was asked before gives the answer that its policy gives afresh.
-/

namespace LintRunner

variable {s code t e : String} {entries a b : List String}

@[simp] theorem Text.startsWith_iff {pre : String} :
    Text.startsWith s pre = true ↔ pre.toList <+: s.toList := by
  simp [Text.startsWith]

/-- The longest entry that starts the code. -/
def longestEntry (code : String) (entries : List String) : Option String :=
  (entries.filter (Text.startsWith code ·)).argmax String.length

theorem eq_of_prefix_of_length_eq (hs : s.toList <+: code.toList)
    (ht : t.toList <+: code.toList) (hlen : s.length = t.length) : s = t := by
  have hst : s.toList <+: t.toList := List.prefix_of_prefix_length_le hs ht hlen.le
  exact String.toList_inj.mp (hst.eq_of_length hlen)

/-- No entry starts the code, so the entries say nothing about it. -/
abbrev Policy.Uncovered (entries : List String) (code : String) : Prop :=
  ∀ e ∈ entries, ¬ e.toList <+: code.toList

theorem longestEntry_eq_none_iff :
    longestEntry code entries = none ↔ Policy.Uncovered entries code := by
  simp [longestEntry, List.argmax_eq_none, List.filter_eq_nil_iff]

theorem longestEntry_eq_some_iff :
    longestEntry code entries = some e ↔
      e ∈ entries ∧ e.toList <+: code.toList ∧
        ∀ e' ∈ entries, e'.toList <+: code.toList → e'.length ≤ e.length := by
  have hmem : ∀ x, x ∈ entries.filter (Text.startsWith code ·) ↔
      x ∈ entries ∧ x.toList <+: code.toList := by simp
  constructor
  · intro h
    obtain ⟨he, hpre⟩ := (hmem e).mp (List.argmax_mem h)
    refine ⟨he, hpre, fun e' he' hpre' => ?_⟩
    exact List.le_of_mem_argmax ((hmem e').mpr ⟨he', hpre'⟩) h
  · rintro ⟨he, hpre, hmax⟩
    cases hlong : longestEntry code entries with
    | none => exact absurd hpre (longestEntry_eq_none_iff.mp hlong e he)
    | some m =>
      obtain ⟨hm, hmpre⟩ := (hmem m).mp (List.argmax_mem hlong)
      have hme : m.length ≤ e.length := hmax m hm hmpre
      have hem : e.length ≤ m.length :=
        List.le_of_mem_argmax ((hmem e).mpr ⟨he, hpre⟩) hlong
      rw [eq_of_prefix_of_length_eq hmpre hpre (le_antisymm hme hem)]

theorem longestEntry_congr (h : ∀ e, e ∈ a ↔ e ∈ b) (code : String) :
    longestEntry code a = longestEntry code b := by
  ext e
  simp only [longestEntry_eq_some_iff, h]

theorem mem_descending {codes : List String} : e ∈ descending codes ↔ e ∈ codes := by
  simp [descending]

theorem not_lt_iff {a b : String} : (!Text.lt a b) = true ↔ b ≤ a := by
  simp only [Text.lt, Bool.not_eq_true', decide_eq_false_iff_not, not_lt]

theorem pairwise_descending (codes : List String) :
    (descending codes).Pairwise (fun a b => b ≤ a) := by
  have hsorted : (descending codes).Pairwise (fun a b => (!Text.lt a b) = true) := by
    apply List.pairwise_mergeSort
    · intro a b c hab hbc
      rw [not_lt_iff] at hab hbc ⊢
      exact hbc.trans hab
    · intro a b
      rw [Bool.or_eq_true, not_lt_iff, not_lt_iff]
      exact le_total b a
  exact hsorted.imp not_lt_iff.mp

theorem lt_of_prefix (h : s.toList <+: t.toList) (hne : s ≠ t) : s < t := by
  obtain ⟨rest, hrest⟩ := h
  rw [String.lt_iff_toList_lt, ← hrest]
  cases rest with
  | nil =>
    rw [List.append_nil] at hrest
    exact absurd (String.toList_inj.mp hrest) hne
  | cons c cs =>
    have hlt : ([] : List Char) < c :: cs := List.nil_lt_cons c cs
    have happend : s.toList ++ [] < s.toList ++ c :: cs := List.append_left_lt hlt
    rwa [List.append_nil] at happend

/-- In decreasing order an entry stands before its own beginnings, so the first match is the
longest. -/
theorem firstMatch_descending (code : String) (codes : List String) :
    firstMatch code (descending codes) = longestEntry code codes := by
  symm
  cases hfind : firstMatch code (descending codes) with
  | none =>
    rw [longestEntry_eq_none_iff]
    intro e he
    have hno := List.find?_eq_none.mp hfind e (mem_descending.mpr he)
    simpa using hno
  | some e =>
    obtain ⟨hstarts, before, after, hsplit, hbefore⟩ :=
      List.find?_eq_some_iff_append.mp hfind
    have hpre : e.toList <+: code.toList := Text.startsWith_iff.mp hstarts
    have hmem : e ∈ codes := by
      rw [← mem_descending, hsplit]
      simp
    have hafter : ∀ e' ∈ after, e' ≤ e := by
      have hsorted := pairwise_descending codes
      rw [hsplit, List.pairwise_append, List.pairwise_cons] at hsorted
      exact hsorted.2.1.1
    rw [longestEntry_eq_some_iff]
    refine ⟨hmem, hpre, fun e' he' hpre' => ?_⟩
    by_contra hlong
    -- A longer entry would be greater, hence stand before `e` and be found first.
    have hlen : e.length < e'.length := Nat.lt_of_not_le hlong
    have hlt : e < e' := by
      apply lt_of_prefix (List.prefix_of_prefix_length_le hpre hpre' hlen.le)
      rintro rfl
      exact lt_irrefl _ hlen
    have hplace : e' ∈ before ∨ e' = e ∨ e' ∈ after := by
      rw [← mem_descending, hsplit] at he'
      simpa using he'
    rcases hplace with hb | rfl | ha
    · have hno := hbefore e' hb
      rw [Text.startsWith_iff.mpr hpre'] at hno
      cases hno
    · exact lt_irrefl _ hlt
    · exact absurd hlt (not_lt.mpr (hafter e' ha))

theorem startsWithAny_eq (code : String) (codes : List String) :
    startsWithAny code codes = (longestEntry code codes).isSome := by
  rw [Bool.eq_iff_iff, Option.isSome_iff_ne_none, ne_eq, longestEntry_eq_none_iff]
  simp [startsWithAny]

theorem startsWithAny_descending (code : String) (codes : List String) :
    startsWithAny code (descending codes) = (longestEntry code codes).isSome := by
  rw [startsWithAny_eq, longestEntry_congr (fun _ => mem_descending)]

theorem sameCodes_iff : sameCodes a b = true ↔ a.toFinset = b.toFinset := by
  simp only [sameCodes, Bool.and_eq_true, List.all_eq_true, List.contains_iff_mem,
    Finset.ext_iff, List.mem_toFinset]
  exact ⟨fun h e => ⟨h.1 e, h.2 e⟩, fun h => ⟨fun e => (h e).mp, fun e => (h e).mpr⟩⟩

theorem toFinset_descending (codes : List String) :
    (descending codes).toFinset = codes.toFinset := by
  ext e
  simp [mem_descending]

namespace Policy

/-- An empty entry would start every code. -/
def NoEmptyEntry (p : Policy) : Prop :=
  ∀ e ∈ p.select ++ p.enableExtensions ++ p.extendedDefaultSelect ++ p.ignore ++ p.extendIgnore,
    e ≠ ""

instance (p : Policy) : Decidable p.NoEmptyEntry := by
  delta NoEmptyEntry
  infer_instance

/-- Each list holds the same entries as that of the other policy, in any order and number. -/
def SameEntries (p q : Policy) : Prop :=
  p.select.toFinset = q.select.toFinset ∧
    p.enableExtensions.toFinset = q.enableExtensions.toFinset ∧
    p.extendedDefaultSelect.toFinset = q.extendedDefaultSelect.toFinset ∧
    p.ignore.toFinset = q.ignore.toFinset ∧
    p.extendIgnore.toFinset = q.extendIgnore.toFinset

instance (p q : Policy) : Decidable (p.SameEntries q) := by
  delta SameEntries
  infer_instance

/-- The policy selects the code: the user selects a beginning of it and ignores none, or ignores
only what is ignored by default while the selection is not the default one, or ignores a shorter
one; or the user neither selects nor ignores a beginning, a plugin selects one, and the selection
is the default one or empty. -/
def Selects (p : Policy) (code : String) : Prop :=
  let selected := longestEntry code (p.select ++ p.enableExtensions)
  let extended := longestEntry code p.extendedDefaultSelect
  let ignored := longestEntry code (p.ignore ++ p.extendIgnore)
  let ignoresDefault := (p.ignore ++ p.extendIgnore).toFinset = defaultIgnore.toFinset
  let selectsDefault := p.select.toFinset = defaultSelect.toFinset
  (selected ≠ none ∧
    (ignored = none ∨ (ignoresDefault ∧ ¬ selectsDefault) ∨
      ∃ s ∈ selected, ∃ i ∈ ignored, i.length < s.length)) ∨
  (selected = none ∧ ignored = none ∧ extended ≠ none ∧
    (selectsDefault ∨ p.select ++ p.enableExtensions = []))

instance (p : Policy) (code : String) : Decidable (p.Selects code) := by
  delta Selects
  infer_instance

theorem hit_eq_self {m : Option String} (h : ∀ e ∈ m, e ≠ "") : hit m = m := by
  cases m with
  | none => rfl
  | some e =>
    have he : e ≠ "" := h e rfl
    simp [hit, he]

theorem moreSpecific_eq {code s i : String} (hs : s.toList <+: code.toList)
    (hi : i.toList <+: code.toList) :
    moreSpecific s i = if i.length < s.length then .selected else .ignored := by
  unfold moreSpecific
  congr 1
  rw [Bool.and_eq_true, Text.startsWith_iff, decide_eq_true_iff, eq_iff_iff]
  constructor
  · rintro ⟨hpre, hne⟩
    refine lt_of_le_of_ne hpre.length_le fun hlen => ?_
    exact hne (eq_of_prefix_of_length_eq hs hi hlen.symm)
  · intro hlt
    refine ⟨List.prefix_of_prefix_length_le hi hs hlt.le, ?_⟩
    rintro rfl
    exact lt_irrefl _ hlt

/-- What is selected by the user is selected explicitly, what only plugins select is selected
implicitly, provided the user selects nothing at all. -/
theorem wasSelected_eq (p : Policy) (code : String) :
    p.wasSelected code =
      if longestEntry code (p.select ++ p.enableExtensions) ≠ none then .selectedExplicitly
      else if p.select ++ p.enableExtensions = [] ∧
          longestEntry code p.extendedDefaultSelect ≠ none then .selectedImplicitly
      else .ignoredImplicitly := by
  have hempty : p.allSelected.isEmpty = true ↔ p.select ++ p.enableExtensions = [] := by
    rw [List.isEmpty_iff, ← List.length_eq_zero_iff, ← List.length_eq_zero_iff, allSelected,
      descending, List.length_mergeSort]
  unfold wasSelected
  simp only [allSelected, extendedSelected, startsWithAny_descending, Bool.and_eq_true,
    Option.isSome_iff_ne_none] at hempty ⊢
  simp only [hempty]

theorem wasIgnored_eq (p : Policy) (code : String) :
    p.wasIgnored code =
      if longestEntry code (p.ignore ++ p.extendIgnore) ≠ none then .ignoredExplicitly
      else .selectedImplicitly := by
  simp only [wasIgnored, allIgnored, startsWithAny_descending, Option.isSome_iff_ne_none]

theorem usesDefaultIgnore_iff (p : Policy) :
    p.usesDefaultIgnore = true ↔
      (p.ignore ++ p.extendIgnore).toFinset = defaultIgnore.toFinset := by
  rw [usesDefaultIgnore, sameCodes_iff, allIgnored, toFinset_descending]

theorem usesDefaultSelect_iff (p : Policy) :
    p.usesDefaultSelect = true ↔ p.select.toFinset = defaultSelect.toFinset := by
  rw [usesDefaultSelect, sameCodes_iff]

theorem decide_isOk (p : Policy) (code : String) : ∃ decision, p.decide code = .ok decision := by
  have hselected : p.wasSelected code = .selectedExplicitly ∨
      p.wasSelected code = .selectedImplicitly ∨ p.wasSelected code = .ignoredImplicitly := by
    rw [wasSelected_eq]
    split_ifs <;> simp
  have hignored : p.wasIgnored code = .ignoredExplicitly ∨
      p.wasIgnored code = .selectedImplicitly := by
    rw [wasIgnored_eq]
    split_ifs <;> simp
  rcases hselected with hs | hs | hs <;> rcases hignored with hi | hi <;> simp [decide, hs, hi]

theorem moreSpecificDecision_eq (p : Policy) (hp : p.NoEmptyEntry) (code : String) :
    p.moreSpecificDecision code =
      match longestEntry code (p.select ++ p.enableExtensions),
        longestEntry code p.extendedDefaultSelect,
        longestEntry code (p.ignore ++ p.extendIgnore) with
      | some s, _, some i =>
        if p.usesDefaultIgnore ∧ ¬ p.usesDefaultSelect ∨ i.length < s.length then .selected
        else .ignored
      | some _, _, none => .selected
      | none, some e, some i => if i.length < e.length then .selected else .ignored
      | none, some _, none => if p.usesDefaultSelect then .selected else .ignored
      | none, none, _ => .ignored := by
  have hhit : ∀ entries : List String, (∀ e ∈ entries, e ≠ "") →
      hit (longestEntry code entries) = longestEntry code entries := by
    intro entries hne
    apply hit_eq_self
    intro e he
    exact hne e (longestEntry_eq_some_iff.mp he).1
  have hstarts : ∀ {entries : List String} {e : String},
      longestEntry code entries = some e → e.toList <+: code.toList :=
    fun he => (longestEntry_eq_some_iff.mp he).2.1
  have hs := hhit (p.select ++ p.enableExtensions) (fun e he => hp e (by simp at he ⊢; tauto))
  have hx := hhit p.extendedDefaultSelect (fun e he => hp e (by simp [he]))
  have hi := hhit (p.ignore ++ p.extendIgnore) (fun e he => hp e (by simp at he ⊢; tauto))
  unfold moreSpecificDecision
  simp only [allSelected, extendedSelected, allIgnored, firstMatch_descending, hs, hx, hi]
  cases hS : longestEntry code (p.select ++ p.enableExtensions) with
  | some s =>
    cases hI : longestEntry code (p.ignore ++ p.extendIgnore) with
    | some i =>
      simp only [moreSpecific_eq (hstarts hS) (hstarts hI)]
      cases p.usesDefaultIgnore <;> cases p.usesDefaultSelect <;> simp
    | none => rfl
  | none =>
    cases hX : longestEntry code p.extendedDefaultSelect with
    | some e =>
      cases hI : longestEntry code (p.ignore ++ p.extendIgnore) with
      | some i => simp only [moreSpecific_eq (hstarts hX) (hstarts hI)]
      | none => cases p.usesDefaultIgnore <;> cases p.usesDefaultSelect <;> simp
    | none => simp

theorem decide_eq (p : Policy) (hp : p.NoEmptyEntry) (code : String) :
    p.decide code = .ok (if p.Selects code then .selected else .ignored) := by
  have hselected := wasSelected_eq p code
  have hignored := wasIgnored_eq p code
  have hspecific := moreSpecificDecision_eq p hp code
  simp only [usesDefaultIgnore_iff, usesDefaultSelect_iff] at hspecific
  cases hS : longestEntry code (p.select ++ p.enableExtensions) with
  | some s =>
    cases hI : longestEntry code (p.ignore ++ p.extendIgnore) with
    | some i =>
      simp only [hS, hI] at hselected hignored hspecific
      simp [decide, hselected, hignored, hspecific, Selects, hS, hI]
    | none =>
      simp only [hS, hI] at hselected hignored
      simp [decide, hselected, hignored, Selects, hS, hI]
  | none =>
    simp only [hS, ne_eq, not_true_eq_false, if_false] at hselected
    cases hI : longestEntry code (p.ignore ++ p.extendIgnore) with
    | some i =>
      have hno : ¬ p.Selects code := by simp [Selects, hS, hI]
      simp only [hI, ne_eq, reduceCtorEq, not_false_eq_true, if_true] at hignored
      rw [if_neg hno]
      split_ifs at hselected <;> simp [decide, hselected, hignored]
    | none =>
      have hiff : p.Selects code ↔ longestEntry code p.extendedDefaultSelect ≠ none ∧
          (p.select.toFinset = defaultSelect.toFinset ∨
            p.select ++ p.enableExtensions = []) := by
        simp only [Selects, hS, hI, ne_eq, not_true_eq_false, false_and, true_and, false_or]
      simp only [hI, ne_eq, not_true_eq_false, if_false] at hignored
      split_ifs at hselected with hplugin
      · have hyes : p.Selects code := hiff.mpr ⟨hplugin.2, .inr hplugin.1⟩
        simp [decide, hselected, hignored, hyes]
      · rw [hS, hI] at hspecific
        cases hX : longestEntry code p.extendedDefaultSelect with
        | none =>
          have hno : ¬ p.Selects code := fun h => (hiff.mp h).1 hX
          rw [hX] at hspecific
          simp [decide, hselected, hignored, hspecific, hno]
        | some e =>
          have hsome : longestEntry code p.extendedDefaultSelect ≠ none := by simp [hX]
          have hnonempty : ¬ p.select ++ p.enableExtensions = [] :=
            fun h => hplugin ⟨h, hsome⟩
          rw [hX] at hspecific
          simp only [hsome, hnonempty, ne_eq, not_false_eq_true, true_and, or_false] at hiff
          simp [decide, hselected, hignored, hspecific, hiff]

theorem decide_congr {p q : Policy} (h : q.SameEntries p) (code : String) :
    q.decide code = p.decide code := by
  obtain ⟨hselect, henable, hextended, hignore, hextend⟩ := h
  have hmem : ∀ {a b : List String}, a.toFinset = b.toFinset → ∀ e, e ∈ a ↔ e ∈ b := by
    intro a b hab e
    rw [← List.mem_toFinset, hab, List.mem_toFinset]
  have hS : (q.select ++ q.enableExtensions).toFinset =
      (p.select ++ p.enableExtensions).toFinset := by
    rw [List.toFinset_append, List.toFinset_append, hselect, henable]
  have hI : (q.ignore ++ q.extendIgnore).toFinset = (p.ignore ++ p.extendIgnore).toFinset := by
    rw [List.toFinset_append, List.toFinset_append, hignore, hextend]
  have hempty : q.select ++ q.enableExtensions = [] ↔ p.select ++ p.enableExtensions = [] := by
    rw [← List.toFinset_eq_empty_iff, hS, List.toFinset_eq_empty_iff]
  have hlongS := longestEntry_congr (hmem hS) code
  have hlongX := longestEntry_congr (hmem hextended) code
  have hlongI := longestEntry_congr (hmem hI) code
  have hselected : q.wasSelected code = p.wasSelected code := by
    simp only [wasSelected_eq, hlongS, hlongX, hempty]
  have hignored : q.wasIgnored code = p.wasIgnored code := by
    simp only [wasIgnored_eq, hlongI]
  have hdefaultIgnore : q.usesDefaultIgnore = p.usesDefaultIgnore := by
    rw [Bool.eq_iff_iff, usesDefaultIgnore_iff, usesDefaultIgnore_iff, hI]
  have hdefaultSelect : q.usesDefaultSelect = p.usesDefaultSelect := by
    rw [Bool.eq_iff_iff, usesDefaultSelect_iff, usesDefaultSelect_iff, hselect]
  have hspecific : q.moreSpecificDecision code = p.moreSpecificDecision code := by
    simp only [moreSpecificDecision, allSelected, extendedSelected, allIgnored,
      firstMatch_descending, hlongS, hlongX, hlongI, hdefaultIgnore, hdefaultSelect]
  simp only [decide, hselected, hignored, hspecific]

end Policy

namespace Decider

def Truthful (d : Decider) : Prop :=
  ∀ code decision, d.taken.lookup code = some decision → d.policy.decide code = .ok decision

theorem truthful_new (p : Policy) : Truthful ⟨p, []⟩ := by
  intro code decision h
  simp at h

theorem decisionFor_of_truthful {d : Decider} (h : d.Truthful) {code : String}
    {decision : Decision} (hdecide : d.policy.decide code = .ok decision) :
    ∃ d', d.decisionFor code = .ok (decision, d') ∧ d'.policy = d.policy ∧ d'.Truthful := by
  cases hlookup : d.taken.lookup code with
  | some known =>
    have hknown : known = decision := by
      have hsame := h code known hlookup
      rw [hdecide] at hsame
      exact (Except.ok.inj hsame).symm
    refine ⟨d, ?_, rfl, h⟩
    simp [decisionFor, hlookup, hknown, pure, Except.pure]
  | none =>
    refine ⟨{ d with taken := d.taken ++ [(code, decision)] }, ?_, rfl, ?_⟩
    · simp [decisionFor, hlookup, hdecide, bind, Except.bind, pure, Except.pure]
    · intro other known hother
      rw [List.lookup_append] at hother
      cases hold : d.taken.lookup other with
      | some old =>
        rw [hold] at hother
        obtain rfl : old = known := by simpa using hother
        exact h other old hold
      | none =>
        rw [hold] at hother
        by_cases heq : other = code
        · subst heq
          obtain rfl : decision = known := by simpa using hother
          exact hdecide
        · have hne : (other == code) = false := by simpa using heq
          simp [List.lookup_cons, hne] at hother

def asked : Decider → List String → Except Fault Decider
  | d, [] => .ok d
  | d, code :: rest => do (← d.decisionFor code).2.asked rest

theorem asked_of_truthful {d : Decider} (h : d.Truthful) (codes : List String) :
    ∃ d', d.asked codes = .ok d' ∧ d'.policy = d.policy ∧ d'.Truthful := by
  induction codes generalizing d with
  | nil => exact ⟨d, rfl, rfl, h⟩
  | cons code rest ih =>
    obtain ⟨decision, hdecide⟩ := d.policy.decide_isOk code
    obtain ⟨next, hnext, hpolicy, htrue⟩ := decisionFor_of_truthful h hdecide
    obtain ⟨last, hlast, hsame, hlastTrue⟩ := ih htrue
    refine ⟨last, ?_, hsame.trans hpolicy, hlastTrue⟩
    simp [asked, hnext, bind, Except.bind, hlast]

end Decider

namespace Policy

/-- The decision that a decider for the policy takes about a code after it was asked about
others. -/
def decisionAfter (p : Policy) (earlier : List String) (code : String) : Except Fault Decision := do
  let d ← Decider.asked ⟨p, []⟩ earlier
  return (← d.decisionFor code).1

theorem decisionAfter_eq (p : Policy) (earlier : List String) (code : String) :
    p.decisionAfter earlier code = p.decide code := by
  obtain ⟨d, hd, hpolicy, htrue⟩ := Decider.asked_of_truthful (Decider.truthful_new p) earlier
  obtain ⟨decision, hdecide⟩ := p.decide_isOk code
  have hsame : d.policy.decide code = .ok decision := by rw [hpolicy, hdecide]
  obtain ⟨last, hlast, -, -⟩ := Decider.decisionFor_of_truthful htrue hsame
  simp [decisionAfter, hd, hlast, hdecide, bind, Except.bind, pure, Except.pure]

/-- Whatever a decider was asked before, it selects exactly the codes that the longest entries
select, ignores all others, and never fails; rearranging or repeating entries changes nothing. -/
theorem decisionAfter_by_longest_entries (p : Policy) (hp : p.NoEmptyEntry)
    (earlier : List String) (code : String) :
    p.decisionAfter earlier code = .ok (if p.Selects code then .selected else .ignored) ∧
      ∀ q : Policy, q.SameEntries p → ∀ others : List String,
        q.decisionAfter others code = p.decisionAfter earlier code := by
  constructor
  · rw [decisionAfter_eq, decide_eq p hp]
  · intro q hq others
    rw [decisionAfter_eq, decisionAfter_eq, decide_congr hq]

/-- A selected beginning beats a shorter ignored one, also after earlier questions and with the
entries in another order and repeated. -/
theorem decisionAfter_longer_selection :
    (Policy.mk ["E", "W6"] ["X1"] ["T"] ["E12"] ["W"]).NoEmptyEntry ∧
      (Policy.mk ["E", "W6"] ["X1"] ["T"] ["E12"] ["W"]).decisionAfter ["E121", "W605"] "W605" =
        .ok .selected ∧
      (Policy.mk ["W6", "E", "W6"] ["X1"] ["T"] ["E12"] ["W", "W"]).decisionAfter [] "W605" =
        .ok .selected := by
  have hne : (Policy.mk ["E", "W6"] ["X1"] ["T"] ["E12"] ["W"]).NoEmptyEntry := by decide
  have hselects : (Policy.mk ["E", "W6"] ["X1"] ["T"] ["E12"] ["W"]).Selects "W605" := by decide
  obtain ⟨hfirst, hother⟩ := decisionAfter_by_longest_entries _ hne ["E121", "W605"] "W605"
  rw [if_pos hselects] at hfirst
  have hsame : (Policy.mk ["W6", "E", "W6"] ["X1"] ["T"] ["E12"] ["W", "W"]).SameEntries
      (Policy.mk ["E", "W6"] ["X1"] ["T"] ["E12"] ["W"]) := by decide
  exact ⟨hne, hfirst, (hother _ hsame []).trans hfirst⟩

end Policy

end LintRunner
