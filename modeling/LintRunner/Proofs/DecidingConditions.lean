import LintRunner.Proofs.Decisions

/-!
# The condition that decides about a code

Where the lists disagree about a code, or none of the user's selections applies to it, the first of
six conditions that holds decides, and a last answer is kept for the case that none does. That case
arises only where an empty entry is the longest one that starts the code.
-/

namespace LintRunner.Policy

/-- The conditions in the order in which they are tried, each with the decision that it brings. An
empty entry counts as found, but not as a hit. -/
def conditions (p : Policy) (code : String) : List (Bool × Decision) :=
  let select := firstMatch code p.allSelected
  let extra := firstMatch code p.extendedSelected
  let ignore := firstMatch code p.allIgnored
  let against (m : Option String) := moreSpecific (m.getD "") (ignore.getD "")
  [((hit select).isSome && (hit ignore).isSome && (p.usesDefaultIgnore && !p.usesDefaultSelect),
      .selected),
    ((hit select).isSome && (hit ignore).isSome, against select),
    ((hit extra).isSome && (hit ignore).isSome, against extra),
    ((hit select).isSome || ((hit extra).isSome && p.usesDefaultSelect), .selected),
    (select.isNone && (extra.isNone || !p.usesDefaultIgnore), .ignored),
    (select.isNone && !p.usesDefaultSelect && (ignore.isNone && p.usesDefaultIgnore), .ignored)]

/-- The decision of the first rule that holds. -/
def firstHolding (rules : List (Bool × Decision)) : Option Decision :=
  (rules.find? (·.1)).map (·.2)

variable {p : Policy} {code e : String} {m : Option String} {rules : List (Bool × Decision)}

@[simp] theorem getD_firstHolding_nil (last : Decision) : (firstHolding []).getD last = last := rfl

@[simp] theorem getD_firstHolding_cons (holds : Bool) (d last : Decision) :
    (firstHolding ((holds, d) :: rules)).getD last =
      if holds then d else (firstHolding rules).getD last := by
  cases holds <;> rfl

theorem firstHolding_eq_none_iff : firstHolding rules = none ↔ ∀ r ∈ rules, r.1 = false := by
  simp [firstHolding]

theorem eq_some_of_hit (h : hit m = some e) : m = some e :=
  (Option.filter_eq_some_iff.mp h).1

theorem hit_eq_none_iff : hit m = none ↔ m = none ∨ m = some "" := by
  cases m with
  | none => simp [hit]
  | some e => simp [hit, Option.filter_eq_none_iff]

theorem moreSpecificDecision_eq_firstHolding (p : Policy) (code : String) :
    p.moreSpecificDecision code = (firstHolding (p.conditions code)).getD .selected := by
  unfold moreSpecificDecision conditions
  generalize firstMatch code p.allSelected = select
  generalize firstMatch code p.extendedSelected = extra
  generalize firstMatch code p.allIgnored = ignore
  cases hs : hit select with
  | some s =>
    obtain rfl := eq_some_of_hit hs
    cases hi : hit ignore with
    | some i =>
      obtain rfl := eq_some_of_hit hi
      simp [hs, hi]
    | none => simp [hs, hi]
  | none =>
    cases hx : hit extra with
    | some x =>
      obtain rfl := eq_some_of_hit hx
      cases hi : hit ignore with
      | some i =>
        obtain rfl := eq_some_of_hit hi
        simp [hs, hx, hi]
      | none => simp [hs, hx, hi, and_assoc]
    | none => simp [hs, hx, and_assoc]

theorem ne_empty_of_usesDefaultIgnore (h : p.usesDefaultIgnore = true) :
    firstMatch code p.allIgnored ≠ some "" := by
  intro hempty
  have hdefault : "" ∈ defaultIgnore := by
    rw [← List.mem_toFinset, ← sameCodes_iff.mp h, List.mem_toFinset]
    exact List.mem_of_find?_eq_some hempty
  exact absurd hdefault (by decide)

/-- No condition holds exactly if the empty entry is the user's longest selection that starts the
code, and no plugin's selection settles it; or if the user selects no beginning of the code, the
empty entry is the longest selection of a plugin, the default is ignored, and either the default is
selected or the code is among what is ignored. -/
theorem firstHolding_conditions_eq_none_iff :
    firstHolding (p.conditions code) = none ↔
      firstMatch code p.allSelected = some "" ∧
        (hit (firstMatch code p.extendedSelected) = none ∨
          hit (firstMatch code p.allIgnored) = none ∧ p.usesDefaultSelect = false) ∨
      firstMatch code p.allSelected = none ∧ firstMatch code p.extendedSelected = some "" ∧
        p.usesDefaultIgnore = true ∧
        (p.usesDefaultSelect = true ∨ firstMatch code p.allIgnored ≠ none) := by
  have hproper := @ne_empty_of_usesDefaultIgnore p code
  simp only [firstHolding_eq_none_iff, conditions, List.forall_mem_cons, List.not_mem_nil,
    false_imp_iff, implies_true, Bool.and_eq_false_iff, Bool.or_eq_false_iff,
    Option.isSome_eq_false_iff, Option.isNone_eq_false_iff, Option.isNone_iff_eq_none,
    Option.isSome_iff_ne_none, Bool.not_eq_eq_eq_not, Bool.not_false]
  generalize firstMatch code p.allSelected = select
  generalize firstMatch code p.extendedSelected = extra
  generalize firstMatch code p.allIgnored = ignore at hproper ⊢
  have hblank : hit (some "") = none := rfl
  constructor
  · rintro ⟨-, -, hagainst, ⟨hselect, hplugin⟩, hnothing, hcustom, -⟩
    rcases hit_eq_none_iff.mp hselect with rfl | rfl
    · obtain ⟨hfound, hdefault⟩ := hnothing.resolve_left fun h => h rfl
      have hempty : extra = some "" := by
        -- A proper selection of a plugin leaves nothing ignored and the selection not the default.
        by_contra hne
        have hextra : hit extra ≠ none := by simp [hit_eq_none_iff, hfound, hne]
        have hfree : ignore = none :=
          (hit_eq_none_iff.mp (hagainst.resolve_left hextra)).resolve_right (hproper hdefault)
        simp [hplugin.resolve_left hextra, hfree, hdefault] at hcustom
      exact .inr ⟨rfl, hempty, hdefault, by simpa [hdefault] using hcustom⟩
    · refine .inl ⟨rfl, ?_⟩
      tauto
  · rintro (⟨rfl, hsettled⟩ | ⟨rfl, rfl, hdefault, hrest⟩)
    · simp only [hblank, ne_eq, reduceCtorEq, not_false_eq_true, true_or, true_and]
      tauto
    · simp only [hblank, hdefault, ne_eq, reduceCtorEq, not_false_eq_true, true_or, true_and]
      tauto

example : firstHolding ((Policy.mk [""] [] [] [] []).conditions "E1") = none := by
  rw [firstHolding_conditions_eq_none_iff]
  simp only [allSelected, extendedSelected, allIgnored, firstMatch_descending]
  decide

theorem not_noEmptyEntry_of_firstHolding_conditions (h : firstHolding (p.conditions code) = none) :
    ¬ p.NoEmptyEntry := by
  have hmem : ∀ {entries : List String},
      firstMatch code (descending entries) = some "" → "" ∈ entries :=
    fun h => mem_descending.mp (List.mem_of_find?_eq_some h)
  intro hp
  rcases firstHolding_conditions_eq_none_iff.mp h with ⟨hempty, -⟩ | ⟨-, hempty, -⟩
  · rcases List.mem_append.mp (hmem hempty) with h | h <;> exact absurd rfl (hp "" (by simp [h]))
  · exact absurd rfl (hp "" (by simp [hmem hempty]))

/-- The first condition that holds decides, and the last answer is kept for the case that none does;
that never happens with proper entries. Whatever the entries are, there is always a decision. -/
theorem moreSpecificDecision_before_last (p : Policy) (code : String) :
    p.moreSpecificDecision code = (firstHolding (p.conditions code)).getD .selected ∧
      (p.NoEmptyEntry → (firstHolding (p.conditions code)).isSome = true) ∧
      ∃ d, p.decide code = .ok d := by
  refine ⟨moreSpecificDecision_eq_firstHolding p code, fun hp => ?_, p.decide_isOk code⟩
  rw [Option.isSome_iff_ne_none]
  exact fun h => not_noEmptyEntry_of_firstHolding_conditions h hp

/-- A code that a plugin selects, where the user selects others and ignores the default. -/
theorem moreSpecificDecision_before_last_plugin :
    (Policy.mk ["W"] [] ["X"] defaultIgnore []).NoEmptyEntry ∧
      (firstHolding
        ((Policy.mk ["W"] [] ["X"] defaultIgnore []).conditions "X100")).isSome = true := by
  have hp : (Policy.mk ["W"] [] ["X"] defaultIgnore []).NoEmptyEntry := by decide
  exact ⟨hp, (moreSpecificDecision_before_last _ "X100").2.1 hp⟩

end LintRunner.Policy
