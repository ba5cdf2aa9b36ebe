import LintRunner.Text.Lower

/-!
# Lower case stays

A text in lower case has no other lower-case form: the runs of capitals lead to code points outside
all runs.
-/

namespace LintRunner.Text

namespace CaseRun

def Holds (r : CaseRun) (n : Nat) : Prop :=
  r.first ≤ n ∧ n ≤ r.last ∧ (n - r.first) % r.step = 0

/-- The run leads past the code points of another one, or in between them. -/
def avoids (r q : CaseRun) : Bool :=
  Nat.blt (r.other + (r.last - r.first)) q.first || Nat.blt q.last r.other ||
    ((Nat.beq r.step 2 || Nat.beq r.first r.last) && Nat.beq q.step 2 &&
      !Nat.beq (r.other % 2) (q.first % 2))

theorem not_holds_of_avoids {r q : CaseRun} {n : Nat} (havoids : r.avoids q = true)
    (h : r.Holds n) : ¬ q.Holds (r.other + (n - r.first)) := by
  rintro ⟨hfirst, hlast, hstep⟩
  obtain ⟨hstart, hend, hn⟩ := h
  simp only [avoids, Bool.or_eq_true, Bool.and_eq_true, Bool.not_eq_true', Nat.blt_eq,
    Nat.beq_eq] at havoids
  rcases havoids with (hbelow | habove) | ⟨⟨hkind, htwo⟩, hparity⟩
  · omega
  · omega
  · -- Both runs have every second code point, and they differ in parity.
    have hne : r.other % 2 ≠ q.first % 2 := Nat.ne_of_beq_eq_false hparity
    rw [htwo] at hstep
    rcases hkind with htwo' | hsingle
    · rw [htwo'] at hn
      omega
    · omega

end CaseRun

/-- Code points that a lower-case form cannot have: those of the runs, the dotted capital I, and
numbers that stand for no character. -/
def changing : List CaseRun := ⟨0x130, 0x130, 1, 0⟩ :: ⟨0xd800, 0xdfff, 1, 0⟩ :: caseRuns

theorem avoids_changing : (caseRuns.all fun r =>
    changing.all r.avoids && Nat.blt (r.other + (r.last - r.first)) 0x110000) = true := by
  decide +kernel

theorem shiftedFrom_of_not_holds {n : Nat} {runs : List CaseRun} (h : ∀ r ∈ runs, ¬ r.Holds n) :
    shiftedFrom n runs = n := by
  induction runs with
  | nil => rfl
  | cons r rest ih =>
    obtain ⟨hr, hrest⟩ := List.forall_mem_cons.mp h
    rw [shiftedFrom]
    split
    · rfl
    · split
      · exact if_neg fun hstep => hr ⟨by omega, by assumption, hstep⟩
      · exact ih hrest

theorem shiftedFrom_cases (n : Nat) (runs : List CaseRun) : shiftedFrom n runs = n ∨
    ∃ r ∈ runs, r.Holds n ∧ shiftedFrom n runs = r.other + (n - r.first) := by
  induction runs with
  | nil => exact .inl rfl
  | cons r rest ih =>
    rw [shiftedFrom]
    split
    · exact .inl rfl
    · split
      · split
        · exact .inr ⟨r, List.mem_cons_self, ⟨by omega, by assumption, by assumption⟩, rfl⟩
        · exact .inl rfl
      · rcases ih with hsame | ⟨q, hq, hholds, hshift⟩
        · exact .inl hsame
        · exact .inr ⟨q, List.mem_cons_of_mem r hq, hholds, hshift⟩

/-- A character that every rule leaves alone. -/
structure IsLower (c : Char) : Prop where
  ne_dotted : c.toNat ≠ 0x130
  ne_sigma : c.toNat ≠ 0x3a3
  shifted : shiftedFrom c.toNat caseRuns = c.toNat

theorem IsLower.of_shifted {c : Char} (hdotted : c.toNat ≠ 0x130)
    (h : shiftedFrom c.toNat caseRuns = c.toNat) : IsLower c := by
  refine ⟨hdotted, fun hsigma => ?_, h⟩
  rw [hsigma] at h
  exact absurd h (by decide +kernel)

theorem toNat_of_holds {r : CaseRun} (hr : r ∈ caseRuns) {n : Nat} (h : r.Holds n) :
    (Char.ofNat (r.other + (n - r.first))).toNat = r.other + (n - r.first) ∧
      ∀ q ∈ changing, ¬ q.Holds (r.other + (n - r.first)) := by
  obtain ⟨havoids, hbound⟩ := Bool.and_eq_true_iff.mp (List.all_eq_true.mp avoids_changing r hr)
  have hnone : ∀ q ∈ changing, ¬ q.Holds (r.other + (n - r.first)) := by
    intro q hq
    exact CaseRun.not_holds_of_avoids (List.all_eq_true.mp havoids q hq) h
  refine ⟨?_, hnone⟩
  have hsurrogate := hnone ⟨0xd800, 0xdfff, 1, 0⟩ (List.mem_cons_of_mem _ List.mem_cons_self)
  rw [Nat.blt_eq] at hbound
  obtain ⟨-, hlast, -⟩ := h
  simp only [CaseRun.Holds, Nat.mod_one, and_true, not_and, Nat.not_le] at hsurrogate
  have hvalid : (r.other + (n - r.first)).isValidChar := by
    unfold Nat.isValidChar
    omega
  rw [Char.ofNat, dif_pos hvalid]
  rfl

theorem isLower_of_holds {r : CaseRun} (hr : r ∈ caseRuns) {n : Nat} (h : r.Holds n) :
    IsLower (Char.ofNat (r.other + (n - r.first))) := by
  obtain ⟨htoNat, hnone⟩ := toNat_of_holds hr h
  obtain ⟨hdotted, hrest⟩ := List.forall_mem_cons.mp hnone
  simp only [CaseRun.Holds, Nat.mod_one, and_true, not_and, Nat.not_le] at hdotted
  refine .of_shifted ?_ ?_ <;> rw [htoNat]
  · omega
  · exact shiftedFrom_of_not_holds fun q hq => hrest q (List.mem_cons_of_mem _ hq)

theorem isLower_lowerChar (c : Char) : ∀ x ∈ lowerChar c, IsLower x := by
  unfold lowerChar
  split
  · refine List.forall_mem_cons.mpr ⟨.of_shifted ?_ ?_, List.forall_mem_singleton.mpr
      (.of_shifted ?_ ?_)⟩ <;> decide +kernel
  · rename_i hdotted
    refine List.forall_mem_singleton.mpr ?_
    rcases shiftedFrom_cases c.toNat caseRuns with hsame | ⟨r, hr, hholds, hshift⟩
    · rw [hsame, Char.ofNat_toNat]
      exact .of_shifted hdotted hsame
    · rw [hshift]
      exact isLower_of_holds hr hholds

theorem isLower_lowerAfter (before cs : List Char) : ∀ x ∈ lowerAfter before cs, IsLower x := by
  induction cs generalizing before with
  | nil => exact List.forall_mem_nil _
  | cons c rest ih =>
    rw [lowerAfter]
    refine List.forall_mem_append.mpr ⟨?_, ih (c :: before)⟩
    split
    · exact List.forall_mem_singleton.mpr (.of_shifted (by decide +kernel) (by decide +kernel))
    · exact isLower_lowerChar c

theorem lowerAfter_of_isLower {cs : List Char} (h : ∀ c ∈ cs, IsLower c) (before : List Char) :
    lowerAfter before cs = cs := by
  induction cs generalizing before with
  | nil => rfl
  | cons c rest ih =>
    obtain ⟨hc, hrest⟩ := List.forall_mem_cons.mp h
    rw [lowerAfter, ih hrest, lowerChar, if_neg hc.ne_dotted, hc.shifted, Char.ofNat_toNat,
      decide_eq_false hc.ne_sigma]
    rfl

@[simp] theorem lower_lower (s : String) : lower (lower s) = lower s := by
  rw [lower, lower, String.toList_ofList, lowerAfter_of_isLower (isLower_lowerAfter [] _)]

end LintRunner.Text
