import LintRunner.Source.LogicalLine
import Mathlib.Data.List.TakeWhile
import Mathlib.Order.Bounds.Basic

/-!
# Columns of indented lines

The indentation of a line is the column that its leading spaces and tabs lead to. A line without
tabs is measured by a shortcut, which counts blanks of every kind, so that a form feed counts like a
space there, whereas it ends the indentation of a line with tabs.
-/

namespace LintRunner.Source

/-- The text leads from one column to another: each leading space adds one, each leading tab reaches
the next multiple of eight, and the first other character ends the way. -/
inductive LeadsTo : Nat → List Char → Nat → Prop
  | space {column reached : Nat} {rest : List Char} (h : LeadsTo (column + 1) rest reached) :
      LeadsTo column (' ' :: rest) reached
  | tab {column stop reached : Nat} {rest : List Char}
      (hstop : IsLeast {n | column < n ∧ 8 ∣ n} stop) (h : LeadsTo stop rest reached) :
      LeadsTo column ('\t' :: rest) reached
  | ends {column : Nat} {rest : List Char} (h : ∀ c ∈ rest.head?, c ≠ ' ' ∧ c ≠ '\t') :
      LeadsTo column rest column

variable {column a b : Nat} {line : List Char}

theorem isLeast_tabStop (column : Nat) : IsLeast {n | column < n ∧ 8 ∣ n} (column / 8 * 8 + 8) := by
  refine ⟨⟨by omega, by omega⟩, ?_⟩
  rintro n ⟨hlt, hdvd⟩
  omega

theorem leadsTo_tabbed (column : Nat) (line : List Char) :
    LeadsTo column line (indentWidth.tabbed column line) := by
  fun_induction indentWidth.tabbed column line with
  | case1 column rest ih => exact .tab (isLeast_tabStop column) ih
  | case2 column rest ih => exact .space ih
  | case3 column rest htab hspace =>
    refine .ends fun c hc => ?_
    obtain ⟨rest, rfl⟩ := List.head?_eq_some_iff.mp hc
    exact ⟨fun h => hspace rest (h ▸ rfl), fun h => htab rest (h ▸ rfl)⟩

theorem LeadsTo.unique (ha : LeadsTo column line a) (hb : LeadsTo column line b) : a = b := by
  induction ha with
  | space _ ih =>
    cases hb with
    | space hb => exact ih hb
    | ends h => exact absurd rfl (h ' ' rfl).1
  | tab hstop _ ih =>
    cases hb with
    | tab hstop' hb => exact ih (hstop'.unique hstop ▸ hb)
    | ends h => exact absurd rfl (h '\t' rfl).2
  | ends h =>
    cases hb with
    | space => exact absurd rfl (h ' ' rfl).1
    | tab => exact absurd rfl (h '\t' rfl).2
    | ends => rfl

theorem leadsTo_of_no_tab (column : Nat) (h : '\t' ∉ line) :
    LeadsTo column line (column + (line.takeWhile (· == ' ')).length) := by
  induction line generalizing column with
  | nil => exact .ends (by simp)
  | cons c rest ih =>
    obtain ⟨htab, hrest⟩ := List.ne_and_not_mem_of_not_mem_cons h
    by_cases hc : c = ' '
    · subst hc
      have hmore := ih (column + 1) hrest
      rw [Nat.add_assoc, Nat.add_comm 1] at hmore
      simpa using LeadsTo.space hmore
    · have hends : ∀ d ∈ (c :: rest).head?, d ≠ ' ' ∧ d ≠ '\t' := by simpa using ⟨hc, htab.symm⟩
      simpa [hc] using LeadsTo.ends hends

theorem length_takeWhile_isBlank_eq_iff :
    (line.takeWhile Text.isBlank).length = (line.takeWhile (· == ' ')).length ↔
      ∀ c ∈ line.takeWhile Text.isBlank, c = ' ' := by
  induction line with
  | nil => simp
  | cons c rest ih =>
    by_cases hc : c = ' '
    · subst hc
      have hblank : Text.isBlank ' ' = true := by decide
      simpa [hblank] using ih
    · cases hblank : Text.isBlank c <;> simp [hblank, hc]

theorem indentWidth_of_tab (h : '\t' ∈ line) : indentWidth line = indentWidth.tabbed 0 line := by
  rw [indentWidth, if_pos (by simpa using h)]

theorem indentWidth_of_no_tab (h : '\t' ∉ line) :
    indentWidth line = (line.takeWhile Text.isBlank).length := by
  rw [indentWidth, if_neg (by simpa using h)]

theorem leadsTo_indentWidth_iff :
    LeadsTo 0 line (indentWidth line) ↔
      '\t' ∈ line ∨ ∀ c ∈ line.takeWhile Text.isBlank, c = ' ' := by
  by_cases htab : '\t' ∈ line
  · rw [indentWidth_of_tab htab]
    exact iff_of_true (leadsTo_tabbed 0 line) (.inl htab)
  · have hway := leadsTo_of_no_tab 0 htab
    rw [Nat.zero_add] at hway
    rw [indentWidth_of_no_tab htab, ← length_takeWhile_isBlank_eq_iff]
    constructor
    · intro h
      exact .inr (h.unique hway)
    · rintro (h | h)
      · exact absurd h htab
      · exact h ▸ hway

theorem isInlineBlank_iff {c : Char} :
    Text.isInlineBlank c = true ↔ c = ' ' ∨ c = '\t' ∨ c = '\x0c' := by
  simp [Text.isInlineBlank, or_assoc]

/-- Of what may stand before the first token of a line, the width is the column that its spaces and
tabs lead to exactly if there is a tab or no form feed: without tabs every character counts one. -/
theorem indentWidth_by_spaces_and_tabs_iff (hline : ∀ c ∈ line, Text.isInlineBlank c = true) :
    (LeadsTo 0 line (indentWidth line) ↔ '\t' ∈ line ∨ '\x0c' ∉ line) ∧
      ('\t' ∉ line → indentWidth line = line.length) := by
  have hblank : line.takeWhile Text.isBlank = line := by
    apply List.takeWhile_eq_self_iff.mpr
    intro c hc
    rcases isInlineBlank_iff.mp (hline c hc) with rfl | rfl | rfl <;> decide
  constructor
  · rw [leadsTo_indentWidth_iff, hblank]
    refine or_congr_right' fun htab => ⟨fun h hfeed => ?_, fun hfeed c hc => ?_⟩
    · exact absurd (h _ hfeed) (by decide)
    · rcases isInlineBlank_iff.mp (hline c hc) with h | rfl | rfl
      · exact h
      · exact absurd hc htab
      · exact absurd hc hfeed
  · intro htab
    rw [indentWidth_of_no_tab htab, hblank]

theorem indentWidth_by_tab :
    (∀ c ∈ [' ', ' ', '\t', ' ', '\x0c'], Text.isInlineBlank c = true) ∧
      LeadsTo 0 [' ', ' ', '\t', ' ', '\x0c'] 9 := by
  have hline : ∀ c ∈ [' ', ' ', '\t', ' ', '\x0c'], Text.isInlineBlank c = true := by decide
  exact ⟨hline, (indentWidth_by_spaces_and_tabs_iff hline).1.mpr (by decide)⟩

/-- A form feed leads nowhere, but it has the width one, and none with a tab after it. -/
theorem indentWidth_form_feed :
    (∀ c ∈ ['\x0c'], Text.isInlineBlank c = true) ∧ LeadsTo 0 ['\x0c'] 0 ∧
      ¬ LeadsTo 0 ['\x0c'] (indentWidth ['\x0c']) ∧ indentWidth ['\x0c'] = 1 ∧
      indentWidth ['\x0c', '\t'] = 0 := by
  have hends : LeadsTo 0 ['\x0c'] 0 := .ends (by decide)
  refine ⟨by decide, hends, fun h => ?_, by decide, by decide⟩
  exact absurd (hends.unique h) (by decide)

end LintRunner.Source
