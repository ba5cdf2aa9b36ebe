import LintRunner.Proofs.PlaceOrder
import LintRunner.Proofs.Stateful
import LintRunner.Statistics
import Mathlib.Data.List.Induction
import Mathlib.Data.List.Sort
import Mathlib.Data.Prod.Lex
import Mathlib.Data.String.Basic

/-!
# Statistics tally violations

Violations are counted by the file they lie in and by their code. Whatever is recorded, and in which
order files and codes alternate, there is one statistic for each file and code that occur together:
it counts their violations and keeps the text of the first one.
-/

namespace LintRunner

open Stateful

namespace Value

theorem sortBy_rank {α β γ : Type} [LinearOrder γ] {f : α → β} {key : β → Value} {xs : List α}
    (rank : α → γ)
    (h : ∀ a ∈ xs, ∀ b ∈ xs, (key (f a)).precedes? (key (f b)) = some (decide (rank a < rank b))) :
    sortBy key (xs.map f) = .ok ((xs.mergeSort fun a b => decide (rank a ≤ rank b)).map f) := by
  rw [sortBy_of_precedes h]
  congr 3
  funext a b
  rw [Bool.eq_iff_iff]
  simp

theorem precedes?_texts (a b m n : String) :
    precedes? (.tuple [.text a, .text b]) (.tuple [.text m, .text n]) =
      some (decide (toLex (a, b) < toLex (m, n))) := by
  rw [precedes?]
  simp only [itemsPrecede?, same_text, precedes?_text, Text.lt, Prod.Lex.toLex_lt_toLex]
  by_cases ham : a = m
  · by_cases hbn : b = n <;> simp [ham, hbn]
  · simp [ham]

end Value

theorem pairwise_lt_mergeSort {α β : Type} [LinearOrder β] {rank : α → β}
    (hinj : Function.Injective rank) {xs : List α} (hxs : xs.Nodup) :
    (xs.mergeSort fun a b => decide (rank a ≤ rank b)).Pairwise fun a b => rank a < rank b := by
  have hsorted : (xs.mergeSort fun a b => decide (rank a ≤ rank b)).Pairwise fun a b =>
      decide (rank a ≤ rank b) = true := by
    refine List.pairwise_mergeSort (fun a b c hab hbc => ?_) (fun a b => ?_) xs
    · simp only [decide_eq_true_eq] at hab hbc ⊢
      exact hab.trans hbc
    · simpa using le_total (rank a) (rank b)
  have hnodup : (xs.mergeSort fun a b => decide (rank a ≤ rank b)).Nodup :=
    (List.mergeSort_perm xs _).nodup_iff.mpr hxs
  refine (hsorted.and hnodup).imp fun hab => ?_
  exact lt_of_le_of_ne (by simpa using hab.1) fun heq => hab.2 (hinj heq)

namespace Violation

/-- File and code are texts. -/
def IsNamed (v : Violation) : Prop :=
  ∃ file code : String, v.file = .text file ∧ v.code = .text code

def isOf (pair : String × String) (v : Violation) : Bool :=
  v.file = .text pair.1 && v.code = .text pair.2

variable {v : Violation} {pair : String × String}

theorem isOf_iff : v.isOf pair = true ↔ v.file = .text pair.1 ∧ v.code = .text pair.2 := by
  simp [isOf]

theorem IsNamed.exists_isOf (h : v.IsNamed) : ∃ pair, v.isOf pair = true := by
  obtain ⟨file, code, hfile, hcode⟩ := h
  exact ⟨(file, code), isOf_iff.mpr ⟨hfile, hcode⟩⟩

theorem eq_of_isOf {other : String × String} (h : v.isOf pair = true)
    (hother : v.isOf other = true) : other = pair := by
  obtain ⟨hfile, hcode⟩ := isOf_iff.mp h
  obtain ⟨hfile', hcode'⟩ := isOf_iff.mp hother
  have hfiles : other.1 = pair.1 := by simpa using hfile'.symm.trans hfile
  have hcodes : other.2 = pair.2 := by simpa using hcode'.symm.trans hcode
  exact Prod.ext hfiles hcodes

end Violation

namespace Statistics

variable {vs ws : List Violation} {v : Violation} {pair : String × String}
  {pairs : List (String × String)}

/-- What violations amount to for a file and a code: the text of the first one, and their number. -/
def tally (vs : List Violation) (pair : String × String) : Statistic where
  code := .text pair.2
  file := .text pair.1
  message := ((vs.find? (·.isOf pair)).map (·.text)).getD .none
  count := vs.countP (·.isOf pair)

variable {entries : List Statistic}

theorem tally_concat_of_not (h : v.isOf pair = false) :
    tally (vs ++ [v]) pair = tally vs pair := by
  unfold tally
  rw [List.find?_append, List.find?_singleton, h, List.countP_append, List.countP_singleton, h]
  simp

theorem tally_concat_of_seen (h : v.isOf pair = true) (hseen : ∃ u ∈ vs, u.isOf pair = true) :
    tally (vs ++ [v]) pair = { tally vs pair with count := (tally vs pair).count + 1 } := by
  obtain ⟨first, hfirst⟩ := Option.isSome_iff_exists.mp (List.find?_isSome.mpr hseen)
  unfold tally
  rw [List.find?_append, hfirst, List.countP_append, List.countP_singleton, if_pos h]
  rfl

theorem tally_concat_of_new (h : v.isOf pair = true) (hnew : ¬ ∃ u ∈ vs, u.isOf pair = true) :
    tally (vs ++ [v]) pair = ⟨v.code, v.file, v.text, 1⟩ := by
  obtain ⟨hfile, hcode⟩ := Violation.isOf_iff.mp h
  have hnone : ∀ u ∈ vs, ¬ u.isOf pair = true := fun u hu hof => hnew ⟨u, hu, hof⟩
  unfold tally
  rw [List.find?_append, List.find?_eq_none.mpr hnone, List.find?_singleton, if_pos h,
    List.countP_append, List.countP_eq_zero.mpr hnone, List.countP_singleton, if_pos h, hfile,
    hcode]
  rfl

/-- The statistics are those of some files and codes, each pair once: those that the violations
have. -/
structure Tallied (vs : List Violation) (pairs : List (String × String))
    (entries : List Statistic) : Prop where
  entries_eq : entries = pairs.map (tally vs)
  nodup : pairs.Nodup
  mem_iff : ∀ pair, pair ∈ pairs ↔ ∃ v ∈ vs, v.isOf pair = true

/-- A violation is counted where its file and code have a statistic, and otherwise it starts one. -/
theorem recordIn_tallies (hv : v.isOf pair = true) (hnodup : pairs.Nodup)
    (hseen : ∀ p ∈ pairs, ∃ u ∈ vs, u.isOf p = true) :
    recordIn v (pairs.map (tally vs)) = pairs.map (tally (vs ++ [v])) ++
      if pair ∈ pairs then [] else [⟨v.code, v.file, v.text, 1⟩] := by
  obtain ⟨hfile, hcode⟩ := Violation.isOf_iff.mp hv
  induction pairs with
  | nil => rfl
  | cons p rest ih =>
    obtain ⟨hp, hrest⟩ := List.nodup_cons.mp hnodup
    obtain ⟨hfirst, hothers⟩ := List.forall_mem_cons.mp hseen
    have htest : ((tally vs p).code.same v.code && (tally vs p).file.same v.file) =
        decide (p = pair) := by
      rw [hfile, hcode, tally, Value.same_text, Value.same_text, Bool.eq_iff_iff,
        Bool.and_eq_true, beq_iff_eq, beq_iff_eq, decide_eq_true_iff, Prod.ext_iff, and_comm]
    rw [List.map_cons, recordIn, htest]
    by_cases hsame : p = pair
    · subst hsame
      have hkept : rest.map (tally (vs ++ [v])) = rest.map (tally vs) := by
        refine List.map_congr_left fun q hq => tally_concat_of_not ?_
        exact Bool.eq_false_iff.mpr fun hof => hp (Violation.eq_of_isOf hv hof ▸ hq)
      rw [if_pos (decide_eq_true rfl), if_pos List.mem_cons_self, List.map_cons, hkept,
        tally_concat_of_seen hv hfirst, List.append_nil]
    · have hnot : v.isOf p = false :=
        Bool.eq_false_iff.mpr fun hof => hsame (Violation.eq_of_isOf hv hof)
      have hmem : pair ∈ p :: rest ↔ pair ∈ rest := by simp [Ne.symm hsame]
      rw [if_neg (by simpa using hsame), ih hrest hothers, List.map_cons,
        tally_concat_of_not hnot, List.cons_append]
      simp only [hmem]

theorem Tallied.record (h : Tallied vs pairs entries)
    (hv : v.isOf pair = true) : ∃ pairs', Tallied (vs ++ [v]) pairs' (recordIn v entries) := by
  have hseen : ∀ p ∈ pairs, ∃ u ∈ vs, u.isOf p = true := fun p hp => (h.mem_iff p).mp hp
  have hrecord := recordIn_tallies hv h.nodup hseen
  rw [← h.entries_eq] at hrecord
  have hmem : ∀ p, (∃ u ∈ vs ++ [v], u.isOf p = true) ↔ p ∈ pairs ∨ p = pair := by
    intro p
    rw [h.mem_iff]
    constructor
    · rintro ⟨u, hu, hof⟩
      rcases List.mem_append.mp hu with hu | hu
      · exact .inl ⟨u, hu, hof⟩
      · cases List.mem_singleton.mp hu
        exact .inr (Violation.eq_of_isOf hv hof)
    · rintro (⟨u, hu, hof⟩ | rfl)
      · exact ⟨u, List.mem_append_left _ hu, hof⟩
      · exact ⟨v, List.mem_append_right _ (List.mem_singleton_self v), hv⟩
  by_cases hpair : pair ∈ pairs
  · rw [if_pos hpair, List.append_nil] at hrecord
    refine ⟨pairs, hrecord, h.nodup, fun p => ?_⟩
    rw [hmem, or_iff_left_of_imp]
    rintro rfl
    exact hpair
  · rw [if_neg hpair] at hrecord
    refine ⟨pairs ++ [pair], ?_, ?_, fun p => ?_⟩
    · rw [hrecord, List.map_append, List.map_singleton,
        tally_concat_of_new hv fun hold => hpair ((h.mem_iff pair).mpr hold)]
    · exact List.nodup_append.mpr ⟨h.nodup, List.pairwise_singleton _ pair, fun p hp q hq heq =>
        hpair (List.mem_singleton.mp hq ▸ heq ▸ hp)⟩
    · rw [hmem, List.mem_append, List.mem_singleton]

theorem exists_tallied (hvs : ∀ v ∈ vs, v.IsNamed) :
    ∃ stats pairs, vs.foldlM record {} = .ok stats ∧ Tallied vs pairs stats.entries := by
  induction vs using List.reverseRecOn with
  | nil => exact ⟨{}, [], rfl, rfl, List.nodup_nil, by simp⟩
  | append_singleton init v ih =>
    obtain ⟨hinit, hv⟩ := List.forall_mem_append.mp hvs
    obtain ⟨stats, pairs, hstats, htallied⟩ := ih hinit
    obtain ⟨pair, hpair⟩ := (List.forall_mem_singleton.mp hv).exists_isOf
    obtain ⟨pairs', htallied'⟩ := htallied.record hpair
    refine ⟨⟨recordIn v stats.entries⟩, pairs', ?_, htallied'⟩
    obtain ⟨hfile, hcode⟩ := Violation.isOf_iff.mp hpair
    rw [List.foldlM_append, hstats]
    simp [bind, Except.bind, record, hfile, hcode, Value.isHashable, pure, Except.pure]

/-- A file and a code are asked for: the code starts so, and the file is the given one if any. -/
def isWanted (start : String) (file : Option String) (pair : String × String) : Bool :=
  Text.startsWith pair.2 start && file.all (· = pair.1)

theorem concerns_tally (start : String) (file : Option String) (pair : String × String) :
    concerns (.text start) ((file.map Value.text).getD .none) (tally vs pair) =
      .ok (isWanted start file pair) := by
  unfold concerns tally isWanted
  cases file with
  | none => rfl
  | some f =>
    dsimp only [Option.map_some, Option.getD_some]
    rw [Value.same_text, Option.all_some, beq_eq_decide]
    simp only [eq_comm, Bool.false_or]

def wanted (start : String) (file : Option String) (pairs : List (String × String)) :
    List (String × String) :=
  (pairs.filter (isWanted start file)).mergeSort fun p q => decide (toLex p ≤ toLex q)

theorem Tallied.select {stats : Statistics} (h : Tallied vs pairs stats.entries) (start : String)
    (file : Option String) :
    stats.select (.text start) ((file.map Value.text).getD .none) =
      .ok ((wanted start file pairs).map (tally vs)) := by
  have hfilter : stats.entries.filterM
      (concerns (.text start) ((file.map Value.text).getD .none)) =
        .ok ((pairs.filter (isWanted start file)).map (tally vs)) := by
    rw [h.entries_eq]
    exact filterM_map_ok fun p _ => concerns_tally start file p
  unfold Statistics.select
  rw [hfilter]
  exact Value.sortBy_rank toLex fun p _ q _ => Value.precedes?_texts p.1 p.2 q.1 q.2

theorem Tallied.pairwise_wanted (h : Tallied vs pairs entries)
    (start : String) (file : Option String) :
    (wanted start file pairs).Pairwise fun p q => toLex p < toLex q :=
  pairwise_lt_mergeSort toLex.injective (h.nodup.filter _)

theorem isWanted_iff {start : String} {file : Option String} :
    isWanted start file pair = true ↔ start.toList <+: pair.2.toList ∧ ∀ f ∈ file, pair.1 = f := by
  rw [isWanted, Text.startsWith, Bool.and_eq_true, List.isPrefixOf_iff_prefix]
  cases file <;> simp [eq_comm]

theorem Tallied.mem_wanted_iff (h : Tallied vs pairs entries)
    {start : String} {file : Option String} :
    pair ∈ wanted start file pairs ↔
      (∃ v ∈ vs, v.isOf pair = true) ∧ start.toList <+: pair.2.toList ∧ ∀ f ∈ file, pair.1 = f := by
  rw [wanted, List.mem_mergeSort, List.mem_filter, h.mem_iff, isWanted_iff]

theorem tally_congr (h : ws.filter (·.isOf pair) = vs.filter (·.isOf pair)) :
    tally ws pair = tally vs pair := by
  unfold tally
  rw [← List.head?_filter, h, List.head?_filter, List.countP_eq_length_filter, h,
    ← List.countP_eq_length_filter]

/-- Selecting by the start of a code, and by a file if one is given, gives a statistic for each file
and code of the violations that were recorded, in the order of files and then codes, with the text
of the first of their violations and with their number. The order in which violations of different
files or codes were recorded does not matter. -/
theorem select_tallies {vs : List Violation} (hvs : ∀ v ∈ vs, v.IsNamed) (start : String)
    (file : Option String) :
    ∃ (stats : Statistics) (pairs : List (String × String)), vs.foldlM record {} = .ok stats ∧
      stats.select (.text start) ((file.map Value.text).getD .none) =
        .ok (pairs.map (tally vs)) ∧
      pairs.Pairwise (fun p q => toLex p < toLex q) ∧
      (∀ pair, pair ∈ pairs ↔ (∃ v ∈ vs, v.isOf pair = true) ∧
        start.toList <+: pair.2.toList ∧ ∀ f ∈ file, pair.1 = f) ∧
      ∀ ws : List Violation, ws.Perm vs →
        (∀ pair, ws.filter (·.isOf pair) = vs.filter (·.isOf pair)) →
        ∃ stats', ws.foldlM record {} = .ok stats' ∧
          stats'.select (.text start) ((file.map Value.text).getD .none) =
            .ok (pairs.map (tally vs)) := by
  obtain ⟨stats, recorded, hstats, htallied⟩ := exists_tallied hvs
  refine ⟨stats, wanted start file recorded, hstats, htallied.select start file,
    htallied.pairwise_wanted start file, fun pair => htallied.mem_wanted_iff, ?_⟩
  intro ws hperm hsame
  obtain ⟨stats', recorded', hstats', htallied'⟩ :=
    exists_tallied fun w hw => hvs w (hperm.mem_iff.mp hw)
  refine ⟨stats', hstats', ?_⟩
  have hmem : ∀ p, p ∈ wanted start file recorded' ↔ p ∈ wanted start file recorded := by
    intro p
    rw [htallied'.mem_wanted_iff, htallied.mem_wanted_iff]
    simp only [hperm.mem_iff]
  have hpairs : wanted start file recorded' = wanted start file recorded :=
    (htallied'.pairwise_wanted start file).eq_of_mem_iff (htallied.pairwise_wanted start file) hmem
  rw [htallied'.select, hpairs, List.map_congr_left fun p _ => tally_congr (hsame p)]

def scattered : List Violation :=
  [⟨.text "E2", .text "b.py", .int 4, .int 1, .text "two", .none⟩,
    ⟨.text "E1", .text "a.py", .int 1, .int 1, .text "one", .none⟩,
    ⟨.text "W1", .text "a.py", .int 2, .int 1, .text "warned", .none⟩,
    ⟨.text "E1", .text "b.py", .int 9, .int 1, .text "other", .none⟩,
    ⟨.text "E1", .text "a.py", .int 7, .int 1, .text "again", .none⟩]

theorem select_tallies_scattered :
    (∀ v ∈ scattered, v.IsNamed) ∧ ∃ stats : Statistics, scattered.foldlM record {} = .ok stats ∧
      stats.select (.text "E") .none = .ok
        [⟨.text "E1", .text "a.py", .text "one", 2⟩, ⟨.text "E1", .text "b.py", .text "other", 1⟩,
          ⟨.text "E2", .text "b.py", .text "two", 1⟩] := by
  have hnamed : ∀ v ∈ scattered, v.IsNamed := by
    simp [scattered, Violation.IsNamed]
  obtain ⟨stats, pairs, hstats, hselect, hsorted, hmem, -⟩ := select_tallies hnamed "E" none
  refine ⟨hnamed, stats, hstats, ?_⟩
  have hpairs : pairs = [("a.py", "E1"), ("b.py", "E1"), ("b.py", "E2")] := by
    refine hsorted.eq_of_mem_iff (by decide +kernel) ?_
    rintro ⟨file, code⟩
    have hall : (∃ v ∈ scattered, v.isOf (file, code) = true) ↔
        (file, code) ∈ [("b.py", "E2"), ("a.py", "E1"), ("a.py", "W1"), ("b.py", "E1")] := by
      simp only [scattered, List.mem_cons, List.not_mem_nil, exists_eq_or_imp, Violation.isOf_iff,
        Value.text.injEq, Prod.mk.injEq]
      grind
    rw [hmem, hall]
    constructor
    · rintro ⟨hmem, hstart, -⟩
      simp only [List.mem_cons, List.not_mem_nil] at hmem
      rcases hmem with h | h | h | h | h
      all_goals cases h
      all_goals revert hstart; decide +kernel
    · intro hpair
      simp only [List.mem_cons, List.not_mem_nil] at hpair
      rcases hpair with h | h | h | h
      all_goals cases h
      all_goals decide +kernel
  rw [hpairs] at hselect
  exact hselect

end Statistics

end LintRunner
