import LintRunner.Proofs.Tallies
import LintRunner.Report.Formatter
import Mathlib.Algebra.BigOperators.Group.List.Lemmas
import Mathlib.Algebra.Ring.Nat

/-!
# Totals by code

A report of statistics has a line for each code that was recorded, in order. Statistics are selected
by the start of a code, so the line for a code counts the violations of every code that starts with
it, and takes its text from the first of their files. The lines are those of the single codes, and
their counts add up to the number of violations, just when no recorded code starts with another one.
-/

namespace LintRunner

open Stateful

theorem countP_eq_sum {α : Type} (p : α → Bool) (l : List α) :
    l.countP p = (l.map fun a => if p a then 1 else 0).sum := by
  induction l with
  | nil => rfl
  | cons a rest ih => simp only [List.countP_cons, List.map_cons, List.sum_cons, ih, add_comm]

theorem sum_countP_comm {α ι : Type} (p : ι → α → Bool) (kinds : List ι) (l : List α) :
    (kinds.map fun i => l.countP (p i)).sum = (l.map fun a => kinds.countP (p · a)).sum := by
  induction kinds with
  | nil => simp
  | cons i rest ih =>
    simp only [List.map_cons, List.sum_cons, ih, countP_eq_sum (p i), List.countP_cons,
      List.sum_map_add, add_comm]

theorem sum_map_eq_length_iff {α : Type} {n : α → Nat} {l : List α} (h : ∀ a ∈ l, 1 ≤ n a) :
    (l.map n).sum = l.length ↔ ∀ a ∈ l, n a = 1 := by
  induction l with
  | nil => simp
  | cons a rest ih =>
    obtain ⟨ha, hrest⟩ := List.forall_mem_cons.mp h
    have hleast : rest.length ≤ (rest.map n).sum := by
      simpa using List.length_le_sum_of_one_le (rest.map n) (by simpa using hrest)
    rw [List.forall_mem_cons, ← ih hrest, List.map_cons, List.sum_cons, List.length_cons]
    omega

theorem Value.distinct_texts (xs : List String) :
    ∃ ys : List String, distinct (xs.map .text) = ys.map .text ∧ ys.Nodup ∧
      ∀ s, s ∈ ys ↔ s ∈ xs := by
  have hfold : ∀ (seen : List String), seen.Nodup → ∃ ys : List String,
      (xs.map Value.text).foldl
        (fun seen v => if seen.any (same v) then seen else seen ++ [v]) (seen.map .text) =
          ys.map .text ∧ ys.Nodup ∧ ∀ s, s ∈ ys ↔ s ∈ seen ∨ s ∈ xs := by
    induction xs with
    | nil => exact fun seen hseen => ⟨seen, rfl, hseen, by simp⟩
    | cons x rest ih =>
      intro seen hseen
      have hany : (seen.map Value.text).any (same (.text x)) = decide (x ∈ seen) := by
        rw [Bool.eq_iff_iff]
        simp [same_text]
      rw [List.map_cons, List.foldl_cons, hany]
      by_cases hx : x ∈ seen
      · obtain ⟨ys, hys, hnodup, hmem⟩ := ih seen hseen
        refine ⟨ys, by rw [if_pos (decide_eq_true hx), hys], hnodup, fun s => ?_⟩
        rw [hmem, List.mem_cons]
        grind
      · have hlonger : (seen ++ [x]).Nodup := by
          rw [List.nodup_append]
          exact ⟨hseen, List.pairwise_singleton _ x, by grind⟩
        obtain ⟨ys, hys, hnodup, hmem⟩ := ih (seen ++ [x]) hlonger
        refine ⟨ys, ?_, hnodup, fun s => ?_⟩
        · rw [if_neg (by simpa using hx), ← hys, List.map_append, List.map_singleton]
        · rw [hmem, List.mem_append, List.mem_singleton, List.mem_cons, or_assoc]
  simpa [distinct] using hfold [] List.nodup_nil

theorem Value.sorted_texts (xs : List String) :
    sorted (xs.map .text) = .ok ((xs.mergeSort fun a b => decide (a ≤ b)).map .text) :=
  sortBy_rank id fun a _ b _ => precedes?_text a b

namespace Violation

def codeStarts (start : String) (v : Violation) : Bool :=
  match v.code with
  | .text code => Text.startsWith code start
  | _ => false

theorem codeStarts_of_isOf {v : Violation} {pair : String × String} (h : v.isOf pair = true)
    (start : String) : v.codeStarts start = Text.startsWith pair.2 start := by
  rw [codeStarts, (isOf_iff.mp h).2]

theorem codeStarts_self {v : Violation} {code : String} (h : v.code = .text code) :
    v.codeStarts code = true := by
  rw [codeStarts, h]
  exact List.isPrefixOf_iff_prefix.mpr List.prefix_rfl

end Violation

/-- No code of a violation starts the code of another one. -/
def CodesApart (vs : List Violation) : Prop :=
  ∀ v ∈ vs, ∀ w ∈ vs, ∀ code, v.code = .text code → w.codeStarts code = true → w.code = .text code

/-- A line of the statistics. -/
structure Total where
  count : Nat
  code : String
  message : Value

namespace Total

def line (t : Total) : String :=
  Text.padEnd 5 (toString t.count) ++ " " ++ t.code ++ " " ++ t.message.plain

/-- The total counts all violations whose codes start with its own one, and its text is that of the
file and code that come first among them. -/
structure Covers (vs : List Violation) (t : Total) : Prop where
  count_eq : t.count = vs.countP (·.codeStarts t.code)
  message_eq : ∃ pair, (∃ v ∈ vs, v.isOf pair = true) ∧ t.code.toList <+: pair.2.toList ∧
    (∀ other, (∃ v ∈ vs, v.isOf other = true) → t.code.toList <+: other.2.toList →
      toLex pair ≤ toLex other) ∧ t.message = (Statistics.tally vs pair).message

/-- The total counts the violations with its code, and its text is that of one of them. -/
structure IsExact (vs : List Violation) (t : Total) : Prop where
  count_eq : t.count = vs.countP fun v => v.code = .text t.code
  message_eq : ∃ v ∈ vs, v.code = .text t.code ∧ t.message = v.text

end Total

namespace Statistics

variable {vs : List Violation} {pairs : List (String × String)} {stats : Statistics}

theorem Tallied.codes (h : Tallied vs pairs stats.entries) (hvs : ∀ v ∈ vs, v.IsNamed) :
    ∃ codes : List String, stats.codes = .ok (codes.map .text) ∧ codes.Pairwise (· < ·) ∧
      ∀ code, code ∈ codes ↔ ∃ v ∈ vs, v.code = .text code := by
  obtain ⟨distinct, hdistinct, hnodup, hmem⟩ := Value.distinct_texts (pairs.map (·.2))
  refine ⟨distinct.mergeSort fun a b => decide (a ≤ b), ?_,
    pairwise_lt_mergeSort Function.injective_id hnodup, fun code => ?_⟩
  · have hcodes : stats.entries.map (·.code) = (pairs.map (·.2)).map .text := by
      rw [h.entries_eq, List.map_map, List.map_map]
      rfl
    rw [Statistics.codes, hcodes, hdistinct, Value.sorted_texts]
  · rw [List.mem_mergeSort, hmem, List.mem_map]
    constructor
    · rintro ⟨pair, hpair, rfl⟩
      obtain ⟨v, hv, hof⟩ := (h.mem_iff pair).mp hpair
      exact ⟨v, hv, (Violation.isOf_iff.mp hof).2⟩
    · rintro ⟨v, hv, hcode⟩
      obtain ⟨file, -, hfile, -⟩ := hvs v hv
      exact ⟨(file, code), (h.mem_iff _).mpr ⟨v, hv, Violation.isOf_iff.mpr ⟨hfile, hcode⟩⟩, rfl⟩

theorem Tallied.sum_counts (h : Tallied vs pairs stats.entries) (hvs : ∀ v ∈ vs, v.IsNamed)
    (start : String) :
    ((wanted start none pairs).map fun p => (tally vs p).count).sum =
      vs.countP (·.codeStarts start) := by
  have hone : ∀ v ∈ vs, (wanted start none pairs).countP (fun p => v.isOf p) =
      if v.codeStarts start then 1 else 0 := by
    intro v hv
    obtain ⟨pair, hpair⟩ := (hvs v hv).exists_isOf
    have hcount : (wanted start none pairs).countP (fun p => v.isOf p) =
        (wanted start none pairs).count pair := by
      refine List.countP_congr fun p _ => ?_
      rw [beq_iff_eq]
      exact ⟨Violation.eq_of_isOf hpair, fun heq => heq ▸ hpair⟩
    have hnodup : (wanted start none pairs).Nodup :=
      (h.pairwise_wanted start none).imp fun hlt heq => absurd (heq ▸ hlt) (lt_irrefl _)
    have hmem : pair ∈ wanted start none pairs ↔ v.codeStarts start = true := by
      rw [h.mem_wanted_iff, Violation.codeStarts_of_isOf hpair, Text.startsWith,
        List.isPrefixOf_iff_prefix]
      simpa using fun _ => ⟨v, hv, hpair⟩
    rw [hcount, hnodup.count]
    simp only [hmem]
  calc ((wanted start none pairs).map fun p => (tally vs p).count).sum
      = (vs.map fun v => (wanted start none pairs).countP fun p => v.isOf p).sum :=
        sum_countP_comm (fun p v => v.isOf p) _ vs
    _ = vs.countP (·.codeStarts start) := by rw [countP_eq_sum, List.map_congr_left hone]

theorem exists_tally_message {pair : String × String} (h : ∃ v ∈ vs, v.isOf pair = true) :
    ∃ v ∈ vs, v.isOf pair = true ∧ (tally vs pair).message = v.text := by
  obtain ⟨first, hfirst⟩ := Option.isSome_iff_exists.mp (List.find?_isSome.mpr h)
  refine ⟨first, List.mem_of_find?_eq_some hfirst, List.find?_some hfirst, ?_⟩
  rw [tally, hfirst]
  rfl

def total (vs : List Violation) (pairs : List (String × String)) (code : String) : Total where
  count := ((wanted code none pairs).map fun p => (tally vs p).count).sum
  code := code
  message := ((wanted code none pairs).head?.map fun p => (tally vs p).message).getD .none

theorem Tallied.exists_wanted (h : Tallied vs pairs stats.entries) (hvs : ∀ v ∈ vs, v.IsNamed)
    {code : String} (hcode : ∃ v ∈ vs, v.code = .text code) :
    ∃ first rest, wanted code none pairs = first :: rest := by
  obtain ⟨v, hv, hcode⟩ := hcode
  obtain ⟨file, -, hfile, -⟩ := hvs v hv
  have hmem : (file, code) ∈ wanted code none pairs :=
    h.mem_wanted_iff.mpr ⟨⟨v, hv, Violation.isOf_iff.mpr ⟨hfile, hcode⟩⟩, List.prefix_rfl, by simp⟩
  exact List.exists_cons_of_ne_nil (List.ne_nil_of_mem hmem)

theorem Tallied.covers_total (h : Tallied vs pairs stats.entries) (hvs : ∀ v ∈ vs, v.IsNamed)
    {code : String} (hcode : ∃ v ∈ vs, v.code = .text code) : (total vs pairs code).Covers vs := by
  obtain ⟨first, rest, hwanted⟩ := h.exists_wanted hvs hcode
  refine ⟨h.sum_counts hvs code, first, ?_⟩
  have hfirst : first ∈ wanted code none pairs := hwanted ▸ List.mem_cons_self
  obtain ⟨hseen, hstart, -⟩ := h.mem_wanted_iff.mp hfirst
  refine ⟨hseen, hstart, fun other hother hstart' => ?_, by rw [total, hwanted]; rfl⟩
  have hmem : other ∈ wanted code none pairs :=
    h.mem_wanted_iff.mpr ⟨hother, hstart', by simp⟩
  have hsorted := h.pairwise_wanted code none
  rw [hwanted] at hmem hsorted
  rcases List.mem_cons.mp hmem with rfl | hrest
  · exact le_rfl
  · exact (List.rel_of_pairwise_cons hsorted hrest).le

theorem foldl_count (n : Nat) (entries : List Statistic) :
    entries.foldl (fun n s => n + s.count) n = n + (entries.map (·.count)).sum := by
  induction entries generalizing n with
  | nil => rfl
  | cons s rest ih => rw [List.foldl_cons, ih, List.map_cons, List.sum_cons, add_assoc]

end Statistics

namespace Formatter

open Statistics

variable {vs : List Violation} {pairs : List (String × String)} {stats : Statistics} {f : Formatter}

theorem forIn_map_eq_forM {α β : Type} {name : α → β} {round : β → PUnit → Run (ForInStep PUnit)}
    {l : List α} (work : α → Run Unit)
    (h : ∀ a ∈ l, round (name a) ⟨⟩ = work a >>= fun _ => pure (.yield ⟨⟩)) :
    forIn (l.map name) ⟨⟩ round = l.forM work := by
  induction l with
  | nil => rfl
  | cons a rest ih =>
    obtain ⟨ha, hrest⟩ := List.forall_mem_cons.mp h
    rw [List.map_cons, List.forIn_cons, ha, bind_assoc]
    simp only [pure_bind, ih hrest]
    rfl

theorem showStatistics_eq (hf : f.style ≠ .foreign) (h : Tallied vs pairs stats.entries)
    (hvs : ∀ v ∈ vs, v.IsNamed) {codes : List String} (hcodes : stats.codes = .ok (codes.map .text))
    (hmem : ∀ code ∈ codes, ∃ v ∈ vs, v.code = .text code) :
    f.showStatistics stats = codes.forM fun c => f.writeText (.text (total vs pairs c).line) := by
  have hrequire : f.require = pure () := if_neg hf
  unfold showStatistics
  rw [hrequire, hcodes]
  simp only [pure_bind, Run.lift]
  rw [forIn_map_eq_forM fun c => f.writeText (.text (total vs pairs c).line)]
  · exact bind_pure _
  · intro code hcode
    obtain ⟨first, rest, hwanted⟩ := h.exists_wanted hvs (hmem code hcode)
    have hselect : stats.select (.text code) .none =
        .ok (tally vs first :: rest.map (tally vs)) := by
      simpa [hwanted] using h.select code none
    have hline : (total vs pairs code).line =
        Text.padEnd 5 (toString ((rest.map (tally vs)).foldl (fun n s => n + s.count)
          (tally vs first).count)) ++ " " ++ code ++ " " ++ (tally vs first).message.plain := by
      rw [foldl_count, List.map_map, Total.line, total, hwanted]
      rfl
    rw [hselect, hline]
    rfl

end Formatter

namespace Total

variable {vs : List Violation} {t : Total}

theorem Covers.isExact_iff (h : t.Covers vs) :
    t.IsExact vs ↔ ∀ w ∈ vs, w.codeStarts t.code = true → w.code = .text t.code := by
  have himplies : ∀ v : Violation, decide (v.code = .text t.code) = true →
      v.codeStarts t.code = true :=
    fun v hcode => Violation.codeStarts_self (of_decide_eq_true hcode)
  constructor
  · intro hexact w hw hstarts
    -- the violations with the code are among those whose code starts so, and as many
    have hsub := List.monotone_filter_right vs himplies
    have hlength : (vs.filter fun v => decide (v.code = .text t.code)).length =
        (vs.filter (·.codeStarts t.code)).length := by
      rw [← List.countP_eq_length_filter, ← List.countP_eq_length_filter, ← h.count_eq,
        hexact.count_eq]
    have hmem : w ∈ vs.filter (·.codeStarts t.code) := List.mem_filter.mpr ⟨hw, hstarts⟩
    rw [← hsub.eq_of_length hlength] at hmem
    exact of_decide_eq_true (List.mem_filter.mp hmem).2
  · intro hsame
    refine ⟨?_, ?_⟩
    · rw [h.count_eq]
      refine List.countP_congr fun v hv => ⟨fun hstarts => ?_, himplies v⟩
      exact decide_eq_true (hsame v hv hstarts)
    · obtain ⟨pair, hseen, hstart, -, hmessage⟩ := h.message_eq
      obtain ⟨v, hv, hof, htext⟩ := Statistics.exists_tally_message hseen
      refine ⟨v, hv, hsame v hv ?_, hmessage.trans htext⟩
      rw [Violation.codeStarts_of_isOf hof]
      exact List.isPrefixOf_iff_prefix.mpr hstart

variable {totals : List Total}

theorem forall_isExact_iff (hcovers : ∀ t ∈ totals, t.Covers vs)
    (hcodes : ∀ code, code ∈ totals.map (·.code) ↔ ∃ v ∈ vs, v.code = .text code) :
    (∀ t ∈ totals, t.IsExact vs) ↔ CodesApart vs := by
  constructor
  · intro hexact v hv w hw code hcode hstarts
    obtain ⟨t, ht, rfl⟩ := List.mem_map.mp ((hcodes code).mpr ⟨v, hv, hcode⟩)
    exact (hcovers t ht).isExact_iff.mp (hexact t ht) w hw hstarts
  · intro hapart t ht
    obtain ⟨v, hv, hcode⟩ := (hcodes t.code).mp (List.mem_map_of_mem ht)
    exact (hcovers t ht).isExact_iff.mpr fun w hw => hapart v hv w hw t.code hcode

theorem countP_codeStarts_eq_one_iff {codes : List String} (hnodup : codes.Nodup) {v : Violation}
    {own : String} (hv : v.code = .text own) (hown : own ∈ codes) :
    codes.countP (v.codeStarts ·) = 1 ↔ ∀ c ∈ codes, v.codeStarts c = true → c = own := by
  have hfilter : own ∈ codes.filter (v.codeStarts ·) :=
    List.mem_filter.mpr ⟨hown, Violation.codeStarts_self hv⟩
  rw [List.countP_eq_length_filter]
  constructor
  · intro hone c hc hstarts
    obtain ⟨only, honly⟩ := List.length_eq_one_iff.mp hone
    have hmem : c ∈ codes.filter (v.codeStarts ·) := List.mem_filter.mpr ⟨hc, hstarts⟩
    rw [honly] at hfilter hmem
    exact (List.mem_singleton.mp hmem).trans (List.mem_singleton.mp hfilter).symm
  · intro hsame
    have hcount : codes.countP (v.codeStarts ·) = codes.count own := by
      refine List.countP_congr fun c hc => ?_
      rw [beq_iff_eq]
      exact ⟨hsame c hc, fun heq => heq ▸ Violation.codeStarts_self hv⟩
    rw [← List.countP_eq_length_filter, hcount, List.count_eq_one_of_mem hnodup hown]

theorem sum_count_eq_length_iff (hvs : ∀ v ∈ vs, v.IsNamed) (hcovers : ∀ t ∈ totals, t.Covers vs)
    (hnodup : (totals.map (·.code)).Nodup)
    (hcodes : ∀ code, code ∈ totals.map (·.code) ↔ ∃ v ∈ vs, v.code = .text code) :
    (totals.map (·.count)).sum = vs.length ↔ CodesApart vs := by
  have hsum : (totals.map (·.count)).sum =
      (vs.map fun v => (totals.map (·.code)).countP (v.codeStarts ·)).sum := by
    rw [← sum_countP_comm (fun code v => Violation.codeStarts code v), List.map_map,
      List.map_congr_left fun t ht => (hcovers t ht).count_eq]
    rfl
  have hown : ∀ v ∈ vs, ∃ own, v.code = .text own ∧ own ∈ totals.map (·.code) := by
    intro v hv
    obtain ⟨-, own, -, hcode⟩ := hvs v hv
    exact ⟨own, hcode, (hcodes own).mpr ⟨v, hv, hcode⟩⟩
  rw [hsum, sum_map_eq_length_iff]
  · constructor
    · intro hone v hv w hw code hcode hstarts
      obtain ⟨own, hwcode, hmem⟩ := hown w hw
      have hsame := (countP_codeStarts_eq_one_iff hnodup hwcode hmem).mp (hone w hw) code
        ((hcodes code).mpr ⟨v, hv, hcode⟩) hstarts
      rw [hwcode, hsame]
    · intro hapart w hw
      obtain ⟨own, hwcode, hmem⟩ := hown w hw
      refine (countP_codeStarts_eq_one_iff hnodup hwcode hmem).mpr fun c hc hstarts => ?_
      obtain ⟨v, hv, hcode⟩ := (hcodes c).mp hc
      have hsame := hapart v hv w hw c hcode hstarts
      rw [hwcode] at hsame
      exact (Value.text.inj hsame).symm
  · intro v hv
    obtain ⟨own, hcode, hmem⟩ := hown v hv
    exact List.countP_pos_iff.mpr ⟨own, hmem, Violation.codeStarts_self hcode⟩

end Total

namespace Formatter

/-- There is a line for each recorded code, in order. It counts the violations whose codes start
with this code, with the text of the first of them by file and code. So the lines are those of the
single codes, and their counts add up to the number of violations, just when no recorded code starts
with another one. -/
theorem showStatistics_totals {f : Formatter} (hf : f.style ≠ .foreign) {vs : List Violation}
    (hvs : ∀ v ∈ vs, v.IsNamed) :
    ∃ (stats : Statistics) (totals : List Total), vs.foldlM Statistics.record {} = .ok stats ∧
      f.showStatistics stats = totals.forM (fun t => f.writeText (.text t.line)) ∧
      (totals.map (·.code)).Pairwise (· < ·) ∧
      (∀ code, code ∈ totals.map (·.code) ↔ ∃ v ∈ vs, v.code = .text code) ∧
      (∀ t ∈ totals, t.Covers vs) ∧
      ((∀ t ∈ totals, t.IsExact vs) ↔ CodesApart vs) ∧
      ((totals.map (·.count)).sum = vs.length ↔ CodesApart vs) := by
  obtain ⟨stats, pairs, hstats, htallied⟩ := Statistics.exists_tallied hvs
  obtain ⟨codes, hcodes, hsorted, hmem⟩ := htallied.codes hvs
  have hmap : (codes.map (Statistics.total vs pairs)).map (·.code) = codes := by
    rw [List.map_map]
    exact List.map_id codes
  have hcovers : ∀ t ∈ codes.map (Statistics.total vs pairs), t.Covers vs := by
    intro t ht
    obtain ⟨code, hcode, rfl⟩ := List.mem_map.mp ht
    exact htallied.covers_total hvs ((hmem code).mp hcode)
  have hshow := showStatistics_eq hf htallied hvs hcodes fun code hcode => (hmem code).mp hcode
  rw [← hmap] at hsorted hmem
  refine ⟨stats, codes.map (Statistics.total vs pairs), hstats, ?_, hsorted, hmem, hcovers,
    Total.forall_isExact_iff hcovers hmem,
    Total.sum_count_eq_length_iff hvs hcovers (hsorted.imp ne_of_lt) hmem⟩
  rw [hshow, List.forM_eq_forM, List.forM_eq_forM, List.forM_map]

def printing : Formatter where
  style := .default
  template := none
  output := .none
  tee := false
  showsSource := false

theorem showStatistics_totals_scattered :
    printing.style ≠ .foreign ∧ (∀ v ∈ Statistics.scattered, v.IsNamed) ∧
      ∃ (stats : Statistics) (totals : List Total),
        Statistics.scattered.foldlM Statistics.record {} = .ok stats ∧
        printing.showStatistics stats = totals.forM (fun t => printing.writeText (.text t.line)) ∧
        totals.map (·.code) = ["E1", "E2", "W1"] ∧ totals.map (·.count) = [3, 1, 1] := by
  have hnamed : ∀ v ∈ Statistics.scattered, v.IsNamed := by
    simp [Statistics.scattered, Violation.IsNamed]
  obtain ⟨stats, totals, hstats, hshow, hsorted, hmem, hcovers, -⟩ :=
    showStatistics_totals (f := printing) (by decide) hnamed
  have hcodes : totals.map (·.code) = ["E1", "E2", "W1"] := by
    refine hsorted.eq_of_mem_iff (by decide +kernel) fun code => ?_
    rw [hmem]
    simp only [Statistics.scattered, List.mem_cons, List.not_mem_nil, exists_eq_or_imp,
      Value.text.injEq]
    grind
  have hcounts : totals.map (·.count) =
      (totals.map (·.code)).map fun code => Statistics.scattered.countP (·.codeStarts code) := by
    rw [List.map_map]
    exact List.map_congr_left fun t ht => (hcovers t ht).count_eq
  refine ⟨by decide, hnamed, stats, totals, hstats, hshow, hcodes, ?_⟩
  rw [hcounts, hcodes]
  decide +kernel

def nested : List Violation :=
  [⟨.text "E1", .text "b.py", .int 1, .int 1, .text "one", .none⟩,
    ⟨.text "E12", .text "a.py", .int 2, .int 1, .text "twelve", .none⟩]

/-- One of the violations has the shorter code, but its line counts both and has the text of the
other one. -/
theorem showStatistics_nested :
    nested.countP (fun v => v.code = .text "E1") = 1 ∧
      ∃ stats, nested.foldlM Statistics.record {} = .ok stats ∧ ∀ w : World,
        (printing.showStatistics stats).run w =
          (.ok (), (w.print "2     E1 twelve\n").print "1     E12 twelve\n") := by
  have hnamed : ∀ v ∈ nested, v.IsNamed := by
    simp [nested, Violation.IsNamed]
  have hpairs : ∀ pair : String × String, (∃ v ∈ nested, v.isOf pair = true) ↔
      pair ∈ [("a.py", "E12"), ("b.py", "E1")] := by
    rintro ⟨file, code⟩
    simp only [nested, List.mem_cons, List.not_mem_nil, exists_eq_or_imp, Violation.isOf_iff,
      Value.text.injEq, Prod.mk.injEq]
    grind
  obtain ⟨stats, pairs, hstats, htallied⟩ := Statistics.exists_tallied hnamed
  obtain ⟨codes, hcodes, hsorted, hmem⟩ := htallied.codes hnamed
  have hboth : codes = ["E1", "E12"] := by
    refine hsorted.eq_of_mem_iff (by decide +kernel) fun code => ?_
    rw [hmem]
    simp only [nested, List.mem_cons, List.not_mem_nil, exists_eq_or_imp, Value.text.injEq]
    grind
  have hshort : Statistics.wanted "E1" none pairs = [("a.py", "E12"), ("b.py", "E1")] := by
    refine (htallied.pairwise_wanted _ _).eq_of_mem_iff (by decide +kernel) fun pair => ?_
    rw [htallied.mem_wanted_iff, hpairs]
    refine and_iff_left_of_imp fun hpair => ?_
    simp only [List.mem_cons, List.not_mem_nil, or_false] at hpair
    rcases hpair with rfl | rfl <;> decide +kernel
  have hlong : Statistics.wanted "E12" none pairs = [("a.py", "E12")] := by
    refine (htallied.pairwise_wanted _ _).eq_of_mem_iff (by decide +kernel) fun pair => ?_
    rw [htallied.mem_wanted_iff, hpairs]
    constructor
    · rintro ⟨hpair, hstart, -⟩
      simp only [List.mem_cons, List.not_mem_nil, or_false] at hpair
      rcases hpair with rfl | rfl
      · exact List.mem_cons_self
      · exact absurd hstart (by decide +kernel)
    · intro hpair
      cases List.mem_singleton.mp hpair
      decide +kernel
  have hfirst : (Statistics.total nested pairs "E1").line = "2     E1 twelve" := by
    rw [Total.line, Statistics.total, hshort]
    decide +kernel
  have hsecond : (Statistics.total nested pairs "E12").line = "1     E12 twelve" := by
    rw [Total.line, Statistics.total, hlong]
    decide +kernel
  refine ⟨by decide +kernel, stats, hstats, fun w => ?_⟩
  rw [showStatistics_eq (by decide) htallied hnamed hcodes fun code hcode => (hmem code).mp hcode,
    hboth, List.forM, List.forM, hfirst, hsecond]
  rfl

end Formatter

end LintRunner
