import LintRunner.Check.Manager
import Mathlib.Data.List.Basic

/-!
# Findings in the order of their places

Sorting keeps things in order that it does not tell apart. So it makes no difference to the order
by line and column that findings were sorted by their columns before.
-/

namespace LintRunner

section StableSort

variable {α : Type} {le : α → α → Bool}

theorem filter_mergeSort (htrans : ∀ a b c, le a b → le b c → le a c)
    (htotal : ∀ a b, le a b || le b a) {p : α → Bool} (hp : ∀ a b, p a → p b → le a b)
    (l : List α) : (l.mergeSort le).filter p = l.filter p := by
  have hpair : (l.filter p).Pairwise (fun a b => le a b = true) := by
    apply List.pairwise_of_forall_mem_list
    intro a ha b hb
    exact hp a b (List.mem_filter.mp ha).2 (List.mem_filter.mp hb).2
  have hsub : (l.filter p).Sublist (l.mergeSort le) :=
    List.sublist_mergeSort htrans htotal hpair List.filter_sublist
  have hfilter : (l.filter p).Sublist ((l.mergeSort le).filter p) := by
    have h := hsub.filter p
    rwa [List.filter_filter, List.filter_congr (fun a _ => Bool.and_self (p a))] at h
  have hlen : ((l.mergeSort le).filter p).length = (l.filter p).length :=
    ((List.mergeSort_perm l le).filter p).length_eq
  exact (hfilter.eq_of_length hlen.symm).symm

/-- The things that may stand on either side of `a`. -/
def tied (le : α → α → Bool) (a b : α) : Bool := le a b && le b a

theorem eq_of_filter_tied_eq (htotal : ∀ a b, le a b || le b a) {l₁ l₂ : List α}
    (h₁ : l₁.Pairwise (fun a b => le a b = true)) (h₂ : l₂.Pairwise (fun a b => le a b = true))
    (h : ∀ a, l₁.filter (tied le a) = l₂.filter (tied le a)) : l₁ = l₂ := by
  have hself : ∀ a, tied le a a = true := by
    intro a
    simpa [tied] using htotal a a
  induction l₁ generalizing l₂ with
  | nil =>
    cases l₂ with
    | nil => rfl
    | cons b rest =>
      have hb := h b
      rw [List.filter_nil, List.filter_cons_of_pos (hself b)] at hb
      cases hb
  | cons a rest₁ ih =>
    cases l₂ with
    | nil =>
      have ha := h a
      rw [List.filter_nil, List.filter_cons_of_pos (hself a)] at ha
      cases ha
    | cons b rest₂ =>
      have hmem : ∀ {x : α} {xs ys : List α}, xs.filter (tied le x) = ys.filter (tied le x) →
          x ∈ xs → x ∈ ys := by
        intro x xs ys hxy hx
        have hx' : x ∈ xs.filter (tied le x) := List.mem_filter.mpr ⟨hx, hself x⟩
        rw [hxy] at hx'
        exact (List.mem_filter.mp hx').1
      have hba : le b a = true := by
        rcases List.mem_cons.mp (hmem (h a) List.mem_cons_self) with rfl | hin
        · simpa using htotal a a
        · exact (List.pairwise_cons.mp h₂).1 a hin
      have hab : le a b = true := by
        rcases List.mem_cons.mp (hmem (h b).symm List.mem_cons_self) with rfl | hin
        · simpa using htotal b b
        · exact (List.pairwise_cons.mp h₁).1 b hin
      have hhead : a = b := by
        have ha := h a
        rw [List.filter_cons_of_pos (hself a),
          List.filter_cons_of_pos (show tied le a b = true by simp [tied, hab, hba])] at ha
        exact (List.cons.inj ha).1
      subst hhead
      congr 1
      apply ih (List.pairwise_cons.mp h₁).2 (List.pairwise_cons.mp h₂).2
      intro x
      have hx := h x
      rw [List.filter_cons, List.filter_cons] at hx
      split at hx
      · exact (List.cons.inj hx).2
      · exact hx

/-- Sorting by a coarser order first makes no difference, if whatever the second order ties the
first one ties as well. -/
theorem mergeSort_mergeSort {le₁ le₂ : α → α → Bool}
    (htrans₁ : ∀ a b c, le₁ a b → le₁ b c → le₁ a c) (htotal₁ : ∀ a b, le₁ a b || le₁ b a)
    (htrans₂ : ∀ a b c, le₂ a b → le₂ b c → le₂ a c) (htotal₂ : ∀ a b, le₂ a b || le₂ b a)
    (htied : ∀ a b, le₂ a b → le₂ b a → le₁ a b) (l : List α) :
    (l.mergeSort le₁).mergeSort le₂ = l.mergeSort le₂ := by
  apply eq_of_filter_tied_eq htotal₂ (List.pairwise_mergeSort htrans₂ htotal₂ _)
    (List.pairwise_mergeSort htrans₂ htotal₂ _)
  intro a
  have hlink : ∀ x y, tied le₂ a x → tied le₂ a y → le₂ x y := by
    intro x y hx hy
    simp only [tied, Bool.and_eq_true] at hx hy
    exact htrans₂ x a y hx.2 hy.1
  rw [filter_mergeSort htrans₂ htotal₂ hlink, filter_mergeSort htrans₂ htotal₂ hlink,
    filter_mergeSort htrans₁ htotal₁ fun x y hx hy => htied x y (hlink x y hx hy) (hlink y x hy hx)]

end StableSort

namespace Value

theorem same_int (m n : Int) : same (.int m) (.int n) = decide (m = n) := by
  simp only [same, sameNumber, numberParts?, isNumber, if_true, sameReal, extent?, int?,
    Option.map_some, Extent.lt]
  by_cases h : m = n
  · simp [h]
  · rcases Int.lt_or_gt_of_ne h with hlt | hgt
    · simp [h, hlt]
    · simp [h, hgt]

theorem precedes?_pair (a b m n : Int) :
    precedes? (.tuple [.int a, .int b]) (.tuple [.int m, .int n]) =
      some (decide (a < m ∨ a = m ∧ b < n)) := by
  rw [precedes?]
  simp only [itemsPrecede?, same_int, precedes?_int]
  by_cases ham : a = m
  · by_cases hbn : b = n <;> simp [ham, hbn]
  · simp [ham]

theorem allComparable_of_forall {vs : List Value}
    (h : ∀ v ∈ vs, ∀ w ∈ vs, v.isComparable w = true) : allComparable vs = true := by
  induction vs with
  | nil => rfl
  | cons v rest ih =>
    simp only [allComparable, Bool.and_eq_true, List.all_eq_true]
    refine ⟨fun w hw => ⟨?_, ?_⟩, ih fun x hx y hy => ?_⟩
    · exact h v List.mem_cons_self w (List.mem_cons_of_mem v hw)
    · exact h w (List.mem_cons_of_mem v hw) v List.mem_cons_self
    · exact h x (List.mem_cons_of_mem v hx) y (List.mem_cons_of_mem v hy)

theorem sortBy_of_precedes {α β : Type} {f : α → β} {key : β → Value} {xs : List α}
    {lt : α → α → Bool}
    (h : ∀ a ∈ xs, ∀ b ∈ xs, (key (f a)).precedes? (key (f b)) = some (lt a b)) :
    sortBy key (xs.map f) = .ok ((xs.mergeSort fun a b => !lt b a).map f) := by
  have hcomparable : allComparable ((xs.map f).map key) = true := by
    apply allComparable_of_forall
    intro v hv w hw
    rw [List.map_map] at hv hw
    obtain ⟨a, ha, rfl⟩ := List.mem_map.mp hv
    obtain ⟨b, hb, rfl⟩ := List.mem_map.mp hw
    simp [isComparable, h a ha b hb]
  rw [sortBy, if_pos hcomparable, List.map_mergeSort]
  intro a ha b hb
  rw [h b hb a ha]
  cases lt b a <;> rfl

theorem sortBy_pairs {α : Type} {key : α → Value} {xs : List α} (first second : α → Int)
    (h : ∀ x ∈ xs, key x = .tuple [.int (first x), .int (second x)]) :
    sortBy key xs = .ok (xs.mergeSort fun a b =>
      decide (first a < first b ∨ first a = first b ∧ second a ≤ second b)) := by
  have hlt : ∀ a ∈ xs, ∀ b ∈ xs, (key (id a)).precedes? (key (id b)) =
      some (decide (first a < first b ∨ first a = first b ∧ second a < second b)) := by
    intro a ha b hb
    rw [id, id, h a ha, h b hb, precedes?_pair]
  have hsorted := sortBy_of_precedes hlt
  rw [List.map_id, List.map_id] at hsorted
  rw [hsorted]
  congr 2
  funext a b
  rw [Bool.eq_iff_iff]
  simp only [Bool.not_eq_true', decide_eq_false_iff_not, decide_eq_true_eq]
  omega

end Value

/-- Line and column are integers. -/
def Finding.HasIntegerPlace (f : Finding) : Prop :=
  ∃ line column : Int, f.line = .int line ∧ f.column = .int column

def Finding.place (f : Finding) : Int × Int := (f.line.int?.getD 0, f.column.int?.getD 0)

theorem Finding.HasIntegerPlace.eq {f : Finding} (h : f.HasIntegerPlace) :
    f.line = .int f.place.1 ∧ f.column = .int f.place.2 := by
  obtain ⟨line, column, hline, hcolumn⟩ := h
  simp [place, hline, hcolumn, Value.int?]

instance : DecidablePred Finding.HasIntegerPlace := fun f =>
  decidable_of_iff (f.line = .int f.place.1 ∧ f.column = .int f.place.2)
    ⟨fun h => ⟨_, _, h⟩, Finding.HasIntegerPlace.eq⟩

namespace Check.Manager

def leColumn (f g : Finding) : Bool := decide (f.place.2 ≤ g.place.2)

def lePlace (f g : Finding) : Bool :=
  decide (f.place.1 < g.place.1 ∨ f.place.1 = g.place.1 ∧ f.place.2 ≤ g.place.2)

theorem byColumn_eq {fs : List Finding} (h : ∀ f ∈ fs, f.HasIntegerPlace) :
    byColumn fs = .ok (fs.mergeSort leColumn) := by
  unfold byColumn
  rw [Value.sortBy_pairs (fun f => f.place.2) (fun f => f.place.2)]
  · congr 2
    funext f g
    simp only [leColumn, decide_eq_decide]
    omega
  · intro f hf
    rw [(h f hf).eq.2]

theorem byPlace_eq {fs : List Finding} (h : ∀ f ∈ fs, f.HasIntegerPlace) :
    byPlace fs = .ok (fs.mergeSort lePlace) := by
  unfold byPlace
  rw [Value.sortBy_pairs (fun f => f.place.1) (fun f => f.place.2)]
  · rfl
  · intro f hf
    rw [(h f hf).eq.1, (h f hf).eq.2]

theorem byPlace_mergeSort_leColumn {fs : List Finding} (h : ∀ f ∈ fs, f.HasIntegerPlace) :
    byPlace (fs.mergeSort leColumn) = byPlace fs := by
  have hsorted : ∀ f ∈ fs.mergeSort leColumn, f.HasIntegerPlace := by
    intro f hf
    exact h f (List.mem_mergeSort.mp hf)
  rw [byPlace_eq h, byPlace_eq hsorted, mergeSort_mergeSort]
  · intro f g k hfg hgk
    simp only [leColumn, decide_eq_true_eq] at hfg hgk ⊢
    omega
  · intro f g
    simp only [leColumn, Bool.or_eq_true, decide_eq_true_eq]
    omega
  · intro f g k hfg hgk
    simp only [lePlace, decide_eq_true_eq] at hfg hgk ⊢
    omega
  · intro f g
    simp only [lePlace, Bool.or_eq_true, decide_eq_true_eq]
    omega
  · intro f g hfg hgf
    simp only [lePlace, leColumn, decide_eq_true_eq] at hfg hgf ⊢
    omega

end Check.Manager

end LintRunner
