import LintRunner.Entries
import LintRunner.Text.Basic
import Mathlib.Data.List.Induction

/-!
# Names of entries

Entries stand under their names in the order in which the names were first put, so putting entries
over others keeps the places of names and replaces what stands under them.
-/

namespace LintRunner

namespace Text

theorem mem_dedup {name : String} (names : List String) : name ∈ dedup names ↔ name ∈ names := by
  have hfold : ∀ kept : List String,
      name ∈ names.foldl (fun acc x => if acc.contains x then acc else acc ++ [x]) kept ↔
        name ∈ kept ∨ name ∈ names := by
    induction names with
    | nil => simp
    | cons x rest ih =>
      intro kept
      rw [List.foldl_cons, ih]
      split
      · rename_i hx
        have hx : x ∈ kept := by simpa using hx
        grind
      · grind
  exact (hfold []).trans (by simp)

theorem foldl_addName (names more : List String) :
    more.foldl (fun ns n => if n ∈ ns then ns else ns ++ [n]) names =
      names ++ (more.foldl (fun ns n => if n ∈ ns then ns else ns ++ [n]) []).filter
        (fun n => n ∉ names) := by
  induction more using List.reverseRecOn with
  | nil => simp
  | append_singleton more n ih =>
    rw [List.foldl_append, List.foldl_append, List.foldl_cons, List.foldl_nil, List.foldl_cons,
      List.foldl_nil, ih]
    generalize more.foldl (fun ns n => if n ∈ ns then ns else ns ++ [n]) [] = fresh
    by_cases hnames : n ∈ names
    · rw [if_pos (List.mem_append_left _ hnames)]
      split
      · rfl
      · rw [List.filter_append, List.filter_cons_of_neg (by simpa using hnames), List.filter_nil,
          List.append_nil]
    · by_cases hfresh : n ∈ fresh
      · rw [if_pos hfresh, if_pos]
        exact List.mem_append_right _ (List.mem_filter.mpr ⟨hfresh, by simpa using hnames⟩)
      · rw [if_neg hfresh, if_neg, List.filter_append, List.filter_cons_of_pos (by simpa using hnames),
          List.filter_nil, List.append_assoc]
        intro hmem
        rcases List.mem_append.mp hmem with hmem | hmem
        · exact hnames hmem
        · exact hfresh (List.mem_filter.mp hmem).1

theorem dedup_eq_foldl (names : List String) :
    dedup names = names.foldl (fun ns n => if n ∈ ns then ns else ns ++ [n]) [] := by
  simp only [dedup, List.contains_iff_mem]

theorem dedup_append (names more : List String) :
    dedup (names ++ more) = dedup names ++ (dedup more).filter (fun n => n ∉ dedup names) := by
  rw [dedup_eq_foldl, dedup_eq_foldl, dedup_eq_foldl, List.foldl_append, foldl_addName]

end Text

namespace Entries

variable {α β : Type} {name key : String} {a b : α} {entries more : List (String × α)}

variable {P : String → Prop} {xs : List (String × α)}

theorem isSome_lookup_iff : (entries.lookup name).isSome = true ↔ name ∈ entries.map (·.1) := by
  rw [List.lookup_isSome_iff, List.mem_map]
  refine exists_congr fun e => and_congr_right fun _ => ?_
  rw [beq_iff_eq, eq_comm]

theorem lookup_eq_none_of_not_mem (h : key ∉ entries.map (·.1)) : entries.lookup key = none := by
  refine List.lookup_eq_none_iff.mpr fun p hp => bne_iff_ne.mpr fun heq => h ?_
  exact List.mem_map.mpr ⟨p, hp, heq.symm⟩

theorem lookup_singleton (key : String) (e : String × α) :
    [e].lookup key = if key = e.1 then some e.2 else none := by
  rw [List.lookup_cons, List.lookup_nil]
  by_cases h : key = e.1
  · rw [if_pos h, beq_iff_eq.mpr h]
  · rw [if_neg h, beq_eq_false_iff_ne.mpr h]

theorem map_fst_put : (put name a entries).map (·.1) =
    if name ∈ entries.map (·.1) then entries.map (·.1) else entries.map (·.1) ++ [name] := by
  induction entries with
  | nil => rfl
  | cons e rest ih =>
    obtain ⟨n, old⟩ := e
    rw [put]
    by_cases hn : n = name
    · subst hn
      rw [if_pos rfl, List.map_cons, List.map_cons, if_pos List.mem_cons_self]
    · rw [if_neg hn, List.map_cons, List.map_cons, ih]
      by_cases hmem : name ∈ rest.map (·.1)
      · rw [if_pos hmem, if_pos (List.mem_cons_of_mem _ hmem)]
      · rw [if_neg hmem, if_neg, List.cons_append]
        exact fun h => (List.mem_cons.mp h).elim (fun heq => hn heq.symm) hmem

theorem map_fst_putNew : (putNew name a entries).map (·.1) =
    if name ∈ entries.map (·.1) then entries.map (·.1) else entries.map (·.1) ++ [name] := by
  unfold putNew
  by_cases hmem : name ∈ entries.map (·.1)
  · rw [if_pos hmem, if_pos (isSome_lookup_iff.mpr hmem)]
  · rw [if_neg hmem, if_neg (mt isSome_lookup_iff.mp hmem), List.map_append]
    rfl

theorem lookup_putNew (key : String) : (putNew name a entries).lookup key =
    (entries.lookup key).or (if key = name then some a else none) := by
  unfold putNew
  split
  · rename_i hsome
    obtain ⟨old, hold⟩ := Option.isSome_iff_exists.mp hsome
    by_cases h : key = name
    · rw [h, hold, Option.some_or]
    · rw [if_neg h, Option.or_none]
  · rw [List.lookup_append, lookup_singleton]

/-- Each name stands once, and all names have a property. -/
structure Listed (P : String → Prop) (entries : List (String × α)) : Prop where
  nodup : (entries.map (·.1)).Nodup
  names : ∀ name ∈ entries.map (·.1), P name

theorem Listed.of_map_fst {more : List (String × α)}
    (h : Listed P entries) (hname : P name)
    (hmore : more.map (·.1) =
      if name ∈ entries.map (·.1) then entries.map (·.1) else entries.map (·.1) ++ [name]) :
    Listed P more := by
  by_cases hmem : name ∈ entries.map (·.1)
  · rw [if_pos hmem] at hmore
    exact ⟨hmore ▸ h.nodup, hmore ▸ h.names⟩
  · rw [if_neg hmem] at hmore
    constructor
    · rw [hmore]
      refine List.nodup_append.mpr ⟨h.nodup, by simp, fun n hn m hm heq => ?_⟩
      rw [heq, List.mem_singleton.mp hm] at hn
      exact hmem hn
    · rw [hmore]
      exact List.forall_mem_append.mpr ⟨h.names, List.forall_mem_singleton.mpr hname⟩

theorem Listed.put (h : Listed P entries) (hname : P name) :
    Listed P (put name a entries) := h.of_map_fst hname map_fst_put

theorem Listed.putNew (h : Listed P entries) (hname : P name) :
    Listed P (putNew name a entries) := h.of_map_fst hname map_fst_putNew

theorem lookup_foldl_putNew (key : String) (more : List (String × α)) :
    (more.foldl (fun es e => Entries.putNew e.1 e.2 es) entries).lookup key =
      (entries.lookup key).or (more.lookup key) := by
  induction more generalizing entries with
  | nil => exact Option.or_none.symm
  | cons e rest ih =>
    rw [List.foldl_cons, ih, lookup_putNew, Option.or_assoc, List.lookup_cons]
    by_cases h : key = e.1
    · rw [if_pos h, beq_iff_eq.mpr h, Option.some_or]
    · rw [if_neg h, beq_eq_false_iff_ne.mpr h, Option.none_or]

theorem Listed.foldl_putNew {more : List (String × α)}
    (h : Listed P entries) (hmore : ∀ name ∈ more.map (·.1), P name) :
    Listed P (more.foldl (fun es e => Entries.putNew e.1 e.2 es) entries) := by
  induction more generalizing entries with
  | nil => exact h
  | cons e rest ih =>
    obtain ⟨he, hrest⟩ := List.forall_mem_cons.mp hmore
    exact ih (h.putNew he) hrest

def SameNames (xs : List (String × α)) (ys : List (String × β)) : Prop :=
  xs.map (·.1) = ys.map (·.1)

theorem SameNames.put {ys : List (String × β)} (h : SameNames xs ys)
    (name : String) (a : α) (b : β) : SameNames (put name a xs) (put name b ys) := by
  rw [SameNames, map_fst_put, map_fst_put, h]

theorem SameNames.foldl_putNew {ys : List (String × α)} (h : SameNames xs ys)
    (own : List (String × α)) : SameNames
      (xs.foldl (fun es e => putNew e.1 e.2 es) own)
      (ys.foldl (fun es e => putNew e.1 e.2 es) own) := by
  have hnames : ∀ more entries : List (String × α),
      (more.foldl (fun es e => putNew e.1 e.2 es) entries).map (·.1) =
        (more.map (·.1)).foldl (fun ns n => if n ∈ ns then ns else ns ++ [n])
          (entries.map (·.1)) := by
    intro more
    induction more with
    | nil => intro entries; rfl
    | cons e rest ih =>
      intro entries
      rw [List.foldl_cons, ih, map_fst_putNew, List.map_cons, List.foldl_cons]
  rw [SameNames, hnames, hnames, h]

theorem SameNames.eq_of_lookup {ys : List (String × α)} (h : SameNames xs ys)
    (hnodup : (xs.map (·.1)).Nodup) (hlookup : ∀ name, xs.lookup name = ys.lookup name) :
    xs = ys := by
  induction xs generalizing ys with
  | nil => exact (List.map_eq_nil_iff.mp h.symm).symm
  | cons x rest ih =>
    cases ys with
    | nil => cases h
    | cons y more =>
      obtain ⟨n, a⟩ := x
      obtain ⟨m, b⟩ := y
      obtain ⟨hhead, htail⟩ := List.cons.inj h
      obtain ⟨hfresh, hnodup⟩ := List.nodup_cons.mp hnodup
      cases show n = m from hhead
      have hab := hlookup n
      rw [List.lookup_cons_self, List.lookup_cons_self] at hab
      cases hab
      refine congrArg _ (ih htail hnodup fun name => ?_)
      by_cases hname : name = n
      · rw [hname, lookup_eq_none_of_not_mem hfresh,
          lookup_eq_none_of_not_mem (htail ▸ hfresh : n ∉ more.map (·.1))]
      · have hrest := hlookup name
        rw [List.lookup_cons, List.lookup_cons, beq_eq_false_iff_ne.mpr hname] at hrest
        exact hrest

theorem putAll_cons (e : String × α) (more entries : List (String × α)) :
    putAll (e :: more) entries = putAll more (put e.1 e.2 entries) := rfl

theorem putAll_append (xs ys entries : List (String × α)) :
    putAll (xs ++ ys) entries = putAll ys (putAll xs entries) := List.foldl_append

theorem map_fst_putAll (more entries : List (String × α)) : (putAll more entries).map (·.1) =
    (more.map (·.1)).foldl (fun ns n => if n ∈ ns then ns else ns ++ [n]) (entries.map (·.1)) := by
  induction more generalizing entries with
  | nil => rfl
  | cons e rest ih => rw [putAll_cons, ih, map_fst_put, List.map_cons, List.foldl_cons]

theorem lookup_putAll (key : String) (more entries : List (String × α)) :
    (putAll more entries).lookup key = (more.reverse.lookup key).or (entries.lookup key) := by
  induction more generalizing entries with
  | nil => rfl
  | cons e rest ih =>
    rw [putAll_cons, ih, lookup_put, List.reverse_cons, List.lookup_append,
      lookup_singleton, Option.or_assoc]
    by_cases h : key = e.1
    · rw [if_pos h, if_pos h, Option.some_or]
    · rw [if_neg h, if_neg h, Option.none_or]

theorem lookup_reverse (h : (entries.map (·.1)).Nodup) (key : String) :
    entries.reverse.lookup key = entries.lookup key := by
  induction entries with
  | nil => rfl
  | cons e rest ih =>
    obtain ⟨hfresh, hrest⟩ := List.nodup_cons.mp h
    rw [List.reverse_cons, List.lookup_append, ih hrest, lookup_singleton, List.lookup_cons]
    by_cases hkey : key = e.1
    · rw [hkey, if_pos rfl, lookup_eq_none_of_not_mem hfresh, beq_self_eq_true, Option.none_or]
    · rw [if_neg hkey, beq_eq_false_iff_ne.mpr hkey, Option.or_none]

theorem put_put (name : String) (a b : α) (entries : List (String × α)) :
    put name b (put name a entries) = put name b entries := by
  induction entries with
  | nil => rw [put, put, put, if_pos rfl]
  | cons e rest ih =>
    obtain ⟨n, old⟩ := e
    by_cases hn : n = name
    · rw [put, if_pos hn, put, if_pos hn, put, if_pos hn]
    · rw [put, if_neg hn, put, if_neg hn, put, if_neg hn, ih]

/-- An entry that is there is replaced where it stands, whatever is put besides. -/
theorem put_comm_of_mem {other : String} (hne : other ≠ name) (h : name ∈ entries.map (·.1)) :
    put name a (put other b entries) = put other b (put name a entries) := by
  induction entries with
  | nil => cases h
  | cons e rest ih =>
    obtain ⟨n, old⟩ := e
    by_cases hn : n = name
    · subst hn
      rw [put, if_neg hne.symm, put, if_pos rfl, put, if_pos rfl, put, if_neg hne.symm]
    · have hrest : name ∈ rest.map (·.1) := (List.mem_cons.mp h).resolve_left fun heq => hn heq.symm
      by_cases ho : n = other
      · subst ho
        rw [put, if_pos rfl, put, if_neg hn, put, if_neg hn, put, if_pos rfl]
      · rw [put, if_neg ho, put, if_neg hn, put, if_neg hn, put, if_neg ho, ih hrest]

theorem mem_map_fst_put : name ∈ (put name a entries).map (·.1) := by
  rw [map_fst_put]
  split
  · assumption
  · exact List.mem_append_right _ List.mem_cons_self

theorem put_putAll (hfresh : name ∉ more.map (·.1)) (h : name ∈ entries.map (·.1)) :
    put name a (putAll more entries) = putAll more (put name a entries) := by
  induction more generalizing entries with
  | nil => rfl
  | cons e rest ih =>
    obtain ⟨hne, hrest⟩ := not_or.mp (mt List.mem_cons.mpr hfresh)
    have hmem : name ∈ (put e.1 e.2 entries).map (·.1) := by
      rw [map_fst_put]
      split
      · exact h
      · exact List.mem_append_left _ h
    rw [putAll_cons, putAll_cons, ih hrest hmem, put_comm_of_mem (Ne.symm hne) h]

theorem putAll_put (h : (more.map (·.1)).Nodup) (name : String) (a : α)
    (entries : List (String × α)) :
    putAll (put name a more) entries = put name a (putAll more entries) := by
  induction more generalizing entries with
  | nil => rfl
  | cons e rest ih =>
    obtain ⟨n, old⟩ := e
    obtain ⟨hfresh, hrest⟩ := List.nodup_cons.mp h
    rw [put]
    by_cases hn : n = name
    · subst hn
      rw [if_pos rfl, putAll_cons, putAll_cons, put_putAll hfresh mem_map_fst_put, put_put]
    · rw [if_neg hn, putAll_cons, putAll_cons, ih hrest]

def mapValues (g : α → β) (entries : List (String × α)) : List (String × β) :=
  entries.map fun e => (e.1, g e.2)

theorem mapValues_put (g : α → β) (name : String) (a : α) (entries : List (String × α)) :
    mapValues g (put name a entries) = put name (g a) (mapValues g entries) := by
  induction entries with
  | nil => rfl
  | cons e rest ih =>
    obtain ⟨n, old⟩ := e
    have hcons : mapValues g ((n, old) :: rest) = (n, g old) :: mapValues g rest := rfl
    rw [put, hcons, put]
    by_cases hn : n = name
    · rw [if_pos hn, if_pos hn]
      rfl
    · rw [if_neg hn, if_neg hn, ← ih]
      rfl

theorem mapValues_putAll (g : α → β) (more entries : List (String × α)) :
    mapValues g (putAll more entries) = putAll (mapValues g more) (mapValues g entries) := by
  induction more generalizing entries with
  | nil => rfl
  | cons e rest ih =>
    rw [putAll_cons, ih, mapValues_put]
    rfl

theorem lookup_mapValues (g : α → β) (key : String) (entries : List (String × α)) :
    (mapValues g entries).lookup key = (entries.lookup key).map g := by
  induction entries with
  | nil => rfl
  | cons e rest ih =>
    have hcons : mapValues g (e :: rest) = (e.1, g e.2) :: mapValues g rest := rfl
    rw [hcons, List.lookup_cons, List.lookup_cons, ih]
    cases key == e.1 <;> rfl

theorem Listed.mapValues (h : Listed P entries) (g : α → β) :
    Listed P (mapValues g entries) := by
  have hnames : (Entries.mapValues g entries).map (·.1) = entries.map (·.1) := by
    rw [Entries.mapValues, List.map_map]
    rfl
  exact ⟨hnames ▸ h.nodup, hnames ▸ h.names⟩

end Entries

end LintRunner
