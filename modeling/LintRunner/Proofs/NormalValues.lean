import LintRunner.Options.Declaration
import LintRunner.Proofs.PathNames
import LintRunner.Proofs.Stateful
import Mathlib.Data.List.TakeWhile

/-!
# Values in normal form

The value of an option is brought into its normal form whenever settings are read. Doing so again
changes nothing, except that items of a list of paths may have become empty or end in blanks.
-/

namespace LintRunner

open Stateful

namespace Text

variable {p : Char → Bool} {cs : List Char} {items : List String} {runs : List (List Char)}

theorem not_of_mem_head?_dropWhile (cs : List Char) :
    ∀ c ∈ (cs.dropWhile p).head?, p c = false := by
  intro c hc
  have hhead := List.head?_dropWhile_not p cs
  rw [Option.mem_def.mp hc] at hhead
  exact hhead

theorem dropTrailing_dropTrailing (cs : List Char) :
    dropTrailing p (dropTrailing p cs) = dropTrailing p cs := by
  rw [dropTrailing, dropTrailing, List.reverse_reverse,
    dropWhile_of_head (not_of_mem_head?_dropWhile _)]

theorem dropEnds_dropEnds (cs : List Char) : dropEnds p (dropEnds p cs) = dropEnds p cs := by
  have hhead : ∀ c ∈ (dropEnds p cs).head?, p c = false := by
    intro c hc
    refine not_of_mem_head?_dropWhile cs c ?_
    rw [← dropTrailing_append p (cs.dropWhile p)]
    exact List.mem_head?_append_of_mem_head? hc
  rw [dropEnds, dropLeading, dropWhile_of_head hhead, dropEnds, dropTrailing_dropTrailing]

theorem dropEnds_of_ends (hhead : ∀ c ∈ cs.head?, p c = false)
    (hlast : ∀ c ∈ cs.getLast?, p c = false) : dropEnds p cs = cs := by
  rw [← List.head?_reverse] at hlast
  rw [dropEnds, dropLeading, dropTrailing, dropWhile_of_head hhead, dropWhile_of_head hlast,
    List.reverse_reverse]

theorem trim_trim (s : String) : trim (trim s) = trim s := by
  rw [trim, trim, String.toList_ofList, dropEnds_dropEnds]

/-- An item of a list: a text that is not empty, without blanks at its ends. -/
structure IsItem (s : String) : Prop where
  ne_empty : s ≠ ""
  trim_eq : trim s = s

theorem isItem_of_mem_keepItems {pieces : List String} : ∀ s ∈ keepItems pieces, IsItem s := by
  intro s hs
  obtain ⟨hs, hne⟩ := List.mem_filter.mp hs
  obtain ⟨piece, -, rfl⟩ := List.mem_map.mp hs
  refine ⟨fun hempty => ?_, trim_trim piece⟩
  rw [hempty] at hne
  cases hne

theorem keepItems_of_isItem (h : ∀ s ∈ items, IsItem s) :
    keepItems items = items := by
  have htrim : items.map trim = items := by
    rw [List.map_congr_left fun s hs => (h s hs).trim_eq, List.map_id']
  rw [keepItems, htrim]
  refine List.filter_eq_self.mpr fun s hs => ?_
  rw [Bool.not_eq_true', ← Bool.not_eq_true, String.isEmpty_iff]
  exact (h s hs).ne_empty

theorem keepItems_of_trim (h : ∀ s ∈ items, trim s = s) :
    keepItems items = items.filter (· ≠ "") := by
  rw [keepItems, List.map_congr_left h, List.map_id']
  refine List.filter_congr fun s _ => ?_
  cases hempty : s.isEmpty with
  | true => simp [String.isEmpty_iff.mp hempty]
  | false => simpa using String.isEmpty_eq_false_iff.mp hempty

/-- The maximal runs of characters that are no separators, from left to right. -/
inductive Runs (sep : Char → Bool) : List Char → List (List Char) → Prop
  | none {gap : List Char} (hgap : ∀ c ∈ gap, sep c = true) : Runs sep gap []
  | next {gap run rest : List Char} {runs : List (List Char)} (hgap : ∀ c ∈ gap, sep c = true)
      (hne : run ≠ []) (hrun : ∀ c ∈ run, sep c = false) (hstop : ∀ c ∈ rest.head?, sep c = true)
      (hrest : Runs sep rest runs) : Runs sep (gap ++ (run ++ rest)) (run :: runs)

theorem Runs.cons_sep {c : Char} (h : Runs p cs runs)
    (hc : p c = true) : Runs p (c :: cs) runs := by
  cases h with
  | none hgap => exact .none (List.forall_mem_cons.mpr ⟨hc, hgap⟩)
  | next hgap hne hrun hstop hrest =>
    exact .next (List.forall_mem_cons.mpr ⟨hc, hgap⟩) hne hrun hstop hrest

theorem Runs.append_run {run rest : List Char} (h : Runs p rest runs)
    (hrun : ∀ c ∈ run, p c = false) (hstop : ∀ c ∈ rest.head?, p c = true) :
    Runs p (run ++ rest) ([run].filter (!·.isEmpty) ++ runs) := by
  cases run with
  | nil => exact h
  | cons c cs =>
    exact @Runs.next p [] _ _ _ (List.forall_mem_nil _) (List.cons_ne_nil c cs) hrun hstop h

theorem runs_splitBy (cs : List Char) : Runs p cs ((splitBy p cs).filter (!·.isEmpty)) := by
  have hrun : ∀ c ∈ cs.takeWhile (fun c => !p c), p c = false := fun c hc => by
    simpa using List.mem_takeWhile_imp hc
  rw [← List.takeWhile_append_dropWhile (p := fun c => !p c) (l := cs)]
  cases hrest : cs.dropWhile (fun c => !p c) with
  | nil =>
    have hnone : Runs p [] [] := .none (List.forall_mem_nil _)
    rw [List.append_nil, splitBy_of_forall_not hrun]
    simpa using hnone.append_run hrun (fun c hc => absurd hc (by simp))
  | cons c ds =>
    have hc : p c = true := by
      have hhead := not_of_mem_head?_dropWhile (p := fun c => !p c) cs c (by rw [hrest]; rfl)
      simpa using hhead
    have hshorter : ds.length < cs.length := by
      have hle := (List.dropWhile_sublist (fun c => !p c) (l := cs)).length_le
      rw [hrest, List.length_cons] at hle
      exact hle
    rw [splitBy_append_cons hc, splitBy_of_forall_not hrun, List.filter_append]
    exact ((runs_splitBy ds).cons_sep hc).append_run hrun (by simpa using hc)
termination_by cs.length

end Text

namespace Path

variable {path p parent : String}

theorem normalized_of_bare (h : '/' ∉ path.toList) (cwd parent : String) :
    normalized cwd parent path = path := by
  have hlast : ∀ c ∈ path.toList.reverse.head?, (c == '/') = false := by
    intro c hc
    refine beq_eq_false_iff_ne.mpr fun heq => h ?_
    exact heq ▸ List.mem_reverse.mp (List.mem_of_mem_head? hc)
  rw [normalized, if_neg (by simpa using h), Text.dropTrailing, Text.dropWhile_of_head hlast,
    List.reverse_reverse, String.ofList_toList]

theorem IsNormal.dropTrailing_eq (h : IsNormal p) (hnames : names p ≠ []) :
    Text.dropTrailing (· == '/') p.toList = p.toList := by
  have hkept := dropTrailing_joinWith (fun n hn => h.plain hn) hnames (leadingSlashes p)
  rw [← h.eq_joinWith] at hkept
  exact hkept

theorem IsNormal.slash_mem (h : IsNormal p) : '/' ∈ p.toList := by
  obtain ⟨rest, rfl⟩ := isAbsolute_iff.mp h.isAbsolute
  simp

/-- A path with a slash becomes nothing, or an absolute path that is its own normal form. -/
theorem normalized_cases {cwd : String} (hslash : '/' ∈ path.toList)
    (h : isAbsolute cwd = true ∨ isAbsolute parent = true) : normalized cwd parent path = "" ∨
      normalized cwd parent path = absolute cwd (join parent path) ∧
        IsNormal (absolute cwd (join parent path)) ∧
        names (absolute cwd (join parent path)) ≠ [] := by
  have hnormal : IsNormal (absolute cwd (join parent path)) := by
    refine isNormal_normal ?_
    rcases h with hcwd | hparent
    · exact isAbsolute_join hcwd _
    · rw [join_of_isAbsolute (isAbsolute_join hparent path)]
      exact isAbsolute_join hparent path
  rw [normalized, if_pos (List.contains_iff_mem.mpr hslash)]
  by_cases hnames : names (absolute cwd (join parent path)) = []
  · have hroot := hnormal.eq_joinWith
    rw [hnames] at hroot
    left
    rcases leadingSlashes_of_isAbsolute hnormal.isAbsolute with hlead | hlead <;>
      rw [hroot, hlead] <;> rfl
  · rw [hnormal.dropTrailing_eq hnames, String.ofList_toList]
    exact .inr ⟨rfl, hnormal, hnames⟩

theorem normalized_normalized {cwd : String}
    (h : isAbsolute cwd = true ∨ isAbsolute parent = true) (cwd' path : String) :
    normalized cwd' "." (normalized cwd parent path) = normalized cwd parent path := by
  by_cases hslash : '/' ∈ path.toList
  · rcases normalized_cases hslash h with hempty | ⟨hkept, hnormal, hnames⟩
    · rw [hempty]
      rfl
    · rw [hkept, normalized, if_pos (List.contains_iff_mem.mpr hnormal.slash_mem),
        join_of_isAbsolute hnormal.isAbsolute, absolute, join_of_isAbsolute hnormal.isAbsolute,
        hnormal.normal_eq, hnormal.dropTrailing_eq hnames, String.ofList_toList]
  · rw [normalized_of_bare hslash, normalized_of_bare hslash]

/-- No name on the path ends in a blank. -/
def Unpadded (p : String) : Prop :=
  ∀ n ∈ names p, ∀ c ∈ n.toList.getLast?, Text.isBlank c = false

theorem Unpadded.join {q : String} (hp : Unpadded p) (hq : ∀ c ∈ q.toList, Text.isBlank c = false) :
    Unpadded (join p q) := by
  have hnames : Unpadded q := fun n hn c hc =>
    hq c (mem_of_mem_names hn c (List.mem_of_getLast? hc))
  by_cases habsolute : isAbsolute q = true
  · rw [join_of_isAbsolute habsolute]
    exact hnames
  · rw [Unpadded, names_join (Bool.eq_false_iff.mpr habsolute)]
    exact List.forall_mem_append.mpr ⟨hp, hnames⟩

theorem trim_normal (h : isAbsolute p = true) (hblank : Unpadded p)
    (hnames : names (normal p) ≠ []) : Text.trim (normal p) = normal p := by
  have hnormal := isNormal_normal h
  obtain ⟨ls, m, hlast⟩ : ∃ ls m, names (normal p) = ls ++ [m] :=
    ⟨_, _, (List.dropLast_concat_getLast hnames).symm⟩
  have hm : m ∈ names (normal p) := hlast ▸ List.mem_append_right ls List.mem_cons_self
  have hchars : m.toList ≠ [] := mt String.toList_eq_nil_iff.mp (hnormal.plain hm).ne_empty
  rw [Text.trim, Text.dropEnds_of_ends, String.ofList_toList]
  · obtain ⟨rest, hrest⟩ := isAbsolute_iff.mp hnormal.isAbsolute
    rw [hrest, String.toList_append]
    intro c hc
    cases hc
    decide
  · obtain ⟨front, hfront⟩ := toList_joinWith_concat (leadingSlashes (normal p)) ls m
    rw [← hlast, ← hnormal.eq_joinWith] at hfront
    rw [hfront, List.getLast?_append_of_ne_nil _ hchars]
    rw [names_normal h] at hm
    exact hblank m (mem_names_of_mem_normalParts hm)

theorem trim_normalized (hparent : isAbsolute parent = true)
    (hblank : Unpadded parent) (hpath : ∀ c ∈ path.toList, Text.isBlank c = false) (cwd : String) :
    Text.trim (normalized cwd parent path) = normalized cwd parent path := by
  by_cases hslash : '/' ∈ path.toList
  · rcases normalized_cases hslash (.inr hparent) with hempty | ⟨hkept, -, hnames⟩
    · rw [hempty]
      rfl
    · have hjoin := isAbsolute_join hparent path
      rw [absolute, join_of_isAbsolute hjoin] at hkept hnames
      rw [hkept, trim_normal hjoin (hblank.join hpath) hnames]
  · rw [normalized_of_bare hslash, Text.trim, Text.dropEnds_of_forall_not hpath,
      String.ofList_toList]

end Path

namespace Options.Declaration

variable {d : Declaration} {cwd parent : String} {v w : Value} {ts : List String}

theorem textItems_texts (ts : List String) : (Value.texts ts).textItems = ts := by
  rw [Value.texts, Value.textItems, List.filterMap_map]
  exact List.filterMap_some

theorem keep_texts (ts : List String) : listed.keep (ts.map .text) = .ok (Text.keepItems ts) := by
  rw [listed.keep, mapM_map_ok]
  · rfl
  · exact fun _ => rfl

theorem isItem_of_keep {vs : List Value} (h : listed.keep vs = .ok ts) :
    ∀ t ∈ ts, Text.IsItem t := by
  obtain ⟨pieces, -, h⟩ := bind_ok h
  cases h
  exact Text.isItem_of_mem_keepItems

theorem isItem_of_listed {sep : Text.ItemSeparator} (h : listed sep v = .ok ts) :
    ∀ t ∈ ts, Text.IsItem t := by
  unfold listed at h
  split at h
  · cases h
    exact List.forall_mem_nil _
  · split at h
    · cases h
      exact Text.isItem_of_mem_keepItems
    · exact isItem_of_keep h
    · exact isItem_of_keep h
    · cases h

theorem listed_texts (ts : List String) (sep : Text.ItemSeparator) :
    listed sep (Value.texts ts) = .ok (Text.keepItems ts) := by
  cases ts with
  | nil => rfl
  | cons t rest => exact keep_texts (t :: rest)

theorem normalize_of_bare (hlist : d.isList = false) (hpath : d.isPath = false) (v : Value) :
    d.normalize cwd parent v = .ok v := by
  unfold normalize
  rw [hpath, hlist]
  rfl

theorem listed_text (sep : Text.ItemSeparator) (s : String) :
    listed sep (.text s) = .ok (Text.items sep s) := by
  unfold listed
  split
  · rename_i hfalse
    have hempty : s = "" := by simpa [Value.truthy] using hfalse
    rw [hempty]
    cases sep <;> rfl
  · rfl

theorem isBlank_of_mem_items {s item : String} (h : item ∈ Text.items .commaOrBlank s) :
    ∀ c ∈ item.toList, Text.isBlank c = false := by
  rw [Text.items_commaOrBlank] at h
  obtain ⟨piece, hpiece, rfl⟩ := List.mem_map.mp h
  rw [String.toList_ofList]
  exact fun c hc => (Bool.or_eq_false_iff.mp
    (Text.not_sep_of_mem_splitBy (List.mem_filter.mp hpiece).1 c hc)).2

theorem runs_items (s : String) : Text.Runs Text.ItemSeparator.commaOrBlank.holds s.toList
    ((Text.items .commaOrBlank s).map String.toList) := by
  have hruns := Text.runs_splitBy (p := Text.ItemSeparator.commaOrBlank.holds) s.toList
  rw [Text.items_commaOrBlank, List.map_map]
  simpa [Function.comp_def] using hruns

theorem normalize_paths (hpath : d.isPath = true) (hlist : d.isList = true)
    (hv : listed .commaOrBlank v = .ok ts) (cwd parent : String) :
    d.normalize cwd parent v = .ok (Value.texts (ts.map (Path.normalized cwd parent))) := by
  unfold normalize
  rw [if_pos hpath, if_pos hlist, hv]
  rfl

theorem normalize_path (hpath : d.isPath = true) (hlist : d.isList = false)
    (cwd parent s : String) :
    d.normalize cwd parent (.text s) = .ok (.text (Path.normalized cwd parent s)) := by
  unfold normalize
  rw [hpath, hlist]
  rfl

theorem normalize_list (hpath : d.isPath = false) (hlist : d.isList = true)
    (hv : listed .commaOrBlank v = .ok ts) (cwd parent : String) :
    d.normalize cwd parent v = .ok (Value.texts ts) := by
  unfold normalize
  rw [hpath, hlist, hv]
  rfl

theorem listed_listed (h : listed .commaOrBlank v = .ok ts) :
    listed .commaOrBlank (Value.texts ts) = .ok ts := by
  rw [listed_texts, Text.keepItems_of_isItem (isItem_of_listed h)]

theorem listed_normalized (hparent : Path.isAbsolute parent = true) (hblank : Path.Unpadded parent)
    (cwd s : String) :
    listed .commaOrBlank (Value.texts ((Text.items .commaOrBlank s).map (Path.normalized cwd parent))) =
      .ok (((Text.items .commaOrBlank s).map (Path.normalized cwd parent)).filter (· ≠ "")) := by
  rw [listed_texts, Text.keepItems_of_trim]
  intro p hp
  obtain ⟨item, hitem, rfl⟩ := List.mem_map.mp hp
  exact Path.trim_normalized hparent hblank (isBlank_of_mem_items hitem) cwd

/-- A text that was brought into its normal form from a directory stays as it is, wherever this is
done again, except that paths that have become empty are lost. A written list consists of the maximal
runs between commas and blanks. -/
theorem normalize_again (hparent : Path.isAbsolute parent = true) (hblank : Path.Unpadded parent)
    (cwd cwd' s : String) :
    (∃ ts, listed .commaOrBlank (.text s) = .ok ts ∧
      Text.Runs Text.ItemSeparator.commaOrBlank.holds s.toList (ts.map String.toList) ∧
      listed .commaOrBlank (Value.texts ts) = .ok ts) ∧
    Path.normalized cwd' "." (Path.normalized cwd parent s) = Path.normalized cwd parent s ∧
    ∀ d : Declaration, ∃ w, d.normalize cwd parent (.text s) = .ok w ∧ d.normalize cwd' "." w =
      .ok (if d.isPath && d.isList then Value.texts (w.textItems.filter (· ≠ "")) else w) := by
  have hlisted := listed_text .commaOrBlank s
  have htwice : ∀ path, Path.normalized cwd' "." (Path.normalized cwd parent path) =
      Path.normalized cwd parent path := Path.normalized_normalized (.inr hparent) cwd'
  refine ⟨⟨_, hlisted, runs_items s, listed_listed hlisted⟩, htwice s, fun d => ?_⟩
  cases hpath : d.isPath <;> cases hlist : d.isList
  · exact ⟨_, normalize_of_bare hlist hpath _, normalize_of_bare hlist hpath _⟩
  · exact ⟨_, normalize_list hpath hlist hlisted cwd parent,
      normalize_list hpath hlist (listed_listed hlisted) cwd' "."⟩
  · refine ⟨_, normalize_path hpath hlist cwd parent s, ?_⟩
    rw [normalize_path hpath hlist, htwice]
    rfl
  · refine ⟨_, normalize_paths hpath hlist hlisted cwd parent, ?_⟩
    rw [normalize_paths hpath hlist (listed_normalized hparent hblank cwd s), textItems_texts]
    refine congrArg (fun ps => Except.ok (Value.texts ps)) ?_
    refine (List.map_congr_left fun p hp => ?_).trans (List.map_id _)
    obtain ⟨item, -, rfl⟩ := List.mem_map.mp (List.mem_filter.mp hp).1
    exact htwice item

/-- A root, a name, a path that turns back and one that doubles a slash, below a directory with a
blank in its name. -/
theorem normalize_again_root :
    Path.isAbsolute "/my files" = true ∧ Path.Unpadded "/my files" ∧
    ∃ w, ({ isPath := true, isList := true } : Declaration).normalize "/" "/my files"
        (.text "/, a.py ../b x//y") = .ok w ∧ w = Value.texts ["", "a.py", "/b", "/my files/x/y"] ∧
      ({ isPath := true, isList := true } : Declaration).normalize "/tmp" "." w =
        .ok (Value.texts ["a.py", "/b", "/my files/x/y"]) := by
  have hblank : Path.Unpadded "/my files" := by
    unfold Path.Unpadded
    decide +kernel
  obtain ⟨-, -, hagain⟩ := normalize_again (by decide) hblank "/" "/tmp" "/, a.py ../b x//y"
  obtain ⟨w, hw, htwice⟩ := hagain { isPath := true, isList := true }
  have hvalue : w = Value.texts ["", "a.py", "/b", "/my files/x/y"] :=
    Except.ok.inj (hw.symm.trans rfl)
  refine ⟨by decide, hblank, w, hw, hvalue, ?_⟩
  rw [htwice, hvalue]
  rfl

end Options.Declaration

end LintRunner
