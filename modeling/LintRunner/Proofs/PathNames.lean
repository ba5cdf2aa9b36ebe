import LintRunner.Path
import LintRunner.Text.Basic
import Mathlib.Data.List.Basic

/-!
# The names on a path

A path in its normal form is told by its leading slashes and the names between its slashes. This
module says what joining, resolving and cutting off do to these names.
-/

namespace LintRunner

namespace Text

variable {sep : Char → Bool} {c : Char} {cs ds : List Char}

theorem splitBy_append_cons (hc : sep c = true) (cs ds : List Char) :
    splitBy sep (cs ++ c :: ds) = splitBy sep cs ++ splitBy sep ds := by
  induction cs with
  | nil => simp only [List.nil_append, splitBy, hc, if_true, List.singleton_append]
  | cons x xs ih =>
    rw [List.cons_append, splitBy, splitBy, ih]
    split
    · rfl
    · cases hxs : splitBy sep xs with
      | nil => exact absurd hxs (splitBy_ne_nil sep xs)
      | cons piece rest => rfl

theorem splitBy_of_forall_not (h : ∀ c ∈ cs, sep c = false) : splitBy sep cs = [cs] := by
  induction cs with
  | nil => rfl
  | cons x xs ih =>
    obtain ⟨hx, hxs⟩ := List.forall_mem_cons.mp h
    rw [splitBy, hx, ih hxs]
    rfl

theorem mem_of_mem_splitBy {piece : List Char} (h : piece ∈ splitBy sep cs) :
    ∀ c ∈ piece, c ∈ cs ∧ sep c = false := by
  induction cs generalizing piece with
  | nil =>
    rw [splitBy, List.mem_singleton] at h
    rw [h]
    exact List.forall_mem_nil _
  | cons x xs ih =>
    have hmore : ∀ c, c ∈ xs ∧ sep c = false → c ∈ x :: xs ∧ sep c = false := fun c hc =>
      ⟨List.mem_cons_of_mem x hc.1, hc.2⟩
    rw [splitBy] at h
    split at h
    · rcases List.mem_cons.mp h with rfl | hrest
      · exact List.forall_mem_nil _
      · exact fun c hc => hmore c (ih hrest c hc)
    · rename_i hx
      cases hxs : splitBy sep xs with
      | nil => exact absurd hxs (splitBy_ne_nil sep xs)
      | cons first rest =>
        rw [hxs] at h ih
        rcases List.mem_cons.mp h with rfl | hrest
        · exact List.forall_mem_cons.mpr ⟨⟨List.mem_cons_self, Bool.eq_false_iff.mpr hx⟩,
            fun c hc => hmore c (ih List.mem_cons_self c hc)⟩
        · exact fun c hc => hmore c (ih (List.mem_cons_of_mem first hrest) c hc)

theorem not_sep_of_mem_splitBy {piece : List Char} (h : piece ∈ splitBy sep cs) :
    ∀ c ∈ piece, sep c = false := fun c hc => (mem_of_mem_splitBy h c hc).2

theorem items_commaOrBlank (s : String) : items .commaOrBlank s =
    ((splitBy ItemSeparator.commaOrBlank.holds s.toList).filter (!·.isEmpty)).map String.ofList := by
  have htrim : ∀ piece ∈ splitBy ItemSeparator.commaOrBlank.holds s.toList,
      (trim ∘ String.ofList) piece = String.ofList piece := by
    intro piece hpiece
    have hblank : ∀ c ∈ piece, isBlank c = false := fun c hc =>
      (Bool.or_eq_false_iff.mp (not_sep_of_mem_splitBy hpiece c hc)).2
    rw [Function.comp_apply, trim, String.toList_ofList, dropEnds_of_forall_not hblank]
  have hempty : ((!·.isEmpty) ∘ String.ofList) = fun cs : List Char => !cs.isEmpty := by
    funext cs
    cases cs <;> simp
  rw [items, keepItems, List.map_map, List.map_congr_left htrim, List.filter_map, hempty]

end Text

namespace Path

open Text

/-- The names on a path: its parts without the empty ones. -/
def names (p : String) : List String := (parts p).filter (!·.isEmpty)

structure IsName (name : String) : Prop where
  ne_empty : name ≠ ""
  slash_not_mem : '/' ∉ name.toList

structure Plain (name : String) : Prop extends IsName name where
  ne_dot : name ≠ "."
  ne_dots : name ≠ ".."

variable {p part n lead name q : String} {ns seen ms ps : List String} {absolute : Bool}

theorem parts_append_slash (p q : String) : parts (p ++ "/" ++ q) = parts p ++ parts q := by
  have hcut : splitBy (· == '/') (p.toList ++ '/' :: q.toList) = _ :=
    splitBy_append_cons rfl p.toList q.toList
  simp only [parts, splitOnChar, String.toList_append, List.append_assoc, ← List.map_append,
    ← hcut]
  rfl

theorem parts_of_slash_not_mem (h : '/' ∉ p.toList) : parts p = [p] := by
  have hnot : ∀ c ∈ p.toList, (c == '/') = false := by
    intro c hc
    rw [beq_eq_false_iff_ne]
    rintro rfl
    exact h hc
  rw [parts, splitOnChar, splitBy_of_forall_not hnot, List.map_singleton, String.ofList_toList]

theorem slash_not_mem_of_mem_parts (h : part ∈ parts p) :
    '/' ∉ part.toList := by
  obtain ⟨piece, hpiece, rfl⟩ := List.mem_map.mp h
  intro hslash
  rw [String.toList_ofList] at hslash
  have hnot := not_sep_of_mem_splitBy hpiece '/' hslash
  cases hnot

theorem mem_of_mem_names (h : n ∈ names p) : ∀ c ∈ n.toList, c ∈ p.toList := by
  obtain ⟨piece, hpiece, rfl⟩ := List.mem_map.mp (List.mem_filter.mp h).1
  rw [String.toList_ofList]
  exact fun c hc => (mem_of_mem_splitBy hpiece c hc).1

theorem names_append_slash (p q : String) : names (p ++ "/" ++ q) = names p ++ names q := by
  rw [names, parts_append_slash, List.filter_append]
  rfl

theorem names_slash_append (q : String) : names ("/" ++ q) = names q := by
  have hsplit := names_append_slash "" q
  exact hsplit

@[simp] theorem names_empty : names "" = [] := rfl

theorem IsName.names_eq (h : IsName name) : names name = [name] := by
  have hempty : name.isEmpty = false :=
    Bool.eq_false_iff.mpr (mt String.isEmpty_iff.mp h.ne_empty)
  rw [names, parts_of_slash_not_mem h.slash_not_mem, List.filter_singleton, hempty]
  rfl

theorem names_joinWith (h : ∀ n ∈ ns, IsName n) :
    names (joinWith "/" ns) = ns := by
  induction ns with
  | nil => rfl
  | cons n rest ih =>
    obtain ⟨hn, hrest⟩ := List.forall_mem_cons.mp h
    cases rest with
    | nil => simpa [joinWith] using hn.names_eq
    | cons m rest =>
      rw [joinWith, String.intercalate_cons_cons, names_append_slash, hn.names_eq]
      exact congrArg (n :: ·) (ih hrest)

theorem names_join (hq : isAbsolute q = false) (p : String) :
    names (join p q) = names p ++ names q := by
  rw [join, if_neg (Bool.eq_false_iff.mp hq)]
  split
  · rename_i hend
    rcases Bool.or_eq_true_iff.mp hend with hempty | hslash
    · rw [String.isEmpty_iff.mp hempty, String.empty_append]
      rfl
    · -- A slash at the end of the first path cuts like one between the two.
      obtain ⟨front, hfront⟩ := List.isSuffixOf_iff_suffix.mp hslash
      have hp : p = String.ofList front ++ "/" := by
        rw [← String.toList_inj, ← hfront]
        simp
      have hwhole := names_append_slash (String.ofList front) ""
      rw [String.append_empty] at hwhole
      rw [hp, names_append_slash, hwhole]
      exact congrArg (· ++ names q) (List.append_nil _).symm
  · exact names_append_slash p q

/-! ## Resolving -/

theorem foldl_step_filter (absolute : Bool) (ps seen : List String) :
    (ps.filter (!·.isEmpty)).foldl (step absolute) seen = ps.foldl (step absolute) seen := by
  induction ps generalizing seen with
  | nil => rfl
  | cons part rest ih =>
    rw [List.filter_cons, List.foldl_cons]
    split
    · exact ih (step absolute seen part)
    · rename_i hempty
      have hpart : part = "" := by simpa using hempty
      rw [ih, hpart]
      rfl

theorem normalParts_names (absolute : Bool) (p : String) :
    normalParts absolute (names p) = normalParts absolute (parts p) :=
  congrArg List.reverse (foldl_step_filter absolute (parts p) [])

theorem step_of_empty (h : (part = "" || part = ".") = true) (absolute : Bool)
    (seen : List String) : step absolute seen part = seen := by
  unfold step
  rw [if_pos h]

theorem step_dots (h : ".." ∉ seen) : step true seen ".." = seen.tail := by
  cases seen with
  | nil => rfl
  | cons last rest =>
    have hlast : last ≠ ".." := fun heq => h (heq ▸ List.mem_cons_self)
    simp [step, hlast]

theorem step_of_name (hempty : ¬ (part = "" || part = ".") = true)
    (hdots : part ≠ "..") (absolute : Bool) (seen : List String) :
    step absolute seen part = part :: seen := by
  unfold step
  rw [if_neg hempty, if_neg hdots]

theorem Plain.step_eq (h : Plain name) (absolute : Bool) (seen : List String) :
    step absolute seen name = name :: seen :=
  step_of_name (by simp [h.ne_empty, h.ne_dot]) h.ne_dots absolute seen

theorem foldl_step_of_plain (h : ∀ n ∈ ns, Plain n) (absolute : Bool)
    (seen : List String) : ns.foldl (step absolute) seen = ns.reverse ++ seen := by
  induction ns generalizing seen with
  | nil => rfl
  | cons n rest ih =>
    obtain ⟨hn, hrest⟩ := List.forall_mem_cons.mp h
    rw [List.foldl_cons, hn.step_eq, ih hrest, List.reverse_cons, List.append_assoc]
    rfl

theorem mem_of_mem_step
    (h : n ∈ step absolute seen part) : n = part ∨ n ∈ seen := by
  unfold step at h
  split at h
  · exact .inr h
  · split at h
    · rename_i hdots
      split at h
      · split at h
        · cases h
        · exact .inl ((List.mem_singleton.mp h).trans hdots.symm)
      · split at h
        · exact List.mem_cons.mp h
        · exact .inr (List.mem_cons_of_mem _ h)
    · exact List.mem_cons.mp h

theorem mem_of_mem_foldl_step
    (h : n ∈ ps.foldl (step absolute) seen) : n ∈ seen ∨ n ∈ ps := by
  induction ps generalizing seen with
  | nil => exact .inl h
  | cons part rest ih =>
    rcases ih h with hseen | hrest
    · rcases mem_of_mem_step hseen with rfl | hseen
      · exact .inr List.mem_cons_self
      · exact .inl hseen
    · exact .inr (List.mem_cons_of_mem part hrest)

theorem mem_names_of_mem_normalParts
    (h : n ∈ normalParts absolute (parts p)) : n ∈ names p := by
  rw [← normalParts_names] at h
  exact (mem_of_mem_foldl_step (List.mem_reverse.mp h)).resolve_left List.not_mem_nil

theorem plain_of_mem_step (hseen : ∀ n ∈ seen, Plain n)
    (hpart : '/' ∉ part.toList) : ∀ n ∈ step true seen part, Plain n := by
  by_cases hempty : (part = "" || part = ".") = true
  · rw [step_of_empty hempty]
    exact hseen
  · by_cases hdots : part = ".."
    · rw [hdots, step_dots fun hmem => (hseen _ hmem).ne_dots rfl]
      exact fun n hn => hseen n (List.mem_of_mem_tail hn)
    · rw [step_of_name hempty hdots]
      rw [Bool.or_eq_true, decide_eq_true_iff, decide_eq_true_iff, not_or] at hempty
      exact List.forall_mem_cons.mpr ⟨⟨⟨hempty.1, hpart⟩, hempty.2, hdots⟩, hseen⟩

theorem plain_of_mem_foldl_step (hseen : ∀ n ∈ seen, Plain n)
    (hps : ∀ part ∈ ps, '/' ∉ part.toList) : ∀ n ∈ ps.foldl (step true) seen, Plain n := by
  induction ps generalizing seen with
  | nil => exact hseen
  | cons part rest ih =>
    obtain ⟨hpart, hrest⟩ := List.forall_mem_cons.mp hps
    exact ih (plain_of_mem_step hseen hpart) hrest

theorem plain_of_mem_normalParts (h : n ∈ normalParts true (parts p)) : Plain n :=
  plain_of_mem_foldl_step (fun _ hm => absurd hm List.not_mem_nil)
    (fun _ hpart => slash_not_mem_of_mem_parts hpart) n (List.mem_reverse.mp h)

theorem normalParts_of_plain (h : ∀ n ∈ ns, Plain n) (absolute : Bool) :
    normalParts absolute ns = ns := by
  rw [normalParts, foldl_step_of_plain h, List.append_nil, List.reverse_reverse]

theorem normalParts_concat (h : Plain n) (absolute : Bool) (ns : List String) :
    normalParts absolute (ns ++ [n]) = normalParts absolute ns ++ [n] := by
  rw [normalParts, List.foldl_append, List.foldl_cons, List.foldl_nil, h.step_eq,
    List.reverse_cons]
  rfl

/-- Plain names on the way are all kept in front of what follows, unless that turns back. -/
theorem normalParts_append_of_plain (h : ∀ n ∈ ns, Plain n)
    (ms : List String) :
    normalParts true (ns ++ ms) = (ms.foldl (step true) ns.reverse).reverse := by
  rw [normalParts, List.foldl_append, foldl_step_of_plain h, List.append_nil]

theorem normalParts_turning_back (hns : ∀ n ∈ ns, Plain n)
    (hms : ∀ n ∈ ms, Plain n) : normalParts true (ns ++ ".." :: ms) = ns.dropLast ++ ms := by
  have hdots : ".." ∉ ns.reverse := fun hmem => (hns _ (List.mem_reverse.mp hmem)).ne_dots rfl
  rw [normalParts_append_of_plain hns, List.foldl_cons, step_dots hdots, foldl_step_of_plain hms,
    List.reverse_append, List.reverse_reverse, List.tail_reverse, List.reverse_reverse]

/-- The path is absolute, and there is nothing to normalise in it. -/
structure IsNormal (p : String) : Prop where
  isAbsolute : isAbsolute p = true
  normal_eq : normal p = p

theorem isAbsolute_iff : isAbsolute p = true ↔ ∃ q, p = "/" ++ q := by
  constructor
  · intro h
    obtain ⟨rest, hrest⟩ := List.isPrefixOf_iff_prefix.mp h
    refine ⟨String.ofList rest, ?_⟩
    rw [← String.toList_inj, ← hrest]
    simp
  · rintro ⟨q, rfl⟩
    rw [isAbsolute, startsWith, String.toList_append]
    exact List.isPrefixOf_iff_prefix.mpr (List.prefix_append _ _)

theorem leadingSlashes_of_isAbsolute (h : isAbsolute p = true) :
    leadingSlashes p = "/" ∨ leadingSlashes p = "//" := by
  obtain ⟨q, rfl⟩ := isAbsolute_iff.mp h
  have hfirst : ("/" ++ q).toList = '/' :: q.toList := by simp
  rw [leadingSlashes, hfirst, List.takeWhile_cons_of_pos rfl, List.length_cons]
  split
  · omega
  · exact .inr rfl
  · exact .inl rfl

theorem names_lead_append (h : lead = "/" ∨ lead = "//") (q : String) :
    names (lead ++ q) = names q := by
  rcases h with rfl | rfl
  · exact names_slash_append q
  · have htwice : "//" ++ q = "/" ++ ("/" ++ q) := by rw [← String.append_assoc]; rfl
    rw [htwice, names_slash_append, names_slash_append]

theorem isAbsolute_lead_append (h : lead = "/" ∨ lead = "//") (q : String) :
    isAbsolute (lead ++ q) = true := by
  rcases h with rfl | rfl
  · exact isAbsolute_iff.mpr ⟨q, rfl⟩
  · refine isAbsolute_iff.mpr ⟨"/" ++ q, ?_⟩
    rw [← String.append_assoc]
    rfl

theorem normal_of_isAbsolute (h : isAbsolute p = true) :
    normal p = leadingSlashes p ++ joinWith "/" (normalParts true (parts p)) := by
  unfold normal
  dsimp only
  rw [h]
  rcases leadingSlashes_of_isAbsolute h with hlead | hlead <;> rw [hlead, if_neg (by simp)]

theorem names_normal (h : isAbsolute p = true) :
    names (normal p) = normalParts true (parts p) := by
  rw [normal_of_isAbsolute h, names_lead_append (leadingSlashes_of_isAbsolute h)]
  exact names_joinWith fun n hn => (plain_of_mem_normalParts hn).toIsName

theorem IsNormal.names_eq (h : IsNormal p) : normalParts true (parts p) = names p := by
  rw [← names_normal h.isAbsolute, h.normal_eq]

theorem IsNormal.plain (h : IsNormal p) (hn : n ∈ names p) : Plain n :=
  plain_of_mem_normalParts (h.names_eq ▸ hn)

theorem IsNormal.eq_joinWith (h : IsNormal p) :
    p = leadingSlashes p ++ joinWith "/" (names p) := by
  rw [← h.names_eq, ← normal_of_isAbsolute h.isAbsolute, h.normal_eq]

theorem head_joinWith (h : ∀ n ∈ ns, IsName n) :
    ∀ c ∈ (joinWith "/" ns).toList.head?, c ≠ '/' := by
  cases ns with
  | nil => simp [joinWith]
  | cons n rest =>
    have hn := h n List.mem_cons_self
    have hstart : ∃ tail, (joinWith "/" (n :: rest)).toList = n.toList ++ tail := by
      cases rest with
      | nil => exact ⟨[], by simp [joinWith]⟩
      | cons m rest => exact ⟨_, by rw [joinWith, String.intercalate_cons_cons,
          String.append_assoc, String.toList_append]⟩
    obtain ⟨tail, htail⟩ := hstart
    rw [htail]
    cases hname : n.toList with
    | nil => exact absurd (String.toList_eq_nil_iff.mp hname) hn.ne_empty
    | cons a as =>
      have hslash := hn.slash_not_mem
      rw [hname] at hslash
      rintro c hc rfl
      cases hc
      exact hslash List.mem_cons_self

theorem leadingSlashes_joinWith (hlead : lead = "/" ∨ lead = "//") (h : ∀ n ∈ ns, Plain n) :
    leadingSlashes (lead ++ joinWith "/" ns) = lead := by
  have hhead := head_joinWith fun n hn => (h n hn).toIsName
  have hrest : (joinWith "/" ns).toList.takeWhile (· == '/') = [] := by
    cases hjoin : (joinWith "/" ns).toList with
    | nil => rfl
    | cons c cs =>
      rw [hjoin] at hhead
      have hc := hhead c rfl
      simp [hc]
  rcases hlead with rfl | rfl
  · simp [leadingSlashes, String.toList_append, hrest]
  · simp [leadingSlashes, String.toList_append, hrest]

theorem isNormal_joinWith (hlead : lead = "/" ∨ lead = "//")
    (h : ∀ n ∈ ns, Plain n) : IsNormal (lead ++ joinWith "/" ns) := by
  have habsolute := isAbsolute_lead_append hlead (joinWith "/" ns)
  have hnames : names (lead ++ joinWith "/" ns) = ns := by
    rw [names_lead_append hlead]
    exact names_joinWith fun n hn => (h n hn).toIsName
  refine ⟨habsolute, ?_⟩
  rw [normal_of_isAbsolute habsolute, leadingSlashes_joinWith hlead h, ← normalParts_names,
    hnames, normalParts_of_plain h]

theorem isNormal_normal (h : isAbsolute p = true) : IsNormal (normal p) := by
  rw [normal_of_isAbsolute h]
  exact isNormal_joinWith (leadingSlashes_of_isAbsolute h) fun n hn => plain_of_mem_normalParts hn

/-! ## Names from the root -/

theorem join_of_isAbsolute (h : isAbsolute q = true) (p : String) : join p q = q := by
  rw [join, if_pos h]

theorem isAbsolute_join (h : isAbsolute p = true) (q : String) :
    isAbsolute (join p q) = true := by
  obtain ⟨rest, rfl⟩ := isAbsolute_iff.mp h
  unfold join
  split
  · assumption
  · split
    · rw [String.append_assoc]
      exact isAbsolute_iff.mpr ⟨_, rfl⟩
    · rw [String.append_assoc, String.append_assoc]
      exact isAbsolute_iff.mpr ⟨_, rfl⟩

theorem absoluteNames_eq {cwd : String} (h : isAbsolute cwd = true) (p : String) :
    absoluteNames cwd p = normalParts true (parts (join cwd p)) :=
  names_normal (isAbsolute_join h p)

theorem absoluteNames_of_isAbsolute (h : isAbsolute p = true) (cwd : String) :
    absoluteNames cwd p = normalParts true (names p) := by
  have hnames := names_normal h
  rw [← normalParts_names] at hnames
  rw [absoluteNames, absolute, join_of_isAbsolute h]
  exact hnames

theorem IsNormal.absoluteNames_eq (h : IsNormal p) (cwd : String) :
    absoluteNames cwd p = names p := by
  rw [absoluteNames_of_isAbsolute h.isAbsolute, normalParts_of_plain fun n hn => h.plain hn]

theorem joinWith_concat (h : ms ≠ []) (n : String) :
    joinWith "/" (ms ++ [n]) = joinWith "/" ms ++ "/" ++ n := by
  rw [joinWith, String.intercalate_append_of_ne_nil h (List.cons_ne_nil n []),
    String.intercalate_singleton]
  rfl

theorem reverse_append_slash (h : '/' ∉ n.toList) (p : String) :
    (p ++ "/" ++ n).toList.reverse = n.toList.reverse ++ '/' :: p.toList.reverse ∧
      ∀ c ∈ n.toList.reverse, (c != '/') = true := by
  refine ⟨by simp, ?_⟩
  intro c hc
  rw [bne_iff_ne]
  rintro rfl
  exact h (List.mem_reverse.mp hc)

theorem baseName_append_slash (h : '/' ∉ n.toList) (p : String) :
    baseName (p ++ "/" ++ n) = n := by
  obtain ⟨hreverse, hall⟩ := reverse_append_slash h p
  rw [baseName, hreverse, List.takeWhile_append_of_pos hall, List.takeWhile_cons_of_neg (by simp),
    List.append_nil, List.reverse_reverse, String.ofList_toList]

theorem dirName_append_slash (h : '/' ∉ n.toList) (p : String) :
    dirName (p ++ "/" ++ n) =
      if (dropTrailing (· == '/') p.toList).isEmpty then p ++ "/"
      else String.ofList (dropTrailing (· == '/') p.toList) := by
  obtain ⟨hreverse, hall⟩ := reverse_append_slash h p
  have hbare : dropTrailing (· == '/') ('/' :: p.toList.reverse).reverse =
      dropTrailing (· == '/') p.toList := by
    rw [dropTrailing, List.reverse_reverse, List.dropWhile_cons_of_pos (by simp)]
    rfl
  rw [dirName, hreverse, List.dropWhile_append_of_pos hall, List.dropWhile_cons_of_neg (by simp),
    hbare]
  split
  · rw [← String.toList_inj]
    simp
  · rfl

theorem toList_joinWith_concat (lead : String) (ls : List String) (m : String) :
    ∃ front, (lead ++ joinWith "/" (ls ++ [m])).toList = front ++ m.toList := by
  by_cases hls : ls = []
  · rw [hls]
    exact ⟨lead.toList, by simp [joinWith]⟩
  · rw [joinWith_concat hls]
    exact ⟨_, by rw [← String.append_assoc, String.toList_append]⟩

theorem dropTrailing_joinWith (h : ∀ n ∈ ms, Plain n) (hne : ms ≠ [])
    (lead : String) :
    dropTrailing (· == '/') (lead ++ joinWith "/" ms).toList = (lead ++ joinWith "/" ms).toList := by
  obtain ⟨ls, m, rfl⟩ : ∃ ls m, ms = ls ++ [m] := ⟨_, _, (List.dropLast_concat_getLast hne).symm⟩
  have hm := h m (List.mem_append_right ls List.mem_cons_self)
  obtain ⟨front, hfront⟩ := toList_joinWith_concat lead ls m
  have hchars : m.toList ≠ [] := mt String.toList_eq_nil_iff.mp hm.ne_empty
  obtain ⟨cs, c, hlast⟩ : ∃ cs c, m.toList = cs ++ [c] :=
    ⟨_, _, (List.dropLast_concat_getLast hchars).symm⟩
  have hc : c ≠ '/' := by
    rintro rfl
    exact hm.slash_not_mem (hlast ▸ List.mem_append_right cs List.mem_cons_self)
  rw [hfront, hlast, ← List.append_assoc, dropTrailing, List.reverse_concat,
    List.dropWhile_cons_of_neg (by simpa using hc), List.reverse_cons, List.reverse_reverse]

theorem split_joinWith (hlead : lead = "/" ∨ lead = "//") (h : ∀ m ∈ ms ++ [n], Plain m) :
    split (lead ++ joinWith "/" (ms ++ [n])) = (lead ++ joinWith "/" ms, n) := by
  have hn := (h n (List.mem_append_right ms List.mem_cons_self)).slash_not_mem
  have hms : ∀ m ∈ ms, Plain m := fun m hm => h m (List.mem_append_left [n] hm)
  rw [split]
  by_cases hempty : ms = []
  · subst hempty
    have hwhole : joinWith "/" ([] ++ [n]) = n := by simp [joinWith]
    rw [hwhole]
    rcases hlead with rfl | rfl
    · have hcut : "/" ++ n = "" ++ "/" ++ n := rfl
      rw [hcut, dirName_append_slash hn, baseName_append_slash hn]
      rfl
    · have hcut : "//" ++ n = "/" ++ "/" ++ n := rfl
      rw [hcut, dirName_append_slash hn, baseName_append_slash hn]
      rfl
  · rw [joinWith_concat hempty, ← String.append_assoc, ← String.append_assoc,
      dirName_append_slash hn, baseName_append_slash hn, dropTrailing_joinWith hms hempty,
      String.ofList_toList, if_neg]
    rcases hlead with rfl | rfl <;> simp

theorem IsNormal.split_cases (h : IsNormal p) :
    (names p = [] ∧ split p = (p, "")) ∨
      ∃ ms n, names p = ms ++ [n] ∧ split p = (leadingSlashes p ++ joinWith "/" ms, n) := by
  have hlead := leadingSlashes_of_isAbsolute h.isAbsolute
  rcases List.eq_nil_or_concat' (names p) with hnames | ⟨ms, n, hnames⟩
  · refine .inl ⟨hnames, ?_⟩
    have hp := h.eq_joinWith
    rw [hnames] at hp
    rcases hlead with hslash | hslash
    · rw [hp, hslash]
      rfl
    · rw [hp, hslash]
      rfl
  · refine .inr ⟨ms, n, hnames, ?_⟩
    have hplain : ∀ m ∈ ms ++ [n], Plain m := fun m hm => h.plain (hnames ▸ hm)
    have hcut := split_joinWith hlead hplain
    rw [← hnames, ← h.eq_joinWith] at hcut
    exact hcut

theorem IsNormal.dirName (h : IsNormal p) : IsNormal (dirName p) := by
  rcases h.split_cases with ⟨_, hcut⟩ | ⟨ms, n, hnames, hcut⟩
  · have hdir : Path.dirName p = p := (Prod.mk.inj hcut).1
    exact hdir.symm ▸ h
  · have hdir : Path.dirName p = leadingSlashes p ++ joinWith "/" ms := (Prod.mk.inj hcut).1
    rw [hdir]
    exact isNormal_joinWith (leadingSlashes_of_isAbsolute h.isAbsolute) fun m hm =>
      h.plain (hnames ▸ List.mem_append_left [n] hm)

theorem IsNormal.baseName (h : IsNormal p) : baseName p = "" ∨ Plain (baseName p) := by
  rcases h.split_cases with ⟨_, hcut⟩ | ⟨ms, n, hnames, hcut⟩
  · exact .inl (Prod.mk.inj hcut).2
  · have hbase : Path.baseName p = n := (Prod.mk.inj hcut).2
    rw [hbase]
    exact .inr (h.plain (hnames ▸ List.mem_append_right ms List.mem_cons_self))

end Path

end LintRunner
