import LintRunner.Hook.Git
import LintRunner.Proofs.TreeFiles

/-!
# Where copies of staged files go

A staged file is copied to a place below a temporary directory. The place is found by the longest
text that both paths start with, and that text may end inside a name. This module says which names
the place has, when the way to it turns back and leaves the temporary directory, and what a copy
does to the files.
-/

namespace LintRunner

open Stateful Text

namespace Path

variable {as bs : List String} {p : String}

theorem commonChars_nil_right (cs : List Char) : commonChars cs [] = [] := by
  cases cs <;> rfl

theorem commonChars_append (cs xs ys : List Char) :
    commonChars (cs ++ xs) (cs ++ ys) = cs ++ commonChars xs ys := by
  induction cs with
  | nil => rfl
  | cons c cs ih => rw [List.cons_append, List.cons_append, commonChars, if_pos rfl, ih]; rfl

theorem commonChars_append_of_ne {mark : Char} {as bs xs ys : List Char} (has : mark ∉ as)
    (hbs : mark ∉ bs) (hxs : ∀ c ∈ xs.head?, c = mark) (hys : ∀ c ∈ ys.head?, c = mark)
    (hne : as ≠ bs) : commonChars (as ++ xs) (bs ++ ys) = commonChars as bs := by
  induction as generalizing bs with
  | nil =>
    cases bs with
    | nil => exact absurd rfl hne
    | cons b bs =>
      cases xs with
      | nil => rfl
      | cons x xs =>
        have hx : x ≠ b := by
          rintro rfl
          exact hbs (hxs x rfl ▸ List.mem_cons_self)
        rw [List.nil_append, List.cons_append, commonChars, if_neg hx]
        rfl
  | cons a as ih =>
    cases bs with
    | nil =>
      rw [commonChars_nil_right]
      cases ys with
      | nil => rw [List.nil_append, commonChars_nil_right]
      | cons y ys =>
        have hy : a ≠ y := by
          rintro rfl
          exact has (hys a rfl ▸ List.mem_cons_self)
        rw [List.nil_append, List.cons_append, commonChars, if_neg hy]
    | cons b bs =>
      rw [List.cons_append, List.cons_append, commonChars, commonChars]
      split
      · rename_i hab
        subst hab
        congr 1
        apply ih (fun h => has (List.mem_cons_of_mem a h))
          (fun h => hbs (List.mem_cons_of_mem a h))
        rintro rfl
        exact hne rfl
      · rfl

theorem mem_of_mem_commonChars {as bs : List Char} {c : Char} (h : c ∈ commonChars as bs) :
    c ∈ as := by
  induction as generalizing bs with
  | nil => cases h
  | cons a as ih =>
    cases bs with
    | nil => cases h
    | cons b bs =>
      rw [commonChars] at h
      split at h
      · rcases List.mem_cons.mp h with rfl | hrest
        · exact List.mem_cons_self
        · exact List.mem_cons_of_mem a (ih hrest)
      · cases h

/-- The names in which two ways agree, and the text that the first names in which they differ both
start with. -/
def commonNames : List String → List String → List String
  | a :: as, b :: bs =>
    if a = b then a :: commonNames as bs else [String.ofList (commonChars a.toList b.toList)]
  | _, _ => []

def afterFirst : List String → String
  | [] => ""
  | n :: ns => "/" ++ joinWith "/" (n :: ns)

theorem joinWith_cons (n : String) (ns : List String) :
    joinWith "/" (n :: ns) = n ++ afterFirst ns := by
  cases ns with
  | nil => simp [joinWith, afterFirst]
  | cons m ms => rw [joinWith, String.intercalate_cons_cons, String.append_assoc]; rfl

theorem head_afterFirst (ns : List String) : ∀ c ∈ (afterFirst ns).toList.head?, c = '/' := by
  cases ns with
  | nil => simp [afterFirst]
  | cons n ns => simp [afterFirst, eq_comm]

theorem names_commonChars_joinWith (has : ∀ n ∈ as, Plain n)
    (hbs : ∀ n ∈ bs, Plain n) :
    names (String.ofList (commonChars (joinWith "/" as).toList (joinWith "/" bs).toList)) =
      (commonNames as bs).filter (!·.isEmpty) := by
  fun_induction commonNames as bs with
  | case1 as a bs ih =>
    obtain ⟨ha, has⟩ := List.forall_mem_cons.mp has
    obtain ⟨-, hbs⟩ := List.forall_mem_cons.mp hbs
    have hkept : (a :: commonNames as bs).filter (!·.isEmpty) =
        a :: (commonNames as bs).filter (!·.isEmpty) := by
      rw [List.filter_cons_of_pos]
      simpa using ha.ne_empty
    rw [joinWith_cons, joinWith_cons, String.toList_append, String.toList_append,
      commonChars_append, String.ofList_append, String.ofList_toList, hkept, ← ih has hbs]
    cases as with
    | nil => simpa [afterFirst, joinWith, commonChars] using ha.names_eq
    | cons n ns =>
      cases bs with
      | nil => simpa [afterFirst, joinWith, commonChars_nil_right] using ha.names_eq
      | cons m ms =>
        rw [afterFirst, afterFirst, String.toList_append, String.toList_append,
          commonChars_append, String.ofList_append, String.ofList_toList,
          ← String.append_assoc, names_append_slash, ha.names_eq, List.singleton_append]
  | case2 a as b bs hne =>
    have ha := has a List.mem_cons_self
    have hb := hbs b List.mem_cons_self
    have hchars : a.toList ≠ b.toList := fun h => hne (String.toList_inj.mp h)
    have hparts : commonChars (joinWith "/" (a :: as)).toList (joinWith "/" (b :: bs)).toList =
        commonChars a.toList b.toList := by
      rw [joinWith_cons, joinWith_cons, String.toList_append, String.toList_append]
      exact commonChars_append_of_ne ha.slash_not_mem hb.slash_not_mem (head_afterFirst as)
        (head_afterFirst bs) hchars
    have hslash : '/' ∉ (String.ofList (commonChars a.toList b.toList)).toList := by
      rw [String.toList_ofList]
      exact fun h => ha.slash_not_mem (mem_of_mem_commonChars h)
    rw [hparts, names, parts_of_slash_not_mem hslash]
  | case3 as bs hends =>
    cases as with
    | nil => rfl
    | cons a as =>
      cases bs with
      | nil =>
        have hnone : (joinWith "/" []).toList = [] := rfl
        rw [hnone, commonChars_nil_right]
        rfl
      | cons b bs => exact (hends a as b bs rfl rfl).elim

theorem commonChars_of_head_ne {c : Char} {cs : List Char} (h : ∀ x ∈ cs.head?, x ≠ c)
    (ds : List Char) : commonChars cs (c :: ds) = [] ∧ commonChars (c :: ds) cs = [] := by
  cases cs with
  | nil => exact ⟨rfl, rfl⟩
  | cons x xs =>
    have hx := h x rfl
    exact ⟨by rw [commonChars, if_neg hx], by rw [commonChars, if_neg (Ne.symm hx)]⟩

theorem isAbsolute_commonStart {q : String} (hp : isAbsolute p = true)
    (hq : isAbsolute q = true) : isAbsolute (commonStart [p, q]) = true := by
  obtain ⟨p, rfl⟩ := isAbsolute_iff.mp hp
  obtain ⟨q, rfl⟩ := isAbsolute_iff.mp hq
  refine isAbsolute_iff.mpr ⟨String.ofList (commonChars p.toList q.toList), ?_⟩
  rw [commonStart, List.foldl_cons, List.foldl_nil, String.toList_append, String.toList_append,
    commonChars_append, String.ofList_append, String.ofList_toList]

theorem names_commonStart {q : String} (hp : IsNormal p) (hq : IsNormal q) :
    names (commonStart [p, q]) =
      if leadingSlashes p = leadingSlashes q then
        (commonNames (names p) (names q)).filter (!·.isEmpty)
      else [] := by
  have hpnames : ∀ n ∈ names p, Plain n := fun n hn => hp.plain hn
  have hqnames : ∀ n ∈ names q, Plain n := fun n hn => hq.plain hn
  have hphead := head_joinWith fun n hn => (hpnames n hn).toIsName
  have hqhead := head_joinWith fun n hn => (hqnames n hn).toIsName
  have hplead := leadingSlashes_of_isAbsolute hp.isAbsolute
  have hqlead := leadingSlashes_of_isAbsolute hq.isAbsolute
  have hwhole : commonStart [p, q] = String.ofList (commonChars
      (leadingSlashes p ++ joinWith "/" (names p)).toList
      (leadingSlashes q ++ joinWith "/" (names q)).toList) := by
    rw [← hp.eq_joinWith, ← hq.eq_joinWith]
    rfl
  rw [hwhole]
  split
  · rename_i hsame
    rw [hsame, String.toList_append, String.toList_append, commonChars_append,
      String.ofList_append, String.ofList_toList, names_lead_append hqlead]
    exact names_commonChars_joinWith hpnames hqnames
  · rename_i hdiffer
    rcases hplead with hp1 | hp2 <;> rcases hqlead with hq1 | hq2
    · exact absurd (hp1.trans hq1.symm) hdiffer
    · have hparts := (commonChars_of_head_ne hphead (joinWith "/" (names q)).toList).1
      have hone : commonChars ("/" ++ joinWith "/" (names p)).toList
          ("//" ++ joinWith "/" (names q)).toList = ['/'] := by simpa [commonChars] using hparts
      rw [hp1, hq2, hone]
      rfl
    · have hparts := (commonChars_of_head_ne hqhead (joinWith "/" (names p)).toList).2
      have hone : commonChars ("//" ++ joinWith "/" (names p)).toList
          ("/" ++ joinWith "/" (names q)).toList = ['/'] := by simpa [commonChars] using hparts
      rw [hp2, hq1, hone]
      rfl
    · exact absurd (hp2.trans hq2.symm) hdiffer

/-! ## The way from the common start -/

theorem between_append (ks as bs : List String) :
    between (ks ++ as) (ks ++ bs) = between as bs := by
  induction ks with
  | nil => rfl
  | cons k ks ih => rw [List.cons_append, List.cons_append, between, if_pos rfl, ih]

theorem between_suffix (h : as <+: bs) : between as bs <:+ bs := by
  obtain ⟨rest, rfl⟩ := h
  have hrest := between_append as [] rest
  rw [List.append_nil] at hrest
  rw [hrest]
  exact List.suffix_append as rest

/-- The first names in which two ways differ. -/
def parting : List String → List String → Option (String × String)
  | a :: as, b :: bs => if a = b then parting as bs else some (a, b)
  | _, _ => none

theorem commonNames_of_parting_none (h : parting as bs = none) :
    commonNames as bs <+: as := by
  fun_induction parting as bs with
  | case1 as a bs ih =>
    rw [commonNames, if_pos rfl]
    exact List.cons_prefix_cons.mpr ⟨rfl, ih h⟩
  | case2 a as b bs hne => cases h
  | case3 as bs hends =>
    have hnone : commonNames as bs = [] := by
      rw [commonNames]
      exact hends
    rw [hnone]
    exact List.nil_prefix

theorem parting_some {a b : String} (h : parting as bs = some (a, b)) :
    a ≠ b ∧ ∃ ks as' bs', as = ks ++ a :: as' ∧ bs = ks ++ b :: bs' ∧
      commonNames as bs = ks ++ [String.ofList (commonChars a.toList b.toList)] := by
  fun_induction parting as bs with
  | case1 as c bs ih =>
    obtain ⟨hne, ks, as', bs', has, hbs, hcommon⟩ := ih h
    refine ⟨hne, c :: ks, as', bs', ?_, ?_, ?_⟩
    · rw [has, List.cons_append]
    · rw [hbs, List.cons_append]
    · rw [commonNames, if_pos rfl, hcommon, List.cons_append]
  | case2 a' as b' bs hne =>
    cases h
    exact ⟨hne, [], as, bs, rfl, rfl, by rw [commonNames, if_neg hne]; rfl⟩
  | case3 as bs hends => cases h

theorem normalParts_filter (ns : List String) :
    normalParts true (ns.filter (!·.isEmpty)) = normalParts true ns :=
  congrArg List.reverse (foldl_step_filter true ns [])

theorem names_relative {cwd start : String}
    (h : ∀ n ∈ between (absoluteNames cwd start) (absoluteNames cwd p), IsName n) :
    isAbsolute (relative cwd start p) = false ∧
      ∀ ns, normalParts true (ns ++ names (relative cwd start p)) =
        normalParts true (ns ++ between (absoluteNames cwd start) (absoluteNames cwd p)) := by
  unfold relative
  cases hway : between (absoluteNames cwd start) (absoluteNames cwd p) with
  | nil =>
    refine ⟨rfl, ?_⟩
    intro ns
    have hdot : names "." = ["."] := rfl
    dsimp only
    rw [hdot, normalParts, List.foldl_append, List.append_nil]
    rfl
  | cons n rest =>
    rw [hway] at h
    refine ⟨?_, ?_⟩
    · rw [Bool.eq_false_iff]
      intro habsolute
      obtain ⟨q, hq⟩ : ∃ q, joinWith "/" (n :: rest) = "/" ++ q := isAbsolute_iff.mp habsolute
      have hhead := head_joinWith h '/'
      rw [hq] at hhead
      exact hhead (by simp) rfl
    · intro ns
      dsimp only
      rw [names_joinWith h]

end Path

namespace Hook.Git

open LintRunner.Path

variable {destination dir : String}

/-- The name at which the way from the common start of two paths turns back: the first name of `dir`
that is not on the way to `destination`, if the common start ends inside of it and what is cut off
is a name of its own. -/
def turn? (destination dir : String) : Option String :=
  if leadingSlashes dir = leadingSlashes destination then
    match parting (names dir) (names destination) with
    | some (d, t) =>
      if commonChars d.toList t.toList ∈ [[], ['.'], ['.', '.'], d.toList] then none else some d
    | none => none
  else none

/-- The names on the way from the common start of two paths to the first one. -/
def way (destination dir : String) : List String :=
  between (normalParts true (names (commonStart [dir, destination]))) (names dir)

theorem way_of_turn_none (hdestination : IsNormal destination) (hdir : IsNormal dir)
    (h : turn? destination dir = none) : way destination dir <:+ names dir := by
  apply between_suffix
  have hplain : ∀ n ∈ names dir, Plain n := fun n hn => hdir.plain hn
  rw [names_commonStart hdir hdestination]
  unfold turn? at h
  split
  · rename_i hlead
    rw [if_pos hlead] at h
    rw [normalParts_filter]
    cases hparting : parting (names dir) (names destination) with
    | none =>
      have hstart := commonNames_of_parting_none hparting
      rw [normalParts_of_plain fun n hn => hplain n (hstart.subset hn)]
      exact hstart
    | some pair =>
      obtain ⟨d, t⟩ := pair
      rw [hparting] at h
      obtain ⟨-, ks, ds, ts, hds, -, hcommon⟩ := parting_some hparting
      have hks : ∀ n ∈ ks, Plain n := fun n hn =>
        hplain n (hds ▸ List.mem_append_left (d :: ds) hn)
      have hkept : ks <+: names dir := hds ▸ List.prefix_append ks (d :: ds)
      rw [hcommon]
      have hcut : commonChars d.toList t.toList ∈ [[], ['.'], ['.', '.'], d.toList] := by
        by_contra hnot
        dsimp only at h
        rw [if_neg hnot] at h
        cases h
      -- What is left of the name is nothing, a dot, two dots, or the whole name.
      simp only [List.mem_cons, List.not_mem_nil, or_false] at hcut
      rcases hcut with hcut | hcut | hcut | hcut <;> rw [hcut]
      · rw [normalParts_append_of_plain hks]
        simpa [step] using hkept
      · rw [normalParts_append_of_plain hks]
        simpa [step] using hkept
      · have hback : normalParts true (ks ++ [".."]) = ks.dropLast ++ [] :=
          normalParts_turning_back hks (by simp)
        rw [List.append_nil] at hback
        exact hback ▸ (List.dropLast_prefix ks).trans hkept
      · have hd : Plain d := hplain d (hds ▸ List.mem_append_right ks List.mem_cons_self)
        rw [String.ofList_toList, normalParts_concat hd, normalParts_of_plain hks, hds]
        exact ⟨ds, by rw [List.append_assoc]; rfl⟩
  · exact List.nil_prefix

theorem way_of_turn_some (hdestination : IsNormal destination) (hdir : IsNormal dir) {d : String}
    (h : turn? destination dir = some d) :
    names destination ≠ [] ∧ ∃ ds, (d :: ds) <:+ names dir ∧
      way destination dir = ".." :: d :: ds := by
  have hplain : ∀ n ∈ names dir, Plain n := fun n hn => hdir.plain hn
  unfold turn? at h
  split at h
  · rename_i hlead
    cases hparting : parting (names dir) (names destination) with
    | none =>
      rw [hparting] at h
      cases h
    | some pair =>
      obtain ⟨d', t⟩ := pair
      rw [hparting] at h
      dsimp only at h
      split at h
      · cases h
      · rename_i hcut
        cases h
        obtain ⟨-, ks, ds, ts, hds, hts, hcommon⟩ := parting_some hparting
        have hks : ∀ n ∈ ks, Plain n := fun n hn =>
          hplain n (hds ▸ List.mem_append_left (d :: ds) hn)
        have hd : Plain d := hplain d (hds ▸ List.mem_append_right ks List.mem_cons_self)
        simp only [List.mem_cons, List.not_mem_nil, or_false, not_or] at hcut
        obtain ⟨hempty, hdot, hdots, hwhole⟩ := hcut
        have hstart : Plain (String.ofList (commonChars d.toList t.toList)) := by
          refine ⟨⟨?_, ?_⟩, ?_, ?_⟩
          · intro heq
            exact hempty (by simpa using congrArg String.toList heq)
          · rw [String.toList_ofList]
            exact fun hslash => hd.slash_not_mem (mem_of_mem_commonChars hslash)
          · intro heq
            exact hdot (by simpa using congrArg String.toList heq)
          · intro heq
            exact hdots (by simpa using congrArg String.toList heq)
        have hne : String.ofList (commonChars d.toList t.toList) ≠ d := by
          intro heq
          exact hwhole (by simpa using congrArg String.toList heq)
        refine ⟨by simp [hts], ds, hds ▸ List.suffix_append ks (d :: ds), ?_⟩
        rw [way, names_commonStart hdir hdestination, if_pos hlead, normalParts_filter, hcommon,
          normalParts_concat hstart, normalParts_of_plain hks, hds, between_append, between,
          if_neg hne]
        rfl
  · cases h

theorem isName_of_mem_way (hdestination : IsNormal destination) (hdir : IsNormal dir) {n : String}
    (hn : n ∈ way destination dir) : IsName n := by
  cases hturn : turn? destination dir with
  | none => exact (hdir.plain ((way_of_turn_none hdestination hdir hturn).subset hn)).toIsName
  | some d =>
    obtain ⟨-, ds, hsuffix, hback⟩ := way_of_turn_some hdestination hdir hturn
    rw [hback] at hn
    rcases List.mem_cons.mp hn with rfl | hn
    · exact ⟨by simp, by simp⟩
    · exact (hdir.plain (hsuffix.subset hn)).toIsName

def placeNames (destination dir : String) : List String :=
  normalParts true (names destination ++ way destination dir)

theorem placeBelow_eq (hdir : IsNormal dir) (cwd destination : String) :
    placeBelow cwd destination dir =
      .ok (join destination (relative cwd (commonStart [dir, destination]) dir)) := by
  have hnonempty : ¬ dir.isEmpty = true := by
    obtain ⟨q, rfl⟩ := isAbsolute_iff.mp hdir.isAbsolute
    simp
  rw [placeBelow, wayTo, if_neg hnonempty]
  rfl

theorem relative_resolves (hdestination : IsNormal destination) (hdir : IsNormal dir)
    (cwd : String) :
    isAbsolute (relative cwd (commonStart [dir, destination]) dir) = false ∧
      ∀ ns, normalParts true (ns ++ names (relative cwd (commonStart [dir, destination]) dir)) =
        normalParts true (ns ++ way destination dir) := by
  have hstart := isAbsolute_commonStart hdir.isAbsolute hdestination.isAbsolute
  have hway : between (absoluteNames cwd (commonStart [dir, destination]))
      (absoluteNames cwd dir) = way destination dir := by
    rw [absoluteNames_of_isAbsolute hstart, hdir.absoluteNames_eq, way]
  rw [← hway]
  apply names_relative
  exact fun n hn => isName_of_mem_way hdestination hdir (hway ▸ hn)

theorem placeBelow_ok (hdestination : IsNormal destination) (hdir : IsNormal dir) (cwd : String) :
    ∃ path, placeBelow cwd destination dir = .ok path ∧ isAbsolute path = true ∧
      absoluteNames cwd path = placeNames destination dir := by
  obtain ⟨hrelative, hresolved⟩ := relative_resolves hdestination hdir cwd
  have hpath := isAbsolute_join hdestination.isAbsolute
    (relative cwd (commonStart [dir, destination]) dir)
  refine ⟨_, placeBelow_eq hdir cwd destination, hpath, ?_⟩
  rw [absoluteNames_of_isAbsolute hpath, names_join hrelative, hresolved, placeNames]

theorem placeNames_of_turn_none (hdestination : IsNormal destination) (hdir : IsNormal dir)
    (h : turn? destination dir = none) :
    placeNames destination dir = names destination ++ way destination dir := by
  have hsuffix := way_of_turn_none hdestination hdir h
  apply normalParts_of_plain
  intro n hn
  rcases List.mem_append.mp hn with hn | hn
  · exact hdestination.plain hn
  · exact hdir.plain (hsuffix.subset hn)

theorem placeNames_of_turn_some (hdestination : IsNormal destination) (hdir : IsNormal dir)
    {d : String} (h : turn? destination dir = some d) :
    ∃ front last rest, names destination = front ++ [last] ∧
      placeNames destination dir = front ++ d :: rest := by
  obtain ⟨hne, rest, hsuffix, hback⟩ := way_of_turn_some hdestination hdir h
  refine ⟨_, _, rest, (List.dropLast_concat_getLast hne).symm, ?_⟩
  rw [placeNames, hback]
  exact normalParts_turning_back (fun n hn => hdestination.plain hn)
    fun n hn => hdir.plain (hsuffix.subset hn)

/-- The place for a directory lies outside of the destination: the way turns back at a name that is
not the destination's own. -/
def Strays (destination dir : String) : Prop :=
  ∃ d ∈ turn? destination dir, (names destination).getLast? ≠ some d

instance : DecidablePred (Strays destination) := fun dir =>
  Option.decidableExistsMem (turn? destination dir)

theorem length_le_placeNames (hdestination : IsNormal destination) (hdir : IsNormal dir) :
    (names destination).length ≤ (placeNames destination dir).length := by
  cases hturn : turn? destination dir with
  | none =>
    rw [placeNames_of_turn_none hdestination hdir hturn, List.length_append]
    omega
  | some d =>
    obtain ⟨front, last, rest, hnames, hplace⟩ := placeNames_of_turn_some hdestination hdir hturn
    rw [hnames, hplace]
    simp

theorem placeNames_within_iff (hdestination : IsNormal destination) (hdir : IsNormal dir) :
    names destination <+: placeNames destination dir ↔ ¬ Strays destination dir := by
  cases hturn : turn? destination dir with
  | none =>
    rw [placeNames_of_turn_none hdestination hdir hturn]
    refine iff_of_true (List.prefix_append _ _) ?_
    rintro ⟨d, hd, -⟩
    rw [hturn] at hd
    cases hd
  | some d =>
    obtain ⟨front, last, rest, hnames, hplace⟩ := placeNames_of_turn_some hdestination hdir hturn
    have hstrays : Strays destination dir ↔ last ≠ d := by
      simp [Strays, hturn, hnames]
    rw [hstrays, hnames, hplace, List.prefix_append_right_inj, List.cons_prefix_cons]
    simp

/-! ## What a copy does to the files -/

theorem copyPath_ok (hdestination : IsNormal destination) {cwd : String}
    (hcwd : isAbsolute cwd = true) (file : String) :
    ∃ place path last, copyPath cwd destination file = .ok (place, path) ∧
      absoluteNames cwd path =
        placeNames destination (Path.dirName (absolute cwd file)) ++ last := by
  have hfile : IsNormal (absolute cwd file) := isNormal_normal (isAbsolute_join hcwd file)
  obtain ⟨place, hplace, habsolute, hnames⟩ := placeBelow_ok hdestination hfile.dirName cwd
  have hok : copyPath cwd destination file =
      .ok (place, join place (Path.baseName (absolute cwd file))) := by
    rw [copyPath, hplace]
    rfl
  have hpath := absoluteNames_of_isAbsolute
    (isAbsolute_join habsolute (Path.baseName (absolute cwd file))) cwd
  rw [absoluteNames_of_isAbsolute habsolute] at hnames
  rcases hfile.baseName with hempty | hplain
  · refine ⟨place, _, [], hok, ?_⟩
    have hrelative : isAbsolute (Path.baseName (absolute cwd file)) = false := by
      rw [hempty]
      rfl
    rw [hpath, names_join hrelative, hempty, names_empty, List.append_nil, List.append_nil, hnames]
  · refine ⟨place, _, [Path.baseName (absolute cwd file)], hok, ?_⟩
    have hrelative : isAbsolute (Path.baseName (absolute cwd file)) = false := by
      rw [Bool.eq_false_iff]
      intro hslash
      obtain ⟨q, hq⟩ := isAbsolute_iff.mp hslash
      exact hplain.slash_not_mem (hq ▸ by simp)
    rw [hpath, names_join hrelative, hplain.names_eq, normalParts_concat hplain, hnames]

structure Copied (w : World) (path : String) (content : List UInt8)
    (outcome : Except Fault String × World) : Prop where
  of_error : ∀ {e w'}, outcome = (.error e, w') → w'.tree.files = w.tree.files
  of_ok : ∀ {p w'}, outcome = (.ok p, w') → p = path ∧
    ∃ mode, w'.tree.files = Function.update w.tree.files
      (normalParts true (parts (join w.tree.cwd path))) (some (content, mode))

theorem Copied.of_same_files {w w' : World} {path : String} {content : List UInt8}
    {outcome : Except Fault String × World}
    (h : (w.tree.cwd, w.tree.files) = (w'.tree.cwd, w'.tree.files))
    (hw : Copied w path content outcome) : Copied w' path content outcome := by
  obtain ⟨hcwd, hfiles⟩ := Prod.mk.inj h
  refine ⟨?_, ?_⟩
  · intro e w'' hrun
    exact (hw.of_error hrun).trans hfiles
  · intro p w'' hrun
    rw [← hcwd, ← hfiles]
    exact hw.of_ok hrun

theorem copied_write (path : String) (content : List UInt8) (w : World) :
    Copied w path content
      ((do Run.changeTree (·.write path content); return path : Run String).run w) := by
  rw [run_bind, Run.run_changeTree]
  cases hwrite : w.tree.write path content with
  | error e =>
    refine ⟨fun hrun => ?_, fun hrun => ?_⟩ <;> cases hrun
    rfl
  | ok t =>
    refine ⟨fun hrun => ?_, fun hrun => ?_⟩ <;> cases hrun
    exact ⟨rfl, (FileTree.files_write hwrite).2⟩

theorem copied_copyTo {destination file path place : String} {w : World}
    (h : copyPath w.tree.cwd destination file = .ok (place, path)) (content : List UInt8) :
    Copied w path content ((copyTo destination file content).run w) := by
  have hstart : (copyTo destination file content).run w =
      (if !w.tree.present place then do
        Run.makeDirectories place
        Run.changeTree (·.write path content)
        return path
      else do
        Run.changeTree (·.write path content)
        return path : Run String).run w := by
    unfold copyTo
    rw [Run.run_tree_bind, Run.run_lift_bind h, Run.run_tree_bind]
  rw [hstart]
  by_cases hmissing : (!w.tree.present place) = true
  · have hkept := Run.keeps_makeDirectories place w
    rw [if_pos hmissing, run_bind]
    rcases hmake : (Run.makeDirectories place).run w with ⟨_ | _, w'⟩ <;> rw [hmake] at hkept
    · refine ⟨fun hrun => ?_, fun hrun => ?_⟩ <;> cases hrun
      exact (Prod.mk.inj hkept).2
    · exact (copied_write path content w').of_same_files hkept
  · rw [if_neg hmissing]
    exact copied_write path content w

/-- Once both paths are resolved, the second one is the first one or lies below it. -/
def Within (cwd destination path : String) : Prop :=
  absoluteNames cwd destination <+: absoluteNames cwd path

instance (cwd destination path : String) : Decidable (Within cwd destination path) :=
  inferInstanceAs (Decidable (absoluteNames cwd destination <+: absoluteNames cwd path))

/-- The place for a directory, and a copy that is made there, lie in the temporary directory exactly
if the way to the place does not stray; no other file is changed. -/
theorem copies_stay_within_iff (hdestination : IsNormal destination) :
    (∀ cwd dir, IsNormal dir → ∃ path, placeBelow cwd destination dir = .ok path ∧
      (Within cwd destination path ↔ ¬ Strays destination dir)) ∧
    ∀ (w w' : World) (file : String) (content : List UInt8), isAbsolute w.tree.cwd = true →
      (∀ e, (copyTo destination file content).run w = (.error e, w') →
        w'.tree.files = w.tree.files) ∧
      ∀ path, (copyTo destination file content).run w = (.ok path, w') →
        (∃ mode, w'.tree.files = Function.update w.tree.files (absoluteNames w.tree.cwd path)
          (some (content, mode))) ∧
        (Within w.tree.cwd destination path ↔
          ¬ Strays destination (Path.dirName (absolute w.tree.cwd file))) := by
  refine ⟨?_, ?_⟩
  · intro cwd dir hdir
    obtain ⟨path, hok, -, hnames⟩ := placeBelow_ok hdestination hdir cwd
    refine ⟨path, hok, ?_⟩
    rw [Within, hdestination.absoluteNames_eq, hnames]
    exact placeNames_within_iff hdestination hdir
  · intro w w' file content hcwd
    obtain ⟨place, path, last, hok, hnames⟩ := copyPath_ok hdestination hcwd file
    have hdir : IsNormal (Path.dirName (absolute w.tree.cwd file)) :=
      (isNormal_normal (isAbsolute_join hcwd file)).dirName
    have hcopied := copied_copyTo hok content
    refine ⟨fun e hrun => hcopied.of_error hrun, ?_⟩
    intro p hrun
    obtain ⟨rfl, hfiles⟩ := hcopied.of_ok hrun
    rw [← absoluteNames_eq hcwd] at hfiles
    refine ⟨hfiles, ?_⟩
    rw [Within, hdestination.absoluteNames_eq, hnames, ← placeNames_within_iff hdestination hdir]
    constructor
    · intro hwithin
      exact List.prefix_of_prefix_length_le hwithin (List.prefix_append _ last)
        (length_le_placeNames hdestination hdir)
    · intro hwithin
      exact hwithin.trans (List.prefix_append _ last)

def workingTree : World where
  tree := {
    cwd := "/tmp/tree"
    root := .directory [("tmp", .directory [("staged", .empty), ("tmpdir", .empty),
      ("tree", .directory [("a.py", .ofBytes [111])])])] }

/-- A directory whose name has another first letter: its place is made, and the copy goes there. -/
theorem copy_stays_within_staged :
    IsNormal "/tmp/staged" ∧ IsNormal "/tmp/tree" ∧ ¬ Strays "/tmp/staged" "/tmp/tree" ∧
      (∃ path, placeBelow "/tmp/tree" "/tmp/staged" "/tmp/tree" = .ok path ∧
        Within "/tmp/tree" "/tmp/staged" path) ∧
      ∃ w', (copyTo "/tmp/staged" "a.py" [110]).run workingTree =
          (.ok "/tmp/staged/tree/a.py", w') ∧
        Within "/tmp/tree" "/tmp/staged" "/tmp/staged/tree/a.py" ∧
        w'.tree.files ["tmp", "tree", "a.py"] = some ([111], 0o644) := by
  have hstaged : IsNormal "/tmp/staged" := ⟨rfl, by decide +kernel⟩
  have htree : IsNormal "/tmp/tree" := ⟨rfl, by decide +kernel⟩
  have hstays : ¬ Strays "/tmp/staged" "/tmp/tree" := by decide +kernel
  have hdone : ((copyTo "/tmp/staged" "a.py" [110]).run workingTree).1 =
      .ok "/tmp/staged/tree/a.py" := eq_ok_of_toOption (by decide +kernel)
  rcases hrun : (copyTo "/tmp/staged" "a.py" [110]).run workingTree with ⟨r, w'⟩
  rw [hrun] at hdone
  obtain rfl : r = .ok "/tmp/staged/tree/a.py" := hdone
  have hdir : Path.dirName (absolute workingTree.tree.cwd "a.py") = "/tmp/tree" := by
    decide +kernel
  obtain ⟨hplace, hcopy⟩ := copies_stay_within_iff hstaged
  obtain ⟨path, hok, hpath⟩ := hplace "/tmp/tree" "/tmp/tree" htree
  obtain ⟨⟨mode, hfiles⟩, hwithin⟩ := (hcopy workingTree w' "a.py" [110] rfl).2 _ hrun
  rw [hdir] at hwithin
  refine ⟨hstaged, htree, hstays, ⟨path, hok, hpath.mpr hstays⟩, w', rfl, hwithin.mpr hstays, ?_⟩
  rw [hfiles, Function.update_of_ne (by decide +kernel)]
  rfl

/-- Two names with the same first letter: the place for the working tree below the temporary
directory is the working tree itself, and its file is overwritten. -/
theorem copy_overwrites_working_tree :
    IsNormal "/tmp/tmpdir" ∧ IsNormal "/tmp/tree" ∧
      placeBelow "/tmp/tree" "/tmp/tmpdir" "/tmp/tree" = .ok "/tmp/tmpdir/../tree" ∧
      ¬ Within "/tmp/tree" "/tmp/tmpdir" "/tmp/tmpdir/../tree" ∧
      workingTree.tree.files ["tmp", "tree", "a.py"] = some ([111], 0o644) ∧
      ((copyTo "/tmp/tmpdir" "a.py" [110]).run workingTree).2.tree.files ["tmp", "tree", "a.py"] =
        some ([110], 0o644) := by
  refine ⟨⟨rfl, by decide +kernel⟩, ⟨rfl, by decide +kernel⟩, ?_, by decide +kernel, rfl, ?_⟩
  · exact eq_ok_of_toOption (by decide +kernel)
  · decide +kernel

end Hook.Git

end LintRunner
