import LintRunner.Proofs.MappingClauses

/-!
# Mappings as users write them

Clauses are written with commas between their file names and between their codes, and with blanks
between one clause and the next. The scanner takes every word that starts with a capital letter for
a code, and only one letter of it. So what was written is read back exactly if no file name starts
with a capital letter and no code has a second one.
-/

namespace LintRunner.PerFile

/-- A file name: some characters, and no blank, colon or comma among them. -/
def IsFileName (s : String) : Prop := s ≠ "" ∧ ∀ c ∈ s.toList, isFileChar c = true

def startsCapital (s : String) : Bool := s.toList.head?.any isCapital

/-- A code: one or more capital letters, and then only digits. -/
def IsCode (s : String) : Prop :=
  startsCapital s = true ∧ ∀ c ∈ s.toList.dropWhile isCapital, isPlainDigit c = true

namespace Clause

structure Proper (c : Clause) : Prop where
  files_ne : c.files ≠ []
  codes_ne : c.codes ≠ []
  isFileName : ∀ f ∈ c.files, IsFileName f
  isCode : ∀ e ∈ c.codes, IsCode e

instance (s : String) : Decidable (IsFileName s) := by
  delta IsFileName
  infer_instance

instance (s : String) : Decidable (IsCode s) := by
  delta IsCode
  infer_instance

instance (c : Clause) : Decidable c.Proper :=
  decidable_of_iff
    (c.files ≠ [] ∧ c.codes ≠ [] ∧ (∀ f ∈ c.files, IsFileName f) ∧ ∀ e ∈ c.codes, IsCode e)
    ⟨fun h => ⟨h.1, h.2.1, h.2.2.1, h.2.2.2⟩,
      fun h => ⟨h.files_ne, h.codes_ne, h.isFileName, h.isCode⟩⟩

def text (c : Clause) : String := Text.joinWith "," c.files ++ ":" ++ Text.joinWith "," c.codes

end Clause

/-- A mapping as it is written: clauses, with blanks before all but the first. -/
structure Listing where
  first : Clause
  more : List (String × Clause)
  proper : ∀ c ∈ first :: more.map Prod.snd, c.Proper
  blank : ∀ gap ∈ more.map Prod.fst, gap ≠ "" ∧ ∀ c ∈ gap.toList, Text.isBlank c = true

namespace Listing

def clauses (l : Listing) : List Clause := l.first :: l.more.map Prod.snd

def text (l : Listing) : String :=
  l.first.text ++ String.join (l.more.map fun p => p.1 ++ p.2.text)

def pairs (l : Listing) : List Pair := l.clauses.flatMap fun c => c.files.map (·, c.codes)

/-- No file name starts with a capital letter, and no code has a second one. -/
def Plain (l : Listing) : Prop :=
  ∀ c ∈ l.clauses, (∀ f ∈ c.files, startsCapital f = false) ∧
    ∀ e ∈ c.codes, ∀ x ∈ e.toList.tail, isCapital x = false

end Listing

variable {c : Char}

theorem isCapital_iff : isCapital c = true ↔ 65 ≤ c.toNat ∧ c.toNat ≤ 90 := by
  simp only [isCapital, Bool.and_eq_true, decide_eq_true_eq, Char.le_def, UInt32.le_iff_toNat_le]
  rfl

theorem isPlainDigit_iff : isPlainDigit c = true ↔ 48 ≤ c.toNat ∧ c.toNat ≤ 57 := by
  simp only [isPlainDigit, Bool.and_eq_true, decide_eq_true_eq, Char.le_def, UInt32.le_iff_toNat_le]
  rfl

theorem isFileChar_of_visible (hlow : 0x20 < c.toNat) (hhigh : c.toNat < 0x7f)
    (hcolon : c.toNat ≠ 58) (hcomma : c.toNat ≠ 44) : isFileChar c = true := by
  have hblank : Text.isBlank c = false := Text.isBlank_of_visible hlow hhigh
  have hcolon : c ≠ ':' := fun h => hcolon (h ▸ rfl)
  have hcomma : c ≠ ',' := fun h => hcomma (h ▸ rfl)
  simp [isFileChar, hblank, hcolon, hcomma]

theorem isFileChar_of_isCapital (h : isCapital c = true) : isFileChar c = true := by
  have hrange := isCapital_iff.mp h
  apply isFileChar_of_visible <;> omega

theorem isFileChar_of_isPlainDigit (h : isPlainDigit c = true) :
    isFileChar c = true := by
  have hrange := isPlainDigit_iff.mp h
  apply isFileChar_of_visible <;> omega

theorem isPlainDigit_of_isCapital (h : isCapital c = true) : isPlainDigit c = false := by
  rw [Bool.eq_false_iff, ne_eq, isPlainDigit_iff]
  have hrange := isCapital_iff.mp h
  omega

theorem not_blank_of_isFileChar (h : isFileChar c = true) : Text.isBlank c = false := by
  simp [isFileChar] at h
  exact h.1.1

theorem IsCode.isCapital_or_isPlainDigit {s : String} (h : IsCode s) :
    ∀ c ∈ s.toList, isCapital c = true ∨ isPlainDigit c = true := by
  intro c hc
  rw [← List.takeWhile_append_dropWhile (p := isCapital) (l := s.toList), List.mem_append] at hc
  rcases hc with hc | hc
  · exact Or.inl (List.mem_takeWhile_imp hc)
  · exact Or.inr (h.2 c hc)

theorem IsCode.isFileName {s : String} (h : IsCode s) : IsFileName s := by
  refine ⟨?_, fun c hc => ?_⟩
  · rintro rfl
    exact absurd h.1 (by decide)
  · rcases h.isCapital_or_isPlainDigit c hc with hcapital | hdigit
    · exact isFileChar_of_isCapital hcapital
    · exact isFileChar_of_isPlainDigit hdigit

section Words

variable {w rest : List Char}

theorem next_append {c : Char} {cs : List Char} (hc : isFileChar c = true)
    (hrest : ∀ c ∈ rest.head?, isFileChar c = false) :
    next c (cs ++ rest) = ((next c cs).1, (next c cs).2 ++ rest) := by
  have hdigit : ∀ c ∈ rest.head?, isPlainDigit c = false := fun c hmem =>
    Bool.eq_false_iff.mpr fun h =>
      absurd (isFileChar_of_isPlainDigit h) (Bool.eq_false_iff.mp (hrest c hmem))
  unfold next
  split_ifs
  · rw [Text.takeWhile_append_stop hdigit, Text.dropWhile_append_stop hdigit]
  · rw [Text.takeWhile_append_stop hrest, Text.dropWhile_append_stop hrest]

theorem mem_of_mem_next {c x : Char} {cs : List Char} (hc : isFileChar c = true)
    (h : x ∈ (next c cs).2) : x ∈ cs := by
  unfold next at h
  split_ifs at h
  · exact (List.dropWhile_sublist _).subset h
  · exact (List.dropWhile_sublist _).subset h

theorem scan_append (hw : ∀ c ∈ w, isFileChar c = true)
    (hrest : ∀ c ∈ rest.head?, isFileChar c = false) : scan (w ++ rest) = scan w ++ scan rest := by
  induction w using scan.induct with
  | case1 => simp [scan]
  | case2 c cs ih =>
    obtain ⟨hc, hcs⟩ := List.forall_mem_cons.mp hw
    have hnext := ih fun x hx => hcs x (mem_of_mem_next hc hx)
    rw [List.cons_append, scan, next_append hc hrest, hnext, scan]
    rfl

theorem isItem_of_mem_scan (hw : ∀ c ∈ w, isFileChar c = true) {t : Token} (ht : t ∈ scan w) :
    t.isItem = true := by
  induction w using scan.induct with
  | case1 => simp [scan] at ht
  | case2 c cs ih =>
    obtain ⟨hc, hcs⟩ := List.forall_mem_cons.mp hw
    rw [scan, List.mem_cons] at ht
    rcases ht with rfl | ht
    · unfold next
      split_ifs <;> rfl
    · exact ih (fun x hx => hcs x (mem_of_mem_next hc hx)) ht

/-- The scanner does not cut the word: if it starts with a capital letter, only digits follow. -/
def Uncut (s : String) : Prop :=
  startsCapital s = true → ∀ x ∈ s.toList.tail, isPlainDigit x = true

def wordToken (s : String) : Token := if startsCapital s then ⟨.code, s⟩ else ⟨.file, s⟩

theorem scan_of_uncut {s : String} (hs : IsFileName s) (h : Uncut s) :
    scan s.toList = [wordToken s] := by
  obtain ⟨c, cs, hlist⟩ := List.exists_cons_of_ne_nil (mt String.toList_eq_nil_iff.mp hs.1)
  have hofList : String.ofList (c :: cs) = s := hlist ▸ String.ofList_toList
  have hstarts : startsCapital s = isCapital c := by simp [startsCapital, hlist]
  rw [Uncut, hstarts, hlist] at h
  rw [wordToken, hstarts, hlist, scan]
  cases hcapital : isCapital c with
  | true =>
    have hdigits : ∀ x ∈ cs, isPlainDigit x = true := h hcapital
    have htake : cs.takeWhile isPlainDigit = cs := List.takeWhile_eq_self_iff.mpr hdigits
    have hdrop : cs.dropWhile isPlainDigit = [] := List.dropWhile_eq_nil_iff.mpr hdigits
    simp [next, hcapital, htake, hdrop, hofList, scan]
  | false =>
    have hchars := hlist ▸ hs.2
    obtain ⟨hc, hcs⟩ := List.forall_mem_cons.mp hchars
    have htake : cs.takeWhile isFileChar = cs := List.takeWhile_eq_self_iff.mpr hcs
    have hdrop : cs.dropWhile isFileChar = [] := List.dropWhile_eq_nil_iff.mpr hcs
    simp [next, hcapital, hc, htake, hdrop, hofList, scan]

theorem exists_scan_of_not_uncut {s : String} (h : ¬ Uncut s) :
    ∃ t u rest, scan s.toList = t :: u :: rest := by
  obtain ⟨hstarts, hdigits⟩ := Classical.not_imp.mp h
  obtain ⟨c, hhead, hcapital⟩ := Option.any_eq_true _ _ |>.mp hstarts
  obtain ⟨cs, hlist⟩ := List.head?_eq_some_iff.mp hhead
  rw [hlist, List.tail_cons] at hdigits
  have hdrop : cs.dropWhile isPlainDigit ≠ [] := fun hnil =>
    hdigits (List.dropWhile_eq_nil_iff.mp hnil)
  obtain ⟨d, ds, hds⟩ := List.exists_cons_of_ne_nil hdrop
  refine ⟨(next c cs).1, (next d ds).1, scan (next d ds).2, ?_⟩
  have hrest : (next c cs).2 = d :: ds := by simp [next, hcapital, hds]
  rw [hlist, scan, hrest, scan]

theorem apart_scan_iff {s : String} (hs : IsFileName s) :
    Apart (scan s.toList) ↔ Uncut s := by
  constructor
  · intro hchain
    by_contra hcut
    obtain ⟨t, u, rest, hscan⟩ := exists_scan_of_not_uncut hcut
    have ht : t.isItem = true := isItem_of_mem_scan hs.2 (by simp [hscan])
    have hu : u.isItem = true := isItem_of_mem_scan hs.2 (by simp [hscan])
    rw [hscan] at hchain
    exact (List.isChain_cons_cons.mp hchain).1 ⟨ht, hu⟩
  · intro h
    rw [scan_of_uncut hs h]
    exact .singleton _

end Words

section Marks

variable {rest : List Char}

theorem scan_colon (hrest : ∀ c ∈ rest.head?, Text.isBlank c = false) :
    scan (':' :: rest) = ⟨.colon, ":"⟩ :: scan rest := by
  have hnext : next ':' rest = (⟨.colon, ":"⟩, rest) := by
    simp [next, isCapital, isFileChar, mark?, show Text.isBlank ':' = false from rfl,
      Text.dropWhile_of_head hrest]
  rw [scan, hnext]

theorem scan_comma (hrest : ∀ c ∈ rest.head?, Text.isBlank c = false) :
    scan (',' :: rest) = ⟨.comma, ","⟩ :: scan rest := by
  have hnext : next ',' rest = (⟨.comma, ","⟩, rest) := by
    simp [next, isCapital, isFileChar, mark?, show Text.isBlank ',' = false from rfl,
      Text.dropWhile_of_head hrest]
  rw [scan, hnext]

theorem scan_gap {gap : List Char} (hne : gap ≠ []) (hgap : ∀ c ∈ gap, Text.isBlank c = true)
    {c : Char} {cs : List Char} (hc : isFileChar c = true) :
    scan (gap ++ c :: cs) = ⟨.blank, ""⟩ :: scan (c :: cs) := by
  obtain ⟨b, bs, rfl⟩ := List.exists_cons_of_ne_nil hne
  obtain ⟨hb, hbs⟩ := List.forall_mem_cons.mp hgap
  have hcblank := not_blank_of_isFileChar hc
  have hbfile : isFileChar b = false := by simp [isFileChar, hb]
  have hbcapital : isCapital b = false := Bool.eq_false_iff.mpr fun h =>
    absurd (isFileChar_of_isCapital h) (Bool.eq_false_iff.mp hbfile)
  have hdrop : (bs ++ c :: cs).dropWhile Text.isBlank = c :: cs := by
    rw [List.dropWhile_append_of_pos hbs, List.dropWhile_cons_of_neg (by simp [hcblank])]
  have hmark : ∀ mark, isFileChar mark = false → mark? mark (b :: (bs ++ c :: cs)) = none := by
    intro mark hmark
    have hne : c ≠ mark := by
      rintro rfl
      exact absurd (hc.symm.trans hmark) (by simp)
    simp [mark?, hb, hdrop, hne]
  rw [List.cons_append, scan]
  simp [next, hbcapital, hbfile, hmark ':' rfl, hmark ',' rfl, hdrop]

end Marks

/-! ## Lists of words -/

section Lists

variable {names : List String} {rest : List Char}

def listTokens (names : List String) : List Token :=
  [⟨.comma, ","⟩].intercalate (names.map fun s => scan s.toList)

theorem listTokens_cons_cons (s s' : String) (names : List String) :
    listTokens (s :: s' :: names) =
      scan s.toList ++ ⟨.comma, ","⟩ :: listTokens (s' :: names) := by
  simp [listTokens, List.intercalate_cons_cons]

theorem exists_head_of_isFileName {s : String} (hs : IsFileName s) :
    ∃ c cs, s.toList = c :: cs ∧ isFileChar c = true := by
  obtain ⟨c, cs, hlist⟩ := List.exists_cons_of_ne_nil (mt String.toList_eq_nil_iff.mp hs.1)
  exact ⟨c, cs, hlist, hs.2 c (by simp [hlist])⟩

theorem exists_head_joinWith (hne : names ≠ []) (hnames : ∀ s ∈ names, IsFileName s) :
    ∃ c cs, (Text.joinWith "," names).toList = c :: cs ∧ isFileChar c = true := by
  obtain ⟨s, names, rfl⟩ := List.exists_cons_of_ne_nil hne
  obtain ⟨c, cs, hlist, hc⟩ := exists_head_of_isFileName (hnames s List.mem_cons_self)
  cases names with
  | nil => exact ⟨c, cs, by simp [Text.joinWith, hlist], hc⟩
  | cons s' names =>
    refine ⟨c, cs ++ (',' :: (Text.joinWith "," (s' :: names)).toList), ?_, hc⟩
    simp [Text.joinWith, hlist]

theorem scan_joinWith (hne : names ≠ []) (hnames : ∀ s ∈ names, IsFileName s)
    (hrest : ∀ c ∈ rest.head?, isFileChar c = false) :
    scan ((Text.joinWith "," names).toList ++ rest) = listTokens names ++ scan rest := by
  induction names with
  | nil => exact absurd rfl hne
  | cons s names ih =>
    obtain ⟨hs, htail⟩ := List.forall_mem_cons.mp hnames
    cases names with
    | nil => simpa [Text.joinWith, listTokens] using scan_append hs.2 hrest
    | cons s' names =>
      have hcut : (Text.joinWith "," (s :: s' :: names)).toList =
          s.toList ++ ',' :: (Text.joinWith "," (s' :: names)).toList := by
        simp [Text.joinWith]
      obtain ⟨c, cs, hhead, hc⟩ := exists_head_joinWith (by simp) htail
      have hblank : ∀ c ∈ ((Text.joinWith "," (s' :: names)).toList ++ rest).head?,
          Text.isBlank c = false := by
        rw [hhead]
        rintro _ ⟨⟩
        exact not_blank_of_isFileChar hc
      have hcomma : ∀ c ∈ (',' :: ((Text.joinWith "," (s' :: names)).toList ++ rest)).head?,
          isFileChar c = false := by
        rintro _ ⟨⟩
        rfl
      rw [hcut, List.append_assoc, List.cons_append, scan_append hs.2 hcomma, scan_comma hblank,
        ih (by simp) htail, listTokens_cons_cons, List.append_assoc, List.cons_append]

theorem essential_append (ts us : List Token) :
    essential (ts ++ us) = essential ts ++ essential us :=
  List.filter_append ts us

theorem essential_of_isItem {ts : List Token} (h : ∀ t ∈ ts, t.isItem = true) :
    essential ts = ts := by
  apply List.filter_eq_self.mpr
  intro t ht
  have hitem := h t ht
  obtain ⟨kind, text⟩ := t
  cases kind <;> simp [Token.isItem] at hitem <;> rfl

theorem essential_listTokens (hnames : ∀ s ∈ names, IsFileName s) :
    essential (listTokens names) = names.flatMap fun s => scan s.toList := by
  induction names with
  | nil => rfl
  | cons s names ih =>
    obtain ⟨hs, htail⟩ := List.forall_mem_cons.mp hnames
    have hword : essential (scan s.toList) = scan s.toList :=
      essential_of_isItem fun t ht => isItem_of_mem_scan hs.2 ht
    cases names with
    | nil => simpa [listTokens] using hword
    | cons s' names =>
      have hcomma : essential (⟨.comma, ","⟩ :: listTokens (s' :: names)) =
          essential (listTokens (s' :: names)) := rfl
      rw [listTokens_cons_cons, essential_append, hword, hcomma, ih htail]
      rfl

theorem apart_append_cons_iff {ts us : List Token} {t : Token} (ht : t.isItem = false) :
    Apart (ts ++ t :: us) ↔ Apart ts ∧ Apart us := by
  simp [Apart, List.isChain_append, List.isChain_cons, ht]

theorem apart_listTokens_iff (hnames : ∀ s ∈ names, IsFileName s) :
    Apart (listTokens names) ↔
      ∀ s ∈ names, Uncut s := by
  induction names with
  | nil => simp [listTokens, Apart]
  | cons s names ih =>
    obtain ⟨hs, htail⟩ := List.forall_mem_cons.mp hnames
    cases names with
    | nil => simpa [listTokens] using apart_scan_iff hs
    | cons s' names =>
      rw [listTokens_cons_cons, apart_append_cons_iff rfl, apart_scan_iff hs, ih htail,
        List.forall_mem_cons (a := s)]

end Lists

namespace Clause

variable {c : Clause}

def scanned (c : Clause) : List Token := listTokens c.files ++ ⟨.colon, ":"⟩ :: listTokens c.codes

theorem Proper.isFileName_of_code (hc : c.Proper) : ∀ e ∈ c.codes, IsFileName e :=
  fun e he => (hc.isCode e he).isFileName

theorem Proper.exists_head (hc : c.Proper) :
    ∃ x xs, c.text.toList = x :: xs ∧ isFileChar x = true := by
  obtain ⟨x, xs, hhead, hx⟩ := exists_head_joinWith hc.files_ne hc.isFileName
  refine ⟨x, xs ++ ':' :: (Text.joinWith "," c.codes).toList, ?_, hx⟩
  rw [text, String.toList_append, String.toList_append, hhead]
  simp

theorem Proper.scan_text (hc : c.Proper) {rest : List Char}
    (hrest : ∀ x ∈ rest.head?, isFileChar x = false) :
    scan (c.text.toList ++ rest) = c.scanned ++ scan rest := by
  have htext : c.text.toList ++ rest = (Text.joinWith "," c.files).toList ++
      ':' :: ((Text.joinWith "," c.codes).toList ++ rest) := by
    simp [text]
  obtain ⟨x, xs, hhead, hx⟩ := exists_head_joinWith hc.codes_ne hc.isFileName_of_code
  have hblank : ∀ x ∈ ((Text.joinWith "," c.codes).toList ++ rest).head?,
      Text.isBlank x = false := by
    rw [hhead]
    rintro _ ⟨⟩
    exact not_blank_of_isFileChar hx
  have hcolon : ∀ x ∈ (':' :: ((Text.joinWith "," c.codes).toList ++ rest)).head?,
      isFileChar x = false := by
    rintro _ ⟨⟩
    rfl
  rw [htext, scan_joinWith hc.files_ne hc.isFileName hcolon, scan_colon hblank,
    scan_joinWith hc.codes_ne hc.isFileName_of_code hrest, scanned, List.append_assoc,
    List.cons_append]

theorem Proper.apart_scanned_iff (hc : c.Proper) :
    Apart c.scanned ↔
      (∀ f ∈ c.files, Uncut f) ∧ ∀ e ∈ c.codes, Uncut e := by
  rw [scanned, apart_append_cons_iff rfl, apart_listTokens_iff hc.isFileName,
    apart_listTokens_iff hc.isFileName_of_code]

theorem flatMap_scan_of_uncut {names : List String} (hnames : ∀ s ∈ names, IsFileName s)
    (h : ∀ s ∈ names, Uncut s) :
    (names.flatMap fun s => scan s.toList) = names.map wordToken := by
  rw [List.flatMap_congr fun s hs => scan_of_uncut (hnames s hs) (h s hs), List.map_eq_flatMap]

theorem Proper.essential_scanned (hc : c.Proper) (hfiles : ∀ f ∈ c.files, Uncut f)
    (hcodes : ∀ e ∈ c.codes, Uncut e) :
    essential c.scanned = c.files.map wordToken ++ ⟨.colon, ":"⟩ :: c.codes.map wordToken := by
  have hcolon : essential (⟨.colon, ":"⟩ :: listTokens c.codes) =
      ⟨.colon, ":"⟩ :: essential (listTokens c.codes) := rfl
  rw [scanned, essential_append, hcolon, essential_listTokens hc.isFileName,
    essential_listTokens hc.isFileName_of_code, flatMap_scan_of_uncut hc.isFileName hfiles,
    flatMap_scan_of_uncut hc.isFileName_of_code hcodes]

end Clause

namespace Listing

variable {l : Listing} {more : List (String × Clause)}

def moreTokens (more : List (String × Clause)) : List Token :=
  more.flatMap fun p => ⟨.blank, ""⟩ :: p.2.scanned

theorem head_more (hblank : ∀ gap ∈ more.map Prod.fst, gap ≠ "" ∧
      ∀ c ∈ gap.toList, Text.isBlank c = true) :
    ∀ c ∈ (more.flatMap fun p => p.1.toList ++ p.2.text.toList).head?, isFileChar c = false := by
  cases more with
  | nil => simp
  | cons p more =>
    obtain ⟨hne, hgap⟩ := hblank p.1 (by simp)
    obtain ⟨b, bs, hlist⟩ := List.exists_cons_of_ne_nil (mt String.toList_eq_nil_iff.mp hne)
    have hb : Text.isBlank b = true := hgap b (by simp [hlist])
    rw [List.flatMap_cons, hlist]
    rintro _ ⟨⟩
    simp [isFileChar, hb]

theorem scan_more (hproper : ∀ c ∈ more.map Prod.snd, c.Proper)
    (hblank : ∀ gap ∈ more.map Prod.fst, gap ≠ "" ∧ ∀ c ∈ gap.toList, Text.isBlank c = true) :
    scan (more.flatMap fun p => p.1.toList ++ p.2.text.toList) = moreTokens more := by
  induction more with
  | nil => simp [scan, moreTokens]
  | cons p more ih =>
    obtain ⟨hclause, hproper⟩ := List.forall_mem_cons.mp hproper
    obtain ⟨⟨hne, hgap⟩, hblank⟩ := List.forall_mem_cons.mp hblank
    obtain ⟨c, cs, hhead, hc⟩ := hclause.exists_head
    have hscan := hclause.scan_text (head_more hblank)
    rw [hhead] at hscan
    rw [List.flatMap_cons, hhead, List.append_assoc, List.cons_append,
      scan_gap (mt String.toList_eq_nil_iff.mp hne) hgap hc, ← List.cons_append, hscan,
      ih hproper hblank]
    simp [moreTokens]

theorem tokens_text (l : Listing) :
    tokens l.text = l.first.scanned ++ (moreTokens l.more ++ [⟨.finish, ""⟩]) := by
  have htext : l.text.toList =
      l.first.text.toList ++ l.more.flatMap fun p => p.1.toList ++ p.2.text.toList := by
    simp [text, List.flatMap_map]
  obtain ⟨hfirst, hproper⟩ := List.forall_mem_cons.mp l.proper
  rw [tokens, htext, hfirst.scan_text (head_more l.blank), scan_more hproper l.blank,
    List.append_assoc]

theorem apart_more_iff {ts : List Token} :
    Apart (ts ++ (moreTokens more ++ [⟨.finish, ""⟩])) ↔
      Apart ts ∧ ∀ c ∈ more.map Prod.snd, Apart c.scanned := by
  induction more generalizing ts with
  | nil =>
    rw [moreTokens, List.flatMap_nil, List.nil_append, apart_append_cons_iff rfl]
    simp [Apart]
  | cons p more ih =>
    rw [moreTokens, List.flatMap_cons, List.append_assoc, List.cons_append,
      apart_append_cons_iff rfl, ← moreTokens, ih, List.map_cons, List.forall_mem_cons]

/-- The items of a written mapping are apart exactly if no word of it is cut. -/
theorem apart_tokens_iff (l : Listing) :
    Apart (tokens l.text) ↔
      ∀ c ∈ l.clauses, (∀ f ∈ c.files, Uncut f) ∧ ∀ e ∈ c.codes, Uncut e := by
  have hscanned : Apart (tokens l.text) ↔ ∀ c ∈ l.clauses, Apart c.scanned := by
    rw [tokens_text, apart_more_iff, clauses, List.forall_mem_cons]
  rw [hscanned]
  exact forall₂_congr fun c hc => (l.proper c hc).apart_scanned_iff

theorem essential_moreTokens :
    essential (moreTokens more) = (more.map Prod.snd).flatMap fun c => essential c.scanned := by
  induction more with
  | nil => rfl
  | cons p more ih =>
    have hblank : essential (⟨.blank, ""⟩ :: p.2.scanned) = essential p.2.scanned := rfl
    rw [moreTokens, List.flatMap_cons, essential_append, hblank, ← moreTokens, ih]
    rfl

theorem essential_tokens (h : ∀ c ∈ l.clauses, (∀ f ∈ c.files, Uncut f) ∧ ∀ e ∈ c.codes, Uncut e) :
    essential (tokens l.text) =
      (l.clauses.flatMap fun c =>
        c.files.map wordToken ++ ⟨.colon, ":"⟩ :: c.codes.map wordToken) ++ [⟨.finish, ""⟩] := by
  have hclause : ∀ c ∈ l.clauses, essential c.scanned =
      c.files.map wordToken ++ ⟨.colon, ":"⟩ :: c.codes.map wordToken := fun c hc =>
    (l.proper c hc).essential_scanned (h c hc).1 (h c hc).2
  rw [tokens_text, essential_append, essential_append, essential_moreTokens,
    ← List.flatMap_congr hclause, clauses, List.flatMap_cons, List.append_assoc]
  rfl

/-! ## What is read back -/

theorem Plain.uncut (h : l.Plain) :
    ∀ c ∈ l.clauses, (∀ f ∈ c.files, Uncut f) ∧ ∀ e ∈ c.codes, Uncut e := by
  intro c hc
  obtain ⟨hfiles, hcodes⟩ := h c hc
  refine ⟨fun f hf => ?_, fun e he _ x hx => ?_⟩
  · exact fun hcapital => absurd ((hfiles f hf).symm.trans hcapital) Bool.false_ne_true
  · have hcode := (l.proper c hc).isCode e he
    exact (hcode.isCapital_or_isPlainDigit x (List.mem_of_mem_tail hx)).resolve_left
      (Bool.eq_false_iff.mp (hcodes e he x hx))

theorem wordToken_of_isCode {e : String} (he : IsCode e) : wordToken e = ⟨.code, e⟩ :=
  if_pos he.1

theorem Plain.spells (h : l.Plain) : Spells (tokens l.text) l.clauses := by
  refine ⟨by simp [clauses], fun c hc => ?_, ?_, l.apart_tokens_iff.mpr h.uncut⟩
  · exact (l.proper c (List.mem_cons_of_mem _ hc)).files_ne
  · rw [essential_tokens h.uncut]
    congr 1
    apply List.flatMap_congr
    intro c hc
    have hfiles : c.files.map wordToken = c.files.map (Token.mk .file) :=
      List.map_congr_left fun f hf => if_neg (Bool.eq_false_iff.mp ((h c hc).1 f hf))
    have hcodes : c.codes.map wordToken = c.codes.map (Token.mk .code) :=
      List.map_congr_left fun e he => wordToken_of_isCode ((l.proper c hc).isCode e he)
    rw [hfiles, hcodes, Clause.tokens]

theorem pairs_eq (l : Listing) : l.pairs = l.clauses.flatMap Clause.pairs :=
  List.flatMap_congr fun c hc => by rw [Clause.pairs, if_neg (l.proper c hc).codes_ne]

theorem length_pairs (l : Listing) : l.pairs.length = (l.clauses.flatMap Clause.files).length := by
  simp [pairs, List.length_flatMap]

theorem length_flatMap_pairs_le (clauses : List Clause) :
    (clauses.flatMap Clause.pairs).length ≤ (clauses.flatMap Clause.files).length := by
  induction clauses with
  | nil => exact Nat.le_refl 0
  | cons c clauses ih =>
    have hpairs : c.pairs.length ≤ c.files.length := by
      unfold Clause.pairs
      split <;> simp
    simp only [List.flatMap_cons, List.length_append]
    omega

theorem countP_flatMap_tokens (clauses : List Clause) :
    (clauses.flatMap Clause.tokens).countP (·.kind = .file) =
      (clauses.flatMap Clause.files).length := by
  induction clauses with
  | nil => rfl
  | cons c clauses ih =>
    rw [List.flatMap_cons, List.flatMap_cons, List.countP_append, List.length_append, ih]
    simp [Clause.tokens, List.countP_map, Function.comp_def]

theorem countP_flatMap_words {clauses : List Clause} (h : ∀ c ∈ clauses, ∀ e ∈ c.codes, IsCode e) :
    (clauses.flatMap fun c =>
        c.files.map wordToken ++ ⟨.colon, ":"⟩ :: c.codes.map wordToken).countP (·.kind = .file) =
      (clauses.flatMap Clause.files).countP (!startsCapital ·) := by
  induction clauses with
  | nil => rfl
  | cons c clauses ih =>
    obtain ⟨hc, hclauses⟩ := List.forall_mem_cons.mp h
    have hfiles : (c.files.map wordToken).countP (·.kind = .file) =
        c.files.countP (!startsCapital ·) := by
      rw [List.countP_map]
      apply List.countP_congr
      intro f _
      cases hcapital : startsCapital f <;> simp [wordToken, hcapital]
    have hcodes : (c.codes.map wordToken).countP (·.kind = .file) = 0 := by
      rw [List.countP_map, List.countP_eq_zero]
      intro e he
      simp [wordToken_of_isCode (hc e he)]
    rw [List.flatMap_cons, List.flatMap_cons, List.countP_append, List.countP_append, hfiles,
      List.countP_cons, hcodes, ih hclauses, List.countP_append]
    simp

theorem not_startsCapital_of_spells {clauses : List Clause}
    (hspells : Spells (tokens l.text) clauses) (hpairs : l.pairs = clauses.flatMap Clause.pairs) :
    ∀ f ∈ l.clauses.flatMap Clause.files, (!startsCapital f) = true := by
  have huncut := l.apart_tokens_iff.mp hspells.apart
  have hwords := hspells.essential_eq
  rw [essential_tokens huncut, List.append_cancel_right_eq] at hwords
  have hcount := congrArg (List.countP (·.kind = .file)) hwords
  have hcodes : ∀ c ∈ l.clauses, ∀ e ∈ c.codes, IsCode e := fun c hc => (l.proper c hc).isCode
  rw [countP_flatMap_words hcodes, countP_flatMap_tokens] at hcount
  have hlength : (l.clauses.flatMap Clause.files).length ≤
      (clauses.flatMap Clause.files).length := by
    rw [← length_pairs, hpairs]
    exact length_flatMap_pairs_le clauses
  apply List.countP_eq_length.mp
  exact Nat.le_antisymm List.countP_le_length (hcount ▸ hlength)

/-- A written mapping is read back exactly if no file name starts with a capital letter and no code
has a second one. -/
theorem read_written_iff (l : Listing) : read (.text l.text) = .ok l.pairs ↔ l.Plain := by
  have hvisible : ∃ c ∈ l.text.toList, Text.isBlank c = false :=
    ⟨':', by simp [text, Clause.text], rfl⟩
  have hread : read (.text l.text) = .ok l.pairs ↔ parse l.text = .ok l.pairs := by
    rw [(Tells.text l.text).read_eq]
    cases parse l.text <;> simp [Except.mapError]
  rw [hread, parse_eq_ok_iff hvisible]
  constructor
  · rintro ⟨clauses, hspells, hpairs⟩ c hc
    have huncut := l.apart_tokens_iff.mp hspells.apart c hc
    refine ⟨fun f hf => ?_, fun e he x hx => ?_⟩
    · have hfile : f ∈ l.clauses.flatMap Clause.files := List.mem_flatMap.mpr ⟨c, hc, hf⟩
      simpa using not_startsCapital_of_spells hspells hpairs f hfile
    · have hdigit := huncut.2 e he ((l.proper c hc).isCode e he).1 x hx
      exact Bool.eq_false_iff.mpr fun h =>
        absurd ((isPlainDigit_of_isCapital h).symm.trans hdigit) Bool.false_ne_true
  · intro h
    exact ⟨l.clauses, h.spells, l.pairs_eq⟩

instance (l : Listing) : Decidable l.Plain := by
  delta Plain
  infer_instance

def twoLines : Listing where
  first := ⟨["src/*.py", "setup.py"], ["E1", "W"]⟩
  more := [("\n  ", ⟨["docs/conf.py"], ["F401"]⟩)]
  proper := by decide
  blank := by decide

theorem twoLines_read_back :
    twoLines.Plain ∧ read (.text "src/*.py,setup.py:E1,W\n  docs/conf.py:F401") =
      .ok [("src/*.py", ["E1", "W"]), ("setup.py", ["E1", "W"]), ("docs/conf.py", ["F401"])] := by
  have hplain : twoLines.Plain := by decide
  exact ⟨hplain, (read_written_iff twoLines).mpr hplain⟩

def threeLetters : Listing where
  first := ⟨["a.py"], ["ABC123"]⟩
  more := []
  proper := by decide
  blank := by decide

def capitalName : Listing where
  first := ⟨["a.py"], ["E1"]⟩
  more := [(" ", ⟨["B1", "b.py"], ["F4"]⟩)]
  proper := by decide
  blank := by decide

/-- A code of three letters cannot be read, and a file name in capital letters becomes a code of the
clause before. -/
theorem capitals_misread :
    threeLetters.text = "a.py:ABC123" ∧ threeLetters.pairs = [("a.py", ["ABC123"])] ∧
      read (.text threeLetters.text) = .error (Fault.badValue
        "Unexpected token: Token(tp='code', src='B')") ∧
      capitalName.text = "a.py:E1 B1,b.py:F4" ∧
      capitalName.pairs = [("a.py", ["E1"]), ("B1", ["F4"]), ("b.py", ["F4"])] ∧
      read (.text capitalName.text) = .ok [("a.py", ["E1", "B1"]), ("b.py", ["F4"])] := by
  have hletters : parse threeLetters.text = .error ⟨⟨.code, "B"⟩⟩ := by decide +kernel
  have hname : parse capitalName.text = .ok [("a.py", ["E1", "B1"]), ("b.py", ["F4"])] := by
    decide +kernel
  refine ⟨rfl, rfl, ?_, rfl, rfl, ?_⟩
  · rw [(Tells.text _).read_eq, hletters]
    rfl
  · rw [(Tells.text _).read_eq, hname]
    rfl

end Listing

end LintRunner.PerFile
