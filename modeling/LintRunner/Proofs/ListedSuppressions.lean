import LintRunner.Proofs.GuidedFindings
import LintRunner.Proofs.PathNames
import Mathlib.Data.List.Chain
import Mathlib.Data.List.Infix
import Mathlib.Data.List.TakeWhile

/-!
# Comments that list codes

A suppressing comment may list the codes that it is about. Only codes of one letter are understood:
the list ends before the first code with more letters, and where nothing of it is left, the comment
lists no codes and suppresses everything on its line.
-/

namespace LintRunner.Suppression

/-- A code as it is listed: capital letters and digits, at least one of each. -/
structure ListedCode where
  letters : List Char
  digits : List Char
  letters_ne : letters ≠ []
  digits_ne : digits ≠ []
  isUpper : ∀ c ∈ letters, c.isUpper = true
  isDigit : ∀ c ∈ digits, c.isDigit = true

namespace ListedCode

def chars (e : ListedCode) : List Char := e.letters ++ e.digits

def text (e : ListedCode) : String := String.ofList e.chars

/-- The code is one letter and digits. -/
def oneLetter (e : ListedCode) : Bool := e.letters.length = 1

end ListedCode

/-- A line with a suppressing comment that lists codes: what stands before it, the comment's word,
at most one blank, and the codes, each with the commas and blanks after it. -/
structure ListedLine where
  before : List Char
  word : List Char
  blank : Option Char
  items : List (ListedCode × List Char)
  word_eq : word.map Char.toLower = "# noqa".toList
  before_free : ∀ part, part <:+: before → part.map Char.toLower ≠ "# noqa".toList
  blank_eq : ∀ c ∈ blank, Text.isBlank c = true
  items_ne : items ≠ []
  separators : ∀ p ∈ items, ∀ c ∈ p.2, isSeparator c = true
  separated : items.IsChain fun p _ => p.2 ≠ []

def itemsChars (items : List (ListedCode × List Char)) : List Char :=
  items.flatMap fun p => p.1.chars ++ p.2

namespace ListedLine

def text (l : ListedLine) : String :=
  String.ofList (l.before ++ (l.word ++ ':' :: (l.blank.toList ++ itemsChars l.items)))

def codes (l : ListedLine) : List ListedCode := l.items.map Prod.fst

/-- The codes before the first one with several letters. -/
def understood (l : ListedLine) : List ListedCode := l.codes.takeWhile ListedCode.oneLetter

end ListedLine

section Word

variable {word cs rest : List Char}

theorem sameLetter_iff {w c : Char} (hk : w ≠ 'k') (hs : w ≠ 's') :
    sameLetter w c = true ↔ c.toLower = w := by
  simp [sameLetter, hk, hs]

theorem afterWord?_eq_some_iff (hk : 'k' ∉ word) (hs : 's' ∉ word) :
    afterWord? word cs = some rest ↔
      ∃ part, cs = part ++ rest ∧ part.map Char.toLower = word := by
  induction word generalizing cs with
  | nil => simp [afterWord?]
  | cons w ws ih =>
    simp only [List.mem_cons, not_or] at hk hs
    cases cs with
    | nil => simp [afterWord?]
    | cons c cs =>
      rw [afterWord?]
      by_cases hc : c.toLower = w
      · rw [if_pos ((sameLetter_iff (Ne.symm hk.1) (Ne.symm hs.1)).mpr hc), ih hk.2 hs.2]
        constructor
        · rintro ⟨part, rfl, rfl⟩
          exact ⟨c :: part, rfl, by simp [hc]⟩
        · rintro ⟨_ | ⟨d, part⟩, hcs, hpart⟩
          · simp at hpart
          · simp only [List.cons_append, List.cons.injEq] at hcs
            simp only [List.map_cons, List.cons.injEq] at hpart
            exact ⟨part, hcs.2, hpart.2⟩
      · rw [if_neg (mt (sameLetter_iff (Ne.symm hk.1) (Ne.symm hs.1)).mp hc)]
        simp only [reduceCtorEq, false_iff]
        rintro ⟨_ | ⟨d, part⟩, hcs, hpart⟩
        · simp at hpart
        · simp only [List.cons_append, List.cons.injEq] at hcs
          simp only [List.map_cons, List.cons.injEq] at hpart
          exact hc (hcs.1 ▸ hpart.1)

/-- The word does not start in a text without it and end in what follows, since its first character
occurs in it only once. -/
theorem afterWord?_before {before tail : List Char} {c : Char}
    (hfree : ∀ part, part <:+: c :: before → part.map Char.toLower ≠ "# noqa".toList)
    (htail : tail.head?.map Char.toLower = some '#') :
    afterWord? "# noqa".toList (c :: (before ++ tail)) = none := by
  by_contra hsome
  obtain ⟨rest, hrest⟩ := Option.ne_none_iff_exists'.mp hsome
  obtain ⟨part, hcut, hpart⟩ := (afterWord?_eq_some_iff (by decide) (by decide)).mp hrest
  rw [← List.cons_append] at hcut
  rcases List.append_eq_append_iff.mp hcut with ⟨extra, rfl, rfl⟩ | ⟨extra, hbefore, -⟩
  · cases extra with
    | nil => exact hfree (c :: before) (List.infix_refl _) (by simpa using hpart)
    | cons x extra =>
      have hx : x.toLower = '#' := by simpa using htail
      have htail := congrArg List.tail hpart
      simp only [List.cons_append, List.map_cons, List.tail_cons, List.map_append, hx] at htail
      have hmem : '#' ∈ "# noqa".toList.tail := htail ▸ by simp
      exact absurd hmem (by decide)
  · exact hfree part (hbefore ▸ (List.prefix_append part extra).isInfix) hpart

theorem markFrom?_append {before tail : List Char} (pos : Nat)
    (hfree : ∀ part, part <:+: before → part.map Char.toLower ≠ "# noqa".toList)
    (htail : tail.head?.map Char.toLower = some '#') :
    markFrom? pos (before ++ tail) = markFrom? (pos + before.length) tail := by
  induction before generalizing pos with
  | nil => simp
  | cons c before ih =>
    have hrest : ∀ part, part <:+: before → part.map Char.toLower ≠ "# noqa".toList :=
      fun part hpart => hfree part (hpart.trans (List.suffix_cons c before).isInfix)
    rw [List.cons_append, markFrom?, afterWord?_before hfree htail]
    dsimp only
    rw [ih (pos + 1) hrest, List.length_cons, Nat.add_assoc, Nat.add_comm 1]

theorem exists_mark {c : Char} (pos : Nat)
    (h : afterWord? "# noqa".toList (c :: cs) = some rest) :
    ∃ m, markFrom? pos (c :: cs) = some m ∧
      m.codes = ((codeList? rest).map Prod.fst).map String.ofList := by
  rw [markFrom?, h]
  dsimp only
  cases codeList? rest with
  | none => exact ⟨_, rfl, rfl⟩
  | some written => exact ⟨_, rfl, rfl⟩

end Word

/-! ## Reading the codes -/

variable {c : Char}

theorem isUpper_iff : c.isUpper = true ↔ 65 ≤ c.toNat ∧ c.toNat ≤ 90 := by
  delta Char.isUpper
  simp only [decide_eq_true_eq, ge_iff_le, UInt32.le_iff_toNat_le]
  rfl

theorem isDigit_iff : c.isDigit = true ↔ 48 ≤ c.toNat ∧ c.toNat ≤ 57 := by
  simp only [Char.isDigit, Bool.and_eq_true, decide_eq_true_eq, ge_iff_le, UInt32.le_iff_toNat_le]
  rfl

theorem isDigit_of_isUpper (h : c.isUpper = true) : c.isDigit = false := by
  have hrange := isUpper_iff.mp h
  rw [Bool.eq_false_iff, ne_eq, isDigit_iff]
  omega

theorem isSeparator_of_visible (hlow : 47 < c.toNat) (hhigh : c.toNat < 0x7f) :
    isSeparator c = false := by
  have hblank : Text.isBlank c = false := Text.isBlank_of_visible (by omega) hhigh
  have hcomma : c ≠ ',' := by
    rintro rfl
    exact absurd hlow (by decide)
  simp [isSeparator, hblank, hcomma]

theorem isSeparator_of_isUpper (h : c.isUpper = true) : isSeparator c = false := by
  have hrange := isUpper_iff.mp h
  exact isSeparator_of_visible (by omega) (by omega)

theorem isSeparator_of_isDigit (h : c.isDigit = true) : isSeparator c = false := by
  have hrange := isDigit_iff.mp h
  exact isSeparator_of_visible (by omega) (by omega)

theorem isDigit_of_isSeparator (h : isSeparator c = true) : c.isDigit = false :=
  Bool.eq_false_iff.mpr fun hdigit =>
    absurd ((isSeparator_of_isDigit hdigit).symm.trans h) Bool.false_ne_true

theorem ListedCode.exists_letter (e : ListedCode) :
    ∃ a as, e.letters = a :: as ∧ a.isUpper = true := by
  obtain ⟨a, as, h⟩ := List.exists_cons_of_ne_nil e.letters_ne
  exact ⟨a, as, h, e.isUpper a (by simp [h])⟩

theorem ListedCode.isSeparator_of_mem {e : ListedCode} (h : c ∈ e.chars) :
    isSeparator c = false := by
  rcases List.mem_append.mp h with h | h
  · exact isSeparator_of_isUpper (e.isUpper c h)
  · exact isSeparator_of_isDigit (e.isDigit c h)

section Items

variable {items : List (ListedCode × List Char)}

theorem head_itemsChars : ∀ c ∈ (itemsChars items).head?, c.isUpper = true := by
  cases items with
  | nil => simp [itemsChars]
  | cons p items =>
    obtain ⟨a, as, hletters, ha⟩ := p.1.exists_letter
    rw [itemsChars, List.flatMap_cons, ListedCode.chars, hletters]
    rintro _ ⟨⟩
    exact ha

theorem head_gap_itemsChars {e : ListedCode} {gap : List Char}
    (hgap : ∀ c ∈ gap, isSeparator c = true)
    (hchain : ((e, gap) :: items).IsChain fun p _ => p.2 ≠ []) :
    ∀ c ∈ (gap ++ itemsChars items).head?, c.isDigit = false := by
  cases gap with
  | cons g gap =>
    rintro _ ⟨⟩
    exact isDigit_of_isSeparator (hgap g List.mem_cons_self)
  | nil =>
    cases items with
    | nil => simp [itemsChars]
    | cons p items => exact absurd rfl (List.isChain_cons_cons.mp hchain).1

theorem codesRun_of_digits {a : Char} {digits gap rest : List Char} (fuel : Nat)
    (ha : a.isUpper = true) (hne : digits ≠ []) (hdigits : ∀ c ∈ digits, c.isDigit = true)
    (hgap : ∀ c ∈ gap, isSeparator c = true)
    (hstop : ∀ c ∈ (gap ++ rest).head?, c.isDigit = false)
    (hrest : ∀ c ∈ rest.head?, isSeparator c = false) :
    codesRun (fuel + 1) (a :: (digits ++ (gap ++ rest))) =
      1 + digits.length + gap.length + codesRun fuel rest := by
  have halpha : a.isAlpha = true := by
    delta Char.isAlpha
    rw [ha, Bool.true_or]
  have hcode : isCodeLetter a = true := by rw [isCodeLetter, halpha, Bool.true_or]
  have hpos : 0 < digits.length := List.length_pos_iff.mpr hne
  have htake : (digits ++ (gap ++ rest)).takeWhile Char.isDigit = digits := by
    rw [Text.takeWhile_append_stop hstop, List.takeWhile_eq_self_iff.mpr hdigits]
  have hrun : (gap ++ rest).takeWhile isSeparator = gap := by
    rw [Text.takeWhile_append_stop hrest, List.takeWhile_eq_self_iff.mpr hgap]
  rw [codesRun, htake, hcode, List.drop_left]
  simp [hpos, hrun]

theorem codesRun_of_letters {a b : Char} {rest : List Char} (fuel : Nat) (hb : b.isUpper = true) :
    codesRun (fuel + 1) (a :: b :: rest) = 0 := by
  simp [codesRun, isDigit_of_isUpper hb]

theorem codesRun_itemsChars (hsep : ∀ p ∈ items, ∀ c ∈ p.2, isSeparator c = true)
    (hchain : items.IsChain fun p _ => p.2 ≠ []) {fuel : Nat}
    (hfuel : (itemsChars items).length ≤ fuel) :
    codesRun fuel (itemsChars items) =
      (itemsChars (items.takeWhile (·.1.oneLetter))).length := by
  induction items generalizing fuel with
  | nil => cases fuel <;> rfl
  | cons p items ih =>
    obtain ⟨e, gap⟩ := p
    obtain ⟨hgap, hrest⟩ := List.forall_mem_cons.mp hsep
    obtain ⟨a, as, hletters, ha⟩ := e.exists_letter
    have hchars : itemsChars ((e, gap) :: items) =
        a :: (as ++ (e.digits ++ (gap ++ itemsChars items))) := by
      simp [itemsChars, ListedCode.chars, hletters]
    rw [hchars, List.length_cons] at hfuel
    obtain ⟨fuel, rfl⟩ := Nat.exists_eq_add_of_le' (Nat.le_trans (Nat.le_add_left 1 _) hfuel)
    cases as with
    | nil =>
      have hone : e.oneLetter = true := by simp [ListedCode.oneLetter, hletters]
      have hlength : (itemsChars items).length ≤ fuel := by
        simp only [List.nil_append, List.length_append] at hfuel
        omega
      have hstop : ∀ c ∈ (itemsChars items).head?, isSeparator c = false :=
        fun c hc => isSeparator_of_isUpper (head_itemsChars c hc)
      rw [hchars, List.nil_append, codesRun_of_digits fuel ha e.digits_ne e.isDigit hgap
        (head_gap_itemsChars hgap hchain) hstop, ih hrest hchain.tail hlength]
      simp [hone, itemsChars, ListedCode.chars, hletters]
      omega
    | cons b bs =>
      have hone : e.oneLetter = false := by simp [ListedCode.oneLetter, hletters]
      have hb : b.isUpper = true := e.isUpper b (by simp [hletters])
      rw [hchars, List.cons_append, codesRun_of_letters fuel hb]
      simp [hone, itemsChars]

theorem itemsChars_append (items more : List (ListedCode × List Char)) :
    itemsChars (items ++ more) = itemsChars items ++ itemsChars more :=
  List.flatMap_append

theorem itemsChars_eq_nil_iff : itemsChars items = [] ↔ items = [] := by
  cases items with
  | nil => simp [itemsChars]
  | cons p items =>
    have hne := p.1.letters_ne
    simp [itemsChars, ListedCode.chars, hne]

end Items

theorem codeList?_blank {blank : Option Char} {body : List Char}
    (hblank : ∀ c ∈ blank, Text.isBlank c = true) (hbody : ∀ c ∈ body.head?, c.isUpper = true) :
    (codeList? (':' :: (blank.toList ++ body))).map Prod.fst =
      if codesRun body.length body = 0 then none
      else some (body.take (codesRun body.length body)) := by
  cases blank with
  | some b =>
    have hb : Text.isBlank b = true := hblank b rfl
    by_cases hrun : codesRun body.length body = 0 <;> simp [codeList?, hb, hrun]
  | none =>
    cases body with
    | nil => simp [codeList?, codesRun]
    | cons c body =>
      have hrange := isUpper_iff.mp (hbody c rfl)
      have hc : Text.isBlank c = false := Text.isBlank_of_visible (by omega) (by omega)
      by_cases hrun : codesRun (body.length + 1) (c :: body) = 0 <;>
        simp [codeList?, hc, hrun]

namespace ListedLine

variable (l : ListedLine)

/-- The codes that are understood, each with what separates it from the next. -/
def understoodItems : List (ListedCode × List Char) := l.items.takeWhile (·.1.oneLetter)

theorem understood_eq : l.understood = l.understoodItems.map Prod.fst := by
  rw [understood, codes, understoodItems, List.takeWhile_map]
  rfl

theorem codeList?_eq :
    (codeList? (':' :: (l.blank.toList ++ itemsChars l.items))).map Prod.fst =
      if l.understoodItems = [] then none else some (itemsChars l.understoodItems) := by
  rw [codeList?_blank l.blank_eq head_itemsChars,
    codesRun_itemsChars l.separators l.separated (Nat.le_refl _)]
  have htake : (itemsChars l.items).take (itemsChars l.understoodItems).length =
      itemsChars l.understoodItems := by
    rw [← List.takeWhile_append_dropWhile (p := (·.1.oneLetter)) (l := l.items), itemsChars_append]
    exact List.take_left
  rw [← understoodItems, htake]
  by_cases h : l.understoodItems = []
  · simp [h, itemsChars]
  · have hlength : (itemsChars l.understoodItems).length ≠ 0 := fun hzero =>
      h (itemsChars_eq_nil_iff.mp (List.length_eq_zero_iff.mp hzero))
    rw [if_neg h, if_neg hlength]

end ListedLine

section Cutting

variable {items : List (ListedCode × List Char)}

theorem filter_splitBy_gap {gap : List Char} (hgap : ∀ c ∈ gap, isSeparator c = true)
    (rest : List Char) :
    (Text.splitBy isSeparator (gap ++ rest)).filter (!·.isEmpty) =
      (Text.splitBy isSeparator rest).filter (!·.isEmpty) := by
  induction gap with
  | nil => rfl
  | cons g gap ih =>
    obtain ⟨hg, hgap⟩ := List.forall_mem_cons.mp hgap
    rw [List.cons_append, Text.splitBy, if_pos hg, List.filter_cons_of_neg (by simp), ih hgap]

theorem filter_splitBy_itemsChars (hsep : ∀ p ∈ items, ∀ c ∈ p.2, isSeparator c = true)
    (hchain : items.IsChain fun p _ => p.2 ≠ []) :
    (Text.splitBy isSeparator (itemsChars items)).filter (!·.isEmpty) =
      items.map (·.1.chars) := by
  induction items with
  | nil => rfl
  | cons p items ih =>
    obtain ⟨e, gap⟩ := p
    obtain ⟨hgap, hrest⟩ := List.forall_mem_cons.mp hsep
    have hchars : itemsChars ((e, gap) :: items) = e.chars ++ (gap ++ itemsChars items) := by
      simp [itemsChars]
    have hcode : Text.splitBy isSeparator e.chars = [e.chars] :=
      Text.splitBy_of_forall_not fun c hc => ListedCode.isSeparator_of_mem hc
    have hne : e.chars.isEmpty = false := by simp [ListedCode.chars, e.letters_ne]
    cases gap with
    | cons g gap =>
      obtain ⟨hg, hgap⟩ := List.forall_mem_cons.mp hgap
      rw [hchars, List.cons_append, Text.splitBy_append_cons hg, hcode, List.filter_append,
        filter_splitBy_gap hgap, ih hrest hchain.tail]
      simp [hne]
    | nil =>
      cases items with
      | nil => simp [itemsChars, hcode, hne]
      | cons q items => exact absurd rfl (List.isChain_cons_cons.mp hchain).1

theorem items_itemsChars (hsep : ∀ p ∈ items, ∀ c ∈ p.2, isSeparator c = true)
    (hchain : items.IsChain fun p _ => p.2 ≠ []) :
    Text.items .commaOrBlank (String.ofList (itemsChars items)) = items.map (·.1.text) := by
  have hholds : Text.ItemSeparator.commaOrBlank.holds = isSeparator := rfl
  rw [Text.items_commaOrBlank, String.toList_ofList, hholds, filter_splitBy_itemsChars hsep hchain,
    List.map_map]
  rfl

end Cutting

namespace ListedLine

variable (l : ListedLine)

theorem exists_word : ∃ x xs, l.word = x :: xs ∧ x.toLower = '#' := by
  have hword := l.word_eq
  cases h : l.word with
  | nil => simp [h] at hword
  | cons x xs => exact ⟨x, xs, rfl, by simp_all⟩

theorem mark?_codes :
    ∃ m, mark? l.text = some m ∧
      m.codes = if l.understoodItems = [] then none
        else some (String.ofList (itemsChars l.understoodItems)) := by
  obtain ⟨x, xs, hword, hx⟩ := l.exists_word
  have hafter : afterWord? "# noqa".toList
      (l.word ++ ':' :: (l.blank.toList ++ itemsChars l.items)) =
        some (':' :: (l.blank.toList ++ itemsChars l.items)) :=
    (afterWord?_eq_some_iff (by decide) (by decide)).mpr ⟨l.word, rfl, l.word_eq⟩
  rw [mark?, text, String.toList_ofList,
    markFrom?_append 0 l.before_free (by simp [hword, hx])]
  rw [hword, List.cons_append] at hafter ⊢
  obtain ⟨m, hm, hcodes⟩ := exists_mark (0 + l.before.length) hafter
  refine ⟨m, hm, ?_⟩
  rw [hcodes, l.codeList?_eq]
  split <;> rfl

theorem understoodItems_separators : ∀ p ∈ l.understoodItems, ∀ c ∈ p.2, isSeparator c = true :=
  fun p hp => l.separators p ((List.takeWhile_sublist _).subset hp)

theorem understoodItems_separated : l.understoodItems.IsChain fun p _ => p.2 ≠ [] :=
  l.separated.prefix (List.takeWhile_prefix _)

theorem lineSuppresses_iff (code : String) :
    lineSuppresses l.text code = true ↔
      l.understood = [] ∨ ∃ e ∈ l.understood, e.chars <+: code.toList := by
  obtain ⟨m, hm, hcodes⟩ := l.mark?_codes
  have hempty : l.understood = [] ↔ l.understoodItems = [] := by
    rw [understood_eq, List.map_eq_nil_iff]
  rw [lineSuppresses, hm, hempty]
  dsimp only
  rw [Mark.suppresses, hcodes]
  by_cases h : l.understoodItems = []
  · simp [h]
  · rw [if_neg h]
    dsimp only
    rw [items_itemsChars l.understoodItems_separators l.understoodItems_separated, understood_eq]
    simp [h, Text.startsWith, ListedCode.text]

/-- A comment that lists codes suppresses a violation exactly if one of the codes before the first
one with several letters starts the violation's code, or there are no codes before that one. So it
does what it says if all codes have one letter. -/
theorem listed_suppressed_iff {v : Violation} {lookup : Value → Value → Except Fault String}
    {code : String} (hcode : v.code = .text code)
    (hline : v.source = .text l.text ∨ v.source = .none ∧ lookup v.file v.line = .ok l.text) :
    ∃ b, v.suppressed lookup = .ok b ∧
      (b = true ↔ l.understood = [] ∨ ∃ e ∈ l.understood, e.chars <+: code.toList) ∧
      ((∀ e ∈ l.codes, e.oneLetter = true) →
        (b = true ↔ ∃ e ∈ l.codes, e.chars <+: code.toList)) := by
  have hsuppressed : v.suppressed lookup = .ok (lineSuppresses l.text code) := by
    rcases hline with hsource | ⟨hnone, hlookup⟩
    · exact Violation.suppressed_text hcode hsource
    · rw [Violation.suppressed_none hnone hlookup]
      exact Violation.suppressed_text hcode rfl
  refine ⟨_, hsuppressed, l.lineSuppresses_iff code, fun hone => ?_⟩
  have hall : l.understood = l.codes := List.takeWhile_eq_self_iff.mpr hone
  have hne : l.codes ≠ [] := mt List.map_eq_nil_iff.mp l.items_ne
  rw [lineSuppresses_iff, hall]
  simp [hne]

theorem free_of_tails {before : List Char}
    (h : ∀ rest ∈ before.tails, (rest.take 6).map Char.toLower ≠ "# noqa".toList) :
    ∀ part, part <:+: before → part.map Char.toLower ≠ "# noqa".toList := by
  rintro part ⟨start, stop, hcut⟩ hpart
  have hlength : part.length = 6 := by simpa using congrArg List.length hpart
  refine h (part ++ stop) ((List.mem_tails _ _).mpr ⟨start, ?_⟩) ?_
  · rw [← List.append_assoc, hcut]
  · rw [List.take_left' hlength, hpart]

def shortCodes : ListedLine where
  before := "x = 1  ".toList
  word := "# NoQA".toList
  blank := some ' '
  items := [(⟨['E'], ['5'], by decide, by decide, by decide, by decide⟩, [',', ' ']),
    (⟨['W'], ['2', '9'], by decide, by decide, by decide, by decide⟩, ['\n'])]
  word_eq := by decide
  before_free := free_of_tails (by decide)
  blank_eq := by decide
  items_ne := by decide
  separators := by decide
  separated := by decide

def finalBlanks : Violation := ⟨.text "W291", .text "f.py", .int 1, .int 6, .text "blanks", .none⟩

def onlyLine (_ _ : Value) : Except Fault String := .ok "x = 1  # NoQA: E5, W29\n"

theorem shortCodes_suppress :
    shortCodes.text = "x = 1  # NoQA: E5, W29\n" ∧ finalBlanks.suppressed onlyLine = .ok true := by
  have htext : shortCodes.text = "x = 1  # NoQA: E5, W29\n" := rfl
  have hline : finalBlanks.source = .none ∧
      onlyLine finalBlanks.file finalBlanks.line = .ok shortCodes.text := ⟨rfl, rfl⟩
  have hcode : finalBlanks.code = .text "W291" := rfl
  obtain ⟨b, hb, -, hlisted⟩ := shortCodes.listed_suppressed_iff hcode (Or.inr hline)
  have htrue : b = true := (hlisted (by decide)).mpr (by decide)
  exact ⟨htext, htrue ▸ hb⟩

def longCode : ListedLine where
  before := "x = 1  ".toList
  word := "# noqa".toList
  blank := some ' '
  items := [(⟨['A', 'B', 'C'], ['1', '2', '3'], by decide, by decide, by decide, by decide⟩, [])]
  word_eq := by decide
  before_free := free_of_tails (by decide)
  blank_eq := by decide
  items_ne := by decide
  separators := by decide
  separated := by decide

def longSecondCode : ListedLine where
  before := []
  word := "# noqa".toList
  blank := none
  items := [(⟨['E'], ['5'], by decide, by decide, by decide, by decide⟩, [',']),
    (⟨['A', 'B', 'C'], ['1', '2', '3'], by decide, by decide, by decide, by decide⟩, [])]
  word_eq := by decide
  before_free := free_of_tails (by decide)
  blank_eq := by decide
  items_ne := by decide
  separators := by decide
  separated := by decide

/-- A comment that lists one code of three letters suppresses a violation that it does not list, and
one that lists it after another code does not suppress the violation that it lists. -/
theorem long_codes_misjudged :
    longCode.text = "x = 1  # noqa: ABC123" ∧ longCode.codes.map ListedCode.text = ["ABC123"] ∧
      (Violation.mk (.text "E501") (.text "f.py") (.int 1) (.int 1) (.text "long")
        (.text longCode.text)).suppressed (fun _ _ => .ok "") = .ok true ∧
      longSecondCode.text = "# noqa:E5,ABC123" ∧
      longSecondCode.codes.map ListedCode.text = ["E5", "ABC123"] ∧
      (Violation.mk (.text "ABC123") (.text "f.py") (.int 1) (.int 1) (.text "long")
        (.text longSecondCode.text)).suppressed (fun _ _ => .ok "") = .ok false := by
  have hfirst : lineSuppresses longCode.text "E501" = true := by decide +kernel
  have hsecond : lineSuppresses longSecondCode.text "ABC123" = false := by decide +kernel
  refine ⟨rfl, rfl, ?_, rfl, rfl, ?_⟩
  · rw [Violation.suppressed_text rfl rfl, hfirst]
  · rw [Violation.suppressed_text rfl rfl, hsecond]

end ListedLine

end LintRunner.Suppression
