import LintRunner.Diff
import LintRunner.Proofs.DecimalNumerals
import LintRunner.Proofs.TextLines
import Mathlib.Data.List.Nodup
import Mathlib.Data.List.TakeWhile

/-!
# Diffs made of sections

A diff is written section by section: lines that say nothing about rows, a line that names the file,
and hunks. Whatever the bodies of the hunks hold, each file that has a hunk is given the rows that
its hunks announce, and no other file is given any. The one thing that can go wrong is a number with
more digits than can be read.
-/

namespace LintRunner.Diff

/-- A numeral of one or more digits. -/
structure Digits where
  chars : List Char
  ne_nil : chars ≠ []
  decimal : ∀ c ∈ chars, Text.isDecimal c = true

namespace Digits

def value (d : Digits) : Nat := Text.digitsValue d.chars

/-- The numeral is short enough to be read as a number. -/
def Legible (d : Digits) : Prop := d.chars.length ≤ Integer.mostDigits

instance (d : Digits) : Decidable d.Legible := Nat.decLe d.chars.length Integer.mostDigits

def fault (d : Digits) : Fault := Fault.badInteger (String.ofList d.chars)

def check (d : Digits) : Except Fault Unit := if d.Legible then .ok () else .error d.fault

end Digits

/-- A range of a hunk header: its first row, and how many rows it has if that is written. -/
structure Range where
  first : Digits
  count : Option Digits

namespace Range

def chars (r : Range) : List Char := r.first.chars ++ r.count.elim [] fun d => ',' :: d.chars

def rows (r : Range) : Rows := ⟨r.first.value, (r.count.map Digits.value).getD 1⟩

def numerals (r : Range) : List Digits := r.first :: r.count.toList

end Range

def header (old new : Range) (heading : List Char) : List Char :=
  "@@ -".toList ++ (old.chars ++ (" +".toList ++ (new.chars ++ (" @@".toList ++ heading))))

def IsHeader (line : List Char) : Prop := ∃ old new heading, line = header old new heading

variable {rest cs : List Char} {p : List Char × Option (List Char)}

theorem digits?_append (d : Digits)
    (hrest : ∀ c ∈ rest.head?, Text.isDecimal c = false) :
    digits? (d.chars ++ rest) = some (d.chars, rest) := by
  have htake : d.chars.takeWhile Text.isDecimal = d.chars :=
    List.takeWhile_eq_self_iff.mpr d.decimal
  have hdrop : d.chars.dropWhile Text.isDecimal = [] := List.dropWhile_eq_nil_iff.mpr d.decimal
  rw [digits?, Text.takeWhile_append_stop hrest, Text.dropWhile_append_stop hrest, htake, hdrop,
    List.nil_append]
  split
  · next hnil => exact absurd hnil d.ne_nil
  · rfl

theorem exists_digits_of_digits? {ds : List Char} (h : digits? cs = some (ds, rest)) :
    ∃ d : Digits, ds = d.chars ∧ cs = d.chars ++ rest := by
  unfold digits? at h
  split at h
  · cases h
  · next hne =>
      cases h
      have hall : ∀ c ∈ cs.takeWhile Text.isDecimal, Text.isDecimal c = true := fun c hc =>
        List.mem_takeWhile_imp hc
      exact ⟨⟨_, hne, hall⟩, rfl, List.takeWhile_append_dropWhile.symm⟩

theorem range?_append (r : Range)
    (hrest : ∀ c ∈ rest.head?, Text.isDecimal c = false ∧ c ≠ ',') :
    range? (r.chars ++ rest) = some ((r.first.chars, r.count.map Digits.chars), rest) := by
  obtain ⟨first, count⟩ := r
  have hstop : ∀ c ∈ rest.head?, Text.isDecimal c = false := fun c hc => (hrest c hc).1
  cases count with
  | none =>
    rw [Range.chars, Option.elim_none, List.append_nil, range?, digits?_append first hstop]
    split
    · next hnone => cases hnone
    · next tail hsome =>
        cases hsome
        exact absurd rfl (hrest ',' rfl).2
    · next hsome =>
        cases hsome
        rfl
  | some d =>
    have hcomma : ∀ c ∈ (',' :: (d.chars ++ rest)).head?, Text.isDecimal c = false := by
      intro c hc
      cases hc
      decide
    rw [Range.chars, Option.elim_some, List.append_assoc, List.cons_append, range?,
      digits?_append first hcomma]
    simp [digits?_append d hstop]

theorem exists_range_of_range?
    (h : range? cs = some (p, rest)) : ∃ r : Range, cs = r.chars ++ rest := by
  unfold range? at h
  split at h
  · cases h
  · next a tail hfirst =>
      obtain ⟨first, -, rfl⟩ := exists_digits_of_digits? hfirst
      split at h
      · next b after hcount =>
          cases h
          obtain ⟨count, -, rfl⟩ := exists_digits_of_digits? hcount
          exact ⟨⟨first, some count⟩, by simp [Range.chars]⟩
      · cases h
        exact ⟨⟨first, none⟩, by simp [Range.chars]⟩
  · next a tail _ hfirst =>
      cases h
      obtain ⟨first, -, rfl⟩ := exists_digits_of_digits? hfirst
      exact ⟨⟨first, none⟩, by simp [Range.chars]⟩

theorem numerals?_header (old new : Range) (heading : List Char) :
    numerals? (header old new heading) =
      some (new.first.chars, new.count.map Digits.chars) := by
  have hnew : range? (new.chars ++ (" @@".toList ++ heading)) =
      some ((new.first.chars, new.count.map Digits.chars), " @@".toList ++ heading) := by
    apply range?_append
    intro c hc
    cases hc
    decide
  have hold : range? (old.chars ++ (" +".toList ++ (new.chars ++ (" @@".toList ++ heading)))) =
      some ((old.first.chars, old.count.map Digits.chars),
        " +".toList ++ (new.chars ++ (" @@".toList ++ heading))) := by
    apply range?_append
    intro c hc
    cases hc
    decide
  have hafter : ∀ pre rest : List Char, Text.afterPrefix? pre (pre ++ rest) = some rest :=
    fun pre rest => Text.afterPrefix?_eq_some_iff.mpr rfl
  simp only [numerals?, header, hafter, hold, hnew, Option.bind_eq_bind, Option.bind_some,
    Option.pure_def]

theorem isHeader_of_numerals? {line : List Char}
    (h : numerals? line = some p) : IsHeader line := by
  simp only [numerals?, Option.bind_eq_bind, Option.bind_eq_some_iff] at h
  obtain ⟨fromOld, hopen, ⟨_, afterOld⟩, hold, fromNew, hplus, ⟨_, afterNew⟩, hnew, heading, hclose,
    -⟩ := h
  rw [Text.afterPrefix?_eq_some_iff] at hopen hplus hclose
  dsimp only at hplus hclose
  obtain ⟨old, rfl⟩ := exists_range_of_range? hold
  obtain ⟨new, rfl⟩ := exists_range_of_range? hnew
  exact ⟨old, new, heading, by rw [hopen, hplus, hclose, header]⟩

theorem hunk?_header (old new : Range) (heading : List Char) :
    hunk? (header old new heading) = some new.rows := by
  rw [hunk?, numerals?_header, Option.map_some]
  dsimp only
  rw [Option.map_map]
  rfl

/-- A header is read unless one of the numbers for the new version has too many digits. -/
theorem checkNumerals_header (old new : Range) (heading : List Char) :
    checkNumerals (header old new heading) = forM new.numerals Digits.check := by
  have hchars : new.first.chars :: (new.count.map Digits.chars).toList =
      new.numerals.map Digits.chars := by
    cases hcount : new.count <;> simp [Range.numerals, hcount]
  rw [checkNumerals, numerals?_header]
  dsimp only
  rw [hchars, List.forM_eq_forM, List.forM_map]
  refine congrArg (forM new.numerals) (funext fun d => ?_)
  rw [Integer.ofDecimal?_of_isDecimal d.ne_nil d.decimal, Digits.check]
  by_cases hd : d.Legible
  · rw [if_neg (Nat.not_lt.mpr hd), if_pos hd]
  · rw [if_pos (Nat.not_le.mp hd), if_neg hd]
    rfl

theorem Digits.oneLine (d : Digits) : Text.OneLine d.chars := by
  have hnone : ∀ z ∈ Text.digitZeros, ∀ v < 10, Text.isLineEnd (Char.ofNat (z + v)) = false := by
    decide
  intro c hc
  obtain ⟨z, hz, v, -, hcode, hlt⟩ := Text.exists_zero_of_isDecimal (d.decimal c hc)
  have hend := hnone z hz v hlt
  rwa [← hcode, Char.ofNat_toNat] at hend

theorem Range.oneLine (r : Range) : Text.OneLine r.chars := by
  rw [Text.OneLine, Range.chars, List.forall_mem_append]
  refine ⟨r.first.oneLine, ?_⟩
  cases r.count with
  | none => exact List.forall_mem_nil _
  | some d =>
    rw [Option.elim_some, List.forall_mem_cons]
    exact ⟨by decide, d.oneLine⟩

theorem oneLine_header (old new : Range) {heading : List Char} (h : Text.OneLine heading) :
    Text.OneLine (header old new heading) := by
  simp only [header, Text.OneLine, List.forall_mem_append]
  exact ⟨by decide, old.oneLine, by decide, new.oneLine, by decide, h⟩

section Lines

variable {s : State} {line : List Char}

theorem take_of_not_isHeader (hs : s.rowsLeft = 0) (hplus : line.take 3 ≠ ['+', '+', '+'])
    (hline : ¬ IsHeader line) : s.take line = .ok s := by
  have hnone : numerals? line = none := by
    rw [Option.eq_none_iff_forall_ne_some]
    exact fun p hp => hline (isHeader_of_numerals? hp)
  simp [State.take, State.feed, checkNumerals, hunk?, hs, hplus, hnone, pure, Except.pure, bind,
    Except.bind]

theorem take_header (hs : s.rowsLeft = 0) (old new : Range) (heading : List Char) :
    s.take (header old new heading) = (do
      forM new.numerals Digits.check
      return { s with
        rowsLeft := new.rows.count
        coverage := addRows s.file new.rows s.coverage }) := by
  have hplus : (header old new heading).take 3 ≠ ['+', '+', '+'] := by
    intro h
    cases h
  simp [State.take, State.feed, hs, hplus, hunk?_header, checkNumerals_header]

theorem not_isHeader_of_head (h : line.head? ≠ some '@') : ¬ IsHeader line := by
  rintro ⟨old, new, heading, rfl⟩
  exact h rfl

theorem silent_of_minus (hline : line.head? = some '-') :
    line.take 3 ≠ ['+', '+', '+'] ∧ ¬ IsHeader line := by
  refine ⟨fun h => ?_, not_isHeader_of_head (by rw [hline]; decide)⟩
  cases line with
  | nil => cases h
  | cons c tail =>
    cases hline
    cases h

theorem take_minus (hline : line.head? = some '-') : s.take line = .ok s := by
  by_cases hs : s.rowsLeft = 0
  · exact take_of_not_isHeader hs (silent_of_minus hline).1 (silent_of_minus hline).2
  · simp [State.take, State.feed, hs, hline, pure, Except.pure]

theorem take_name (hs : s.rowsLeft = 0) (hplus : line.take 3 = ['+', '+', '+']) :
    s.take line = .ok { s with file := some (namedFile line) } := by
  simp [State.take, State.feed, hs, hplus, pure, Except.pure]

theorem take_row (hs : s.rowsLeft ≠ 0) (hline : line.head? ≠ some '-') :
    s.take line = .ok { s with rowsLeft := s.rowsLeft - 1 } := by
  simp [State.take, State.feed, hs, hline, pure, Except.pure]

end Lines

/-! ## Hunks and sections -/

def isRow (line : List Char) : Bool := line.head? != some '-'

/-- A hunk: as many lines of its body stand in the new version as its header says. -/
structure Hunk where
  old : Range
  new : Range
  heading : List Char
  body : List (List Char)
  countP_isRow : body.countP isRow = new.rows.count

def Hunk.lines (h : Hunk) : List (List Char) := header h.old h.new h.heading :: h.body

/-- A section: lines that neither name a file nor announce a hunk, the name of a file, with a remark
after a tab or without one, and hunks. -/
structure Section where
  preamble : List (List Char)
  path : String
  remark : Option (List Char)
  hunks : List Hunk
  silent : ∀ line ∈ preamble, line.take 3 ≠ ['+', '+', '+'] ∧ ¬ IsHeader line
  not_tab : ∀ c ∈ path.toList, c ≠ '\t'

namespace Section

def nameLine (sec : Section) : List Char :=
  "+++ b/".toList ++ (sec.path.toList ++ sec.remark.elim [] ('\t' :: ·))

def lines (sec : Section) : List (List Char) :=
  sec.preamble ++ sec.nameLine :: sec.hunks.flatMap Hunk.lines

/-- The numerals that are read of a section. -/
def numerals (sec : Section) : List Digits := sec.hunks.flatMap (·.new.numerals)

def announced (sec : Section) : List (String × Rows) :=
  sec.hunks.map fun h => (sec.path, h.new.rows)

end Section

def collect (cov : Coverage) (announced : List (String × Rows)) : Coverage :=
  announced.foldl (fun c a => addRows (some a.1) a.2 c) cov

/-- What is read where these numbers must be read and these rows are announced. -/
def settled (numerals : List Digits) (announced : List (String × Rows)) : Except Fault Coverage := do
  forM numerals Digits.check
  return collect [] announced

-- The rows left are those that the rest of the body still has; removed lines after the last row are
-- read like lines between hunks, and there they say nothing.
theorem foldlM_body {body : List (List Char)} {s : State} (h : body.countP isRow = s.rowsLeft) :
    body.foldlM State.take s = .ok { s with rowsLeft := 0 } := by
  induction body generalizing s with
  | nil =>
    rw [List.countP_nil] at h
    rw [h]
    rfl
  | cons line body ih =>
    rw [List.foldlM_cons]
    by_cases hline : line.head? = some '-'
    · have hrow : ¬ isRow line = true := by simp [isRow, hline]
      rw [List.countP_cons_of_neg hrow] at h
      rw [take_minus hline]
      exact ih h
    · have hrow : isRow line = true := by simp [isRow, hline]
      rw [List.countP_cons_of_pos hrow] at h
      rw [take_row (by omega) hline]
      exact ih (by dsimp only; omega)

/-- The lines announce rows after their numbers have been read; `file` is named before them and
`file'` after them. -/
def Announces (lines : List (List Char)) (numerals : List Digits) (announced : List (String × Rows))
    (file file' : Option String) : Prop :=
  ∀ cov, lines.foldlM State.take ⟨0, file, cov⟩ = (do
    forM numerals Digits.check
    return ⟨0, file', collect cov announced⟩)

namespace Announces

variable {lines lines' : List (List Char)} {numerals numerals' : List Digits}
  {announced announced' : List (String × Rows)} {file file' file'' : Option String}

theorem nil (file : Option String) : Announces [] [] [] file file := fun _ => rfl

theorem append (h : Announces lines numerals announced file file')
    (h' : Announces lines' numerals' announced' file' file'') :
    Announces (lines ++ lines') (numerals ++ numerals') (announced ++ announced') file file'' := by
  intro cov
  rw [List.foldlM_append, h, List.forM_append, bind_assoc, bind_assoc]
  congr 1
  funext _
  rw [pure_bind, h', collect, collect, collect, List.foldl_append]

theorem of_foldlM (h : ∀ cov, lines.foldlM State.take ⟨0, file, cov⟩ = .ok ⟨0, file', cov⟩) :
    Announces lines [] [] file file' := h

theorem hunk {body : List (List Char)} (old new : Range) (heading : List Char) (path : String)
    (h : ∀ cov, body.foldlM State.take ⟨new.rows.count, some path, cov⟩ = .ok ⟨0, file', cov⟩) :
    Announces (header old new heading :: body) new.numerals [(path, new.rows)] (some path) file' := by
  intro cov
  rw [List.foldlM_cons, take_header rfl, bind_assoc]
  congr 1
  funext _
  exact h _

theorem flatMap {α : Type} {lines : α → List (List Char)} {numerals : α → List Digits}
    {announced : α → List (String × Rows)} {xs : List α}
    (h : ∀ x ∈ xs, ∀ file, ∃ file', Announces (lines x) (numerals x) (announced x) file file')
    (file : Option String) : ∃ file',
      Announces (xs.flatMap lines) (xs.flatMap numerals) (xs.flatMap announced) file file' := by
  induction xs generalizing file with
  | nil => exact ⟨file, nil file⟩
  | cons x xs ih =>
    obtain ⟨hx, hxs⟩ := List.forall_mem_cons.mp h
    obtain ⟨next, hfirst⟩ := hx file
    obtain ⟨last, hrest⟩ := ih hxs next
    exact ⟨last, hfirst.append hrest⟩

end Announces

theorem announces_hunks (path : String) (hunks : List Hunk) :
    Announces (hunks.flatMap Hunk.lines) (hunks.flatMap (·.new.numerals))
      (hunks.map fun h => (path, h.new.rows)) (some path) (some path) := by
  induction hunks with
  | nil => exact .nil _
  | cons h hunks ih =>
    exact (Announces.hunk h.old h.new h.heading path fun _ => foldlM_body h.countP_isRow).append ih

theorem Section.namedFile_nameLine (sec : Section) : namedFile sec.nameLine = sec.path := by
  have hstop : ∀ c ∈ (sec.remark.elim [] ('\t' :: ·)).head?, (c != '\t') = false := by
    intro c hc
    cases hremark : sec.remark with
    | none => simp [hremark] at hc
    | some remark =>
      simp only [hremark, Option.elim_some, List.head?_cons, Option.mem_some_iff] at hc
      simp [← hc]
  have hpath : sec.path.toList.takeWhile (· != '\t') = sec.path.toList :=
    List.takeWhile_eq_self_iff.mpr fun c hc => bne_iff_ne.mpr (sec.not_tab c hc)
  have hname : (sec.nameLine.drop 4).takeWhile (· != '\t') = 'b' :: '/' :: sec.path.toList := by
    rw [← hpath, ← Text.takeWhile_append_stop hstop sec.path.toList]
    rfl
  rw [namedFile, hname]
  exact String.ofList_toList

theorem foldlM_preamble {s : State} (hs : s.rowsLeft = 0) {preamble : List (List Char)}
    (h : ∀ line ∈ preamble, line.take 3 ≠ ['+', '+', '+'] ∧ ¬ IsHeader line) :
    preamble.foldlM State.take s = .ok s := by
  induction preamble with
  | nil => rfl
  | cons line preamble ih =>
    obtain ⟨⟨hplus, hheader⟩, hmore⟩ := List.forall_mem_cons.mp h
    rw [List.foldlM_cons, take_of_not_isHeader hs hplus hheader]
    exact ih hmore

/-- The lines before a hunk may name a file, whatever they say besides. -/
theorem announces_name {preamble : List (List Char)} {nameLine : List Char}
    (h : ∀ line ∈ preamble, line.take 3 ≠ ['+', '+', '+'] ∧ ¬ IsHeader line)
    (hname : nameLine.take 3 = ['+', '+', '+']) (file : Option String) :
    Announces (preamble ++ [nameLine]) [] [] file (some (namedFile nameLine)) := by
  refine .of_foldlM fun cov => ?_
  rw [List.foldlM_append, foldlM_preamble rfl h]
  dsimp only [bind, Except.bind]
  rw [List.foldlM_cons, take_name rfl hname]
  rfl

/-- A section adds what it announces, whatever the bodies of its hunks look like. -/
theorem announces_section (sec : Section) (file : Option String) :
    Announces sec.lines sec.numerals sec.announced file (some sec.path) := by
  have hplus : sec.nameLine.take 3 = ['+', '+', '+'] := rfl
  have hname := announces_name sec.silent hplus file
  rw [sec.namedFile_nameLine] at hname
  rw [Section.lines, List.append_cons]
  exact hname.append (announces_hunks sec.path sec.hunks)

theorem map_coverage_foldlM_append_nil (s : State) (lines : List (List Char)) :
    State.coverage <$> (lines ++ [[]]).foldlM State.take s =
      State.coverage <$> lines.foldlM State.take s := by
  have hnil : ∀ t : State, State.coverage <$> t.take [] = .ok t.coverage := by
    intro t
    by_cases ht : t.rowsLeft = 0
    · have hheader : ¬ IsHeader [] := by
        rintro ⟨old, new, heading, h⟩
        cases h
      rw [take_of_not_isHeader ht (by decide) hheader]
      rfl
    · rw [take_row ht (by decide)]
      rfl
  rw [List.foldlM_append, map_bind, map_eq_pure_bind]
  congr 1
  funext t
  rw [List.foldlM_cons]
  simp only [List.foldlM_nil, bind_pure]
  exact hnil t

theorem Announces.read_eq {diff : String} {lines : List (List Char)} {numerals : List Digits}
    {announced : List (String × Rows)} {file : Option String}
    (h : Announces lines numerals announced none file) (hdiff : Text.LaidOut diff.toList lines) :
    read diff = settled numerals announced := by
  have hread : read diff = State.coverage <$>
      ((Text.wideLines diff.toList).map Text.dropLineEnd).foldlM State.take {} := by
    rw [read, map_eq_pure_bind]
  have hlines : State.coverage <$> lines.foldlM State.take {} = settled numerals announced := by
    rw [h [], map_bind]
    rfl
  rw [hread, ← hlines]
  rcases hdiff.lines_eq with heq | heq
  · rw [heq]
  · -- The last hunk ends with an empty row, which is no line of its own without a line end.
    rw [← heq, map_coverage_foldlM_append_nil]

theorem read_eq_of_laidOut {diff : String} {sections : List Section}
    (h : Text.LaidOut diff.toList (sections.flatMap Section.lines)) :
    read diff =
      settled (sections.flatMap Section.numerals) (sections.flatMap Section.announced) := by
  have hsections : ∀ sec ∈ sections, ∀ file, ∃ file',
      Announces sec.lines sec.numerals sec.announced file file' :=
    fun sec _ file => ⟨_, announces_section sec file⟩
  obtain ⟨file, hall⟩ := Announces.flatMap hsections none
  exact hall.read_eq h

/-! ## Coverage -/

section Coverage

variable {cov : Coverage} {file : Option String} {rows : Rows}

theorem mem_keys_addRows {key : Option String} :
    key ∈ (addRows file rows cov).map Prod.fst ↔ key = file ∨ key ∈ cov.map Prod.fst := by
  induction cov with
  | nil => simp [addRows]
  | cons entry cov ih =>
    obtain ⟨f, rs⟩ := entry
    rw [addRows]
    by_cases hf : f = file
    · subst hf
      simp
    · rw [if_neg hf, List.map_cons, List.mem_cons, ih, List.map_cons, List.mem_cons,
        or_left_comm]

theorem nodup_keys_addRows (h : (cov.map Prod.fst).Nodup) :
    ((addRows file rows cov).map Prod.fst).Nodup := by
  induction cov with
  | nil => simp [addRows]
  | cons entry cov ih =>
    obtain ⟨f, rs⟩ := entry
    rw [List.map_cons, List.nodup_cons] at h
    rw [addRows]
    by_cases hf : f = file
    · rw [if_pos hf, List.map_cons, List.nodup_cons]
      exact h
    · rw [if_neg hf, List.map_cons, List.nodup_cons, mem_keys_addRows, not_or]
      exact ⟨⟨hf, h.1⟩, ih h.2⟩

def Gives (cov : Coverage) (file : Option String) (rows : Rows) : Prop :=
  ∃ rs, (file, rs) ∈ cov ∧ rows ∈ rs

theorem gives_cons {f key : Option String} {rs : List Rows} {r : Rows} :
    Gives ((f, rs) :: cov) key r ↔ key = f ∧ r ∈ rs ∨ Gives cov key r := by
  constructor
  · rintro ⟨rs', hmem, hr⟩
    rcases List.mem_cons.mp hmem with heq | hrest
    · cases heq
      exact Or.inl ⟨rfl, hr⟩
    · exact Or.inr ⟨rs', hrest, hr⟩
  · rintro (⟨rfl, hr⟩ | ⟨rs', hrest, hr⟩)
    · exact ⟨rs, List.mem_cons_self, hr⟩
    · exact ⟨rs', List.mem_cons_of_mem _ hrest, hr⟩

theorem gives_addRows {key : Option String} {r : Rows} :
    Gives (addRows file rows cov) key r ↔ Gives cov key r ∨ key = file ∧ r = rows := by
  induction cov with
  | nil => simp [addRows, Gives]
  | cons entry cov ih =>
    obtain ⟨f, rs⟩ := entry
    rw [addRows, gives_cons]
    by_cases hf : f = file
    · rw [if_pos hf, gives_cons, List.mem_append, List.mem_singleton, hf, and_or_left,
        or_right_comm]
    · rw [if_neg hf, gives_cons, ih, or_assoc]

end Coverage

structure Collects (announced : List (String × Rows)) (cov : Coverage) : Prop where
  nodup : (cov.map Prod.fst).Nodup
  mem_keys : ∀ key, key ∈ cov.map Prod.fst ↔ ∃ a ∈ announced, key = some a.1
  gives : ∀ key r, Gives cov key r ↔ ∃ a ∈ announced, key = some a.1 ∧ r = a.2

namespace Collects

variable {announced : List (String × Rows)} {cov : Coverage}

theorem add (h : Collects announced cov) (a : String × Rows) :
    Collects (announced ++ [a]) (addRows (some a.1) a.2 cov) where
  nodup := nodup_keys_addRows h.nodup
  mem_keys := by
    intro key
    rw [mem_keys_addRows, h.mem_keys, or_comm]
    simp [or_and_right, exists_or]
  gives := by
    intro key r
    rw [gives_addRows, h.gives]
    simp [or_and_right, exists_or]

theorem collect (h : Collects announced cov) (more : List (String × Rows)) :
    Collects (announced ++ more) (Diff.collect cov more) := by
  induction more generalizing announced cov with
  | nil =>
    rw [List.append_nil]
    exact h
  | cons a more ih =>
    have hstep := ih (h.add a)
    rw [List.append_assoc, List.singleton_append] at hstep
    exact hstep

/-- A row of a file is covered exactly if rows that hold it were announced. -/
theorem covers_iff (h : Collects announced cov) {path : String} {rows : List Rows}
    (hrows : (some path, rows) ∈ cov) (n : Int) :
    covers rows n = true ↔ ∃ a ∈ announced, a.1 = path ∧ a.2.holds n = true := by
  rw [covers, List.any_eq_true]
  constructor
  · rintro ⟨r, hr, hn⟩
    obtain ⟨a, ha, hpath, rfl⟩ := (h.gives (some path) r).mp ⟨rows, hrows, hr⟩
    exact ⟨a, ha, (Option.some_inj.mp hpath).symm, hn⟩
  · rintro ⟨a, ha, rfl, hn⟩
    obtain ⟨rs, hrs, hr⟩ := (h.gives (some a.1) a.2).mpr ⟨a, ha, rfl, rfl⟩
    have hsame := List.inj_on_of_nodup_map h.nodup hrs hrows rfl
    cases hsame
    exact ⟨a.2, hr, hn⟩

end Collects

theorem collects_collect (announced : List (String × Rows)) :
    Collects announced (collect [] announced) := by
  have hnil : Collects [] [] :=
    { nodup := List.nodup_nil
      mem_keys := by simp
      gives := by simp [Gives] }
  exact hnil.collect announced

/-- The coverage has the files of the sections with a hunk as its keys, and for each of them the
union of the rows that its hunks announce. -/
structure IsUnion (sections : List Section) (cov : Coverage) : Prop where
  nodup : (cov.map Prod.fst).Nodup
  mem_keys : ∀ key, key ∈ cov.map Prod.fst ↔
    ∃ sec ∈ sections, key = some sec.path ∧ sec.hunks ≠ []
  covers_iff : ∀ path rows, (some path, rows) ∈ cov → ∀ n : Int, covers rows n = true ↔
    ∃ sec ∈ sections, sec.path = path ∧ ∃ h ∈ sec.hunks,
      (h.new.rows.first : Int) ≤ n ∧ n < h.new.rows.first + h.new.rows.count

theorem isUnion_collect (sections : List Section) :
    IsUnion sections (collect [] (sections.flatMap Section.announced)) := by
  have hcollects := collects_collect (sections.flatMap Section.announced)
  refine ⟨hcollects.nodup, fun key => ?_, fun path rows hrows n => ?_⟩
  · rw [hcollects.mem_keys]
    constructor
    · rintro ⟨a, ha, rfl⟩
      obtain ⟨sec, hsec, hann⟩ := List.mem_flatMap.mp ha
      obtain ⟨h, hh, rfl⟩ := List.mem_map.mp hann
      exact ⟨sec, hsec, rfl, List.ne_nil_of_mem hh⟩
    · rintro ⟨sec, hsec, rfl, hne⟩
      obtain ⟨h, hh⟩ := List.exists_mem_of_ne_nil sec.hunks hne
      have hann : (sec.path, h.new.rows) ∈ sec.announced := List.mem_map_of_mem hh
      exact ⟨_, List.mem_flatMap_of_mem hsec hann, rfl⟩
  · rw [hcollects.covers_iff hrows]
    constructor
    · rintro ⟨a, ha, rfl, hn⟩
      obtain ⟨sec, hsec, hann⟩ := List.mem_flatMap.mp ha
      obtain ⟨h, hh, rfl⟩ := List.mem_map.mp hann
      exact ⟨sec, hsec, rfl, h, hh, by simpa [Rows.holds] using hn⟩
    · rintro ⟨sec, hsec, rfl, h, hh, hn⟩
      have hann : (sec.path, h.new.rows) ∈ sec.announced := List.mem_map_of_mem hh
      exact ⟨_, List.mem_flatMap_of_mem hsec hann, rfl, by simpa [Rows.holds] using hn⟩

theorem forM_check_of_legible {ds : List Digits} (h : ∀ d ∈ ds, d.Legible) :
    forM ds Digits.check = .ok () := by
  induction ds with
  | nil => rfl
  | cons d ds ih =>
    obtain ⟨hd, hds⟩ := List.forall_mem_cons.mp h
    rw [List.forM_cons, Digits.check, if_pos hd]
    exact ih hds

theorem forM_check_of_find? {ds : List Digits} {d : Digits}
    (h : ds.find? (fun d => !decide d.Legible) = some d) :
    forM ds Digits.check = .error d.fault := by
  induction ds with
  | nil => cases h
  | cons e ds ih =>
    rw [List.forM_cons, Digits.check]
    by_cases he : e.Legible
    · rw [List.find?_cons_of_neg (by simp [he])] at h
      rw [if_pos he]
      exact ih h
    · rw [List.find?_cons_of_pos (by simp [he])] at h
      cases h
      rw [if_neg he]
      rfl

/-- A diff made of sections is read as the union of its hunks, file by file, if the numbers of its
hunks for the new version can be read; otherwise the first of them that cannot be read is the
fault. -/
theorem read_sections {diff : String} {sections : List Section}
    (h : Text.LaidOut diff.toList (sections.flatMap Section.lines)) :
    ((∀ d ∈ sections.flatMap Section.numerals, d.Legible) →
      ∃ cov, read diff = .ok cov ∧ IsUnion sections cov) ∧
    ∀ d, (sections.flatMap Section.numerals).find? (fun d => !decide d.Legible) = some d →
      read diff = .error d.fault := by
  rw [read_eq_of_laidOut h]
  unfold settled
  constructor
  · intro hlegible
    rw [forM_check_of_legible hlegible]
    exact ⟨_, rfl, isUnion_collect sections⟩
  · intro d hd
    rw [forM_check_of_find? hd]
    rfl

def Digits.single (c : Char) (hc : Text.isDecimal c = true) : Digits :=
  ⟨[c], by simp, by simpa using hc⟩

theorem silent_oldName : ∀ line ∈ ["--- a/a.py".toList],
    line.take 3 ≠ ['+', '+', '+'] ∧ ¬ IsHeader line := by
  intro line hline
  rw [List.mem_singleton.mp hline]
  exact silent_of_minus rfl

/-- Rows 3 and 4, and one of them looks like the name of a file. -/
def nameInBody : Hunk where
  old := ⟨.single '1' rfl, none⟩
  new := ⟨.single '3' rfl, some (.single '2' rfl)⟩
  heading := " def f():".toList
  body := ["-x".toList, "+++ b/c.py".toList, " @@ -1 +1 @@".toList, "-y".toList]
  countP_isRow := by decide

/-- No rows, after which only removed lines stand. -/
def onlyRemoved : Hunk where
  old := ⟨.single '9' rfl, none⟩
  new := ⟨.single '8' rfl, some (.single '0' rfl)⟩
  heading := []
  body := ["-@@ -1 +1 @@".toList]
  countP_isRow := by decide

def twoTurns : List Section :=
  [{ preamble := ["--- a/a.py".toList], path := "a.py", remark := some "today".toList
     hunks := [nameInBody]
     silent := silent_oldName
     not_tab := by decide },
   { preamble := [], path := "b.py", remark := none, hunks := []
     silent := by simp
     not_tab := by decide },
   { preamble := [], path := "a.py", remark := none, hunks := [onlyRemoved]
     silent := by simp
     not_tab := by decide }]

theorem twoTurns_read :
    Text.LaidOut (Text.fedText (twoTurns.flatMap Section.lines)).toList
        (twoTurns.flatMap Section.lines) ∧
      (∀ d ∈ twoTurns.flatMap Section.numerals, d.Legible) ∧
      ∃ cov, read (Text.fedText (twoTurns.flatMap Section.lines)) = .ok cov ∧
        IsUnion twoTurns cov := by
  have hlines : ∀ line ∈ twoTurns.flatMap Section.lines, Text.OneLine line := by decide
  have hlaid := Text.laidOut_fedText hlines
  have hlegible : ∀ d ∈ twoTurns.flatMap Section.numerals, d.Legible := by decide
  exact ⟨hlaid, hlegible, (read_sections hlaid).1 hlegible⟩

/-- A one before as many zeros as a number may have digits. -/
def longNumber : Digits where
  chars := '1' :: List.replicate Integer.mostDigits '0'
  ne_nil := List.cons_ne_nil _ _
  decimal := by
    intro c hc
    rcases List.mem_cons.mp hc with rfl | hzero
    · rfl
    · rw [List.eq_of_mem_replicate hzero]
      rfl

def farDown : Section where
  preamble := ["--- a/a.py".toList]
  path := "a.py"
  remark := none
  hunks :=
    [{ old := ⟨.single '1' rfl, none⟩, new := ⟨longNumber, some (.single '0' rfl)⟩
       heading := [], body := ["-x".toList]
       countP_isRow := rfl }]
  silent := silent_oldName
  not_tab := by decide

/-- A diff made of sections need not be read: the number of a row may be too long. -/
theorem farDown_unread :
    Text.LaidOut (Text.fedText ([farDown].flatMap Section.lines)).toList
        ([farDown].flatMap Section.lines) ∧
      read (Text.fedText ([farDown].flatMap Section.lines)) = .error longNumber.fault := by
  have hlines : ∀ line ∈ [farDown].flatMap Section.lines, Text.OneLine line := by
    rw [List.flatMap_singleton]
    refine List.forall_mem_cons.mpr ⟨by decide, List.forall_mem_cons.mpr ⟨by decide, ?_⟩⟩
    exact List.forall_mem_cons.mpr ⟨oneLine_header _ _ (by decide), by decide⟩
  have hlaid := Text.laidOut_fedText hlines
  have hlong : ¬ longNumber.Legible := by simp [Digits.Legible, longNumber]
  have hfind : ([farDown].flatMap Section.numerals).find? (fun d => !decide d.Legible) =
      some longNumber := List.find?_cons_of_pos (by simp [hlong])
  refine ⟨hlaid, ?_⟩
  rw [read_eq_of_laidOut hlaid, settled, forM_check_of_find? hfind]
  rfl

end LintRunner.Diff
