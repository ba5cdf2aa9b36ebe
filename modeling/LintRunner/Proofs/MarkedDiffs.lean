import LintRunner.Proofs.DiffSections

/-!
# Diffs with markers

After a line that ends its file without a line end, a diff holds a line that starts with a backslash.
Such a marker is no row of either version, but it is counted like a row. So a hunk is taken to end
before its last rows, one for each marker, and if one of these looks like the name of a file, the
following hunks are credited to that file.
-/

namespace LintRunner.Diff

def isMarker (line : List Char) : Bool := line.head? == some '\\'

/-- A hunk with markers in its body: of the other lines, as many stand in the new version as its header
says. Lines are removed, added or in both versions; where such a line is empty it may have lost its
space. -/
structure MarkedHunk where
  old : Range
  new : Range
  heading : List Char
  body : List (List Char)
  starts : ∀ line ∈ body, ∀ c ∈ line.head?, c ∈ [' ', '+', '-', '\\']
  countP_isRow : (body.filter (!isMarker ·)).countP isRow = new.rows.count

/-- The lines that are left when `n` lines have gone by that are not removed ones. -/
def past : Nat → List (List Char) → List (List Char)
  | 0, body => body
  | _, [] => []
  | n + 1, line :: body => if isRow line then past n body else past (n + 1) body

/-- The file that is named last, where `file` was named before the lines. -/
def namedLast (file : String) (lines : List (List Char)) : String :=
  lines.foldl (fun file line => if line.take 3 = ['+', '+', '+'] then namedFile line else file) file

namespace MarkedHunk

def lines (h : MarkedHunk) : List (List Char) := header h.old h.new h.heading :: h.body

def plain (h : MarkedHunk) : Hunk :=
  ⟨h.old, h.new, h.heading, h.body.filter (!isMarker ·), h.countP_isRow⟩

/-- The file that the next hunk is credited to, where this one is credited to `file`. -/
def fileAfter (file : String) (h : MarkedHunk) : String :=
  namedLast file (past h.new.rows.count h.body)

end MarkedHunk

/-- What hunks add, where `file` is named before them. -/
def credited (file : String) : List MarkedHunk → List (String × Rows)
  | [] => []
  | h :: hunks => (file, h.new.rows) :: credited (h.fileAfter file) hunks

/-- A section of a diff with markers: lines that neither name a file nor announce a hunk, a line that
names a file, and hunks. -/
structure MarkedSection where
  preamble : List (List Char)
  nameLine : List Char
  hunks : List MarkedHunk
  silent : ∀ line ∈ preamble, line.take 3 ≠ ['+', '+', '+'] ∧ ¬ IsHeader line
  names : nameLine.take 3 = ['+', '+', '+']

namespace MarkedSection

def file (sec : MarkedSection) : String := namedFile sec.nameLine

def lines (sec : MarkedSection) : List (List Char) :=
  sec.preamble ++ sec.nameLine :: sec.hunks.flatMap MarkedHunk.lines

def numerals (sec : MarkedSection) : List Digits := sec.hunks.flatMap (·.new.numerals)

def plainLines (sec : MarkedSection) : List (List Char) :=
  sec.preamble ++ sec.nameLine :: sec.hunks.flatMap (·.plain.lines)

/-- The rows that the hunks announce, for the file of the section. -/
def announced (sec : MarkedSection) : List (String × Rows) :=
  sec.hunks.map fun h => (sec.file, h.new.rows)

/-- The rows that the hunks announce, for the files that they are credited to. -/
def credits (sec : MarkedSection) : List (String × Rows) := credited sec.file sec.hunks

/-- No hunk before another one leaves a file named that is not the file of the section. -/
def KeepsFile (sec : MarkedSection) : Prop :=
  ∀ h ∈ sec.hunks.dropLast, h.fileAfter sec.file = sec.file

end MarkedSection

theorem past_zero (body : List (List Char)) : past 0 body = body := by
  cases body <;> rfl

theorem foldlM_past {body : List (List Char)}
    (hstarts : ∀ line ∈ body, ∀ c ∈ line.head?, c ∈ [' ', '+', '-', '\\']) {n : Nat}
    (hn : n ≤ body.countP isRow) (file : String) (cov : Coverage) :
    body.foldlM State.take ⟨n, some file, cov⟩ =
      .ok ⟨0, some (namedLast file (past n body)), cov⟩ := by
  induction body generalizing n file with
  | nil =>
    obtain rfl : n = 0 := by simpa using hn
    rfl
  | cons line body ih =>
    obtain ⟨hline, hbody⟩ := List.forall_mem_cons.mp hstarts
    rw [List.foldlM_cons]
    cases n with
    | zero =>
      -- the count has run out, and the line is read like one between hunks
      have hrest := fun file => ih hbody (Nat.zero_le _) file
      rw [past_zero] at hrest ⊢
      rw [namedLast, List.foldl_cons]
      by_cases hplus : line.take 3 = ['+', '+', '+']
      · rw [take_name rfl hplus, if_pos hplus]
        exact hrest (namedFile line)
      · have hhead : line.head? ≠ some '@' := fun h => absurd (hline '@' h) (by decide)
        rw [take_of_not_isHeader rfl hplus (not_isHeader_of_head hhead), if_neg hplus]
        exact hrest file
    | succ n =>
      by_cases hminus : line.head? = some '-'
      · have hrow : isRow line = false := by simp [isRow, hminus]
        rw [List.countP_cons_of_neg (by simp [hrow])] at hn
        rw [take_minus hminus, past, hrow]
        exact ih hbody hn file
      · have hrow : isRow line = true := by simp [isRow, hminus]
        rw [List.countP_cons_of_pos hrow] at hn
        rw [take_row (by simp) hminus, past, hrow]
        exact ih hbody (Nat.le_of_succ_le_succ hn) file

theorem MarkedHunk.announces (h : MarkedHunk) (file : String) :
    Announces h.lines h.new.numerals [(file, h.new.rows)] (some file) (some (h.fileAfter file)) := by
  have hn : h.new.rows.count ≤ h.body.countP isRow := by
    rw [← h.countP_isRow]
    exact List.filter_sublist.countP_le
  exact .hunk h.old h.new h.heading file fun cov => foldlM_past h.starts hn file cov

theorem announces_credited (hunks : List MarkedHunk) (file : String) : ∃ file',
    Announces (hunks.flatMap MarkedHunk.lines) (hunks.flatMap (·.new.numerals))
      (credited file hunks) (some file) file' := by
  induction hunks generalizing file with
  | nil => exact ⟨_, .nil _⟩
  | cons h hunks ih =>
    obtain ⟨last, hrest⟩ := ih (h.fileAfter file)
    exact ⟨last, (h.announces file).append hrest⟩

namespace MarkedSection

theorem announces_credits (sec : MarkedSection) (file : Option String) : ∃ file',
    Announces sec.lines sec.numerals sec.credits file file' := by
  obtain ⟨last, hhunks⟩ := announces_credited sec.hunks sec.file
  refine ⟨last, ?_⟩
  rw [MarkedSection.lines, List.append_cons]
  exact (announces_name sec.silent sec.names file).append hhunks

theorem announces_plain (sec : MarkedSection) (file : Option String) : ∃ file',
    Announces sec.plainLines sec.numerals sec.announced file file' := by
  have hhunks := announces_hunks sec.file (sec.hunks.map MarkedHunk.plain)
  simp only [List.flatMap_map, List.map_map] at hhunks
  refine ⟨some sec.file, ?_⟩
  rw [plainLines, List.append_cons]
  exact (announces_name sec.silent sec.names file).append hhunks

end MarkedSection

theorem credited_eq_iff (hunks : List MarkedHunk) (file : String) :
    credited file hunks = hunks.map (fun h => (file, h.new.rows)) ↔
      ∀ h ∈ hunks.dropLast, h.fileAfter file = file := by
  induction hunks with
  | nil => simp [credited]
  | cons h hunks ih =>
    rw [credited, List.map_cons, List.cons_inj_right]
    cases hunks with
    | nil => simp [credited]
    | cons next hunks =>
      rw [List.dropLast_cons_cons, List.forall_mem_cons, ← ih]
      constructor
      · intro heq
        have hfile : h.fileAfter file = file := congrArg Prod.fst (List.head_eq_of_cons_eq heq)
        rw [hfile] at heq
        exact ⟨hfile, heq⟩
      · rintro ⟨hfile, heq⟩
        rw [hfile]
        exact heq

theorem length_credited (hunks : List MarkedHunk) (file : String) :
    (credited file hunks).length = hunks.length := by
  induction hunks generalizing file with
  | nil => rfl
  | cons h hunks ih => rw [credited, List.length_cons, ih, List.length_cons]

theorem flatMap_credits_eq_iff (sections : List MarkedSection) :
    sections.flatMap MarkedSection.credits = sections.flatMap MarkedSection.announced ↔
      ∀ sec ∈ sections, sec.KeepsFile := by
  induction sections with
  | nil => simp
  | cons sec sections ih =>
    have hlength : sec.credits.length = sec.announced.length := by
      rw [MarkedSection.credits, length_credited, MarkedSection.announced, List.length_map]
    rw [List.flatMap_cons, List.flatMap_cons, List.forall_mem_cons, ← ih, MarkedSection.KeepsFile,
      ← credited_eq_iff]
    exact ⟨fun h => List.append_inj h hlength, fun h => congrArg₂ (· ++ ·) h.1 h.2⟩

variable {diff marked : String} {sections : List MarkedSection}

theorem read_plainLines
    (h : Text.LaidOut diff.toList (sections.flatMap MarkedSection.plainLines)) :
    read diff = settled (sections.flatMap MarkedSection.numerals)
      (sections.flatMap MarkedSection.announced) := by
  obtain ⟨_, hplain⟩ := Announces.flatMap (fun sec _ => MarkedSection.announces_plain sec) none
  exact hplain.read_eq h

theorem read_markedLines (h : Text.LaidOut marked.toList (sections.flatMap MarkedSection.lines)) :
    read marked = settled (sections.flatMap MarkedSection.numerals)
      (sections.flatMap MarkedSection.credits) := by
  obtain ⟨_, hcredits⟩ := Announces.flatMap (fun sec _ => MarkedSection.announces_credits sec) none
  exact hcredits.read_eq h

/-- Markers leave what is read as it was, if no file is named among the rows that are left over in a
hunk before another one of its section. Each hunk is credited to its own file exactly then. -/
theorem read_marked
    (hdiff : Text.LaidOut diff.toList (sections.flatMap MarkedSection.plainLines))
    (hmarked : Text.LaidOut marked.toList (sections.flatMap MarkedSection.lines)) :
    read diff = settled (sections.flatMap MarkedSection.numerals)
      (sections.flatMap MarkedSection.announced) ∧
    read marked = settled (sections.flatMap MarkedSection.numerals)
      (sections.flatMap MarkedSection.credits) ∧
    (sections.flatMap MarkedSection.credits = sections.flatMap MarkedSection.announced ↔
      ∀ sec ∈ sections, sec.KeepsFile) :=
  ⟨read_plainLines hdiff, read_markedLines hmarked, flatMap_credits_eq_iff sections⟩

def firstTwoRows : Range :=
  ⟨⟨['1'], List.cons_ne_nil _ _, by decide⟩, some ⟨['2'], List.cons_ne_nil _ _, by decide⟩⟩

def eighthRow : Range := ⟨⟨['8'], List.cons_ne_nil _ _, by decide⟩, none⟩

/-- A section for one file with two hunks, where a body is given for the first one. -/
def twoHunks (body : List (List Char))
    (starts : ∀ line ∈ body, ∀ c ∈ line.head?, c ∈ [' ', '+', '-', '\\'])
    (count : (body.filter (!isMarker ·)).countP isRow = 2) : MarkedSection where
  preamble := ["--- a/a.py".toList]
  nameLine := "+++ b/a.py".toList
  hunks :=
    [{ old := firstTwoRows, new := firstTwoRows, heading := [], body := body, starts := starts
       countP_isRow := count },
     { old := eighthRow, new := eighthRow, heading := []
       body := ["-p".toList, "+q".toList]
       starts := by decide
       countP_isRow := rfl }]
  silent := silent_oldName
  names := rfl

/-- A marker after a removed line, before rows that look like rows. -/
def harmless : MarkedSection :=
  twoHunks ["-x".toList, "\\ No newline at end of file".toList, " y".toList, "+z".toList]
    (by decide) rfl

theorem harmless_read :
    Text.LaidOut (Text.fedText harmless.plainLines).toList ([harmless].flatMap (·.plainLines)) ∧
    Text.LaidOut (Text.fedText harmless.lines).toList ([harmless].flatMap (·.lines)) ∧
    read (Text.fedText harmless.lines) = read (Text.fedText harmless.plainLines) := by
  have hplain : Text.LaidOut (Text.fedText harmless.plainLines).toList
      ([harmless].flatMap (·.plainLines)) := Text.laidOut_fedText (by decide)
  have hmarked : Text.LaidOut (Text.fedText harmless.lines).toList
      ([harmless].flatMap (·.lines)) := Text.laidOut_fedText (by decide)
  obtain ⟨hread, hread', hsame⟩ := read_marked hplain hmarked
  refine ⟨hplain, hmarked, ?_⟩
  rw [hread, hread', hsame.mpr]
  unfold MarkedSection.KeepsFile
  decide

/-- A marker before an added line that looks like the name of a file. -/
def misleading : MarkedSection :=
  twoHunks ["-x".toList, "\\ No newline at end of file".toList, " y".toList, "+++z".toList]
    (by decide) rfl

/-- With a marker in the first hunk, the second one is credited to a file of another name. -/
theorem misleading_misread :
    read (Text.fedText misleading.plainLines) =
      .ok [(some "a.py", [⟨1, 2⟩, ⟨8, 1⟩])] ∧
    read (Text.fedText misleading.lines) =
      .ok [(some "a.py", [⟨1, 2⟩]), (some "", [⟨8, 1⟩])] := by
  have hplain : Text.LaidOut (Text.fedText misleading.plainLines).toList
      ([misleading].flatMap (·.plainLines)) := Text.laidOut_fedText (by decide)
  have hmarked : Text.LaidOut (Text.fedText misleading.lines).toList
      ([misleading].flatMap (·.lines)) := Text.laidOut_fedText (by decide)
  exact ⟨(read_plainLines hplain).trans rfl, (read_markedLines hmarked).trans rfl⟩

end LintRunner.Diff
