import LintRunner.Proofs.OpenedFiles
import LintRunner.Proofs.PipedLines
import LintRunner.Proofs.Titles

/-!
# The same content from standard input and from a file

Content that is UTF-8 and announces no encoding is opened for checking once through standard input
and once through a path. Both give the same lines exactly if only line feeds end its lines; then the
checks find the same, unless one asks for the name of the file and the names differ.
-/

namespace LintRunner

open Stateful

namespace World

/-- Standard input and the file at a path hold the same bytes. What was read of standard input
before is what it holds. -/
structure Offers (w : World) (path : String) (bytes : List UInt8) : Prop where
  stdin : w.stdin = bytes
  cached : ∀ text, w.stdinText = some text → Source.pipeText bytes = some text.toList
  file : w.tree.read path = .ok bytes

theorem Offers.readStdin_eq {w : World} {path : String} {bytes : List UInt8} {text : List Char}
    (h : w.Offers path bytes) (htext : Source.pipeText bytes = some text) :
    ∃ w', w.readStdin = (.ok (String.ofList text), w') ∧ w'.compileFault = w.compileFault := by
  unfold readStdin
  cases hcached : w.stdinText with
  | some s =>
    have hs := h.cached s hcached
    rw [htext] at hs
    refine ⟨w, ?_, rfl⟩
    rw [Option.some.inj hs, String.ofList_toList]
  | none =>
    rw [h.stdin, htext]
    exact ⟨_, rfl, rfl⟩

end World

/-- All settings that opening a file asks for are there. -/
def Settings.Equipped (s : Settings) : Prop :=
  ∀ name ∈ ["stdin_display_name", "hang_closing", "max_line_length", "verbose"],
    (s.find? name).isSome = true

namespace Check

open Source (Processor)

variable {s : Settings} {w w' : World} {path : String} {bytes : List UInt8} {checks : Checks}

/-- The state of a file with given lines, as it is opened under a name. -/
def freshProcessor (s : Settings) (w : World) (name : Value) (lines : List String) : Processor where
  filename := name
  lines := lines
  hangClosing := s.value "hang_closing"
  maxLineLength := s.value "max_line_length"
  verbose := s.value "verbose"
  compileFault := w.compileFault

/-- A file that is not suppressed as a whole, before any check has run. -/
def freshChecker (checks : Checks) (filename : Value) (p : Processor) : FileChecker where
  filename := filename
  displayName := p.filename
  checks := checks
  processor := some p
  shouldProcess := !p.shouldIgnoreFile
  counts := { physicalLines := p.lines.length }

theorem make_of_readLines (hs : s.Equipped) {filename name : Value} {lines kept : List String}
    (hread : readLines s filename w = (.ok (name, lines), w'))
    (hkept : Processor.withoutMark lines = .ok kept) :
    FileChecker.make s checks filename w =
      (.ok (freshChecker checks filename (freshProcessor s w' name kept)), w') := by
  have hget : ∀ key ∈ ["stdin_display_name", "hang_closing", "max_line_length", "verbose"],
      s.get key = .ok (s.value key) := by
    intro key hkey
    obtain ⟨v, hv⟩ := Option.isSome_iff_exists.mp (hs key hkey)
    rw [Settings.get, Settings.value, hv]
    rfl
  have hopen : openFile s filename none w = (.ok (freshProcessor s w' name kept), w') := by
    unfold openFile
    dsimp only
    rw [hread]
    simp only [bind, Except.bind, pure, Except.pure, hkept, hget "hang_closing" (by simp),
      hget "max_line_length" (by simp), hget "verbose" (by simp)]
    rfl
  unfold FileChecker.make
  rw [hopen]
  rfl

def stdinName (s : Settings) : Value :=
  if (s.value "stdin_display_name").truthy then s.value "stdin_display_name" else .text "stdin"

theorem readLines_dash (hs : s.Equipped) (h : w.Offers path bytes) {text : List Char}
    (htext : Source.pipeText bytes = some text) :
    ∃ w', readLines s (.text "-") w =
        (.ok (stdinName s, Source.pipeLines (String.ofList text)), w') ∧
      w'.compileFault = w.compileFault := by
  obtain ⟨shown, hshown⟩ := Option.isSome_iff_exists.mp (hs "stdin_display_name" (by simp))
  obtain ⟨w', hstdin, hfault⟩ := h.readStdin_eq htext
  refine ⟨w', ?_, hfault⟩
  unfold readLines stdinName
  dsimp only
  rw [Settings.get, Settings.value, hshown, hstdin]
  rfl

theorem readLines_path (h : w.Offers path bytes) (hpath : path ≠ "-") :
    readLines s (.text path) w = (.ok (.text path, Source.fileLines bytes), w) := by
  unfold readLines
  dsimp only
  split
  · contradiction
  · rename_i heq
    cases heq
    contradiction
  · have hread : w.tree.readNamed (.text path) = .ok bytes := h.file
    rw [hread]

/-- No check asks for the name of the file. -/
def Checks.NoneAsksName (checks : Checks) : Prop :=
  ∀ check ∈ checks.trees ++ checks.logicalLines ++ checks.physicalLines,
    ∀ e ∈ check.parameters, e.1 ≠ "filename"

theorem byDiscreet_of_noneAsksName (h : checks.NoneAsksName) (title : Option Value)
    {c : FileChecker} (hc : c.checks = checks) : c.ByDiscreet title := by
  subst hc
  refine ⟨fun check hcheck => .inr ?_, fun check hcheck => .inr ?_, fun check hcheck => .inr ?_⟩
  all_goals
    apply h
    simp [hcheck]

theorem runChecks_freshChecker {file file' name name' : Value} {lines : List String}
    (hfault : w'.compileFault = w.compileFault) (h : name = name' ∨ checks.NoneAsksName) :
    (FileChecker.runChecks.run (freshChecker checks file (freshProcessor s w' name lines))).1 =
        (FileChecker.runChecks.run (freshChecker checks file' (freshProcessor s w name' lines))).1 ∧
      (FileChecker.runChecks.run
          (freshChecker checks file (freshProcessor s w' name lines))).2.results =
        (FileChecker.runChecks.run
          (freshChecker checks file' (freshProcessor s w name' lines))).2.results := by
  have hsame : ∃ title,
      (freshChecker checks file (freshProcessor s w' name lines)).ByDiscreet title ∧
      freshChecker checks file' (freshProcessor s w name' lines) =
        (freshChecker checks file (freshProcessor s w' name lines)).retitle file' name' title := by
    rcases h with rfl | h
    · refine ⟨none, ⟨fun _ _ => .inl rfl, fun _ _ => .inl rfl, fun _ _ => .inl rfl⟩, ?_⟩
      rw [freshProcessor, freshProcessor, hfault]
      rfl
    · refine ⟨some name', byDiscreet_of_noneAsksName h _ rfl, ?_⟩
      rw [freshProcessor, freshProcessor, hfault]
      rfl
  obtain ⟨title, hdiscreet, heq⟩ := hsame
  rw [heq, (FileChecker.untitled_runChecks _ hdiscreet).1]
  exact ⟨by rw [Except.map_id]; rfl, rfl⟩

/-- Content that is UTF-8 and announces no encoding has the same lines through standard input and
through a path exactly if only line feeds end its lines. Checks then fail or find the same in both
cases, as long as none of them asks for the name of the file or the name is the same. -/
theorem piped_lines_eq_iff (hs : s.Equipped) (hw : w.Offers path bytes) (hpath : path ≠ "-")
    {cs : List Char} (hdec : Source.decodeUtf8 bytes = some cs)
    (hsilent : Source.Unannounced bytes) (checks : Checks) :
    ∃ c d p q w', FileChecker.make s checks (.text "-") w = (.ok c, w') ∧
      FileChecker.make s checks (.text path) w = (.ok d, w) ∧
      c.processor = some p ∧ d.processor = some q ∧
      (p.lines = q.lines ↔ Text.PlainEnds cs) ∧
      (Text.PlainEnds cs → p.filename = q.filename ∨ checks.NoneAsksName →
        c.shouldProcess = d.shouldProcess ∧
        (FileChecker.runChecks.run c).1 = (FileChecker.runChecks.run d).1 ∧
        (FileChecker.runChecks.run c).2.results = (FileChecker.runChecks.run d).2.results) := by
  obtain ⟨text, hpipe, hfile, hcs⟩ := Source.exists_text_of_unannounced hdec hsilent
  obtain ⟨piped, filed, hpiped, hfiled, hlines⟩ := Processor.comparable text
  rw [Text.wideLines_eq_unified_iff] at hlines
  have hplain : Text.PlainEnds cs ↔ Text.PlainEnds text := by
    rcases hcs with rfl | rfl
    · rfl
    · exact Text.plainEnds_cons_of_not_isLineEnd (by decide) text
  obtain ⟨w', hdash, hfault⟩ := readLines_dash hs hw hpipe
  have hpipeLines : Processor.withoutMark (Source.pipeLines (String.ofList text)) = .ok piped := by
    rw [Source.pipeLines, String.toList_ofList]
    exact hpiped
  have hfileLines : Processor.withoutMark (Source.fileLines bytes) = .ok filed := by
    rw [Source.fileLines, hfile]
    exact hfiled
  refine ⟨_, _, _, _, w', make_of_readLines hs hdash hpipeLines,
    make_of_readLines hs (readLines_path hw hpath) hfileLines, rfl, rfl, ?_, ?_⟩
  · rw [hplain]
    exact hlines
  · intro hends hnames
    rw [← hlines.mpr (hplain.mp hends)]
    exact ⟨rfl, runChecks_freshChecker hfault hnames⟩

def plainSettings : Settings :=
  ⟨[("stdin_display_name", .text "stdin"), ("hang_closing", .none), ("max_line_length", .int 79),
    ("verbose", .int 0)]⟩

def offering (content : String) : World :=
  { tree := ⟨.directory [("a.py", .ofBytes content.toUTF8.toList)], "/"⟩
    stdin := content.toUTF8.toList }

def everyLine : Checks :=
  { physicalLines :=
      [⟨"every_line", .text "X", [("physical_line", true)], fun _ =>
        ⟨.ok (.results (.lone [.int 0, .text "X100 a line"])), none⟩⟩] }

/-- A form feed at the very end of a text is in the same line either way. -/
theorem piped_lines_eq_before_formFeed :
    ∃ c d p q w', FileChecker.make plainSettings everyLine (.text "-") (offering "x = 1\n\x0c") =
        (.ok c, w') ∧
      FileChecker.make plainSettings everyLine (.text "a.py") (offering "x = 1\n\x0c") =
        (.ok d, offering "x = 1\n\x0c") ∧
      c.processor = some p ∧ d.processor = some q ∧ p.lines = q.lines ∧
      (FileChecker.runChecks.run c).2.results = (FileChecker.runChecks.run d).2.results := by
  have hs : plainSettings.Equipped := by
    unfold Settings.Equipped
    decide
  have hw : (offering "x = 1\n\x0c").Offers "a.py" "x = 1\n\x0c".toUTF8.toList :=
    ⟨rfl, fun _ h => absurd h (by simp [offering]), rfl⟩
  have hdec : Source.decodeUtf8 "x = 1\n\x0c".toUTF8.toList = some "x = 1\n\x0c".toList := by
    decide +kernel
  have hnone : everyLine.NoneAsksName := by
    unfold Checks.NoneAsksName
    decide
  have hends : Text.PlainEnds "x = 1\n\x0c".toList := by decide
  obtain ⟨c, d, p, q, w', hc, hd, hp, hq, hlines, hchecked⟩ :=
    piped_lines_eq_iff hs hw (by decide) hdec (by decide +kernel) everyLine
  exact ⟨c, d, p, q, w', hc, hd, hp, hq, hlines.mpr hends, (hchecked hends (.inr hnone)).2.2⟩

/-- A form feed that stands alone in its line is a line of its own only on standard input. -/
theorem formFeed_ends_piped_line :
    ((openFile plainSettings (.text "-") none (offering "x = 1\n\x0c\ny = 2\n")).1.toOption.map
        (·.lines)) = some ["x = 1\n", "\x0c", "\n", "y = 2\n"] ∧
      ((openFile plainSettings (.text "a.py") none (offering "x = 1\n\x0c\ny = 2\n")).1.toOption.map
        (·.lines)) = some ["x = 1\n", "\x0c\n", "y = 2\n"] ∧
      (Source.decodeUtf8 "x = 1\n\x0c\ny = 2\n".toUTF8.toList).isSome = true ∧
      Source.Unannounced "x = 1\n\x0c\ny = 2\n".toUTF8.toList := by
  decide +kernel

end Check

end LintRunner
