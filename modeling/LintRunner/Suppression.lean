import LintRunner.Text.Basic

/-!
# Comments that suppress reports

A comment `# noqa` on a line suppresses reports for that line: all of them, or those whose codes it
lists. A comment `# flake8: noqa` that stands alone on a line suppresses a whole file.
-/

namespace LintRunner.Suppression

/-- Equality of a character with a small ASCII letter, case ignored; the long s and the Kelvin sign
are other forms of `s` and `k`. -/
def sameLetter (small c : Char) : Bool :=
  c.toLower == small || (small == 'k' && c.toNat == 0x212a) || (small == 's' && c.toNat == 0x17f)

def afterWord? : List Char → List Char → Option (List Char)
  | [], cs => some cs
  | w :: ws, c :: cs => if sameLetter w c then afterWord? ws cs else none
  | _ :: _, [] => none

/-- A letter of a code: a Latin letter of either case, or a character that differs from one only in
case. -/
def isCodeLetter (c : Char) : Bool :=
  c.isAlpha || [0x130, 0x131, 0x17f, 0x212a].contains c.toNat

def isSeparator (c : Char) : Bool := c == ',' || Text.isBlank c

/-- Length of the codes at the start of the text: a letter and digits, and what separates it from the
next, as often as they follow each other. `fuel` is at least the length of the text. -/
def codesRun : (fuel : Nat) → List Char → Nat
  | fuel + 1, c :: cs =>
    let digits := (cs.takeWhile Char.isDigit).length
    if isCodeLetter c && 0 < digits then
      let rest := cs.drop digits
      let gap := (rest.takeWhile isSeparator).length
      1 + digits + gap + codesRun fuel (rest.drop gap)
    else 0
  | _, _ => 0

/-- The list of codes after a suppressing comment: a colon, at most one blank, and the codes. Gives
the codes as written and the number of characters. -/
def codeList? (cs : List Char) : Option (List Char × Nat) :=
  match cs with
  | ':' :: rest =>
    let lead := match rest with
      | c :: _ => if Text.isBlank c then 1 else 0
      | [] => 0
    let body := rest.drop lead
    let n := codesRun body.length body
    if n = 0 then none else some (body.take n, 1 + lead + n)
  | _ => none

/-- A suppressing comment: where it starts and stops, and the codes that it lists. -/
structure Mark where
  start : Nat
  stop : Nat
  codes : Option String
deriving DecidableEq, Repr

/-- The first suppressing comment, in a text that starts at position `pos`. -/
def markFrom? (pos : Nat) : List Char → Option Mark
  | [] => none
  | c :: cs =>
    match afterWord? "# noqa".toList (c :: cs) with
    | some rest =>
      match codeList? rest with
      | some (codes, n) => some ⟨pos, pos + 6 + n, some (String.ofList codes)⟩
      | none => some ⟨pos, pos + 6, none⟩
    | none => markFrom? (pos + 1) cs

def mark? (line : String) : Option Mark := markFrom? 0 line.toList

def Mark.suppresses (m : Mark) (code : String) : Bool :=
  match m.codes with
  | none => true
  | some written => (Text.items .commaOrBlank written).any fun c => Text.startsWith code c

def lineSuppresses (line code : String) : Bool :=
  match mark? line with
  | some m => m.suppresses code
  | none => false

/-- Length of a file-suppressing comment at the start of the text, with the blanks before it. -/
def fileMarkRun? (cs : List Char) : Option Nat := do
  let body := cs.dropWhile Text.isBlank
  let rest ← afterWord? "# flake8".toList body
  match rest with
  | sep :: rest =>
    if sep = ':' || sep = '=' then
      let after ← afterWord? "noqa".toList (rest.dropWhile Text.isBlank)
      return cs.length - after.length
    else none
  | [] => none

/-- The first file-suppressing comment anywhere: where it starts and stops. -/
def fileMarkFrom? (pos : Nat) : List Char → Option (Nat × Nat)
  | [] => none
  | c :: cs =>
    match fileMarkRun? (c :: cs) with
    | some n => some (pos, pos + n)
    | none => fileMarkFrom? (pos + 1) cs

def fileMarkAtStart? (line : String) : Option (Nat × Nat) :=
  (fileMarkRun? line.toList).map fun n => (0, n)

def fileMark? (line : String) : Option (Nat × Nat) := fileMarkFrom? 0 line.toList

def fileSuppressed (lines : List String) : Bool :=
  lines.any fun line => (fileMarkAtStart? line).isSome

end LintRunner.Suppression
