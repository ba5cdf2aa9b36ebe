import LintRunner.Text.Basic

/-!
# Tokens of a file-to-codes mapping

The text of a mapping is cut into file names, codes, colons, commas and blanks. At each place the
first kind that fits takes as much as it can: a code is a capital letter and the digits after it, a
file name is a run without blanks, colons and commas; colons and commas take the blanks around them.
-/

namespace LintRunner.PerFile

inductive TokenKind where
  | code
  | file
  | colon
  | comma
  | blank
  | finish
deriving DecidableEq, Repr

def TokenKind.name : TokenKind → String
  | code => "code"
  | file => "file"
  | colon => "colon"
  | comma => "comma"
  | blank => "ws"
  | finish => "eof"

/-- A token; its text is without the blanks around it. -/
structure Token where
  kind : TokenKind
  text : String
deriving DecidableEq, Repr

def isCapital (c : Char) : Bool := 'A' ≤ c && c ≤ 'Z'

def isPlainDigit (c : Char) : Bool := '0' ≤ c && c ≤ '9'

def isFileChar (c : Char) : Bool := !(Text.isBlank c || c == ':' || c == ',')

/-- A mark with the blanks before it, at the start of the text; gives what follows, without the
blanks there. -/
def mark? (mark : Char) (cs : List Char) : Option (List Char) :=
  match cs.dropWhile Text.isBlank with
  | [] => none
  | c :: rest => if c = mark then some (rest.dropWhile Text.isBlank) else none

/-- The token at the start of a non-empty text, and what follows it. -/
def next (c : Char) (cs : List Char) : Token × List Char :=
  if isCapital c then
    (⟨.code, String.ofList (c :: cs.takeWhile isPlainDigit)⟩, cs.dropWhile isPlainDigit)
  else if isFileChar c then
    (⟨.file, String.ofList (c :: cs.takeWhile isFileChar)⟩, cs.dropWhile isFileChar)
  else
    match mark? ':' (c :: cs) with
    | some rest => (⟨.colon, ":"⟩, rest)
    | none =>
      match mark? ',' (c :: cs) with
      | some rest => (⟨.comma, ","⟩, rest)
      | none => (⟨.blank, ""⟩, cs.dropWhile Text.isBlank)

theorem length_dropWhile_le (p : Char → Bool) (cs : List Char) :
    (cs.dropWhile p).length ≤ cs.length :=
  (List.dropWhile_suffix p).length_le

theorem mark?_shorter {mark : Char} {cs rest : List Char} (h : mark? mark cs = some rest) :
    rest.length < cs.length := by
  unfold mark? at h
  have hle := length_dropWhile_le Text.isBlank cs
  cases hd : cs.dropWhile Text.isBlank with
  | nil => simp [hd] at h
  | cons c tail =>
    simp only [hd] at h
    split at h
    · cases h
      have := length_dropWhile_le Text.isBlank tail
      rw [hd] at hle
      simp only [List.length_cons] at hle
      omega
    · cases h

theorem next_shorter (c : Char) (cs : List Char) : (next c cs).2.length < (c :: cs).length := by
  unfold next
  split
  · have := length_dropWhile_le isPlainDigit cs
    simp only [List.length_cons]; omega
  · split
    · have := length_dropWhile_le isFileChar cs
      simp only [List.length_cons]; omega
    · split
      · next h => exact mark?_shorter h
      · split
        · next h => exact mark?_shorter h
        · have := length_dropWhile_le Text.isBlank cs
          simp only [List.length_cons]; omega

/-- The tokens of a text, without the final one. -/
def scan : List Char → List Token
  | [] => []
  | c :: cs => (next c cs).1 :: scan (next c cs).2
termination_by cs => cs.length
decreasing_by exact next_shorter c cs

def tokens (s : String) : List Token := scan s.toList ++ [⟨.finish, ""⟩]

end LintRunner.PerFile
