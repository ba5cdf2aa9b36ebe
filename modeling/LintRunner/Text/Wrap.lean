import LintRunner.Text.Blank
import LintRunner.Text.Digit
import LintRunner.Text.Word

/-!
# Wrapped paragraphs

A paragraph is cut into chunks, which are runs of spaces, words, and parts of words that end in a
hyphen, and the chunks are laid out on lines of a given width. Chunks never lose a character; lines
lose the spaces at their ends.
-/

namespace LintRunner.Text

def isWrapSpace (c : Char) : Bool := c == ' ' || (9 ≤ c.toNat && c.toNat ≤ 13)

/-- Replaces tabs by spaces up to the next multiple of eight; `column` is where the text stands. -/
def expandTabs (column : Nat) : List Char → List Char
  | [] => []
  | c :: rest =>
    if c = '\t' then List.replicate (8 - column % 8) ' ' ++ expandTabs 0 rest
    else if c = '\n' || c = '\r' then c :: expandTabs 0 rest
    else c :: expandTabs (column + 1) rest

/-- A paragraph on one line: tabs are expanded and all other space is a plain space. -/
def flattened (s : String) : List Char :=
  (expandTabs 0 s.toList).map fun c => if isWrapSpace c then ' ' else c

def isLetter (c : Char) : Bool := isWord c && !isDecimal c

def isBeforeDash (c : Char) : Bool :=
  isWord c || c == '!' || c == '"' || c == '\'' || c == '&' || c == '.' || c == ',' || c == '?'

/-- A hyphen may end a chunk: letters stand before it, the nearest first in `before`, and a word of
at least two letters, or a hyphenated letter, follows. -/
def hyphenBreaks (before after : List Char) : Bool :=
  (match before with
    | a :: b :: rest =>
      (isLetter a && isLetter b) ||
        (isLetter a && b == '-' && (rest.head?.map isLetter).getD false)
    | _ => false) &&
  (match after with
    | a :: b :: rest =>
      (isLetter a && isLetter b) ||
        (isLetter a && b == '-' && (rest.head?.map isLetter).getD false)
    | _ => false)

def pauseLength (before after : List Char) : Nat :=
  let dashes := (after.takeWhile (· == '-')).length
  let starts := (before.head?.map isBeforeDash).getD false
  let continues := ((after.drop dashes).head?.map isWord).getD false
  if 2 ≤ dashes && starts && continues then dashes else 0

def wordRest (before : List Char) : List Char → Nat
  | [] => 0
  | c :: rest =>
    if c = '-' && hyphenBreaks before rest then 1
    else if isWrapSpace c then 0
    else if 0 < pauseLength before (c :: rest) then 0
    else wordRest (c :: before) rest + 1

def chunkLength (before : List Char) : List Char → Nat
  | [] => 0
  | c :: rest =>
    if isWrapSpace c then ((c :: rest).takeWhile isWrapSpace).length
    else
      match pauseLength before (c :: rest) with
      | 0 => wordRest (c :: before) rest + 1
      | n => n

def chunksFrom (before after : List Char) : (fuel : Nat) → List (List Char)
  | 0 => []
  | fuel + 1 =>
    match after with
    | [] => []
    | after =>
      let n := chunkLength before after
      after.take n :: chunksFrom ((after.take n).reverse ++ before) (after.drop n) fuel

def chunks (cs : List Char) : List (List Char) := chunksFrom [] cs cs.length

def isBlankChunk (chunk : List Char) : Bool := chunk.all isBlank

/-- Fills a line with the chunks that fit into `room`; gives the chunks of the line and the rest. -/
def fillLine (room : Nat) : List (List Char) → List (List Char) × List (List Char)
  | [] => ([], [])
  | chunk :: rest =>
    if chunk.length ≤ room then
      let (line, rest) := fillLine (room - chunk.length) rest
      (chunk :: line, rest)
    else ([], chunk :: rest)

/-- Where a chunk that fits on no line is broken: after the last hyphen that fits, or where the room
ends. -/
def breakAt (room : Nat) (chunk : List Char) : Nat :=
  if chunk.length ≤ room then room
  else
    let fitting := chunk.take room
    let tail := (fitting.reverse.takeWhile (· != '-')).length
    let hyphen := room - tail - 1
    if tail < room && 0 < hyphen && (chunk.take hyphen).any (· != '-') then hyphen + 1 else room

def layOut (width : Nat) (first : Bool) : (fuel : Nat) → List (List Char) → List (List Char)
  | 0, _ => []
  | _ + 1, [] => []
  | fuel + 1, chunk :: more =>
    let pending := if !first && isBlankChunk chunk then more else chunk :: more
    let (line, rest) := fillLine width pending
    let (line, rest) := match rest with
      | [] => (line, rest)
      | long :: after =>
        if width < long.length then
          let n := breakAt (width - line.flatten.length) long
          (line ++ [long.take n], long.drop n :: after)
        else (line, rest)
    let line := match line.getLast? with
      | some last => if isBlankChunk last then line.dropLast else line
      | none => line
    if line.isEmpty then layOut width first fuel rest
    else line.flatten :: layOut width false fuel rest

def wrap (width : Nat) (s : String) : List String :=
  let cs := flattened s
  (layOut width true (2 * cs.length + 2) (chunks cs)).map String.ofList

end LintRunner.Text
