import LintRunner.Fault
import LintRunner.Source.Token

/-!
# Logical lines

The tokens of a statement, joined into one line: comments are left out, strings are muted, and text
between tokens of a row is kept. A mapping tells where each token ends, so that an offset into the
logical line can be traced back to a place in the source.
-/

namespace LintRunner.Source

/-- The element at a position; a negative position counts from the end. -/
def elementAt? {α : Type} (xs : List α) (i : Int) : Option α :=
  if 0 ≤ i then xs[i.toNat]?
  else if (-i).toNat ≤ xs.length then xs[xs.length - (-i).toNat]?
  else none

/-- The position of a slice's end: negative ones count from the end of the text. -/
def sliceIndex (length : Nat) (i : Int) : Nat :=
  if 0 ≤ i then min i.toNat length else length - (-i).toNat

def slice (cs : List Char) (i j : Int) : List Char :=
  (cs.take (sliceIndex cs.length j)).drop (sliceIndex cs.length i)

/-- The width of the blanks at the start of a line. Without tabs every kind of blank counts one;
otherwise tabs reach to the next multiple of eight and only spaces count beside them. -/
def indentWidth (line : List Char) : Nat :=
  if line.contains '\t' then tabbed 0 line
  else (line.takeWhile Text.isBlank).length
where
  tabbed (width : Nat) : List Char → Nat
    | '\t' :: cs => tabbed (width / 8 * 8 + 8) cs
    | ' ' :: cs => tabbed (width + 1) cs
    | _ => width

def endsInThree (text : List Char) : Bool :=
  let ending := text.drop (text.length - 3)
  ending = ['"', '"', '"'] || ending = ['\'', '\'', '\'']

/-- A string literal with its content replaced by as many `x`. What stands up to the first
occurrence of the closing quote is kept, three quotes at the end count as one mark; an empty text
has no quote. -/
def mute? (text : List Char) : Option (List Char) :=
  match text.getLast? with
  | none => none
  | some quote =>
    let more := if endsInThree text then 2 else 0
    let start := (text.takeWhile (· != quote)).length + 1 + more
    let stop := text.length - 1 - more
    some (text.take start ++ List.replicate (stop - start) 'x' ++ text.drop stop)

def Token.shown (t : Token) : Except Fault String :=
  if t.kind = .string then
    match mute? t.text.toList with
    | some cs => .ok (String.ofList cs)
    | none => .error Fault.badIndex
  else .ok t.text

/-- An offset into a logical line and the place in the source where it ends. -/
abbrev Mapping := List (Int × Pos)

structure LogicalParts where
  comments : List String := []
  pieces : List String := []
  length : Nat := 0
  last : Option Pos := none
  mapping : Mapping := []
deriving Repr, Inhabited

/-- What separates a token from the one before: a space when it starts a new row, unless a bracket
was just opened or is closed here, and the text between them on one row. -/
def separator (lines : List String) (last : Pos) (text : String) (t : Token) :
    Except Fault String :=
  if last.row = 0 then .ok ""
  else if last.row ≠ t.start.row then
    match (elementAt? lines (last.row - 1)).bind fun l => elementAt? l.toList (last.col - 1) with
    | none => .error Fault.badIndex
    | some c =>
      let opened := c = '\x7b' || c = '[' || c = '('
      let closes := Text.contains "\x7d])" text
      .ok (if c = ',' || (!opened && !closes) then " " else "")
  else if last.col ≠ t.start.col then
    .ok (String.ofList (slice t.line.toList last.col t.start.col))
  else .ok ""

/-- What separates a token from those that gave pieces before it, if there are any. -/
def LogicalParts.gap (lines : List String) (p : LogicalParts) (text : String) (t : Token) :
    Except Fault String :=
  match p.last with
  | some last => separator lines last text t
  | none => .ok ""

def LogicalParts.opened (p : LogicalParts) (t : Token) : Mapping :=
  if p.mapping.isEmpty then [(0, t.start)] else p.mapping

def LogicalParts.add (lines : List String) (p : LogicalParts) (t : Token) :
    Except Fault LogicalParts :=
  if t.isLayout then .ok p
  else if t.kind = .comment then
    .ok { p with mapping := p.opened t, comments := p.comments ++ [t.text] }
  else do
    let text ← t.shown
    let before ← p.gap lines text t
    let piece := before ++ text
    let length := p.length + piece.length
    return { p with
      pieces := p.pieces ++ [piece], length := length, last := some t.stop,
      mapping := p.opened t ++ [((length : Int), t.stop)] }

def logicalParts (lines : List String) (tokens : List Token) : Except Fault LogicalParts :=
  tokens.foldlM (LogicalParts.add lines) {}

def LogicalParts.line (p : LogicalParts) : String := Text.joinWith "" p.pieces

def LogicalParts.comment (p : LogicalParts) : String := Text.joinWith "" p.comments

def entryFor (fits : Int → Bool) : Mapping → Option (Int × Pos)
  | [] => none
  | [e] => some e
  | e :: rest => if fits e.1 then some e else entryFor fits rest

/-- The place in the source of an offset into a logical line: counted back from the end of the first
token that does not end before it, or from the last one. -/
def placeOf (offset : Int) (mapping : Mapping) : Option Pos :=
  (entryFor (offset ≤ ·) mapping).map fun (stop, p) => ⟨p.row, p.col + offset - stop⟩

end LintRunner.Source
