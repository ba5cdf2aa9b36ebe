import LintRunner.Text.Basic

/-!
# File name patterns

In a pattern a star stands for any text, a question mark for any character and a bracket for one
character of a class; a class may be negated and may hold ranges. A pattern matches a whole name.
-/

namespace LintRunner.Glob

inductive ClassItem where
  | single (c : Char)
  | range (lo hi : Char)
deriving DecidableEq, Repr

inductive Piece where
  | anything
  | anyChar
  | exactly (c : Char)
  | oneOf (negated : Bool) (items : List ClassItem)
deriving DecidableEq, Repr

def ClassItem.holds (c : Char) : ClassItem → Bool
  | single d => c == d
  | range lo hi => lo ≤ c && c ≤ hi

/-- Cuts a class at the hyphens that stand between two characters; `skip` characters cannot be
such a hyphen. A hyphen at the end belongs to the last chunk. -/
def chunksFrom (skip : Nat) (acc : List Char) : List Char → List (List Char)
  | [] => [acc.reverse]
  | c :: cs =>
    if skip = 0 && c = '-' then
      match cs with
      | [] => [(c :: acc).reverse]
      | _ => acc.reverse :: chunksFrom 2 [] cs
    else chunksFrom (skip - 1) (c :: acc) cs

def dropEmptyRanges : List (List Char) → List (List Char)
  | [] => []
  | chunk :: rest =>
    match chunk.getLast?, dropEmptyRanges rest with
    | some lo, (hi :: tail) :: more =>
      if hi < lo then (chunk.dropLast ++ tail) :: more else chunk :: (hi :: tail) :: more
    | _, rest => chunk :: rest

/-- The members of a class: between two chunks stands a range, all else is single. The hyphen after
an empty chunk stands for itself. -/
def classItems : List (List Char) → List ClassItem
  | [] => []
  | [chunk] => chunk.map .single
  | chunk :: next :: rest =>
    match chunk.getLast?, next with
    | some lo, hi :: tail =>
      chunk.dropLast.map .single ++ .range lo hi :: classItems (tail :: rest)
    | _, _ => chunk.map .single ++ .single '-' :: classItems (next :: rest)
termination_by chunks => chunks.length

/-- The class written between brackets. Ranges that hold nothing are dropped first; an exclamation
mark at the start of what is left negates, and by itself stands for any character. -/
def bracketClass (stuff : List Char) : Piece :=
  let lead := if stuff.head? = some '!' then 2 else 1
  match dropEmptyRanges (chunksFrom lead [] stuff) with
  | [['!']] => .anyChar
  | ('!' :: chunk) :: rest => .oneOf true (classItems (chunk :: rest))
  | chunks => .oneOf false (classItems chunks)

/-- The text up to the closing bracket, and what follows it. A bracket right at the start, or right
after the negation, does not close. -/
def closeBracket (cs : List Char) : Option (List Char × List Char) :=
  let (lead, cs) := match cs with
    | '!' :: ']' :: rest => (['!', ']'], rest)
    | ']' :: rest => ([']'], rest)
    | '!' :: rest => (['!'], rest)
    | rest => ([], rest)
  match cs.dropWhile (· != ']') with
  | [] => none
  | _ :: rest => some (lead ++ cs.takeWhile (· != ']'), rest)

/-- The pieces of a pattern; a bracket that is never closed stands for itself. `fuel` is at least
the length of the pattern. -/
def piecesFrom : (fuel : Nat) → List Char → List Piece
  | 0, _ => []
  | _ + 1, [] => []
  | fuel + 1, c :: cs =>
    if c = '*' then .anything :: piecesFrom fuel cs
    else if c = '?' then .anyChar :: piecesFrom fuel cs
    else if c = '[' then
      match closeBracket cs with
      | some (stuff, rest) => bracketClass stuff :: piecesFrom fuel rest
      | none => .exactly c :: piecesFrom fuel cs
    else .exactly c :: piecesFrom fuel cs

def pieces (pattern : String) : List Piece :=
  piecesFrom pattern.toList.length pattern.toList

def Piece.fits (c : Char) : Piece → Bool
  | anything => false
  | anyChar => true
  | exactly d => c == d
  | oneOf negated items => items.any (ClassItem.holds c) != negated

/-- `b || …` over every suffix of a row of truth values. -/
def anyFrom : List Bool → List Bool
  | [] => []
  | b :: bs => (b || bs.any id) :: anyFrom bs

/-- Given which suffixes of the text the later pieces match, which suffixes they match after one
character that fits `p`. -/
def afterChar (p : Piece) : List Char → List Bool → List Bool
  | c :: cs, _ :: b :: bs => (p.fits c && b) :: afterChar p cs (b :: bs)
  | _, _ => [false]

/-- For each suffix of the text, the longest first, whether the pieces match the whole of it. -/
def matchedSuffixes (cs : List Char) : List Piece → List Bool
  | [] => cs.map (fun _ => false) ++ [true]
  | .anything :: ps => anyFrom (matchedSuffixes cs ps)
  | p :: ps => afterChar p cs (matchedSuffixes cs ps)

def accepts (pattern name : String) : Bool :=
  (matchedSuffixes name.toList (pieces pattern)).headD false

/-- Some pattern matches the name; without patterns the answer is `default`. -/
def acceptsAny (patterns : List String) (default : Bool) (name : String) : Bool :=
  if patterns.isEmpty then default else patterns.any (accepts · name)

end LintRunner.Glob
