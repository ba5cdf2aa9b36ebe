/-!
# Blank characters

Whitespace in the wide sense: controls that move the cursor, the information separators, and every
space and line separator of Unicode. Trimming removes it from the ends of a text. A table of code
points is a list of closed ranges in increasing order, or the lengths of the runs of code points
without and with a property, in turn.
-/

namespace LintRunner.Text

/-- Membership of `n` in one of the ranges, which stand in increasing order. -/
def inRanges : List (Nat × Nat) → Nat → Bool
  | [], _ => false
  | (lo, hi) :: rest, n => if n < lo then false else if n ≤ hi then true else inRanges rest n

/-- Membership of `n` in a run of code points with the property, counted from where the runs
start. -/
def inRuns : List Nat → Nat → Bool
  | without :: within :: rest, n =>
    if n < without then false
    else if n < without + within then true
    else inRuns rest (n - (without + within))
  | _, _ => false

def blankRanges : List (Nat × Nat) :=
  [(0x9, 0xd), (0x1c, 0x20), (0x85, 0x85), (0xa0, 0xa0), (0x1680, 0x1680), (0x2000, 0x200a),
   (0x2028, 0x2029), (0x202f, 0x202f), (0x205f, 0x205f), (0x3000, 0x3000)]

def isBlank (c : Char) : Bool := inRanges blankRanges c.toNat

theorem isBlank_of_visible {c : Char} (hlow : 0x20 < c.toNat) (hhigh : c.toNat < 0x7f) :
    isBlank c = false := by
  simp only [isBlank, inRanges, blankRanges]
  simp
  omega

/-- A blank that may stand between the tokens of a line: a space, a tab or a form feed. -/
def isInlineBlank (c : Char) : Bool := c == ' ' || c == '\t' || c == '\x0c'

def dropLeading (p : Char → Bool) (cs : List Char) : List Char := cs.dropWhile p

def dropTrailing (p : Char → Bool) (cs : List Char) : List Char :=
  (cs.reverse.dropWhile p).reverse

def dropEnds (p : Char → Bool) (cs : List Char) : List Char :=
  dropTrailing p (dropLeading p cs)

theorem dropWhile_of_head {p : Char → Bool} {cs : List Char}
    (h : ∀ c ∈ cs.head?, p c = false) : cs.dropWhile p = cs := by
  cases cs with
  | nil => rfl
  | cons c cs => simp [h c rfl]

theorem dropEnds_of_forall_not {p : Char → Bool} {cs : List Char} (h : ∀ c ∈ cs, p c = false) :
    dropEnds p cs = cs := by
  have hhead : ∀ c ∈ cs.head?, p c = false := fun c hc => h c (List.mem_of_mem_head? hc)
  have hlast : ∀ c ∈ cs.reverse.head?, p c = false := fun c hc =>
    h c (List.mem_reverse.mp (List.mem_of_mem_head? hc))
  rw [dropEnds, dropLeading, dropTrailing, dropWhile_of_head hhead, dropWhile_of_head hlast,
    List.reverse_reverse]

def trim (s : String) : String := String.ofList (dropEnds isBlank s.toList)

def trimEnd (s : String) : String := String.ofList (dropTrailing isBlank s.toList)

theorem dropTrailing_append (p : Char → Bool) (cs : List Char) :
    dropTrailing p cs ++ (cs.reverse.takeWhile p).reverse = cs := by
  rw [dropTrailing, ← List.reverse_append, List.takeWhile_append_dropWhile, List.reverse_reverse]

end LintRunner.Text
