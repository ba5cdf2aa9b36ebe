import LintRunner.Text.Blank

/-!
# Cutting and joining texts

Splitting at separators, searching, replacing and padding, on lists of characters with thin
wrappers for `String`; and lists that are written as text. Their items are trimmed, and empty ones
are left out.
-/

namespace LintRunner.Text

/-- What holds of all characters of a text is decided by looking at these, not at all characters
that there are. -/
instance (priority := high) decidableForallMem (p : Char → Prop) [DecidablePred p]
    (cs : List Char) : Decidable (∀ c ∈ cs, p c) :=
  List.decidableBAll p cs

instance (priority := high) decidableForallMem? (p : Char → Prop) [DecidablePred p]
    (c? : Option Char) : Decidable (∀ c ∈ c?, p c) :=
  Option.decidableForallMem c?

/-- Cuts at every character that satisfies `sep`; the pieces may be empty, and there is always one
piece more than there are separators. -/
def splitBy (sep : Char → Bool) : List Char → List (List Char)
  | [] => [[]]
  | c :: cs =>
    if sep c then [] :: splitBy sep cs
    else
      match splitBy sep cs with
      | [] => [[c]]
      | piece :: rest => (c :: piece) :: rest

theorem splitBy_ne_nil (sep : Char → Bool) (cs : List Char) : splitBy sep cs ≠ [] := by
  induction cs with
  | nil => simp [splitBy]
  | cons c cs ih =>
    by_cases h : sep c
    · simp [splitBy, h]
    · simp only [splitBy, h, Bool.false_eq_true, ↓reduceIte]
      cases splitBy sep cs <;> simp

theorem takeWhile_append_stop {p : Char → Bool} {rest : List Char}
    (hrest : ∀ c ∈ rest.head?, p c = false) (cs : List Char) :
    (cs ++ rest).takeWhile p = cs.takeWhile p := by
  induction cs with
  | nil => cases rest <;> simp_all
  | cons c cs ih => cases hc : p c <;> simp [hc, ih]

theorem dropWhile_append_stop {p : Char → Bool} {rest : List Char}
    (hrest : ∀ c ∈ rest.head?, p c = false) (cs : List Char) :
    (cs ++ rest).dropWhile p = cs.dropWhile p ++ rest := by
  induction cs with
  | nil => cases rest <;> simp_all
  | cons c cs ih => cases hc : p c <;> simp [hc, ih]

def splitOnChar (sep : Char) (s : String) : List String :=
  (splitBy (· == sep) s.toList).map String.ofList

/-- The text before the first character that satisfies `sep`, and the text after it if there is
one. -/
def cut (sep : Char → Bool) (cs : List Char) : List Char × Option (List Char) :=
  match cs.dropWhile (fun c => !sep c) with
  | [] => (cs, none)
  | _ :: rest => (cs.takeWhile (fun c => !sep c), some rest)

def afterPrefix? : List Char → List Char → Option (List Char)
  | [], cs => some cs
  | p :: ps, c :: cs => if p = c then afterPrefix? ps cs else none
  | _ :: _, [] => none

theorem afterPrefix?_eq_some_iff {pre cs rest : List Char} :
    afterPrefix? pre cs = some rest ↔ cs = pre ++ rest := by
  induction pre generalizing cs with
  | nil => exact Option.some_inj
  | cons p pre ih =>
    cases cs with
    | nil => simp [afterPrefix?]
    | cons c cs =>
      rw [afterPrefix?, List.cons_append, List.cons.injEq]
      by_cases hp : p = c
      · rw [if_pos hp, ih]
        exact ⟨fun h => ⟨hp.symm, h⟩, And.right⟩
      · rw [if_neg hp]
        exact ⟨fun h => absurd h (by simp), fun h => absurd h.1.symm hp⟩

def startsWith (s pre : String) : Bool := pre.toList.isPrefixOf s.toList

def endsWith (s suf : String) : Bool := suf.toList.isSuffixOf s.toList

def indexOf? (needle : List Char) : List Char → Option Nat
  | [] => if needle.isEmpty then some 0 else none
  | c :: cs => if needle.isPrefixOf (c :: cs) then some 0 else (indexOf? needle cs).map (· + 1)

def contains (s needle : String) : Bool := (indexOf? needle.toList s.toList).isSome

/-- The positions of the non-overlapping occurrences of a non-empty `needle`, left to right;
`skip` characters still belong to the occurrence found last. -/
def occurrencesFrom (needle : List Char) (skip pos : Nat) : List Char → List Nat
  | [] => []
  | c :: cs =>
    if skip = 0 && needle.isPrefixOf (c :: cs) then
      pos :: occurrencesFrom needle (needle.length - 1) (pos + 1) cs
    else occurrencesFrom needle (skip - 1) (pos + 1) cs

/-- Replaces the non-overlapping occurrences of a non-empty `old`, left to right. -/
def replaceFrom (old new : List Char) (skip : Nat) : List Char → List Char
  | [] => []
  | c :: cs =>
    if skip ≠ 0 then replaceFrom old new (skip - 1) cs
    else if old.isPrefixOf (c :: cs) then new ++ replaceFrom old new (old.length - 1) cs
    else c :: replaceFrom old new 0 cs

/-- Replaces every non-overlapping occurrence of `old`, which is not empty. -/
def replace (s old new : String) : String :=
  String.ofList (replaceFrom old.toList new.toList 0 s.toList)

def joinWith (sep : String) (pieces : List String) : String := sep.intercalate pieces

def spaces (n : Nat) : String := String.ofList (List.replicate n ' ')

def padEnd (width : Nat) (s : String) : String := s ++ spaces (width - s.length)

def padStart (width : Nat) (s : String) : String := spaces (width - s.length) ++ s

def take (n : Nat) (s : String) : String := String.ofList (s.toList.take n)

def drop (n : Nat) (s : String) : String := String.ofList (s.toList.drop n)

def lt (a b : String) : Bool := decide (a < b)

def sorted (xs : List String) : List String := xs.mergeSort (fun a b => !lt b a)

def dedup (xs : List String) : List String :=
  xs.foldl (fun acc x => if acc.contains x then acc else acc ++ [x]) []

/-- The hexadecimal digits of `n` in lower case, padded with zeros to `width`. -/
def hexPadded (width n : Nat) : String :=
  let digits := Nat.toDigits 16 n
  String.ofList (List.replicate (width - digits.length) '0' ++ digits)

inductive ItemSeparator where
  | commaOrBlank
  | commaOrLine
deriving DecidableEq, Repr

def ItemSeparator.holds : ItemSeparator → Char → Bool
  | commaOrBlank, c => c == ',' || isBlank c
  | commaOrLine, c => c == ',' || (9 ≤ c.toNat && c.toNat ≤ 13)

def keepItems (pieces : List String) : List String :=
  (pieces.map trim).filter (!·.isEmpty)

def items (sep : ItemSeparator) (s : String) : List String :=
  keepItems ((splitBy sep.holds s.toList).map String.ofList)

end LintRunner.Text
