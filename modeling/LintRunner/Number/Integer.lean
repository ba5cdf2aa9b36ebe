import LintRunner.Number.Numeral

/-!
# Reading integers

Integers in decimal or in another base, with blanks around them, a sign, and single underscores
between digits. Decimal digits of every script count.
-/

namespace LintRunner.Integer

def digit? (base : Nat) (c : Char) : Option Nat :=
  let v :=
    if c.isDigit then some (c.toNat - '0'.toNat)
    else if 'a' ≤ c && c ≤ 'z' then some (c.toNat - 'a'.toNat + 10)
    else if 'A' ≤ c && c ≤ 'Z' then some (c.toNat - 'A'.toNat + 10)
    else none
  v.filter (· < base)

/-- The value of digits with single underscores between them; `acc` is what stands before, and
`needDigit` says that a digit must follow. -/
def digitsFrom? (base acc : Nat) (needDigit : Bool) : List Char → Option Nat
  | [] => if needDigit then none else some acc
  | '_' :: cs => if needDigit then none else digitsFrom? base acc true cs
  | c :: cs =>
    match digit? base c with
    | some v => digitsFrom? base (base * acc + v) false cs
    | none => none

def takeSign : List Char → Bool × List Char
  | '-' :: cs => (true, cs)
  | '+' :: cs => (false, cs)
  | cs => (false, cs)

/-- The sign and the body of a numeral, without the blanks around it. -/
def parts (s : String) : Bool × List Char :=
  takeSign (Text.dropEnds Numeral.isSpace (Numeral.plain s))

def mostDigits : Nat := 4300

/-- The number of digits at the start of a decimal numeral, if they are more than can be read. -/
def tooMany? (s : String) : Option Nat :=
  let run := (parts s).2.takeWhile fun c => c.isDigit || c == '_'
  let count := run.countP Char.isDigit
  if mostDigits < count && (digitsFrom? 10 0 true run).isSome then some count else none

/-- Reads an integer written in a base; hexadecimal, octal and binary numerals may carry their
mark. -/
def ofText? (base : Nat) (s : String) : Option Int :=
  let (neg, body) := parts s
  let mark : Option Char :=
    if base = 16 then some 'x' else if base = 8 then some 'o' else if base = 2 then some 'b'
    else none
  let digits := match body, mark with
    | '0' :: c :: rest, some m =>
      if c.toLower = m then
        match rest with
        | '_' :: r => r
        | r => r
      else body
    | _, _ => body
  (digitsFrom? base 0 true digits).map fun n => if neg then -(n : Int) else n

def ofDecimal? (s : String) : Option Int := if (tooMany? s).isSome then none else ofText? 10 s

end LintRunner.Integer
