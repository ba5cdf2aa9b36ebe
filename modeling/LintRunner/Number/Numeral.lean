import LintRunner.Text.Blank
import LintRunner.Text.Digit

/-!
# The plain form of numerals

Numbers are read from a plain form of their text: digits of every script are written as ASCII
digits, and wide blanks as spaces. Underscores may divide digits.
-/

namespace LintRunner.Numeral

def isSpace (c : Char) : Bool := c == ' ' || (9 ≤ c.toNat && c.toNat ≤ 13)

/-- The plain form of characters; it ends with a question mark where none fits. -/
def plainFrom : List Char → List Char
  | [] => []
  | c :: cs =>
    if c.toNat < 127 then c :: plainFrom cs
    else if Text.isBlank c then ' ' :: plainFrom cs
    else
      match Text.digitValue? c with
      | some d => Char.ofNat ('0'.toNat + d) :: plainFrom cs
      | none => ['?']

def plain (s : String) : List Char :=
  if s.toList.all (·.toNat ≤ 127) then s.toList else plainFrom s.toList

/-- The characters without underscores, each of which must stand between two digits; `before` is the
character that stands before them. -/
def joinFrom (before : Char) : List Char → Option (List Char)
  | [] => if before = '_' then none else some []
  | c :: cs =>
    if c = '_' then if before.isDigit then joinFrom c cs else none
    else if before = '_' && !c.isDigit then none
    else (joinFrom c cs).map (c :: ·)

/-- A numeral without its underscores, if all of them divide digits. -/
def join? (cs : List Char) : Option (List Char) :=
  let zero := Char.ofNat 0
  let body := cs.takeWhile (· != zero)
  if !body.contains '_' then some cs
  else if body.length < cs.length then none
  else joinFrom zero cs

end LintRunner.Numeral
