import LintRunner.Number.Binary64

/-!
# Reading complex numbers

A complex number is written as a real part, an imaginary part with a `j`, or both, perhaps in
parentheses and with blanks around it. A sign alone before the `j` means one.
-/

namespace LintRunner.Complex

def isMark (c : Char) : Bool := c == 'j' || c == 'J'

def unit (negative : Bool) : Binary64 := Binary64.ofInt (if negative then -1 else 1)

def readImaginary? (cs : List Char) : Option (Binary64 × List Char) :=
  let close (y : Binary64) (rest : List Char) : Option (Binary64 × List Char) :=
    match rest with
    | c :: rest => if isMark c then some (y, rest) else none
    | [] => none
  match Binary64.readSigned? cs with
  | some (y, rest) => close y rest
  | none =>
    match cs with
    | '+' :: rest => close (unit false) rest
    | '-' :: rest => close (unit true) rest
    | rest => close (unit false) rest

def readParts? (cs : List Char) : Option ((Binary64 × Binary64) × List Char) :=
  let zero := Binary64.ofInt 0
  match Binary64.readSigned? cs with
  | some (x, c :: rest) =>
    if c = '+' || c = '-' then (readImaginary? (c :: rest)).map fun (y, rest) => ((x, y), rest)
    else if isMark c then some ((zero, x), rest)
    else some ((x, zero), c :: rest)
  | some (x, []) => some ((x, zero), [])
  | none => (readImaginary? cs).map fun (y, rest) => ((zero, y), rest)

def ofJoined? (cs : List Char) : Option (Binary64 × Binary64) :=
  let skip := List.dropWhile Numeral.isSpace
  match skip cs with
  | '(' :: cs =>
    match readParts? (skip cs) with
    | some (z, rest) =>
      match skip rest with
      | ')' :: rest => if (skip rest).isEmpty then some z else none
      | _ => none
    | none => none
  | cs =>
    match readParts? cs with
    | some (z, rest) => if (skip rest).isEmpty then some z else none
    | none => none

def ofText? (s : String) : Option (Binary64 × Binary64) :=
  (Numeral.join? (Numeral.plain s)).bind ofJoined?

end LintRunner.Complex
