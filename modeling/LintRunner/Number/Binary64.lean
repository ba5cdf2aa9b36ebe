import LintRunner.Number.Numeral
import LintRunner.Text.Basic

/-!
# Double-precision numbers and their decimal text

A number is kept as its 64 bits, so equality is decidable. A finite one is `m * 2^q` exactly; its
text is found by exact arithmetic on natural numbers. The default text has the fewest digits that
read back as the same number, and of those the nearest; it is positional from 0.0001 up to, but not
including, 10^16. The general text rounds to a given number of significant digits.
-/

namespace LintRunner

structure Binary64 where
  bits : UInt64
deriving DecidableEq, Inhabited, Repr

namespace Binary64

def ofFloat (x : Float) : Binary64 := ⟨x.toBits⟩

def toFloat (x : Binary64) : Float := Float.ofBits x.bits

def ofInt (n : Int) : Binary64 :=
  ofFloat (if n < 0 then -(Float.ofNat n.natAbs) else Float.ofNat n.natAbs)

def negative (x : Binary64) : Bool := x.bits.toNat / Nat.pow 2 63 = 1

def exponentBits (x : Binary64) : Nat := x.bits.toNat / Nat.pow 2 52 % Nat.pow 2 11

def fractionBits (x : Binary64) : Nat := x.bits.toNat % Nat.pow 2 52

def isInfinite (x : Binary64) : Bool := x.exponentBits = 2047 && x.fractionBits = 0

def isNaN (x : Binary64) : Bool := x.exponentBits = 2047 && x.fractionBits ≠ 0

def isZero (x : Binary64) : Bool := x.exponentBits = 0 && x.fractionBits = 0

def significand (x : Binary64) : Nat :=
  if x.exponentBits = 0 then x.fractionBits else Nat.pow 2 52 + x.fractionBits

def scale (x : Binary64) : Int :=
  if x.exponentBits = 0 then -1074 else (x.exponentBits : Int) - 1075

def add (x y : Binary64) : Binary64 := ofFloat (x.toFloat + y.toFloat)

def sub (x y : Binary64) : Binary64 := ofFloat (x.toFloat - y.toFloat)

def div (x y : Binary64) : Binary64 := ofFloat (x.toFloat / y.toFloat)

/-- A finite number without what follows its point. -/
def truncate (x : Binary64) : Int :=
  let n := if 0 ≤ x.scale then x.significand * Nat.pow 2 x.scale.toNat
    else x.significand / Nat.pow 2 (-x.scale).toNat
  if x.negative then -(n : Int) else n

structure Fraction where
  num : Nat
  den : Nat

def Fraction.scaled (m : Nat) (q : Int) : Fraction :=
  if 0 ≤ q then ⟨m * Nat.pow 2 q.toNat, 1⟩ else ⟨m, Nat.pow 2 (-q).toNat⟩

def Fraction.decimal (m : Nat) (e : Int) : Fraction :=
  if 0 ≤ e then ⟨m * Nat.pow 10 e.toNat, 1⟩ else ⟨m, Nat.pow 10 (-e).toNat⟩

def Fraction.le (a b : Fraction) : Bool := a.num * b.den ≤ b.num * a.den

def Fraction.lt (a b : Fraction) : Bool := a.num * b.den < b.num * a.den

def digitCount (n : Nat) : Nat := (Nat.toDigits 10 n).length

/-- The exponent `e` with `10^e ≤ v < 10^(e+1)`, for `v` positive. -/
def Fraction.magnitude (v : Fraction) : Int :=
  let e : Int := (digitCount v.num : Int) - digitCount v.den
  if Fraction.le (Fraction.decimal 1 e) v then e else e - 1

/-- `v / 10^e` rounded down, with twice the remainder compared to the unit. -/
def Fraction.onGrid (v : Fraction) (e : Int) : Nat × Ordering :=
  let num := if 0 ≤ e then v.num else v.num * Nat.pow 10 (-e).toNat
  let den := if 0 ≤ e then v.den * Nat.pow 10 e.toNat else v.den
  (num / den, compare (2 * (num % den)) den)

structure Decimal where
  digits : Nat
  exponent : Int

/-- `v` rounded to `n` significant digits, a tie going to the even neighbour. -/
def Fraction.round (v : Fraction) (n : Nat) : Decimal :=
  let e := v.magnitude - (n : Int) + 1
  let (d, tie) := v.onGrid e
  let d := match tie with
    | .lt => d
    | .gt => d + 1
    | .eq => if d % 2 = 0 then d else d + 1
  if d = Nat.pow 10 n then ⟨Nat.pow 10 (n - 1), e + 1⟩ else ⟨d, e⟩

/-- The reals that read back as `x` lie between these two; the ends count iff the significand is
even. -/
def neighbours (x : Binary64) : Fraction × Fraction :=
  let m := x.significand
  let q := x.scale
  let below :=
    if m = Nat.pow 2 52 && 1 < x.exponentBits then Fraction.scaled (4 * m - 1) (q - 2)
    else Fraction.scaled (2 * m - 1) (q - 1)
  (below, Fraction.scaled (2 * m + 1) (q - 1))

def readsBack (x : Binary64) (d : Fraction) : Bool :=
  let (lo, hi) := x.neighbours
  if x.significand % 2 = 0 then Fraction.le lo d && Fraction.le d hi
  else Fraction.lt lo d && Fraction.lt d hi

/-- The decimal with the fewest digits, from `n` on, that reads back as `x`. -/
def shortestFrom (x : Binary64) : (fuel n : Nat) → Decimal
  | 0, n => (Fraction.scaled x.significand x.scale).round n
  | fuel + 1, n =>
    let v := Fraction.scaled x.significand x.scale
    let e := v.magnitude - (n : Int) + 1
    let (d, tie) := v.onGrid e
    let low := x.readsBack (Fraction.decimal d e) && d ≠ 0
    let high := x.readsBack (Fraction.decimal (d + 1) e)
    if low && high then
      match tie with
      | .lt => ⟨d, e⟩
      | .gt => ⟨d + 1, e⟩
      | .eq => if d % 2 = 0 then ⟨d, e⟩ else ⟨d + 1, e⟩
    else if low then ⟨d, e⟩
    else if high then ⟨d + 1, e⟩
    else shortestFrom x fuel (n + 1)

def shortest (x : Binary64) : Decimal := shortestFrom x 16 1

/-- The digits without trailing zeros, and the power of ten of the first digit. -/
def Decimal.normal (d : Decimal) : List Char × Int :=
  let ds := Nat.toDigits 10 d.digits
  let trimmed := Text.dropTrailing (· == '0') ds
  (trimmed, d.exponent + ds.length - 1)

/-- The exponent part of scientific text: a sign and at least two digits. -/
def exponentText (e : Int) : List Char :=
  let ds := Nat.toDigits 10 e.natAbs
  'e' :: (if e < 0 then '-' else '+') :: (if ds.length < 2 then '0' :: ds else ds)

/-- Positional text of digits whose first one has the power of ten `e`, with a point and at least
one digit after it. -/
def positional (ds : List Char) (e : Int) : List Char :=
  if e < 0 then '0' :: '.' :: List.replicate (-e - 1).toNat '0' ++ ds
  else
    let whole := e.toNat + 1
    let padded := ds ++ List.replicate (whole - ds.length) '0'
    let frac := padded.drop whole
    padded.take whole ++ '.' :: (if frac.isEmpty then ['0'] else frac)

/-- Scientific text; the point stands only before further digits. -/
def scientific (ds : List Char) (e : Int) : List Char :=
  match ds with
  | [] => '0' :: exponentText e
  | [d] => d :: exponentText e
  | d :: rest => d :: '.' :: rest ++ exponentText e

/-- The text of zero, an infinity or a non-number, which have no digits to choose. -/
def special? (x : Binary64) : Option (List Char) :=
  if x.isNaN then some "nan".toList
  else if x.isInfinite then some ((if x.negative then "-inf" else "inf").toList)
  else if x.isZero then some ((if x.negative then "-0.0" else "0.0").toList)
  else none

def text (x : Binary64) : String :=
  match x.special? with
  | some cs => String.ofList cs
  | none =>
    let (ds, e) := x.shortest.normal
    let body := if -4 ≤ e && e < 16 then positional ds e else scientific ds e
    String.ofList (if x.negative then '-' :: body else body)

/-- The text with at most `p` significant digits: scientific when the first digit stands at or
before the last of them, or below 0.0001. -/
def general (x : Binary64) (p : Nat) : String :=
  match x.special? with
  | some cs => String.ofList cs
  | none =>
    let (ds, e) := ((Fraction.scaled x.significand x.scale).round p).normal
    let body := if -4 ≤ e && e + 1 < (p : Int) then positional ds e else scientific ds e
    String.ofList (if x.negative then '-' :: body else body)

/-- The number nearest to `m * 10^e`; beyond the range it is an infinity or zero. -/
def ofDecimal (negative : Bool) (m : Nat) (e : Int) : Binary64 :=
  let size : Int := digitCount m + e
  let magnitude : Float :=
    if m = 0 || size < -400 then 0.0
    else if 400 < size then Float.ofScientific 1 false 400
    else if e < 0 then Float.ofScientific m true e.natAbs
    else Float.ofScientific m false e.natAbs
  ofFloat (if negative then -magnitude else magnitude)

def takeDigits (cs : List Char) : List Char × List Char := cs.span Char.isDigit

/-- The exponent part of a decimal numeral, if one stands here; gives its value and the rest. -/
def takeExponent (cs : List Char) : Int × List Char :=
  match cs with
  | e :: rest =>
    if e = 'e' || e = 'E' then
      let (neg, body) := match rest with
        | '-' :: r => (true, r)
        | '+' :: r => (false, r)
        | r => (false, r)
      let (ds, tail) := takeDigits body
      if ds.isEmpty then (0, cs)
      else
        let v : Int := Text.digitsValue ds
        (if neg then -v else v, tail)
    else (0, cs)
  | [] => (0, cs)

def asciiLower (cs : List Char) : List Char := cs.map Char.toLower

def readUnsigned? (negative : Bool) (cs : List Char) : Option (Binary64 × List Char) :=
  let signed (x : Float) : Binary64 := ofFloat (if negative then -x else x)
  let low := asciiLower (cs.take 8)
  if "infinity".toList.isPrefixOf low then some (signed (1.0 / 0.0), cs.drop 8)
  else if "inf".toList.isPrefixOf low then some (signed (1.0 / 0.0), cs.drop 3)
  else if "nan".toList.isPrefixOf low then some (⟨0x7ff8000000000000⟩, cs.drop 3)
  else
    let (whole, rest) := takeDigits cs
    let (frac, rest) := match rest with
      | '.' :: r => takeDigits r
      | r => ([], r)
    if whole.isEmpty && frac.isEmpty then none
    else
      let (e, rest) := takeExponent rest
      some (ofDecimal negative (Text.digitsValue (whole ++ frac)) (e - frac.length), rest)

def readSigned? (cs : List Char) : Option (Binary64 × List Char) :=
  match cs with
  | '-' :: r => readUnsigned? true r
  | '+' :: r => readUnsigned? false r
  | r => readUnsigned? false r

def ofText? (s : String) : Option Binary64 := do
  let cs ← Numeral.join? (Text.dropEnds Numeral.isSpace (Numeral.plain s))
  match readSigned? cs with
  | some (x, []) => some x
  | _ => none

end Binary64

end LintRunner
