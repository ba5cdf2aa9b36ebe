import LintRunner.Fault

/-!
# Percent templates

A template is text with fields such as `%(path)s` or `%5.2d`: a key in parentheses, flags, a width,
a precision and a conversion. Filling in takes the values from a dictionary or in order from a
sequence. A field without a key in a template that is filled from a dictionary takes the whole
dictionary, once. Two percent signs stand for one.
-/

namespace LintRunner.Template

inductive Source where
  | named (entries : List (String × Value))
  | ordered (values : List Value)

structure Flags where
  left : Bool := false
  plus : Bool := false
  space : Bool := false
  alternate : Bool := false
  zero : Bool := false
deriving Inhabited

/-- The values that fields without a key may still take, and the dictionary for keys. -/
structure Supply where
  entries : Option (List (String × Value))
  values : List Value

def Supply.ofSource : Source → Supply
  | .named entries => ⟨some entries, [.dict entries]⟩
  | .ordered values => ⟨none, values⟩

def Supply.next (s : Supply) : Except Fault (Value × Supply) :=
  match s.values with
  | v :: rest => .ok (v, { s with values := rest })
  | [] => .error Fault.badType

def takeKey (depth : Nat) (acc : List Char) : List Char → Option (List Char × List Char)
  | [] => none
  | '(' :: cs => takeKey (depth + 1) ('(' :: acc) cs
  | ')' :: cs => if depth = 0 then some (acc.reverse, cs) else takeKey (depth - 1) (')' :: acc) cs
  | c :: cs => takeKey depth (c :: acc) cs

def takeFlags (f : Flags) : List Char → Flags × List Char
  | '-' :: cs => takeFlags { f with left := true } cs
  | '+' :: cs => takeFlags { f with plus := true } cs
  | ' ' :: cs => takeFlags { f with space := true } cs
  | '#' :: cs => takeFlags { f with alternate := true } cs
  | '0' :: cs => takeFlags { f with zero := true } cs
  | cs => (f, cs)

def takeNumber (cs : List Char) : Nat × List Char :=
  let ds := cs.takeWhile Char.isDigit
  (ds.foldl (fun n c => 10 * n + (c.toNat - 48)) 0, cs.drop ds.length)

/-- A width or precision given in the template, or taken from the values for a star. One that is
over `most` is too big; `what` names it. -/
def takeSize (what : String) (most : Nat) (s : Supply) (cs : List Char) :
    Except Fault (Option Int × Supply × List Char) :=
  match cs with
  | '*' :: rest => do
    let (v, s) ← s.next
    match v.int? with
    | some n =>
      if n.natAbs ≤ most then return (some n, s, rest) else throw (.raised .overflow [])
    | none => throw Fault.badType
  | c :: _ =>
    if c.isDigit then
      let (n, rest) := takeNumber cs
      if n ≤ most then .ok (some n, s, rest)
      else .error (Fault.badValue (what ++ " too big"))
    else .ok (none, s, cs)
  | [] => .ok (none, s, cs)

def mostWidth : Nat := Nat.pow 2 63 - 1

def mostPrecision : Nat := Nat.pow 2 31 - 1

def mostRoom : Nat := Nat.pow 2 31

def digitsIn (base n : Nat) : List Char := Nat.toDigits base n

structure Numeral where
  negative : Bool
  mark : List Char
  digits : List Char

def integerNumeral (conversion : Char) (alternate : Bool) (precision : Option Nat) (n : Int) :
    Numeral :=
  let base := if conversion = 'o' then 8 else if conversion = 'x' || conversion = 'X' then 16
    else 10
  let raw := digitsIn base n.natAbs
  let padded := List.replicate (precision.getD 0 - raw.length) '0' ++ raw
  let cased := if conversion = 'X' then padded.map Char.toUpper else padded
  let mark := if alternate && base ≠ 10 then ['0', conversion] else []
  ⟨n < 0, mark, cased⟩

/-- Lays a numeral out in a width: zeros go between the sign and the digits, spaces outside. -/
def layNumeral (f : Flags) (width : Nat) (num : Numeral) : List Char :=
  let sign := if num.negative then ['-'] else if f.plus then ['+'] else if f.space then [' ']
    else []
  let length := sign.length + num.mark.length + num.digits.length
  let gap := width - length
  if f.left then sign ++ num.mark ++ num.digits ++ List.replicate gap ' '
  else if f.zero then sign ++ num.mark ++ List.replicate gap '0' ++ num.digits
  else List.replicate gap ' ' ++ sign ++ num.mark ++ num.digits

def layText (f : Flags) (width : Nat) (precision : Option Nat) (cs : List Char) : List Char :=
  let cs := match precision with
    | some p => cs.take p
    | none => cs
  let gap := List.replicate (width - cs.length) ' '
  if f.left then cs ++ gap else gap ++ cs

/-- `v` with `places` digits after the point, a tie going to the even neighbour. The point stands
also before no digits if `alternate`. -/
def fixedDigits (alternate : Bool) (v : Binary64.Fraction) (places : Nat) : List Char :=
  let (d, tie) := v.onGrid (-(places : Int))
  let d := match tie with
    | .lt => d
    | .gt => d + 1
    | .eq => if d % 2 = 0 then d else d + 1
  let ds := Nat.toDigits 10 d
  let ds := List.replicate (places + 1 - ds.length) '0' ++ ds
  let whole := ds.take (ds.length - places)
  if places = 0 && !alternate then whole else whole ++ '.' :: ds.drop (ds.length - places)

/-- Scientific digits with `places` of them after the point, which stands also before no digits if
`alternate`. -/
def scientificDigits (alternate : Bool) (v : Binary64.Fraction) (places : Nat) : List Char :=
  let d : Binary64.Decimal := if v.num = 0 then ⟨0, 0⟩ else v.round (places + 1)
  let ds := Nat.toDigits 10 d.digits
  let e : Int := if v.num = 0 then 0 else d.exponent + ds.length - 1
  let ds := ds ++ List.replicate (places + 1 - ds.length) '0'
  let tail := Binary64.exponentText e
  match ds with
  | c :: rest => if rest.isEmpty && !alternate then c :: tail else c :: '.' :: rest ++ tail
  | [] => tail

/-- Digits in the shorter of the two styles, without trailing zeros unless `alternate`. -/
def generalDigits (alternate : Bool) (v : Binary64.Fraction) (precision : Nat) : List Char :=
  let p := max precision 1
  let (ds, e) := if v.num = 0 then (['0'], 0) else (v.round p).normal
  let wide := e < -4 || (p : Int) ≤ e
  if alternate then
    if wide then scientificDigits true v (p - 1) else fixedDigits true v ((p : Int) - 1 - e).toNat
  else if v.num = 0 then ['0']
  else if wide then Binary64.scientific ds e
  else
    let body := Binary64.positional ds e
    match body.reverse with
    | '0' :: '.' :: rest => rest.reverse
    | _ => body

def realOf (v : Value) : Except Fault Binary64 :=
  match v with
  | .float x => .ok x
  | v =>
    match v.int? with
    | some n => Binary64.ofInteger n
    | none => .error Fault.badType

def realNumeral (conversion : Char) (alternate : Bool) (precision : Option Nat) (x : Binary64) :
    Numeral :=
  let p := precision.getD 6
  let digits :=
    if x.isNaN then "nan".toList
    else if x.isInfinite then "inf".toList
    else
      let v := Binary64.Fraction.scaled x.significand x.scale
      let c := conversion.toLower
      if c = 'f' then fixedDigits alternate v p
      else if c = 'e' then scientificDigits alternate v p
      else generalDigits alternate v p
  ⟨x.negative, [], if conversion.isUpper then digits.map Char.toUpper else digits⟩

def convert (f : Flags) (width : Nat) (precision : Option Nat) (conversion : Char) (index : Nat)
    (v : Value) : Except Fault (List Char) :=
  match conversion with
  | 's' => .ok (layText f width precision v.plain.toList)
  | 'r' => .ok (layText f width precision v.literal.toList)
  | 'a' => .ok (layText f width precision (Text.asciiOnly v.literal).toList)
  | 'c' =>
    match v, v.int? with
    | .text s, _ =>
      match s.toList with
      | [c] => .ok (layText f width none [c])
      | _ => .error Fault.badType
    | _, some n =>
      if 0 ≤ n && n < 0x110000 then .ok (layText f width none [Char.ofNat n.toNat])
      else .error (.raised .overflow [])
    | _, none => .error Fault.badType
  | c =>
    if ['d', 'i', 'u'].contains c then do
      let n ← match v with
        | .float x => x.toInteger
        | v => integerOf v
      return layNumeral f width (integerNumeral 'd' false precision n)
    else if ['o', 'x', 'X'].contains c then do
      return layNumeral f width (integerNumeral c f.alternate precision (← integerOf v))
    else if ['e', 'E', 'f', 'F', 'g', 'G'].contains c then do
      return layNumeral f width (realNumeral c f.alternate precision (← realOf v))
    else
      let shown := if 31 ≤ c.toNat && c.toNat < 127 then c else '?'
      .error (Fault.badValue ("unsupported format character '" ++ String.ofList [shown] ++
        "' (0x" ++ Text.hexPadded 1 c.toNat ++ ") at index " ++ toString index))
where
  integerOf (v : Value) : Except Fault Int :=
    match v.int? with
    | some n => .ok n
    | none => .error Fault.badType

def fillFrom : (fuel pos : Nat) → Supply → List Char → Except Fault (List Char × Supply)
  | 0, _, s, _ => .ok ([], s)
  | _ + 1, _, s, [] => .ok ([], s)
  | fuel + 1, pos, s, '%' :: '%' :: cs => do
    let (more, s) ← fillFrom fuel (pos + 2) s cs
    return ('%' :: more, s)
  | fuel + 1, pos, s, '%' :: cs => do
    let whole := pos + 1 + cs.length
    let (s, cs) ← match cs with
      | '(' :: rest =>
        match s.entries with
        | none => throw Fault.badType
        | some entries =>
          match takeKey 0 [] rest with
          | none => throw (Fault.badValue "incomplete format key")
          | some (key, rest) =>
            match entries.lookup (String.ofList key) with
            | some v => pure ({ s with values := [v] }, rest)
            | none => throw (Fault.missingKey (String.ofList key))
      | cs => pure (s, cs)
    let (f, cs) := takeFlags {} cs
    let (width, s, cs) ← takeSize "width" mostWidth s cs
    let f := match width with
      | some w => if w < 0 then { f with left := true } else f
      | none => f
    let (precision, s, cs) ← match cs with
      | '.' :: rest => do
        let (p, s, rest) ← takeSize "precision" mostPrecision s rest
        pure (some (p.getD 0).toNat, s, rest)
      | cs => pure (none, s, cs)
    let cs := match cs with
      | c :: rest => if c = 'h' || c = 'l' || c = 'L' then rest else cs
      | [] => cs
    match cs with
    | [] => throw (Fault.badValue "incomplete format")
    | c :: rest =>
      let after := whole - rest.length
      let (v, s) ← s.next
      let room := (width.getD 0).natAbs
      let field ← convert f (if room < mostRoom then room else 0) precision c (after - 1) v
      if mostRoom ≤ room then throw (.raised .noMemory [])
      let (more, s) ← fillFrom fuel after s rest
      return (field ++ more, s)
  | fuel + 1, pos, s, c :: cs => do
    let (more, s) ← fillFrom fuel (pos + 1) s cs
    return (c :: more, s)

def fill (template : String) (source : Source) : Except Fault String := do
  let cs := template.toList
  let (out, s) ← fillFrom (cs.length + 1) 0 (Supply.ofSource source) cs
  if s.entries.isNone && !s.values.isEmpty then throw Fault.badType
  return String.ofList out

end LintRunner.Template
