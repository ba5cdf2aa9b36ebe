import LintRunner.Number.Integer
import LintRunner.Value

/-!
# Reading JSON

A value is read from its JSON text. Numbers with a point or an exponent are real, all others are
integers of any size. The words for infinities and for what is no number are read too. In data that
describes something, a field that is not there reads as absence.
-/

namespace LintRunner.Exchange

def hexDigit (c : Char) : Nat := (Integer.digit? 16 c).getD 0

def hexUnit (cs : List Char) : Nat := (cs.take 4).foldl (fun n c => 16 * n + hexDigit c) 0

def escaped (c : Char) : Char :=
  match c with
  | 'n' => '\n'
  | 't' => '\t'
  | 'r' => '\r'
  | 'b' => Char.ofNat 8
  | 'f' => Char.ofNat 12
  | c => c

/-- The characters of a string up to its closing quote, and what follows. Two escaped surrogates
make one character. -/
def readString (acc : List Char) : (fuel : Nat) → List Char → Except String (String × List Char)
  | 0, _ => .error "open string"
  | _, [] => .error "open string"
  | _ + 1, '"' :: cs => .ok (String.ofList acc.reverse, cs)
  | fuel + 1, '\\' :: 'u' :: cs =>
    let unit := hexUnit cs
    match cs.drop 4 with
    | '\\' :: 'u' :: more =>
      let low := hexUnit more
      if 0xd800 ≤ unit && unit < 0xdc00 && 0xdc00 ≤ low && low < 0xe000 then
        let code := 0x10000 + (unit - 0xd800) * 0x400 + (low - 0xdc00)
        readString (Char.ofNat code :: acc) fuel (more.drop 4)
      else readString (Char.ofNat unit :: acc) fuel ('\\' :: 'u' :: more)
    | rest => readString (Char.ofNat unit :: acc) fuel rest
  | fuel + 1, '\\' :: c :: cs => readString (escaped c :: acc) fuel cs
  | fuel + 1, c :: cs => readString (c :: acc) fuel cs

def skip (cs : List Char) : List Char := cs.dropWhile Char.isWhitespace

def isNumberPart (c : Char) : Bool :=
  c.isDigit || c == '-' || c == '+' || c == '.' || c == 'e' || c == 'E'

def readNumber (cs : List Char) : Except String (Value × List Char) :=
  let body := cs.takeWhile isNumberPart
  let rest := cs.dropWhile isNumberPart
  let number : Option Value :=
    if body.any fun c => c == '.' || c == 'e' || c == 'E' then
      (Binary64.ofText? (String.ofList body)).map .float
    else (Integer.ofText? 10 (String.ofList body)).map .int
  match number with
  | some v => .ok (v, rest)
  | none => .error "number"

mutual

def readValue : (fuel : Nat) → List Char → Except String (Value × List Char)
  | 0, _ => .error "depth"
  | fuel + 1, cs =>
    match skip cs with
    | '"' :: rest => do
      let (s, rest) ← readString [] (rest.length + 1) rest
      return (.text s, rest)
    | '[' :: rest =>
      match skip rest with
      | ']' :: rest => .ok (.list [], rest)
      | rest => readItems fuel [] rest
    | '\x7b' :: rest =>
      match skip rest with
      | '\x7d' :: rest => .ok (.dict [], rest)
      | rest => readEntries fuel [] rest
    | 't' :: 'r' :: 'u' :: 'e' :: rest => .ok (.bool true, rest)
    | 'f' :: 'a' :: 'l' :: 's' :: 'e' :: rest => .ok (.bool false, rest)
    | 'n' :: 'u' :: 'l' :: 'l' :: rest => .ok (.none, rest)
    | 'N' :: 'a' :: 'N' :: rest => .ok (.float (Binary64.ofFloat (0.0 / 0.0)), rest)
    | 'I' :: rest => .ok (.float (Binary64.ofFloat (1.0 / 0.0)), rest.drop 7)
    | '-' :: 'I' :: rest => .ok (.float (Binary64.ofFloat (-1.0 / 0.0)), rest.drop 7)
    | rest => readNumber rest

def readItems : (fuel : Nat) → List Value → List Char → Except String (Value × List Char)
  | 0, _, _ => .error "depth"
  | fuel + 1, acc, cs => do
    let (v, rest) ← readValue fuel cs
    match skip rest with
    | ',' :: rest => readItems fuel (v :: acc) rest
    | ']' :: rest => return (.list (v :: acc).reverse, rest)
    | _ => throw "array"

def readEntries : (fuel : Nat) → List (String × Value) → List Char →
    Except String (Value × List Char)
  | 0, _, _ => .error "depth"
  | fuel + 1, acc, cs =>
    match skip cs with
    | '"' :: rest => do
      let (key, rest) ← readString [] (rest.length + 1) rest
      match skip rest with
      | ':' :: rest =>
        let (v, rest) ← readValue fuel rest
        match skip rest with
        | ',' :: rest => readEntries fuel ((key, v) :: acc) rest
        | '\x7d' :: rest => return (.dict ((key, v) :: acc).reverse, rest)
        | _ => throw "object"
      | _ => throw "object"
    | _ => .error "object"

end

def parseJson (s : String) : Except String Value := do
  let cs := s.toList
  let (v, _) ← readValue (cs.length + 1) cs
  return v

/-- The value of a letter of base 64; the letter that fills up counts as zero. -/
def base64Digit (c : Char) : Nat :=
  if c.isUpper then c.toNat - 65 else if c.isLower then c.toNat - 71
  else if c.isDigit then c.toNat + 4 else if c = '+' then 62 else if c = '/' then 63 else 0

/-- The bytes that letters of base 64 stand for: four letters are three bytes, fewer where the group
is filled up. -/
def base64Bytes : List Char → List UInt8
  | a :: b :: c :: d :: rest =>
    let n := [a, b, c, d].foldl (fun n c => n * 64 + base64Digit c) 0
    let size := if c = '=' then 1 else if d = '=' then 2 else 3
    ([n / 65536, n / 256 % 256, n % 256].map Nat.toUInt8).take size ++ base64Bytes rest
  | _ => []

/-- The bytes that a value writes: a text stands for its UTF-8 bytes, other bytes are written in
base 64 in a field of that name. -/
def bytesOf (v : Value) : List UInt8 :=
  match v with
  | .text s => s.toUTF8.toList
  | .dict entries => base64Bytes (((entries.lookup "b64").bind Value.text?).getD "").toList
  | _ => []

end LintRunner.Exchange

namespace LintRunner.Value

def field? (v : Value) (key : String) : Option Value :=
  match v with
  | dict entries => entries.lookup key
  | _ => Option.none

def field (v : Value) (key : String) : Value := (v.field? key).getD .none

def str (v : Value) : String := v.text?.getD ""

def strD (v : Value) (key default : String) : String := ((v.field? key).bind text?).getD default

def strs (v : Value) (key : String) : List String := (v.field key).textItems

def num (v : Value) : Int := v.int?.getD 0

def sequence (v : Value) : List Value := v.items?.getD []

def item (v : Value) (n : Nat) : Value := (v.sequence[n]?).getD .none

def items (v : Value) (key : String) : List Value := (v.field key).sequence

def entries (v : Value) : List (String × Value) :=
  match v with
  | dict es => es
  | _ => []

def on (v : Value) (key : String) : Bool := (v.field key).truthy

end LintRunner.Value
