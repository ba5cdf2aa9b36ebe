import LintRunner.Text.Basic
import LintRunner.Text.Lines

/-!
# Reading source bytes

The encoding of a source file is announced by a byte-order mark or by a comment on one of its first
two lines; without either it is UTF-8. Decoding is strict. `fileText` and `pipeText` say what is
read from a file and from standard input when the announcement cannot be followed.
-/

namespace LintRunner.Source

inductive Encoding where
  | utf8
  /-- UTF-8 after a byte-order mark, which is not part of the text. -/
  | utf8Marked
  | latin1
  | ascii
  | utf16
deriving DecidableEq, Repr

inductive EncodingFault where
  | undecodableLine
  | unknownEncoding (name : String)
  | markConflict
deriving DecidableEq, Repr

def continuation? (b : UInt8) : Option Nat :=
  if 0x80 ≤ b && b < 0xc0 then some (b.toNat - 0x80) else none

def charIn? (lo hi n : Nat) : Option Char :=
  if lo ≤ n && n ≤ hi && !(0xd800 ≤ n && n ≤ 0xdfff) then some (Char.ofNat n) else none

/-- Strict UTF-8: no surrogates, no needlessly long forms, nothing above the last code point. -/
def decodeUtf8 : List UInt8 → Option (List Char)
  | [] => some []
  | b :: rest =>
    if b < 0x80 then (decodeUtf8 rest).map (Char.ofNat b.toNat :: ·)
    else if b < 0xc2 then none
    else if b < 0xe0 then
      match rest with
      | b1 :: rest => do
        let c1 ← continuation? b1
        let c ← charIn? 0x80 0x7ff ((b.toNat - 0xc0) * 64 + c1)
        return c :: (← decodeUtf8 rest)
      | _ => none
    else if b < 0xf0 then
      match rest with
      | b1 :: b2 :: rest => do
        let c1 ← continuation? b1
        let c2 ← continuation? b2
        let c ← charIn? 0x800 0xffff (((b.toNat - 0xe0) * 64 + c1) * 64 + c2)
        return c :: (← decodeUtf8 rest)
      | _ => none
    else if b < 0xf5 then
      match rest with
      | b1 :: b2 :: b3 :: rest => do
        let c1 ← continuation? b1
        let c2 ← continuation? b2
        let c3 ← continuation? b3
        let c ← charIn? 0x10000 0x10ffff ((((b.toNat - 0xf0) * 64 + c1) * 64 + c2) * 64 + c3)
        return c :: (← decodeUtf8 rest)
      | _ => none
    else none

def decodeLatin1 (bytes : List UInt8) : List Char := bytes.map fun b => Char.ofNat b.toNat

def decodeAscii (bytes : List UInt8) : Option (List Char) :=
  if bytes.all (· < 0x80) then some (decodeLatin1 bytes) else none

def units16 : List UInt8 → Option (List Nat)
  | [] => some []
  | [_] => none
  | lo :: hi :: rest => (units16 rest).map ((lo.toNat + 256 * hi.toNat) :: ·)

/-- Characters from sixteen-bit units; surrogates must come in pairs. -/
def decodeUnits16 : List Nat → Option (List Char)
  | [] => some []
  | u :: rest =>
    if 0xd800 ≤ u && u < 0xdc00 then
      match rest with
      | v :: rest =>
        if 0xdc00 ≤ v && v < 0xe000 then
          (decodeUnits16 rest).map
            (Char.ofNat (0x10000 + (u - 0xd800) * 0x400 + (v - 0xdc00)) :: ·)
        else none
      | [] => none
    else if 0xdc00 ≤ u && u < 0xe000 then none
    else (decodeUnits16 rest).map (Char.ofNat u :: ·)

def swapPairs : List UInt8 → List UInt8
  | a :: b :: rest => b :: a :: swapPairs rest
  | rest => rest

/-- UTF-16 in the order that its mark tells, low byte first without one. -/
def decodeUtf16 (bytes : List UInt8) : Option (List Char) :=
  match bytes with
  | 0xff :: 0xfe :: rest => (units16 rest).bind decodeUnits16
  | 0xfe :: 0xff :: rest => (units16 (swapPairs rest)).bind decodeUnits16
  | bytes => (units16 bytes).bind decodeUnits16

def afterMark? : List UInt8 → Option (List UInt8)
  | 0xef :: 0xbb :: 0xbf :: rest => some rest
  | _ => none

def Encoding.decode : Encoding → List UInt8 → Option (List Char)
  | utf8, bytes => decodeUtf8 bytes
  | utf8Marked, bytes => decodeUtf8 ((afterMark? bytes).getD bytes)
  | latin1, bytes => some (decodeLatin1 bytes)
  | ascii, bytes => decodeAscii bytes
  | utf16, bytes => decodeUtf16 bytes

/-- The text of a file in an encoding; a UTF-16 file must start with its mark. -/
def Encoding.decodeFile (enc : Encoding) (bytes : List UInt8) : Option (List Char) :=
  match enc, bytes with
  | utf16, 0xff :: 0xfe :: _ => decodeUtf16 bytes
  | utf16, 0xfe :: 0xff :: _ => decodeUtf16 bytes
  | utf16, _ => none
  | enc, bytes => enc.decode bytes

def takeLine : List UInt8 → List UInt8 × List UInt8
  | [] => ([], [])
  | b :: rest =>
    if b = 0x0a then ([b], rest)
    else
      let (line, after) := takeLine rest
      (b :: line, after)

def isNameChar (c : Char) : Bool := c.isAlphanum || c == '_' || c == '-' || c == '.'

/-- The name announced at the start of the text: `coding`, a colon or equals sign, blanks, and the
name. -/
def announced? (cs : List Char) : Option (List Char) := do
  let rest ← Text.afterPrefix? "coding".toList cs
  match rest with
  | sep :: rest =>
    if sep = ':' || sep = '=' then
      match (rest.dropWhile fun c => c == ' ' || c == '\t').takeWhile isNameChar with
      | [] => none
      | name => some name
    else none
  | [] => none

def announcement? : List Char → Option (List Char)
  | [] => none
  | c :: cs =>
    match announced? (c :: cs) with
    | some name => some name
    | none => if c = '\n' then none else announcement? cs

def cookie? (line : List Char) : Option String :=
  match line.dropWhile Text.isInlineBlank with
  | '#' :: rest => (announcement? rest).map String.ofList
  | _ => none

/-- A line that holds nothing, or nothing but a comment. -/
def isBlankLine (line : List UInt8) : Bool :=
  match line.dropWhile fun b => b == 0x20 || b == 0x09 || b == 0x0c with
  | [] => true
  | b :: _ => b == 0x23 || b == 0x0d || b == 0x0a

/-- The short name by which UTF-8 and Latin-1 are known, for names that mean them. -/
def commonName (name : String) : String :=
  let low := String.ofList
    ((name.toList.take 12).map fun c => if c = '_' then '-' else c.toLower)
  if low = "utf-8" || Text.startsWith low "utf-8-" then "utf-8"
  else if ["latin-1", "iso-8859-1", "iso-latin-1"].any
      (fun n => low = n || Text.startsWith low (n ++ "-")) then "iso-8859-1"
  else name

def encodingNamed? (name : String) : Option Encoding :=
  let key := String.ofList
    (name.toList.map fun c => if c = '_' || c = ' ' then '-' else c.toLower)
  if ["utf-8", "utf8", "u8", "utf", "utf8-ucs2", "utf8-ucs4", "cp65001"].contains key then
    some .utf8
  else if key = "utf-8-sig" then some .utf8Marked
  else if ["iso-8859-1", "latin-1", "latin1", "latin", "l1", "iso8859-1", "iso8859", "8859",
      "cp819", "iso-ir-100", "ibm819"].contains key then some .latin1
  else if ["ascii", "us-ascii", "us", "646", "ansi-x3.4-1968", "iso646-us"].contains key then
    some .ascii
  else if ["utf-16", "utf16", "u16"].contains key then some .utf16
  else none

def lineEncoding (marked : Bool) (line : List UInt8) :
    Except EncodingFault (Option Encoding) :=
  match decodeUtf8 line with
  | none => .error .undecodableLine
  | some cs =>
    match cookie? cs with
    | none => .ok none
    | some name =>
      let name := commonName name
      match encodingNamed? name with
      | none => .error (.unknownEncoding name)
      | some enc =>
        if marked then
          if name = "utf-8" then .ok (some .utf8Marked) else .error .markConflict
        else .ok (some enc)

/-- The encoding of a source: what one of its first two lines announces, else UTF-8. The second line
counts only after a first one that holds no code. -/
def detect (bytes : List UInt8) : Except EncodingFault Encoding :=
  let (marked, body) := match afterMark? bytes with
    | some rest => (true, rest)
    | none => (false, bytes)
  let default : Encoding := if marked then .utf8Marked else .utf8
  let (first, rest) := takeLine body
  if first.isEmpty then .ok default
  else
    match lineEncoding marked first with
    | .error e => .error e
    | .ok (some enc) => .ok enc
    | .ok none =>
      if !isBlankLine first then .ok default
      else
        let (second, _) := takeLine rest
        if second.isEmpty then .ok default
        else
          match lineEncoding marked second with
          | .error e => .error e
          | .ok (some enc) => .ok enc
          | .ok none => .ok default

def announcedText (bytes : List UInt8) : Option (List Char) :=
  match detect bytes with
  | .ok enc => enc.decodeFile bytes
  | .error _ => none

/-- The text of a file, line ends unified. One that cannot be read as announced is read byte by
byte. -/
def fileText (bytes : List UInt8) : List Char :=
  Text.unifyNewlines ((announcedText bytes).getD (decodeLatin1 bytes))

/-- The text of standard input, line ends as they are. What cannot be read as announced must be
UTF-8. -/
def pipeText (bytes : List UInt8) : Option (List Char) :=
  match detect bytes with
  | .ok enc =>
    match enc.decode bytes with
    | some cs => some cs
    | none => decodeUtf8 bytes
  | .error _ => decodeUtf8 bytes

def fileLines (bytes : List UInt8) : List String :=
  (Text.linesAfterFeed (fileText bytes)).map String.ofList

def pipeLines (text : String) : List String :=
  (Text.wideLines text.toList).map String.ofList

end LintRunner.Source
