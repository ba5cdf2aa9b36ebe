import LintRunner.Source.Token
import LintRunner.Text.Word

/-!
# Cutting source lines into tokens

The tokenizer takes one line at a time and gives the tokens that the line completes. Between lines
it remembers open brackets, open strings, indentation and whether the last line was continued. An
empty line stands for the end of the source.
-/

namespace LintRunner.Source

inductive TokenizeFault where
  | openString (start : Pos)
  | openStatement (row : Nat)
  | badDedent (row col : Nat) (line : String)
deriving DecidableEq, Repr

structure StringEnd where
  quote : Char
  triple : Bool
deriving DecidableEq, Repr

structure OpenString where
  text : String
  start : Pos
  line : String
  close : StringEnd
  /-- The string goes on only after a continuation mark. -/
  needsMark : Bool
deriving DecidableEq, Repr

structure TokenizerState where
  row : Nat := 0
  depth : Int := 0
  continued : Bool := false
  openString : Option OpenString := none
  /-- A string broke off for want of a continuation mark, and none has been closed on a later line
  since. Till then every string that goes on in the next line needs the mark. -/
  brokeOff : Bool := false
  indents : List Nat := [0]
  lastLine : String := ""
  finished : Bool := false
deriving DecidableEq, Repr

/-! ## Lexemes -/

/-- Digits that satisfy `p` with single underscores between them, after a digit. -/
def moreDigits (p : Char → Bool) : List Char → Nat
  | '_' :: c :: cs => if p c then 2 + moreDigits p cs else 0
  | c :: cs => if p c then 1 + moreDigits p cs else 0
  | [] => 0

def digitRun : List Char → Nat
  | c :: cs => if c.isDigit then 1 + moreDigits Char.isDigit cs else 0
  | [] => 0

def exponentRun : List Char → Nat
  | c :: cs =>
    if c = 'e' || c = 'E' then
      let sign := match cs with
        | '-' :: _ => 1
        | '+' :: _ => 1
        | _ => 0
      let digits := digitRun (cs.drop sign)
      if digits = 0 then 0 else 1 + sign + digits
    else 0
  | [] => 0

def pointFloatRun (cs : List Char) : Nat :=
  let whole := digitRun cs
  match cs.drop whole with
  | '.' :: rest =>
    let frac := digitRun rest
    if whole = 0 && frac = 0 then 0
    else
      let body := whole + 1 + frac
      body + exponentRun (cs.drop body)
  | _ => 0

def exponentFloatRun (cs : List Char) : Nat :=
  let whole := digitRun cs
  let exp := exponentRun (cs.drop whole)
  if whole = 0 || exp = 0 then 0 else whole + exp

def isImaginaryMark (cs : List Char) : Bool :=
  match cs with
  | c :: _ => c = 'j' || c = 'J'
  | [] => false

/-- Length of a run with a mark such as `0x` and digits that satisfy `p`, each with an underscore
before it or not. -/
def markedRun (mark : Char) (p : Char → Bool) : List Char → Nat
  | '0' :: c :: cs =>
    if c.toLower = mark then
      let digits := moreDigits p cs
      if digits = 0 then 0 else 2 + digits
    else 0
  | _ => 0

def isHexDigit (c : Char) : Bool :=
  c.isDigit || ('a' ≤ c && c ≤ 'f') || ('A' ≤ c && c ≤ 'F')

/-- Length of a plain decimal integer: zeros only, or digits after one that is not zero. -/
def decimalRun : List Char → Nat
  | '0' :: cs => 1 + moreDigits (· == '0') cs
  | c :: cs => if c.isDigit then 1 + moreDigits Char.isDigit cs else 0
  | [] => 0

/-- Length of the number at the start of the text, zero if there is none. -/
def numberRun (cs : List Char) : Nat :=
  let digits := digitRun cs
  let point := pointFloatRun cs
  let exp := exponentFloatRun cs
  if 0 < digits && isImaginaryMark (cs.drop digits) then digits + 1
  else if 0 < point && isImaginaryMark (cs.drop point) then point + 1
  else if 0 < exp && isImaginaryMark (cs.drop exp) then exp + 1
  else if 0 < point then point
  else if 0 < exp then exp
  else
    let hex := markedRun 'x' isHexDigit cs
    let bin := markedRun 'b' (fun c => c == '0' || c == '1') cs
    let oct := markedRun 'o' (fun c => '0' ≤ c && c ≤ '7') cs
    if 0 < hex then hex
    else if 0 < bin then bin
    else if 0 < oct then oct
    else decimalRun cs

def operators : List String :=
  ["**=", "//=", ">>=", "<<=", "...", "!=", "%=", "&=", "**", "*=", "+=", "-=", "->", "//", "/=",
   ":=", "<<", "<=", "==", ">=", ">>", "@=", "^=", "|=", "%", "&", "(", ")", "*", "+", ",", "-",
   ".", "/", ":", ";", "<", "=", ">", "@", "[", "]", "^", "\x7b", "|", "\x7d", "~"]

/-- Length of the operator at the start of the text, zero if there is none. -/
def operatorRun (cs : List Char) : Nat :=
  match operators.find? fun op => op.toList.isPrefixOf cs with
  | some op => op.length
  | none => 0

def isPairPrefix (a b : Char) : Bool :=
  let x := a.toLower
  let y := b.toLower
  (x = 'b' && y = 'r') || (x = 'r' && y = 'b') || (x = 'f' && y = 'r') || (x = 'r' && y = 'f')

def isSinglePrefix (a : Char) : Bool :=
  let x := a.toLower
  x = 'b' || x = 'r' || x = 'u' || x = 'f'

def isQuote (c : Char) : Bool := c == '\'' || c == '"'

/-- The letters before the opening quote and the quote itself, if a string starts here. -/
def stringOpening? : List Char → Option (Nat × Char)
  | a :: rest =>
    if isQuote a then some (0, a)
    else
      match rest with
      | b :: rest =>
        if isQuote b then if isSinglePrefix a then some (1, b) else none
        else
          match rest with
          | c :: _ => if isQuote c && isPairPrefix a b then some (2, c) else none
          | [] => none
      | [] => none
  | [] => none

/-- Length up to and including the end of a string; a backslash takes the character after it along,
which must not be a line feed. -/
def stringEnd? (close : StringEnd) : List Char → Option Nat
  | [] => none
  | '\\' :: c :: cs => if c = '\n' then none else (stringEnd? close cs).map (· + 2)
  | c :: cs =>
    if c = '\\' then none
    else if c = close.quote then
      if close.triple then
        match cs with
        | d :: e :: _ =>
          if d = close.quote && e = close.quote then some 3 else (stringEnd? close cs).map (· + 1)
        | _ => (stringEnd? close cs).map (· + 1)
      else some 1
    else (stringEnd? close cs).map (· + 1)

/-- Length of the rest of a string that closes on its line, or ends with a continuation mark. -/
def stringRest? (quote : Char) : List Char → Option Nat
  | [] => none
  | '\\' :: '\n' :: _ => some 2
  | '\\' :: '\r' :: '\n' :: _ => some 3
  | '\\' :: _ :: cs => (stringRest? quote cs).map (· + 2)
  | c :: cs =>
    if c = '\n' || c = '\\' then none
    else if c = quote then some 1
    else (stringRest? quote cs).map (· + 1)

/-- What stands at a place in a line, after blanks. -/
inductive Lexeme where
  | lineEnd
  | continuation (length : Nat)
  | comment (length : Nat)
  | tripleQuote (letters : Nat) (quote : Char)
  | number (length : Nat)
  | newline (length : Nat)
  | operator (length : Nat)
  | string (length : Nat) (quote : Char)
  | word (length : Nat)
deriving DecidableEq, Repr

def tripleOpening? (cs : List Char) : Option (Nat × Char) :=
  match stringOpening? cs with
  | some (letters, quote) =>
    if [quote, quote, quote].isPrefixOf (cs.drop letters) then some (letters, quote) else none
  | none => none

/-- The lexeme at the start of the text; the first kind that fits wins. -/
def lexeme? (cs : List Char) : Option Lexeme :=
  match cs with
  | [] => some .lineEnd
  | '\\' :: '\n' :: _ => some (.continuation 2)
  | '\\' :: '\r' :: '\n' :: _ => some (.continuation 3)
  | '#' :: rest =>
    some (.comment (1 + (rest.takeWhile fun c => c != '\r' && c != '\n').length))
  | '\n' :: _ => some (.newline 1)
  | '\r' :: '\n' :: _ => some (.newline 2)
  | cs =>
    match tripleOpening? cs with
    | some (letters, quote) => some (.tripleQuote letters quote)
    | none =>
      let number := numberRun cs
      if 0 < number then some (.number number)
      else
        let operator := operatorRun cs
        if 0 < operator then some (.operator operator)
        else
          let string := match stringOpening? cs with
            | some (letters, quote) =>
              (stringRest? quote (cs.drop (letters + 1))).map fun n => (letters + 1 + n, quote)
            | none => none
          match string with
          | some (length, quote) => some (.string length quote)
          | none =>
            let word := (cs.takeWhile Text.isWord).length
            if 0 < word then some (.word word) else none

/-! ## One line -/

structure Scan where
  tokens : List Token
  depth : Int
  continued : Bool
  openString : Option OpenString

def tokenAt (kind : TokenKind) (text : List Char) (row col : Nat) (line : String) : Token :=
  ⟨kind, String.ofList text, ⟨row, col⟩, ⟨row, col + text.length⟩, line⟩

def Scan.cons (t : Token) (s : Scan) : Scan := { s with tokens := t :: s.tokens }

def depthAfter (depth : Int) (text : List Char) : Int :=
  match text with
  | [c] =>
    if c = '(' || c = '[' || c = '\x7b' then depth + 1
    else if c = ')' || c = ']' || c = '\x7d' then depth - 1
    else depth
  | _ => depth

/-- Scans a line from a column on; `rest` is the text there and `fuel` at least its length. -/
def scanFrom (row : Nat) (line : String) :
    (fuel col : Nat) → List Char → (depth : Int) → (continued : Bool) → Scan
  | 0, _, _, depth, continued => ⟨[], depth, continued, none⟩
  | fuel + 1, col, rest, depth, continued =>
    if rest.isEmpty then ⟨[], depth, continued, none⟩
    else
      let blanks := (rest.takeWhile Text.isInlineBlank).length
      let body := rest.drop blanks
      let start := col + blanks
      let emit (kind : TokenKind) (n : Nat) (depth : Int) : Scan :=
        (scanFrom row line fuel (start + n) (body.drop n) depth continued).cons
          (tokenAt kind (body.take n) row start line)
      match lexeme? body with
      | none =>
        (scanFrom row line fuel (col + 1) (rest.drop 1) depth continued).cons
          (tokenAt .errorToken (rest.take 1) row col line)
      | some .lineEnd => ⟨[], depth, continued, none⟩
      | some (.continuation n) =>
        scanFrom row line fuel (start + n) (body.drop n) depth true
      | some (.comment n) => emit .comment n depth
      | some (.number n) => emit .number n depth
      | some (.newline n) => emit (if 0 < depth then .lineBreak else .newline) n depth
      | some (.operator n) => emit .operator n (depthAfter depth (body.take n))
      | some (.word n) =>
        let first := body.headD ' '
        emit (if Text.isIdentifierStart first then .name else .operator) n depth
      | some (.tripleQuote letters quote) =>
        let close : StringEnd := ⟨quote, true⟩
        match stringEnd? close (body.drop (letters + 3)) with
        | some n => emit .string (letters + 3 + n) depth
        | none =>
          ⟨[], depth, continued,
            some ⟨String.ofList body, ⟨row, start⟩, line, close, false⟩⟩
      | some (.string n quote) =>
        if (body.take n).getLast? = some '\n' then
          ⟨[], depth, continued,
            some ⟨String.ofList body, ⟨row, start⟩, line, ⟨quote, false⟩, true⟩⟩
        else emit .string n depth

def scanLine (row : Nat) (line : String) (col : Nat) (depth : Int) (continued : Bool) : Scan :=
  let rest := line.toList.drop col
  scanFrom row line (rest.length + 1) col rest depth continued

/-- The indentation of a line: its width, with tabs to the next multiple of eight and form feeds
starting over, and the number of characters. -/
def indentation (width chars : Nat) : List Char → Nat × Nat
  | ' ' :: cs => indentation (width + 1) (chars + 1) cs
  | '\t' :: cs => indentation ((width / 8 + 1) * 8) (chars + 1) cs
  | '\x0c' :: cs => indentation 0 (chars + 1) cs
  | _ => (width, chars)

def closing (st : TokenizerState) (lastLine : String) : List Token :=
  let row : Int := st.row
  let cs := lastLine.toList
  let ended := match cs.getLast? with
    | some c => c = '\n' || c = '\r'
    | none => true
  let newline : List Token :=
    if ended || (Text.dropEnds Text.isBlank cs).head? = some '#' then []
    else [⟨.newline, "", ⟨row - 1, cs.length⟩, ⟨row - 1, cs.length + 1⟩, ""⟩]
  let empty (kind : TokenKind) : Token := ⟨kind, "", ⟨row, 0⟩, ⟨row, 0⟩, ""⟩
  newline ++ (st.indents.dropLast.map fun _ => empty .dedent) ++ [empty .endMarker]

def TokenizerState.scanOn (st : TokenizerState) (line : String) (col : Nat) :
    List Token × TokenizerState :=
  let s := scanLine st.row line col st.depth st.continued
  let marked (o : OpenString) : OpenString := { o with needsMark := o.needsMark || st.brokeOff }
  (s.tokens,
    { st with depth := s.depth, continued := s.continued, openString := s.openString.map marked })

def TokenizerState.feedString (st : TokenizerState) (open_ : OpenString) (line : String) :
    Except TokenizeFault (List Token × TokenizerState) :=
  let cs := line.toList
  if line.isEmpty then .error (.openString open_.start)
  else
    match stringEnd? open_.close cs with
    | some n =>
      let text := open_.text ++ String.ofList (cs.take n)
      let token : Token := ⟨.string, text, open_.start, ⟨st.row, n⟩, open_.line ++ line⟩
      let (tokens, st) := { st with openString := none, brokeOff := false }.scanOn line n
      .ok (token :: tokens, st)
    | none =>
      if open_.needsMark && !Text.endsWith line "\\\n" && !Text.endsWith line "\\\r\n" then
        let token : Token :=
          ⟨.errorToken, open_.text ++ line, open_.start, ⟨st.row, cs.length⟩, open_.line⟩
        .ok ([token], { st with openString := none, brokeOff := true })
      else
        let more := { open_ with text := open_.text ++ line, line := open_.line ++ line }
        .ok ([], { st with openString := some more })

/-- A line that starts with its indentation; `before` is the line before it. -/
def TokenizerState.feedIndented (st : TokenizerState) (before line : String) :
    Except TokenizeFault (List Token × TokenizerState) :=
  let cs := line.toList
  let (width, chars) := indentation 0 0 cs
  match cs.drop chars with
  | [] => .ok (closing st before, { st with finished := true })
  | c :: rest =>
    if c = '#' then
      let comment := Text.dropTrailing (fun c => c == '\r' || c == '\n') (c :: rest)
      let after := (c :: rest).drop comment.length
      .ok ([tokenAt .comment comment st.row chars line,
        tokenAt .lineBreak after st.row (chars + comment.length) line], st)
    else if c = '\r' || c = '\n' then
      .ok ([tokenAt .lineBreak (c :: rest) st.row chars line], st)
    else
      let current := st.indents.headD 0
      if current < width then
        let token := tokenAt .indent (cs.take chars) st.row 0 line
        let (tokens, st) := { st with indents := width :: st.indents }.scanOn line chars
        .ok (token :: tokens, st)
      else if width < current && !st.indents.contains width then
        .error (.badDedent st.row chars line)
      else
        let kept := st.indents.dropWhile (width < ·)
        let dedents := (st.indents.takeWhile (width < ·)).map fun _ =>
          tokenAt .dedent [] st.row chars line
        let (tokens, st) := { st with indents := kept }.scanOn line chars
        .ok (dedents ++ tokens, st)

/-- How a tokenizer takes one more line: it gives the tokens that end there. -/
abbrev Feed := TokenizerState → String → Except TokenizeFault (List Token × TokenizerState)

def TokenizerState.feed (st : TokenizerState) (line : String) :
    Except TokenizeFault (List Token × TokenizerState) :=
  let before := st.lastLine
  let st := { st with row := st.row + 1, lastLine := line }
  match st.openString with
  | some open_ => st.feedString open_ line
  | none =>
    if st.depth = 0 && !st.continued then st.feedIndented before line
    else if line.isEmpty then .error (.openStatement st.row)
    else .ok ({ st with continued := false }.scanOn line 0)

def tokenizeFrom (st : TokenizerState) : List String → Except TokenizeFault (List Token)
  | [] =>
    if st.finished then .ok []
    else
      match st.feed "" with
      | .error e => .error e
      | .ok (tokens, _) => .ok tokens
  | line :: lines =>
    if st.finished then .ok []
    else
      match st.feed line with
      | .error e => .error e
      | .ok (tokens, st) =>
        match tokenizeFrom st lines with
        | .error e => .error e
        | .ok more => .ok (tokens ++ more)

def tokenize (lines : List String) : Except TokenizeFault (List Token) := tokenizeFrom {} lines

end LintRunner.Source
