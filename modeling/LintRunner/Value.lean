import LintRunner.Number.Binary64
import LintRunner.Text.Quoted

/-!
# Values

Options, the arguments of faults and the data that plugins exchange are dynamic: a plugin may
register an option with any default and read it back. `Value` is that data. It is printed in three
ways: as a literal, as plain text, and as JSON.
-/

namespace LintRunner

inductive Value where
  | none
  | bool (b : Bool)
  | int (n : Int)
  | float (x : Binary64)
  | complex (re im : Binary64)
  | text (s : String)
  | list (items : List Value)
  | tuple (items : List Value)
  | set (items : List Value)
  | dict (entries : List (String × Value))
  | object (className : String)
deriving Inhabited, Repr

namespace Value

mutual

def eqb : Value → Value → Bool
  | none, none => true
  | bool a, bool b => a == b
  | int m, int n => m == n
  | float x, float y => x == y
  | complex a b, complex c d => a == c && b == d
  | text s, text t => s == t
  | list vs, list ws => eqbItems vs ws
  | tuple vs, tuple ws => eqbItems vs ws
  | set vs, set ws => eqbItems vs ws
  | dict es, dict ds => eqbEntries es ds
  | object s, object t => s == t
  | _, _ => false

def eqbItems : List Value → List Value → Bool
  | [], [] => true
  | v :: vs, w :: ws => eqb v w && eqbItems vs ws
  | _, _ => false

def eqbEntries : List (String × Value) → List (String × Value) → Bool
  | [], [] => true
  | (k, v) :: es, (l, w) :: ds => k == l && eqb v w && eqbEntries es ds
  | _, _ => false

end

mutual

theorem eqb_iff : (v w : Value) → (eqb v w = true ↔ v = w)
  | none, w => by cases w <;> simp [eqb]
  | bool a, w => by cases w <;> simp [eqb]
  | int m, w => by cases w <;> simp [eqb]
  | float x, w => by cases w <;> simp [eqb]
  | complex a b, w => by cases w <;> simp [eqb]
  | text s, w => by cases w <;> simp [eqb]
  | list vs, w => by cases w <;> simp [eqb, eqbItems_iff vs]
  | tuple vs, w => by cases w <;> simp [eqb, eqbItems_iff vs]
  | set vs, w => by cases w <;> simp [eqb, eqbItems_iff vs]
  | dict es, w => by cases w <;> simp [eqb, eqbEntries_iff es]
  | object s, w => by cases w <;> simp [eqb]

theorem eqbItems_iff : (vs ws : List Value) → (eqbItems vs ws = true ↔ vs = ws)
  | [], ws => by cases ws <;> simp [eqbItems]
  | v :: vs, ws => by cases ws <;> simp [eqbItems, eqb_iff v, eqbItems_iff vs]

theorem eqbEntries_iff : (es ds : List (String × Value)) → (eqbEntries es ds = true ↔ es = ds)
  | [], ds => by cases ds <;> simp [eqbEntries]
  | (k, v) :: es, ds => by
      cases ds <;> simp [eqbEntries, eqb_iff v, eqbEntries_iff es, Prod.ext_iff]

end

instance : DecidableEq Value := fun v w => decidable_of_iff (eqb v w = true) (eqb_iff v w)

def texts (xs : List String) : Value := .list (xs.map .text)

def complexText (re im : Binary64) : String :=
  let short (x : Binary64) : String :=
    let t := x.text
    if Text.endsWith t ".0" then String.ofList (t.toList.dropLast.dropLast) else t
  let imag := short im ++ "j"
  if re.isZero && !re.negative then imag
  else
    let signed := if imag.startsWith "-" then imag else "+" ++ imag
    "(" ++ short re ++ signed ++ ")"

mutual

def literal : Value → String
  | none => "None"
  | bool b => if b then "True" else "False"
  | int n => toString n
  | float x => x.text
  | complex re im => complexText re im
  | text s => Text.literal s
  | list items => "[" ++ literals items ++ "]"
  | tuple [item] => "(" ++ literal item ++ ",)"
  | tuple items => "(" ++ literals items ++ ")"
  | set [] => "set()"
  | set items => "\x7b" ++ literals items ++ "\x7d"
  | dict entries => "\x7b" ++ entryLiterals entries ++ "\x7d"
  | object className => "<" ++ className ++ ">"

def literals : List Value → String
  | [] => ""
  | [v] => literal v
  | v :: rest => literal v ++ ", " ++ literals rest

def entryLiterals : List (String × Value) → String
  | [] => ""
  | [(k, v)] => Text.literal k ++ ": " ++ literal v
  | (k, v) :: rest => Text.literal k ++ ": " ++ literal v ++ ", " ++ entryLiterals rest

end

def plain : Value → String
  | text s => s
  | v => v.literal

/-- Zero, emptiness, absence and falsehood are false; all else is true. -/
def truthy : Value → Bool
  | none => false
  | bool b => b
  | int n => n ≠ 0
  | float x => !x.isZero
  | complex re im => !(re.isZero && im.isZero)
  | text s => !s.isEmpty
  | list items => !items.isEmpty
  | tuple items => !items.isEmpty
  | set items => !items.isEmpty
  | dict entries => !entries.isEmpty
  | object _ => true

def text? : Value → Option String
  | text s => some s
  | _ => Option.none

/-- The integer held by a value; truth values count as one and zero. -/
def int? : Value → Option Int
  | int n => some n
  | bool b => some (if b then 1 else 0)
  | _ => Option.none

def isNumber : Value → Bool
  | bool _ => true
  | int _ => true
  | float _ => true
  | _ => false

def whole? : Value → Option Int
  | float x =>
    let divisor := Nat.pow 2 (-x.scale).toNat
    if x.isNaN || x.isInfinite || x.significand % divisor ≠ 0 then Option.none
    else some x.truncate
  | v => v.int?

def typeName : Value → String
  | none => "NoneType"
  | bool _ => "bool"
  | int _ => "int"
  | float _ => "float"
  | complex .. => "complex"
  | text _ => "str"
  | list _ => "list"
  | tuple _ => "tuple"
  | set _ => "set"
  | dict _ => "dict"
  | object className => className

def items? : Value → Option (List Value)
  | list items => some items
  | tuple items => some items
  | set items => some items
  | _ => Option.none

/-- The texts in a sequence, other items left out; a text is the sequence of its characters. -/
def textItems : Value → List String
  | list items => items.filterMap text?
  | tuple items => items.filterMap text?
  | set items => items.filterMap text?
  | text s => s.toList.map fun c => String.ofList [c]
  | _ => []

def jsonNumber (x : Binary64) : String :=
  if x.isNaN then "NaN"
  else if x.isInfinite then (if x.negative then "-Infinity" else "Infinity")
  else x.text

mutual

/-- Compact JSON with keys in order, separated by `, ` and `: `. -/
def json : Value → String
  | none => "null"
  | bool b => if b then "true" else "false"
  | int n => toString n
  | float x => jsonNumber x
  | complex re im => Text.jsonString false (complexText re im)
  | text s => Text.jsonString false s
  | list items => "[" ++ jsonItems items ++ "]"
  | tuple items => "[" ++ jsonItems items ++ "]"
  | set items => "[" ++ jsonItems items ++ "]"
  | dict entries =>
    let written := (jsonEntries entries).mergeSort fun a b => !Text.lt b.1 a.1
    "\x7b" ++ Text.joinWith ", " (written.map fun e => Text.jsonString false e.1 ++ ": " ++ e.2)
      ++ "\x7d"
  | object className => Text.jsonString false ("<" ++ className ++ ">")

def jsonItems : List Value → String
  | [] => ""
  | [v] => json v
  | v :: rest => json v ++ ", " ++ jsonItems rest

def jsonEntries : List (String × Value) → List (String × String)
  | [] => []
  | (k, v) :: rest => (k, json v) :: jsonEntries rest

end

end Value

end LintRunner
