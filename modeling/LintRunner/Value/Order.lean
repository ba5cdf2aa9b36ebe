import LintRunner.Fault

/-!
# Equality and order of values

Numbers of different kinds are equal if they are the same number, and true and false count as one
and zero. Numbers can be compared with numbers, texts with texts, and sequences of one kind item by
item; other values have no order, and sorting them is a fault.
-/

namespace LintRunner

/-- A number on the line with its two ends; a finite one is a fraction with a positive denominator. -/
inductive Extent where
  | least
  | finite (num : Int) (den : Nat)
  | greatest
deriving DecidableEq, Repr

def Extent.lt : Extent → Extent → Bool
  | least, least => false
  | least, _ => true
  | finite .., least => false
  | finite a b, finite c d => a * d < c * b
  | finite .., greatest => true
  | greatest, _ => false

/-- Where a number lies; what is no number lies nowhere. -/
def Binary64.extent? (x : Binary64) : Option Extent :=
  if x.isNaN then none
  else if x.isInfinite then some (if x.negative then .least else .greatest)
  else
    let f := Fraction.scaled x.significand x.scale
    some (.finite (if x.negative then -(f.num : Int) else f.num) f.den)

namespace Value

def extent? : Value → Option Extent
  | float x => x.extent?
  | v => v.int?.map fun n => .finite n 1

def numberParts? : Value → Option (Value × Value)
  | complex re im => some (float re, float im)
  | v => if v.isNumber then some (v, int 0) else Option.none

def sameReal (v w : Value) : Bool :=
  match v.extent?, w.extent? with
  | some a, some b => !a.lt b && !b.lt a
  | _, _ => false

def sameNumber (v w : Value) : Bool :=
  match v.numberParts?, w.numberParts? with
  | some (a, b), some (c, d) => sameReal a c && sameReal b d
  | _, _ => false

mutual

def same : Value → Value → Bool
  | none, none => true
  | text s, text t => s == t
  | list vs, list ws => sameItems vs ws
  | tuple vs, tuple ws => sameItems vs ws
  | set vs, set ws => vs.length == ws.length && allAmong ws vs
  | dict es, dict ds => es.length == ds.length && allEntriesAmong ds es
  | object s, object t => s == t
  | v, w => sameNumber v w

def sameItems : List Value → List Value → Bool
  | [], [] => true
  | v :: vs, w :: ws => same v w && sameItems vs ws
  | _, _ => false

/-- Every item is equal to one of `ws`. -/
def allAmong (ws : List Value) : List Value → Bool
  | [] => true
  | v :: vs => ws.any (same v) && allAmong ws vs

/-- Every entry is equal to the one of `ds` under its key. -/
def allEntriesAmong (ds : List (String × Value)) : List (String × Value) → Bool
  | [] => true
  | (k, v) :: es => (ds.lookup k).any (same v) && allEntriesAmong ds es

end

mutual

/-- The first value comes before the second one; nothing if they cannot be compared. -/
def precedes? : Value → Value → Option Bool
  | text s, text t => some (Text.lt s t)
  | list vs, list ws => itemsPrecede? vs ws
  | tuple vs, tuple ws => itemsPrecede? vs ws
  | v, w =>
    if v.isNumber && w.isNumber then
      some (match v.extent?, w.extent? with
        | some a, some b => a.lt b
        | _, _ => false)
    else Option.none

/-- The first two items that differ decide, and a sequence comes before a longer one that starts
with it. -/
def itemsPrecede? : List Value → List Value → Option Bool
  | [], ws => some (!ws.isEmpty)
  | _ :: _, [] => some false
  | v :: vs, w :: ws => if same v w then itemsPrecede? vs ws else precedes? v w

end

def isComparable (v w : Value) : Bool := (v.precedes? w).isSome

def allComparable : List Value → Bool
  | [] => true
  | v :: vs => vs.all (fun w => v.isComparable w && w.isComparable v) && allComparable vs

def sortBy {α : Type} (key : α → Value) (xs : List α) : Except Fault (List α) :=
  if allComparable (xs.map key) then
    .ok (xs.mergeSort fun a b => (key b).precedes? (key a) != some true)
  else .error Fault.badType

def sorted (vs : List Value) : Except Fault (List Value) := sortBy id vs

mutual

/-- The value can be a key: it is no list, set or dictionary, and holds none. -/
def isHashable : Value → Bool
  | list _ => false
  | set _ => false
  | dict _ => false
  | tuple vs => allHashable vs
  | _ => true

def allHashable : List Value → Bool
  | [] => true
  | v :: vs => isHashable v && allHashable vs

end

def asKey (v : Value) : Except Fault Value := if v.isHashable then .ok v else .error Fault.badType

def distinct (vs : List Value) : List Value :=
  vs.foldl (fun seen v => if seen.any (same v) then seen else seen ++ [v]) []

theorem same_text (s t : String) : same (.text s) (.text t) = (s == t) := by simp [same]

theorem precedes?_text (s t : String) : precedes? (.text s) (.text t) = some (Text.lt s t) := by
  simp [precedes?]

theorem precedes?_int (m n : Int) : precedes? (.int m) (.int n) = some (decide (m < n)) := by
  simp [precedes?, isNumber, extent?, int?, Extent.lt]

end Value

end LintRunner
