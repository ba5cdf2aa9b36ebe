import LintRunner.Value.Order

/-!
# Values as sequences

A text is the sequence of its characters and a dictionary that of its keys. Asking for the items of
anything that is no sequence is a fault.
-/

namespace LintRunner.Value

def ofChar (c : Char) : Value := .text (String.ofList [c])

def elements (v : Value) : Except Fault (List Value) :=
  match v with
  | text s => .ok (s.toList.map ofChar)
  | dict es => .ok (es.map fun e => .text e.1)
  | v =>
    match v.items? with
    | some items => .ok items
    | Option.none => .error Fault.badType

def size (v : Value) : Except Fault Nat := v.elements.map List.length

def asText (v : Value) : Except Fault String :=
  match v with
  | text s => .ok s
  | _ => .error Fault.badType

def asInt (v : Value) : Except Fault Int :=
  match v.int? with
  | some n => .ok n
  | Option.none => .error Fault.badType

def asTexts (v : Value) : Except Fault (List String) := do (← v.elements).mapM asText

/-- A container holds the value; a text holds the texts that occur in it. -/
def isIn (v container : Value) : Except Fault Bool :=
  match container with
  | text s => return Text.contains s (← v.asText)
  | set items => return items.any (same (← v.asKey))
  | dict es => return (es.map fun e => Value.text e.1).any (same (← v.asKey))
  | c => return (← c.elements).any (same v)

/-- The fault of taking a sequence apart into too few or too many places. -/
def unpackFault (expected got : Nat) : Fault :=
  if got < expected then
    Fault.badValue ("not enough values to unpack (expected " ++ toString expected ++ ", got " ++
      toString got ++ ")")
  else
    Fault.badValue ("too many values to unpack (expected " ++ toString expected ++ ")")

/-- The item at a position. A dictionary is asked for it as a key, which it does not have. -/
def itemAt (v : Value) (n : Nat) : Except Fault Value := do
  match v, (← v.elements)[n]? with
  | dict _, _ => throw (.raised .missingKey [.int n])
  | set _, _ => throw Fault.badType
  | _, some x => return x
  | _, Option.none => throw Fault.badIndex

/-- The position that an index means in a sequence of some length; a negative one counts from the
end. -/
def place (index : Value) (length : Nat) : Except Fault Nat := do
  let n ← index.asInt
  let n := if n < 0 then n + length else n
  if 0 ≤ n && n < length then return n.toNat else throw Fault.badIndex

def asEntries (v : Value) : Except Fault (List (String × Value)) :=
  match v with
  | dict es => .ok es
  | _ => .error Fault.badType

def entry (v : Value) (key : String) : Except Fault Value :=
  match v with
  | dict es =>
    match es.lookup key with
    | some x => .ok x
    | Option.none => .error (Fault.missingKey key)
  | _ => .error Fault.badType

def unpack2 (v : Value) : Except Fault (Value × Value) := do
  match ← v.elements with
  | [a, b] => return (a, b)
  | items => throw (unpackFault 2 items.length)

end LintRunner.Value
