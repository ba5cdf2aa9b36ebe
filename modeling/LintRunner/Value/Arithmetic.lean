import LintRunner.Value.Sequence

/-!
# Arithmetic of values

Integers, truth values and real numbers can be added and compared with each other; the result is a
real number if one of them is. Anything else is a fault.
-/

namespace LintRunner.Value

def asReal (v : Value) : Except Fault Binary64 :=
  match v with
  | float x => .ok x
  | v => do Binary64.ofInteger (← v.asInt)

/-- Combines two numbers: as real numbers if one of them is one, and as integers otherwise. -/
def combine (reals : Binary64 → Binary64 → Binary64) (ints : Int → Int → Int) (v w : Value) :
    Except Fault Value := do
  match v, w with
  | float x, w => return .float (reals x (← w.asReal))
  | v, float y => return .float (reals (← v.asReal) y)
  | v, w => return .int (ints (← v.asInt) (← w.asInt))

def sum (v w : Value) : Except Fault Value := combine Binary64.add (· + ·) v w

def difference (v w : Value) : Except Fault Value := combine Binary64.sub (· - ·) v w

def plus (v : Value) (n : Int) : Except Fault Value := v.sum (.int n)

def floorQuotient (v w : Value) : Except Fault Value := do
  match v.int?, w.int? with
  | some m, some n =>
    if n = 0 then throw (Fault.because .divisionByZero "integer division or modulo by zero")
    return .int (Int.fdiv m n)
  | _, _ =>
    let x ← v.asReal
    let y ← w.asReal
    if y.isZero then throw (Fault.because .divisionByZero "float floor division by zero")
    match x.extent?, y.extent? with
    | some (.finite a b), some (.finite c d) =>
      return .float (Binary64.ofInt (Int.fdiv (a * d) (c * b)))
    | some (.finite a _), some _ =>
      return .float (Binary64.ofInt (if a = 0 || (a < 0) = y.negative then 0 else -1))
    | _, _ => return .float (x.sub x)

/-- Where a value lies must satisfy `p`; it must be a real number, and one that lies nowhere never
does. -/
def liesWhere (v : Value) (p : Extent → Bool) : Except Fault Bool :=
  if v.isNumber then .ok (v.extent?.any p) else .error Fault.badType

def isAtLeast (v : Value) (n : Int) : Except Fault Bool := v.liesWhere fun a => !a.lt (.finite n 1)

def exceeds (v : Value) (n : Int) : Except Fault Bool := v.liesWhere (Extent.finite n 1).lt

def isBetween (v : Value) (lo hi : Int) : Except Fault Bool :=
  v.liesWhere fun a => !a.lt (.finite lo 1) && !(Extent.finite hi 1).lt a

def isBelow (v : Value) (n : Int) : Except Fault Bool := v.liesWhere (·.lt (.finite n 1))

end LintRunner.Value
