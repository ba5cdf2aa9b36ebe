import LintRunner.Discovery.Walk
import LintRunner.Value.Sequence

/-!
# Paths and patterns as values

Settings hold paths and patterns as values, and a caller may give anything in their place. What is of
the right kind goes on to the functions on texts; anything else is a fault, but only once it is
looked at: a pattern that matches hides those after it.
-/

namespace LintRunner.Discovery

def isAccepted (patterns name : Value) : Except Fault Bool := do
  (← patterns.elements).anyM fun pattern => do
    let name ← name.asText
    return Glob.accepts (← pattern.asText) name

/-- Some pattern matches the name; where nothing is given as patterns the answer is `default`. -/
def acceptedOr (default patterns name : Value) : Except Fault Value := do
  if patterns.truthy then return .bool (← isAccepted patterns name) else return default

/-- Whether the last part of a path, or the whole path seen from the root, matches a pattern; with
the last question that was asked. -/
def isMatched (cwd : String) (patterns path : Value) :
    Except Fault (Bool × Option MatchRecord) := do
  if !patterns.truthy then return (false, none)
  let path ← path.asText
  let base := Path.baseName path
  if ← isAccepted patterns (.text base) then return (true, some ⟨base, true⟩)
  return matchesPath cwd (← patterns.asTexts) path

def greatestHandle : Int := 2147483647

/-- The files that an argument stands for. A number stands for an open file, which is no directory;
whatever else is no text cannot be looked for. -/
def filesBy (t : FileTree) (excluded : Value → Except Fault Bool) (arg : Value) :
    Except Fault (List Value) := do
  if ← excluded arg then return []
  match arg with
  | .text path =>
    let excludedPath (p : String) : Bool := (excluded (.text p)).toOption.getD false
    return (filesFrom t excludedPath path).map .text
  | arg =>
    let n ← arg.asInt
    if n < -greatestHandle - 1 || greatestHandle < n then throw (.raised .overflow [])
    return [arg]

def normalizedPath (cwd : String) (parent path : Value) : Except Fault Value := do
  match path with
  | .text s =>
    let parent ← if s.toList.contains '/' then parent.asText else pure "."
    return .text (Path.normalized cwd parent s)
  | v => if ← (Value.text "/").isIn v then throw Fault.badType else throw Fault.missingAttribute

end LintRunner.Discovery
