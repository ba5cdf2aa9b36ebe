import LintRunner.Fault
import LintRunner.Text.Blank
import LintRunner.Text.Word

/-!
# Entry points

An entry point says where a plugin is found: a module and an object in it. Configuration files write
it as `module:object`, with dotted names.
-/

namespace LintRunner.Plugin

structure EntryPoint where
  name : String
  module : String
  object : Option String := none
deriving DecidableEq, Repr, Inhabited

namespace EntryPoint

def shown (e : EntryPoint) : String :=
  "EntryPoint(" ++ Text.literal e.name ++ ", " ++ Text.literal e.module ++ ", " ++
    (match e.object with
      | some o => Text.literal o
      | none => "None") ++ ", None)"

/-- A dotted name at the start of a text, `fuel` parts at most, and what follows it. -/
def dottedName : (fuel : Nat) → List Char → Option (List Char × List Char)
  | 0, _ => none
  | fuel + 1, cs =>
    let word := cs.takeWhile Text.isWord
    if word.isEmpty then none
    else
      match cs.dropWhile Text.isWord with
      | '.' :: rest =>
        match dottedName fuel rest with
        | some (more, after) => some (word ++ '.' :: more, after)
        | none => some (word, '.' :: rest)
      | rest => some (word, rest)

/-- What may follow the names: blanks, and anything in brackets. -/
def isTail (cs : List Char) : Bool :=
  match cs.dropWhile Text.isBlank with
  | [] => true
  | '[' :: rest => rest.getLast? = some ']' && 2 ≤ rest.length && !rest.contains '\n'
  | _ => false

def names? (cs : List Char) : Option (String × Option String) :=
  match dottedName cs.length cs with
  | none => none
  | some (module, ':' :: rest) =>
    match dottedName rest.length rest with
    | some (object, tail) =>
      if isTail tail then some (String.ofList module, some (String.ofList object)) else none
    | none => none
  | some (module, tail) => if isTail tail then some (String.ofList module, none) else none

def parse (name text : String) : Except Fault EntryPoint :=
  match names? text.toList with
  | some (module, object) => .ok ⟨name, module, object⟩
  | none =>
    .error (Fault.because .badEntryPoint ("Couldn't parse entry point spec: " ++ Text.literal text))

def ofLine (line : String) : Except Fault EntryPoint :=
  let (name, rest) := Text.cut (· == '=') line.toList
  parse (Text.trim (String.ofList name)) (Text.trim (String.ofList (rest.getD [])))

end EntryPoint

end LintRunner.Plugin
