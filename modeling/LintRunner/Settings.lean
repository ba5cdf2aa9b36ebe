import LintRunner.Entries
import LintRunner.Fault

/-!
# Settings

The values of all options after parsing, by name and in the order in which they were first set.
Plugins may add options of their own, so the names are open.
-/

namespace LintRunner

structure Settings where
  entries : List (String × Value) := []
deriving Inhabited, BEq, Repr

namespace Settings

def set (s : Settings) (name : String) (v : Value) : Settings := ⟨Entries.put name v s.entries⟩

def setAll (s : Settings) (entries : List (String × Value)) : Settings :=
  entries.foldl (fun s e => s.set e.1 e.2) s

def find? (s : Settings) (name : String) : Option Value := s.entries.lookup name

def get (s : Settings) (name : String) : Except Fault Value :=
  match s.find? name with
  | some v => .ok v
  | none =>
    .error (Fault.because .missingAttribute
      ("'Values' object has no attribute " ++ Text.literal name))

def value (s : Settings) (name : String) : Value := (s.find? name).getD .none

def flag (s : Settings) (name : String) : Bool := (s.value name).truthy

def texts (s : Settings) (name : String) : List String := (s.value name).textItems

def text (s : Settings) (name : String) : String := (s.value name).text?.getD ""

end Settings

end LintRunner
