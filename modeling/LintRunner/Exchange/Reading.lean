import LintRunner.Check.Manager
import LintRunner.Exchange.Json
import LintRunner.Plugin.Flakes

/-!
# Reading things from data

Tokens, violations and what belongs to them, as other programs write them.
-/

namespace LintRunner

namespace Source

def Pos.ofData (v : Value) : Pos := ⟨(v.item 0).num, (v.item 1).num⟩

def TokenKind.ofData (v : Value) : TokenKind := (TokenKind.ofLabel? v.str).getD .errorToken

def Token.ofData (v : Value) : Token :=
  ⟨.ofData (v.item 0), (v.item 1).str, .ofData (v.item 2), .ofData (v.item 3), (v.item 4).str⟩

def Mapping.ofData (v : Value) : Mapping :=
  v.sequence.map fun e => ((e.item 0).num, Pos.ofData (e.item 1))

end Source

/-- A violation: code, file, line, column, text and source line. -/
def Violation.ofData (vs : List Value) : Except Fault Violation :=
  match vs with
  | [code, file, line, column, text, source] => .ok ⟨code, file, line, column, text, source⟩
  | _ => .error Fault.badType

/-- A file and a finding in it; the source line may be left out. -/
def Finding.ofData (vs : List Value) : Except Fault (Value × Finding) :=
  match vs with
  | [code, file, line, column, text] => .ok (file, ⟨code, line, column, text, .none⟩)
  | [code, file, line, column, text, source] => .ok (file, ⟨code, line, column, text, source⟩)
  | _ => .error Fault.badType

def Check.FileChecker.ofData (v : Value) : Except Fault FileChecker := do
  match ← v.elements with
  | [name, results, counts] =>
    return { filename := name, displayName := name, checks := default,
             handed := some (results, counts) }
  | items => throw (Value.unpackFault 3 items.length)

/-- Kinds of message that tell of an earlier place as well, of which the line counts. -/
def Plugin.Flakes.twoPlaced : List String :=
  ["RedefinedWhileUnused", "RedefinedInListComp", "ImportShadowedByLoopVar", "UndefinedLocal"]

def Plugin.Flakes.withPlace (kind : String) : List Value → Except Fault (List Value)
  | [name, place] =>
    match place.field? "lineno" with
    | some line => .ok [name, line]
    | none =>
      if kind = "UndefinedLocal" && place == .none then .ok [name]
      else .error Fault.missingAttribute
  | args => .ok args

/-- A message of the name checker: kind, line, column and arguments. A fault in a doctest may bring
its own place, and what a late import imports is not told. -/
def Plugin.Flakes.Message.ofData (v : Value) : Except Fault Message := do
  let kind := (v.item 0).str
  let args := if kind = "LateFutureImport" then [] else (v.item 3).sequence
  if kind = "DoctestSyntaxError" then
    let place := args.headD .none
    if !place.truthy then return ⟨kind, v.item 1, v.item 2, []⟩
    let (line, column) ← place.unpack2
    return ⟨kind, line, column, []⟩
  if twoPlaced.contains kind then return ⟨kind, v.item 1, v.item 2, ← withPlace kind args⟩
  return ⟨kind, v.item 1, v.item 2, args.map fun a => (a.field? "lineno").getD a⟩

def FormatStyle.ofName (name : String) : FormatStyle :=
  match name with
  | "base" => .base
  | "simple" => .simple
  | "pylint" => .pylint
  | "filename" => .fileNames
  | "nothing" => .nothing
  | "int" => .foreign
  | _ => .default

end LintRunner
