import LintRunner.Plugin.Signature

/-!
# Checks described by rules

A check may be described by data: rules that search its subject for a text, give a fixed result, or
fail. The subject is the argument of the first parameter. Rules are evaluated in order, all at once
or while results are taken.
-/

namespace LintRunner.Plugin

open Check (Arguments Emission Results Reply Call)
open Source (CheckerState)

inductive Rule where
  | fail (fault : Fault)
  | find (text needle : Value)
  /-- One result; arguments are shown behind the text, and a counter in the check's memory. -/
  | say (text : Value) (place : Option Value) (shown : List String) (counter : Option String)
deriving Inhabited

inductive Mode where
  | list
  | single
  | none
  | generator
deriving DecidableEq, Repr, Inhabited

def lengthOnly : List String := ["tokens", "file_tokens", "lines"]

def shownArgument (args : Arguments) (name : String) : String :=
  let v := (args.lookup name).getD .none
  let v := if lengthOnly.contains name then
      match v.items? with
      | some items => .int items.length
      | Option.none => v
    else v
  " " ++ name ++ "=" ++ v.json

def result (isTree : Bool) (place text : Value) : Except Fault Value :=
  if isTree then
    match place.items? with
    | some [line, column] => .ok (.tuple [line, column, text, .text "ignored"])
    | _ => .error Fault.badType
  else
    match place with
    | .list items => .ok (.tuple [.tuple items, text])
    | p => .ok (.tuple [p, text])

def extended (text : Value) (words : List String) : Except Fault Value :=
  if words.isEmpty then .ok text else return .text ((← text.asText) ++ String.join words)

def countUp (key : String) (memory : Option CheckerState) :
    Except Fault (Int × Option CheckerState) :=
  match memory with
  | Option.none => .error Fault.badType
  | some m =>
    match ((m.lookup key).getD (.int 0)).int? with
    | some n => .ok (n + 1, some (Entries.put key (.int (n + 1)) m))
    | Option.none => .error Fault.badType

def Rule.results (isTree : Bool) (args : Arguments) (subject : Value)
    (memory : Option CheckerState) : Rule → Except Fault (List Value × Option CheckerState)
  | .fail f => .error f
  | .find text needle =>
    match subject, needle with
    | .text s, .text needle => do
      let places := Text.occurrencesFrom needle.toList 0 0 s.toList
      let rs ← places.mapM fun (n : Nat) => result isTree (.int n) text
      return (rs, memory)
    | _, _ => .error Fault.badType
  | .say text place shown counter => do
    let place := place.getD (if isTree then .list [.int 1, .int 0] else .int 0)
    let text ← extended text (shown.map (shownArgument args))
    match counter with
    | Option.none => return ([← result isTree place text], memory)
    | some key =>
      let (n, memory) ← countUp key memory
      return ([← result isTree place (← extended text [" " ++ toString n])], memory)

/-- All results in order, each with the memory after it; the memory at the end; and the fault that
ends them, if any. -/
def emissions (isTree : Bool) (args : Arguments) (subject : Value) :
    Option CheckerState → List Rule → List Emission × Option CheckerState × Option Fault
  | memory, [] => ([], memory, Option.none)
  | memory, rule :: rest =>
    match rule.results isTree args subject memory with
    | .error f => ([], memory, some f)
    | .ok (rs, memory) =>
      let (more, memory', fault) := emissions isTree args subject memory rest
      (rs.map (fun r => ⟨r, memory⟩) ++ more, memory', fault)

def evaluate (mode : Mode) (isTree : Bool) (args : Arguments) (subject : Value)
    (memory : Option CheckerState) (rules : List Rule) :
    Except Fault Results × Option CheckerState :=
  let (items, after, fault) := emissions isTree args subject memory rules
  match mode, fault with
  | .generator, fault => (.ok (.stream items after fault), memory)
  | _, some f => (.error f, after)
  | .list, Option.none => (.ok (.ready (items.map (·.result))), after)
  | .none, Option.none => (.ok .nothing, after)
  | .single, Option.none =>
    match items with
    | ⟨.tuple parts, _⟩ :: _ => (.ok (.lone parts), after)
    | _ => (.ok .nothing, after)

structure RuleCheck where
  signature : Signature
  rules : List Rule
  mode : Mode := .list
  isClass : Bool := false
  noRun : Bool := false
  eager : Bool := false
deriving Inhabited

def memoryOf (args : Arguments) : Option CheckerState :=
  match args.lookup "checker_state" with
  | some (.dict entries) => some entries
  | _ => Option.none

def RuleCheck.call (c : RuleCheck) (args : Arguments) : Call :=
  let memory := memoryOf args
  let first := c.signature.first?.getD ""
  let isTree := first = "tree"
  let subject := (args.lookup first).getD .none
  if !c.signature.accepts args then ⟨.error Fault.badType, memory⟩
  else if !c.isClass then
    let (r, memory) := evaluate c.mode isTree args subject memory c.rules
    ⟨r.map Reply.results, memory⟩
  else
    let made : Except Fault Unit × Option CheckerState :=
      if c.eager then
        let (_, memory, fault) := emissions isTree args subject memory c.rules
        match fault with
        | some f => (.error f, memory)
        | Option.none => (.ok (), memory)
      else (.ok (), memory)
    match made with
    | (.error f, memory) => ⟨.error f, memory⟩
    | (.ok _, memory) =>
      if c.noRun then ⟨.ok (.results .inert), memory⟩
      else
        let (r, after) := evaluate c.mode isTree args subject memory c.rules
        ⟨.ok (.runner r after), memory⟩

end LintRunner.Plugin
