import LintRunner.Fault

/-!
# Which codes are reported

The user selects and ignores codes by their beginnings, plugins add selections of their own, and
there are default lists for both. A `Policy` holds these lists; `Policy.decide` takes the decision
for one code. A `Decider` remembers the decisions it has taken.
-/

namespace LintRunner

def defaultIgnore : List String :=
  ["E121", "E123", "E126", "E226", "E24", "E704", "W503", "W504"]

def defaultSelect : List String := ["E", "F", "W", "C90"]

/-- How a list speaks about a code. -/
inductive Standing where
  | selectedExplicitly
  | selectedImplicitly
  | ignoredExplicitly
  | ignoredImplicitly
deriving DecidableEq, Repr

inductive Decision where
  | ignored
  | selected
deriving DecidableEq, Repr, Inhabited

structure Policy where
  select : List String
  enableExtensions : List String
  extendedDefaultSelect : List String
  ignore : List String
  extendIgnore : List String
deriving DecidableEq, Repr, Inhabited

/-- Codes in decreasing order, so that a longer one stands before its own beginnings. -/
def descending (codes : List String) : List String :=
  codes.mergeSort fun a b => !Text.lt a b

def startsWithAny (code : String) (codes : List String) : Bool :=
  codes.any (Text.startsWith code ·)

def firstMatch (code : String) (codes : List String) : Option String :=
  codes.find? (Text.startsWith code ·)

def sameCodes (a b : List String) : Bool := a.all b.contains && b.all a.contains

/-- Of a selected and an ignored beginning of one code the longer one wins, an equal one does not. -/
def moreSpecific (selected ignored : String) : Decision :=
  if Text.startsWith selected ignored && selected ≠ ignored then .selected else .ignored

namespace Policy

def allSelected (p : Policy) : List String := descending (p.select ++ p.enableExtensions)

def extendedSelected (p : Policy) : List String := descending p.extendedDefaultSelect

def allIgnored (p : Policy) : List String := descending (p.ignore ++ p.extendIgnore)

def usesDefaultIgnore (p : Policy) : Bool := sameCodes p.allIgnored defaultIgnore

def usesDefaultSelect (p : Policy) : Bool := sameCodes p.select defaultSelect

/-- What the selections say about a code. Selections of plugins count only where the user selects
nothing. -/
def wasSelected (p : Policy) (code : String) : Standing :=
  if startsWithAny code p.allSelected then .selectedExplicitly
  else if p.allSelected.isEmpty && startsWithAny code p.extendedSelected then .selectedImplicitly
  else .ignoredImplicitly

def wasIgnored (p : Policy) (code : String) : Standing :=
  if startsWithAny code p.allIgnored then .ignoredExplicitly else .selectedImplicitly

def hit (m : Option String) : Option String := m.filter (!·.isEmpty)

/-- The decision where the lists disagree, or where none of the user's selections applies. -/
def moreSpecificDecision (p : Policy) (code : String) : Decision :=
  let select := firstMatch code p.allSelected
  let extra := firstMatch code p.extendedSelected
  let ignore := firstMatch code p.allIgnored
  match hit select, hit extra, hit ignore with
  | some s, _, some i =>
    if p.usesDefaultIgnore && !p.usesDefaultSelect then .selected else moreSpecific s i
  | none, some e, some i => moreSpecific e i
  | some _, _, none => .selected
  | none, e, _ =>
    if e.isSome && p.usesDefaultSelect then .selected
    else if select.isNone && (extra.isNone || !p.usesDefaultIgnore) then .ignored
    else if select.isNone && !p.usesDefaultSelect && ignore.isNone && p.usesDefaultIgnore then
      .ignored
    else .selected

def decide (p : Policy) (code : String) : Except Fault Decision :=
  let selected := p.wasSelected code
  let ignored := p.wasIgnored code
  if (selected = .selectedExplicitly || selected = .selectedImplicitly) &&
      ignored = .selectedImplicitly then .ok .selected
  else if (selected = .selectedExplicitly && ignored = .ignoredExplicitly) ||
      (selected = .ignoredImplicitly && ignored = .selectedImplicitly) then
    .ok (p.moreSpecificDecision code)
  else if selected = .ignoredImplicitly || ignored = .ignoredExplicitly then .ok .ignored
  else .error Fault.unassigned

end Policy

structure Decider where
  policy : Policy
  taken : List (String × Decision) := []
deriving DecidableEq, Repr, Inhabited

def Decider.decisionFor (d : Decider) (code : String) : Except Fault (Decision × Decider) := do
  match d.taken.lookup code with
  | some decision => return (decision, d)
  | none =>
    let decision ← d.policy.decide code
    return (decision, { d with taken := d.taken ++ [(code, decision)] })

end LintRunner
