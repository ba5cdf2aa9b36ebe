import LintRunner.Decision
import LintRunner.Discovery.Dynamic
import LintRunner.PerFile.Mapping
import LintRunner.Report.Formatter

/-!
# Style guides

A style guide says which violations of a file are reported. There is one for all files, and one for
each file pattern that has codes of its own to ignore. Of the guides that apply to a file the one
with the longest pattern counts.
-/

namespace LintRunner

structure StyleGuide where
  pattern : Option String
  decider : Decider
  disableNoqa : Bool
  /-- The lines that may be reported, for each file; empty if all may be. -/
  filter : Value := .dict []
  stats : Statistics := {}
deriving Repr, Inhabited

def Policy.ofSettings (s : Settings) : Except Fault Policy := do
  let list (name : String) : Except Fault (List String) := do (← s.get name).asTexts
  return {
    select := ← list "select"
    extendedDefaultSelect := ← list "extended_default_select"
    enableExtensions := ← list "enable_extensions"
    ignore := ← list "ignore"
    extendIgnore := ← list "extend_ignore" }

def Policy.alsoIgnoring (p : Policy) (codes : List String) : Policy :=
  { p with ignore := p.ignore ++ codes }

namespace StyleGuide

def shown (g : StyleGuide) : String :=
  "<StyleGuide [" ++ g.pattern.getD "None" ++ "]>"

/-- A guide for the files that match a pattern, with more codes ignored. Patterns are normalised
like paths; without one it is the guide's own. -/
def forFiles (g : StyleGuide) (cwd : String) (pattern : Option String) (codes : List String) :
    StyleGuide :=
  let chosen := match pattern with
    | some "" => g.pattern
    | some p => some p
    | none => g.pattern
  let normal := chosen.map fun p => if p.isEmpty then p else Path.normalized cwd "." p
  { pattern := normal
    decider := ⟨g.decider.policy.alsoIgnoring codes, []⟩
    disableNoqa := g.disableNoqa }

/-- A copy of the guide for a pattern and codes that may be anything; what counts as nothing adds
nothing. -/
def copy (g : StyleGuide) (cwd : String) (pattern codes : Value) : Except Fault StyleGuide := do
  let codes ← if codes.truthy then codes.asTexts else pure []
  if !pattern.truthy then return g.forFiles cwd none codes
  let _ ← Discovery.normalizedPath cwd (.text ".") pattern
  return g.forFiles cwd pattern.text? codes

def appliesTo (g : StyleGuide) (cwd : String) (file : Value) : Except Fault Bool :=
  match g.pattern with
  | none => .ok true
  | some p => return (Discovery.matchesPath cwd [p] (← file.asText)).1

def decisionFor (g : StyleGuide) (code : Value) : Except Fault (Decision × StyleGuide) := do
  match ← code.asKey with
  | .text code =>
    let (decision, decider) ← g.decider.decisionFor code
    return (decision, { g with decider := decider })
  | _ => throw Fault.missingAttribute

/-- What becomes of a finding in a file: the violation to report, if it is to be reported. `lookup`
gives lines of files. -/
def judge (g : StyleGuide) (lookup : Value → Value → Except Fault String) (file : Value)
    (f : Finding) : Except Fault (Option Violation × StyleGuide) := do
  let v ← f.violation file
  let (decision, g) ← g.decisionFor v.code
  let suppressed ← if g.disableNoqa then pure false else v.suppressed lookup
  let included ← v.within g.filter
  return (if decision = .selected && !suppressed && included then some v else none, g)

def record (g : StyleGuide) (v : Violation) : Except Fault StyleGuide :=
  return { g with stats := ← g.stats.record v }

end StyleGuide

/-- All style guides of a run with the formatter they share, if there is one. The first guide
applies to all files. -/
structure StyleGuides where
  guides : List StyleGuide
  formatter : Option Formatter
deriving Inhabited

namespace StyleGuides

def defaultGuide (s : Settings) : Except Fault StyleGuide := do
  return { pattern := none, decider := ⟨← Policy.ofSettings s, []⟩,
           disableNoqa := s.flag "disable_noqa" }

def perFile (s : Settings) : Except Fault (List PerFile.Pair) := do
  PerFile.read (← s.get "per_file_ignores")

def requireList (ignore : Value) : Except Fault Unit :=
  match ignore with
  | .list _ => .ok ()
  | _ => .error Fault.missingAttribute

def ofSettings (cwd : String) (s : Settings) (formatter : Option Formatter) :
    Except Fault StyleGuides := do
  let first ← defaultGuide s
  let pairs ← perFile s
  if !pairs.isEmpty then requireList (← s.get "ignore")
  let others := pairs.map fun (file, codes) => first.forFiles cwd (some file) codes
  return { guides := first :: others, formatter := formatter }

def patternLength (g : StyleGuide) : Nat := (g.pattern.getD "").length

/-- Of the guides that apply, with their positions, the last of those with the longest pattern. -/
def longest : List (Nat × StyleGuide) → Option (Nat × StyleGuide)
  | [] => none
  | g :: rest =>
    match longest rest with
    | none => some g
    | some best => if patternLength best.2 < patternLength g.2 then some g else some best

def numbered (s : StyleGuides) : List (Nat × StyleGuide) :=
  (List.range s.guides.length).zip s.guides

def guideFor (s : StyleGuides) (cwd : String) (file : Value) : Except Fault (Nat × StyleGuide) := do
  match longest (← s.numbered.filterM fun g => g.2.appliesTo cwd file) with
  | some g => return g
  | none => throw Fault.badIndex

def setGuide (s : StyleGuides) (i : Nat) (g : StyleGuide) : StyleGuides :=
  { s with guides := s.guides.set i g }

def getFormatter (s : StyleGuides) : Run Formatter :=
  match s.formatter with
  | some f => pure f
  | none => throw Fault.missingAttribute

/-- Tells the formatter something that may change it. -/
def inform (s : StyleGuides) (tell : Formatter → Run Formatter) : Run StyleGuides := do
  return { s with formatter := some (← tell (← s.getFormatter)) }

def handleBy (s : StyleGuides) (i : Nat) (file : Value) (f : Finding) : Run (Nat × StyleGuides) := do
  match s.guides[i]? with
  | none => throw Fault.badIndex
  | some g =>
    let w ← get
    let (v?, g) ← Run.lift (g.judge w.lineOf file f)
    match v? with
    | none => return (0, s.setGuide i g)
    | some v =>
      let formatter ← (← s.getFormatter).handle v
      let g ← Run.lift (g.record v)
      return (1, { s.setGuide i g with formatter := some formatter })

def handle (s : StyleGuides) (file : Value) (f : Finding) : Run (Nat × StyleGuides) := do
  let (i, _) ← Run.lift (s.guideFor (← get).tree.cwd file)
  s.handleBy i file f

end StyleGuides

end LintRunner
