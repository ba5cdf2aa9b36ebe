import LintRunner.Check.Basic

/-!
# Signatures of plugins

A plugin is called with named arguments. Its signature says which parameters it has, which of them
may be left out, and which can be given by name at all.
-/

namespace LintRunner.Plugin

inductive ParameterKind where
  | positional
  | ordinary
  | rest
  | named
  | keywords
deriving DecidableEq, Repr, Inhabited

structure Parameter where
  name : String
  kind : ParameterKind := .ordinary
  required : Bool := true
deriving DecidableEq, Repr, Inhabited

structure Signature where
  parameters : List Parameter := []
deriving DecidableEq, Repr, Inhabited

namespace Signature

/-- Reads written parameters: `a` is required and `a=` is not; `*a` takes further arguments and `**a`
further named ones; a slash ends the parameters that go by place, and a star starts those that go
by name. -/
def ofWords (words : List String) : Signature :=
  let step (st : List Parameter × Bool) (word : String) : List Parameter × Bool :=
    let (seen, named) := st
    match word.toList with
    | ['/'] => (seen.map fun p => { p with kind := .positional }, named)
    | ['*'] => (seen, true)
    | '*' :: '*' :: name => (seen ++ [⟨String.ofList name, .keywords, false⟩], named)
    | '*' :: name => (seen ++ [⟨String.ofList name, .rest, false⟩], true)
    | cs =>
      let kind := if named then ParameterKind.named else .ordinary
      if cs.getLast? = some '=' then (seen ++ [⟨String.ofList cs.dropLast, kind, false⟩], named)
      else (seen ++ [⟨word, kind, true⟩], named)
  ⟨(words.foldl step ([], false)).1⟩

/-- The parameters that are filled in by name, each required or not. -/
def requested (s : Signature) : List (String × Bool) :=
  (s.parameters.filter (·.kind = .ordinary)).map fun p => (p.name, p.required)

def first? (s : Signature) : Option String := s.parameters.head?.map (·.name)

def Takes (p : Parameter) (name : String) : Bool :=
  p.name = name && (p.kind = .ordinary || p.kind = .named)

/-- A call with named arguments fits: each of them has a parameter, and no required one is left. -/
def accepts (s : Signature) (args : Check.Arguments) : Bool :=
  let hasParameter (name : String) : Bool :=
    s.parameters.any fun p => Takes p name || p.kind = .keywords
  args.all (fun a => hasParameter a.1) &&
    s.parameters.all fun p =>
      !p.required || args.any fun a => Takes p a.1

def bindPlaces (s : Signature) (values : List Value) : Except Fault Check.Arguments :=
  let places := s.parameters.filter fun p => p.kind = .positional || p.kind = .ordinary
  let hasRest := s.parameters.any (·.kind = .rest)
  let missing := s.parameters.filter fun p =>
    p.required && !(places.take values.length).any (·.name = p.name)
  if places.length < values.length && !hasRest then .error Fault.badType
  else if missing.isEmpty then .ok ((places.map (·.name)).zip values)
  else .error Fault.badType

end Signature

end LintRunner.Plugin
