import LintRunner.Options.Declaration
import LintRunner.Plugin.Extension

/-!
# The name checker

The checker of names and imports that comes with the program. Its messages are given codes, and its
options say which further names count as defined and in which files doctests are checked.
-/

namespace LintRunner.Plugin.Flakes

def version : String := "2.1.1"

structure MessageKind where
  name : String
  code : String
  template : String
deriving Repr, Inhabited

/-- All kinds of message; kinds without a code of their own share the last one. -/
def messageKinds : List MessageKind :=
  [⟨"UnusedImport", "F401", "%r imported but unused"⟩,
   ⟨"RedefinedWhileUnused", "F811", "redefinition of unused %r from line %r"⟩,
   ⟨"RedefinedInListComp", "F812", "list comprehension redefines %r from line %r"⟩,
   ⟨"ImportShadowedByLoopVar", "F402", "import %r from line %r shadowed by loop variable"⟩,
   ⟨"ImportStarNotPermitted", "F406", "'from %s import *' only allowed at module level"⟩,
   ⟨"ImportStarUsed", "F403", "'from %s import *' used; unable to detect undefined names"⟩,
   ⟨"ImportStarUsage", "F405", "%r may be undefined, or defined from star imports: %s"⟩,
   ⟨"UndefinedName", "F821", "undefined name %r"⟩,
   ⟨"DoctestSyntaxError", "F721", "syntax error in doctest"⟩,
   ⟨"UndefinedExport", "F822", "undefined name %r in __all__"⟩,
   ⟨"UndefinedLocal", "F823", "local variable %r \x7b0\x7d referenced before assignment"⟩,
   ⟨"DuplicateArgument", "F831", "duplicate argument %r in function definition"⟩,
   ⟨"MultiValueRepeatedKeyLiteral", "F601", "dictionary key %r repeated with different values"⟩,
   ⟨"MultiValueRepeatedKeyVariable", "F602", "dictionary key variable %s repeated with different values"⟩,
   ⟨"LateFutureImport", "F404", "from __future__ imports must occur at the beginning of the file"⟩,
   ⟨"FutureFeatureNotDefined", "F407", "future feature %s is not defined"⟩,
   ⟨"UnusedVariable", "F841", "local variable %r is assigned to but never used"⟩,
   ⟨"ReturnWithArgsInsideGenerator", "F705", "'return' with argument inside generator"⟩,
   ⟨"ReturnOutsideFunction", "F706", "'return' outside function"⟩,
   ⟨"YieldOutsideFunction", "F704", "'yield' outside function"⟩,
   ⟨"ContinueOutsideLoop", "F702", "'continue' not properly in loop"⟩,
   ⟨"BreakOutsideLoop", "F701", "'break' outside loop"⟩,
   ⟨"ContinueInFinally", "F703", "'continue' not supported inside 'finally' clause"⟩,
   ⟨"DefaultExceptNotLast", "F707", "default 'except:' must be last"⟩,
   ⟨"TwoStarredExpressions", "F622", "two starred expressions in assignment"⟩,
   ⟨"TooManyExpressionsInStarredAssignment", "F621", "too many expressions in star-unpacking assignment"⟩,
   ⟨"AssertTuple", "F631", "assertion is always true, perhaps remove parentheses?"⟩,
   ⟨"ForwardAnnotationSyntaxError", "F722", "syntax error in forward annotation %r"⟩,
   ⟨"CommentAnnotationSyntaxError", "F999", "syntax error in type comment %r"⟩,
   ⟨"RaiseNotImplemented", "F901", "'raise NotImplemented' should be 'raise NotImplementedError'"⟩,
   ⟨"InvalidPrintSyntax", "F999", "use of >> is invalid with print function"⟩,
   ⟨"IsLiteral", "F999", "use ==/!= to compare str, bytes, and int literals"⟩]

/-- A message: its kind, its place, and what fills its wording. -/
structure Message where
  kind : String
  line : Value
  column : Value
  arguments : List Value
deriving Repr, Inhabited

def Message.text (m : Message) : Except Fault String :=
  match messageKinds.find? (·.name = m.kind) with
  | some k => Template.fill (k.code ++ " " ++ k.template) (.ordered m.arguments)
  | none => .error Fault.missingAttribute

def builtins : List String :=
  ["ArithmeticError", "AssertionError", "AttributeError", "BaseException", "BaseExceptionGroup",
   "BlockingIOError", "BrokenPipeError", "BufferError", "BytesWarning", "ChildProcessError",
   "ConnectionAbortedError", "ConnectionError", "ConnectionRefusedError", "ConnectionResetError",
   "DeprecationWarning", "EOFError", "Ellipsis", "EncodingWarning", "EnvironmentError", "Exception",
   "ExceptionGroup", "False", "FileExistsError", "FileNotFoundError", "FloatingPointError",
   "FutureWarning", "GeneratorExit", "IOError", "ImportError", "ImportWarning", "IndentationError",
   "IndexError", "InterruptedError", "IsADirectoryError", "KeyError", "KeyboardInterrupt",
   "LookupError", "MemoryError", "ModuleNotFoundError", "NameError", "None", "NotADirectoryError",
   "NotImplemented", "NotImplementedError", "OSError", "OverflowError", "PendingDeprecationWarning",
   "PermissionError", "ProcessLookupError", "RecursionError", "ReferenceError", "ResourceWarning",
   "RuntimeError", "RuntimeWarning", "StopAsyncIteration", "StopIteration", "SyntaxError",
   "SyntaxWarning", "SystemError", "SystemExit", "TabError", "TimeoutError", "True", "TypeError",
   "UnboundLocalError", "UnicodeDecodeError", "UnicodeEncodeError", "UnicodeError",
   "UnicodeTranslateError", "UnicodeWarning", "UserWarning", "ValueError", "Warning",
   "WindowsError", "ZeroDivisionError", "__annotations__", "__build_class__", "__builtins__",
   "__debug__", "__doc__", "__file__", "__import__", "__loader__", "__name__", "__package__",
   "__spec__", "abs", "aiter", "all", "anext", "any", "ascii", "bin", "bool", "breakpoint",
   "bytearray", "bytes", "callable", "chr", "classmethod", "compile", "complex", "copyright",
   "credits", "delattr", "dict", "dir", "divmod", "enumerate", "eval", "exec", "exit", "filter",
   "float", "format", "frozenset", "getattr", "globals", "hasattr", "hash", "help", "hex", "id",
   "input", "int", "isinstance", "issubclass", "iter", "len", "license", "list", "locals", "map",
   "max", "memoryview", "min", "next", "object", "oct", "open", "ord", "pow", "print", "property",
   "quit", "range", "repr", "reversed", "round", "set", "setattr", "slice", "sorted",
   "staticmethod", "str", "sum", "super", "tuple", "type", "vars", "zip"]

def options : List OptionRequest :=
  [{ positional := [.text "--builtins"]
     named := [("parse_from_config", .bool true), ("comma_separated_list", .bool true),
      ("help", .text "define more built-ins, comma separated")] },
   { positional := [.text "--doctests"]
     named := [("default", .bool false), ("action", .text "store_true"),
      ("parse_from_config", .bool true), ("help", .text "check syntax of the doctests")] },
   { positional := [.text "--include-in-doctest"]
     named := [("default", .text ""), ("dest", .text "include_in_doctest"),
      ("parse_from_config", .bool true), ("comma_separated_list", .bool true),
      ("normalize_paths", .bool true), ("help", .text "Run doctests only on these files"),
      ("type", .text "string")] },
   { positional := [.text "--exclude-from-doctest"]
     named := [("default", .text ""), ("dest", .text "exclude_from_doctest"),
      ("parse_from_config", .bool true), ("comma_separated_list", .bool true),
      ("normalize_paths", .bool true), ("help", .text "Skip these files when running doctests"),
      ("type", .text "string")] }]

/-- Names that are defined anyway, and where doctests are checked. -/
structure Scope where
  added : List String := []
  /-- Doctests are checked where no path says otherwise. -/
  withDoctest : Value := .bool false
  included : List String := []
  excluded : List String := []
deriving Repr, Inhabited

/-- A path that must be absolute: one that does not look like a path is taken from here. -/
def anchored (path : String) : String :=
  if Text.startsWith path "/" || Text.startsWith path "./" || Text.startsWith path "~/" then path
  else "./" ++ path

/-- Paths in their normal form; empty ones are left out. -/
def anchoredPaths (cwd : String) (v : Value) : Except Fault (List String) := do
  let paths ← (← v.elements).mapM fun
    | .text path => .ok path
    | _ => .error Fault.missingAttribute
  let kept := (paths.filter (!·.isEmpty)).map anchored
  return (Text.keepItems kept).map (Path.normalized cwd ".")

/-- Reads the options. A path must not be both included and excluded. -/
def Scope.ofSettings (cwd : String) (s : Settings) : Except Fault Scope := do
  let more ← s.get "builtins"
  let more ← if more.truthy then (← more.elements).mapM Value.asKey else pure []
  let added := (more.filterMap Value.text?).filter (!builtins.contains ·)
  let included ← anchoredPaths cwd (← s.get "include_in_doctest")
  let excluded ← anchoredPaths cwd (← s.get "exclude_from_doctest")
  let both := Text.sorted (Text.dedup (included.filter excluded.contains))
  if !both.isEmpty then
    throw (Fault.badValue ("\"" ++ (Value.set (both.map .text)).literal ++ "\" was specified in " ++
      "both the include-in-doctest and exclude-from-doctest options. You are not allowed to " ++
      "specify it in both for doctesting."))
  return ⟨Text.sorted (Text.dedup added), ← s.get "doctests", included, excluded⟩

/-- The name of a file in its normal form: the first one, if it is a list of names. -/
def fileName (cwd : String) (file : Value) : Except Fault String := do
  match ← Options.Declaration.listed .commaOrBlank file with
  | [] => throw Fault.badIndex
  | name :: _ => return Path.normalized cwd "." name

/-- Whether the doctests of a file are checked. An excluded path wins over included ones, unless one
of those lies deeper. -/
def Scope.checksDoctests (scope : Scope) (name : String) : Value :=
  let covers (path : String) : Bool := !path.isEmpty && Text.startsWith name path
  let includedBy := scope.included.filter covers
  let start := if includedBy.isEmpty then scope.withDoctest else .bool true
  let step (checked : Value) (path : String) : Value :=
    if covers path then .bool (includedBy.any (Text.startsWith · path)) else checked
  scope.excluded.foldl step start

def Scope.doctestsIn (scope : Scope) (cwd : String) (file : Value) :
    Except Fault (Value × String) := do
  let name ← fileName cwd file
  return (scope.checksDoctests name, name)

def silent : RuleCheck :=
  { signature := Signature.ofWords ["tree", "filename"], rules := [], mode := .generator,
    isClass := true }

/-- The checker as an extension. It finds nothing, but it needs a file that has a name. -/
def extension : Extension :=
  { isClass := true
    signature := Signature.ofWords ["tree", "filename"]
    attributes := [("name", .text "pyflakes"), ("version", .text version)]
    module := "flake8.plugins.pyflakes"
    options := options
    brief := some fun
      | .full .. => throw Fault.badType
      | .short s => do
        let _ ← Run.lift (Scope.ofSettings (← Run.tree).cwd s)
        return
    call := fun args =>
      match fileName "/" ((args.lookup "filename").getD .none) with
      | .error f => ⟨.error f, none⟩
      | .ok _ => silent.call args }

end LintRunner.Plugin.Flakes
