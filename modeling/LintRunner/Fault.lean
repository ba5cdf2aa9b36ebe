import LintRunner.Number.Integer
import LintRunner.Value

/-!
# Faults

What stops a run, or one step of it. A fault has a kind, whose name appears in reports, and a
message. Faults that wrap another one keep it as their cause.
-/

namespace LintRunner

inductive FaultKind where
  | badSyntax
  | badIndentation
  | badToken
  | badValue
  | badType
  | missingKey
  | missingAttribute
  | missingImport
  | missingSection
  | interrupted
  | system
  | runtime
  | badIndex
  | unassigned
  | undecodable
  | unencodable
  | assertionFailed
  | overflow
  | noMemory
  | divisionByZero
  | notImplemented
  | badEntryPoint
  | duplicateSection
  | duplicateOption
  | missingSectionHeader
  | unparsableFile
  | optionConflict
  | badOption
  | badOptionValue
  | unspecified
  | earlyQuit
  | execution
  | hookInstallation
deriving DecidableEq, Repr, Inhabited

def FaultKind.name : FaultKind → String
  | badSyntax => "SyntaxError"
  | badIndentation => "IndentationError"
  | badToken => "TokenError"
  | badValue => "ValueError"
  | badType => "TypeError"
  | missingKey => "KeyError"
  | missingAttribute => "AttributeError"
  | missingImport => "ImportError"
  | missingSection => "NoSectionError"
  | interrupted => "KeyboardInterrupt"
  | system => "OSError"
  | runtime => "RuntimeError"
  | badIndex => "IndexError"
  | unassigned => "UnboundLocalError"
  | undecodable => "UnicodeDecodeError"
  | unencodable => "UnicodeEncodeError"
  | assertionFailed => "AssertionError"
  | overflow => "OverflowError"
  | noMemory => "MemoryError"
  | divisionByZero => "ZeroDivisionError"
  | notImplemented => "NotImplementedError"
  | badEntryPoint => "BadEntryPoint"
  | duplicateSection => "DuplicateSectionError"
  | duplicateOption => "DuplicateOptionError"
  | missingSectionHeader => "MissingSectionHeaderError"
  | unparsableFile => "ParsingError"
  | optionConflict => "OptionConflictError"
  | badOption => "OptionError"
  | badOptionValue => "OptionValueError"
  | unspecified => "Flake8Exception"
  | earlyQuit => "EarlyQuit"
  | execution => "ExecutionError"
  | hookInstallation => "HookInstallationError"

inductive TakenHook where
  | unnamed
  | commit
  | refresh
deriving DecidableEq, Repr, Inhabited

/-- What stops a run, or one step of it. -/
inductive Fault where
  | raised (kind : FaultKind) (args : List Value)
  | loadFailed (plugin : String) (cause : Fault)
  | unknownParameters (plugin : String) (cause : Fault)
  | executionFailed (plugin : String) (cause : Fault)
  | invalidSyntax (message : String)
  | gitHookExists (path : String)
  | mercurialHookExists (hook : TakenHook) (value path : String)
  | exit (status : Value)
deriving Inhabited, BEq, Repr

namespace Fault

def systemNames : List (Int × String) :=
  [(1, "PermissionError"), (2, "FileNotFoundError"), (3, "ProcessLookupError"),
   (4, "InterruptedError"), (10, "ChildProcessError"), (11, "BlockingIOError"),
   (13, "PermissionError"), (17, "FileExistsError"), (20, "NotADirectoryError"),
   (21, "IsADirectoryError"), (32, "BrokenPipeError"), (103, "ConnectionAbortedError"),
   (104, "ConnectionResetError"), (108, "BrokenPipeError"), (110, "TimeoutError"),
   (111, "ConnectionRefusedError"), (114, "BlockingIOError"), (115, "BlockingIOError")]

/-- A system fault is told by a number, what happened, and perhaps files; other arguments have no
meaning. -/
def isSystemReport (args : List Value) : Bool := 2 ≤ args.length && args.length ≤ 5

def systemName (args : List Value) : String :=
  match if isSystemReport args then (args.headD .none).whole? else none with
  | some number => (systemNames.lookup number).getD "OSError"
  | none => "OSError"

/-- The files that a system fault is about. Where an operation would have blocked, a number in the
place of the file counts what was written. -/
def systemFiles (args : List Value) : List Value :=
  if !isSystemReport args then []
  else
    match args.drop 2 with
    | [] => []
    | file :: rest =>
      if file == .none || (systemName args = "BlockingIOError" && file.isNumber) then []
      else
        match rest with
        | [_, other] => if other == .none then [file] else [file, other]
        | _ => [file]

def systemMessage (args : List Value) : String :=
  match args with
  | number :: what :: _ =>
    if isSystemReport args then
      let files := systemFiles args
      "[Errno " ++ number.plain ++ "] " ++ what.plain ++ (if files.isEmpty then "" else ": ") ++
        Text.joinWith " -> " (files.map (·.literal))
    else (Value.tuple args).literal
  | [v] => v.plain
  | [] => ""

def name : Fault → String
  | raised .system args => systemName args
  | raised kind _ => kind.name
  | loadFailed .. => "FailedToLoadPlugin"
  | unknownParameters .. => "PluginRequestedUnknownParameters"
  | executionFailed .. => "PluginExecutionFailed"
  | invalidSyntax _ => "InvalidSyntax"
  | gitHookExists _ => "GitHookAlreadyExists"
  | mercurialHookExists .unnamed _ _ => "MercurialHookAlreadyExists"
  | mercurialHookExists .commit _ _ => "MercurialCommitHookAlreadyExists"
  | mercurialHookExists .refresh _ _ => "MercurialQRefreshHookAlreadyExists"
  | exit _ => "SystemExit"

/-- The message of arguments without further meaning: nothing, the one argument, or all of them. -/
def argumentsMessage : List Value → String
  | [] => ""
  | [v] => v.plain
  | args => (Value.tuple args).literal

def lastPart (s : String) : String :=
  String.ofList ((s.toList.reverse.takeWhile (· != '/')).reverse)

/-- The file and the line of details: a file that is a text, and a line that is an integer. A line
that does not fit into a machine word is shown as -1. -/
def detailParts (details : List Value) : List String :=
  let most : Int := 9223372036854775807
  let file := match details with
    | .text f :: _ => [lastPart f]
    | _ => []
  let line := match details with
    | _ :: .int n :: _ => ["line " ++ toString (if -most - 1 ≤ n && n ≤ most then n else -1)]
    | _ => []
  file ++ line

def syntaxMessage (args : List Value) : String :=
  let msg := (args.headD .none).plain
  let details := match args with
    | [_, .text s] => s.toList.map fun c => .text (String.ofList [c])
    | [_, .dict es] => es.map fun e => .text e.1
    | [_, details] => details.items?.getD []
    | _ => []
  match detailParts details with
  | [] => msg
  | parts => msg ++ " (" ++ Text.joinWith ", " parts ++ ")"

def kindMessage (kind : FaultKind) (args : List Value) : String :=
  match kind, args with
  | .missingKey, [v] => v.literal
  | .system, args => systemMessage args
  | .badSyntax, args => syntaxMessage args
  | .badIndentation, args => syntaxMessage args
  | _, args => argumentsMessage args

def hookName : TakenHook → String
  | .unnamed => "None"
  | .commit => "commit"
  | .refresh => "qrefresh"

def message : Fault → String
  | raised kind args => kindMessage kind args
  | loadFailed plugin cause =>
    "Flake8 failed to load plugin \"" ++ plugin ++ "\" due to " ++ cause.message ++ "."
  | unknownParameters plugin cause =>
    "\"" ++ plugin ++ "\" requested unknown parameters causing " ++ cause.message
  | executionFailed plugin cause =>
    "\"" ++ plugin ++ "\" failed during execution due to \"" ++ cause.message ++ "\""
  | invalidSyntax message => message
  | gitHookExists path =>
    "The Git pre-commit hook (" ++ path ++ ") already exists. To convince Flake8 to install the " ++
      "hook, please remove the existing hook."
  | mercurialHookExists hook value path =>
    "The Mercurial " ++ hookName hook ++ " hook already exists with \"" ++ value ++ "\" in " ++
      path ++ ". To convince Flake8 to install the hook, please remove the " ++ hookName hook ++
      " configuration from the [hooks] section of your hgrc."
  | exit status => status.plain

def args : Fault → List Value
  | raised .system args => if (systemFiles args).isEmpty then args else args.take 2
  | raised _ args => args
  | executionFailed plugin cause => [.text (executionFailed plugin cause).message]
  | invalidSyntax message => [.text message]
  | exit status => [status]
  | _ => []

def because (kind : FaultKind) (message : String) : Fault := raised kind [.text message]

def missingAttribute : Fault := raised .missingAttribute []

def badType : Fault := raised .badType []

def badIndex : Fault := raised .badIndex []

def unassigned : Fault := raised .unassigned []

def undecodable : Fault := raised .undecodable []

def missingKey (key : String) : Fault := raised .missingKey [.text key]

def badValue (message : String) : Fault := because .badValue message

/-- A text that cannot be read as a decimal integer: it has too many digits, or it is none, and then
the first two hundred characters of its literal are shown. -/
def badInteger (s : String) : Fault :=
  badValue (match Integer.tooMany? s with
    | some n =>
      "Exceeds the limit (" ++ toString Integer.mostDigits ++ " digits) for integer string " ++
        "conversion: value has " ++ toString n ++ " digits; use sys.set_int_max_str_digits() to " ++
        "increase the limit"
    | none =>
      "invalid literal for int() with base 10: " ++
        String.ofList ((Text.literal s).toList.take 200))

def system (number : Nat) (what file : String) : Fault :=
  raised .system [.int number, .text what, .text file]

def isOrdinary : Fault → Bool
  | raised .interrupted _ => false
  | exit _ => false
  | _ => true

def kind? : Fault → Option FaultKind
  | raised kind _ => some kind
  | _ => none

def isKind (kind : FaultKind) (fault : Fault) : Bool := fault.kind? == some kind

/-- The fault that reports a failed reading of tokens: its message names the cause's kind and first
argument. -/
def ofTokenFault (cause : Fault) : Fault :=
  match cause.args with
  | first :: _ => invalidSyntax (cause.name ++ ": " ++ first.plain)
  | [] => badIndex

end Fault

/-- The number nearest to an integer; one beyond the range is a fault. -/
def Binary64.ofInteger (n : Int) : Except Fault Binary64 :=
  let x := Binary64.ofInt n
  if x.isInfinite then .error (.raised .overflow []) else .ok x

/-- The integer part of a number; a number that is not finite has none. -/
def Binary64.toInteger (x : Binary64) : Except Fault Int :=
  if x.isNaN then .error (Fault.badValue "cannot convert float NaN to integer")
  else if x.isInfinite then
    .error (Fault.because .overflow "cannot convert float infinity to integer")
  else .ok x.truncate

end LintRunner
