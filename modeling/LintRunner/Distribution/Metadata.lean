import LintRunner.Number.Integer
import LintRunner.World

/-!
# Metadata of the distributions

What the program, and its example extension, say about themselves when they are packaged.
-/

namespace LintRunner.Distribution

structure Toolchain where
  library : Value := .text "65.5.1"
  interpreter : List Int := [3, 11, 6]
deriving Repr, Inhabited

def versionBefore : List Int → List Int → Bool
  | _, [] => false
  | [], _ :: _ => true
  | a :: as, b :: bs => a < b || (a = b && versionBefore as bs)

def majorVersion (version : Value) : Except Fault Int :=
  match version with
  | .text version =>
    let first := (Text.splitOnChar '.' version).headD ""
    match Integer.ofDecimal? first with
    | some n => .ok n
    | none => .error (Fault.badInteger first)
  | _ => .error Fault.missingAttribute

def requirements : List String :=
  ["entrypoints >= 0.2.3, < 0.3.0", "pyflakes >= 2.1.0, < 2.2.0", "pycodestyle >= 2.4.0, < 2.5.0",
   "mccabe >= 0.6.0, < 0.7.0"]

/-- What old interpreters require beyond it, with the first version that does not. -/
def backports : List (List Int × String) := [([3, 4], "enum34"), ([3, 2], "configparser")]

/-- Requirements of a toolchain: those of all interpreters, and those that hold on a condition. Old
libraries know no conditions, so there the interpreter at hand decides. -/
def requirementsFor (t : Toolchain) : Except Fault (List String × List (String × Value)) := do
  if (← majorVersion t.library) < 18 then
    let needed := backports.filter fun (first, _) => versionBefore t.interpreter first
    return (requirements ++ needed.map (·.2), [])
  else
    return (requirements, [(":python_version<'3.4'", Value.texts ["enum34"]),
      (":python_version<'3.2'", Value.texts ["configparser"])])

def fileText (t : FileTree) (path : String) : Except Fault String := do
  match Source.decodeUtf8 (← t.read path) with
  | some cs => return String.ofList (Text.unifyNewlines cs)
  | none => throw Fault.undecodable

def styleChecks : List String :=
  ["tabs_or_spaces", "tabs_obsolete", "trailing_whitespace", "trailing_blank_lines",
   "maximum_line_length", "blank_lines", "extraneous_whitespace", "whitespace_around_keywords",
   "missing_whitespace_after_import_keyword", "missing_whitespace", "indentation",
   "continued_indentation", "whitespace_before_parameters", "whitespace_around_operator",
   "missing_whitespace_around_operator", "whitespace_around_comma",
   "whitespace_around_named_parameter_equals", "whitespace_before_comment",
   "imports_on_separate_lines", "module_imports_on_top_of_file", "compound_statements",
   "explicit_line_join", "break_after_binary_operator", "break_before_binary_operator",
   "comparison_to_singleton", "comparison_negative", "comparison_type", "ambiguous_identifier",
   "bare_except", "python_3000_has_key", "python_3000_raise_comma", "python_3000_not_equal",
   "python_3000_backticks", "python_3000_invalid_escape_sequence",
   "python_3000_async_await_keywords"]

def entryPoints : List (String × Value) :=
  [("distutils.commands", Value.texts ["flake8 = flake8.main.setuptools_command:Flake8"]),
   ("console_scripts", Value.texts ["flake8 = flake8.main.cli:main"]),
   ("flake8.extension", Value.texts ("F = flake8.plugins.pyflakes:FlakesChecker" ::
      styleChecks.map fun name => "pycodestyle." ++ name ++ " = pycodestyle:" ++ name)),
   ("flake8.report", Value.texts
      ["default = flake8.formatting.default:Default", "pylint = flake8.formatting.default:Pylint",
       "quiet-filename = flake8.formatting.default:FilenameOnly",
       "quiet-nothing = flake8.formatting.default:Nothing"])]

def topics : List String :=
  ["Topic :: Software Development :: Libraries :: Python Modules",
   "Topic :: Software Development :: Quality Assurance"]

def languages (versions : List String) : List String :=
  "Programming Language :: Python" ::
    versions.map ("Programming Language :: Python :: " ++ ·)

def metadata (t : Toolchain) (files : FileTree) : Except Fault (List (String × Value)) := do
  let (required, conditional) ← requirementsFor t
  let description ← fileText files "README.rst"
  return [
    ("name", .text "flake8"), ("license", .text "MIT"), ("version", .text Release.version),
    ("description", .text "the modular source code checker: pep8, pyflakes and co"),
    ("long_description", .text description), ("author", .text "Tarek Ziade"),
    ("author_email", .text "tarek@ziade.org"), ("maintainer", .text "Ian Stapleton Cordasco"),
    ("maintainer_email", .text "graffatcolmingov@gmail.com"),
    ("url", .text "https://gitlab.com/pycqa/flake8"), ("package_dir", .dict [("", .text "src")]),
    ("packages", Value.texts ["flake8", "flake8.api", "flake8.formatting", "flake8.main",
      "flake8.options", "flake8.plugins"]),
    ("python_requires", .text ">=2.7, !=3.0.*, !=3.1.*, !=3.2.*, !=3.3.*"),
    ("install_requires", Value.texts required), ("extras_require", .dict conditional),
    ("entry_points", .dict entryPoints),
    ("classifiers", Value.texts (["Development Status :: 5 - Production/Stable",
      "Environment :: Console", "Framework :: Flake8", "Intended Audience :: Developers",
      "License :: OSI Approved :: MIT License"] ++
      languages ["2", "2.7", "3", "3.4", "3.5", "3.6", "3.7"] ++ topics))]

def exampleMetadata : List (String × Value) :=
  [("name", .text "flake8-example-plugin"), ("license", .text "MIT"), ("version", .text "1.0.0"),
   ("description", .text "Example plugin to Flake8"), ("author", .text "Ian Cordasco"),
   ("author_email", .text "graffatcolmingov@gmail.com"),
   ("url", .text "https://gitlab.com/pycqa/flake8"), ("package_dir", .dict [("", .text "src/")]),
   ("packages", Value.texts ["flake8_example_plugin"]),
   ("entry_points", .dict [("flake8.extension", Value.texts
      ["X1 = flake8_example_plugin:ExampleOne", "X2 = flake8_example_plugin:ExampleTwo"])]),
   ("classifiers", Value.texts (["Framework :: Flake8", "License :: OSI Approved :: MIT License"] ++
      languages ["2", "2.7", "3", "3.4", "3.5"] ++ topics))]

end LintRunner.Distribution
