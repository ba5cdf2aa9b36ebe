import LintRunner.Check.OpenFile
import LintRunner.Decision
import LintRunner.Options.Registry

/-!
# The program's own options

Every option that the program declares before any plugin does.
-/

namespace LintRunner.Options

def hookChoices : List String := ["git", "mercurial"]

def defaultMaxLineLength : Int := 79

def checkingOptions : List Declaration :=
  [{ short := .text "-v", long := .text "--verbose", dest := .text "verbose",
     default := .int 0, action := .text "count", fromConfig := true,
     help := .text ("Print more information about what is happening in flake8. This option is " ++
       "repeatable and will increase verbosity each time it is repeated.") },
   { short := .text "-q", long := .text "--quiet", dest := .text "quiet",
     default := .int 0, action := .text "count", fromConfig := true,
     help := .text "Report only file names, or nothing. This option is repeatable." },
   { long := .text "--count", dest := .text "count", action := .text "store_true", fromConfig := true,
     help := .text ("Print total number of errors and warnings to standard error and set the " ++
       "exit code to 1 if total is not empty.") },
   { long := .text "--diff", dest := .text "diff", action := .text "store_true",
     help := .text ("Report changes only within line number ranges in the unified diff provided " ++
       "on standard in by the user.") },
   { long := .text "--exclude", dest := .text "exclude", metavar := .text "patterns",
     default := .text (Text.joinWith "," defaultExclude),
     isList := true, fromConfig := true, isPath := true,
     help := .text ("Comma-separated list of files or directories to exclude. " ++
       "(Default: %default)") },
   { long := .text "--filename", dest := .text "filename", metavar := .text "patterns",
     default := .text "*.py", fromConfig := true, isList := true,
     help := .text ("Only check for filenames matching the patterns in this comma-separated " ++
       "list. (Default: %default)") },
   { long := .text "--stdin-display-name", dest := .text "stdin_display_name", default := .text "stdin",
     help := .text ("The name used when reporting errors from code passed via stdin. This is " ++
       "useful for editors piping the file contents to flake8. (Default: %default)") },
   { long := .text "--format", dest := .text "format", metavar := .text "format",
     default := .text "default", fromConfig := true,
     help := .text "Format errors according to the chosen formatter." },
   { long := .text "--hang-closing", dest := .text "hang_closing", action := .text "store_true",
     fromConfig := true,
     help := .text ("Hang closing bracket instead of matching indentation of opening bracket's " ++
       "line.") },
   { long := .text "--ignore", dest := .text "ignore", metavar := .text "errors",
     default := .text (Text.joinWith "," defaultIgnore), fromConfig := true, isList := true,
     help := .text ("Comma-separated list of errors and warnings to ignore (or skip). For " ++
       "example, ``--ignore=E4,E51,W234``. (Default: %default)") },
   { long := .text "--extend-ignore", dest := .text "extend_ignore", metavar := .text "errors",
     default := .text "", fromConfig := true, isList := true,
     help := .text ("Comma-separated list of errors and warnings to add to the list of ignored " ++
       "ones. For example, ``--extend-ignore=E4,E51,W234``.") },
   { long := .text "--per-file-ignores", dest := .text "per_file_ignores", default := .text "",
     fromConfig := true,
     help := .text ("A pairing of filenames and violation codes that defines which violations " ++
       "to ignore in a particular file. The filenames can be specified in a manner similar to " ++
       "the ``--exclude`` option and the violations work similarly to the ``--ignore`` and " ++
       "``--select`` options.") },
   { long := .text "--max-line-length", dest := .text "max_line_length", type := .text "int",
     metavar := .text "n", default := .int defaultMaxLineLength, fromConfig := true,
     help := .text ("Maximum allowed line length for the entirety of this run. " ++
       "(Default: %default)") },
   { long := .text "--select", dest := .text "select", metavar := .text "errors",
     default := .text (Text.joinWith "," defaultSelect), fromConfig := true, isList := true,
     help := .text ("Comma-separated list of errors and warnings to enable. For example, " ++
       "``--select=E4,E51,W234``. (Default: %default)") },
   { long := .text "--disable-noqa", dest := .text "disable_noqa", default := .bool false,
     fromConfig := true, action := .text "store_true",
     help := .text ("Disable the effect of \"# noqa\". This will report errors on lines with " ++
       "\"# noqa\" at the end.") },
   { long := .text "--show-source", dest := .text "show_source", action := .text "store_true",
     fromConfig := true, help := .text "Show the source generate each error or warning." },
   { long := .text "--statistics", dest := .text "statistics", action := .text "store_true",
     fromConfig := true, help := .text "Count errors and warnings." }]

def runningOptions : List Declaration :=
  [{ long := .text "--enable-extensions", dest := .text "enable_extensions", default := .text "",
     fromConfig := true, isList := true, type := .text "string",
     help := .text ("Enable plugins and extensions that are otherwise disabled by default") },
   { long := .text "--exit-zero", dest := .text "exit_zero", action := .text "store_true",
     help := .text "Exit with status code \"0\" even if there are errors." },
   { long := .text "--install-hook", dest := .text "install_hook", action := .text "callback",
     type := .text "choice", choices := Value.texts hookChoices,
     callback := .object "function", handler := some .installHook,
     help := .text ("Install a hook that is run prior to a commit for the supported version " ++
       "control system.") },
   { short := .text "-j", long := .text "--jobs", dest := .text "jobs", type := .text "string",
     default := .text "auto", fromConfig := true,
     help := .text ("Number of subprocesses to use to run checks in parallel. This is ignored " ++
       "on Windows. The default, \"auto\", will auto-detect the number of processors available " ++
       "to use. (Default: %default)") },
   { long := .text "--output-file", dest := .text "output_file", type := .text "string",
     fromConfig := true, help := .text "Redirect report to a file." },
   { long := .text "--tee", dest := .text "tee", default := .bool false, fromConfig := true,
     action := .text "store_true", help := .text "Write to stdout and output-file." },
   { long := .text "--append-config", dest := .text "append_config", action := .text "append",
     help := .text ("Provide extra config files to parse in addition to the files found by " ++
       "Flake8 by default. These files are the last ones read and so they take the highest " ++
       "precedence when multiple files provide the same option.") },
   { long := .text "--config", dest := .text "config",
     help := .text ("Path to the config file that will be the authoritative config source. This " ++
       "will cause Flake8 to ignore all other configuration files.") },
   { long := .text "--isolated", dest := .text "isolated", default := .bool false,
     action := .text "store_true", help := .text "Ignore all configuration files." },
   { long := .text "--benchmark", dest := .text "benchmark", default := .bool false,
     action := .text "store_true",
     help := .text "Print benchmark information about this run of Flake8" },
   { long := .text "--bug-report", dest := .text "bug_report", action := .text "callback",
     callback := .object "function", handler := some .bugReport,
     help := .text "Print information necessary when preparing a bug report" }]

def Registry.withDefaults (r : Registry) : Except Fault Registry :=
  (checkingOptions ++ runningOptions).foldlM Registry.add r

def Registry.initial : Registry :=
  (Registry.make "flake8" (.text Release.version)).withDefaults.toOption.getD
    (Registry.make "flake8" (.text Release.version))

end LintRunner.Options
