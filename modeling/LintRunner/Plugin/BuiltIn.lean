import LintRunner.Plugin.Catalogue
import LintRunner.Plugin.Flakes
import LintRunner.World

/-!
# What is always installed

The report formats of the program, its name checker, and two small example extensions.
-/

namespace LintRunner.Plugin

def formatModule : Module :=
  { name := "flake8.formatting.default"
    members := [("Default", .format .default), ("Pylint", .format .pylint),
      ("FilenameOnly", .format .fileNames), ("Nothing", .format .nothing),
      ("SimpleFormatter", .format .simple)] }

def ownModules : List Module :=
  [{ name := "flake8", version := .text Release.version, isPackage := true },
   { name := "flake8.formatting", isPackage := true }, formatModule,
   { name := "flake8.plugins", isPackage := true },
   { name := "flake8.plugins.pyflakes",
     members := [("FlakesChecker", .extension Flakes.extension)] }]

def ownReports : List EntryPoint :=
  [⟨"default", "flake8.formatting.default", some "Default"⟩,
   ⟨"pylint", "flake8.formatting.default", some "Pylint"⟩,
   ⟨"quiet-filename", "flake8.formatting.default", some "FilenameOnly"⟩,
   ⟨"quiet-nothing", "flake8.formatting.default", some "Nothing"⟩]

def flakesEntryPoint : EntryPoint := ⟨"F", "flake8.plugins.pyflakes", some "FlakesChecker"⟩

def installed : Catalogue :=
  { modules := ownModules, extensions := [flakesEntryPoint], reports := ownReports }

def exampleExtension (name : String) (more : List (String × Value)) (rules : List Rule) :
    Extension :=
  { isClass := true
    signature := Signature.ofWords ["tree"]
    attributes := [("name", .text name), ("version", .text "1.0.0")] ++ more
    module := "flake8_example_plugin"
    call := RuleCheck.call
      { signature := Signature.ofWords ["tree"], rules := rules, mode := .generator,
        isClass := true } }

/-- The module with the examples: one finds nothing; the other is off by default and says when it
runs. -/
def exampleModule : Module :=
  { name := "flake8_example_plugin"
    isPackage := true
    members :=
      [("ExampleOne", .extension (exampleExtension "on-by-default-example-plugin" [] [])),
       ("ExampleTwo", .extension (exampleExtension "off-by-default-example-plugin"
          [("off_by_default", .bool true)]
          [.say (.text "X200 The off-by-default plugin was enabled") none [] none]))] }

def exampleEntryPoints : List EntryPoint :=
  [⟨"X1", "flake8_example_plugin", some "ExampleOne"⟩,
   ⟨"X2", "flake8_example_plugin", some "ExampleTwo"⟩]

end LintRunner.Plugin
