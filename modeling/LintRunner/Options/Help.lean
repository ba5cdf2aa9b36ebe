import LintRunner.Options.CommandLine
import LintRunner.Text.Wrap

/-!
# The help page

Every option on the command line with its names and its help text, in two columns. Names that do
not fit into the first column stand on a line of their own.
-/

namespace LintRunner.Options

structure HelpPage where
  width : Int
  position : Int

namespace HelpPage

def indent : Nat := 2

def optionNames (o : CommandOption) : String :=
  if o.takesValue then
    let word := if o.metavar.truthy then o.metavar.plain else Text.upper (o.dest.getD "")
    Text.joinWith ", " (o.shorts.map (· ++ " " ++ word) ++ o.longs.map (· ++ "=" ++ word))
  else Text.joinWith ", " (o.shorts ++ o.longs)

def measure (columns : Int) (options : List CommandOption) : HelpPage :=
  let width := columns - 2
  let most := min 24 (max (width - 20) 4)
  let longest := (options.map fun o => (optionNames o).length + indent).foldl max 0
  ⟨width, min ((longest : Int) + 2) most⟩

def helpText (c : CommandLine) (o : CommandOption) (text : String) : String :=
  let default := match (o.dest.bind fun d => c.defaults.lookup d).getD .none with
    | .none => "none"
    | v => v.plain
  Text.replace text "%default" default

/-- The lines of one option. A help text of nothing but blanks is a fault, and so is a help that is
no text. -/
def optionLines (page : HelpPage) (c : CommandLine) (o : CommandOption) : Except Fault String :=
  let names := optionNames o
  let room := page.position - indent - 2
  let margin := Text.spaces indent
  let column := Text.spaces page.position.toNat
  let fits := (names.length : Int) ≤ room
  let head := if fits then margin ++ Text.padEnd room.toNat names ++ "  " else margin ++ names ++ "\n"
  match o.help with
  | .text text =>
    if text.isEmpty then .ok (if fits then head ++ "\n" else head)
    else
      match Text.wrap (max (page.width - page.position) 11).toNat (helpText c o text) with
      | [] => .error Fault.badIndex
      | first :: rest =>
        .ok (head ++ (if fits then "" else column) ++ first ++ "\n" ++
          String.join (rest.map fun line => column ++ line ++ "\n"))
  | help =>
    if help.truthy then .error Fault.missingAttribute
    else .ok (if fits then head ++ "\n" else head)

end HelpPage

def usageLine (program : String) : String := "Usage: " ++ program ++ " [options] file file ...\n"

def helpPage (c : CommandLine) (program epilog : String) (columns : Int) : Except Fault String := do
  let page := HelpPage.measure columns c.options
  let lines ← c.options.mapM (page.optionLines c)
  let tail :=
    if epilog.isEmpty then ""
    else "\n" ++ Text.joinWith "\n" (Text.wrap (max page.width 11).toNat epilog) ++ "\n"
  return usageLine program ++ "\nOptions:\n" ++ String.join lines ++ tail

end LintRunner.Options
