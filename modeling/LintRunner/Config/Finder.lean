import LintRunner.Config.Ini
import LintRunner.Text.Basic
import LintRunner.World

/-!
# Finding configuration files

Configuration of a project is looked for in the directory common to all arguments and then in each
directory above it, until one holds a configuration file. Files are read once and remembered. The
directory where the project's configuration was found is remembered as well: relative paths in
configuration files are taken from there.
-/

namespace LintRunner.Config

/-- Where configuration is looked for, and what was found already. -/
structure Finder where
  program : String
  extraFiles : List String
  userDirectory : String
  windows : Bool := false
  localDirectory : String
  parent : String
  localConfigs : Option (Ini × List String) := none
  userConfig : Option Ini := none
  cliConfigs : List (String × Ini) := []
deriving Inhabited

/-- Looking for configuration; what was remembered remains after a fault. -/
abbrev Finding := ReaderT FileTree (ExceptT Fault (StateM Finder))

namespace Finder

def make (w : World) (program : String) (args extraFiles : List String) : Finder :=
  let cwd := w.tree.cwd
  let home := (w.envValue "HOME").getD "/"
  { program := program
    extraFiles := extraFiles.map (Path.absolute cwd)
    userDirectory := (w.envValue "XDG_CONFIG_HOME").getD (Path.expandHome home "~/.config")
    windows := w.windowsHome
    localDirectory := cwd
    parent := Path.absolute cwd (Path.commonStart (if args.isEmpty then ["."] else args)) }

/-- The paths among which a common start is looked for; those of a dictionary cannot be taken. -/
def argumentPaths (args : Value) : Except Fault (List String) :=
  match args with
  | .dict (_ :: _) => .error (.raised .missingKey [.int 0])
  | args => if args.truthy then args.asTexts else .ok []

def makeBy (w : World) (program args extraFiles : Value) : Except Fault Finder := do
  let extra ← if extraFiles.truthy then extraFiles.asTexts else pure []
  let program ← program.asText
  return make w program (← argumentPaths args) extra

def projectNames (f : Finder) : List String := ["setup.cfg", "tox.ini", "." ++ f.program]

def filesIn (f : Finder) (t : FileTree) (dir : String) : List String :=
  (f.projectNames.map fun name => Path.absolute t.cwd (Path.join dir name)).filter t.present

/-- The first directory with configuration files, from `dir` upwards, and those files. -/
def searchFrom (f : Finder) (t : FileTree) (dir : String) : (fuel : Nat) →
    Option (String × List String)
  | 0 => none
  | fuel + 1 =>
    if f.filesIn t dir ≠ [] then some (dir, f.filesIn t dir)
    else if Path.baseName dir = "" then none
    else f.searchFrom t (Path.dirName dir) fuel

def search (f : Finder) (t : FileTree) : Option (String × List String) :=
  f.searchFrom t f.parent (f.parent.length + 1)

def possibleLocalFiles : Finding (List String) := do
  let f ← get
  match f.search (← read) with
  | none => return []
  | some (dir, files) =>
    set { f with localDirectory := dir }
    return files

def localFiles : Finding (List String) := do
  let found ← possibleLocalFiles
  let t ← read
  return found ++ (← get).extraFiles.filter t.present

/-- Reads files one after the other. Files that are not there, that are not text, or that have bad
lines are passed over, although what a file with bad lines says is kept. Gives the files that were
read. -/
def readFiles (t : FileTree) (ini : Ini) (read : List String) :
    List String → Except Fault (Ini × List String)
  | [] => .ok (ini, read)
  | file :: rest =>
    match t.read file with
    | .error f => if f.isKind .system then readFiles t ini read rest else .error f
    | .ok bytes =>
      match Source.decodeUtf8 bytes with
      | none => readFiles t ini read rest
      | some text =>
        match ini.read file text with
        | (ini, none) => readFiles t ini (read ++ [file]) rest
        | (ini, some f) =>
          if f.isKind .unparsableFile || f.isKind .missingSectionHeader then
            readFiles t ini read rest
          else .error f

def readAll (files : List String) : Finding (Ini × List String) := do
  match readFiles (← read) {} [] files with
  | .ok r => return r
  | .error f => throw f

def localConfigsWithFiles : Finding (Ini × List String) := do
  match (← get).localConfigs with
  | some r => return r
  | none =>
    let r ← readAll (← localFiles)
    modify fun f => { f with localConfigs := some r }
    return r

def localConfig : Finding Ini := return (← localConfigsWithFiles).1

def userFile (f : Finder) : String :=
  if f.windows then "~\\." ++ f.program else Path.join f.userDirectory f.program

def userConfigs : Finding Ini := do
  let f ← get
  match f.userConfig with
  | some ini => return ini
  | none =>
    let (ini, _) ← readAll [f.userFile]
    modify fun f => { f with userConfig := some ini }
    return ini

def cliConfig (file : Value) : Finding Ini := do
  let file ← liftExcept file.asText
  match (← get).cliConfigs.lookup file with
  | some ini => return ini
  | none =>
    let (ini, _) ← readAll [file]
    modify fun f => { f with cliConfigs := f.cliConfigs ++ [(file, ini)] }
    return ini

end Finder

structure LocalPlugins where
  extensions : List String := []
  reports : List String := []
  paths : List String := []
deriving Inhabited, Repr

def localPlugins (cliConfig : Value) (isolated : Bool) : Finding LocalPlugins := do
  if isolated then return {}
  let (ini, files) ←
    if cliConfig.truthy then pure (← Finder.cliConfig cliConfig, [cliConfig.plain])
    else Finder.localConfigsWithFiles
  let t ← read
  let name := (← get).program ++ ":local-plugins"
  let listed (option : String) : List String :=
    match ini.get? name option with
    | some v => Text.items .commaOrLine (Text.trim v)
    | none => []
  let dirs := Text.dedup (files.map Path.dirName)
  let paths := match ini.get? name "paths" with
    | none => []
    | some v =>
      let raw := Text.items .commaOrBlank (Text.trim v)
      dirs.flatMap fun dir => (raw.map (Path.normalized t.cwd dir)).filter t.present
  return ⟨listed "extension", listed "report", paths⟩

end LintRunner.Config
