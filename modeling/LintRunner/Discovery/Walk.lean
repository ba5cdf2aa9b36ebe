import LintRunner.FileTree
import LintRunner.Glob

/-!
# Finding the files below an argument

An argument that is a directory stands for the files below it, top down, except those that a
predicate excludes. Each directory offers its files first and then its subdirectories. `below`
describes the result directly; `filesFrom` is how it is computed, with a pruning pass over the
subdirectories in which the one after a removed one is not looked at.
-/

namespace LintRunner.Discovery

/-- Removes excluded names from a list while going along it from a position. The position moves on
whether or not a name was removed, so that the name which takes a removed one's place is passed
over. -/
def pruneFrom (excluded : String → Bool) (names : List String) (position : Nat) : List String :=
  if h : position < names.length then
    if excluded names[position] then
      pruneFrom excluded (names.erase names[position]) (position + 1)
    else pruneFrom excluded names (position + 1)
  else names
termination_by names.length - position
decreasing_by
  · have hle : (names.erase names[position]).length ≤ names.length := List.length_erase_le
    omega
  · omega

def prune (excluded : String → Bool) (names : List String) : List String :=
  pruneFrom excluded names 0

/-- The files among the entries of the directory at `path` that are not excluded, neither by path
nor by name. -/
def ownFiles (excluded : String → Bool) (path : String) (entries : List (String × Node)) :
    List String :=
  ((entries.filter fun e => !e.2.isDirectory).map (·.1)).filterMap fun name =>
    let joined := Path.join path name
    if excluded joined || excluded name then none else some joined

def subdirectories (entries : List (String × Node)) : List String :=
  (entries.filter fun e => e.2.isDirectory).map (·.1)

mutual

def filesBelow (excluded : String → Bool) (path : String) : Node → List String
  | .file .. => []
  | .directory entries =>
    if excluded path then []
    else
      let kept := prune (fun name => excluded (Path.join path name)) (subdirectories entries)
      ownFiles excluded path entries ++ filesBelowEntries excluded path kept entries

def filesBelowEntries (excluded : String → Bool) (path : String) (kept : List String) :
    List (String × Node) → List String
  | [] => []
  | (name, node) :: rest =>
    (if kept.contains name then filesBelow excluded (Path.join path name) node else []) ++
      filesBelowEntries excluded path kept rest

end

def filesFrom (t : FileTree) (excluded : String → Bool) (arg : String) : List String :=
  if excluded arg then []
  else
    match t.node? arg with
    | some (.directory entries) => filesBelow excluded arg (.directory entries)
    | _ => [arg]

mutual

/-- The files at and below a node, described without the pruning pass. -/
def below (excluded : String → Bool) (path : String) : Node → List String
  | .file .. => []
  | .directory entries =>
    if excluded path then []
    else
      let names := (entries.filter fun e => !e.2.isDirectory).map (·.1)
      let offered := names.filter fun name => !excluded (Path.join path name) && !excluded name
      offered.map (Path.join path) ++ belowEntries excluded path entries

def belowEntries (excluded : String → Bool) (path : String) :
    List (String × Node) → List String
  | [] => []
  | (name, node) :: rest =>
    below excluded (Path.join path name) node ++ belowEntries excluded path rest

end

/-- What was asked about a path, for the log. -/
structure MatchRecord where
  path : String
  matched : Bool
deriving DecidableEq, Repr

/-- Whether the last part of a path, or the whole path seen from the root, matches a pattern; with
the last question that was asked. -/
def matchesPath (cwd : String) (patterns : List String) (path : String) :
    Bool × Option MatchRecord :=
  if patterns.isEmpty then (false, none)
  else
    let base := Path.baseName path
    if Glob.acceptsAny patterns true base then (true, some ⟨base, true⟩)
    else
      let whole := Path.absolute cwd path
      let hit := Glob.acceptsAny patterns true whole
      (hit, some ⟨whole, hit⟩)

end LintRunner.Discovery
