import LintRunner.Fault
import LintRunner.Path

/-!
# File trees

The files that a run can see: a tree of directories and files, and the directory it runs in. Paths
are resolved part by part, so that `..` after a missing directory fails as it does on a disk.
-/

namespace LintRunner

/-- A file with its bytes and permission bits, or a directory with its entries in order of name. -/
inductive Node where
  | file (content : List UInt8) (mode : Nat)
  | directory (entries : List (String × Node))
deriving Inhabited, Repr

namespace Node

def empty : Node := .directory []

def ofBytes (content : List UInt8) : Node := .file content 0o644

def isDirectory : Node → Bool
  | directory _ => true
  | file .. => false

def entries : Node → List (String × Node)
  | directory es => es
  | file .. => []

def find? (node : Node) : List String → Option Node
  | [] => some node
  | name :: rest =>
    match node.entries.lookup name with
    | some child => child.find? rest
    | none => none

def putEntry (name : String) (node : Node) : List (String × Node) → List (String × Node)
  | [] => [(name, node)]
  | (other, old) :: rest =>
    if name = other then (name, node) :: rest
    else if Text.lt name other then (name, node) :: (other, old) :: rest
    else (other, old) :: putEntry name node rest

/-- The tree with `node` at the end of the way; directories on the way are made as needed. -/
def put (tree : Node) (node : Node) : List String → Node
  | [] => node
  | name :: rest =>
    let child := (tree.entries.lookup name).getD empty
    .directory (putEntry name (child.put node rest) tree.entries)

def erase (tree : Node) : List String → Node
  | [] => empty
  | [name] => .directory (tree.entries.filter (·.1 != name))
  | name :: rest =>
    match tree.entries.lookup name with
    | some child => .directory (putEntry name (child.erase rest) tree.entries)
    | none => tree

mutual

def files : Node → List (List String × List UInt8)
  | file content _ => [([], content)]
  | directory es => filesOf es

def filesOf : List (String × Node) → List (List String × List UInt8)
  | [] => []
  | (name, node) :: rest =>
    (node.files.map fun (way, content) => (name :: way, content)) ++ filesOf rest

end

end Node

inductive PathFault where
  | notFound
  | notDirectory
  | isDirectory
  | exists_
  | nameTooLong
  | notPath
deriving DecidableEq, Repr

def PathFault.system : PathFault → Option (Nat × String)
  | notFound => some (2, "No such file or directory")
  | notDirectory => some (20, "Not a directory")
  | isDirectory => some (21, "Is a directory")
  | exists_ => some (17, "File exists")
  | nameTooLong => some (36, "File name too long")
  | notPath => none

def PathFault.fault (why : PathFault) (path : String) : Fault :=
  match why.system with
  | some (number, what) => Fault.system number what path
  | none => Fault.badValue "embedded null byte"

/-- A tree of files, and the absolute path of the directory that relative paths start from. -/
structure FileTree where
  root : Node
  cwd : String
deriving Inhabited, Repr

namespace FileTree

def longestName : Nat := 255

def longestPath : Nat := 4095

def follow (root : Node) : List String → List String → Except PathFault (List String)
  | place, [] => .ok place
  | place, part :: rest =>
    match root.find? place.reverse with
    | none => .error .notFound
    | some (.file ..) => .error .notDirectory
    | some (.directory _) =>
      if part = "" || part = "." then follow root place rest
      else if part = ".." then follow root place.tail rest
      else if longestName < part.utf8ByteSize then .error .nameTooLong
      else follow root (part :: place) rest

/-- The names on the way to a path, from the root; the last one need not exist. -/
def resolve (t : FileTree) (path : String) : Except PathFault (List String) :=
  if path.isEmpty then .error .notFound
  else if path.toList.contains '\x00' then .error .notPath
  else if longestPath < path.utf8ByteSize then .error .nameTooLong
  else
    let whole := Path.join t.cwd path
    (follow t.root [] (Path.parts whole)).map List.reverse

def node? (t : FileTree) (path : String) : Option Node :=
  match t.resolve path with
  | .ok names => t.root.find? names
  | .error _ => none

def present (t : FileTree) (path : String) : Bool := (t.node? path).isSome

def isDirectory (t : FileTree) (path : String) : Bool :=
  match t.node? path with
  | some (.directory _) => true
  | _ => false

def read (t : FileTree) (path : String) : Except Fault (List UInt8) :=
  match t.resolve path with
  | .error why => .error (why.fault path)
  | .ok names =>
    match t.root.find? names with
    | some (.file content _) => .ok content
    | some (.directory _) => .error (PathFault.isDirectory.fault path)
    | none => .error (PathFault.notFound.fault path)

/-- The bytes of a file that is named by a value. A number stands for an open file, and none is
open. -/
def readNamed (t : FileTree) (name : Value) : Except Fault (List UInt8) :=
  match name with
  | .text path => t.read path
  | .int n =>
    if n < 0 then .error (Fault.badValue "negative file descriptor")
    else .error (.raised .system [.int 9, .text "Bad file descriptor"])
  | _ => .error Fault.badType

/-- The way to a file that may be written: its directory exists, and it is no directory. -/
def writable (t : FileTree) (path : String) : Except Fault (List String) :=
  match t.resolve path with
  | .error why => .error (why.fault path)
  | .ok names =>
    match t.root.find? names with
    | some (.directory _) => .error (PathFault.isDirectory.fault path)
    | some (.file ..) => .ok names
    | none =>
      match t.root.find? names.dropLast with
      | some (.directory _) => .ok names
      | _ => .error (PathFault.notFound.fault path)

/-- The tree after a file is written from its start, keeping the permissions it has. -/
def write (t : FileTree) (path : String) (content : List UInt8) : Except Fault FileTree := do
  let names ← t.writable path
  let mode := match t.root.find? names with
    | some (.file _ mode) => mode
    | _ => 0o644
  return { t with root := t.root.put (.file content mode) names }

/-- The tree after bytes are added at the end of a file, which is made if there is none. -/
def append (t : FileTree) (path : String) (content : List UInt8) : Except Fault FileTree := do
  let names ← t.writable path
  let (old, mode) := match t.root.find? names with
    | some (.file old mode) => (old, mode)
    | _ => ([], 0o644)
  return { t with root := t.root.put (.file (old ++ content) mode) names }

def place (t : FileTree) (path : String) (node : Node) : FileTree :=
  let names := Path.normalParts true (Path.parts (Path.join t.cwd path))
  match node, t.root.find? names with
  | .directory [], some (.directory _) => t
  | node, _ => { t with root := t.root.put node names }

def makeDirectory (t : FileTree) (path : String) : Except Fault FileTree :=
  match t.resolve path with
  | .error why => .error (why.fault path)
  | .ok names =>
    if (t.root.find? names).isSome then .error (PathFault.exists_.fault path)
    else
      match t.root.find? names.dropLast with
      | some (.directory _) => .ok { t with root := t.root.put .empty names }
      | some (.file ..) => .error (PathFault.notDirectory.fault path)
      | none => .error (PathFault.notFound.fault path)

def setMode (t : FileTree) (path : String) (mode : Nat) : FileTree :=
  match t.resolve path with
  | .ok names =>
    match t.root.find? names with
    | some (.file content _) => { t with root := t.root.put (.file content mode) names }
    | _ => t
  | .error _ => t

def mode? (t : FileTree) (path : String) : Option Nat :=
  match t.node? path with
  | some (.file _ mode) => some mode
  | _ => none

def remove (t : FileTree) (path : String) : FileTree :=
  match t.resolve path with
  | .ok names => { t with root := t.root.erase names }
  | .error _ => t

def names (t : FileTree) (path : String) : List String :=
  match t.node? path with
  | some node => node.entries.map (·.1)
  | none => []

end FileTree

end LintRunner
