import LintRunner.PerFile.Token
import LintRunner.Text.Quoted
import LintRunner.Value.Sequence

/-!
# File-to-codes mappings

A mapping is a sequence of groups, each a list of file names, a colon and a list of codes. Reading
it goes token by token through a small state: the names and codes of the group at hand, whether its
colon has been seen, and whether something separates the next item from the one before. A mapping
is given as one text or as a list of texts, which count as its lines.
-/

namespace LintRunner.PerFile

structure Unexpected where
  token : Token
deriving DecidableEq, Repr

def Unexpected.message (u : Unexpected) : String :=
  "Unexpected token: Token(tp=" ++ Text.literal u.token.kind.name ++ ", src=" ++
    Text.literal u.token.text ++ ")"

abbrev Pair := String × List String

structure Group where
  separated : Bool := true
  colonSeen : Bool := false
  files : List String := []
  codes : List String := []
deriving DecidableEq, Repr

def Group.pairs (g : Group) : List Pair :=
  if g.codes.isEmpty then [] else g.files.map fun f => (f, g.codes)

def Group.feed (g : Group) (t : Token) : Except Unexpected (List Pair × Group) :=
  match t.kind with
  | .comma | .blank => .ok ([], { g with separated := true })
  | kind =>
    if !g.colonSeen then
      if kind = .colon then .ok ([], { g with colonSeen := true, separated := true })
      else if g.separated && kind = .file then
        .ok ([], { g with files := g.files ++ [t.text], separated := false })
      else .error ⟨t⟩
    else if kind = .finish then .ok (g.pairs, {})
    else if g.separated && kind = .code then
      .ok ([], { g with codes := g.codes ++ [t.text], separated := false })
    else if g.separated && kind = .file then
      .ok (g.pairs, { files := [t.text], separated := false })
    else .error ⟨t⟩

def feedAll (g : Group) : List Token → Except Unexpected (List Pair)
  | [] => .ok []
  | t :: ts =>
    match g.feed t with
    | .error e => .error e
    | .ok (done, g') =>
      match feedAll g' ts with
      | .error e => .error e
      | .ok more => .ok (done ++ more)

/-- Reads a mapping; a text of blanks is the empty mapping. -/
def parse (s : String) : Except Unexpected (List Pair) :=
  if (Text.trim s).isEmpty then .ok [] else feedAll {} (tokens s)

def textOf (v : Value) : Except Fault String :=
  match v with
  | .text s => .ok s
  | .list items => return Text.joinWith "\n" (← items.mapM Value.asText)
  | .tuple items => return Text.joinWith "\n" (← items.mapM Value.asText)
  | _ => .error Fault.missingAttribute

def read (v : Value) : Except Fault (List Pair) := do
  (parse (← textOf v)).mapError fun u => Fault.badValue u.message

/-- The tokens of a mapping, which must be a text unless it is empty. -/
def tokensOf (v : Value) : Except Fault (List Token) :=
  match v with
  | .text s => .ok (tokens s)
  | v => do if (← v.size) = 0 then return tokens "" else throw Fault.badType

end LintRunner.PerFile
