import LintRunner.Text.Basic

/-!
# Paths

Slash-separated paths as texts. `normal` resolves the `.` and `..` parts without looking at any
file, `absolute` does so from a working directory.
-/

namespace LintRunner.Path

/-- The parts between slashes; repeated slashes give empty parts. -/
def parts (p : String) : List String := Text.splitOnChar '/' p

def isAbsolute (p : String) : Bool := Text.startsWith p "/"

/-- `q` seen from `p`: an absolute `q` stands for itself. -/
def join (p q : String) : String :=
  if isAbsolute q then q
  else if p.isEmpty || Text.endsWith p "/" then p ++ q
  else p ++ "/" ++ q

/-- One part is added to the parts seen so far, the last of which comes first: `.` and empty parts
add nothing, `..` takes back a part, or stays where there is none to take back. -/
def step (absolute : Bool) (seen : List String) (part : String) : List String :=
  if part = "" || part = "." then seen
  else if part = ".." then
    match seen with
    | [] => if absolute then [] else [".."]
    | last :: rest => if last = ".." then part :: seen else rest
  else part :: seen

/-- The parts that remain after resolving `.` and `..`. -/
def normalParts (absolute : Bool) (ps : List String) : List String :=
  (ps.foldl (step absolute) []).reverse

/-- The slashes at the start: exactly two are kept, more than two count as one. -/
def leadingSlashes (p : String) : String :=
  match (p.toList.takeWhile (· == '/')).length with
  | 0 => ""
  | 2 => "//"
  | _ => "/"

/-- The path without `.`, `..` and needless slashes. -/
def normal (p : String) : String :=
  let lead := leadingSlashes p
  let body := lead ++ Text.joinWith "/" (normalParts (isAbsolute p) (parts p))
  if body.isEmpty then "." else body

def absolute (cwd p : String) : String := normal (join cwd p)

def baseName (p : String) : String :=
  String.ofList ((p.toList.reverse.takeWhile (· != '/')).reverse)

/-- The part before the last slash, without trailing slashes unless it is all slashes. -/
def dirName (p : String) : String :=
  let head := (p.toList.reverse.dropWhile (· != '/')).reverse
  let bare := Text.dropTrailing (· == '/') head
  String.ofList (if bare.isEmpty then head else bare)

def split (p : String) : String × String := (dirName p, baseName p)

/-- The directory part and the last part, where slashes at the end do not count. -/
def splitLast (p : String) : String × String :=
  if (baseName p).isEmpty then split (dirName p) else split p

theorem length_dirName (p : String) : (dirName p).length + (baseName p).length ≤ p.length := by
  unfold dirName baseName Text.dropTrailing
  have hcut := congrArg List.length
    (List.takeWhile_append_dropWhile (p := (· != '/')) (l := p.toList.reverse))
  have hbare := (List.dropWhile_sublist (· == '/')
    (l := (p.toList.reverse.dropWhile (· != '/')).reverse.reverse)).length_le
  simp only [List.length_append, List.length_reverse, String.length_toList] at hcut hbare
  dsimp only
  split <;> simp only [String.length_ofList, List.length_reverse] <;> omega

theorem length_splitLast {p : String} (h : (splitLast p).2 ≠ "") :
    (splitLast p).1.length < p.length := by
  have hwhole := length_dirName p
  have hpart := length_dirName (dirName p)
  have hlast := mt String.length_eq_zero_iff.mp h
  unfold splitLast at hlast ⊢
  by_cases hbase : (baseName p).isEmpty
  · rw [if_pos hbase] at hlast ⊢
    dsimp only [split] at hlast ⊢
    omega
  · rw [if_neg hbase] at hlast ⊢
    dsimp only [split] at hlast ⊢
    omega

def commonChars : List Char → List Char → List Char
  | a :: as, b :: bs => if a = b then a :: commonChars as bs else []
  | _, _ => []

/-- The longest text that all of the texts start with; nothing for no texts. -/
def commonStart : List String → String
  | [] => ""
  | p :: ps => String.ofList (ps.foldl (fun acc q => commonChars acc q.toList) p.toList)

/-- A path argument as settings keep it: one with a slash is made absolute, seen from `parent`, and
trailing slashes go. -/
def normalized (cwd parent path : String) : String :=
  let p := if path.toList.contains '/' then absolute cwd (join parent path) else path
  String.ofList (Text.dropTrailing (· == '/') p.toList)

/-- The way from one list of names up to where both agree and down to the other. -/
def between : List String → List String → List String
  | a :: as, b :: bs =>
    if a = b then between as bs else List.replicate (as.length + 1) ".." ++ b :: bs
  | as, bs => List.replicate as.length ".." ++ bs

def absoluteNames (cwd p : String) : List String := (parts (absolute cwd p)).filter (!·.isEmpty)

/-- A path as seen from `start`; both may be relative to the working directory. -/
def relative (cwd start p : String) : String :=
  match between (absoluteNames cwd start) (absoluteNames cwd p) with
  | [] => "."
  | names => Text.joinWith "/" names

def expandHome (home p : String) : String :=
  match p.toList with
  | ['~'] => if (trimmedHome home).isEmpty then "/" else trimmedHome home
  | '~' :: '/' :: rest => trimmedHome home ++ "/" ++ String.ofList rest
  | _ => p
where
  /-- The home directory without trailing slashes, the root as nothing. -/
  trimmedHome (home : String) : String :=
    String.ofList (Text.dropTrailing (· == '/') home.toList)

end LintRunner.Path
