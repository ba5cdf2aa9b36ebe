/-!
# Ordered entries

Named entries in the order in which their names were first put. Putting a name again replaces its
entry in place.
-/

namespace LintRunner.Entries

variable {α : Type}

def put (name : String) (a : α) : List (String × α) → List (String × α)
  | [] => [(name, a)]
  | (n, old) :: rest => if n = name then (n, a) :: rest else (n, old) :: put name a rest

def putAll (more entries : List (String × α)) : List (String × α) :=
  more.foldl (fun es e => put e.1 e.2 es) entries

def putNew (name : String) (a : α) (entries : List (String × α)) : List (String × α) :=
  if (entries.lookup name).isSome then entries else entries ++ [(name, a)]

def has (name : String) (entries : List (String × α)) : Bool := (entries.lookup name).isSome

theorem lookup_put (name key : String) (a : α) (entries : List (String × α)) :
    (put name a entries).lookup key = if key = name then some a else entries.lookup key := by
  induction entries with
  | nil =>
    by_cases h : key = name
    · simp [put, h]
    · have : (key == name) = false := by simpa using h
      simp [put, List.lookup_cons, this, h]
  | cons e rest ih =>
    obtain ⟨n, old⟩ := e
    by_cases hn : n = name
    · subst hn
      by_cases hk : key = n
      · simp [put, hk]
      · have : (key == n) = false := by simpa using hk
        simp [put, List.lookup_cons, this, hk]
    · by_cases hk : key = n
      · subst hk
        simp [put, hn]
      · have : (key == n) = false := by simpa using hk
        simp [put, hn, List.lookup_cons, this, ih]

end LintRunner.Entries
