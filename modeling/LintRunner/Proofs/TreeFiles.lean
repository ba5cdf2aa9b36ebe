import LintRunner.Proofs.PathNames
import LintRunner.Proofs.Stateful
import LintRunner.World
import Mathlib.Logic.Function.Basic

/-!
# The files of a tree

A tree is seen as a map from names on the way to the file at its end. Writing changes this map at
the names that the path resolves to and nowhere else; making directories does not change it.
-/

namespace LintRunner

open Stateful

variable {α β : Type}

namespace Node

def fileAt (root : Node) (way : List String) : Option (List UInt8 × Nat) :=
  match root.find? way with
  | some (.file content mode) => some (content, mode)
  | _ => none

variable {tree node : Node} {way : List String}

theorem lookup_entry (name other : String) (node : Node) (rest : List (String × Node)) :
    ((name, node) :: rest).lookup other =
      if other = name then some node else rest.lookup other := by
  rw [List.lookup_cons]
  by_cases h : other = name
  · simp [h]
  · rw [if_neg h, beq_eq_false_iff_ne.mpr h]

theorem lookup_putEntry (name other : String) (node : Node) (entries : List (String × Node)) :
    (putEntry name node entries).lookup other =
      if other = name then some node else entries.lookup other := by
  induction entries with
  | nil => rw [putEntry, lookup_entry]
  | cons entry rest ih =>
    obtain ⟨old, child⟩ := entry
    rw [putEntry]
    split
    · rename_i heq
      rw [lookup_entry, lookup_entry, heq]
      split <;> rfl
    · rename_i hne
      split
      · exact lookup_entry name other node _
      · rw [lookup_entry, ih, lookup_entry]
        split
        · rename_i hold
          rw [if_neg (hold ▸ Ne.symm hne)]
        · rfl

theorem find?_cons (root : Node) (name : String) (rest : List String) :
    root.find? (name :: rest) = (root.entries.lookup name).bind (·.find? rest) := by
  rw [find?]
  cases root.entries.lookup name <;> rfl

theorem find?_append (root : Node) (as bs : List String) :
    root.find? (as ++ bs) = (root.find? as).bind (·.find? bs) := by
  induction as generalizing root with
  | nil => rfl
  | cons a as ih =>
    rw [List.cons_append, find?_cons, find?_cons]
    cases root.entries.lookup a with
    | none => rfl
    | some child => exact ih child

theorem find?_put_append (tree node : Node) (way rest : List String) :
    (tree.put node way).find? (way ++ rest) = node.find? rest := by
  induction way generalizing tree with
  | nil => rfl
  | cons name way ih =>
    rw [List.cons_append, find?_cons, put, entries, lookup_putEntry, if_pos rfl]
    exact ih _

theorem find?_parent (h : tree.find? way = some node) (hne : way ≠ []) :
    ∃ entries, tree.find? way.dropLast = some (.directory entries) := by
  rw [← List.dropLast_concat_getLast hne, find?_append] at h
  obtain ⟨parent, hparent, hchild⟩ := Option.bind_eq_some_iff.mp h
  cases parent with
  | file content mode => cases hchild
  | directory entries => exact ⟨entries, hparent⟩

theorem fileAt_put_off_way {other : List String}
    (hparent : way ≠ [] → ∃ entries, tree.find? way.dropLast = some (.directory entries))
    (hoff : ¬ way <+: other) : (tree.put node way).fileAt other = tree.fileAt other := by
  induction way generalizing tree other with
  | nil => exact absurd List.nil_prefix hoff
  | cons name way ih =>
    obtain ⟨entries, hentries⟩ := hparent (List.cons_ne_nil name way)
    have htree : ∃ es, tree = .directory es := by
      cases tree with
      | directory es => exact ⟨es, rfl⟩
      | file content mode => cases way <;> cases hentries
    obtain ⟨es, rfl⟩ := htree
    cases other with
    | nil => rfl
    | cons first other =>
      rw [fileAt, fileAt, find?_cons, find?_cons, put, Node.entries, Node.entries,
        lookup_putEntry]
      by_cases heq : first = name
      · subst heq
        rw [if_pos rfl]
        cases way with
        | nil => exact absurd (List.cons_prefix_cons.mpr ⟨rfl, List.nil_prefix⟩) hoff
        | cons next way =>
          rw [List.dropLast_cons_cons, find?_cons] at hentries
          obtain ⟨child, hchild, hinner⟩ := Option.bind_eq_some_iff.mp hentries
          have hoff' : ¬ (next :: way) <+: other := fun h =>
            hoff (List.cons_prefix_cons.mpr ⟨rfl, h⟩)
          have hkept := ih (fun _ => ⟨entries, hinner⟩) hoff'
          rw [Node.entries] at hchild
          rw [hchild]
          exact hkept
      · rw [if_neg heq]

theorem fileAt_put
    (hparent : way ≠ [] → ∃ entries, tree.find? way.dropLast = some (.directory entries))
    (hold : ∀ name rest, tree.fileAt (way ++ name :: rest) = none)
    (hnew : ∀ name rest, node.fileAt (name :: rest) = none) :
    (tree.put node way).fileAt = Function.update tree.fileAt way (node.fileAt []) := by
  funext other
  by_cases hon : way <+: other
  · obtain ⟨rest, rfl⟩ := hon
    have hfound : (tree.put node way).fileAt (way ++ rest) = node.fileAt rest := by
      rw [fileAt, fileAt, find?_put_append]
    rw [hfound]
    cases rest with
    | nil => rw [List.append_nil, Function.update_self]
    | cons name rest =>
      have hne : way ++ name :: rest ≠ way := by simp
      rw [Function.update_of_ne hne, hold, hnew]
  · have hne : other ≠ way := by
      rintro rfl
      exact hon (List.prefix_refl _)
    rw [Function.update_of_ne hne]
    exact fileAt_put_off_way hparent hon

theorem fileAt_append_of_not_directory (h : ∀ entries, tree.find? way ≠ some (.directory entries))
    (name : String) (rest : List String) : tree.fileAt (way ++ name :: rest) = none := by
  rw [fileAt, find?_append]
  cases hfound : tree.find? way with
  | none => rfl
  | some found =>
    cases found with
    | file content mode => rfl
    | directory entries => exact absurd hfound (h entries)

end Node

namespace FileTree

variable {t t' : FileTree} {path : String} {names : List String}

def files (t : FileTree) : List String → Option (List UInt8 × Nat) := t.root.fileAt

theorem follow_ok {root : Node} {place ps out : List String} (h : follow root place ps = .ok out)
    (hplace : ".." ∉ place) : out = ps.foldl (Path.step true) place := by
  induction ps generalizing place with
  | nil =>
    rw [follow] at h
    cases h
    rfl
  | cons part rest ih =>
    rw [follow] at h
    split at h
    · cases h
    · cases h
    · rw [List.foldl_cons]
      split at h
      · rename_i hempty
        rw [Path.step_of_empty hempty]
        exact ih h hplace
      · rename_i hempty
        split at h
        · rename_i hdots
          rw [hdots, Path.step_dots hplace]
          exact ih h fun hmem => hplace (List.mem_of_mem_tail hmem)
        · rename_i hdots
          rw [Path.step_of_name hempty hdots]
          split at h
          · cases h
          · refine ih h ?_
            rw [List.mem_cons, not_or]
            exact ⟨fun heq => hdots heq.symm, hplace⟩

theorem resolve_ok (h : t.resolve path = .ok names) :
    names = Path.normalParts true (Path.parts (Path.join t.cwd path)) := by
  unfold resolve at h
  split at h
  · cases h
  · split at h
    · cases h
    · split at h
      · cases h
      · dsimp only at h
        cases hfollow : follow t.root [] (Path.parts (Path.join t.cwd path)) with
        | error why =>
          rw [hfollow] at h
          cases h
        | ok place =>
          rw [hfollow] at h
          cases h
          exact congrArg List.reverse (follow_ok hfollow List.not_mem_nil)

theorem writable_ok (h : t.writable path = .ok names) :
    names = Path.normalParts true (Path.parts (Path.join t.cwd path)) ∧
      (names ≠ [] → ∃ entries, t.root.find? names.dropLast = some (.directory entries)) ∧
      ∀ entries, t.root.find? names ≠ some (.directory entries) := by
  unfold writable at h
  split at h
  · cases h
  · rename_i found hresolve
    split at h
    · cases h
    · rename_i content mode hfile
      cases h
      refine ⟨resolve_ok hresolve, Node.find?_parent hfile, ?_⟩
      intro entries hdirectory
      rw [hfile] at hdirectory
      cases hdirectory
    · rename_i hnone
      split at h
      · rename_i entries hparent
        cases h
        refine ⟨resolve_ok hresolve, fun _ => ⟨entries, hparent⟩, ?_⟩
        intro entries hdirectory
        rw [hnone] at hdirectory
        cases hdirectory
      · cases h

theorem files_write {content : List UInt8} (h : t.write path content = .ok t') :
    t'.cwd = t.cwd ∧ ∃ mode, t'.files =
      Function.update t.files (Path.normalParts true (Path.parts (Path.join t.cwd path)))
        (some (content, mode)) := by
  obtain ⟨names, hwritable, hwrite⟩ := bind_ok h
  obtain ⟨hnames, hparent, hplace⟩ := writable_ok hwritable
  have hput : ∀ mode, (t.root.put (.file content mode) names).fileAt = _ := fun mode =>
    Node.fileAt_put hparent (Node.fileAt_append_of_not_directory hplace) fun _ _ => rfl
  rw [← hnames]
  cases hwrite
  exact ⟨rfl, _, hput _⟩

theorem files_makeDirectory (h : t.makeDirectory path = .ok t') :
    t'.cwd = t.cwd ∧ t'.files = t.files := by
  unfold makeDirectory at h
  split at h
  · cases h
  · rename_i names hresolve
    split at h
    · cases h
    · rename_i hnone
      rw [Option.not_isSome_iff_eq_none] at hnone
      split at h
      · rename_i entries hparent
        cases h
        refine ⟨rfl, ?_⟩
        have hplace : ∀ es, t.root.find? names ≠ some (.directory es) := by
          intro es hdirectory
          rw [hnone] at hdirectory
          cases hdirectory
        have hput : (t.root.put .empty names).fileAt = _ :=
          Node.fileAt_put (fun _ => ⟨entries, hparent⟩)
            (Node.fileAt_append_of_not_directory hplace) fun _ _ => rfl
        have hsame : t.root.fileAt names = Node.empty.fileAt [] := by
          rw [Node.fileAt, hnone]
          rfl
        rw [← hsame, Function.update_eq_self] at hput
        exact hput
      · cases h
      · cases h

end FileTree

namespace Run

theorem run_tree_bind (f : FileTree → Run α) (w : World) :
    (tree >>= f).run w = (f w.tree).run w := rfl

theorem run_lift_bind {r : Except Fault α} {a : α} (h : r = .ok a) (f : α → Run β) (w : World) :
    (lift r >>= f).run w = (f a).run w := by
  rw [h]
  rfl

theorem run_changeTree (f : FileTree → Except Fault FileTree) (w : World) :
    (changeTree f).run w =
      match f w.tree with
      | .ok t => (.ok (), { w with tree := t })
      | .error e => (.error e, w) := by
  unfold changeTree
  rw [run_get_bind]
  cases f w.tree <;> rfl

theorem keeps_changeTree {view : World → α} {f : FileTree → Except Fault FileTree}
    (h : ∀ w t, f w.tree = .ok t → view { w with tree := t } = view w) :
    Keeps view (changeTree f) := by
  intro w
  rw [run_changeTree]
  cases hf : f w.tree with
  | error e => rfl
  | ok t => exact h w t hf

theorem keeps_makeDirectories (path : String) :
    Keeps (fun w => (w.tree.cwd, w.tree.files)) (makeDirectories path) := by
  have hmake : ∀ path, Keeps (fun w => (w.tree.cwd, w.tree.files))
      (changeTree (·.makeDirectory path)) := by
    intro path
    apply keeps_changeTree
    intro w t hmade
    obtain ⟨hcwd, hfiles⟩ := FileTree.files_makeDirectory hmade
    exact Prod.ext hcwd hfiles
  induction hlength : path.length using Nat.strongRecOn generalizing path with
  | ind length ih =>
    unfold makeDirectories
    refine .bind (.bind .get fun _ => .pure _) fun there => ?_
    dsimp only
    split
    · rename_i hmissing
      have hshorter := Path.length_splitLast hmissing.1
      refine .bind (.tryCatch (ih _ (hlength ▸ hshorter) _ rfl) fun e => ?_) fun _ => ?_
      · split
        · exact .pure _
        · exact .throw _
      · exact .ite (.pure _) (hmake path)
    · exact hmake path

end Run

end LintRunner
