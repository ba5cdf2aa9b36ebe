import LintRunner.Application.Report
import LintRunner.Proofs.GuidedFindings

/-!
# What is reported of a run

The findings of all files go to the style guides, file by file and in the order of their places. This
module says which of them reach the formatter, that each of these is counted once, and how a run ends.
-/

namespace LintRunner

open Stateful

theorem World.lineOf_congr {w w' : World} (h : w'.tree = w.tree) : w'.lineOf = w.lineOf := by
  funext file line
  simp only [lineOf, sourceLines, h]

/-- What a formatter is told while findings are reported. -/
inductive Notice where
  | beginning (file : String)
  | handle (v : Violation)
  | finished (file : String)

/-- What is told of violations file by file. -/
def notices (told : List (String × List Violation)) : List Notice :=
  told.flatMap fun entry =>
    .beginning entry.1 :: (entry.2.map .handle ++ [.finished entry.1])

namespace Formatter

variable {fm fm' : Formatter} {w w' : World} {v : Violation}

theorem format_ok {line : Option String} (h : fm.format v = .ok (line, fm')) :
    fm'.isOpen = fm.isOpen ∧ fm'.own = fm.own := by
  unfold format at h
  split at h
  · cases h
  · cases h
    exact ⟨rfl, rfl⟩
  · cases h
  · obtain ⟨file, -, h⟩ := bind_ok h
    split at h
    · cases h
      exact ⟨rfl, rfl⟩
    · obtain ⟨text, -, h⟩ := bind_ok h
      cases h
      exact ⟨rfl, rfl⟩
  · obtain ⟨text, -, h⟩ := bind_ok h
    cases h
    exact ⟨rfl, rfl⟩

/-- Only the files change, and these only if the formatter writes to one. -/
def Leaves (fm : Formatter) (w w' : World) : Prop :=
  w'.tree.cwd = w.tree.cwd ∧ (fm.isOpen = false → w'.tree = w.tree)

theorem Leaves.refl (fm : Formatter) (w : World) : fm.Leaves w w := ⟨rfl, fun _ => rfl⟩

theorem Leaves.trans {w'' : World} (h : fm.Leaves w w') (h' : fm.Leaves w' w'') :
    fm.Leaves w w'' :=
  ⟨h'.1.trans h.1, fun hclosed => (h'.2 hclosed).trans (h.2 hclosed)⟩

theorem append_cwd {t t' : FileTree} {path : String} {content : List UInt8}
    (h : t.append path content = .ok t') : t'.cwd = t.cwd := by
  obtain ⟨names, -, h⟩ := bind_ok h
  cases h
  rfl

theorem gives_print (fm : Formatter) (text : String) {w w₁ : World} (h : fm.Leaves w w₁) :
    Gives w₁ (Run.print text) fun _ w' => fm.Leaves w w' := by
  intro _ w' hrun
  cases hrun
  exact h

theorem gives_writeText (fm : Formatter) (text : Value) (w : World) :
    Gives w (fm.writeText text) fun _ w' => fm.Leaves w w' := by
  unfold writeText
  dsimp only
  split
  · rename_i hopen
    refine .bind Run.gives_lift fun _ w₁ hfirst => ?_
    obtain ⟨-, rfl⟩ := hfirst
    refine .bind Run.gives_lift fun _ w₂ hsecond => ?_
    obtain ⟨-, rfl⟩ := hsecond
    refine .bind .get fun _ w₃ hget => ?_
    obtain ⟨rfl, rfl⟩ := hget
    refine .bind Run.gives_lift fun t w₄ hthird => ?_
    obtain ⟨happend, rfl⟩ := hthird
    refine .bind (.set _) fun _ w₅ hset => ?_
    have hleaves : fm.Leaves w₄ w₅ := by
      rw [hset]
      refine ⟨append_cwd happend, fun hclosed => ?_⟩
      rw [hopen] at hclosed
      cases hclosed
    exact .ite (gives_print fm _ hleaves) (.pure hleaves)
  · exact .ite (gives_print fm _ (.refl fm w)) (.pure (.refl fm w))

theorem gives_write (fm : Formatter) (line excerpt : Value) (w : World) :
    Gives w (fm.write line excerpt) fun _ w' => fm.Leaves w w' := by
  have hexcerpt : ∀ w₁, fm.Leaves w w₁ →
      Gives w₁ (if excerpt.truthy = true then fm.writeText excerpt else pure ())
        fun _ w' => fm.Leaves w w' := by
    intro w₁ h
    refine .ite ?_ (.pure h)
    intro _ w' hrun
    exact h.trans (gives_writeText fm excerpt w₁ _ w' hrun)
  unfold write
  dsimp only
  split
  · exact .bind (gives_writeText fm line w) fun _ w₁ h => hexcerpt w₁ h
  · exact hexcerpt w (.refl fm w)

theorem gives_handle (hown : fm.own = none) (v : Violation) (w : World) :
    Gives w (fm.handle v) fun fm' w' =>
      fm.Leaves w w' ∧ fm'.isOpen = fm.isOpen ∧ fm'.own = none := by
  unfold handle
  rw [hown]
  dsimp only
  unfold handleByStyle
  refine .bind Run.gives_lift fun ⟨line, fm'⟩ w₁ hfirst => ?_
  obtain ⟨hformat, rfl⟩ := hfirst
  obtain ⟨hopen, hsame⟩ := format_ok hformat
  refine .bind Run.gives_lift fun source w₂ hsecond => ?_
  obtain ⟨-, rfl⟩ := hsecond
  refine .bind (gives_write fm' _ _ w₂) fun _ w₃ hleaves => ?_
  rw [Leaves, hopen] at hleaves
  exact .pure ⟨hleaves, hopen, hsame.trans hown⟩

theorem run_beginning (hown : fm.own = none) (hstyle : fm.style ≠ .foreign) (file : Value)
    (w : World) : (fm.beginning file).run w = (.ok fm, w) := by
  rw [beginning, require, if_neg hstyle, hown]
  rfl

theorem run_finished (hown : fm.own = none) (hstyle : fm.style ≠ .foreign) (file : Value)
    (w : World) : (fm.finished file).run w = (.ok fm, w) := by
  rw [finished, require, if_neg hstyle, hown]
  rfl

def notify (fm : Formatter) : Notice → Run Formatter
  | .beginning file => fm.beginning (.text file)
  | .handle v => fm.handle v
  | .finished file => fm.finished (.text file)

/-- Tells the formatter several things, one after the other. -/
def notifyAll : Formatter → List Notice → Run Formatter
  | fm, [] => return fm
  | fm, n :: ns => do (← fm.notify n).notifyAll ns

variable {n : Notice} {ns us : List Notice}

theorem run_notifyAll_cons {w₁ : World} (hnotify : (fm.notify n).run w = (.ok fm', w₁)) :
    (fm.notifyAll (n :: ns)).run w = (fm'.notifyAll ns).run w₁ := by
  rw [notifyAll, run_bind, hnotify]

/-- Whatever the formatter is told from now on, a part of the world stays as it is. -/
def Spares {γ : Type} (fm : Formatter) (w : World) (view : World → γ) : Prop :=
  ∀ ns fm' w', (fm.notifyAll ns).run w = (.ok fm', w') → view w' = view w

theorem Spares.notify {γ : Type} {view : World → γ} (h : fm.Spares w view)
    (hnotify : (fm.notify n).run w = (.ok fm', w')) : fm'.Spares w' view ∧ view w' = view w := by
  have hsame : view w' = view w := h [n] fm' w' (run_notifyAll_cons hnotify)
  refine ⟨fun ns fm'' w'' hrun => ?_, hsame⟩
  rw [hsame]
  refine h (n :: ns) fm'' w'' ?_
  rw [run_notifyAll_cons hnotify, hrun]

theorem gives_notify (hown : fm.own = none) (n : Notice) (w : World) :
    Gives w (fm.notify n) fun fm' w' =>
      fm.Leaves w w' ∧ fm'.isOpen = fm.isOpen ∧ fm'.own = none := by
  cases n with
  | handle v => exact gives_handle hown v w
  | beginning file =>
    intro fm' w' hrun
    by_cases hstyle : fm.style = .foreign
    · rw [notify, beginning, require, if_pos hstyle] at hrun
      cases hrun
    · rw [notify, run_beginning hown hstyle] at hrun
      cases hrun
      exact ⟨.refl fm w, rfl, hown⟩
  | finished file =>
    intro fm' w' hrun
    by_cases hstyle : fm.style = .foreign
    · rw [notify, finished, require, if_pos hstyle] at hrun
      cases hrun
    · rw [notify, run_finished hown hstyle] at hrun
      cases hrun
      exact ⟨.refl fm w, rfl, hown⟩

theorem leaves_of_notifyAll (hown : fm.own = none)
    (h : (fm.notifyAll ns).run w = (.ok fm', w')) : fm.Leaves w w' := by
  induction ns generalizing fm w with
  | nil =>
    cases h
    exact .refl _ _
  | cons n ns ih =>
    obtain ⟨fm₁, w₁, hnotify, h⟩ := run_bind_ok h
    obtain ⟨hleaves, hopen, hown₁⟩ := gives_notify hown n w fm₁ w₁ hnotify
    have hrest := ih hown₁ h
    rw [Leaves, hopen] at hrest
    exact hleaves.trans hrest

/-- A formatter of the program stays in its directory, and leaves all files alone unless it writes to
one. -/
theorem spares_of_own (hown : fm.own = none) (w : World) :
    fm.Spares w (·.tree.cwd) ∧ (fm.isOpen = false → fm.Spares w World.tree) :=
  ⟨fun _ _ _ hrun => (leaves_of_notifyAll hown hrun).1,
    fun hclosed _ _ _ hrun => (leaves_of_notifyAll hown hrun).2 hclosed⟩

/-- Some of the violations are left out. -/
inductive Fewer : List Notice → List Notice → Prop
  | nil : Fewer [] []
  | keep (n : Notice) {us ns : List Notice} (h : Fewer us ns) : Fewer (n :: us) (n :: ns)
  | drop (v : Violation) {us ns : List Notice} (h : Fewer us ns) : Fewer us (.handle v :: ns)

theorem Fewer.refl (ns : List Notice) : Fewer ns ns := by
  induction ns with
  | nil => exact .nil
  | cons n ns ih => exact .keep n ih

/-- Whichever of the violations it is given, the formatter does its work without a fault. -/
def Accepts (fm : Formatter) (w : World) (ns : List Notice) : Prop :=
  ∀ us, Fewer us ns → ∃ fm' w', (fm.notifyAll us).run w = (.ok fm', w')

theorem Accepts.skip (h : fm.Accepts w (.handle v :: ns)) : fm.Accepts w ns :=
  fun us hus => h us (.drop v hus)

theorem Accepts.next (h : fm.Accepts w (n :: ns)) :
    ∃ fm' w', (fm.notify n).run w = (.ok fm', w') ∧ fm'.Accepts w' ns := by
  obtain ⟨last, wl, hall⟩ := h (n :: ns) (.refl _)
  obtain ⟨fm', w', hnotify, -⟩ := run_bind_ok hall
  refine ⟨fm', w', hnotify, fun us hus => ?_⟩
  obtain ⟨last', wl', hmore⟩ := h (n :: us) (.keep n hus)
  rw [run_notifyAll_cons hnotify] at hmore
  exact ⟨last', wl', hmore⟩

theorem accepts_of_steady (hsteady : ∀ n ∈ ns, ∀ w, ∃ w', (fm.notify n).run w = (.ok fm, w'))
    (w : World) : fm.Accepts w ns := by
  intro us hus
  induction hus generalizing w with
  | nil => exact ⟨fm, w, rfl⟩
  | keep n hus ih =>
    obtain ⟨hn, hns⟩ := List.forall_mem_cons.mp hsteady
    obtain ⟨w₁, hnotify⟩ := hn w
    rw [run_notifyAll_cons hnotify]
    exact ih hns w₁
  | drop v hus ih => exact ih (List.forall_mem_cons.mp hsteady).2 w

/-- In the default style, lines that can be filled in are written to standard output without a
fault. -/
theorem run_handle_of_filled (hown : fm.own = none) (hstyle : fm.style = .default) (hclosed : fm.isOpen = false)
    (hplain : fm.showsSource = false) (hfilled : (fm.filled v).toOption.isSome = true)
    (w : World) : ∃ w', (fm.handle v).run w = (.ok fm, w') := by
  obtain ⟨line, hline⟩ := Option.isSome_iff_exists.mp hfilled
  have hformat : fm.format v = .ok (some line, fm) := by
    rw [format, hstyle]
    dsimp only
    rw [eq_ok_of_toOption hline]
    rfl
  have hsource : fm.source v = .ok (some "") := by
    rw [source, hstyle, hplain]
  have hwrite : ∃ w', (fm.write (.text line) (.text "")).run w = (.ok (), w') := by
    unfold write writeText
    rw [hclosed]
    cases (Value.text line).truthy with
    | true => exact ⟨_, rfl⟩
    | false => exact ⟨_, rfl⟩
  obtain ⟨w', hwrite⟩ := hwrite
  refine ⟨w', ?_⟩
  rw [handle, hown]
  dsimp only
  rw [handleByStyle, run_bind, Run.run_lift, hformat]
  dsimp only
  rw [run_bind, Run.run_lift, hsource]
  dsimp only [optional, Option.map_some, Option.getD_some]
  rw [run_bind, hwrite]
  rfl

end Formatter

/-! ## Picking what is reported -/

namespace StyleGuides

/-- The violations of a file that reach the formatter when findings come one after the other: each
finding that the guides report when its turn comes, and no other. -/
inductive Picked (gs : StyleGuides) (file : String) : World → Formatter → List Finding →
    List Violation → World → Formatter → Prop
  | done {w fm} : Picked gs file w fm [] [] w fm
  | pass {w w' fm fm' f fs vs} (hreports : gs.reports w file f = false)
      (hrest : Picked gs file w fm fs vs w' fm') : Picked gs file w fm (f :: fs) vs w' fm'
  | pick {w w₁ w' fm fm₁ fm' f fs vs} (hreports : gs.reports w file f = true)
      (hhandle : (fm.handle (f.reportedIn file)).run w = (.ok fm₁, w₁))
      (hrest : Picked gs file w₁ fm₁ fs vs w' fm') :
      Picked gs file w fm (f :: fs) (f.reportedIn file :: vs) w' fm'

/-- What reaches the formatter file by file, each between two notices. -/
inductive Reported (gs : StyleGuides) : World → Formatter → List (String × List Finding) →
    List (String × List Violation) → World → Formatter → Prop
  | done {w fm} : Reported gs w fm [] [] w fm
  | file {w w₁ w₂ w₃ w' fm fm₁ fm₂ fm₃ fm' file fs vs listing told}
      (hbeginning : (fm.beginning (.text file)).run w = (.ok fm₁, w₁))
      (hpicked : gs.Picked file w₁ fm₁ fs vs w₂ fm₂)
      (hfinished : (fm₂.finished (.text file)).run w₂ = (.ok fm₃, w₃))
      (hrest : Reported gs w₃ fm₃ listing told w' fm') :
      Reported gs w fm ((file, fs) :: listing) ((file, vs) :: told) w' fm'

variable {gs gs' : StyleGuides} {w w' : World} {fm fm' : Formatter} {file : String}
  {fs : List Finding} {vs : List Violation} {listing : List (String × List Finding)}
  {told : List (String × List Violation)}

theorem Picked.congr (h : gs'.Picked file w fm fs vs w' fm') (hsame : gs'.standing = gs.standing) :
    gs.Picked file w fm fs vs w' fm' := by
  have hreports := reports_congr hsame
  induction h with
  | done => exact .done
  | pass hpass hrest ih => exact .pass (hreports ▸ hpass) ih
  | pick hpick hhandle hrest ih => exact .pick (hreports ▸ hpick) hhandle ih

theorem Reported.congr (h : gs'.Reported w fm listing told w' fm')
    (hsame : gs'.standing = gs.standing) : gs.Reported w fm listing told w' fm' := by
  induction h with
  | done => exact .done
  | file hbeginning hpicked hfinished hrest ih =>
    exact .file hbeginning (hpicked.congr hsame) hfinished ih

theorem Picked.notifyAll (h : gs.Picked file w fm fs vs w' fm') (ns : List Notice) :
    (fm.notifyAll (vs.map .handle ++ ns)).run w = (fm'.notifyAll ns).run w' := by
  induction h with
  | done => rfl
  | pass hreports hrest ih => exact ih
  | pick hreports hhandle hrest ih =>
    rw [List.map_cons, List.cons_append, Formatter.run_notifyAll_cons (n := .handle _) hhandle, ih]

theorem Reported.notifyAll (h : gs.Reported w fm listing told w' fm') :
    (fm.notifyAll (notices told)).run w = (.ok fm', w') := by
  induction h with
  | done => rfl
  | file hbeginning hpicked hfinished hrest ih =>
    rw [notices, List.flatMap_cons, List.cons_append, List.append_assoc,
      Formatter.run_notifyAll_cons (n := .beginning _) hbeginning, hpicked.notifyAll,
      List.singleton_append, Formatter.run_notifyAll_cons (n := .finished _) hfinished]
    exact ih

theorem Picked.spares {γ : Type} {view : World → γ} (h : gs.Picked file w fm fs vs w' fm')
    (hspares : fm.Spares w view) : fm'.Spares w' view ∧ view w' = view w := by
  induction h with
  | done => exact ⟨hspares, rfl⟩
  | pass hreports hrest ih => exact ih hspares
  | pick hreports hhandle hrest ih =>
    obtain ⟨hspares₁, hview₁⟩ := hspares.notify (n := .handle _) hhandle
    obtain ⟨hspares', hview⟩ := ih hspares₁
    exact ⟨hspares', hview.trans hview₁⟩

theorem Picked.eq_filter (h : gs.Picked file w fm fs vs w' fm')
    (hsteady : ∀ f ∈ fs, fm.Spares w (gs.reports · file f)) :
    vs = (fs.filter (gs.reports w file)).map (·.reportedIn file) := by
  induction h with
  | done => rfl
  | pass hreports hrest ih =>
    rw [List.filter_cons_of_neg (by simp [hreports])]
    exact ih (List.forall_mem_cons.mp hsteady).2
  | pick hreports hhandle hrest ih =>
    have hnext := fun f hf =>
      ((List.forall_mem_cons.mp hsteady).2 f hf).notify (n := .handle _) hhandle
    rw [List.filter_cons_of_pos hreports, List.map_cons, ih fun f hf => (hnext f hf).1,
      List.filter_congr fun f hf => (hnext f hf).2]

theorem Reported.eq_filter (h : gs.Reported w fm listing told w' fm')
    (hsteady : ∀ e ∈ listing, ∀ f ∈ e.2, fm.Spares w (gs.reports · e.1 f)) :
    told = listing.map fun e =>
      (e.1, (e.2.filter (gs.reports w e.1)).map (·.reportedIn e.1)) := by
  induction h with
  | done => rfl
  | file hbeginning hpicked hfinished hrest ih =>
    rename_i listing told
    obtain ⟨hfile, hfiles⟩ := List.forall_mem_cons.mp hsteady
    have hbegun := fun {γ : Type} {view : World → γ} (hview : Formatter.Spares _ _ view) =>
      hview.notify (n := .beginning _) hbeginning
    have hlater : ∀ e ∈ listing, ∀ f ∈ e.2, _ := fun e he f hf => by
      obtain ⟨hspares₁, hview₁⟩ := hbegun (hfiles e he f hf)
      obtain ⟨hspares₂, hview₂⟩ := hpicked.spares hspares₁
      obtain ⟨hspares₃, hview₃⟩ := hspares₂.notify (n := .finished _) hfinished
      exact And.intro hspares₃ (hview₃.trans (hview₂.trans hview₁))
    rw [List.map_cons, hpicked.eq_filter fun f hf => (hbegun (hfile f hf)).1,
      List.filter_congr fun f hf => (hbegun (hfile f hf)).2, ih fun e he f hf => (hlater e he f hf).1]
    refine congrArg _ (List.map_congr_left fun e he => ?_)
    rw [List.filter_congr fun f hf => (hlater e he f hf).2]

/-- What is reported does not change while a formatter does its work, unless it changes files and the
finding's line has to be looked up, or it goes to another directory. -/
theorem spares_reports {f : Finding} (hf : f.Regular)
    (hspares : fm.Spares w World.tree ∨ fm.Spares w (·.tree.cwd) ∧ f.source ≠ .none) :
    fm.Spares w (gs.reports · file f) := by
  intro ns fm' w' hrun
  rcases hspares with htree | ⟨hcwd, hsource⟩
  · have htree := htree ns fm' w' hrun
    have hline : f.shownLine w' file = f.shownLine w file := by
      rw [Finding.shownLine, Finding.shownLine, World.lineOf_congr htree]
    simp only [reports, StyleGuide.reports, htree, hline]
  · have hcwd := hcwd ns fm' w' hrun
    obtain ⟨line, hline⟩ := hf.source.resolve_left hsource
    simp only [reports, StyleGuide.reports, Finding.shownLine, hcwd, hline]

end StyleGuides

def Finding.asTuple (f : Finding) : Value := .tuple [f.code, f.line, f.column, f.text, f.source]

namespace Check

/-- The file is shown under a name, and its results are these findings. -/
def FileChecker.Lists (c : FileChecker) (entry : String × List Finding) : Prop :=
  c.displayName = .text entry.1 ∧
    match c.handed with
    | none => c.results = entry.2
    | some (results, _) => results = .list (entry.2.map Finding.asTuple)

namespace Manager

def withPlace (f : Finding) : Value × Value :=
  (.tuple [.int f.place.1, .int f.place.2], f.asTuple)

def placePart (i : Nat) (p : Value × Value) : Int :=
  ((p.1.items?.getD [])[i]?.getD .none).int?.getD 0

theorem mapM_withPlace {fs : List Finding} (h : ∀ f ∈ fs, f.HasIntegerPlace) :
    ((fs.map Finding.asTuple).mapM fun r => do
      return (Value.tuple [← r.itemAt 1, ← r.itemAt 2], r) : Except Fault _) =
      .ok (fs.map withPlace) := by
  induction fs with
  | nil => rfl
  | cons f rest ih =>
    obtain ⟨hf, hrest⟩ := List.forall_mem_cons.mp h
    have hone : (do return (Value.tuple [← f.asTuple.itemAt 1, ← f.asTuple.itemAt 2],
        f.asTuple) : Except Fault (Value × Value)) = .ok (withPlace f) := by
      rw [withPlace, ← hf.eq.1, ← hf.eq.2]
      rfl
    rw [List.map_cons, List.mapM_cons, hone, ih hrest]
    rfl

theorem handedInOrder_eq {fs : List Finding} (h : ∀ f ∈ fs, f.HasIntegerPlace) :
    handedInOrder (.list (fs.map Finding.asTuple)) =
      .ok ((fs.mergeSort lePlace).map Finding.asTuple) := by
  have hsort : Value.sortBy (·.1) (fs.map withPlace) =
      .ok ((fs.mergeSort lePlace).map withPlace) := by
    rw [Value.sortBy_pairs (placePart 0) (placePart 1)]
    · rw [List.map_mergeSort (r := lePlace)]
      intro a _ b _
      rfl
    · intro p hp
      obtain ⟨f, -, rfl⟩ := List.mem_map.mp hp
      rfl
  have hstart : handedInOrder (.list (fs.map Finding.asTuple)) = (do
      let placed ← (fs.map Finding.asTuple).mapM fun r => do
        return (Value.tuple [← r.itemAt 1, ← r.itemAt 2], r)
      return (← Value.sortBy (·.1) placed).map (·.2)) := rfl
  have hend : (do return (← Value.sortBy (·.1) (fs.map withPlace)).map (·.2) :
      Except Fault (List Value)) = .ok ((fs.mergeSort lePlace).map Finding.asTuple) := by
    rw [hsort]
    exact congrArg Except.ok (List.map_map ..)
  rw [hstart, mapM_withPlace h]
  exact hend

variable {gs : StyleGuides} {fm fm' : Formatter} {w w' : World} {file : String} {fs : List Finding}
  {more : List Notice}

theorem run_handleAll_cons {α : Type} {read : α → Except Fault Finding} {x : α} {xs : List α}
    {f : Finding} {gs₁ gs' : StyleGuides} {w₁ w' : World} {n m : Nat} (hx : read x = .ok f)
    (hfirst : (gs.handle (.text file) f).run w = (.ok (n, gs₁), w₁))
    (hmore : (handleAll read (.text file) gs₁ xs).run w₁ = (.ok (m, gs'), w')) :
    (handleAll read (.text file) gs (x :: xs)).run w = (.ok (n + m, gs'), w') := by
  rw [handleAll, run_bind, Run.run_lift, hx]
  dsimp only
  rw [run_bind_of_ok hfirst]
  rw [run_bind, hmore]
  rfl

theorem handleAll_picks {α : Type} {read : α → Except Fault Finding} {xs : List α}
    (hread : List.Forall₂ (fun x f => read x = .ok f) xs fs) (hfs : ∀ f ∈ fs, f.Regular)
    (hfile : '\x00' ∉ file.toList) (hgs : gs.Sound) (hfm : gs.formatter = some fm)
    (haccepts : fm.Accepts w ((fs.map fun f => .handle (f.reportedIn file)) ++ more)) :
    ∃ vs w' fm' gs', (handleAll read (.text file) gs xs).run w = (.ok (vs.length, gs'), w') ∧
      gs.Picked file w fm fs vs w' fm' ∧ gs.After vs.length gs' ∧
      gs'.formatter = some fm' ∧ fm'.Accepts w' more := by
  induction hread generalizing gs fm w with
  | nil => exact ⟨[], w, fm, gs, rfl, .done, ⟨hgs, rfl, rfl⟩, hfm, haccepts⟩
  | cons hx hrest ih =>
    rename_i x f xs fs
    obtain ⟨hf, hfs⟩ := List.forall_mem_cons.mp hfs
    rw [List.map_cons, List.cons_append] at haccepts
    cases hreports : gs.reports w file f with
    | false =>
      obtain ⟨gs₁, hrun, hafter, hfm₁⟩ := hgs.handle_passes hf hfile hreports
      obtain ⟨vs, w', fm', gs', hmore, hpicked, hafter', hfm', haccepts'⟩ :=
        ih hfs hafter.sound (hfm₁.trans hfm) haccepts.skip
      refine ⟨vs, w', fm', gs', ?_, .pass hreports (hpicked.congr hafter.standing), ?_, hfm',
        haccepts'⟩
      · rw [run_handleAll_cons hx hrun hmore, Nat.zero_add]
      · exact Nat.zero_add vs.length ▸ hafter.trans hafter'
    | true =>
      obtain ⟨fm₁, w₁, hhandle, haccepts₁⟩ := haccepts.next
      obtain ⟨gs₁, hrun, hafter, hfm₁⟩ := hgs.handle_reports hf hfile hreports hfm hhandle
      obtain ⟨vs, w', fm', gs', hmore, hpicked, hafter', hfm', haccepts'⟩ :=
        ih hfs hafter.sound hfm₁ haccepts₁
      refine ⟨f.reportedIn file :: vs, w', fm', gs', ?_,
        .pick hreports hhandle (hpicked.congr hafter.standing), ?_, hfm', haccepts'⟩
      · rw [run_handleAll_cons hx hrun hmore, Nat.add_comm, List.length_cons]
      · rw [List.length_cons, Nat.add_comm]
        exact hafter.trans hafter'

theorem forall₂_ok (fs : List Finding) :
    List.Forall₂ (fun x f => (Except.ok x : Except Fault Finding) = .ok f) fs fs := by
  induction fs with
  | nil => exact .nil
  | cons f rest ih => exact .cons rfl ih

theorem forall₂_findingOf (fs : List Finding) :
    List.Forall₂ (fun v f => findingOf v = .ok f) (fs.map Finding.asTuple) fs := by
  induction fs with
  | nil => exact .nil
  | cons f rest ih => exact .cons rfl ih

theorem run_inform {tell : Formatter → Run Formatter} (hfm : gs.formatter = some fm)
    (htell : (tell fm).run w = (.ok fm', w')) :
    (gs.inform tell).run w = (.ok { gs with formatter := some fm' }, w') := by
  rw [StyleGuides.inform, StyleGuides.getFormatter, hfm]
  dsimp only
  rw [pure_bind, run_bind, htell]
  rfl

theorem after_inform (hgs : gs.Sound) (fm : Option Formatter) :
    gs.After 0 { gs with formatter := fm } :=
  ⟨⟨hgs.general, hgs.ready⟩, rfl, rfl⟩

/-- What is told of the findings of a file, if all are reported. -/
def fileNotices (file : String) (fs : List Finding) : List Notice :=
  .beginning file :: ((fs.map fun f => .handle (f.reportedIn file)) ++ [.finished file])

theorem reportResults_picks {α : Type} {read : α → Except Fault Finding} {xs : List α}
    (hread : List.Forall₂ (fun x f => read x = .ok f) xs fs) (hfs : ∀ f ∈ fs, f.Regular)
    (hfile : '\x00' ∉ file.toList) (hgs : gs.Sound) (hfm : gs.formatter = some fm)
    (haccepts : fm.Accepts w (fileNotices file fs ++ more)) :
    ∃ vs w₁ w₂ w' fm₁ fm₂ fm' gs', (reportResults read (.text file) gs xs).run w =
        (.ok ((fs.length, vs.length), gs'), w') ∧
      (fm.beginning (.text file)).run w = (.ok fm₁, w₁) ∧
      gs.Picked file w₁ fm₁ fs vs w₂ fm₂ ∧
      (fm₂.finished (.text file)).run w₂ = (.ok fm', w') ∧
      gs.After vs.length gs' ∧ gs'.formatter = some fm' ∧ fm'.Accepts w' more := by
  rw [fileNotices, List.cons_append, List.append_assoc] at haccepts
  obtain ⟨fm₁, w₁, hbeginning, haccepts₁⟩ := haccepts.next
  have hbegun := after_inform hgs (some fm₁)
  obtain ⟨vs, w₂, fm₂, gs₂, hrun, hpicked, hafter, hfm₂, haccepts₂⟩ :=
    handleAll_picks hread hfs hfile hbegun.sound rfl haccepts₁
  obtain ⟨fm', w', hfinished, haccepts'⟩ := haccepts₂.next
  have hended := after_inform hafter.sound (some fm')
  refine ⟨vs, w₁, w₂, w', fm₁, fm₂, fm', { gs₂ with formatter := some fm' }, ?_, hbeginning,
    hpicked.congr hbegun.standing, hfinished, ?_, rfl, haccepts'⟩
  · rw [reportResults, run_bind, run_inform hfm hbeginning]
    dsimp only
    rw [run_bind_of_ok hrun]
    rw [run_bind_of_ok (run_inform hfm₂ hfinished)]
    rw [run_pure, hread.length_eq]
  · exact Nat.zero_add vs.length ▸ hbegun.trans (hafter.trans hended)

theorem reportFile_picks {c : FileChecker} (hc : c.Lists (file, fs)) (hfs : ∀ f ∈ fs, f.Regular)
    (hfile : '\x00' ∉ file.toList) (hgs : gs.Sound) (hfm : gs.formatter = some fm)
    (haccepts : fm.Accepts w (fileNotices file (fs.mergeSort lePlace) ++ more)) :
    ∃ vs w₁ w₂ w' fm₁ fm₂ fm' gs',
      (reportFile gs c).run w = (.ok ((fs.length, vs.length), gs'), w') ∧
      (fm.beginning (.text file)).run w = (.ok fm₁, w₁) ∧
      gs.Picked file w₁ fm₁ (fs.mergeSort lePlace) vs w₂ fm₂ ∧
      (fm₂.finished (.text file)).run w₂ = (.ok fm', w') ∧
      gs.After vs.length gs' ∧ gs'.formatter = some fm' ∧ fm'.Accepts w' more := by
  obtain ⟨hname, hresults⟩ := hc
  have hplaces : ∀ f ∈ fs, f.HasIntegerPlace := fun f hf => (hfs f hf).place
  have hsorted : ∀ f ∈ fs.mergeSort lePlace, f.Regular := fun f hf =>
    hfs f (List.mem_mergeSort.mp hf)
  unfold reportFile
  have hlength : (fs.mergeSort lePlace).length = fs.length := List.length_mergeSort fs
  rw [hname, ← hlength]
  cases hhanded : c.handed with
  | none =>
    rw [hhanded] at hresults
    dsimp only at hresults ⊢
    rw [hresults, run_bind, Run.run_lift, byPlace_eq hplaces]
    exact reportResults_picks (forall₂_ok _) hsorted hfile hgs hfm haccepts
  | some handed =>
    obtain ⟨results, counts⟩ := handed
    rw [hhanded] at hresults
    dsimp only at hresults ⊢
    rw [hresults, run_bind, Run.run_lift, handedInOrder_eq hplaces]
    exact reportResults_picks (forall₂_findingOf _) hsorted hfile hgs hfm haccepts

/-- The names of files can be looked up, and the findings are regular. -/
def Regular (listing : List (String × List Finding)) : Prop :=
  ∀ entry ∈ listing, '\x00' ∉ entry.1.toList ∧ ∀ f ∈ entry.2, f.Regular

/-- The findings of each file in the order of their places. -/
def inPlaces (listing : List (String × List Finding)) : List (String × List Finding) :=
  listing.map fun entry => (entry.1, entry.2.mergeSort lePlace)

/-- All that can be told of the findings of files. -/
def allNotices (listing : List (String × List Finding)) : List Notice :=
  (inPlaces listing).flatMap fun entry => fileNotices entry.1 entry.2

theorem reportAll_picks {cs : List FileChecker} {listing : List (String × List Finding)}
    (hcs : List.Forall₂ FileChecker.Lists cs listing) (hlisting : Regular listing)
    (hgs : gs.Sound) (hfm : gs.formatter = some fm) (haccepts : fm.Accepts w (allNotices listing)) :
    ∃ told w' fm' gs',
      (reportAll gs cs).run w = (.ok (((listing.map (·.2.length)).sum,
        (told.map (·.2.length)).sum), gs'), w') ∧
      gs.Reported w fm (inPlaces listing) told w' fm' ∧
      gs.After (told.map (·.2.length)).sum gs' ∧ gs'.formatter = some fm' := by
  induction hcs generalizing gs fm w with
  | nil => exact ⟨[], w, fm, gs, rfl, .done, ⟨hgs, rfl, rfl⟩, hfm⟩
  | cons hc hrest ih =>
    rename_i c entry cs listing
    obtain ⟨⟨hfile, hfs⟩, hlisting⟩ := List.forall_mem_cons.mp hlisting
    obtain ⟨vs, w₁, w₂, w₃, fm₁, fm₂, fm₃, gs₁, hrun, hbeginning, hpicked, hfinished, hafter, hfm₁,
      haccepts₁⟩ := reportFile_picks hc hfs hfile hgs hfm haccepts
    obtain ⟨told, w', fm', gs', hmore, hreported, hafter', hfm'⟩ :=
      ih hlisting hafter.sound hfm₁ haccepts₁
    refine ⟨(entry.1, vs) :: told, w', fm', gs', ?_,
      .file hbeginning hpicked hfinished (hreported.congr hafter.standing), ?_, hfm'⟩
    · rw [reportAll, run_bind, hrun]
      dsimp only
      rw [run_bind_of_ok hmore]
      rw [run_pure, List.map_cons, List.sum_cons, List.map_cons, List.sum_cons]
    · rw [List.map_cons, List.sum_cons]
      exact hafter.trans hafter'

end Manager

end Check

/-! ## The end of a run -/

namespace Running

theorem run_inWorld {α : Type} {r : Run α} {a : Application} {result : Except Fault α} {w : World}
    (h : r.run a.world = (result, w)) :
    (inWorld r).run a = (result, { a with world := w }) := by
  unfold inWorld
  rw [run_get_bind, h]
  dsimp only
  rw [run_bind, run_modify]
  cases result <;> rfl

theorem run_need {α : Type} {x : Option α} {y : α} (h : x = some y) (a : Application) :
    (need x).run a = (.ok y, a) := by
  rw [h]
  rfl

theorem run_reportErrors {a : Application} {m : Check.Manager} {gs gs' : StyleGuides} {w : World}
    {found reported : Nat} (hm : a.manager = some m) (hgs : a.guides = some gs)
    (hreport : (m.report gs).run a.world = (.ok ((found, reported), gs'), w)) :
    ∃ a', reportErrors.run a = (.ok (), a') ∧ a'.found = found ∧ a'.reported = reported ∧
      a'.guides = some gs' ∧ a'.failed = a.failed ∧ a'.settings = a.settings := by
  unfold reportErrors
  rw [run_get_bind, run_bind_of_ok (run_need hm a)]
  rw [run_bind_of_ok (run_need hgs a)]
  rw [run_bind_of_ok (run_inWorld hreport)]
  rw [run_modify]
  exact ⟨_, rfl, rfl, rfl, rfl, rfl, rfl⟩

/-- Unless it is to end well in any case, a run ends with the status that tells whether findings were
reported or it failed. -/
theorem run_exit {a : Application} {s : Settings} {arguments : List String}
    (hs : a.settings = some (s, arguments)) (hzero : s.flag "exit_zero" = false) :
    ∃ a', exit.run a = (.error (.exit (.bool (decide (0 < a.reported) || a.failed))), a') := by
  have hsettings : settings.run a = (.ok s, a) := by
    unfold settings
    rw [run_get_bind, run_bind, run_need hs]
    rfl
  have hthrow : ∀ b : Application,
      (if !s.flag "exit_zero" then throw (.exit (.bool (decide (0 < a.reported) || a.failed)))
        else pure () : Running Unit).run b =
        (.error (.exit (.bool (decide (0 < a.reported) || a.failed))), b) := by
    intro b
    rw [hzero]
    rfl
  unfold exit
  rw [run_bind_of_ok hsettings, run_get_bind]
  dsimp only
  split
  · have hprint : (Run.printLine (toString a.reported)).run a.world =
        (.ok (), a.world.print (toString a.reported ++ "\n")) := rfl
    rw [run_bind, run_inWorld hprint]
    exact ⟨_, hthrow _⟩
  · exact ⟨_, hthrow a⟩

end Running

namespace Check.Manager

/-- Reporting hands to the formatter, file by file and by place in each file, the findings that the
guide of the file selects and no comment suppresses, each once; they are counted in the guides and
in the result, and the status of the run tells whether there were any. The formatter may be one of
the program or of a plugin. Where it changes files or goes to another directory, a finding counts as
selected if it is when its turn comes. -/
theorem report_picks_selected {m : Manager} {listing : List (String × List Finding)}
    {gs : StyleGuides} {fm : Formatter} {w : World}
    (hfiles : List.Forall₂ FileChecker.Lists m.checkers listing) (hlisting : Regular listing)
    (hgs : gs.Sound) (hfm : gs.formatter = some fm)
    (haccepts : fm.Accepts w (allNotices listing)) :
    ∃ told w' fm' gs',
      (m.report gs).run w = (.ok (((listing.map (·.2.length)).sum,
        (told.map (·.2.length)).sum), gs'), w') ∧
      gs'.formatter = some fm' ∧ (fm.notifyAll (notices told)).run w = (.ok fm', w') ∧
      gs.Reported w fm (inPlaces listing) told w' fm' ∧
      (fm.Spares w World.tree ∨ fm.Spares w (·.tree.cwd) ∧
          (∀ e ∈ listing, ∀ f ∈ e.2, f.source ≠ .none) →
        told = (inPlaces listing).map fun e =>
          (e.1, (e.2.filter (gs.reports w e.1)).map (·.reportedIn e.1))) ∧
      (fm.own = none → fm.Spares w (·.tree.cwd) ∧
        (fm.isOpen = false → fm.Spares w World.tree)) ∧
      gs'.counted = gs.counted + (told.map (·.2.length)).sum ∧
      ∀ (a : Application) (s : Settings) (arguments : List String), a.manager = some m →
        a.guides = some gs → a.world = w → a.settings = some (s, arguments) →
        s.flag "exit_zero" = false →
        ∃ a', (do Running.reportErrors; Running.exit : Running Unit).run a =
          (.error (.exit (.bool (decide (0 < (told.map (·.2.length)).sum) || a.failed))), a') := by
  obtain ⟨told, w', fm', gs', hrun, hreported, hafter, hfm'⟩ :=
    reportAll_picks hfiles hlisting hgs hfm haccepts
  refine ⟨told, w', fm', gs', hrun, hfm', hreported.notifyAll, hreported, ?_,
    fun hown => Formatter.spares_of_own hown w, hafter.counted, ?_⟩
  · intro hspares
    refine hreported.eq_filter fun e he f hf => ?_
    obtain ⟨entry, hentry, rfl⟩ := List.mem_map.mp he
    have hf := List.mem_mergeSort.mp hf
    refine StyleGuides.spares_reports ((hlisting entry hentry).2 f hf) ?_
    exact hspares.imp_right fun hplace => ⟨hplace.1, hplace.2 entry hentry f hf⟩
  · rintro a s arguments hm hguides rfl hs hzero
    obtain ⟨a₁, hreport, -, hreported, -, hfailed, hsettings⟩ :=
      Running.run_reportErrors hm hguides hrun
    obtain ⟨a', hexit⟩ := Running.run_exit (hsettings.trans hs) hzero
    rw [hreported, hfailed] at hexit
    refine ⟨a', ?_⟩
    rw [run_bind, hreport]
    exact hexit

section TwoFiles

/-- Codes that begin with `E` or `F` are reported, but not those with `E1`, nor `F401` in `a.py`. -/
def listedCodes : Settings where
  entries := [("select", .texts ["E", "F"]), ("enable_extensions", .list []),
    ("extended_default_select", .list []), ("ignore", .texts ["E1"]),
    ("extend_ignore", .list []), ("per_file_ignores", .text "a.py:F401")]

def toOutput : Formatter where
  style := .default
  template := FormatStyle.default.template
  output := .none
  tee := false
  showsSource := false

def generalGuide : StyleGuide :=
  { pattern := none, decider := ⟨⟨["E", "F"], [], [], ["E1"], []⟩, []⟩, disableNoqa := false }

def guideOfA : StyleGuide := generalGuide.forFiles "/tmp" (some "a.py") ["F401"]

def listedGuides : StyleGuides := ⟨[generalGuide, guideOfA], some toOutput⟩

theorem ofSettings_listedCodes :
    StyleGuides.ofSettings "/tmp" listedCodes (some toOutput) = .ok listedGuides := by
  have hpairs : StyleGuides.perFile listedCodes = .ok [("a.py", ["F401"])] :=
    eq_ok_of_toOption (by decide +kernel)
  rw [StyleGuides.ofSettings, hpairs]
  rfl

def tooLong : Finding := .plain "E501" 2 79 "line too long" (some "x\n")

def unused : Finding := .plain "F401" 1 0 "'os' imported but unused" (some "import os\n")

def suppressed : Finding :=
  .plain "F401" 1 7 "'re' imported but unused" (some "import re  # noqa: F401\n")

def twoFiles : List (String × List Finding) :=
  [("./b.py", [tooLong, suppressed, unused]), ("./a.py", [unused])]

def twoFilesManager : Manager :=
  { (default : Manager) with checkers := [
      { (default : FileChecker) with
        displayName := .text "./b.py", results := [tooLong, suppressed, unused] },
      { (default : FileChecker) with
        displayName := .text "./a.py", handed := some (.list [unused.asTuple], .none) }] }

def emptyTree : World where
  tree := ⟨.empty, "/tmp"⟩

theorem inPlaces_twoFiles :
    inPlaces twoFiles = [("./b.py", [unused, suppressed, tooLong]), ("./a.py", [unused])] := by
  have hsorted : [tooLong, suppressed, unused].mergeSort lePlace = [unused, suppressed, tooLong] := by
    simp [List.mergeSort, List.MergeSort.Internal.splitInTwo, lePlace, Finding.place, Value.int?,
      tooLong, suppressed, unused, Finding.plain]
  rw [inPlaces, twoFiles, List.map_cons, hsorted, List.map_singleton, List.mergeSort_singleton]

theorem filter_twoFiles :
    ((inPlaces twoFiles).map fun e => (e.1, e.2.filter (listedGuides.reports emptyTree e.1))) =
      [("./b.py", [unused, tooLong]), ("./a.py", [])] := by
  have hsound := StyleGuides.sound_ofSettings ofSettings_listedCodes
  have hb : listedGuides.reports emptyTree "./b.py" = generalGuide.reports emptyTree "./b.py" :=
    hsound.reports_eq (i := 0) (by decide +kernel) rfl
  have ha : listedGuides.reports emptyTree "./a.py" = guideOfA.reports emptyTree "./a.py" :=
    hsound.reports_eq (i := 1) (by decide +kernel) rfl
  have hunused : generalGuide.reports emptyTree "./b.py" unused = true := by
    rw [StyleGuide.reports_eq rfl (by decide)]
    decide +kernel
  have hsuppressed : generalGuide.reports emptyTree "./b.py" suppressed = false := by
    rw [StyleGuide.reports_eq rfl (by decide)]
    decide +kernel
  have htooLong : generalGuide.reports emptyTree "./b.py" tooLong = true := by
    rw [StyleGuide.reports_eq rfl (by decide)]
    decide +kernel
  have hother : guideOfA.reports emptyTree "./a.py" unused = false := by
    rw [StyleGuide.reports_eq rfl (by decide)]
    decide +kernel
  simp only [inPlaces_twoFiles, List.map_cons, List.map_nil, List.filter_cons, List.filter_nil, hb,
    ha, hunused, hsuppressed, htooLong, hother, if_true, Bool.false_eq_true, if_false]

theorem accepts_twoFiles : toOutput.Accepts emptyTree (allNotices twoFiles) := by
  have hfilled : ∀ e ∈ inPlaces twoFiles, ∀ f ∈ e.2,
      (toOutput.filled (f.reportedIn e.1)).toOption.isSome = true := by
    rw [inPlaces_twoFiles]
    decide +kernel
  refine Formatter.accepts_of_steady (fun n hn => ?_) emptyTree
  obtain ⟨e, he, hn⟩ := List.mem_flatMap.mp hn
  rw [fileNotices, List.mem_cons, List.mem_append, List.mem_singleton] at hn
  rcases hn with rfl | hn | rfl
  · exact fun w => ⟨w, Formatter.run_beginning rfl (by decide) (.text e.1) w⟩
  · obtain ⟨f, hf, rfl⟩ := List.mem_map.mp hn
    exact Formatter.run_handle_of_filled rfl rfl rfl rfl (hfilled e he f hf)
  · exact fun w => ⟨w, Formatter.run_finished rfl (by decide) (.text e.1) w⟩

/-- Of four findings in two files two are reported. -/
theorem report_picks_two_of_four :
    StyleGuides.ofSettings "/tmp" listedCodes (some toOutput) = .ok listedGuides ∧
      List.Forall₂ FileChecker.Lists twoFilesManager.checkers twoFiles ∧ Regular twoFiles ∧
      ∃ w' gs',
        (twoFilesManager.report listedGuides).run emptyTree = (.ok ((4, 2), gs'), w') ∧
        w'.stdout = "./b.py:1:1: F401 'os' imported but unused\n" ++
          "./b.py:2:80: E501 line too long\n" ∧
        gs'.counted = 2 ∧
        ∀ (a : Application), a.manager = some twoFilesManager → a.guides = some listedGuides →
          a.world = emptyTree → a.settings = some (listedCodes, []) →
          ∃ a', (do Running.reportErrors; Running.exit : Running Unit).run a =
            (.error (.exit (.bool true)), a') := by
  have hlists : List.Forall₂ FileChecker.Lists twoFilesManager.checkers twoFiles :=
    .cons ⟨rfl, rfl⟩ (.cons ⟨rfl, rfl⟩ .nil)
  have hregular : Regular twoFiles := by
    intro entry hentry
    have hplain : ∀ f ∈ [tooLong, suppressed, unused], f.Regular := by
      simp only [List.forall_mem_cons]
      exact ⟨Finding.regular_plain .., Finding.regular_plain .., Finding.regular_plain .., by simp⟩
    simp only [twoFiles, List.mem_cons, List.not_mem_nil, or_false] at hentry
    rcases hentry with rfl | rfl
    · exact ⟨by decide, hplain⟩
    · exact ⟨by decide, fun f hf => hplain f (List.mem_cons_of_mem _ (List.mem_cons_of_mem _ hf))⟩
  obtain ⟨told, w', fm', gs', hreport, -, hwritten, -, htold, hspares, hcounted, hexit⟩ :=
    report_picks_selected hlists hregular (StyleGuides.sound_ofSettings ofSettings_listedCodes) rfl
      accepts_twoFiles
  have hpicked : told = [("./b.py", [unused, tooLong]), ("./a.py", [])].map fun e =>
      (e.1, e.2.map (·.reportedIn e.1)) := by
    rw [htold (.inl ((hspares rfl).2 rfl)), ← filter_twoFiles, List.map_map]
    rfl
  subst hpicked
  refine ⟨ofSettings_listedCodes, hlists, hregular, w', gs', hreport, ?_, hcounted, ?_⟩
  · have hlast := congrArg (fun r => r.2.stdout) hwritten
    exact hlast.symm.trans (by decide +kernel)
  · intro a hm hgs hw hs
    exact hexit a listedCodes [] hm hgs hw hs rfl

end TwoFiles

end Check.Manager

end LintRunner
