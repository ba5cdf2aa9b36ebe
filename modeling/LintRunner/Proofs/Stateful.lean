import LintRunner.Fault

/-!
# Work that may fail and keeps its state

Checking a file, supervising many files and running in a world are computations of one kind: they
change a state, and what they changed remains when they fail. This module says how such work runs
step by step, and what it means that it leaves a part of the state alone.
-/

namespace LintRunner.Stateful

variable {ε σ α β γ δ : Type}

abbrev Work (σ α : Type) := ExceptT Fault (StateM σ) α

variable {x : ExceptT ε (StateM σ) α} {f : α → Except ε β} {s t : σ} {b : β} {e : ε} {l : List α}
  {a : α}

theorem bind_ok {x : Except ε α} (h : x >>= f = .ok b) :
    ∃ a, x = .ok a ∧ f a = .ok b := by
  cases x with
  | error e => cases h
  | ok a => exact ⟨a, rfl, h⟩

theorem bind_error {x : Except ε α} (h : x >>= f = .error e) :
    x = .error e ∨ ∃ a, x = .ok a ∧ f a = .error e := by
  cases x with
  | error e' =>
    cases h
    exact .inl rfl
  | ok a => exact .inr ⟨a, rfl, h⟩

theorem mapM_error (h : l.mapM f = .error e) :
    ∃ a ∈ l, f a = .error e := by
  induction l with
  | nil => cases h
  | cons a rest ih =>
    rw [List.mapM_cons] at h
    obtain ha | ⟨_, -, h⟩ := bind_error h
    · exact ⟨a, List.mem_cons_self, ha⟩
    · obtain hrest | ⟨_, -, hpure⟩ := bind_error h
      · obtain ⟨b, hb, hbad⟩ := ih hrest
        exact ⟨b, List.mem_cons_of_mem a hb, hbad⟩
      · cases hpure

theorem exists_of_mem_mapM {bs : List β} (h : l.mapM f = .ok bs) (hb : b ∈ bs) :
    ∃ a ∈ l, f a = .ok b := by
  induction l generalizing bs with
  | nil =>
    cases h
    cases hb
  | cons a rest ih =>
    rw [List.mapM_cons] at h
    obtain ⟨first, hfirst, h⟩ := bind_ok h
    obtain ⟨more, hmore, h⟩ := bind_ok h
    cases h
    rcases List.mem_cons.mp hb with rfl | hb
    · exact ⟨a, List.mem_cons_self, hfirst⟩
    · obtain ⟨a', ha', hgives⟩ := ih hmore hb
      exact ⟨a', List.mem_cons_of_mem a ha', hgives⟩

theorem mapM_map_ok {f : α → β} {g : β → Except ε α} (h : ∀ a, g (f a) = .ok a) (l : List α) :
    (l.map f).mapM g = .ok l := by
  induction l with
  | nil => rfl
  | cons a rest ih =>
    rw [List.map_cons, List.mapM_cons, h, ih]
    rfl

theorem eq_ok_of_toOption {x : Except ε α} (h : x.toOption = some a) : x = .ok a := by
  cases x with
  | error e => cases h
  | ok b =>
    cases h
    rfl

theorem filterM_map_ok {f : α → β} {g : β → Except ε Bool} {keep : α → Bool}
    (h : ∀ a ∈ l, g (f a) = .ok (keep a)) :
    (l.map f).filterM g = .ok ((l.filter keep).map f) := by
  have haux : ∀ acc, List.filterAuxM g (l.map f) acc =
      .ok (((l.filter keep).map f).reverse ++ acc) := by
    induction l with
    | nil => exact fun acc => rfl
    | cons a rest ih =>
      intro acc
      obtain ⟨ha, hrest⟩ := List.forall_mem_cons.mp h
      have hstep : List.filterAuxM g ((a :: rest).map f) acc =
          List.filterAuxM g (rest.map f) (cond (keep a) (f a :: acc) acc) := by
        rw [List.map_cons, List.filterAuxM, ha]
        rfl
      rw [hstep, ih hrest, List.filter_cons]
      cases keep a <;> simp
  unfold List.filterM
  rw [haux]
  simp [bind, Except.bind, pure, Except.pure]

theorem run_bind (x : ExceptT ε (StateM σ) α) (f : α → ExceptT ε (StateM σ) β) (s : σ) :
    (x >>= f).run s =
      match x.run s with
      | (.ok a, t) => (f a).run t
      | (.error e, t) => (.error e, t) := by
  simp only [bind, ExceptT.bind, ExceptT.run, ExceptT.mk, StateT.bind, ExceptT.bindCont]
  rcases x s with ⟨_ | _, _⟩ <;> rfl

theorem run_pure (a : α) (s : σ) : (pure a : ExceptT ε (StateM σ) α).run s = (.ok a, s) := rfl

theorem run_get (s : σ) : (get : ExceptT ε (StateM σ) σ).run s = (.ok s, s) := rfl

theorem run_set (t s : σ) : (set t : ExceptT ε (StateM σ) PUnit).run s = (.ok (), t) := rfl

theorem run_modify (g : σ → σ) (s : σ) :
    (modify g : ExceptT ε (StateM σ) Unit).run s = (.ok (), g s) := rfl

theorem run_tryCatch (x : Work σ α) (handle : Fault → Work σ α) (s : σ) :
    (tryCatch x handle).run s =
      match x.run s with
      | (.ok a, t) => (.ok a, t)
      | (.error e, t) => (handle e).run t := by
  simp only [tryCatch, tryCatchThe, MonadExceptOf.tryCatch, ExceptT.tryCatch, ExceptT.run,
    ExceptT.mk, bind, StateT.bind]
  rcases x s with ⟨_ | _, _⟩ <;> rfl

theorem run_bind_ok {f : α → ExceptT ε (StateM σ) β}
    (h : (x >>= f).run s = (.ok b, t)) :
    ∃ a u, x.run s = (.ok a, u) ∧ (f a).run u = (.ok b, t) := by
  rw [run_bind] at h
  rcases hx : x.run s with ⟨_ | a, u⟩
  · rw [hx] at h
    cases h
  · rw [hx] at h
    exact ⟨a, u, rfl, h⟩

theorem run_bind_congr {f g : α → ExceptT ε (StateM σ) β}
    (h : ∀ a t, x.run s = (.ok a, t) → (f a).run t = (g a).run t) :
    (x >>= f).run s = (x >>= g).run s := by
  rw [run_bind, run_bind]
  rcases hx : x.run s with ⟨_ | a, t⟩
  · rfl
  · exact h a t hx

theorem run_bind_of_ok {f : α → ExceptT ε (StateM σ) β} (h : x.run s = (.ok a, t)) :
    (x >>= f).run s = (f a).run t := by
  rw [run_bind, h]

theorem run_get_bind {f : σ → ExceptT ε (StateM σ) α} : (get >>= f).run s = (f s).run s :=
  run_bind_of_ok rfl

theorem run_bind_idle {f : α → ExceptT ε (StateM σ) α}
    (h : ∀ a t, x.run s = (.ok a, t) → (f a).run t = (.ok a, t)) : (x >>= f).run s = x.run s := by
  rw [run_bind]
  rcases hx : x.run s with ⟨_ | a, t⟩
  · rfl
  · exact h a t hx

/-- Whatever comes of it, the work leaves a view of the state as it is. -/
def Keeps (view : σ → γ) (x : ExceptT ε (StateM σ) α) : Prop := ∀ s, view (x.run s).2 = view s

namespace Keeps

variable {view : σ → γ}

theorem pure (a : α) : Keeps view (Pure.pure a : ExceptT ε (StateM σ) α) := fun _ => rfl

theorem throw (e : ε) : Keeps view (throw e : ExceptT ε (StateM σ) α) := fun _ => rfl

theorem get : Keeps view (get : ExceptT ε (StateM σ) σ) := fun _ => rfl

theorem modify {g : σ → σ} (h : ∀ s, view (g s) = view s) :
    Keeps view (modify g : ExceptT ε (StateM σ) Unit) := h

theorem bind {x : ExceptT ε (StateM σ) α} {f : α → ExceptT ε (StateM σ) β} (hx : Keeps view x)
    (hf : ∀ a, Keeps view (f a)) : Keeps view (x >>= f) := by
  intro s
  have hfirst := hx s
  rw [run_bind]
  rcases hrun : x.run s with ⟨_ | a, t⟩ <;> rw [hrun] at hfirst
  · exact hfirst
  · exact (hf a t).trans hfirst

theorem ite {c : Prop} [Decidable c] {x y : ExceptT ε (StateM σ) α} (hx : Keeps view x)
    (hy : Keeps view y) : Keeps view (if c then x else y) := by
  split
  · exact hx
  · exact hy

theorem tryCatch {x : Work σ α} {handle : Fault → Work σ α} (hx : Keeps view x)
    (hh : ∀ e, Keeps view (handle e)) : Keeps view (tryCatch x handle) := by
  intro s
  have hfirst := hx s
  rw [run_tryCatch]
  rcases hrun : x.run s with ⟨e | a, t⟩ <;> rw [hrun] at hfirst
  · exact (hh e t).trans hfirst
  · exact hfirst

theorem forIn {xs : List α} {f : α → β → ExceptT ε (StateM σ) (ForInStep β)}
    (hf : ∀ a b, Keeps view (f a b)) (b : β) : Keeps view (forIn xs b f) := by
  induction xs generalizing b with
  | nil => exact pure b
  | cons a rest ih =>
    rw [List.forIn_cons]
    refine bind (hf a b) fun step => ?_
    cases step with
    | done b => exact pure b
    | yield b => exact ih b

theorem forM {xs : List α} {f : α → ExceptT ε (StateM σ) PUnit} (hf : ∀ a, Keeps view (f a)) :
    Keeps view (xs.forM f) := by
  induction xs with
  | nil => exact pure _
  | cons a rest ih => exact bind (hf a) fun _ => ih

theorem comp {x : ExceptT ε (StateM σ) α} (h : Keeps view x) (read : γ → δ) :
    Keeps (fun s => read (view s)) x := fun s => congrArg read (h s)

end Keeps

/-- Started in the state `s`, the work either fails or gives a result and a state with `P`. -/
def Gives (s : σ) (x : Work σ α) (P : α → σ → Prop) : Prop := ∀ a t, x.run s = (.ok a, t) → P a t

namespace Gives

variable {s : σ} {P : α → σ → Prop}

theorem pure {a : α} (h : P a s) : Gives s (Pure.pure a : Work σ α) P := by
  intro b t hrun
  cases hrun
  exact h

theorem get : Gives s (get : Work σ σ) fun a t => a = s ∧ t = s := by
  intro a t hrun
  cases hrun
  exact ⟨rfl, rfl⟩

theorem set (s' : σ) : Gives s (set s' : Work σ PUnit) fun _ t => t = s' := by
  intro a t hrun
  cases hrun
  rfl

theorem ite {c : Prop} [Decidable c] {x y : Work σ α} (hx : Gives s x P)
    (hy : Gives s y P) : Gives s (if c then x else y) P := by
  split
  · exact hx
  · exact hy

theorem bind {x : Work σ α} {f : α → Work σ β} {Q : β → σ → Prop}
    (hx : Gives s x P) (hf : ∀ a t, P a t → Gives t (f a) Q) : Gives s (x >>= f) Q := by
  intro b u hrun
  obtain ⟨a, t, hfirst, hsecond⟩ := run_bind_ok hrun
  exact hf a t (hx a t hfirst) b u hsecond

/-- A pass over a list keeps what each of its steps keeps, and its results have what the result of
each step has. -/
theorem mapM {xs : List α} {f : α → Work σ β} {I : σ → Prop} {R : β → Prop}
    (hf : ∀ a ∈ xs, ∀ t, I t → Gives t (f a) fun b u => I u ∧ R b) (hs : I s) :
    Gives s (xs.mapM f) fun bs t => I t ∧ ∀ b ∈ bs, R b := by
  induction xs generalizing s with
  | nil => exact pure ⟨hs, fun b hb => absurd hb List.not_mem_nil⟩
  | cons a rest ih =>
    rw [List.mapM_cons]
    refine bind (hf a List.mem_cons_self s hs) fun b t hb => ?_
    refine bind (ih (fun a' ha' => hf a' (List.mem_cons_of_mem a ha')) hb.1) fun bs u hbs => ?_
    exact pure ⟨hbs.1, List.forall_mem_cons.mpr ⟨hb.2, hbs.2⟩⟩

end Gives

end LintRunner.Stateful
