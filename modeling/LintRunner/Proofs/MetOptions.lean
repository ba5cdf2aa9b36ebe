import LintRunner.Proofs.CommandWords

/-!
# Settings after a command line

Each option that is met belongs to the command line, and it changes its own setting only. So what a
setting holds in the end follows from what it held and from the options met for it: the last one
counts, or, for an option that counts, their number.
-/

namespace LintRunner.Options

open Stateful

variable {c : CommandLine} {name : String} {o : CommandOption} {met : List Meeting}

theorem CommandLine.mem_of_long?
    (h : c.long? name = some o) : o ∈ c.options := List.mem_of_find?_eq_some h

theorem CommandLine.mem_of_short?
    (h : c.short? name = some o) : o ∈ c.options := List.mem_of_find?_eq_some h

theorem ReadsLetters.option_mem {letters : List Char} {left left' : List String}
    (h : ReadsLetters c letters left met left') :
    ∀ m ∈ met, m.option ∈ c.options := by
  induction h with
  | done => exact List.forall_mem_nil _
  | flag ho _ _ ih => exact List.forall_mem_cons.mpr ⟨CommandLine.mem_of_short? ho, ih⟩
  | value ho => exact List.forall_mem_singleton.mpr (CommandLine.mem_of_short? ho)

theorem Reads.option_mem {words args : List String}
    (h : Reads c words met args) : ∀ m ∈ met, m.option ∈ c.options := by
  induction h with
  | done => exact List.forall_mem_nil _
  | dashes => exact List.forall_mem_nil _
  | argument _ _ ih => exact ih
  | long _ hlong _ ih =>
    refine List.forall_mem_cons.mpr ⟨?_, ih⟩
    cases hlong with
    | plain _ _ ho => exact CommandLine.mem_of_long? ho
    | assigned _ _ ho => exact CommandLine.mem_of_long? ho
  | letters _ _ hletters _ ih => exact List.forall_mem_append.mpr ⟨hletters.option_mem, ih⟩

/-- What is met for one setting. -/
def givenFor (dest : String) (met : List Meeting) : List Meeting :=
  met.filter fun m => m.option.dest = some dest

def Meeting.next (m : Meeting) (old : Value) : Except Halt Value :=
  match m.option.action with
  | .storeTrue => .ok (.bool true)
  | .storeFalse => .ok (.bool false)
  | .count => CommandLine.countUp old
  | _ => .ok m.value

/-- Actions that store the value that is given, a truth value, or a count. -/
def Action.stores : Action → Bool
  | .store => true
  | .storeTrue => true
  | .storeFalse => true
  | .count => true
  | _ => false

theorem Action.stores_iff {a : Action} :
    a.stores = true ↔ a = .store ∨ a = .storeTrue ∨ a = .storeFalse ∨ a = .count := by
  cases a <;> decide

theorem find?_set (s : Settings) (name key : String) (v : Value) :
    (s.set name v).find? key = if key = name then some v else s.find? key :=
  Entries.lookup_put name key v s.entries

section OneSetting

variable {m : Meeting} {s s' : Settings} {dest : String} {v w : Value} {n : Int} {k : Nat}
  {given : List Meeting}

theorem find?_putAt_of_ne {place : Option String} (h : place.getD "" ≠ dest) :
    (putAt s place v).find? dest = s.find? dest := by
  cases place with
  | none => rfl
  | some d => exact (find?_set s d dest v).trans (if_neg (Ne.symm h))

theorem find?_appendAt_of_ne {place : String} (hne : place ≠ dest)
    (h : appendAt s place v = .ok s') : s'.find? dest = s.find? dest := by
  unfold appendAt at h
  split at h <;> cases h <;>
    exact (find?_set s place dest _).trans (if_neg (Ne.symm hne))

theorem Meeting.find?_apply_of_ne (hne : m.option.dest.getD "" ≠ dest)
    (h : m.apply s = .ok s') : s'.find? dest = s.find? dest := by
  unfold Meeting.apply at h
  split at h
  case h_5 => exact find?_appendAt_of_ne hne h
  case h_6 => exact find?_appendAt_of_ne hne h
  case h_7 =>
    cases hcount : CommandLine.countUp (s.value (m.option.dest.getD "")) <;> rw [hcount] at h <;>
      cases h
    exact find?_putAt_of_ne hne
  case h_8 =>
    cases h
    rfl
  case h_9 => cases h
  case h_10 => cases h
  all_goals
    cases h
    exact find?_putAt_of_ne hne

theorem Meeting.find?_apply (hstores : m.option.action.stores = true)
    (hdest : m.option.dest = some dest) (hv : s.find? dest = some v) (h : m.apply s = .ok s') :
    ∃ w, m.next v = .ok w ∧ s'.find? dest = some w := by
  have hput : ∀ w, (putAt s m.option.dest w).find? dest = some w := by
    intro w
    rw [hdest]
    exact (find?_set s dest dest w).trans (if_pos rfl)
  unfold Meeting.apply at h
  unfold Meeting.next
  rcases Action.stores_iff.mp hstores with haction | haction | haction | haction <;>
    rw [haction] at h ⊢
  · cases h
    exact ⟨_, rfl, hput _⟩
  · cases h
    exact ⟨_, rfl, hput _⟩
  · cases h
    exact ⟨_, rfl, hput _⟩
  · have hvalue : s.value (m.option.dest.getD "") = v := by
      rw [hdest, Settings.value, Option.getD_some, hv]
      rfl
    dsimp only at h ⊢
    rw [hvalue] at h
    cases hcount : CommandLine.countUp v <;> rw [hcount] at h <;> cases h
    exact ⟨_, rfl, hput _⟩

theorem find?_foldlM_apply {met : List Meeting} {o : CommandOption} (hdest : o.dest = some dest)
    (hstores : o.action.stores = true)
    (hmet : ∀ m ∈ met, m.option = o ∨ m.option.dest.getD "" ≠ dest) (hv : s.find? dest = some v)
    (h : met.foldlM (fun s m => m.apply s) s = .ok s') :
    ∃ w, (givenFor dest met).foldlM (fun v m => m.next v) v = .ok w ∧ s'.find? dest = some w := by
  induction met generalizing s v with
  | nil =>
    cases h
    exact ⟨v, rfl, hv⟩
  | cons m rest ih =>
    obtain ⟨hm, hrest⟩ := List.forall_mem_cons.mp hmet
    rw [List.foldlM_cons] at h
    obtain ⟨s₁, hfirst, h⟩ := bind_ok h
    rcases hm with hm | hm
    · have hown : m.option.dest = some dest := by rw [hm, hdest]
      obtain ⟨w, hw, hs₁⟩ := Meeting.find?_apply (by rw [hm, hstores]) hown hv hfirst
      obtain ⟨u, hu, hs'⟩ := ih hrest hs₁ h
      refine ⟨u, ?_, hs'⟩
      rw [givenFor, List.filter_cons_of_pos (by simpa using hown), List.foldlM_cons, hw]
      exact hu
    · obtain ⟨u, hu, hs'⟩ := ih hrest ((Meeting.find?_apply_of_ne hm hfirst).trans hv) h
      refine ⟨u, ?_, hs'⟩
      rw [givenFor, List.filter_cons_of_neg]
      · exact hu
      · intro heq
        rw [of_decide_eq_true heq] at hm
        exact hm rfl

/-- A number after so many more; nothing counts as zero. -/
def raised : Nat → Value → Except Halt Value
  | 0, v => .ok v
  | k + 1, v => CommandLine.countUp v >>= raised k

def Meeting.stored (m : Meeting) : Value :=
  match m.option.action with
  | .storeTrue => .bool true
  | .storeFalse => .bool false
  | _ => m.value

end OneSetting

def Action.appends : Action → Bool
  | .append => true
  | .appendConst => true
  | _ => false

namespace CommandLine

section Defaults

variable {γ : Type} {c : CommandLine} {view : List (String × Value) → γ} {name : String}

/-- A view of the defaults that does not show how long the lists are that an option makes longer. -/
def Hides (o : CommandOption) (view : List (String × Value) → γ) : Prop :=
  o.action.appends = true → ∀ (defaults : List (String × Value)) (vs : List Value) (v : Value),
    defaults.lookup (o.dest.getD "") = some (.list vs) →
      view (Entries.put (o.dest.getD "") (.list (vs ++ [v])) defaults) = view defaults

theorem keeps_liftExcept {α : Type} (r : Except Halt α) :
    Keeps (fun st => view st.defaults) (liftExcept r : Reader α) := by
  cases r <;> exact fun _ => rfl

theorem keeps_takeWords (opt : String) (n : Value) :
    Keeps (fun st => view st.defaults) (takeWords opt n) := by
  intro st
  unfold takeWords
  rw [run_bind_of_ok (run_get st), run_bind, run_fault]
  rcases n.exceeds st.left.length with f | _ | _
  · rfl
  · rw [show (Except.ok false : Except Fault Bool).mapError Halt.fault = .ok false from rfl]
    dsimp only
    rw [if_neg Bool.false_ne_true]
    split
    · rfl
    · rw [run_bind, run_fault]
      cases n.asInt <;> rfl
  · rw [show (Except.ok true : Except Fault Bool).mapError Halt.fault = .ok true from rfl]
    dsimp only
    rw [if_pos rfl, run_bind, run_fault]
    cases wordCount n <;> rfl

theorem keeps_put (dest : Option String) (v : Value) :
    Keeps (fun st => view st.defaults) (put dest v) := by
  cases dest with
  | none => exact .pure _
  | some d => exact .modify fun _ => rfl

theorem keeps_appendTo {o : CommandOption} (ho : Hides o view) (happends : o.action.appends = true)
    (v : Value) : Keeps (fun st => view st.defaults) (appendTo (o.dest.getD "") v) := by
  intro st
  unfold appendTo
  rw [run_bind_of_ok (run_get st)]
  split
  · rfl
  · rename_i vs _
    dsimp only
    rw [run_bind_of_ok (run_put _ _ st)]
    split
    · rename_i hshared
      exact ho happends st.defaults vs v (beq_iff_eq.mp hshared)
    · rfl
  · rfl

theorem keeps_perform {o : CommandOption} (hown : c.callbacks = []) (ho : Hides o view)
    (opt : String) (v : Value) : Keeps (fun st => view st.defaults) (c.perform o opt v) := by
  unfold perform
  cases haction : o.action <;> dsimp only
  case store => exact keeps_put _ _
  case storeConst => exact keeps_put _ _
  case storeTrue => exact keeps_put _ _
  case storeFalse => exact keeps_put _ _
  case append => exact keeps_appendTo ho (by rw [haction]; rfl) _
  case appendConst => exact keeps_appendTo ho (by rw [haction]; rfl) _
  case count => exact .bind .get fun _ => .bind (keeps_liftExcept _) fun _ => keeps_put _ _
  case callback =>
    split
    · exact .ite (.throw _) (.pure _)
    · exact .throw _
    · rw [hown]
      exact .throw _
    · exact .pure _
  case help => exact .throw _
  case version => exact .throw _

theorem keeps_meet {o : CommandOption} (hown : c.callbacks = []) (ho : Hides o view)
    (opt : String) :
    Keeps (fun st => view st.defaults) (c.meet o opt) := by
  refine .ite (.bind (keeps_takeWords _ _) fun words => ?_) (keeps_perform hown ho _ _)
  split
  · exact keeps_perform hown ho _ _
  · exact .throw _

theorem keeps_meetNamed (hown : c.callbacks = []) (hc : ∀ o ∈ c.options, Hides o view)
    (written : String) (explicit : Bool) :
    Keeps (fun st => view st.defaults) (c.meetNamed written explicit) := by
  unfold meetNamed
  split
  · exact .throw _
  · split
    · exact .pure _
    · rename_i o ho
      have hmeet := fun opt => keeps_meet (c := c) hown (hc o (mem_of_long? ho)) opt
      exact .ite (.bind (.throw _) fun _ => hmeet _) (hmeet _)

theorem keeps_readLong (hown : c.callbacks = []) (hc : ∀ o ∈ c.options, Hides o view)
    (word : String) :
    Keeps (fun st => view st.defaults) (c.readLong word) := by
  rcases hcut : Text.cut (· == '=') word.toList with ⟨written, _ | rest⟩
  · rw [readLong_plain hcut]
    exact keeps_meetNamed hown hc _ _
  · rw [readLong_assigned hcut]
    exact .bind (.modify fun _ => rfl) fun _ => keeps_meetNamed hown hc _ _

theorem keeps_readShorts (hown : c.callbacks = []) (hc : ∀ o ∈ c.options, Hides o view)
    (letters : List Char) :
    Keeps (fun st => view st.defaults) (c.readShorts letters) := by
  induction letters with
  | nil => exact .pure _
  | cons letter rest ih =>
    rw [readShorts]
    split
    · exact .throw _
    · rename_i o ho
      have hmeet := fun opt => keeps_meet (c := c) hown (hc o (mem_of_short? ho)) opt
      refine .ite (.ite (.bind (.modify fun _ => rfl) fun _ => hmeet _) (hmeet _)) ?_
      exact .bind (hmeet _) fun _ => ih

theorem keeps_readDashed (hown : c.callbacks = []) (hc : ∀ o ∈ c.options, Hides o view)
    (word : String) : Keeps (fun st => view st.defaults) (c.readDashed word) := by
  unfold readDashed
  split
  · exact keeps_readLong hown hc word
  · exact keeps_readShorts hown hc _
  · exact .pure _

theorem keeps_readWords (hown : c.callbacks = []) (hc : ∀ o ∈ c.options, Hides o view)
    (fuel : Nat) :
    Keeps (fun st => view st.defaults) (c.readWords fuel) := by
  induction fuel with
  | zero => exact .pure _
  | succ fuel ih =>
    intro st
    rw [readWords, run_bind_of_ok (run_get st)]
    split
    · rfl
    · rename_i word rest hleft
      rw [run_bind_of_ok (run_set _ st)]
      split
      · rfl
      · dsimp only
        split
        · exact ih { st with left := rest, found := st.found ++ [word] }
        · exact Keeps.bind (keeps_readDashed hown hc word) (fun _ => ih) { st with left := rest }

theorem view_readKnownFrom (hown : c.callbacks = []) (hc : ∀ o ∈ c.options, Hides o view)
    (fuel : Nat) (st : Reading) :
    view (c.readKnownFrom fuel st).2.defaults = view st.defaults := by
  induction fuel generalizing st with
  | zero => rfl
  | succ fuel ih =>
    have hkept := keeps_readWords hown hc (fuelFor st.left) st
    rw [readKnownFrom, pass]
    split
    · rfl
    · unfold resume
      split <;> rename_i hrun <;> rw [hrun] at hkept
      · exact (ih _).trans hkept
      · exact (ih _).trans hkept
      · exact hkept
      · exact hkept

def Spares (c : CommandLine) (name : String) : Prop :=
  ∀ o ∈ c.options, o.action.appends = true → o.dest.getD "" ≠ name

theorem Spares.hides (hc : c.Spares name) : ∀ o ∈ c.options, Hides o (List.lookup name) := by
  intro o ho happends defaults vs v _
  rw [Entries.lookup_put, if_neg (hc o ho happends).symm]

theorem defaults_read (hown : c.callbacks = []) (hc : ∀ o ∈ c.options, Hides o view)
    (words : List String) (values : Settings) : view (c.read words values).2.defaults = view c.defaults :=
  keeps_readWords hown hc (fuelFor words) (c.start words values)

theorem defaults_readKnown (hown : c.callbacks = []) (hc : ∀ o ∈ c.options, Hides o view)
    (words : List String) (values : Settings) : view (c.readKnown words values).2.defaults = view c.defaults :=
  view_readKnownFrom hown hc (fuelFor words) (c.start words values)

end Defaults

end CommandLine

end LintRunner.Options
