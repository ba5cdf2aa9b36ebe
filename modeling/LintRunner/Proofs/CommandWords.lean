import LintRunner.Options.CommandLine
import LintRunner.Proofs.NamedEntries
import LintRunner.Proofs.Stateful

/-!
# What a command line says

Reading a command line meets options, each with a value if it takes one, and keeps the other words
as arguments. Which options are met is said here without regard to settings; reading then changes
the settings by one met option after the other.
-/

namespace LintRunner.Options

open Stateful

/-- An option that is met among the words, and the value that it takes. -/
structure Meeting where
  option : CommandOption
  value : Value := .none

def putAt (s : Settings) (dest : Option String) (v : Value) : Settings :=
  match dest with
  | some d => s.set d v
  | none => s

def appendAt (s : Settings) (dest : String) (v : Value) : Except Halt Settings :=
  match s.value dest with
  | .none => .ok (s.set dest (.list [v]))
  | .list vs => .ok (s.set dest (.list (vs ++ [v])))
  | _ => .error (.fault Fault.missingAttribute)

def Meeting.apply (m : Meeting) (s : Settings) : Except Halt Settings :=
  match m.option.action with
  | .store => .ok (putAt s m.option.dest m.value)
  | .storeConst => .ok (putAt s m.option.dest m.option.const)
  | .storeTrue => .ok (putAt s m.option.dest (.bool true))
  | .storeFalse => .ok (putAt s m.option.dest (.bool false))
  | .append => appendAt s (m.option.dest.getD "") m.value
  | .appendConst => appendAt s (m.option.dest.getD "") m.option.const
  | .count =>
    (CommandLine.countUp (s.value (m.option.dest.getD ""))).map (putAt s m.option.dest)
  | .callback => .ok s
  | .help => .error .help
  | .version => .error .version

def wordsTaken (n : Value) (left : Nat) : Option Nat :=
  match n.exceeds left with
  | .ok false =>
    (if n.whole? = some 1 then some 1 else n.asInt.toOption).map fun k =>
      if 0 ≤ k then k.toNat else ((left : Int) + k).toNat
  | _ => none

/-- An option that is met under a name takes its value from the words that are left. -/
inductive Takes (o : CommandOption) (opt : String) (left : List String) :
    Value → List String → Prop
  | nothing (h : o.takesValue = false) : Takes o opt left .none left
  | words {n : Nat} {v : Value} (h : o.takesValue = true)
      (hn : wordsTaken o.nargs left.length = some n)
      (hv : CommandLine.convert o opt (left.take n) = .ok v) : Takes o opt left v (left.drop n)

/-- The letters of a word with one dash: options without values, and perhaps one at the end that
takes its value from the rest of the word and the words that are left. -/
inductive ReadsLetters (c : CommandLine) :
    List Char → List String → List Meeting → List String → Prop
  | done {left : List String} : ReadsLetters c [] left [] left
  | flag {letter : Char} {rest : List Char} {o : CommandOption} {left left' : List String}
      {met : List Meeting} (ho : c.short? (String.ofList ['-', letter]) = some o)
      (h : o.takesValue = false) (hrest : ReadsLetters c rest left met left') :
      ReadsLetters c (letter :: rest) left (⟨o, .none⟩ :: met) left'
  | value {letter : Char} {rest : List Char} {o : CommandOption} {left left' : List String}
      {v : Value} (ho : c.short? (String.ofList ['-', letter]) = some o)
      (h : o.takesValue = true)
      (hv : Takes o (String.ofList ['-', letter])
        (if rest.isEmpty then left else String.ofList rest :: left) v left') :
      ReadsLetters c (letter :: rest) left [⟨o, v⟩] left'

inductive ReadsLong (c : CommandLine) (word : String) (left : List String) :
    Meeting → List String → Prop
  | plain {name : String} {o : CommandOption} {v : Value} {left' : List String}
      (hcut : (Text.cut (· == '=') word.toList).2 = none) (hname : c.fullName word = .ok name)
      (ho : c.long? name = some o) (hv : Takes o name left v left') :
      ReadsLong c word left ⟨o, v⟩ left'
  | assigned {written rest : List Char} {name : String} {o : CommandOption} {v : Value}
      {left' : List String} (hcut : Text.cut (· == '=') word.toList = (written, some rest))
      (hname : c.fullName (String.ofList written) = .ok name) (ho : c.long? name = some o)
      (htakes : o.takesValue = true) (hv : Takes o name (String.ofList rest :: left) v left') :
      ReadsLong c word left ⟨o, v⟩ left'

/-- The words of a command line: the options that are met, and the arguments. -/
inductive Reads (c : CommandLine) : List String → List Meeting → List String → Prop
  | done : Reads c [] [] []
  | dashes {rest : List String} : Reads c ("--" :: rest) [] rest
  | argument {word : String} {rest args : List String} {met : List Meeting}
      (h : isArgument word = true) (hrest : Reads c rest met args) :
      Reads c (word :: rest) met (word :: args)
  | long {word : String} {letter : Char} {letters : List Char} {left left' args : List String}
      {m : Meeting} {met : List Meeting} (h : word.toList = '-' :: '-' :: letter :: letters)
      (hlong : ReadsLong c word left m left') (hrest : Reads c left' met args) :
      Reads c (word :: left) (m :: met) args
  | letters {word : String} {letter : Char} {letters : List Char} {left left' args : List String}
      {met more : List Meeting} (h : word.toList = '-' :: letter :: letters) (hne : letter ≠ '-')
      (hletters : ReadsLetters c (letter :: letters) left met left')
      (hrest : Reads c left' more args) : Reads c (word :: left) (met ++ more) args

theorem Takes.eq_of_flag {o : CommandOption} {opt : String} {left left' : List String} {v : Value}
    (h : Takes o opt left v left') (hflag : o.takesValue = false) : v = .none ∧ left' = left := by
  cases h with
  | nothing => exact ⟨rfl, rfl⟩
  | words hvalue => cases hflag.symm.trans hvalue

theorem isArgument_of_dash {word : String} {letter : Char} {letters : List Char}
    (h : word.toList = '-' :: letter :: letters) : isArgument word = false := by
  unfold isArgument
  rw [h]
  rfl

theorem word_cases (word : String) : word = "--" ∨ isArgument word = true ∨
    word ≠ "--" ∧ ∃ letter letters, word.toList = '-' :: letter :: letters := by
  by_cases hdashes : word = "--"
  · exact .inl hdashes
  cases harg : isArgument word with
  | true => exact .inr (.inl rfl)
  | false =>
    unfold isArgument at harg
    split at harg
    · exact .inr (.inr ⟨hdashes, _, _, ‹_›⟩)
    · cases harg

/-! ## Reading meets them -/

namespace CommandLine

variable {c : CommandLine} {o : CommandOption} {v : Value} {st st' : Reading}

/-- Reading goes on after the option: nothing of the program or of a plugin takes over. -/
def GoesOn (c : CommandLine) (o : CommandOption) : Prop :=
  o.action = .callback → ∀ h, o.handler = some h → h = .bugReport ∧ c.canReport = false

variable {opt word : String} {left left' words : List String} {cs written rest letters : List Char}

theorem run_fault {α : Type} (r : Except Fault α) (st : Reading) :
    (liftExcept (r.mapError Halt.fault) : Reader α).run st = (r.mapError Halt.fault, st) := by
  cases r <;> rfl

theorem run_fault_ok {α : Type} {r : Except Fault α} {a : α}
    (h : (liftExcept (r.mapError Halt.fault) : Reader α).run st = (.ok a, st')) :
    r = .ok a ∧ st' = st := by
  rw [run_fault] at h
  cases r with
  | error f => cases h
  | ok b =>
    cases h
    exact ⟨rfl, rfl⟩

theorem takeWords_ok {n : Value}
    (h : (takeWords opt n).run st = (.ok words, st')) :
    ∃ k, wordsTaken n st.left.length = some k ∧ words = st.left.take k ∧
      st' = { st with left := st.left.drop k } := by
  unfold takeWords at h
  obtain ⟨st₀, st₁, hget, h⟩ := run_bind_ok h
  cases hget
  dsimp only at h
  obtain ⟨few, st₂, hfew, h⟩ := run_bind_ok h
  obtain ⟨hfew, rfl⟩ := run_fault_ok hfew
  cases few with
  | true =>
    rw [if_pos rfl] at h
    obtain ⟨_, _, -, h⟩ := run_bind_ok h
    obtain ⟨_, _, hthrow, -⟩ := run_bind_ok h
    cases hthrow
  | false =>
    rw [if_neg Bool.false_ne_true] at h
    rw [wordsTaken, hfew]
    dsimp only
    split at h
    · rename_i hone
      obtain ⟨_, _, hset, h⟩ := run_bind_ok h
      cases hset
      cases h
      exact ⟨1, by rw [if_pos hone]; rfl, rfl, rfl⟩
    · rename_i hmany
      obtain ⟨k, st₃, hk, h⟩ := run_bind_ok h
      obtain ⟨hint, rfl⟩ := run_fault_ok hk
      obtain ⟨_, _, hset, h⟩ := run_bind_ok h
      cases hset
      cases h
      exact ⟨_, by rw [if_neg hmany, hint]; rfl, rfl, rfl⟩

theorem run_put (dest : Option String) (v : Value) (st : Reading) :
    (put dest v).run st = (.ok (), { st with values := putAt st.values dest v }) := by
  cases dest <;> rfl

theorem put_ok {dest : Option String} (h : (put dest v).run st = (.ok (), st')) :
    st' = { st with values := putAt st.values dest v } := by
  rw [run_put] at h
  cases h
  rfl

theorem appendTo_ok {dest : String} (h : (appendTo dest v).run st = (.ok (), st')) :
    appendAt st.values dest v = .ok st'.values ∧ st'.left = st.left ∧ st'.found = st.found := by
  unfold appendTo at h
  obtain ⟨_, _, hget, h⟩ := run_bind_ok h
  cases hget
  split at h
  · rename_i hold
    cases h
    rw [appendAt, hold]
    exact ⟨rfl, rfl, rfl⟩
  · rename_i vs hold
    obtain ⟨_, _, hput, h⟩ := run_bind_ok h
    cases hput
    rw [appendAt, hold]
    split at h <;> cases h <;> exact ⟨rfl, rfl, rfl⟩
  · cases h

/-- Where plugins gave no callbacks, an option that is met acts as it says. -/
theorem perform_ok (hown : c.callbacks = []) (h : (c.perform o opt v).run st = (.ok (), st')) :
    Meeting.apply ⟨o, v⟩ st.values = .ok st'.values ∧ st'.left = st.left ∧
      st'.found = st.found ∧ c.GoesOn o := by
  have hgoes : ∀ {a : Action}, o.action = a → a ≠ .callback → c.GoesOn o :=
    fun ha hne hcall => absurd (ha.symm.trans hcall) hne
  have hput : ∀ {w : Value}, (put o.dest w).run st = (.ok (), st') → c.GoesOn o →
      (Except.ok (putAt st.values o.dest w) : Except Halt Settings) = .ok st'.values ∧
        st'.left = st.left ∧ st'.found = st.found ∧ c.GoesOn o := by
    intro w h hon
    rw [put_ok h]
    exact ⟨rfl, rfl, rfl, hon⟩
  have happend : ∀ {w : Value}, (appendTo (o.dest.getD "") w).run st = (.ok (), st') →
      c.GoesOn o → appendAt st.values (o.dest.getD "") w = .ok st'.values ∧
        st'.left = st.left ∧ st'.found = st.found ∧ c.GoesOn o := by
    intro w h hon
    obtain ⟨hvalues, hleft, hfound⟩ := appendTo_ok h
    exact ⟨hvalues, hleft, hfound, hon⟩
  unfold perform at h
  unfold Meeting.apply
  cases haction : o.action <;> rw [haction] at h <;> dsimp only at h ⊢
  case store => exact hput h (hgoes haction nofun)
  case storeConst => exact hput h (hgoes haction nofun)
  case storeTrue => exact hput h (hgoes haction nofun)
  case storeFalse => exact hput h (hgoes haction nofun)
  case append => exact happend h (hgoes haction nofun)
  case appendConst => exact happend h (hgoes haction nofun)
  case count =>
    obtain ⟨_, _, hget, h⟩ := run_bind_ok h
    cases hget
    obtain ⟨w, _, hcount, h⟩ := run_bind_ok h
    cases hup : countUp (st.values.value (o.dest.getD "")) with
    | error e =>
      rw [hup] at hcount
      cases hcount
    | ok up =>
      rw [hup] at hcount
      cases hcount
      exact hput h (hgoes haction nofun)
  case callback =>
    cases hhandler : o.handler with
    | none =>
      rw [hhandler] at h
      cases h
      exact ⟨rfl, rfl, rfl, fun _ handler hsome => nomatch hhandler.symm.trans hsome⟩
    | some handler =>
      rw [hhandler] at h
      cases handler with
      | installHook => cases h
      | plugin i =>
        dsimp only at h
        rw [hown] at h
        cases h
      | bugReport =>
        dsimp only at h
        split at h
        · cases h
        · rename_i hreport
          cases h
          refine ⟨rfl, rfl, rfl, fun _ handler hsome => ?_⟩
          cases hhandler.symm.trans hsome
          exact ⟨rfl, by simpa using hreport⟩
  case help => cases h
  case version => cases h

theorem meet_ok (hown : c.callbacks = []) (h : (c.meet o opt).run st = (.ok (), st')) :
    ∃ v, Takes o opt st.left v st'.left ∧ Meeting.apply ⟨o, v⟩ st.values = .ok st'.values ∧
      st'.found = st.found ∧ c.GoesOn o := by
  unfold meet at h
  split at h
  · rename_i htakes
    obtain ⟨words, st₁, hwords, h⟩ := run_bind_ok h
    obtain ⟨k, hk, rfl, rfl⟩ := takeWords_ok hwords
    cases hv : convert o opt (st.left.take k) with
    | error e =>
      rw [hv] at h
      cases h
    | ok v =>
      rw [hv] at h
      obtain ⟨hvalues, hleft, hrest⟩ := perform_ok hown h
      refine ⟨v, ?_, hvalues, hrest⟩
      rw [hleft]
      exact .words htakes hk hv
  · rename_i htakes
    obtain ⟨hvalues, hleft, hrest⟩ := perform_ok hown h
    refine ⟨.none, ?_, hvalues, hrest⟩
    rw [hleft]
    exact .nothing (by simpa using htakes)

theorem long?_of_fullName {name : String} (h : c.fullName word = .ok name) :
    ∃ o, c.long? name = some o := by
  have hmem : name ∈ c.options.flatMap (·.longs) := by
    unfold fullName at h
    dsimp only at h
    split at h
    · rename_i hword
      cases h
      simpa using hword
    · split at h
      · rename_i hone
        cases h
        exact (List.mem_filter.mp ((Text.mem_dedup _).mp (hone ▸ List.mem_cons_self))).1
      · cases h
      · cases h
  obtain ⟨o, ho, hname⟩ := List.mem_flatMap.mp hmem
  refine Option.isSome_iff_exists.mp (List.find?_isSome.mpr ⟨o, ho, ?_⟩)
  simpa using hname

theorem readLong_plain
    (h : Text.cut (· == '=') word.toList = (cs, none)) :
    c.readLong word = c.meetNamed word false := by
  rw [readLong, h]

theorem readLong_assigned
    (h : Text.cut (· == '=') word.toList = (written, some rest)) :
    c.readLong word =
      (modify fun st => { st with left := String.ofList rest :: st.left }) >>= fun _ =>
        c.meetNamed (String.ofList written) true := by
  rw [readLong, h]

/-- A name that is written out or begun stands for an option, which takes a value that is written
with it. -/
theorem meetNamed_ok {written : String} {explicit : Bool}
    (h : (c.meetNamed written explicit).run st = (.ok (), st')) :
    ∃ name o, c.fullName written = .ok name ∧ c.long? name = some o ∧
      (explicit = true → o.takesValue = true) ∧ (c.meet o name).run st = (.ok (), st') := by
  unfold meetNamed at h
  cases hname : c.fullName written with
  | error e =>
    rw [hname] at h
    cases h
  | ok name =>
    obtain ⟨o, ho⟩ := long?_of_fullName hname
    rw [hname] at h
    dsimp only at h
    rw [ho] at h
    dsimp only at h
    split at h
    · cases h
    · rename_i hvalue
      refine ⟨name, o, rfl, ho, fun hexplicit => ?_, h⟩
      simpa [hexplicit] using hvalue

theorem readLong_ok (hown : c.callbacks = []) (h : (c.readLong word).run st = (.ok (), st')) :
    ∃ m, ReadsLong c word st.left m st'.left ∧ m.apply st.values = .ok st'.values ∧
      st'.found = st.found ∧ c.GoesOn m.option := by
  rcases hcut : Text.cut (· == '=') word.toList with ⟨written, _ | rest⟩
  · rw [readLong_plain hcut] at h
    obtain ⟨name, o, hname, ho, -, hmeet⟩ := meetNamed_ok h
    obtain ⟨v, hv, hrest⟩ := meet_ok hown hmeet
    exact ⟨⟨o, v⟩, .plain (by rw [hcut]) hname ho hv, hrest⟩
  · rw [readLong_assigned hcut] at h
    obtain ⟨_, _, hpush, h⟩ := run_bind_ok h
    cases hpush
    obtain ⟨name, o, hname, ho, htakes, hmeet⟩ := meetNamed_ok h
    obtain ⟨v, hv, hrest⟩ := meet_ok hown hmeet
    exact ⟨⟨o, v⟩, .assigned hcut hname ho (htakes rfl) hv, hrest⟩

theorem readShorts_flag {letter : Char} (ho : c.short? (String.ofList ['-', letter]) = some o)
    (hflag : o.takesValue = false) : c.readShorts (letter :: rest) =
      c.meet o (String.ofList ['-', letter]) >>= fun _ => c.readShorts rest := by
  rw [readShorts, ho]
  dsimp only
  rw [if_neg (Bool.eq_false_iff.mp hflag)]

/-- A letter that takes a value has the rest of the word, or the next word. -/
theorem run_readShorts_value {letter : Char}
    (ho : c.short? (String.ofList ['-', letter]) = some o) (htakes : o.takesValue = true) :
    (c.readShorts (letter :: rest)).run st = (c.meet o (String.ofList ['-', letter])).run
      { st with left := if rest.isEmpty then st.left else String.ofList rest :: st.left } := by
  rw [readShorts, ho]
  dsimp only
  rw [if_pos htakes]
  cases rest <;> rfl

theorem readShorts_ok (hown : c.callbacks = [])
    (h : (c.readShorts letters).run st = (.ok (), st')) :
    ∃ met, ReadsLetters c letters st.left met st'.left ∧
      met.foldlM (fun s m => m.apply s) st.values = .ok st'.values ∧ st'.found = st.found ∧
      ∀ m ∈ met, c.GoesOn m.option := by
  induction letters generalizing st with
  | nil =>
    cases h
    exact ⟨[], .done, rfl, rfl, List.forall_mem_nil _⟩
  | cons letter rest ih =>
    cases ho : c.short? (String.ofList ['-', letter]) with
    | none =>
      rw [readShorts, ho] at h
      cases h
    | some o =>
      cases htakes : o.takesValue with
      | true =>
        rw [run_readShorts_value ho htakes] at h
        obtain ⟨v, hv, hvalues, hfound, hgoes⟩ := meet_ok hown h
        refine ⟨[⟨o, v⟩], .value ho htakes hv, ?_, hfound, List.forall_mem_singleton.mpr hgoes⟩
        rw [List.foldlM_cons, hvalues]
        rfl
      | false =>
        rw [readShorts_flag ho htakes] at h
        obtain ⟨_, st₁, hmeet, h⟩ := run_bind_ok h
        obtain ⟨v, hv, hvalues, hfound, hgoes⟩ := meet_ok hown hmeet
        obtain ⟨met, hletters, hmet, hrest, hmore⟩ := ih h
        obtain ⟨rfl, hleft⟩ := hv.eq_of_flag htakes
        rw [hleft] at hletters
        refine ⟨⟨o, .none⟩ :: met, .flag ho htakes hletters, ?_, hrest.trans hfound,
          List.forall_mem_cons.mpr ⟨hgoes, hmore⟩⟩
        rw [List.foldlM_cons, hvalues]
        exact hmet

theorem fuelFor_cons (word : String) (words : List String) :
    fuelFor (word :: words) = word.toList.length + 1 + fuelFor words := by
  rw [fuelFor, List.foldr_cons, String.length_toList]
  rfl

theorem fuelFor_pos (words : List String) : 0 < fuelFor words := by
  cases words with
  | nil => exact Nat.one_pos
  | cons word rest =>
    rw [fuelFor_cons]
    omega

theorem fuelFor_drop_le (n : Nat) (words : List String) :
    fuelFor (words.drop n) ≤ fuelFor words := by
  induction words generalizing n with
  | nil =>
    exact Nat.le_of_eq (congrArg fuelFor List.drop_nil)
  | cons word rest ih =>
    cases n with
    | zero => exact Nat.le_refl _
    | succ n =>
      have := ih n
      rw [List.drop_succ_cons, fuelFor_cons]
      omega

theorem fuelFor_takes (h : Takes o opt left v left') :
    fuelFor left' ≤ fuelFor left := by
  cases h with
  | nothing => exact Nat.le_refl _
  | words => exact fuelFor_drop_le _ left

theorem fuelFor_readsLetters {met : List Meeting}
    (h : ReadsLetters c letters left met left') :
    fuelFor left' ≤ letters.length + fuelFor left := by
  induction h with
  | done => exact Nat.le_add_left _ _
  | flag _ _ _ ih =>
    rw [List.length_cons]
    omega
  | @value letter rest o left left' v _ _ hv =>
    have hle := fuelFor_takes hv
    rw [List.length_cons]
    split at hle
    · omega
    · rw [fuelFor_cons, String.toList_ofList] at hle
      omega

theorem length_lt_of_cut {sep : Char → Bool}
    (h : Text.cut sep cs = (written, some rest)) : rest.length < cs.length := by
  unfold Text.cut at h
  split at h
  · cases h
  · rename_i c more hdrop
    cases h
    have := (List.dropWhile_sublist (l := cs) fun c => !sep c).length_le
    rw [hdrop, List.length_cons] at this
    omega

theorem fuelFor_readsLong {m : Meeting}
    (h : ReadsLong c word left m left') : fuelFor left' < fuelFor (word :: left) := by
  rw [fuelFor_cons]
  cases h with
  | plain _ _ _ hv =>
    have := fuelFor_takes hv
    omega
  | assigned hcut _ _ _ hv =>
    have hle := fuelFor_takes hv
    have hlt := length_lt_of_cut hcut
    rw [fuelFor_cons, String.toList_ofList] at hle
    omega

/-! ## From word to word -/

theorem readDashed_long (h : word.toList = '-' :: '-' :: cs) :
    c.readDashed word = c.readLong word := by
  unfold readDashed
  rw [h]
  rfl

theorem readDashed_letters {letter : Char}
    (h : word.toList = '-' :: letter :: letters) (hne : letter ≠ '-') :
    c.readDashed word = c.readShorts (letter :: letters) := by
  unfold readDashed
  rw [h]
  split
  · rename_i heq
    cases heq
    exact absurd rfl hne
  · rename_i heq
    cases heq
    rfl
  · rename_i hnone
    exact absurd rfl (hnone _ _)

theorem run_readWords_nil (h : st.left = []) (steps : Nat) :
    (c.readWords steps).run st = (.ok (), st) := by
  cases steps with
  | zero => rfl
  | succ steps =>
    rw [readWords, run_bind_of_ok (run_get st), h]
    rfl

theorem run_readWords_dashes (h : st.left = "--" :: left) (steps : Nat) :
    (c.readWords (steps + 1)).run st = (.ok (), { st with left := left }) := by
  rw [readWords, run_bind_of_ok (run_get st), h]
  rfl

theorem run_readWords_argument (h : st.left = word :: left)
    (harg : isArgument word = true) (steps : Nat) : (c.readWords (steps + 1)).run st =
      (c.readWords steps).run { st with left := left, found := st.found ++ [word] } := by
  have hne : word ≠ "--" := by
    rintro rfl
    cases harg
  rw [readWords, run_bind_of_ok (run_get st), h]
  dsimp only
  rw [run_bind_of_ok (run_set _ st), if_neg hne, if_pos harg, run_bind_of_ok (run_set _ _)]

theorem run_readWords_dashed {letter : Char} (h : st.left = word :: left)
    (hword : word.toList = '-' :: letter :: letters)
    (hne : word ≠ "--") (steps : Nat) : (c.readWords (steps + 1)).run st =
      (c.readDashed word >>= fun _ => c.readWords steps).run { st with left := left } := by
  rw [readWords, run_bind_of_ok (run_get st), h]
  dsimp only
  rw [run_bind_of_ok (run_set _ st), if_neg hne, isArgument_of_dash hword]
  rfl

/-- The options that a word with dashes meets, for whatever is read after it. -/
theorem readDashed_ok {letter : Char} (hown : c.callbacks = [])
    (hword : word.toList = '-' :: letter :: letters) (hne : word ≠ "--")
    (h : (c.readDashed word).run st = (.ok (), st')) :
    ∃ met, (∀ more args, Reads c st'.left more args → Reads c (word :: st.left) (met ++ more) args) ∧
      fuelFor st'.left < fuelFor (word :: st.left) ∧
      met.foldlM (fun s m => m.apply s) st.values = .ok st'.values ∧ st'.found = st.found ∧
      ∀ m ∈ met, c.GoesOn m.option := by
  by_cases hdash : letter = '-'
  · rw [hdash] at hword
    rw [readDashed_long hword] at h
    obtain ⟨m, hm, hvalues, hfound, hgoes⟩ := readLong_ok hown h
    obtain ⟨letter, letters, rfl⟩ : ∃ letter more, letters = letter :: more := by
      refine List.exists_cons_of_ne_nil fun hnil => hne ?_
      rw [hnil] at hword
      exact String.toList_inj.mp hword
    refine ⟨[m], fun _ _ hrest => .long hword hm hrest, fuelFor_readsLong hm, ?_, hfound,
      List.forall_mem_singleton.mpr hgoes⟩
    rw [List.foldlM_cons, hvalues]
    rfl
  · rw [readDashed_letters hword hdash] at h
    obtain ⟨met, hm, hrest⟩ := readShorts_ok hown h
    have hless := fuelFor_readsLetters hm
    refine ⟨met, fun _ _ hrest => .letters hword hdash hm hrest, ?_, hrest⟩
    rw [fuelFor_cons, hword, List.length_cons]
    omega

theorem readWords_ok {fuel : Nat} (hown : c.callbacks = []) (hfuel : fuelFor st.left ≤ fuel)
    (h : (c.readWords fuel).run st = (.ok (), st')) :
    ∃ met args, Reads c st.left met args ∧
      met.foldlM (fun s m => m.apply s) st.values = .ok st'.values ∧
      st'.found ++ st'.left = st.found ++ args ∧ ∀ m ∈ met, c.GoesOn m.option := by
  induction fuel generalizing st with
  | zero =>
    have := fuelFor_pos st.left
    omega
  | succ fuel ih =>
    rcases hleft : st.left with _ | ⟨word, rest⟩
    · rw [run_readWords_nil hleft] at h
      cases h
      exact ⟨[], [], .done, rfl, by rw [hleft], List.forall_mem_nil _⟩
    rw [hleft] at hfuel
    rcases word_cases word with rfl | harg | ⟨hne, letter, letters, hword⟩
    · rw [run_readWords_dashes hleft] at h
      cases h
      exact ⟨[], rest, .dashes, rfl, rfl, List.forall_mem_nil _⟩
    · rw [run_readWords_argument hleft harg] at h
      rw [fuelFor_cons] at hfuel
      obtain ⟨met, args, hmet, hmore, hargs, hall⟩ := ih (by dsimp only; omega) h
      refine ⟨met, word :: args, .argument harg hmet, hmore, ?_, hall⟩
      rw [hargs, List.append_assoc]
      rfl
    · rw [run_readWords_dashed hleft hword hne] at h
      obtain ⟨_, st₁, hdashed, h⟩ := run_bind_ok h
      obtain ⟨met, hreads, hless, hvalues, hfound, hgoes⟩ := readDashed_ok hown hword hne hdashed
      dsimp only at hless
      obtain ⟨more, args, hread, hmore, hargs, hall⟩ := ih (by omega) h
      refine ⟨met ++ more, args, hreads _ _ hread, ?_, by rw [hargs, hfound],
        List.forall_mem_append.mpr ⟨hgoes, hall⟩⟩
      rw [List.foldlM_append, hvalues]
      exact hmore

theorem read_ok {args : List String} {start s : Settings} {c' : CommandLine}
    (hown : c.callbacks = []) (h : c.read words start = (.ok (s, args), c')) :
    ∃ met, Reads c words met args ∧ met.foldlM (fun s m => m.apply s) start = .ok s ∧
      ∀ m ∈ met, c.GoesOn m.option := by
  unfold read at h
  rcases hrun : (c.readWords (fuelFor words)).run (c.start words start) with ⟨_ | _, st⟩ <;>
    rw [hrun] at h
  · cases h
  · cases h
    have hfuel : fuelFor (c.start words start).left ≤ fuelFor words := Nat.le_refl _
    obtain ⟨met, args, hread, hvalues, hargs, hgoes⟩ := readWords_ok hown hfuel hrun
    refine ⟨met, ?_, hvalues, hgoes⟩
    rw [hargs]
    exact hread

end CommandLine

section Unique

variable {c : CommandLine} {o : CommandOption} {opt word : String} {left left₁ left₂ : List String}
  {letters : List Char} {met met' : List Meeting}

theorem Takes.unique {v w : Value} (h : Takes o opt left v left₁) (h' : Takes o opt left w left₂) :
    v = w ∧ left₁ = left₂ := by
  cases h with
  | nothing hflag =>
    obtain ⟨rfl, rfl⟩ := h'.eq_of_flag hflag
    exact ⟨rfl, rfl⟩
  | words hvalue hn hv =>
    cases h' with
    | nothing hflag => cases hflag.symm.trans hvalue
    | words _ hn' hv' =>
      cases hn.symm.trans hn'
      cases hv.symm.trans hv'
      exact ⟨rfl, rfl⟩

theorem ReadsLetters.unique
    (h : ReadsLetters c letters left met left₁) (h' : ReadsLetters c letters left met' left₂) :
    met = met' ∧ left₁ = left₂ := by
  induction h generalizing met' with
  | done =>
    cases h'
    exact ⟨rfl, rfl⟩
  | flag ho hflag _ ih =>
    cases h' with
    | flag ho' _ hrest =>
      cases ho.symm.trans ho'
      obtain ⟨rfl, rfl⟩ := ih hrest
      exact ⟨rfl, rfl⟩
    | value ho' hvalue =>
      cases ho.symm.trans ho'
      cases hflag.symm.trans hvalue
  | value ho hvalue hv =>
    cases h' with
    | flag ho' hflag =>
      cases ho.symm.trans ho'
      cases hflag.symm.trans hvalue
    | value ho' _ hv' =>
      cases ho.symm.trans ho'
      obtain ⟨rfl, rfl⟩ := hv.unique hv'
      exact ⟨rfl, rfl⟩

theorem ReadsLong.unique {m m' : Meeting} (h : ReadsLong c word left m left₁)
    (h' : ReadsLong c word left m' left₂) : m = m' ∧ left₁ = left₂ := by
  cases h with
  | plain hcut hname ho hv =>
    cases h' with
    | plain _ hname' ho' hv' =>
      cases hname.symm.trans hname'
      cases ho.symm.trans ho'
      obtain ⟨rfl, rfl⟩ := hv.unique hv'
      exact ⟨rfl, rfl⟩
    | assigned hcut' =>
      rw [hcut'] at hcut
      cases hcut
  | assigned hcut hname ho _ hv =>
    cases h' with
    | plain hcut' =>
      rw [hcut] at hcut'
      cases hcut'
    | assigned hcut' hname' ho' _ hv' =>
      cases hcut.symm.trans hcut'
      cases hname.symm.trans hname'
      cases ho.symm.trans ho'
      obtain ⟨rfl, rfl⟩ := hv.unique hv'
      exact ⟨rfl, rfl⟩

theorem Reads.unique {words args args' : List String}
    (h : Reads c words met args) (h' : Reads c words met' args') : met = met' ∧ args = args' := by
  induction h generalizing met' args' with
  | done =>
    cases h'
    exact ⟨rfl, rfl⟩
  | dashes =>
    cases h' with
    | dashes => exact ⟨rfl, rfl⟩
    | argument harg => cases harg
    | long hword => cases hword
    | letters hword hne =>
      cases hword
      exact absurd rfl hne
  | argument harg _ ih =>
    cases h' with
    | dashes => cases harg
    | argument _ hrest =>
      obtain ⟨rfl, rfl⟩ := ih hrest
      exact ⟨rfl, rfl⟩
    | long hword => cases harg.symm.trans (isArgument_of_dash hword)
    | letters hword => cases harg.symm.trans (isArgument_of_dash hword)
  | long hword hlong _ ih =>
    cases h' with
    | dashes => cases hword
    | argument harg => cases harg.symm.trans (isArgument_of_dash hword)
    | long _ hlong' hrest =>
      obtain ⟨rfl, rfl⟩ := hlong.unique hlong'
      obtain ⟨rfl, rfl⟩ := ih hrest
      exact ⟨rfl, rfl⟩
    | letters hword' hne =>
      cases hword.symm.trans hword'
      exact absurd rfl hne
  | letters hword hne hletters _ ih =>
    cases h' with
    | dashes =>
      cases hword
      exact absurd rfl hne
    | argument harg => cases harg.symm.trans (isArgument_of_dash hword)
    | long hword' =>
      cases hword.symm.trans hword'
      exact absurd rfl hne
    | letters hword' _ hletters' hrest =>
      cases hword.symm.trans hword'
      obtain ⟨rfl, rfl⟩ := hletters.unique hletters'
      obtain ⟨rfl, rfl⟩ := ih hrest
      exact ⟨rfl, rfl⟩

end Unique

section Same

variable {c c' : CommandLine} {left left' : List String}

theorem ReadsLetters.of_options (hc : c'.options = c.options) {letters : List Char}
    {met : List Meeting} (h : ReadsLetters c letters left met left') :
    ReadsLetters c' letters left met left' := by
  have hshort : ∀ name, c'.short? name = c.short? name := by
    intro name
    rw [CommandLine.short?, hc]
    rfl
  induction h with
  | done => exact .done
  | flag ho hflag _ ih => exact .flag ((hshort _).trans ho) hflag ih
  | value ho hvalue hv => exact .value ((hshort _).trans ho) hvalue hv

theorem ReadsLong.of_options (hc : c'.options = c.options) {word : String} {m : Meeting}
    (h : ReadsLong c word left m left') : ReadsLong c' word left m left' := by
  have hlong : ∀ name, c'.long? name = c.long? name := by
    intro name
    rw [CommandLine.long?, hc]
    rfl
  have hfull : ∀ word, c'.fullName word = c.fullName word := by
    intro word
    rw [CommandLine.fullName, hc]
    rfl
  cases h with
  | plain hcut hname ho hv => exact .plain hcut ((hfull _).trans hname) ((hlong _).trans ho) hv
  | assigned hcut hname ho htakes hv =>
    exact .assigned hcut ((hfull _).trans hname) ((hlong _).trans ho) htakes hv

theorem Reads.of_options (hc : c'.options = c.options) {words args : List String}
    {met : List Meeting} (h : Reads c words met args) : Reads c' words met args := by
  induction h with
  | done => exact .done
  | dashes => exact .dashes
  | argument harg _ ih => exact .argument harg ih
  | long hword hlong _ ih => exact .long hword (hlong.of_options hc) ih
  | letters hword hne hletters _ ih => exact .letters hword hne (hletters.of_options hc) ih

end Same

end LintRunner.Options
