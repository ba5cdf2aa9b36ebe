import LintRunner.Proofs.MetOptions

/-!
# Words that are read by some of the options

Whoever knows only some of the options goes on after a word that names another one. The name is kept
among the arguments; a value after an equals sign is read as a word of its own, and so are the words
that follow; letters after an unknown one are lost; two dashes are passed over. Which options are met
then, and what is kept, is said here without regard to settings; reading a word does just that.
-/

namespace LintRunner.Options

open Stateful

inductive MeetsLetters (c : CommandLine) :
    List Char → List String → List Meeting → List String → List String → Prop
  | done {left : List String} : MeetsLetters c [] left [] [] left
  | flag {letter : Char} {rest : List Char} {o : CommandOption} {left left' kept : List String}
      {met : List Meeting} (ho : c.short? (String.ofList ['-', letter]) = some o)
      (h : o.takesValue = false) (hrest : MeetsLetters c rest left met kept left') :
      MeetsLetters c (letter :: rest) left (⟨o, .none⟩ :: met) kept left'
  | value {letter : Char} {rest : List Char} {o : CommandOption} {left left' : List String}
      {v : Value} (ho : c.short? (String.ofList ['-', letter]) = some o)
      (h : o.takesValue = true)
      (hv : Takes o (String.ofList ['-', letter])
        (if rest.isEmpty then left else String.ofList rest :: left) v left') :
      MeetsLetters c (letter :: rest) left [⟨o, v⟩] [] left'
  | unknown {letter : Char} {rest : List Char} {left : List String}
      (h : c.short? (String.ofList ['-', letter]) = none) :
      MeetsLetters c (letter :: rest) left [] [String.ofList ['-', letter]] left

/-- A word with dashes: the options that are met, the name that is kept if one is not known, and the
words that are left. -/
inductive MeetsKnown (c : CommandLine) (word : String) (left : List String) :
    List Meeting → List String → List String → Prop
  | long {letter : Char} {letters : List Char} {m : Meeting} {left' : List String}
      (h : word.toList = '-' :: '-' :: letter :: letters) (hlong : ReadsLong c word left m left') :
      MeetsKnown c word left [m] [] left'
  | unknown {letter : Char} {letters : List Char}
      (h : word.toList = '-' :: '-' :: letter :: letters)
      (hcut : (Text.cut (· == '=') word.toList).2 = none)
      (hname : (c.fullName word).isOk = false) : MeetsKnown c word left [] [word] left
  | assigned {letter : Char} {letters written rest : List Char}
      (h : word.toList = '-' :: '-' :: letter :: letters)
      (hcut : Text.cut (· == '=') word.toList = (written, some rest))
      (hname : (c.fullName (String.ofList written)).isOk = false) :
      MeetsKnown c word left [] [String.ofList written] (String.ofList rest :: left)
  | letters {letter : Char} {letters : List Char} {met : List Meeting} {kept left' : List String}
      (h : word.toList = '-' :: letter :: letters) (hne : letter ≠ '-')
      (hletters : MeetsLetters c (letter :: letters) left met kept left') :
      MeetsKnown c word left met kept left'

/-- The words of a command line for whoever knows some of its options: the options that are met, and
what is kept. -/
inductive ReadsKnown (c : CommandLine) : List String → List Meeting → List String → Prop
  | done : ReadsKnown c [] [] []
  | dashes {rest kept : List String} {met : List Meeting} (hrest : ReadsKnown c rest met kept) :
      ReadsKnown c ("--" :: rest) met kept
  | argument {word : String} {rest kept : List String} {met : List Meeting}
      (h : isArgument word = true) (hrest : ReadsKnown c rest met kept) :
      ReadsKnown c (word :: rest) met (word :: kept)
  | option {word : String} {left left' kept more : List String} {met met' : List Meeting}
      (h : MeetsKnown c word left met kept left') (hrest : ReadsKnown c left' met' more) :
      ReadsKnown c (word :: left) (met ++ met') (kept ++ more)

section Kept

variable {c : CommandLine} {left left' kept : List String} {met : List Meeting}
  {letters : List Char} {word : String}

theorem MeetsLetters.option_mem
    (h : MeetsLetters c letters left met kept left') : ∀ m ∈ met, m.option ∈ c.options := by
  induction h with
  | done => exact List.forall_mem_nil _
  | flag ho _ _ ih => exact List.forall_mem_cons.mpr ⟨CommandLine.mem_of_short? ho, ih⟩
  | value ho => exact List.forall_mem_singleton.mpr (CommandLine.mem_of_short? ho)
  | unknown => exact List.forall_mem_nil _

theorem MeetsKnown.option_mem (h : MeetsKnown c word left met kept left') :
    ∀ m ∈ met, m.option ∈ c.options := by
  cases h with
  | long _ hlong =>
    refine List.forall_mem_singleton.mpr ?_
    cases hlong with
    | plain _ _ ho => exact CommandLine.mem_of_long? ho
    | assigned _ _ ho => exact CommandLine.mem_of_long? ho
  | unknown => exact List.forall_mem_nil _
  | assigned => exact List.forall_mem_nil _
  | letters _ _ hletters => exact hletters.option_mem

theorem ne_dashes_of_long {letter : Char}
    (h : word.toList = '-' :: '-' :: letter :: letters) : word ≠ "--" := by
  rintro rfl
  cases h

theorem ne_dashes_of_letter {letter : Char}
    (h : word.toList = '-' :: letter :: letters) (hne : letter ≠ '-') : word ≠ "--" := by
  rintro rfl
  cases h
  exact hne rfl

theorem MeetsKnown.toList_word (h : MeetsKnown c word left met kept left') :
    word ≠ "--" ∧ ∃ letter letters, word.toList = '-' :: letter :: letters := by
  cases h with
  | long hword => exact ⟨ne_dashes_of_long hword, _, _, hword⟩
  | unknown hword => exact ⟨ne_dashes_of_long hword, _, _, hword⟩
  | assigned hword => exact ⟨ne_dashes_of_long hword, _, _, hword⟩
  | letters hword hne => exact ⟨ne_dashes_of_letter hword hne, _, _, hword⟩

/-- The words that do not start with a dash. -/
def plainWords (words : List String) : List String :=
  words.filter fun word => !Text.startsWith word "-"

theorem plainWords_append (words more : List String) :
    plainWords (words ++ more) = plainWords words ++ plainWords more := List.filter_append ..

theorem plainWords_of_dash {cs : List Char} (h : word.toList = '-' :: cs) :
    plainWords [word] = [] := by
  refine List.filter_eq_nil_iff.mpr (List.forall_mem_singleton.mpr ?_)
  simp [Text.startsWith, h]

theorem plainWords_of_letters
    (h : MeetsLetters c letters left met kept left') : plainWords kept = [] := by
  induction h with
  | done => rfl
  | flag _ _ _ ih => exact ih
  | value => rfl
  | unknown => exact plainWords_of_dash String.toList_ofList

theorem MeetsKnown.plainWords_kept (h : MeetsKnown c word left met kept left') :
    plainWords kept = [] := by
  cases h with
  | long => rfl
  | unknown hword => exact plainWords_of_dash hword
  | @assigned letter letters written rest hword hcut =>
    obtain ⟨cs, rfl⟩ : ∃ cs, written = '-' :: cs := by
      rw [hword, Text.cut] at hcut
      split at hcut
      · cases hcut
      · cases hcut
        exact ⟨_, rfl⟩
    exact plainWords_of_dash String.toList_ofList
  | letters _ _ hletters => exact plainWords_of_letters hletters

theorem ReadsKnown.append {words strays : List String} (h : ReadsKnown c words [] strays)
    (h' : ReadsKnown c left met kept) : ReadsKnown c (words ++ left) met (strays ++ kept) := by
  generalize hnone : ([] : List Meeting) = none at h
  induction h with
  | done => exact h'
  | dashes _ ih => exact .dashes (ih hnone)
  | argument harg _ ih => exact .argument harg (ih hnone)
  | @option word rest rest' kept more met met' hword _ ih =>
    obtain ⟨rfl, rfl⟩ := List.append_eq_nil_iff.mp hnone.symm
    rw [List.append_assoc]
    have hsame : MeetsKnown c word (rest ++ left) [] kept (rest' ++ left) := ?_
    · exact .option hsame (ih rfl)
    cases hword with
    | unknown hword hcut hname => exact .unknown hword hcut hname
    | assigned hword hcut hname => exact .assigned hword hcut hname
    | letters hword hne hletters =>
      cases hletters with
      | unknown h => exact .letters hword hne (.unknown h)

end Kept

/-- How the reading of a word ends: with all of it, or at a name that is not known. -/
inductive Ending : List String → Except Halt Unit → Prop
  | all : Ending [] (.ok ())
  | unknown {name message : String} : Ending [name] (.error (.unknown name message))

namespace CommandLine

variable {c : CommandLine} {o : CommandOption} {v : Value} {st : Reading} {s : Settings}
  {left kept rest left' : List String} {word opt : String} {letters : List Char}
  {met : List Meeting} {letter : Char}

theorem run_takeWords {n : Value} {k : Nat}
    (h : wordsTaken n st.left.length = some k) : (takeWords opt n).run st =
      (.ok (st.left.take k), { st with left := st.left.drop k }) := by
  unfold wordsTaken at h
  unfold takeWords
  rw [run_bind_of_ok (run_get st), run_bind, run_fault]
  split at h
  · rename_i henough
    rw [henough]
    obtain ⟨i, hi, rfl⟩ := Option.map_eq_some_iff.mp h
    rw [show (Except.ok false : Except Fault Bool).mapError Halt.fault = .ok false from rfl]
    dsimp only
    rw [if_neg Bool.false_ne_true]
    split at hi
    · rename_i hone
      cases hi
      rw [if_pos hone]
      rfl
    · rename_i hmany
      rw [if_neg hmany, run_bind, run_fault]
      cases hint : n.asInt with
      | error f =>
        rw [hint] at hi
        cases hi
      | ok j =>
        rw [hint] at hi
        cases hi
        rfl
  · cases h

theorem run_appendTo {dest : String} (h : appendAt st.values dest v = .ok s) : ∃ defaults,
    (appendTo dest v).run st = (.ok (), { st with values := s, defaults := defaults }) := by
  unfold appendAt at h
  unfold appendTo
  rw [run_bind_of_ok (run_get st)]
  cases hvalue : st.values.value dest <;> rw [hvalue] at h
  case none =>
    cases h
    exact ⟨st.defaults, run_put _ _ st⟩
  case list vs =>
    cases h
    dsimp only
    rw [run_bind_of_ok (run_put _ _ st)]
    split
    · exact ⟨_, rfl⟩
    · exact ⟨st.defaults, rfl⟩
  all_goals cases h

/-- An option that is met acts as it says, unless something of the program takes over. -/
theorem run_perform (h : Meeting.apply ⟨o, v⟩ st.values = .ok s) (hon : c.GoesOn o) :
    ∃ defaults,
      (c.perform o opt v).run st = (.ok (), { st with values := s, defaults := defaults }) := by
  have hput : ∀ {w : Value}, putAt st.values o.dest w = s → ∃ defaults,
      (put o.dest w).run st = (.ok (), { st with values := s, defaults := defaults }) := by
    rintro w rfl
    exact ⟨st.defaults, run_put _ _ st⟩
  unfold Meeting.apply at h
  unfold perform
  cases haction : o.action <;> rw [haction] at h <;> dsimp only at h ⊢
  case store => exact hput (Except.ok.inj h)
  case storeConst => exact hput (Except.ok.inj h)
  case storeTrue => exact hput (Except.ok.inj h)
  case storeFalse => exact hput (Except.ok.inj h)
  case append => exact run_appendTo h
  case appendConst => exact run_appendTo h
  case count =>
    rw [run_bind_of_ok (run_get st)]
    cases hup : countUp (st.values.value (o.dest.getD "")) with
    | error e =>
      rw [hup] at h
      cases h
    | ok w =>
      rw [hup] at h
      exact hput (Except.ok.inj h)
  case callback =>
    cases h
    cases hhandler : o.handler with
    | none => exact ⟨st.defaults, rfl⟩
    | some handler =>
      obtain ⟨rfl, hreport⟩ := hon haction handler hhandler
      dsimp only
      rw [hreport]
      exact ⟨st.defaults, rfl⟩
  case help => cases h
  case version => cases h

theorem run_meet (st : Reading)
    (hv : Takes o opt st.left v left) (h : Meeting.apply ⟨o, v⟩ st.values = .ok s)
    (hon : c.GoesOn o) : ∃ defaults, (c.meet o opt).run st =
      (.ok (), { st with left := left, values := s, defaults := defaults }) := by
  unfold meet
  cases hv with
  | nothing hflag =>
    rw [if_neg (by rw [hflag]; exact Bool.false_ne_true)]
    exact run_perform h hon
  | words htakes hn hconvert =>
    rw [if_pos htakes, run_bind_of_ok (run_takeWords hn), hconvert]
    exact run_perform h hon

theorem meetNamed_known {written name : String} (explicit : Bool)
    (hname : c.fullName written = .ok name) (ho : c.long? name = some o)
    (htakes : explicit = true → o.takesValue = true) :
    c.meetNamed written explicit = c.meet o name := by
  unfold meetNamed
  rw [hname]
  dsimp only
  rw [ho]
  refine if_neg fun hrefused => ?_
  rw [Bool.and_eq_true, Bool.not_eq_true'] at hrefused
  cases (htakes hrefused.2).symm.trans hrefused.1

theorem run_readLong {m : Meeting}
    (hlong : ReadsLong c word st.left m left) (h : m.apply st.values = .ok s)
    (hon : c.GoesOn m.option) : ∃ defaults, (c.readLong word).run st =
      (.ok (), { st with left := left, values := s, defaults := defaults }) := by
  cases hlong with
  | plain hcut hname ho hv =>
    rcases hall : Text.cut (· == '=') word.toList with ⟨cs, rest⟩
    rw [hall] at hcut
    obtain rfl : rest = none := hcut
    rw [readLong_plain hall, meetNamed_known false hname ho nofun]
    exact run_meet st hv h hon
  | assigned hcut hname ho htakes hv =>
    rw [readLong_assigned hcut, run_bind_of_ok (run_modify _ st),
      meetNamed_known true hname ho fun _ => htakes]
    exact run_meet { st with left := _ :: st.left } hv h hon

theorem fullName_error (h : (c.fullName word).isOk = false) :
    ∃ message, c.fullName word = .error (.unknown word message) := by
  unfold fullName at h ⊢
  dsimp only at h ⊢
  split at h
  · cases h
  · rename_i hnew
    rw [if_neg hnew]
    split at h
    · cases h
    · exact ⟨_, rfl⟩
    · exact ⟨_, rfl⟩

theorem run_meetNamed_unknown (h : (c.fullName word).isOk = false)
    (explicit : Bool) (st : Reading) : ∃ message,
      (c.meetNamed word explicit).run st = (.error (.unknown word message), st) := by
  obtain ⟨message, hname⟩ := fullName_error h
  unfold meetNamed
  rw [hname]
  exact ⟨message, rfl⟩

theorem run_readShorts
    (hletters : MeetsLetters c letters st.left met kept left)
    (h : met.foldlM (fun s m => m.apply s) st.values = .ok s)
    (hon : ∀ m ∈ met, c.GoesOn m.option) : ∃ r defaults, Ending kept r ∧
      (c.readShorts letters).run st =
        (r, { st with left := left, values := s, defaults := defaults }) := by
  induction letters generalizing st met with
  | nil =>
    cases hletters
    cases h
    exact ⟨_, st.defaults, .all, rfl⟩
  | cons letter rest ih =>
    cases hletters with
    | flag ho hflag hrest =>
      rw [List.foldlM_cons] at h
      obtain ⟨next, hfirst, h⟩ := bind_ok h
      obtain ⟨hgoes, hmore⟩ := List.forall_mem_cons.mp hon
      obtain ⟨defaults, hmeet⟩ := run_meet st (.nothing hflag) hfirst hgoes
      rw [readShorts_flag ho hflag, run_bind_of_ok hmeet]
      exact ih hrest h hmore
    | value ho htakes hv =>
      rw [List.foldlM_cons] at h
      obtain ⟨next, hfirst, h⟩ := bind_ok h
      cases h
      have hgoes := List.forall_mem_singleton.mp hon
      obtain ⟨defaults, hmeet⟩ := run_meet { st with left := _ } hv hfirst hgoes
      rw [run_readShorts_value ho htakes]
      exact ⟨_, defaults, .all, hmeet⟩
    | unknown hnone =>
      cases h
      rw [readShorts, hnone]
      exact ⟨_, st.defaults, .unknown, rfl⟩

theorem run_readDashed
    (st : Reading) (hword : MeetsKnown c word st.left met kept left)
    (h : met.foldlM (fun s m => m.apply s) st.values = .ok s)
    (hon : ∀ m ∈ met, c.GoesOn m.option) : ∃ r defaults, Ending kept r ∧
      (c.readDashed word).run st =
        (r, { st with left := left, values := s, defaults := defaults }) := by
  cases hword with
  | @long _ _ m _ hword hlong =>
    rw [List.foldlM_cons] at h
    obtain ⟨next, hfirst, h⟩ := bind_ok h
    cases h
    obtain ⟨defaults, hread⟩ := run_readLong hlong hfirst (hon m (List.mem_singleton_self m))
    rw [readDashed_long hword]
    exact ⟨_, defaults, .all, hread⟩
  | unknown hword hcut hname =>
    cases h
    rcases hall : Text.cut (· == '=') word.toList with ⟨cs, rest⟩
    rw [hall] at hcut
    obtain rfl : rest = none := hcut
    obtain ⟨message, hread⟩ := run_meetNamed_unknown hname false st
    rw [readDashed_long hword, readLong_plain hall]
    exact ⟨_, st.defaults, .unknown, hread⟩
  | assigned hword hcut hname =>
    cases h
    obtain ⟨message, hread⟩ := run_meetNamed_unknown hname true { st with left := _ :: st.left }
    rw [readDashed_long hword, readLong_assigned hcut, run_bind_of_ok (run_modify _ st)]
    exact ⟨_, st.defaults, .unknown, hread⟩
  | letters hword hne hletters =>
    rw [readDashed_letters hword hne]
    exact run_readShorts hletters h hon

theorem readKnownFrom_nil (h : st.left = []) (fuel : Nat) :
    c.readKnownFrom fuel st = (.ok (), st) := by
  cases fuel with
  | zero => rfl
  | succ fuel => rw [readKnownFrom, pass, h]; rfl

theorem readKnownFrom_succ (c : CommandLine) (fuel : Nat) (st : Reading) :
    c.readKnownFrom (fuel + 1) st =
      (resume ((c.readWords (fuelFor st.left)).run st)).elim (c.readKnownFrom fuel) id := by
  by_cases h : st.left = []
  · rw [readKnownFrom_nil h, run_readWords_nil h]
    exact (readKnownFrom_nil h fuel).symm
  · rw [readKnownFrom, pass, if_neg (by simpa using h)]

theorem fuelFor_meetsLetters (h : MeetsLetters c letters left met kept left') :
    fuelFor left' ≤ letters.length + fuelFor left := by
  induction h with
  | done => exact Nat.le_add_left _ _
  | flag _ _ _ ih =>
    rw [List.length_cons]
    omega
  | value ho htakes hv =>
    exact fuelFor_readsLetters (.value ho htakes hv)
  | unknown => exact Nat.le_add_left _ _

theorem fuelFor_meetsKnown
    (h : MeetsKnown c word left met kept left') : fuelFor left' < fuelFor (word :: left) := by
  cases h with
  | long _ hlong => exact fuelFor_readsLong hlong
  | unknown =>
    rw [fuelFor_cons]
    omega
  | assigned _ hcut =>
    have hlt := length_lt_of_cut hcut
    rw [fuelFor_cons, fuelFor_cons, String.toList_ofList]
    omega
  | letters hword _ hletters =>
    have hle := fuelFor_meetsLetters hletters
    rw [fuelFor_cons, hword, List.length_cons]
    omega

end CommandLine

end LintRunner.Options
