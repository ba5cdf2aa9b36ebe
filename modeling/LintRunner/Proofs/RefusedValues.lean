import LintRunner.Options.Defaults
import LintRunner.Proofs.KnownWords
import LintRunner.Proofs.ReadSettings

/-!
# Values that are refused

A word that names no known option is kept among the arguments, and reading goes on. A value that does
not fit the type of its option is another matter: its option could be kept as well, but reading ends
there with a fault. So words in which every option has the value that it takes are read to their end
just if no value is refused.
-/

namespace LintRunner.Options

open Stateful

/-- The words that an option takes for its value do not fit its type. -/
def Refuses (o : CommandOption) (opt : String) (left left' : List String) : Prop :=
  o.takesValue = true ∧ ∃ n, wordsTaken o.nargs left.length = some n ∧
    (CommandLine.convert o opt (left.take n)).isOk = false ∧ left' = left.drop n

/-- The letters of a word with one dash, up to one whose value is refused. -/
inductive RefusesLetters (c : CommandLine) :
    List Char → List String → List Meeting → String → List String → Prop
  | flag {letter : Char} {rest : List Char} {o : CommandOption} {left left' : List String}
      {met : List Meeting} {name : String}
      (ho : c.short? (String.ofList ['-', letter]) = some o) (h : o.takesValue = false)
      (hrest : RefusesLetters c rest left met name left') :
      RefusesLetters c (letter :: rest) left (⟨o, .none⟩ :: met) name left'
  | value {letter : Char} {rest : List Char} {o : CommandOption} {left left' : List String}
      (ho : c.short? (String.ofList ['-', letter]) = some o)
      (hv : Refuses o (String.ofList ['-', letter])
        (if rest.isEmpty then left else String.ofList rest :: left) left') :
      RefusesLetters c (letter :: rest) left [] (String.ofList ['-', letter]) left'

/-- A word with dashes that ends in a refused value: the options that are met before, the name of the
option, and the words that are left. -/
inductive MeetsRefused (c : CommandLine) (word : String) (left : List String) :
    List Meeting → String → List String → Prop
  | plain {letter : Char} {letters : List Char} {name : String} {o : CommandOption}
      {left' : List String} (h : word.toList = '-' :: '-' :: letter :: letters)
      (hcut : (Text.cut (· == '=') word.toList).2 = none) (hname : c.fullName word = .ok name)
      (ho : c.long? name = some o) (hv : Refuses o name left left') :
      MeetsRefused c word left [] name left'
  | assigned {letter : Char} {letters written rest : List Char} {name : String}
      {o : CommandOption} {left' : List String}
      (h : word.toList = '-' :: '-' :: letter :: letters)
      (hcut : Text.cut (· == '=') word.toList = (written, some rest))
      (hname : c.fullName (String.ofList written) = .ok name) (ho : c.long? name = some o)
      (hv : Refuses o name (String.ofList rest :: left) left') :
      MeetsRefused c word left [] name left'
  | letters {letter : Char} {letters : List Char} {met : List Meeting} {name : String}
      {left' : List String} (h : word.toList = '-' :: letter :: letters) (hne : letter ≠ '-')
      (hletters : RefusesLetters c (letter :: letters) left met name left') :
      MeetsRefused c word left met name left'

/-- The words of a command line in which every option that takes a value has one, and no other has:
the options that are met, what would be kept if a refused value were kept like an unknown option, and
the options whose values are refused. -/
inductive ReadsGiven (c : CommandLine) :
    List String → List Meeting → List String → List String → Prop
  | done : ReadsGiven c [] [] [] []
  | dashes {rest kept refused : List String} {met : List Meeting}
      (hrest : ReadsGiven c rest met kept refused) : ReadsGiven c ("--" :: rest) met kept refused
  | argument {word : String} {rest kept refused : List String} {met : List Meeting}
      (h : isArgument word = true) (hrest : ReadsGiven c rest met kept refused) :
      ReadsGiven c (word :: rest) met (word :: kept) refused
  | option {word : String} {left left' kept more refused : List String} {met met' : List Meeting}
      (h : MeetsKnown c word left met kept left') (hrest : ReadsGiven c left' met' more refused) :
      ReadsGiven c (word :: left) (met ++ met') (kept ++ more) refused
  | refused {word name : String} {left left' more refused : List String} {met met' : List Meeting}
      (h : MeetsRefused c word left met name left')
      (hrest : ReadsGiven c left' met' more refused) :
      ReadsGiven c (word :: left) (met ++ met') (name :: more) (name :: refused)

section Given

variable {c : CommandLine} {words left left' kept : List String} {met : List Meeting}

theorem ReadsKnown.given (h : ReadsKnown c words met kept) : ReadsGiven c words met kept [] := by
  induction h with
  | done => exact .done
  | dashes _ ih => exact .dashes ih
  | argument harg _ ih => exact .argument harg ih
  | option hword _ ih => exact .option hword ih

theorem MeetsRefused.toList_word {word name : String}
    (h : MeetsRefused c word left met name left') :
    word ≠ "--" ∧ ∃ letter letters, word.toList = '-' :: letter :: letters := by
  cases h with
  | plain hword => exact ⟨ne_dashes_of_long hword, _, _, hword⟩
  | assigned hword => exact ⟨ne_dashes_of_long hword, _, _, hword⟩
  | letters hword hne => exact ⟨ne_dashes_of_letter hword hne, _, _, hword⟩

end Given

namespace CommandLine

variable {c : CommandLine} {o : CommandOption} {st : Reading} {s : Settings} {met : List Meeting}
  {words left kept refused : List String} {opt name : String}

theorem convert_error
    (h : (convert o opt words).isOk = false) :
    ∃ message, convert o opt words = .error (.badValue message) := by
  cases hwords : convert o opt words with
  | ok v =>
    rw [hwords] at h
    cases h
  | error e =>
    unfold convert at hwords
    dsimp only at hwords
    split at hwords
    · split at hwords <;> cases hwords
      exact ⟨_, rfl⟩
    · obtain hbad | ⟨_, _, hpure⟩ := bind_error hwords
      · obtain ⟨word, -, hbad⟩ := mapM_error hbad
        split at hbad <;> cases hbad
        exact ⟨_, rfl⟩
      · cases hpure

theorem run_meet_refused (st : Reading)
    (h : Refuses o opt st.left left) :
    ∃ message st', (c.meet o opt).run st = (.error (.badValue message), st') := by
  obtain ⟨htakes, n, hn, hbad, rfl⟩ := h
  obtain ⟨message, hconvert⟩ := convert_error hbad
  refine ⟨message, { st with left := st.left.drop n }, ?_⟩
  unfold meet
  rw [if_pos htakes, run_bind_of_ok (run_takeWords hn), hconvert]
  rfl

theorem run_readShorts_refused {letters : List Char}
    (hletters : RefusesLetters c letters st.left met name left)
    (h : met.foldlM (fun s m => m.apply s) st.values = .ok s)
    (hon : ∀ m ∈ met, c.GoesOn m.option) :
    ∃ message st', (c.readShorts letters).run st = (.error (.badValue message), st') := by
  induction letters generalizing st met with
  | nil => cases hletters
  | cons letter rest ih =>
    cases hletters with
    | flag ho hflag hrest =>
      rw [List.foldlM_cons] at h
      obtain ⟨next, hfirst, h⟩ := bind_ok h
      obtain ⟨hgoes, hmore⟩ := List.forall_mem_cons.mp hon
      obtain ⟨defaults, hmeet⟩ := run_meet st (.nothing hflag) hfirst hgoes
      rw [readShorts_flag ho hflag, run_bind_of_ok hmeet]
      exact ih hrest h hmore
    | value ho hv =>
      rw [run_readShorts_value ho hv.1]
      exact run_meet_refused { st with left := _ } hv

theorem run_readDashed_refused {word : String} (st : Reading)
    (hword : MeetsRefused c word st.left met name left)
    (h : met.foldlM (fun s m => m.apply s) st.values = .ok s)
    (hon : ∀ m ∈ met, c.GoesOn m.option) :
    ∃ message st', (c.readDashed word).run st = (.error (.badValue message), st') := by
  cases hword with
  | plain hword hcut hname ho hv =>
    rcases hall : Text.cut (· == '=') word.toList with ⟨cs, rest⟩
    rw [hall] at hcut
    obtain rfl : rest = none := hcut
    rw [readDashed_long hword, readLong_plain hall, meetNamed_known false hname ho nofun]
    exact run_meet_refused st hv
  | assigned hword hcut hname ho hv =>
    rw [readDashed_long hword, readLong_assigned hcut, run_bind_of_ok (run_modify _ st),
      meetNamed_known true hname ho fun _ => hv.1]
    exact run_meet_refused { st with left := _ :: st.left } hv
  | letters hword hne hletters =>
    rw [readDashed_letters hword hne]
    exact run_readShorts_refused hletters h hon

/-- Going on and on meets the options that are known and keeps what is not an option or not known,
up to a refused value. -/
theorem resume_readWords
    (hwords : ReadsGiven c words met kept refused) {steps fuel : Nat} (hleft : st.left = words)
    (hsteps : fuelFor words ≤ steps) (hfuel : fuelFor words ≤ fuel + 1)
    (h : met.foldlM (fun s m => m.apply s) st.values = .ok s)
    (hon : ∀ m ∈ met, c.GoesOn m.option) : ∃ st',
      (resume ((c.readWords steps).run st)).elim (c.readKnownFrom fuel) id =
        (if refused = [] then .ok () else .error (.fault Fault.missingAttribute), st') ∧
      (refused = [] → ∃ defaults, st' = ⟨st.found ++ kept, [], s, defaults⟩) := by
  induction hwords generalizing st steps fuel with
  | done =>
    cases h
    rw [run_readWords_nil hleft]
    refine ⟨st, readKnownFrom_nil hleft fuel, fun _ => ⟨st.defaults, ?_⟩⟩
    rw [List.append_nil, ← hleft]
  | @dashes rest kept refused met hrest ih =>
    rw [fuelFor_cons] at hsteps hfuel
    obtain ⟨steps, rfl⟩ : ∃ n, steps = n + 1 := ⟨steps - 1, by omega⟩
    obtain ⟨fuel, rfl⟩ : ∃ n, fuel = n + 1 := ⟨fuel - 1, by have := fuelFor_pos rest; omega⟩
    rw [run_readWords_dashes hleft, resume, Sum.elim_inl, readKnownFrom_succ]
    exact ih rfl (Nat.le_refl _) (by omega) h hon
  | @argument word rest kept refused met harg hrest ih =>
    rw [fuelFor_cons] at hsteps hfuel
    obtain ⟨steps, rfl⟩ : ∃ n, steps = n + 1 := ⟨steps - 1, by omega⟩
    rw [run_readWords_argument hleft harg, List.append_cons st.found word kept]
    have hsteps : fuelFor rest ≤ steps := by omega
    have hfuel : fuelFor rest ≤ fuel + 1 := by omega
    exact ih rfl hsteps hfuel h hon
  | @option word left left' kept more refused met met' hword hrest ih =>
    obtain ⟨hne, letter, letters, hletters⟩ := hword.toList_word
    have hless := fuelFor_meetsKnown hword
    obtain ⟨steps, rfl⟩ : ∃ n, steps = n + 1 := ⟨steps - 1, by omega⟩
    obtain ⟨fuel, rfl⟩ : ∃ n, fuel = n + 1 := ⟨fuel - 1, by have := fuelFor_pos left'; omega⟩
    obtain ⟨hmet, hmore⟩ := List.forall_mem_append.mp hon
    rw [List.foldlM_append] at h
    obtain ⟨next, hfirst, h⟩ := bind_ok h
    obtain ⟨r, defaults, hending, hrun⟩ :=
      run_readDashed { st with left := left } hword hfirst hmet
    rw [run_readWords_dashed hleft hletters hne, run_bind, hrun]
    cases hending with
    | all => exact ih rfl (by omega) (by omega) h hmore
    | unknown =>
      rw [← List.append_assoc]
      dsimp only
      rw [resume, Sum.elim_inl, readKnownFrom_succ]
      exact ih rfl (Nat.le_refl _) (by omega) h hmore
  | @refused word name left left' more refused met met' hword hrest ih =>
    obtain ⟨hne, letter, letters, hletters⟩ := hword.toList_word
    have hpos := fuelFor_pos (word :: left)
    obtain ⟨steps, rfl⟩ : ∃ n, steps = n + 1 := ⟨steps - 1, by omega⟩
    rw [List.foldlM_append] at h
    obtain ⟨next, hfirst, -⟩ := bind_ok h
    obtain ⟨message, st', hrun⟩ := run_readDashed_refused { st with left := left } hword hfirst
      (List.forall_mem_append.mp hon).1
    rw [run_readWords_dashed hleft hletters hne, run_bind, hrun, if_neg (List.cons_ne_nil _ _)]
    exact ⟨st', rfl, fun h => by cases h⟩

theorem readKnown_given {start : Settings}
    (hwords : ReadsGiven c words met kept refused)
    (h : met.foldlM (fun s m => m.apply s) start = .ok s)
    (hon : ∀ m ∈ met, c.GoesOn m.option) : (c.readKnown words start).1 =
      if refused = [] then .ok (s, kept) else .error (.fault Fault.missingAttribute) := by
  have hpos := fuelFor_pos words
  obtain ⟨fuel, hfuel⟩ : ∃ n, fuelFor words = n + 1 := ⟨fuelFor words - 1, by omega⟩
  have hleft : (c.start words start).left = words := rfl
  obtain ⟨st', hread, hend⟩ :=
    resume_readWords hwords hleft (Nat.le_refl _) (Nat.le_of_eq hfuel) h hon
  rw [readKnown]
  nth_rewrite 1 [hfuel]
  rw [readKnownFrom_succ, hleft, hread]
  by_cases hnone : refused = []
  · obtain ⟨defaults, rfl⟩ := hend hnone
    rw [if_pos hnone, if_pos hnone]
    exact congrArg (fun kept => Except.ok (s, kept)) (List.append_nil kept)
  · rw [if_neg hnone, if_neg hnone]
    rfl

end CommandLine

namespace Registry

variable {r : Registry} {cwd : String} {words kept refused : List String} {met : List Meeting}
  {values : Option Settings} {start found : Settings}

theorem versions_of_no_plugins (h : r.plugins = []) (form : Value) (joint : String) :
    r.versions form joint = .ok "" := by
  have hsorted : r.sortedPlugins = .ok [] := by
    rw [sortedPlugins, h, Value.sortBy, List.mergeSort_nil]
    rfl
  rw [versions, hsorted]
  rfl

theorem parse_of_versions {listing version : String}
    (hlisting : r.versions versionFormat ", " = .ok listing) (hversion : r.version = .text version)
    (how : Strictness) (cwd : String) (words : List String) (values : Option Settings) :
    (r.parse how cwd (.ok words) values).1 = (r.parseWords how cwd words values).1 := by
  rw [parse_fst, hlisting, hversion]
  rfl

theorem parseWords_startOf (h : r.startOf values = .ok start) (how : Strictness)
    (words : List String) :
    r.parseWords how cwd words values = r.parseWords how cwd words (some start) := by
  cases values with
  | none => exact parseWords_none h how words
  | some given =>
    cases h
    rfl

theorem parseWords_given (hstart : r.startOf values = .ok start)
    (hwords : ReadsGiven r.reader words met kept refused)
    (hmet : met.foldlM (fun s m => m.apply s) start = .ok found)
    (hon : ∀ m ∈ met, r.reader.GoesOn m.option) :
    (r.parseWords .lenient cwd words values).1 =
      if refused = [] then
        ((normalizeAll cwd found r.declarations).mapError .fault).map (·, kept)
      else .error (.fault Fault.missingAttribute) := by
  have hread := CommandLine.readKnown_given hwords hmet hon
  rw [parseWords_startOf hstart]
  unfold parseWords
  dsimp only
  rw [readBy, hread]
  by_cases hnone : refused = []
  · rw [if_pos hnone, if_pos hnone]
    change ((normalizeAll cwd found r.declarations).mapError Halt.fault >>= fun s =>
      Except.ok (s, kept)) = _
    cases normalizeAll cwd found r.declarations <;> rfl
  · rw [if_neg hnone, if_neg hnone]
    rfl

/-- Words in which every option that takes a value has one, and no other has, are read leniently to
their end just if no value is refused: unknown options are kept among the arguments then. Otherwise
reading ends with a fault. -/
theorem parse_lenient_given {listing version : String}
    (hlisting : r.versions versionFormat ", " = .ok listing) (hversion : r.version = .text version)
    (hstart : r.startOf values = .ok start) (hwords : ReadsGiven r.reader words met kept refused)
    (hmet : met.foldlM (fun s m => m.apply s) start = .ok found)
    (hon : ∀ m ∈ met, r.reader.GoesOn m.option) :
    (r.parse .lenient cwd (.ok words) values).1 =
      if refused = [] then
        ((normalizeAll cwd found r.declarations).mapError .fault).map (·, kept)
      else .error (.fault Fault.missingAttribute) := by
  rw [parse_of_versions hlisting hversion]
  exact parseWords_given hstart hwords hmet hon

theorem initial_meets :
    (Registry.initial.reader.fullName (String.ofList "--foo".toList)).isOk = false ∧
    MeetsRefused Registry.initial.reader "--max-line-length=abc" [] [] "--max-line-length" [] := by
  have hown : (Registry.initial.reader.fullName (String.ofList "--foo".toList)).isOk = false ∧
      (Registry.initial.reader.fullName (String.ofList "--max-line-length".toList)).toOption =
        some "--max-line-length" ∧
      (Registry.initial.reader.long? "--max-line-length").map (fun o => decide (
        o.takesValue = true ∧ wordsTaken o.nargs 1 = some 1 ∧
          (CommandLine.convert o "--max-line-length" [String.ofList "abc".toList]).isOk = false)) =
        some true := by
    decide +kernel
  obtain ⟨hfoo, hname, ho⟩ := hown
  obtain ⟨o, ho, hshown⟩ := Option.map_eq_some_iff.mp ho
  obtain ⟨htakes, hn, hbad⟩ := of_decide_eq_true hshown
  have hlong : "--max-line-length=abc".toList = '-' :: '-' :: 'm' :: "ax-line-length=abc".toList := by
    decide
  have hcut : Text.cut (· == '=') "--max-line-length=abc".toList =
      ("--max-line-length".toList, some "abc".toList) := by decide
  exact ⟨hfoo, .assigned hlong hcut (eq_ok_of_toOption hname) ho ⟨htakes, 1, hn, hbad, rfl⟩⟩

theorem initial_normalized : ∃ start s, Registry.initial.versions versionFormat ", " = .ok "" ∧
    Registry.initial.version = .text Release.version ∧
    Registry.initial.startOf none = .ok start ∧
    normalizeAll "/" start Registry.initial.declarations = .ok s := by
  have hown : Registry.initial.plugins = [] ∧ Registry.initial.version = .text Release.version ∧
      (Registry.initial.commandLine.defaultValues.toOption.bind fun start =>
        (normalizeAll "/" start Registry.initial.declarations).toOption).isSome = true := by
    decide +kernel
  obtain ⟨hplugins, hversion, hsome⟩ := hown
  obtain ⟨s, hsome⟩ := Option.isSome_iff_exists.mp hsome
  obtain ⟨start, hstart, hs⟩ := Option.bind_eq_some_iff.mp hsome
  exact ⟨start, s, versions_of_no_plugins hplugins versionFormat ", ", hversion,
    eq_ok_of_toOption hstart, eq_ok_of_toOption hs⟩

/-- An unknown option with a value, and the same before a value that is refused. -/
theorem parse_lenient_given_unknown :
    (∃ s, (Registry.initial.parse .lenient "/" (.ok ["--foo=bar"]) none).1 =
      .ok (s, ["--foo", "bar"])) ∧
    (Registry.initial.parse .lenient "/" (.ok ["--foo=bar", "--max-line-length=abc"]) none).1 =
      .error (.fault Fault.missingAttribute) := by
  obtain ⟨start, s, hlisting, hversion, hstart, hs⟩ := initial_normalized
  obtain ⟨hfoo, hlength⟩ := initial_meets
  have hlong : "--foo=bar".toList = '-' :: '-' :: 'f' :: "oo=bar".toList := by decide
  have hcut : Text.cut (· == '=') "--foo=bar".toList = ("--foo".toList, some "bar".toList) := by
    decide
  have hunknown : ∀ {rest met kept refused},
      ReadsGiven Registry.initial.reader rest met kept refused → ReadsGiven Registry.initial.reader
        ("--foo=bar" :: rest) met ("--foo" :: "bar" :: kept) refused := fun hrest =>
    .option (.assigned hlong hcut hfoo) (.argument rfl hrest)
  constructor
  · refine ⟨s, ?_⟩
    rw [parse_lenient_given hlisting hversion hstart (hunknown .done) rfl (List.forall_mem_nil _),
      if_pos rfl, hs]
    rfl
  · exact parse_lenient_given hlisting hversion hstart
      (hunknown (.refused hlength .done)) rfl (List.forall_mem_nil _)

/-- A refused value is not kept like an unknown option. -/
theorem parse_lenient_refused :
    ReadsGiven Registry.initial.reader ["--max-line-length=abc"] [] ["--max-line-length"]
        ["--max-line-length"] ∧
      (Registry.initial.parse .lenient "/" (.ok ["--max-line-length=abc"]) none).1 =
        .error (.fault Fault.missingAttribute) := by
  obtain ⟨start, -, hlisting, hversion, hstart, -⟩ := initial_normalized
  have hwords := ReadsGiven.refused initial_meets.2 .done
  refine ⟨hwords, ?_⟩
  rw [parse_of_versions hlisting hversion]
  exact parseWords_given hstart hwords rfl (List.forall_mem_nil _)

end Registry

end LintRunner.Options
