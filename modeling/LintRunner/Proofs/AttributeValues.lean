import LintRunner.Proofs.ConfiguredValues
import LintRunner.Proofs.LowerCase

/-!
# Values from build commands

A build command hands on what it read for an option as a text, which is then read by the kind of the
option. A configuration file is read by the kind as well, but in another way: fractions stay texts,
lists are made after numbers and truth values, and the words for truth are not the same. This module
says which options and texts give the same value both ways.
-/

namespace LintRunner

open Stateful

namespace Text

/-- A run leads past the plain characters, or it holds the plain capitals, or it leads to a k. -/
def CaseRun.isPlain (r : CaseRun) : Bool :=
  Nat.ble 0x80 r.other ||
    (Nat.beq r.first 0x41 && Nat.beq r.last 0x5a && Nat.beq r.other 0x61) ||
    (Nat.beq r.first r.last && Nat.beq r.other 0x6b)

theorem isPlain_caseRuns : caseRuns.all CaseRun.isPlain = true := by decide +kernel

theorem upperChar_capitals : ∀ k ∈ List.range 26,
    upperChar (Char.ofNat (0x61 + k)) = upperChar (Char.ofNat (0x41 + k)) := by
  decide +kernel

/-- A plain character other than a k. The sign for kelvins is a k in lower case, but no capital. -/
def IsWordChar (c : Char) : Prop := c.toNat < 0x80 ∧ c ≠ 'k'
deriving Decidable

theorem upperChar_lowerChar {c : Char} (h : ∀ x ∈ lowerChar c, IsWordChar x) :
    (lowerChar c).flatMap upperChar = upperChar c := by
  unfold lowerChar at h ⊢
  split at h
  · have hplain := (h (Char.ofNat 0x307) (List.mem_cons_of_mem _ List.mem_cons_self)).1
    exact absurd hplain (by decide)
  · rename_i hdotted
    rw [if_neg hdotted, List.flatMap_singleton]
    obtain ⟨hplain, hk⟩ := h _ List.mem_cons_self
    rcases shiftedFrom_cases c.toNat caseRuns with hsame | ⟨r, hr, hholds, hshift⟩
    · rw [hsame, Char.ofNat_toNat]
    · rw [hshift] at hplain hk ⊢
      rw [(toNat_of_holds hr hholds).1] at hplain
      have hrun := List.all_eq_true.mp isPlain_caseRuns r hr
      simp only [CaseRun.isPlain, Bool.or_eq_true, Bool.and_eq_true, Nat.ble_eq, Nat.beq_eq] at hrun
      obtain ⟨hfirst, hlast, -⟩ := hholds
      rcases hrun with (hpast | ⟨⟨hstart, hend⟩, hother⟩) | ⟨hsingle, hother⟩
      · omega
      · have hcapital : c = Char.ofNat (0x41 + (c.toNat - r.first)) := by
          rw [hstart, Nat.add_sub_cancel' (hstart ▸ hfirst), Char.ofNat_toNat]
        have hmem : c.toNat - r.first ∈ List.range 26 := List.mem_range.mpr (by omega)
        rw [hother, upperChar_capitals _ hmem, ← hcapital]
      · have hzero : c.toNat - r.first = 0 := by omega
        rw [hother, hzero] at hk
        exact absurd rfl hk

theorem flatMap_upperChar_lowerAfter {before cs : List Char}
    (h : ∀ x ∈ lowerAfter before cs, IsWordChar x) :
    (lowerAfter before cs).flatMap upperChar = cs.flatMap upperChar := by
  induction cs generalizing before with
  | nil => rfl
  | cons c rest ih =>
    rw [lowerAfter] at h ⊢
    obtain ⟨hfirst, hrest⟩ := List.forall_mem_append.mp h
    rw [List.flatMap_append, ih hrest, List.flatMap_cons]
    split at hfirst
    · exact absurd (hfirst _ List.mem_cons_self).1 (by decide)
    · rename_i hsigma
      rw [if_neg hsigma, upperChar_lowerChar hfirst]

theorem upper_lower {s : String} (h : ∀ x ∈ (lower s).toList, IsWordChar x) :
    upper (lower s) = upper s := by
  unfold lower at h
  rw [String.toList_ofList] at h
  unfold upper lower
  rw [String.toList_ofList, flatMap_upperChar_lowerAfter h]

end Text

namespace Options

theorem Yields.error {ε α β : Type} {P : β → Prop} (e : ε) (f : α → Except ε β) :
    Yields P ((.error e : Except ε α) >>= f) := by
  intro b hb
  cases hb

theorem CommandOption.yields_named {d : Declaration}
    (h : d.action = .text "int" ∨ d.type = .text "count") :
    Yields (fun _ => False) (ofDeclaration d) := by
  unfold ofDeclaration
  extract_lets names named
  have hnamed : ∀ u, Yields (fun _ => False) (named u) := by
    intro u
    refine .bind fun sorted => ?_
    dsimp -zeta only
    extract_lets refuse acting
    rcases h with haction | htype
    · rw [haction]
      exact .error _ _
    · have hacting : ∀ action, Yields (fun _ => False) (acting action) := by
        intro action
        unfold acting
        extract_lets typed
        rw [htype]
        exact .error _ _
      split
      · exact .bind hacting
      · split <;> exact .bind hacting
  exact .ite (.bind hnamed) (hnamed ())

inductive ValueKind where
  | integer
  | fraction
  | truth
  | text
deriving DecidableEq, Repr

namespace Declaration

def storesTruth (d : Declaration) : Bool :=
  d.action == .text "store_true" || d.action == .text "store_false"

def kind (d : Declaration) : ValueKind :=
  if d.type == .text "int" || d.action == .text "count" then .integer
  else if d.type == .text "float" || d.type == .text "complex" then .fraction
  else if d.storesTruth then .truth
  else .text

/-- What is written for the option gives the same value in a configuration file and through a build
command. -/
def readsAlike (d : Declaration) (s : String) : Bool :=
  match d.kind with
  | .integer => !d.isList
  | .fraction => false
  | .truth => !d.isList && !(["yes", "no"].contains (Text.lower s))
  | .text => true

variable {d : Declaration} {v w : Value}

theorem normalize_of_not_isPath (hpath : d.isPath = false) (cwd parent : String)
    (v : Value) : d.normalize cwd parent v =
      if d.isList then (listed .commaOrBlank v).map Value.texts else .ok v := by
  unfold normalize
  rw [hpath]
  cases d.isList with
  | false => rfl
  | true => cases listed .commaOrBlank v <;> rfl

def truthOf (word : String) : Value :=
  if ["1", "T", "TRUE", "ON"].contains word then .bool true
  else if ["0", "F", "FALSE", "OFF"].contains word then .bool false
  else .text word

/-- A normal value that came from a build command, as a value of the option's kind. -/
def readAs (d : Declaration) (v : Value) : Except Fault Value :=
  match d.kind with
  | .integer => toInteger v
  | .fraction => if d.type == .text "float" then toReal v else toComplex v
  | .truth => .ok (truthOf (Text.upper v.plain))
  | .text => .ok v

theorem ofAttribute_eq (d : Declaration) (cwd : String) (v : Value) :
    d.ofAttribute cwd v = d.normalize cwd "." v >>= d.readAs := by
  unfold ofAttribute readAs kind storesTruth
  refine congrArg _ (funext fun w => ?_)
  generalize (d.type == .text "int" || d.action == .text "count") = integer
  generalize (d.type == .text "float") = real
  generalize (d.type == .text "complex") = complex
  generalize (d.action == .text "store_true" || d.action == .text "store_false") = truth
  cases integer with
  | true => rfl
  | false =>
    cases real with
    | true => rfl
    | false =>
      cases complex with
      | true => rfl
      | false =>
        cases truth with
        | false => rfl
        | true =>
          rw [truthOf, apply_ite Except.ok, apply_ite Except.ok]
          rfl

theorem storesTruth_of_kind_truth (h : d.kind = .truth) :
    d.storesTruth = true := by
  unfold kind at h
  split_ifs at h
  assumption

theorem storesTruth_of_kind_text (h : d.kind = .text) :
    d.storesTruth = false := by
  unfold kind at h
  split_ifs at h
  simp_all

theorem toReal_ok (h : toReal v = .ok w) : ∃ x, w = .float x := by
  unfold toReal at h
  split at h
  · cases h
    exact ⟨_, rfl⟩
  · split at h
    · cases h
      exact ⟨_, rfl⟩
    · cases h
  · split at h
    · obtain ⟨x, -, hx⟩ := bind_ok h
      cases hx
      exact ⟨x, rfl⟩
    · cases h

theorem toComplex_ok (h : toComplex v = .ok w) : ∃ x y, w = .complex x y := by
  unfold toComplex at h
  split at h
  · cases h
    exact ⟨_, _, rfl⟩
  · split at h
    · cases h
      exact ⟨_, _, rfl⟩
    · cases h
  · split at h
    · obtain ⟨x, -, hx⟩ := bind_ok h
      cases hx
      exact ⟨x, _, rfl⟩
    · cases h

theorem fraction_ne (d : Declaration) (v : Value)
    (hw : (∃ b, w = .bool b) ∨ (∃ s, w = .text s) ∨ ∃ vs, w = .list vs) :
    (if d.type == .text "float" then toReal v else toComplex v) ≠ .ok w := by
  intro h
  split at h
  · obtain ⟨x, rfl⟩ := toReal_ok h
    simp at hw
  · obtain ⟨x, y, rfl⟩ := toComplex_ok h
    simp at hw

end Declaration

end Options

namespace Config

open Options Declaration

variable {d : Declaration} {s cwd directory : String} {v : Value}

theorem any_integer_iff (haction : d.action ≠ .text "int") (htype : d.type ≠ .text "count") :
    ([d.type, d.action].any fun v => v == .text "int" || v == .text "count") = true ↔
      d.kind = .integer := by
  have hkind : d.kind = .integer ↔ d.type = .text "int" ∨ d.action = .text "count" := by
    unfold kind
    split
    · simp_all
    · split_ifs <;> simp_all
  rw [hkind]
  simp [haction, htype]

theorem readValue_integer (haction : d.action ≠ .text "int") (htype : d.type ≠ .text "count")
    (hkind : d.kind = .integer) : readValue d s = toInteger (.text s) :=
  if_pos ((any_integer_iff haction htype).mpr hkind)

theorem readValue_ok (haction : d.action ≠ .text "int") (htype : d.type ≠ .text "count")
    (hkind : d.kind ≠ .integer) (h : readValue d s = .ok v) :
    (d.storesTruth = true ∧ ∃ b, truthWord? s = some b ∧ v = .bool b) ∨
      (d.storesTruth = false ∧ v = .text s) := by
  unfold readValue at h
  rw [if_neg fun hany => hkind ((any_integer_iff haction htype).mp hany)] at h
  split at h
  · rename_i htruth
    refine .inl ⟨htruth, ?_⟩
    split at h
    · rename_i b hb
      cases h
      exact ⟨b, hb, rfl⟩
    · cases h
  · rename_i htruth
    cases h
    exact .inr ⟨Bool.eq_false_iff.mpr htruth, rfl⟩

theorem truthWord?_ok {b : Bool} (h : truthWord? s = some b) :
    Text.lower s ∈ ["1", "yes", "true", "on", "0", "no", "false", "off"] ∧
      b = ["1", "yes", "true", "on"].contains (Text.lower s) := by
  unfold truthWord? at h
  dsimp only at h
  generalize Text.lower s = word at h ⊢
  split at h
  · rename_i hword
    cases h
    exact ⟨List.mem_append_left ["0", "no", "false", "off"] (List.contains_iff_mem.mp hword),
      hword.symm⟩
  · rename_i hnot
    split at h
    · rename_i hword
      cases h
      exact ⟨List.mem_append_right ["1", "yes", "true", "on"] (List.contains_iff_mem.mp hword),
        (Bool.eq_false_iff.mpr hnot).symm⟩
    · cases h

theorem truthOf_upper_iff {b : Bool} (h : truthWord? s = some b) :
    truthOf (Text.upper s) = .bool b ↔ ["yes", "no"].contains (Text.lower s) = false := by
  obtain ⟨hmem, rfl⟩ := truthWord?_ok h
  have hplain : ∀ w ∈ ["1", "yes", "true", "on", "0", "no", "false", "off"],
      ∀ x ∈ w.toList, Text.IsWordChar x := by
    decide +kernel
  have hwords : ∀ w ∈ ["1", "yes", "true", "on", "0", "no", "false", "off"],
      truthOf (Text.upper w) = .bool (["1", "yes", "true", "on"].contains w) ↔
        ["yes", "no"].contains w = false := by
    decide +kernel
  rw [← Text.upper_lower (hplain _ hmem)]
  exact hwords _ hmem

section

variable (haction : d.action ≠ .text "int") (htype : d.type ≠ .text "count")
  (hpath : d.isPath = false) (hv : valueOf d cwd directory s = .ok v) (cwd' : String)

include haction htype hpath hv

theorem ofAttribute_single_iff (hlist : d.isList = false) :
    d.ofAttribute cwd' (.text s) = .ok v ↔ d.readsAlike s = true := by
  obtain ⟨w, hread, hnormal⟩ := bind_ok hv
  rw [normalize_of_not_isPath hpath, hlist] at hnormal
  cases hnormal
  have hattribute : d.ofAttribute cwd' (.text s) = d.readAs (.text s) := by
    rw [ofAttribute_eq, normalize_of_not_isPath hpath, hlist]
    rfl
  rw [hattribute, readAs, readsAlike, hlist]
  cases hkind : d.kind with
  | integer =>
    rw [readValue_integer haction htype hkind] at hread
    simp [hread]
  | fraction =>
    have hplain : (∃ b, v = .bool b) ∨ (∃ s, v = .text s) ∨ ∃ vs, v = .list vs := by
      rcases readValue_ok haction htype (by simp [hkind]) hread with
        ⟨-, b, -, rfl⟩ | ⟨-, rfl⟩
      · exact .inl ⟨b, rfl⟩
      · exact .inr (.inl ⟨s, rfl⟩)
    exact iff_of_false (fraction_ne d _ hplain) Bool.false_ne_true
  | truth =>
    rcases readValue_ok haction htype (by simp [hkind]) hread with
      ⟨-, b, hb, rfl⟩ | ⟨hnot, -⟩
    · have hplain : (Value.text s).plain = s := rfl
      simpa [hplain] using truthOf_upper_iff hb
    · simp [storesTruth_of_kind_truth hkind] at hnot
  | text =>
    rcases readValue_ok haction htype (by simp [hkind]) hread with
      ⟨htruth, -⟩ | ⟨-, rfl⟩
    · simp [storesTruth_of_kind_text hkind] at htruth
    · simp

theorem ofAttribute_list_iff (hlist : d.isList = true) :
    d.ofAttribute cwd' (.text s) = .ok v ↔ d.readsAlike s = true := by
  obtain ⟨w, hread, hnormal⟩ := bind_ok hv
  rw [normalize_of_not_isPath hpath, if_pos hlist] at hnormal
  obtain ⟨items, hitems⟩ : ∃ items, listed .commaOrBlank (.text s) = .ok items := by
    unfold listed
    split <;> exact ⟨_, rfl⟩
  obtain ⟨vs, rfl⟩ : ∃ vs, v = .list vs := by
    cases hlisted : listed .commaOrBlank w with
    | error f =>
      rw [hlisted] at hnormal
      cases hnormal
    | ok read =>
      rw [hlisted] at hnormal
      cases hnormal
      exact ⟨_, rfl⟩
  have hattribute : d.ofAttribute cwd' (.text s) = d.readAs (.texts items) := by
    rw [ofAttribute_eq, normalize_of_not_isPath hpath, if_pos hlist, hitems]
    rfl
  rw [hattribute, readAs, readsAlike, hlist]
  cases hkind : d.kind with
  | integer =>
    have hrefused : toInteger (.texts items) = .error Fault.badType := rfl
    simp [hrefused]
  | fraction =>
    exact iff_of_false (fraction_ne d _ (.inr (.inr ⟨vs, rfl⟩))) Bool.false_ne_true
  | truth =>
    refine iff_of_false (fun h => ?_) Bool.false_ne_true
    unfold truthOf at h
    split_ifs at h <;> cases h
  | text =>
    rcases readValue_ok haction htype (by simp [hkind]) hread with
      ⟨htruth, -⟩ | ⟨-, rfl⟩
    · simp [storesTruth_of_kind_text hkind] at htruth
    · rw [hitems] at hnormal
      exact iff_of_true hnormal rfl

end

/-- What a configuration file says for a registered option, other than for paths, has the same value
through a build command just if the option is for texts, or it is for integers and no list, or it
stores a truth value, is no list, and the word is neither yes nor no. -/
theorem ofAttribute_eq_sectionValues_iff {r : Registry} (hr : r.Built) {name : String}
    (hd : Known r d name) (hpath : d.isPath = false) {ini : Ini} {found : List (String × Value)}
    (hfound : sectionValues r ini cwd directory = .ok found)
    (hs : ini.written? r.program name = some s) (cwd' : String) :
    ∃ v, found.lookup name = some v ∧
      (d.ofAttribute cwd' (.text s) = .ok v ↔ d.readsAlike s = true) := by
  have hlookup := lookup_sectionValues hr.sound hd hfound
  rw [hs, Option.map_some] at hlookup
  obtain ⟨v, hv, hvalue⟩ := Option.map_eq_some_iff.mp hlookup
  refine ⟨v, hv, ?_⟩
  obtain ⟨o, -, hserved⟩ := hr.sound.served d (hd.mem hr.sound)
  have haction : d.action ≠ .text "int" := fun h =>
    CommandOption.yields_named (.inl h) o hserved
  have htype : d.type ≠ .text "count" := fun h =>
    CommandOption.yields_named (.inr h) o hserved
  cases hlist : d.isList with
  | false => exact ofAttribute_single_iff haction htype hpath hvalue.symm cwd' hlist
  | true => exact ofAttribute_list_iff haction htype hpath hvalue.symm cwd' hlist

def flagged : Declaration :=
  { long := .text "--flag", dest := .text "flag", action := .text "store_true", fromConfig := true }

def saying (word : String) : Ini :=
  (Ini.read {} "setup.cfg" ("[flake8]\nflag=" ++ word).toList).1

def flagIn (word : String) : Option Value :=
  (Registry.ofOptions [flagged]).toOption.bind fun r =>
    (sectionValues r (saying word) "/p" "/p").toOption.bind (·.lookup "flag")

theorem exists_flagIn {word : String} {v : Value} (h : flagIn word = some v) :
    ∃ r found, Registry.ofOptions [flagged] = .ok r ∧
      sectionValues r (saying word) "/p" "/p" = .ok found ∧ found.lookup "flag" = some v := by
  obtain ⟨r, hr, h⟩ := Option.bind_eq_some_iff.mp h
  obtain ⟨found, hfound, hv⟩ := Option.bind_eq_some_iff.mp h
  exact ⟨r, found, eq_ok_of_toOption hr, eq_ok_of_toOption hfound, hv⟩

/-- A flag that is off in a file is off through a build command. -/
theorem ofAttribute_flag_off : ∃ r found, Registry.ofOptions [flagged] = .ok r ∧
    Known r flagged "flag" ∧ flagged.isPath = false ∧
    sectionValues r (saying "off") "/p" "/p" = .ok found ∧
    (saying "off").written? r.program "flag" = some "off" ∧
    ∃ v, found.lookup "flag" = some v ∧ flagged.ofAttribute "/q" (.text "off") = .ok v := by
  have hoff : flagIn "off" = some (.bool false) := by decide +kernel
  obtain ⟨r, found, hr, hfound, -⟩ := exists_flagIn hoff
  have hknown : Known r flagged "flag" := by
    obtain ⟨r', hadd, hsame⟩ := bind_ok hr
    cases hsame
    have hname : flagged.configName = some "flag" := by decide +kernel
    exact ⟨hname, Registry.lookup_configOptions_add hadd hname⟩
  have hwritten : (saying "off").written? r.program "flag" = some "off" := by
    have hprogram : (Registry.ofOptions [flagged]).toOption.map (·.program) = some "flake8" := by
      decide +kernel
    rw [hr] at hprogram
    have hsame : r.program = "flake8" := Option.some.inj hprogram
    rw [hsame]
    decide +kernel
  obtain ⟨v, hv, hsame⟩ := ofAttribute_eq_sectionValues_iff (Registry.built_ofOptions hr) hknown rfl
    hfound hwritten "/q"
  exact ⟨r, found, hr, hknown, rfl, hfound, hwritten, v, hv, hsame.mpr (by decide +kernel)⟩

/-- A file understands the word no, and a build command does not. -/
theorem ofAttribute_flag_no : ∃ r found, Registry.ofOptions [flagged] = .ok r ∧
    sectionValues r (saying "no") "/p" "/p" = .ok found ∧
    found.lookup "flag" = some (.bool false) ∧
    flagged.ofAttribute "/p" (.text "no") = .ok (.text "NO") := by
  have hno : flagIn "no" = some (.bool false) := by decide +kernel
  obtain ⟨r, found, hr, hfound, hflag⟩ := exists_flagIn hno
  exact ⟨r, found, hr, hfound, hflag, eq_ok_of_toOption (by decide +kernel)⟩

end Config

end LintRunner
