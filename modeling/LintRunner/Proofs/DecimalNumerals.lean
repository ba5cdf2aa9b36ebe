import LintRunner.Number.Integer
import Mathlib.Data.List.TakeWhile

/-!
# Reading runs of decimal digits

A run of decimal digits of any script is read as the number that its digits make up, unless it has
more digits than can be read.
-/

namespace LintRunner

namespace Text

theorem exists_zero_of_digitValueFrom {n v : Nat} {zeros : List Nat}
    (h : digitValueFrom n zeros = some v) : ∃ z ∈ zeros, n = z + v ∧ v < 10 := by
  induction zeros with
  | nil => cases h
  | cons z zeros ih =>
    rw [digitValueFrom] at h
    split_ifs at h with hlow hhigh
    · cases h
      exact ⟨z, List.mem_cons_self, by omega, by omega⟩
    · obtain ⟨y, hy, hn⟩ := ih h
      exact ⟨y, List.mem_cons_of_mem z hy, hn⟩

theorem exists_zero_of_isDecimal {c : Char} (h : isDecimal c = true) :
    ∃ z ∈ digitZeros, ∃ v, digitValue? c = some v ∧ c.toNat = z + v ∧ v < 10 := by
  obtain ⟨v, hv⟩ := Option.isSome_iff_exists.mp h
  obtain ⟨z, hz, hc, hlt⟩ := exists_zero_of_digitValueFrom hv
  exact ⟨z, hz, v, hv, hc, hlt⟩

theorem isBlank_of_isDecimal {c : Char} (h : isDecimal c = true) : isBlank c = false := by
  have hnone : ∀ z ∈ digitZeros, ∀ v < 10, inRanges blankRanges (z + v) = false := by decide
  obtain ⟨z, hz, v, -, hc, hlt⟩ := exists_zero_of_isDecimal h
  rw [isBlank, hc]
  exact hnone z hz v hlt

end Text

namespace Numeral

def asciiDigit (c : Char) : Char := Char.ofNat ('0'.toNat + (Text.digitValue? c).getD 0)

theorem asciiDigit_of_ascii {c : Char} (h : Text.isDecimal c = true) (hc : c.toNat < 128) :
    asciiDigit c = c := by
  have hzero : ∀ z ∈ Text.digitZeros, z < 128 → z = '0'.toNat := by decide
  obtain ⟨z, hz, v, hv, hz', hlt⟩ := Text.exists_zero_of_isDecimal h
  rw [asciiDigit, hv, Option.getD_some, ← hzero z hz (by omega), ← hz', Char.ofNat_toNat]

theorem plainFrom_of_isDecimal {ds : List Char} (h : ∀ c ∈ ds, Text.isDecimal c = true) :
    plainFrom ds = ds.map asciiDigit := by
  induction ds with
  | nil => rfl
  | cons c ds ih =>
    obtain ⟨hc, hds⟩ := List.forall_mem_cons.mp h
    obtain ⟨v, hv⟩ := Option.isSome_iff_exists.mp hc
    rw [plainFrom, List.map_cons, ih hds]
    split_ifs with hascii hblank
    · rw [asciiDigit_of_ascii hc (by omega)]
    · exact absurd (hblank.symm.trans (Text.isBlank_of_isDecimal hc)) (by decide)
    · simp [hv, asciiDigit]

theorem plain_of_isDecimal {ds : List Char} (h : ∀ c ∈ ds, Text.isDecimal c = true) :
    plain (String.ofList ds) = ds.map asciiDigit := by
  rw [plain, String.toList_ofList]
  split_ifs with hascii
  · rw [List.all_eq_true] at hascii
    have hself : ∀ c ∈ ds, asciiDigit c = c := fun c hc =>
      asciiDigit_of_ascii (h c hc) (by have := hascii c hc; simp at this; omega)
    rw [List.map_congr_left hself, List.map_id']
  · exact plainFrom_of_isDecimal h

theorem asciiDigit_spec {c : Char} (h : Text.isDecimal c = true) :
    (asciiDigit c).isDigit = true ∧ isSpace (asciiDigit c) = false ∧ asciiDigit c ≠ '_' ∧
      asciiDigit c ≠ '-' ∧ asciiDigit c ≠ '+' ∧
      Integer.digit? 10 (asciiDigit c) = Text.digitValue? c := by
  have hall : ∀ v < 10, (Char.ofNat ('0'.toNat + v)).isDigit = true ∧
      isSpace (Char.ofNat ('0'.toNat + v)) = false ∧ Char.ofNat ('0'.toNat + v) ≠ '_' ∧
      Char.ofNat ('0'.toNat + v) ≠ '-' ∧ Char.ofNat ('0'.toNat + v) ≠ '+' ∧
      Integer.digit? 10 (Char.ofNat ('0'.toNat + v)) = some v := by decide
  obtain ⟨z, -, v, hv, -, hlt⟩ := Text.exists_zero_of_isDecimal h
  rw [asciiDigit, hv]
  exact hall v hlt

end Numeral

namespace Integer

variable {ds : List Char}

theorem parts_of_isDecimal (hne : ds ≠ []) (h : ∀ c ∈ ds, Text.isDecimal c = true) :
    parts (String.ofList ds) = (false, ds.map Numeral.asciiDigit) := by
  have hspace : ∀ c ∈ ds.map Numeral.asciiDigit, Numeral.isSpace c = false := by
    intro c hc
    obtain ⟨d, hd, rfl⟩ := List.mem_map.mp hc
    exact (Numeral.asciiDigit_spec (h d hd)).2.1
  rw [parts, Numeral.plain_of_isDecimal h, Text.dropEnds_of_forall_not hspace]
  obtain ⟨c, ds, rfl⟩ := List.exists_cons_of_ne_nil hne
  obtain ⟨-, -, -, hminus, hplus, -⟩ := Numeral.asciiDigit_spec (h c List.mem_cons_self)
  rw [List.map_cons, takeSign]
  · exact fun _ hcons => hminus (List.cons.inj hcons).1
  · exact fun _ hcons => hplus (List.cons.inj hcons).1

theorem digitsFrom?_of_isDecimal (h : ∀ c ∈ ds, Text.isDecimal c = true) (acc : Nat)
    {needDigit : Bool} (hneed : needDigit = true → ds ≠ []) :
    digitsFrom? 10 acc needDigit (ds.map Numeral.asciiDigit) =
      some (ds.foldl (fun n c => 10 * n + (Text.digitValue? c).getD 0) acc) := by
  induction ds generalizing acc needDigit with
  | nil =>
    cases needDigit with
    | false => rfl
    | true => exact absurd rfl (hneed rfl)
  | cons c ds ih =>
    obtain ⟨hc, hds⟩ := List.forall_mem_cons.mp h
    obtain ⟨v, hv⟩ := Option.isSome_iff_exists.mp hc
    obtain ⟨-, -, hunderscore, -, -, hdigit⟩ := Numeral.asciiDigit_spec hc
    rw [List.map_cons, digitsFrom?, hdigit, hv]
    · dsimp only
      rw [ih hds (10 * acc + v) fun hfalse => absurd hfalse Bool.false_ne_true, List.foldl_cons,
        hv, Option.getD_some]
    · exact hunderscore

theorem ofText?_of_isDecimal (hne : ds ≠ []) (h : ∀ c ∈ ds, Text.isDecimal c = true) :
    ofText? 10 (String.ofList ds) = some (Text.digitsValue ds : Int) := by
  have hdigits := digitsFrom?_of_isDecimal h 0 fun _ : true = true => hne
  simp [ofText?, parts_of_isDecimal hne h, hdigits, Text.digitsValue]

theorem isSome_tooMany?_of_isDecimal (hne : ds ≠ []) (h : ∀ c ∈ ds, Text.isDecimal c = true) :
    (tooMany? (String.ofList ds)).isSome = decide (mostDigits < ds.length) := by
  have hisDigit : ∀ c ∈ ds.map Numeral.asciiDigit, c.isDigit = true := by
    intro c hc
    obtain ⟨d, hd, rfl⟩ := List.mem_map.mp hc
    exact (Numeral.asciiDigit_spec (h d hd)).1
  have hrun : (ds.map Numeral.asciiDigit).takeWhile (fun c => c.isDigit || c == '_') =
      ds.map Numeral.asciiDigit :=
    List.takeWhile_eq_self_iff.mpr fun c hc => by rw [hisDigit c hc, Bool.true_or]
  have hcount : (ds.map Numeral.asciiDigit).countP Char.isDigit = ds.length := by
    rw [List.countP_eq_length.mpr hisDigit, List.length_map]
  have hdigits := digitsFrom?_of_isDecimal h 0 fun _ : true = true => hne
  rw [tooMany?, parts_of_isDecimal hne h]
  dsimp only
  rw [hrun, hcount, hdigits, Option.isSome_some, Bool.and_true]
  split_ifs with hlong
  · exact hlong.symm
  · exact (Bool.eq_false_iff.mpr hlong).symm

theorem ofDecimal?_of_isDecimal (hne : ds ≠ []) (h : ∀ c ∈ ds, Text.isDecimal c = true) :
    ofDecimal? (String.ofList ds) =
      if mostDigits < ds.length then none else some (Text.digitsValue ds : Int) := by
  rw [ofDecimal?, isSome_tooMany?_of_isDecimal hne h, ofText?_of_isDecimal hne h]
  simp only [decide_eq_true_eq]

end Integer

end LintRunner
