import LintRunner.Source.Tokenizer
import Mathlib.Data.List.TakeWhile

/-!
# Lexemes of a line

In a line of a file a line feed stands nowhere but at the end. This module says how far the lexemes
of such a line reach: numbers, operators, words and comments end before the line feed, and a blank
other than those within lines starts no lexeme at all.
-/

namespace LintRunner

namespace Text

def FeedLast (cs : List Char) : Prop := '\n' ∉ cs.dropLast

variable {cs : List Char}

theorem FeedLast.eq_nil (before : List Char) {after : List Char}
    (h : FeedLast (before ++ '\n' :: after)) : after = [] := by
  cases after with
  | nil => rfl
  | cons c rest =>
    refine absurd ?_ h
    rw [List.dropLast_append_cons, List.dropLast_cons_cons]
    simp

theorem FeedLast.getLast?_eq (h : FeedLast cs) (hmem : '\n' ∈ cs) :
    cs.getLast? = some '\n' := by
  obtain ⟨before, after, rfl⟩ := List.append_of_mem hmem
  rw [h.eq_nil, List.getLast?_append]
  rfl

theorem FeedLast.drop (h : FeedLast cs) (n : Nat) : FeedLast (cs.drop n) := by
  intro hmem
  obtain ⟨before, after, hsplit⟩ := List.append_of_mem hmem
  have hne : cs.drop n ≠ [] := fun hnil => by simp [hnil] at hmem
  have hcs : cs = (cs.take n ++ before) ++ '\n' :: (after ++ [(cs.drop n).getLast hne]) := by
    conv => lhs; rw [← List.take_append_drop n cs, ← List.dropLast_concat_getLast hne, hsplit]
    simp
  rw [hcs] at h
  simpa using h.eq_nil _

theorem FeedLast.mem_drop (h : FeedLast cs) (hmem : '\n' ∈ cs) {n : Nat}
    (hne : cs.drop n ≠ []) : '\n' ∈ cs.drop n := by
  refine List.mem_of_getLast? ?_
  rw [List.getLast?_drop, if_neg fun hle => hne (List.drop_of_length_le hle), h.getLast?_eq hmem]

theorem FeedLast.not_mem_take (h : FeedLast cs) {n : Nat}
    (hlast : (cs.take n).getLast? ≠ some '\n') : '\n' ∉ cs.take n := by
  intro hmem
  obtain ⟨before, after, hsplit⟩ := List.append_of_mem hmem
  rw [← List.take_append_drop n cs, hsplit, List.append_assoc, List.cons_append] at h
  obtain ⟨rfl, -⟩ := List.append_eq_nil_iff.mp (h.eq_nil _)
  rw [hsplit] at hlast
  simp at hlast

end Text

namespace Source

variable {cs : List Char} {n letters : Nat} {quote c : Char} {p : Char → Bool}

theorem stringEnd?_spec {close : StringEnd}
    (h : stringEnd? close cs = some n) :
    n ≤ cs.length ∧ (cs.take n).getLast? = some close.quote := by
  fun_induction stringEnd? close cs generalizing n with
  | case1 => cases h
  | case2 => cases h
  | case3 c cs hc ih =>
    obtain ⟨m, hm, rfl⟩ := Option.map_eq_some_iff.mp h
    simp [List.getLast?_cons, ih hm]
  | case4 => cases h
  | case5 =>
    cases h
    simp_all
  | case6 _ _ _ _ _ _ _ ih | case7 _ _ _ _ _ ih | case9 _ _ _ _ _ ih =>
    obtain ⟨m, hm, rfl⟩ := Option.map_eq_some_iff.mp h
    obtain ⟨hle, hlast⟩ := ih hm
    refine ⟨by simpa using hle, ?_⟩
    rw [List.take_succ_cons, List.getLast?_cons, hlast]
    rfl
  | case8 =>
    cases h
    exact ⟨by simp, rfl⟩

theorem isQuote_of_stringOpening?
    (h : stringOpening? cs = some (letters, quote)) : isQuote quote = true := by
  unfold stringOpening? at h
  grind

def reach (cs : List Char) : Nat := (cs.takeWhile (· != '\n')).length

theorem reach_cons (hc : c ≠ '\n') (cs : List Char) : reach (c :: cs) = 1 + reach cs := by
  rw [reach, List.takeWhile_cons_of_pos (by simpa using hc), List.length_cons, Nat.add_comm]
  rfl

theorem reach_add {m : Nat} (hn : n ≤ reach cs) (hm : m ≤ reach (cs.drop n)) :
    n + m ≤ reach cs := by
  induction n generalizing cs with
  | zero => simpa using hm
  | succ n ih =>
    cases cs with
    | nil => exact absurd hn (by simp [reach])
    | cons c cs =>
      by_cases hc : c = '\n'
      · subst hc
        exact absurd hn (by simp [reach])
      · rw [reach_cons hc] at hn ⊢
        have := ih (by omega) hm
        omega

theorem not_mem_take_of_le_reach (h : n ≤ reach cs) :
    '\n' ∉ cs.take n := by
  intro hmem
  have hstart : cs.take n <+: cs.takeWhile (· != '\n') :=
    List.prefix_of_prefix_length_le (List.take_prefix n cs) (List.takeWhile_prefix _)
      (le_trans (List.length_take_le n cs) h)
  simpa using List.mem_takeWhile_imp (hstart.subset hmem)

theorem moreDigits_le_reach (hp : p '\n' = false) (cs : List Char) :
    moreDigits p cs ≤ reach cs := by
  have hne : ∀ c, p c = true → c ≠ '\n' := by
    rintro c hc rfl
    rw [hp] at hc
    cases hc
  fun_induction moreDigits p cs with
  | case1 c cs hc ih =>
    rw [reach_cons (by decide), reach_cons (hne c hc)]
    omega
  | case2 => exact Nat.zero_le _
  | case3 c cs _ hc ih =>
    rw [reach_cons (hne c hc)]
    omega
  | case4 => exact Nat.zero_le _
  | case5 => exact Nat.zero_le _

theorem ne_feed_of_isDigit (h : c.isDigit = true) : c ≠ '\n' := by
  rintro rfl
  exact absurd h (by decide)

theorem digitRun_le_reach (cs : List Char) : digitRun cs ≤ reach cs := by
  unfold digitRun
  split
  · split
    · rename_i c cs hc
      rw [reach_cons (ne_feed_of_isDigit hc)]
      have := moreDigits_le_reach (p := Char.isDigit) (by decide) cs
      omega
    · exact Nat.zero_le _
  · exact Nat.zero_le _

theorem exponentRun_le_reach (cs : List Char) : exponentRun cs ≤ reach cs := by
  have hdigits : ∀ {c cs} n, c ≠ '\n' → n ≤ reach cs →
      (if digitRun (cs.drop n) = 0 then 0 else 1 + n + digitRun (cs.drop n)) ≤ reach (c :: cs) := by
    intro c cs n hc hn
    have hsum := reach_add hn (digitRun_le_reach (cs.drop n))
    rw [reach_cons hc]
    split <;> omega
  unfold exponentRun
  split
  · rename_i c cs
    split
    · rename_i hc
      have hcne : c ≠ '\n' := by
        rintro rfl
        exact absurd hc (by decide)
      dsimp only
      split
      · exact hdigits 1 hcne (by rw [reach_cons (by decide)]; omega)
      · exact hdigits 1 hcne (by rw [reach_cons (by decide)]; omega)
      · exact hdigits 0 hcne (Nat.zero_le _)
    · exact Nat.zero_le _
  · exact Nat.zero_le _

theorem pointFloatRun_le_reach (cs : List Char) : pointFloatRun cs ≤ reach cs := by
  unfold pointFloatRun
  dsimp only
  split
  · rename_i rest hdrop
    split
    · exact Nat.zero_le _
    · have hpoint : 1 + digitRun rest ≤ reach (cs.drop (digitRun cs)) := by
        rw [hdrop, reach_cons (by decide)]
        have := digitRun_le_reach rest
        omega
      have hbody := reach_add (digitRun_le_reach cs) hpoint
      rw [← Nat.add_assoc] at hbody
      exact reach_add hbody (exponentRun_le_reach _)
  · exact Nat.zero_le _

theorem exponentFloatRun_le_reach (cs : List Char) : exponentFloatRun cs ≤ reach cs := by
  unfold exponentFloatRun
  dsimp only
  split
  · exact Nat.zero_le _
  · exact reach_add (digitRun_le_reach cs) (exponentRun_le_reach _)

theorem markedRun_le_reach (hp : p '\n' = false) {mark : Char}
    (hmark : '\n'.toLower ≠ mark) (cs : List Char) : markedRun mark p cs ≤ reach cs := by
  unfold markedRun
  split
  · rename_i c cs
    split
    · rename_i hc
      have hcne : c ≠ '\n' := by
        rintro rfl
        exact hmark hc
      dsimp only
      split
      · exact Nat.zero_le _
      · have := moreDigits_le_reach hp cs
        rw [reach_cons (by decide), reach_cons hcne]
        omega
    · exact Nat.zero_le _
  · exact Nat.zero_le _

theorem decimalRun_le_reach (cs : List Char) : decimalRun cs ≤ reach cs := by
  unfold decimalRun
  split
  · rename_i cs
    have := moreDigits_le_reach (p := (· == '0')) (by decide) cs
    rw [reach_cons (by decide)]
    exact Nat.add_le_add_left this 1
  · split
    · rename_i c cs _ hc
      have := moreDigits_le_reach (p := Char.isDigit) (by decide) cs
      rw [reach_cons (ne_feed_of_isDigit hc)]
      omega
    · exact Nat.zero_le _
  · exact Nat.zero_le _

theorem numberRun_le_reach (cs : List Char) : numberRun cs ≤ reach cs := by
  have himaginary : ∀ {n}, n ≤ reach cs → isImaginaryMark (cs.drop n) = true →
      n + 1 ≤ reach cs := by
    intro n hn hmark
    refine reach_add hn ?_
    unfold isImaginaryMark at hmark
    split at hmark
    · rename_i c rest hdrop
      rw [hdrop, reach_cons]
      · omega
      · rintro rfl
        exact absurd hmark (by decide)
    · cases hmark
  unfold numberRun
  dsimp only
  split
  · rename_i h
    exact himaginary (digitRun_le_reach cs) (Bool.and_eq_true_iff.mp h).2
  split
  · rename_i h
    exact himaginary (pointFloatRun_le_reach cs) (Bool.and_eq_true_iff.mp h).2
  split
  · rename_i h
    exact himaginary (exponentFloatRun_le_reach cs) (Bool.and_eq_true_iff.mp h).2
  split
  · exact pointFloatRun_le_reach cs
  split
  · exact exponentFloatRun_le_reach cs
  split
  · exact markedRun_le_reach (by decide) (by decide) cs
  split
  · exact markedRun_le_reach (by decide) (by decide) cs
  split
  · exact markedRun_le_reach (by decide) (by decide) cs
  · exact decimalRun_le_reach cs

theorem length_le_reach {op : List Char} (hop : '\n' ∉ op) (h : op <+: cs) :
    op.length ≤ reach cs := by
  obtain ⟨rest, rfl⟩ := h
  induction op with
  | nil => exact Nat.zero_le _
  | cons c op ih =>
    obtain ⟨hc, hop⟩ := not_or.mp (mt List.mem_cons.mpr hop)
    have := ih hop
    rw [List.cons_append, reach_cons (Ne.symm hc), List.length_cons]
    omega

theorem operatorRun_le_reach (cs : List Char) : operatorRun cs ≤ reach cs := by
  unfold operatorRun
  split
  · rename_i op hop
    have hplain : ∀ op ∈ operators, '\n' ∉ op.toList := by decide
    exact length_le_reach (hplain op (List.mem_of_find?_eq_some hop))
      (List.isPrefixOf_iff_prefix.mp (by simpa using List.find?_some hop))
  · exact Nat.zero_le _

theorem length_takeWhile_le_reach (hp : p '\n' = false) (cs : List Char) :
    (cs.takeWhile p).length ≤ reach cs := by
  refine length_le_reach (fun hmem => ?_) (List.takeWhile_prefix p)
  have := List.mem_takeWhile_imp hmem
  rw [hp] at this
  cases this

def Lexeme.Fits (cs : List Char) : Lexeme → Prop
  | .lineEnd => cs = []
  | .continuation n => cs.take n = ['\\', '\n'] ∨ cs.take n = ['\\', '\r', '\n']
  | .newline n => cs.take n = ['\n'] ∨ cs.take n = ['\r', '\n']
  | .comment n | .number n | .operator n | .word n => 0 < n ∧ n ≤ reach cs
  | .tripleQuote _ quote => isQuote quote = true ∧ quote ∈ cs
  | .string n quote => 0 < n ∧ isQuote quote = true ∧ quote ∈ cs

theorem quote_mem_of_stringOpening?
    (h : stringOpening? cs = some (letters, quote)) : quote ∈ cs := by
  unfold stringOpening? at h
  grind

theorem stringOpening?_of_tripleOpening?
    (h : tripleOpening? cs = some (letters, quote)) :
    stringOpening? cs = some (letters, quote) := by
  unfold tripleOpening? at h
  grind

theorem fits_of_lexeme? {x : Lexeme} (h : lexeme? cs = some x) : x.Fits cs := by
  unfold lexeme? at h
  split at h
  · cases h
    rfl
  · cases h
    exact .inl rfl
  · cases h
    exact .inr rfl
  · rename_i rest
    cases h
    have hle := length_takeWhile_le_reach (p := fun c => c != '\r' && c != '\n') (by decide) rest
    refine ⟨by omega, ?_⟩
    rw [reach_cons (by decide)]
    exact Nat.add_le_add_left hle 1
  · cases h
    exact .inl rfl
  · cases h
    exact .inr rfl
  · split at h
    · rename_i letters quote htriple
      cases h
      have hopening := stringOpening?_of_tripleOpening? htriple
      exact ⟨isQuote_of_stringOpening? hopening, quote_mem_of_stringOpening? hopening⟩
    · dsimp only at h
      split at h
      · rename_i hpos
        cases h
        exact ⟨hpos, numberRun_le_reach cs⟩
      split at h
      · rename_i hpos
        cases h
        exact ⟨hpos, operatorRun_le_reach cs⟩
      split at h
      · rename_i length quote hstring
        cases h
        split at hstring
        · rename_i letters quote' hopening
          obtain ⟨n, -, heq⟩ := Option.map_eq_some_iff.mp hstring
          cases heq
          exact ⟨by omega, isQuote_of_stringOpening? hopening, quote_mem_of_stringOpening? hopening⟩
        · cases hstring
      · split at h
        · rename_i hpos
          cases h
          exact ⟨hpos, length_takeWhile_le_reach (by decide +kernel) cs⟩
        · cases h

theorem Lexeme.Fits.mark_last (h : (Lexeme.continuation n).Fits cs)
    (hfeed : Text.FeedLast cs) : cs.drop n = [] ∧ cs.getLast? = some '\n' := by
  have hcut := (List.take_append_drop n cs).symm
  have hnil : cs.drop n = [] := by
    rcases h with htake | htake
    all_goals
      rw [htake] at hcut
      rw [hcut] at hfeed
    · exact Text.FeedLast.eq_nil ['\\'] hfeed
    · exact Text.FeedLast.eq_nil ['\\', '\r'] hfeed
  refine ⟨hnil, ?_⟩
  rw [hcut, hnil, List.append_nil]
  rcases h with htake | htake <;> rw [htake] <;> rfl

/-- The code points of blanks, other than line feeds and the blanks within lines. -/
def outerBlanks : List Nat :=
  [0xb, 0xd, 0x1c, 0x1d, 0x1e, 0x1f, 0x85, 0xa0, 0x1680, 0x2000, 0x2001, 0x2002, 0x2003, 0x2004,
   0x2005, 0x2006, 0x2007, 0x2008, 0x2009, 0x200a, 0x2028, 0x2029, 0x202f, 0x205f, 0x3000]

theorem mem_outerBlanks (hblank : Text.isBlank c = true)
    (hinline : Text.isInlineBlank c = false) (hfeed : c ≠ '\n') : c.toNat ∈ outerBlanks := by
  have hne : ∀ d : Char, c ≠ d → c.toNat ≠ d.toNat := fun d h heq =>
    h (Char.toNat_inj.mp heq)
  simp only [Text.isInlineBlank, Bool.or_eq_false_iff, beq_eq_false_iff_ne] at hinline
  have hspace := hne ' ' hinline.1.1
  have htab := hne '\t' hinline.1.2
  have hform := hne '\x0c' hinline.2
  have hline := hne '\n' hfeed
  simp only [Text.isBlank, Text.inRanges, Text.blankRanges] at hblank
  simp at hblank hspace htab hform hline
  simp [outerBlanks]
  omega

/-- A character that starts neither a string nor a number, an operator or a word. -/
structure Dull (c : Char) : Prop where
  quote : isQuote c = false
  letter : isSinglePrefix c = false
  digit : c.isDigit = false
  others : c ∉ ['\\', '#', '.', '0']
  word : Text.isWord c = false
  operator : ∀ op ∈ operators, op.toList.head? ≠ some c

theorem Dull.of_blank (hblank : Text.isBlank c = true)
    (hinline : Text.isInlineBlank c = false) (hfeed : c ≠ '\n') : Dull c := by
  have hdull : ∀ n ∈ outerBlanks, isQuote (Char.ofNat n) = false ∧
      isSinglePrefix (Char.ofNat n) = false ∧ (Char.ofNat n).isDigit = false ∧
      Char.ofNat n ∉ ['\\', '#', '.', '0'] ∧ Text.isWord (Char.ofNat n) = false ∧
      ∀ op ∈ operators, op.toList.head? ≠ some (Char.ofNat n) := by
    decide +kernel
  have hc := hdull c.toNat (mem_outerBlanks hblank hinline hfeed)
  rw [Char.ofNat_toNat] at hc
  exact ⟨hc.1, hc.2.1, hc.2.2.1, hc.2.2.2.1, hc.2.2.2.2.1, hc.2.2.2.2.2⟩

namespace Dull

variable {c : Char} {cs : List Char}

theorem stringOpening?_eq (h : Dull c) : stringOpening? (c :: cs) = none := by
  have hpair : ∀ b, isPairPrefix c b = false := by
    intro b
    have hletter := h.letter
    simp only [isSinglePrefix, Bool.or_eq_false_iff, decide_eq_false_iff_not] at hletter
    simp [isPairPrefix, hletter.1.1.1, hletter.1.1.2, hletter.2]
  unfold stringOpening?
  simp only [h.quote, h.letter, hpair, Bool.and_false, Bool.false_eq_true, if_false]
  split
  · split
    · rfl
    · split <;> rfl
  · rfl

theorem numberRun_eq (h : Dull c) : numberRun (c :: cs) = 0 := by
  have hothers := h.others
  simp only [List.mem_cons, List.not_mem_nil, or_false, not_or] at hothers
  have hdigits : digitRun (c :: cs) = 0 := by simp [digitRun, h.digit]
  have hpoint : pointFloatRun (c :: cs) = 0 := by
    unfold pointFloatRun
    simp only [hdigits, List.drop_zero]
    split
    · rename_i heq
      exact absurd (List.cons.inj heq).1 hothers.2.2.1
    · rfl
  have hexponent : exponentFloatRun (c :: cs) = 0 := by simp [exponentFloatRun, hdigits]
  have hmarked : ∀ mark p, markedRun mark p (c :: cs) = 0 := by
    intro mark p
    unfold markedRun
    split
    · rename_i heq
      exact absurd (List.cons.inj heq).1 hothers.2.2.2
    · rfl
  have hdecimal : decimalRun (c :: cs) = 0 := by
    unfold decimalRun
    split
    · rename_i heq
      exact absurd (List.cons.inj heq).1 hothers.2.2.2
    · rename_i heq
      cases heq
      simp [h.digit]
    · rfl
  simp [numberRun, hdigits, hpoint, hexponent, hmarked, hdecimal]

theorem operatorRun_eq (h : Dull c) : operatorRun (c :: cs) = 0 := by
  have hnonempty : ∀ op ∈ operators, op.toList ≠ [] := by decide
  have hnone : operators.find? (fun op => op.toList.isPrefixOf (c :: cs)) = none := by
    refine List.find?_eq_none.mpr fun op hop hstart => h.operator op hop ?_
    obtain ⟨d, ds, hd⟩ := List.exists_cons_of_ne_nil (hnonempty op hop)
    rw [hd, List.isPrefixOf_iff_prefix, List.cons_prefix_cons] at hstart
    rw [hd, hstart.1]
    rfl
  rw [operatorRun, hnone]

/-- Such a character starts no lexeme, unless it is a carriage return before a line feed. -/
theorem lexeme?_eq (h : Dull c) (hfeed : c ≠ '\n') (hreturn : c = '\r' → cs.head? ≠ some '\n') :
    lexeme? (c :: cs) = none := by
  have hothers := h.others
  simp only [List.mem_cons, List.not_mem_nil, or_false, not_or] at hothers
  have htriple : tripleOpening? (c :: cs) = none := by
    rw [tripleOpening?, h.stringOpening?_eq]
  unfold lexeme?
  split
  · rename_i heq
    cases heq
  · rename_i heq
    exact absurd (List.cons.inj heq).1 hothers.1
  · rename_i heq
    exact absurd (List.cons.inj heq).1 hothers.1
  · rename_i heq
    exact absurd (List.cons.inj heq).1 hothers.2.1
  · rename_i heq
    exact absurd (List.cons.inj heq).1 hfeed
  · rename_i heq
    cases heq
    exact absurd rfl (hreturn rfl)
  · simp [htriple, h.numberRun_eq, h.operatorRun_eq, h.stringOpening?_eq, h.word]

end Dull

end Source

end LintRunner
