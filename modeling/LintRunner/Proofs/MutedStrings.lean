import LintRunner.Source.LogicalLine
import LintRunner.Source.Tokenizer
import Mathlib.Data.List.Induction

/-!
# Muted strings

A string literal is a body between two equal marks, a quote or three of them, with some letters
before. Muting it keeps letters and marks, and puts an `x` for every character of the body.
-/

namespace LintRunner.Source

/-- A string literal: a start without the quote, and a body between two equal marks. Between single
quotes, a quote in the body has a backslash before it. -/
inductive IsLiteral : List Char → Prop
  | short (start body : List Char) (quote : Char) (hquote : quote = '\'' ∨ quote = '"')
      (hstart : quote ∉ start)
      (hbody : ∀ left right, body = left ++ quote :: right → left.getLast? = some '\\') :
      IsLiteral (start ++ quote :: (body ++ [quote]))
  | long (start body : List Char) (quote : Char) (hquote : quote = '\'' ∨ quote = '"')
      (hstart : quote ∉ start) :
      IsLiteral (start ++ quote :: quote :: quote :: (body ++ [quote, quote, quote]))

variable {text start mark body : List Char} {quote : Char}

theorem not_three_quotes {left : List Char}
    (hquote : quote = '\'' ∨ quote = '"') (hstart : quote ∉ start)
    (hbody : ∀ left right, body = left ++ quote :: right → left.getLast? = some '\\') :
    start ++ quote :: (body ++ [quote]) ≠ left ++ [quote, quote, quote] := by
  intro h
  have hclosed : (start ++ quote :: body) ++ [quote] = (left ++ [quote, quote]) ++ [quote] := by
    simpa using h
  have hopen := (List.append_singleton_inj.mp hclosed).1
  rcases List.eq_nil_or_concat body with rfl | ⟨init, c, rfl⟩
  · have hbare : start ++ [quote] = (left ++ [quote]) ++ [quote] := by simpa using hopen
    have hin := (List.append_singleton_inj.mp hbare).1
    exact hstart (hin ▸ List.mem_append_right left List.mem_cons_self)
  · have hend : (start ++ quote :: init) ++ [c] = (left ++ [quote]) ++ [quote] := by
      simpa using hopen
    obtain ⟨hinit, rfl⟩ := List.append_singleton_inj.mp hend
    obtain ⟨deep, rfl⟩ := List.getLast?_eq_some_iff.mp (hbody init [] (by simp))
    have hdeep : (start ++ c :: deep) ++ ['\\'] = left ++ [c] := by simpa using hinit
    have hescape := (List.append_singleton_inj.mp hdeep).2
    rcases hquote with rfl | rfl <;> cases hescape

theorem endsInThree_iff :
    endsInThree text = true ↔
      ∃ left quote, (quote = '\'' ∨ quote = '"') ∧ text = left ++ [quote, quote, quote] := by
  have hdrop : ∀ quote, text.drop (text.length - 3) = [quote, quote, quote] ↔
      ∃ left, text = left ++ [quote, quote, quote] := by
    intro quote
    constructor
    · intro h
      exact ⟨text.take (text.length - 3), by rw [← h, List.take_append_drop]⟩
    · rintro ⟨left, rfl⟩
      simp
  simp only [endsInThree, Bool.or_eq_true, decide_eq_true_eq, hdrop]
  constructor
  · rintro (⟨left, h⟩ | ⟨left, h⟩)
    · exact ⟨left, '"', .inr rfl, h⟩
    · exact ⟨left, '\'', .inl rfl, h⟩
  · rintro ⟨left, quote, rfl | rfl, h⟩
    · exact .inr ⟨left, h⟩
    · exact .inl ⟨left, h⟩

/-- A string literal: what stands before the marks, and the body between them. -/
def literal (start mark body : List Char) : List Char := start ++ mark ++ body ++ mark

theorem length_literal (start mark body : List Char) :
    (literal start mark body).length = start.length + 2 * mark.length + body.length := by
  simp only [literal, List.length_append]
  omega

/-- The marks are found: the first by the first quote, and the length of both by the end. -/
theorem mute?_eq (hhead : mark.head? = some quote) (hlast : mark.getLast? = some quote)
    (hstart : quote ∉ start)
    (hthree : (if endsInThree (literal start mark body) then 2 else 0) + 1 = mark.length) :
    mute? (literal start mark body) =
      some (literal start mark (List.replicate body.length 'x')) := by
  have hlength := length_literal start mark body
  have hquote : (literal start mark body).getLast? = some quote := by
    rw [literal, List.getLast?_append, hlast, Option.some_or]
  have hfirst : (literal start mark body).takeWhile (· != quote) = start := by
    obtain ⟨rest, rfl⟩ := List.head?_eq_some_iff.mp hhead
    rw [literal, List.append_assoc, List.append_assoc, List.takeWhile_append_of_pos]
    · simp
    · intro c hc
      simpa using fun hcq : c = quote => hstart (hcq ▸ hc)
  simp only [mute?, hquote, hfirst]
  generalize (if endsInThree (literal start mark body) then 2 else 0) = more at hthree ⊢
  have hopen : (literal start mark body).take (start.length + 1 + more) = start ++ mark := by
    rw [literal, List.append_assoc (start ++ mark)]
    exact List.take_left' (by rw [List.length_append]; omega)
  have hclose : (literal start mark body).drop ((literal start mark body).length - 1 - more) =
      mark := by
    rw [hlength]
    exact List.drop_left' (by simp only [List.length_append]; omega)
  have hbody : (literal start mark body).length - 1 - more - (start.length + 1 + more) =
      body.length := by omega
  rw [hopen, hclose, hbody, literal]

theorem mute?_short (hquote : quote = '\'' ∨ quote = '"') (hstart : quote ∉ start)
    (hbody : ∀ left right, body = left ++ quote :: right → left.getLast? = some '\\') :
    mute? (literal start [quote] body) =
      some (literal start [quote] (List.replicate body.length 'x')) := by
  refine mute?_eq rfl rfl hstart ?_
  have hthree : endsInThree (literal start [quote] body) = false := by
    rw [Bool.eq_false_iff, ne_eq, endsInThree_iff]
    rintro ⟨left, other, -, h⟩
    have hclosed : start ++ [quote] ++ body ++ [quote] = (left ++ [other, other]) ++ [other] := by
      simpa [literal] using h
    obtain ⟨-, rfl⟩ := List.append_singleton_inj.mp hclosed
    exact not_three_quotes hquote hstart hbody (by simpa [literal] using h)
  rw [hthree]
  rfl

theorem mute?_long (hquote : quote = '\'' ∨ quote = '"') (hstart : quote ∉ start)
    (body : List Char) :
    mute? (literal start [quote, quote, quote] body) =
      some (literal start [quote, quote, quote] (List.replicate body.length 'x')) := by
  refine mute?_eq rfl rfl hstart ?_
  have hthree : endsInThree (literal start [quote, quote, quote] body) = true :=
    endsInThree_iff.mpr ⟨_, quote, hquote, rfl⟩
  rw [hthree]
  rfl

theorem exists_mute?_of_isLiteral (h : IsLiteral text) :
    ∃ muted, mute? text = some muted ∧ muted.length = text.length := by
  cases h with
  | short start body quote hquote hstart hbody =>
    have htext : start ++ quote :: (body ++ [quote]) = literal start [quote] body := by
      simp [literal]
    rw [htext]
    exact ⟨_, mute?_short hquote hstart hbody, by simp [length_literal]⟩
  | long start body quote hquote hstart =>
    have htext : start ++ quote :: quote :: quote :: (body ++ [quote, quote, quote]) =
        literal start [quote, quote, quote] body := by simp [literal]
    rw [htext]
    exact ⟨_, mute?_long hquote hstart body, by simp [length_literal]⟩

theorem isQuote_iff : isQuote quote = true ↔ quote = '\'' ∨ quote = '"' := by simp [isQuote]

/-- Muting keeps what stands before a literal and its marks, and puts an `x` for every character of
its body. So the length stays, no line feed and no quote of the body is left, and muting once more
changes nothing. -/
theorem mute?_literal (hquote : isQuote quote = true)
    (hmark : mark = [quote] ∨ mark = [quote, quote, quote])
    (hstart : ∀ c ∈ start, isQuote c = false)
    (hbody : mark = [quote] →
      ∀ left right, body = left ++ quote :: right → left.getLast? = some '\\') :
    ∃ muted, mute? (literal start mark body) = some muted ∧
      muted = literal start mark (List.replicate body.length 'x') ∧
      muted.length = (literal start mark body).length ∧
      muted.count '\n' = start.count '\n' ∧ muted.filter isQuote = mark ++ mark ∧
      mute? muted = some muted := by
  have hfree : quote ∉ start := fun hin => by simp [hstart quote hin] at hquote
  have hmute : ∀ inner : List Char,
      (mark = [quote] → ∀ left right, inner = left ++ quote :: right → left.getLast? = some '\\') →
      mute? (literal start mark inner) =
        some (literal start mark (List.replicate inner.length 'x')) := by
    intro inner hinner
    rcases hmark with rfl | rfl
    · exact mute?_short (isQuote_iff.mp hquote) hfree (hinner rfl)
    · exact mute?_long (isQuote_iff.mp hquote) hfree inner
  have hmarked : ∀ c ∈ mark, c = quote := by rcases hmark with rfl | rfl <;> simp
  refine ⟨_, hmute body hbody, rfl, by simp [length_literal], ?_, ?_, ?_⟩
  · have hfeed : mark.count '\n' = 0 := List.count_eq_zero.mpr fun hin => by
      rw [← hmarked _ hin] at hquote
      exact absurd hquote (by decide)
    simp [literal, hfeed, List.count_replicate]
  · have hkept : mark.filter isQuote = mark :=
      List.filter_eq_self.mpr fun c hc => hmarked c hc ▸ hquote
    have hgone : start.filter isQuote = [] :=
      List.filter_eq_nil_iff.mpr fun c hc => Bool.eq_false_iff.mp (hstart c hc)
    simp [literal, hkept, hgone, isQuote]
  · have hagain := hmute (List.replicate body.length 'x') fun _ left right h => ?_
    · simpa using hagain
    · have hin : quote ∈ List.replicate body.length 'x' := by simp [h]
      rw [List.eq_of_mem_replicate hin] at hquote
      exact absurd hquote (by decide)

/-- An escaped quote and a line feed in a body between double quotes. -/
theorem mute?_escaped_literal :
    mute? ['r', '"', '\\', '"', '\n', '"'] = some ['r', '"', 'x', 'x', 'x', '"'] := by
  have hbody : ∀ left right : List Char, ['\\', '"', '\n'] = left ++ '"' :: right →
      left.getLast? = some '\\' := by
    intro left right h
    rcases left with _ | ⟨a, _ | ⟨b, _ | ⟨c, left⟩⟩⟩ <;> simp at h
    rw [← h.1]
    rfl
  obtain ⟨muted, hmuted, rfl, -⟩ := @mute?_literal ['r'] ['"'] ['\\', '"', '\n'] '"' (by decide)
    (.inl rfl) (by decide) fun _ => hbody
  exact hmuted

end LintRunner.Source
