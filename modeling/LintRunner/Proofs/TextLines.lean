import LintRunner.Text.Basic
import LintRunner.Text.Lines

/-!
# Texts laid out in lines

A text consists of lines and of the ends between them: a carriage return with a line feed, or any
one character that ends a line. Cutting it gives back the lines, except that an empty line after the
last end does not count.
-/

namespace LintRunner.Text

def OneLine (line : List Char) : Prop := ∀ c ∈ line, isLineEnd c = false

instance (line : List Char) : Decidable (OneLine line) := by
  delta OneLine
  infer_instance

/-- A line end before the rest of a text; a carriage return and the line feed after it are not
divided. -/
inductive EndsLine : List Char → List Char → Prop
  | pair (rest : List Char) : EndsLine ['\r', '\n'] rest
  | single {c : Char} {rest : List Char} (hc : isLineEnd c = true)
      (hrest : c = '\r' → rest.head? ≠ some '\n') : EndsLine [c] rest

/-- The text consists of the lines with a line end after each, or after each but the last. -/
inductive LaidOut : List Char → List (List Char) → Prop
  | nil : LaidOut [] []
  | last {line : List Char} (hline : OneLine line) : LaidOut line [line]
  | cons {line stop rest : List Char} {lines : List (List Char)} (hline : OneLine line)
      (hstop : EndsLine stop rest) (hrest : LaidOut rest lines) :
      LaidOut (line ++ (stop ++ rest)) (line :: lines)

variable {line stop rest : List Char} {lines : List (List Char)}

def fed (lines : List (List Char)) : List Char := lines.flatMap (· ++ ['\n'])

theorem laidOut_fed (h : ∀ line ∈ lines, OneLine line) : LaidOut (fed lines) lines := by
  induction lines with
  | nil => exact LaidOut.nil
  | cons line lines ih =>
    obtain ⟨hline, hlines⟩ := List.forall_mem_cons.mp h
    have hstop : EndsLine ['\n'] (fed lines) := EndsLine.single rfl fun h => absurd h (by decide)
    have hcons := LaidOut.cons hline hstop (ih hlines)
    rw [fed, List.flatMap_cons, List.append_assoc]
    exact hcons

def fedText (lines : List (List Char)) : String := String.ofList (fed lines)

theorem laidOut_fedText (h : ∀ line ∈ lines, OneLine line) :
    LaidOut (fedText lines).toList lines := by
  rw [fedText, String.toList_ofList]
  exact laidOut_fed h

theorem ne_return_of_oneLine {c : Char} (hc : isLineEnd c = false) : c ≠ '\r' := by
  rintro rfl
  exact absurd hc (by decide)

theorem wideLines_cons {c : Char} (hc : isLineEnd c = false) (cs : List Char) :
    wideLines (c :: cs) = consToFirst c (wideLines cs) := by
  have hne := ne_return_of_oneLine hc
  rw [wideLines]
  · simp [hc]
  · exact fun _ h => absurd h hne

theorem wideLines_append (hline : OneLine line) {tail first : List Char} {more : List (List Char)}
    (htail : wideLines tail = first :: more) :
    wideLines (line ++ tail) = (line ++ first) :: more := by
  induction line with
  | nil => exact htail
  | cons c line ih =>
    have hc : isLineEnd c = false := hline c List.mem_cons_self
    have hrest : OneLine line := fun x hx => hline x (List.mem_cons_of_mem c hx)
    rw [List.cons_append, wideLines_cons hc, ih hrest]
    rfl

theorem EndsLine.wideLines_eq (h : EndsLine stop rest) :
    wideLines (stop ++ rest) = stop :: wideLines rest := by
  cases h with
  | pair => rfl
  | @single c _ hc hrest =>
    rw [List.singleton_append, wideLines]
    · simp [hc]
    · rintro cs rfl rfl
      exact hrest rfl rfl

theorem wideLines_of_oneLine (hline : OneLine line) (hne : line ≠ []) :
    wideLines line = [line] := by
  induction line with
  | nil => exact absurd rfl hne
  | cons c line ih =>
    have hc : isLineEnd c = false := hline c List.mem_cons_self
    have hrest : OneLine line := fun x hx => hline x (List.mem_cons_of_mem c hx)
    rw [wideLines_cons hc]
    cases line with
    | nil => rfl
    | cons d line =>
      rw [ih hrest (by simp)]
      rfl

theorem dropLineEnd_of_oneLine (hline : OneLine line) : dropLineEnd line = line := by
  unfold dropLineEnd
  split
  · next rest hreverse =>
      have hmem : '\n' ∈ line := List.mem_reverse.mp (by simp [hreverse])
      exact absurd (hline '\n' hmem) (by decide)
  · next c rest _ hreverse =>
      have hmem : c ∈ line := List.mem_reverse.mp (by simp [hreverse])
      rw [if_neg (by simp [hline c hmem])]
  · next hreverse => exact (List.reverse_eq_nil_iff.mp hreverse).symm

theorem dropLineEnd_append (hline : OneLine line) (hstop : EndsLine stop rest) :
    dropLineEnd (line ++ stop) = line := by
  cases hstop with
  | pair => simp [dropLineEnd]
  | @single c _ hc =>
    have hreverse : (line ++ [c]).reverse = c :: line.reverse := by simp
    unfold dropLineEnd
    split
    · next rest h =>
        have hmem : '\r' ∈ line := by
          rw [hreverse, List.cons.injEq] at h
          exact List.mem_reverse.mp (by simp [h.2])
        exact absurd (hline '\r' hmem) (by decide)
    · next d rest _ h =>
        rw [hreverse, List.cons.injEq] at h
        obtain ⟨rfl, rfl⟩ := h
        rw [if_pos hc, List.reverse_reverse]
    · next h => simp at h

theorem LaidOut.lines_eq {text : List Char} (h : LaidOut text lines) :
    (wideLines text).map dropLineEnd = lines ∨
      (wideLines text).map dropLineEnd ++ [[]] = lines := by
  induction h with
  | nil => exact Or.inl rfl
  | @last line hline =>
    by_cases hne : line = []
    · subst hne
      exact Or.inr rfl
    · rw [wideLines_of_oneLine hline hne, List.map_singleton, dropLineEnd_of_oneLine hline]
      exact Or.inl rfl
  | cons hline hstop _ ih =>
    rw [wideLines_append hline hstop.wideLines_eq, List.map_cons, dropLineEnd_append hline hstop,
      List.cons_append]
    exact ih.imp (congrArg _) (congrArg _)

end LintRunner.Text
