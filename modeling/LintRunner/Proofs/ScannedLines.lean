import LintRunner.Proofs.Lexemes

/-!
# Scanning a line

Scanning cuts a line into tokens. A line that has a line feed at its end goes on in the next line
inside a string, goes on behind a continuation mark, or ends with a token for the line feed.
-/

namespace LintRunner.Source

/-- The line goes on in the next one behind a mark. -/
structure Scan.Marked (s : Scan) : Prop where
  continued : s.continued = true
  openString : s.openString = none
  tokens : ∀ t ∈ s.tokens, t.isNewline = false

variable {row fuel : Nat} {line : String} {depth : Int} {continued : Bool}

theorem Scan.Marked.cons {s : Scan} (h : s.Marked) {t : Token} (ht : t.isNewline = false) :
    (s.cons t).Marked :=
  ⟨h.continued, h.openString, List.forall_mem_cons.mpr ⟨ht, h.tokens⟩⟩

theorem scanFrom_nil (row : Nat) (line : String) (fuel col : Nat) (depth : Int) (continued : Bool) :
    scanFrom row line fuel col [] depth continued = ⟨[], depth, continued, none⟩ := by
  cases fuel <;> rfl

theorem isInlineBlank_isBlank {c : Char} (h : Text.isInlineBlank c = true) :
    Text.isBlank c = true := by
  simp only [Text.isInlineBlank, Bool.or_eq_true, beq_iff_eq] at h
  rcases h with (rfl | rfl) | rfl <;> decide

theorem drop_length_takeWhile (p : Char → Bool) (cs : List Char) :
    cs.drop (cs.takeWhile p).length = cs.dropWhile p := by
  calc cs.drop (cs.takeWhile p).length
      = (cs.takeWhile p ++ cs.dropWhile p).drop (cs.takeWhile p).length := by
        rw [List.takeWhile_append_dropWhile]
    _ = cs.dropWhile p := List.drop_left

theorem take_length_takeWhile (p : Char → Bool) (cs : List Char) :
    cs.take (cs.takeWhile p).length = cs.takeWhile p := by
  calc cs.take (cs.takeWhile p).length
      = (cs.takeWhile p ++ cs.dropWhile p).take (cs.takeWhile p).length := by
        rw [List.takeWhile_append_dropWhile]
    _ = cs.takeWhile p := List.take_left

theorem dropWhile_isBlank_dropWhile (cs : List Char) :
    (cs.dropWhile Text.isInlineBlank).dropWhile Text.isBlank = cs.dropWhile Text.isBlank := by
  induction cs with
  | nil => rfl
  | cons c cs ih =>
    by_cases hc : Text.isInlineBlank c = true
    · rw [List.dropWhile_cons_of_pos hc, List.dropWhile_cons_of_pos (isInlineBlank_isBlank hc), ih]
    · rw [List.dropWhile_cons_of_neg hc]

theorem scanFrom_marked {col : Nat} {rest : List Char} (hfeed : Text.FeedLast rest)
    (hfuel : rest.length < fuel)
    (hmark : rest.dropWhile Text.isBlank = ['\\', '\n']) :
    (scanFrom row line fuel col rest depth continued).Marked := by
  induction fuel generalizing col rest depth continued with
  | zero => omega
  | succ fuel ih =>
    have hbody : Text.FeedLast (rest.dropWhile Text.isInlineBlank) := by
      rw [← drop_length_takeWhile]
      exact hfeed.drop _
    have hstop := List.head?_dropWhile_not Text.isInlineBlank rest
    have hmarked := (dropWhile_isBlank_dropWhile rest).trans hmark
    cases rest with
    | nil => cases hmark
    | cons d ds =>
      rw [scanFrom, if_neg (by simp)]
      dsimp only
      rw [drop_length_takeWhile]
      cases hcut : (d :: ds).dropWhile Text.isInlineBlank with
      | nil =>
        rw [hcut] at hmarked
        cases hmarked
      | cons c cs =>
        rw [hcut] at hmarked hbody hstop
        by_cases hblank : Text.isBlank c = true
        · rw [List.dropWhile_cons_of_pos hblank] at hmarked
          have hfeedc : c ≠ '\n' := by
            rintro rfl
            have hcs : cs = [] := Text.FeedLast.eq_nil [] hbody
            rw [hcs] at hmarked
            cases hmarked
          have hreturn : c = '\r' → cs.head? ≠ some '\n' := by
            rintro rfl hhead
            obtain ⟨es, rfl⟩ := List.head?_eq_some_iff.mp hhead
            have hes : es = [] := Text.FeedLast.eq_nil ['\r'] hbody
            rw [hes] at hmarked
            cases hmarked
          have hdull := Dull.of_blank hblank (by simpa using hstop) hfeedc
          have hd : Text.isBlank d = true := by
            by_cases hinline : Text.isInlineBlank d = true
            · exact isInlineBlank_isBlank hinline
            · rw [List.dropWhile_cons_of_neg hinline] at hcut
              cases hcut
              exact hblank
          rw [List.dropWhile_cons_of_pos hd] at hmark
          rw [hdull.lexeme?_eq hfeedc hreturn]
          refine (ih (hfeed.drop 1) ?_ hmark).cons rfl
          exact Nat.lt_of_succ_lt_succ hfuel
        · rw [List.dropWhile_cons_of_neg hblank] at hmarked
          rw [hmarked]
          change (scanFrom row line fuel _ [] depth true).Marked
          rw [scanFrom_nil]
          exact ⟨rfl, rfl, List.forall_mem_nil _⟩

/-- A token on one row, with the text behind it in its line. -/
structure Token.Cut (row : Nat) (line : String) (t : Token) (after : List Char) : Prop where
  start_row : t.start.row = row
  stop_row : t.stop.row = row
  line_eq : t.line = line
  after_eq : ∃ col : Nat, t.stop.col = col ∧ line.toList.drop col = after
  newline : t.isNewline = true → t.text.toList.getLast? = some '\n'
  inner : t.isNewline = false → '\n' ∉ t.text.toList

structure OpenString.LeftOpen (row : Nat) (line : String) (o : OpenString) : Prop where
  start_eq : ∃ col : Nat, o.start = ⟨row, col⟩ ∧ o.text.toList = line.toList.drop col
  line_eq : o.line = line
  quote : isQuote o.close.quote = true
  mem : o.close.quote ∈ o.text.toList

/-- What scanning finds in the rest of a line in which a line feed stands nowhere but at the end. -/
inductive Scans (row : Nat) (line : String) (continued : Bool) : List Char → Scan → Prop
  | blank {rest : List Char} {depth : Int} (hrest : ∀ c ∈ rest, Text.isInlineBlank c = true) :
      Scans row line continued rest ⟨[], depth, continued, none⟩
  | mark {rest : List Char} {depth : Int} (hrest : rest.getLast? = some '\n') :
      Scans row line continued rest ⟨[], depth, true, none⟩
  /-- A string does not end in the line. -/
  | opens {rest : List Char} {depth : Int} {o : OpenString} (hrest : rest ≠ [])
      (ho : o.LeftOpen row line) :
      Scans row line continued rest ⟨[], depth, continued, some o⟩
  | token {rest blanks after : List Char} {t : Token} {s : Scan}
      (hblanks : ∀ c ∈ blanks, Text.isInlineBlank c = true)
      (htext : t.text.toList ≠ []) (hrest : rest = blanks ++ (t.text.toList ++ after))
      (ht : t.Cut row line after)
      (hmark : after.dropWhile Text.isBlank = ['\\', '\n'] → s.Marked)
      (hs : Scans row line continued after s) : Scans row line continued rest (s.cons t)

theorem drop_length_take (n : Nat) (cs : List Char) : cs.drop (cs.take n).length = cs.drop n := by
  rw [List.length_take]
  rcases Nat.le_total n cs.length with h | h
  · rw [Nat.min_eq_left h]
  · rw [Nat.min_eq_right h, List.drop_of_length_le h, List.drop_length]

/-- What less than the fuel is left of a line is scanned as `Scans` says. -/
def ScansLess (row : Nat) (line : String) (continued : Bool) (fuel : Nat) : Prop :=
  ∀ col (rest : List Char) depth, rest = line.toList.drop col → rest.length < fuel →
    Scans row line continued rest (scanFrom row line fuel col rest depth continued)

/-- Scanning has come to the body of the rest of a line, behind its blanks. -/
structure Arrived (line : String) (fuel start : Nat) (rest blanks body : List Char) : Prop where
  feed : Text.FeedLast line.toList
  rest_eq : rest = blanks ++ body
  blank : ∀ c ∈ blanks, Text.isInlineBlank c = true
  body_eq : body = line.toList.drop start
  fuel : rest.length ≤ fuel

namespace Arrived

variable {start n : Nat} {rest blanks body : List Char} {kind : TokenKind}

theorem feedLast (h : Arrived line fuel start rest blanks body) : Text.FeedLast body := by
  rw [h.body_eq]
  exact h.feed.drop start

theorem emit (h : Arrived line fuel start rest blanks body)
    (hscans : ScansLess row line continued fuel) (hn : 0 < n) (hne : body ≠ [])
    (hnewline : (tokenAt kind (body.take n) row start line).isNewline = true →
      (body.take n).getLast? = some '\n')
    (hinner : (tokenAt kind (body.take n) row start line).isNewline = false → '\n' ∉ body.take n)
    (depth : Int) :
    Scans row line continued rest
      ((scanFrom row line fuel (start + n) (body.drop n) depth continued).cons
        (tokenAt kind (body.take n) row start line)) := by
  have hpos : 0 < body.length := List.length_pos_iff.mpr hne
  have hless : (body.drop n).length < fuel := by
    have hlength := congrArg List.length h.rest_eq
    rw [List.length_append] at hlength
    have hfuel := h.fuel
    rw [List.length_drop]
    omega
  have htext : (tokenAt kind (body.take n) row start line).text.toList = body.take n :=
    String.toList_ofList
  refine .token h.blank ?_ ?_ ?_ (fun hmark => ?_) (hscans _ _ _ ?_ hless)
  · rw [htext, ← List.length_pos_iff, List.length_take]
    omega
  · rw [htext, List.take_append_drop, h.rest_eq]
  · refine ⟨rfl, rfl, rfl, ⟨start + (body.take n).length, rfl, ?_⟩, ?_, ?_⟩
    · rw [← List.drop_drop, ← h.body_eq, drop_length_take]
    · rw [htext]
      exact hnewline
    · rw [htext]
      exact hinner
  · exact scanFrom_marked (h.feedLast.drop n) hless hmark
  · rw [h.body_eq, List.drop_drop]

/-- A lexeme without a line feed. -/
theorem emit_within (h : Arrived line fuel start rest blanks body)
    (hscans : ScansLess row line continued fuel) (hfits : 0 < n ∧ n ≤ reach body)
    (hnewline : kind ≠ .newline) (hbreak : kind ≠ .lineBreak) (depth : Int) :
    Scans row line continued rest
      ((scanFrom row line fuel (start + n) (body.drop n) depth continued).cons
        (tokenAt kind (body.take n) row start line)) := by
  obtain ⟨hn, hreach⟩ := hfits
  have hne : body ≠ [] := by
    rintro rfl
    exact absurd (hn.trans_le hreach) (Nat.lt_irrefl 0)
  refine h.emit hscans hn hne (fun hline => ?_) (fun _ => not_mem_take_of_le_reach hreach) depth
  simp [tokenAt, Token.isNewline, hnewline, hbreak] at hline

/-- A character that starts no lexeme. The blanks before it are told as such characters too. -/
theorem emit_stray {col : Nat} (h : Arrived line fuel start rest blanks body)
    (hscans : ScansLess row line continued fuel) (hrest : rest = line.toList.drop col)
    (hne : rest ≠ []) (hnone : lexeme? body = none) (depth : Int) :
    Scans row line continued rest
      ((scanFrom row line fuel (col + 1) (rest.drop 1) depth continued).cons
        (tokenAt .errorToken (rest.take 1) row col line)) := by
  have hhead : '\n' ∉ rest.take 1 := by
    intro hmem
    obtain ⟨cs, hcs⟩ : ∃ cs, rest = '\n' :: cs := by
      cases rest with
      | nil => cases hmem
      | cons c cs =>
        obtain rfl : '\n' = c := by simpa using hmem
        exact ⟨cs, rfl⟩
    cases hblanks : blanks with
    | nil =>
      have hbody : body = '\n' :: cs := by rw [← hcs, h.rest_eq, hblanks, List.nil_append]
      rw [hbody] at hnone
      cases hnone
    | cons b bs =>
      have hfeed : '\n' = b := by
        have hsame := hcs.symm.trans h.rest_eq
        rw [hblanks] at hsame
        exact (List.cons.inj hsame).1
      exact absurd (h.blank b (by rw [hblanks]; exact List.mem_cons_self)) (by rw [← hfeed]; decide)
  have hstray : Arrived line fuel col rest [] rest :=
    ⟨h.feed, rfl, List.forall_mem_nil _, hrest, h.fuel⟩
  exact hstray.emit hscans Nat.one_pos hne (fun hline => by cases hline) (fun _ => hhead) depth

theorem emit_newline (h : Arrived line fuel start rest blanks body)
    (hscans : ScansLess row line continued fuel) (hfits : (Lexeme.newline n).Fits body)
    (depth : Int) :
    Scans row line continued rest
      ((scanFrom row line fuel (start + n) (body.drop n) depth continued).cons
        (tokenAt (if 0 < depth then .lineBreak else .newline) (body.take n) row start line)) := by
  have hlast : (body.take n).getLast? = some '\n' := by
    rcases hfits with htake | htake <;> rw [htake] <;> rfl
  have hne : body.take n ≠ [] := fun hnil => by simp [hnil] at hlast
  refine h.emit hscans (Nat.pos_of_ne_zero ?_) ?_ (fun _ => hlast) (fun hline => ?_) depth
  · rintro rfl
    exact hne List.take_zero
  · rintro rfl
    exact hne List.take_nil
  · split at hline <;> cases hline

theorem opens {quote : Char} {triple escaped : Bool} (h : Arrived line fuel start rest blanks body)
    (hne : rest ≠ []) (hquote : isQuote quote = true) (hmem : quote ∈ body) (depth : Int) :
    Scans row line continued rest ⟨[], depth, continued,
      some ⟨String.ofList body, ⟨row, start⟩, line, ⟨quote, triple⟩, escaped⟩⟩ := by
  refine .opens hne ⟨⟨start, rfl, ?_⟩, rfl, hquote, ?_⟩
  · rw [String.toList_ofList, h.body_eq]
  · rw [String.toList_ofList]
    exact hmem

/-- A string that ends in the line, though not with the line feed. -/
theorem emit_string {quote : Char} (h : Arrived line fuel start rest blanks body)
    (hscans : ScansLess row line continued fuel) (hn : 0 < n) (hmem : quote ∈ body)
    (hlast : (body.take n).getLast? ≠ some '\n') (depth : Int) :
    Scans row line continued rest
      ((scanFrom row line fuel (start + n) (body.drop n) depth continued).cons
        (tokenAt .string (body.take n) row start line)) :=
  h.emit hscans hn (List.ne_nil_of_mem hmem) (fun hline => by cases hline)
    (fun _ => h.feedLast.not_mem_take hlast) depth

end Arrived

theorem scanFrom_scans {col : Nat} {rest : List Char} (hfeed : Text.FeedLast line.toList)
    (hrest : rest = line.toList.drop col) (hfuel : rest.length < fuel) :
    Scans row line continued rest (scanFrom row line fuel col rest depth continued) := by
  induction fuel generalizing col rest depth with
  | zero => omega
  | succ fuel ih =>
    have hscans : ScansLess row line continued fuel := fun _ _ _ => ih
    have harrived : Arrived line fuel (col + (rest.takeWhile Text.isInlineBlank).length) rest
        (rest.takeWhile Text.isInlineBlank) (rest.dropWhile Text.isInlineBlank) := by
      refine ⟨hfeed, List.takeWhile_append_dropWhile.symm, fun c => List.mem_takeWhile_imp, ?_,
        Nat.lt_succ_iff.mp hfuel⟩
      rw [← drop_length_takeWhile, hrest, List.drop_drop]
    rw [scanFrom]
    split
    · rename_i hempty
      rw [List.isEmpty_iff.mp hempty]
      exact .blank (List.forall_mem_nil _)
    rename_i hne
    replace hne : rest ≠ [] := by simpa using hne
    dsimp only
    rw [drop_length_takeWhile]
    generalize col + (rest.takeWhile Text.isInlineBlank).length = start at harrived ⊢
    generalize rest.dropWhile Text.isInlineBlank = body at harrived ⊢
    split
    · rename_i hnone
      exact harrived.emit_stray hscans hrest hne hnone depth
    · rename_i hlexeme
      have hnil : body = [] := fits_of_lexeme? hlexeme
      rw [harrived.rest_eq, hnil, List.append_nil]
      exact .blank harrived.blank
    · rename_i n hlexeme
      obtain ⟨hnil, hlast⟩ := (fits_of_lexeme? hlexeme).mark_last harrived.feedLast
      rw [hnil, scanFrom_nil]
      refine .mark ?_
      rw [harrived.rest_eq, List.getLast?_append, hlast]
      rfl
    · rename_i n hlexeme
      exact harrived.emit_within hscans (fits_of_lexeme? hlexeme) (by decide) (by decide) depth
    · rename_i n hlexeme
      exact harrived.emit_within hscans (fits_of_lexeme? hlexeme) (by decide) (by decide) depth
    · rename_i n hlexeme
      exact harrived.emit_newline hscans (fits_of_lexeme? hlexeme) depth
    · rename_i n hlexeme
      exact harrived.emit_within hscans (fits_of_lexeme? hlexeme) (by decide) (by decide) _
    · rename_i n hlexeme
      refine harrived.emit_within hscans (fits_of_lexeme? hlexeme) ?_ ?_ depth <;> split <;> decide
    · rename_i letters quote hlexeme
      obtain ⟨hquote, hmem⟩ := fits_of_lexeme? hlexeme
      split
      · rename_i m hend
        refine harrived.emit_string hscans (by omega) hmem (fun heq => ?_) depth
        rw [List.take_add, List.getLast?_append, (stringEnd?_spec hend).2] at heq
        cases heq
        cases hquote
      · exact harrived.opens hne hquote hmem depth
    · rename_i n quote hlexeme
      obtain ⟨hn, hquote, hmem⟩ := fits_of_lexeme? hlexeme
      split
      · exact harrived.opens hne hquote hmem depth
      · rename_i hlast
        exact harrived.emit_string hscans hn hmem hlast depth

theorem Token.Cut.endsLine_iff {t : Token} {after : List Char}
    (h : t.Cut row line after) :
    t.endsLine = true ↔ t.isNewline = true ∨ after.dropWhile Text.isBlank = ['\\', '\n'] := by
  obtain ⟨col, hcol, hafter⟩ := h.after_eq
  have hfrom : Token.textFrom t.line t.stop.col = after := by
    rw [Token.textFrom, hcol, if_pos (Int.natCast_nonneg col), Int.toNat_natCast, h.line_eq, hafter]
  rw [Token.endsLine, hfrom, Bool.or_eq_true, decide_eq_true_iff]
  rfl

namespace Scans

variable {row : Nat} {line : String} {continued : Bool} {rest : List Char} {s : Scan}

theorem exists_cut (h : Scans row line continued rest s) :
    ∀ t ∈ s.tokens, ∃ after, t.Cut row line after := by
  induction h with
  | blank | mark | opens => exact List.forall_mem_nil _
  | @token rest blanks after t s _ _ _ ht _ _ ih => exact List.forall_mem_cons.mpr ⟨⟨after, ht⟩, ih⟩

theorem leftOpen (h : Scans row line continued rest s) :
    ∀ o, s.openString = some o → o.LeftOpen row line := by
  induction h with
  | blank | mark =>
    intro o ho
    cases ho
  | opens _ hopen =>
    intro o ho
    cases ho
    exact hopen
  | token _ _ _ _ _ _ ih => exact ih

theorem getLast?_append_right {init last : List Char} (h : last ≠ []) :
    (init ++ last).getLast? = last.getLast? := by
  rw [List.getLast?_append, List.getLast?_eq_some_getLast h, Option.some_or]

theorem eq_of_nil (h : Scans row line continued [] s) :
    s.tokens = [] ∧ s.continued = continued ∧ s.openString = none := by
  cases h with
  | blank => exact ⟨rfl, rfl, rfl⟩
  | mark hrest => cases hrest
  | opens hrest => exact absurd rfl hrest
  | token _ htext hrest =>
    have := List.append_eq_nil_iff.mp (List.append_eq_nil_iff.mp hrest.symm).2
    exact absurd this.1 htext

theorem blank_of_nil (h : Scans row line continued rest s) (htokens : s.tokens = [])
    (hopen : s.openString = none) (hcontinued : s.continued = false) :
    ∀ c ∈ rest, Text.isInlineBlank c = true := by
  cases h with
  | blank hrest => exact hrest
  | mark => cases hcontinued
  | opens => cases hopen
  | token => cases htokens

/-- How a line with a line feed at its end may end: inside a string, with a mark, or with a token
for the line feed. In the last case that token is the only one that ends the line, and in the first
case there is none. -/
theorem outcome (h : Scans row line continued rest s) (hfeed : Text.FeedLast rest)
    (hlast : rest.getLast? = some '\n') :
    (∃ o, s.openString = some o) ∧ s.continued = continued ∧
        (∀ t ∈ s.tokens, t.endsLine = false) ∨ s.Marked ∨
      s.openString = none ∧ s.continued = continued ∧
        ∃ init t, s.tokens = init ++ [t] ∧ t.isNewline = true ∧ ∀ u ∈ init, u.endsLine = false := by
  induction h with
  | blank hrest =>
    have := hrest '\n' (List.mem_of_getLast? hlast)
    cases this
  | mark => exact .inr (.inl ⟨rfl, rfl, List.forall_mem_nil _⟩)
  | opens => exact .inl ⟨⟨_, rfl⟩, rfl, List.forall_mem_nil _⟩
  | @token rest blanks after t s hblanks htext hrest ht hmark hs ih =>
    cases hnewline : t.isNewline with
    | true =>
      obtain ⟨init, hinit⟩ := List.getLast?_eq_some_iff.mp (ht.newline hnewline)
      rw [hrest, hinit, List.append_assoc, ← List.append_assoc, List.singleton_append] at hfeed
      rw [hfeed.eq_nil] at hs
      obtain ⟨htokens, hcontinued, hopen⟩ := hs.eq_of_nil
      refine .inr (.inr ⟨hopen, hcontinued, [], t, ?_, hnewline, List.forall_mem_nil _⟩)
      rw [Scan.cons, htokens]
      rfl
    | false =>
      have hne : after ≠ [] := by
        rintro rfl
        rw [hrest, List.append_nil] at hlast
        rw [getLast?_append_right htext] at hlast
        exact ht.inner hnewline (List.mem_of_getLast? hlast)
      rw [hrest, ← List.append_assoc] at hfeed hlast
      have hafter : Text.FeedLast after := by
        have := hfeed.drop (blanks ++ t.text.toList).length
        rwa [List.drop_left] at this
      rw [getLast?_append_right hne] at hlast
      have hends : ¬s.Marked → t.endsLine = false := by
        intro hs
        rw [← Bool.not_eq_true, ht.endsLine_iff, not_or]
        exact ⟨by rw [hnewline]; simp, fun hblank => hs (hmark hblank)⟩
      rcases ih hafter hlast with ⟨⟨o, ho⟩, hsame, hnone⟩ | hmarked |
        ⟨hopen, hsame, init, nl, htokens, hnl, hinit⟩
      · refine .inl ⟨⟨o, ho⟩, hsame, List.forall_mem_cons.mpr ⟨hends fun hm => ?_, hnone⟩⟩
        rw [hm.openString] at ho
        cases ho
      · exact .inr (.inl (hmarked.cons hnewline))
      · refine .inr (.inr ⟨hopen, hsame, t :: init, nl, ?_, hnl, ?_⟩)
        · rw [Scan.cons, htokens]
          rfl
        · refine List.forall_mem_cons.mpr ⟨hends fun hm => ?_, hinit⟩
          have := hm.tokens nl (by rw [htokens]; simp)
          rw [hnl] at this
          cases this

theorem outcome_of_not_mem (h : Scans row line continued rest s) (hfeed : '\n' ∉ rest) :
    s.continued = continued ∧ ∀ t ∈ s.tokens, t.endsLine = false := by
  induction h with
  | blank | opens => exact ⟨rfl, List.forall_mem_nil _⟩
  | mark hrest => exact absurd (List.mem_of_getLast? hrest) hfeed
  | @token rest blanks after t s hblanks htext hrest ht hmark hs ih =>
    rw [hrest] at hfeed
    have hafter : '\n' ∉ after := fun hmem => hfeed (by simp [hmem])
    have hinner : '\n' ∉ t.text.toList := fun hmem => hfeed (by simp [hmem])
    refine ⟨(ih hafter).1, List.forall_mem_cons.mpr ⟨?_, (ih hafter).2⟩⟩
    rw [← Bool.not_eq_true, ht.endsLine_iff, not_or]
    refine ⟨fun hnewline => hinner (List.mem_of_getLast? (ht.newline hnewline)), fun hblank => ?_⟩
    have hmem : '\n' ∈ after.dropWhile Text.isBlank := by
      rw [hblank]
      simp
    exact hafter ((List.dropWhile_sublist _).subset hmem)

end Scans

end LintRunner.Source
