import LintRunner.Proofs.FedLines
import Mathlib.Data.List.GetD

/-!
# Tokens come with the line that they end on

A tokenizer is fed the lines of a file one after the other, and then empty lines. It is punctual if
every token that it gives ends on the line that was fed last, apart from tokens beyond the last line
at the end, and if the line feeds in a string tell how many rows it covers. The tokenizer of this
library is punctual on the lines of every file.
-/

namespace LintRunner.Source

namespace Feed

variable (feed : Feed) (lines : List String)

inductive Fed : (k : Nat) → TokenizerState → Prop
  | start : Fed 0 {}
  | next {k : Nat} {st st' : TokenizerState} {tokens : List Token} (h : Fed k st)
      (hgoes : st.finished = false) (hfeed : feed st (lines.getD k "") = .ok (tokens, st')) :
      Fed (k + 1) st'

/-- The tokens that the tokenizer gives when it is fed line `k`, counted from zero. -/
def Gives (k : Nat) (tokens : List Token) : Prop :=
  ∃ st st', Fed feed lines k st ∧ st.finished = false ∧
    feed st (lines.getD k "") = .ok (tokens, st')

/-- Every token ends on the line that was fed last. -/
structure Punctual : Prop where
  rows : ∀ {k tokens}, Gives feed lines k tokens → k < lines.length →
    ∀ t ∈ tokens, t.start.row ≤ t.stop.row ∧ t.stop.row = k + 1
  atEnd : ∀ {k tokens}, Gives feed lines k tokens → lines.length ≤ k →
    ∀ t ∈ tokens, t.stop.row = lines.length ∨ lines.length < t.start.row
  strings : ∀ {k tokens}, Gives feed lines k tokens → ∀ t ∈ tokens, t.kind = .string →
    t.start.row + t.text.toList.count '\n' = t.stop.row
  /-- The tokenizer asks for lines until there are no more. -/
  patient : ∀ {k st}, Fed feed lines k st → st.finished = true → lines.length ≤ k

variable {feed lines}

theorem Punctual.stop_eq (h : Punctual feed lines) {k : Nat} {tokens : List Token}
    (hgives : Gives feed lines k tokens) :
    ∀ t ∈ tokens, t.start.row ≤ lines.length → t.stop.row = (min (k + 1) lines.length : Nat) := by
  intro t ht hstart
  rcases Nat.lt_or_ge k lines.length with hk | hk
  · rw [(h.rows hgives hk t ht).2]
    omega
  · rcases h.atEnd hgives hk t ht with hstop | hbeyond
    · rw [hstop]
      omega
    · omega

end Feed

/-- Lines as they are read from a file: a line feed stands at the end of each, except perhaps of the
last, and nowhere else. -/
structure Ruled (lines : List String) : Prop where
  feedLast : ∀ line ∈ lines, Text.FeedLast line.toList
  ended : ∀ line ∈ lines.dropLast, '\n' ∈ line.toList

instance (lines : List String) : Decidable (Ruled lines) :=
  decidable_of_iff
    ((∀ line ∈ lines, '\n' ∉ line.toList.dropLast) ∧
      ∀ line ∈ lines.dropLast, '\n' ∈ line.toList)
    ⟨fun h => ⟨h.1, h.2⟩, fun h => ⟨h.feedLast, h.ended⟩⟩

variable {lines : List String} {k : Nat} {st st' : TokenizerState} {tokens : List Token}

theorem Ruled.getD_mem (hk : k < lines.length) : lines.getD k "" ∈ lines := by
  rw [List.getD_eq_getElem lines "" hk]
  exact List.getElem_mem hk

theorem Ruled.feed_mem (h : Ruled lines) {past more : List String} {line : String}
    (hlines : lines = past ++ more) (hmore : more ≠ []) (hline : line ∈ past) :
    '\n' ∈ line.toList := by
  refine h.ended line ?_
  rw [hlines, List.dropLast_append_of_ne_nil hmore]
  exact List.mem_append_left _ hline

theorem Ruled.last_of_blank (h : Ruled lines) (hk : k < lines.length)
    (hblank : ∀ c ∈ (lines.getD k "").toList, Text.isInlineBlank c = true) :
    k + 1 = lines.length := by
  by_contra hne
  have hmem : lines.getD k "" ∈ lines.take (k + 1) := by
    rw [List.getD_eq_getElem lines "" hk, List.mem_take_iff_getElem]
    exact ⟨k, by omega, rfl⟩
  have hmore : lines.drop (k + 1) ≠ [] := by
    rw [← List.length_pos_iff, List.length_drop]
    omega
  have := hblank '\n' (h.feed_mem (List.take_append_drop (k + 1) lines).symm hmore hmem)
  cases this

namespace TokenizerState

open Feed

theorem hasRead_of_fed (hlines : Ruled lines) (h : Fed feed lines k st) (hk : k ≤ lines.length) :
    st.HasRead (lines.take k) := by
  induction h with
  | start => exact hasRead_start
  | @next k st st' tokens _ _ hfeed ih =>
    have hlt : k < lines.length := hk
    have hread := ih (Nat.le_of_lt hlt)
    have hfeeds := feeds_of_feed hread.sane (hlines.feedLast _ (Ruled.getD_mem hlt)) hfeed
    have hnext := hfeeds.hasRead hread
    rwa [List.getD_eq_getElem lines "" hlt, ← List.take_succ_eq_append_getElem hlt] at hnext

/-- The source ends with its last line only, and no string or line is open then. -/
theorem quiet_of_finished (hlines : Ruled lines) (h : Fed feed lines k st) (hk : k ≤ lines.length)
    (hfinished : st.finished = true) :
    k = lines.length ∧ st.openString = none ∧ st.continued = false := by
  cases h with
  | start => cases hfinished
  | @next k st st' tokens h hgoes hfeed =>
    have hread := hasRead_of_fed hlines h (Nat.le_of_lt hk)
    have hfeeds := feeds_of_feed hread.sane (hlines.feedLast _ (Ruled.getD_mem hk)) hfeed
    cases hfeeds with
    | row _ _ _ hst | close _ _ _ hst | breakOff _ _ _ hst | goOn _ _ _ hst =>
      rw [hst.finished, hgoes] at hfinished
      cases hfinished
    | ends _ hblank hnone hends _ =>
      have := hlines.last_of_blank hk hblank
      exact ⟨by omega, hnone, hends⟩

theorem length_le_of_finished (hlines : Ruled lines) (h : Fed feed lines k st)
    (hfinished : st.finished = true) : lines.length ≤ k := by
  by_contra hlt
  have := (quiet_of_finished hlines h (by omega) hfinished).1
  omega

theorem finished_of_empty (h : Fed feed lines k st) (hpos : 0 < k)
    (hline : lines.getD (k - 1) "" = "") : st.finished = true := by
  cases h with
  | start => cases hpos
  | next _ _ hfeed =>
    rw [Nat.add_sub_cancel] at hline
    rw [hline] at hfeed
    exact (feed_empty hfeed).2.2.2.finished

theorem le_length_of_fed (h : Fed feed lines k st) (hgoes : st.finished = false) :
    k ≤ lines.length := by
  induction h with
  | start => exact Nat.zero_le _
  | @next k st st' tokens h hbefore hfeed ih =>
    by_contra hlt
    have heq : k = lines.length := Nat.le_antisymm (ih hbefore) (by omega)
    have hfinished := finished_of_empty (h.next hbefore hfeed) (Nat.succ_pos k)
      (List.getD_eq_default _ _ (Nat.le_of_eq heq.symm))
    cases hgoes.symm.trans hfinished

theorem count_eq_one {cs : List Char} (hfeed : Text.FeedLast cs) (hmem : '\n' ∈ cs) :
    cs.count '\n' = 1 := by
  obtain ⟨init, rfl⟩ := List.getLast?_eq_some_iff.mp (hfeed.getLast?_eq hmem)
  have hinit : '\n' ∉ init := by
    have := hfeed
    rwa [Text.FeedLast, List.dropLast_concat] at this
  rw [List.count_append, List.count_eq_zero_of_not_mem hinit]
  rfl

theorem count_of_spans {o : OpenString} {row : Nat} {first : String} {more : List String}
    (hspans : o.Spans row first more)
    (hlines : ∀ line ∈ first :: more, Text.FeedLast line.toList ∧ '\n' ∈ line.toList) :
    o.text.toList.count '\n' = more.length + 1 := by
  obtain ⟨col, -, htext, hmem⟩ := hspans.start_eq
  obtain ⟨⟨hfeed, hfirst⟩, hmore⟩ := List.forall_mem_cons.mp hlines
  have hdrop : '\n' ∈ first.toList.drop col := hfeed.mem_drop hfirst (List.ne_nil_of_mem hmem)
  have hrest : (more.flatMap String.toList).count '\n' = more.length := by
    clear hspans htext
    induction more with
    | nil => rfl
    | cons line more ih =>
      obtain ⟨hline, hmore⟩ := List.forall_mem_cons.mp hmore
      rw [List.flatMap_cons, List.count_append, count_eq_one hline.1 hline.2,
        ih (List.forall_mem_cons.mpr ⟨⟨hfeed, hfirst⟩, hmore⟩) hmore, List.length_cons]
      omega
  rw [htext, List.count_append, count_eq_one (hfeed.drop col) hdrop, hrest, Nat.add_comm]

/-- The closing tokens: perhaps a token for a missing line feed, on the last line, and tokens that
stand on no line. -/
theorem mem_closing {lastLine : String} {t : Token} (h : t ∈ closing st lastLine) :
    t.kind = .newline ∧ t.start.row = st.row - 1 ∧ t.stop.row = st.row - 1 ∧ t.line = "" ∧
        lastLine ≠ "" ∧ lastLine.toList.getLast? ≠ some '\n' ∨
      (t.kind = .dedent ∨ t.kind = .endMarker) ∧ t.start = ⟨st.row, 0⟩ ∧ t.stop = ⟨st.row, 0⟩ ∧
        t.line = "" := by
  unfold closing at h
  dsimp only at h
  rw [List.append_assoc, List.mem_append] at h
  rcases h with hnewline | hrest
  · obtain ⟨hended, hmem⟩ := List.mem_ite_nil_left.mp hnewline
    rw [List.mem_singleton.mp hmem]
    refine .inl ⟨rfl, rfl, rfl, rfl, ?_, ?_⟩
    · rintro rfl
      simp at hended
    · intro hlast
      simp [hlast] at hended
  · rcases List.mem_append.mp hrest with hdedent | hend
    · obtain ⟨_, _, rfl⟩ := List.mem_map.mp hdedent
      exact .inr ⟨.inl rfl, rfl, rfl, rfl⟩
    · rw [List.mem_singleton.mp hend]
      exact .inr ⟨.inr rfl, rfl, rfl, rfl⟩

theorem ended_of_lt (hlines : Ruled lines) (hk : k < lines.length) :
    ∀ line ∈ lines.take k, Text.FeedLast line.toList ∧ '\n' ∈ line.toList := by
  intro line hline
  refine ⟨hlines.feedLast line (List.mem_of_mem_take hline), ?_⟩
  refine hlines.feed_mem (List.take_append_drop k lines).symm ?_ hline
  rw [← List.length_pos_iff, List.length_drop]
  omega

/-- A string that is open when line `k` is fed started on an earlier line, and holds a line feed for
every line since. -/
theorem HasRead.start_add_count (hlines : Ruled lines) (hk : k < lines.length)
    (hread : st.HasRead (lines.take k)) {o : OpenString} (hopen : st.openString = some o) :
    o.start.row + o.text.toList.count '\n' = k + 1 ∧ o.start.row ≤ k := by
  obtain ⟨older, first, more, hpast, hspans⟩ := hread.spans o hopen
  obtain ⟨col, hstart, -⟩ := hspans.start_eq
  have hcount : o.text.toList.count '\n' = more.length + 1 := by
    refine count_of_spans hspans fun line hline => ended_of_lt hlines hk line ?_
    rw [hpast]
    exact List.mem_append_right _ hline
  have hlength := congrArg List.length hpast
  rw [List.length_take, Nat.min_eq_left (Nat.le_of_lt hk), List.length_append,
    List.length_cons] at hlength
  rw [hstart, hcount]
  push_cast
  omega

theorem count_take_stringEnd? {close : StringEnd} {cs : List Char} {n : Nat}
    (hfeed : Text.FeedLast cs) (hquote : isQuote close.quote = true)
    (hend : stringEnd? close cs = some n) : (cs.take n).count '\n' = 0 := by
  refine List.count_eq_zero_of_not_mem (hfeed.not_mem_take ?_)
  rw [(stringEnd?_spec hend).2]
  intro heq
  rw [Option.some.inj heq] at hquote
  cases hquote

theorem mem_closing_of_lt (hlines : Ruled lines) (hk : k < lines.length)
    (hread : st.HasRead (lines.take k)) {line : String} {t : Token}
    (h : t ∈ closing { st with row := st.row + 1, lastLine := line } st.lastLine) :
    (t.kind = .dedent ∨ t.kind = .endMarker) ∧ t.start = ⟨k + 1, 0⟩ ∧ t.stop = ⟨k + 1, 0⟩ ∧
      t.line = "" := by
  have hrow : st.row = k := by rw [hread.row, List.length_take, Nat.min_eq_left (Nat.le_of_lt hk)]
  rcases mem_closing h with ⟨-, -, -, -, hne, hlast⟩ | ⟨hkind, hstart, hstop, hline⟩
  · rw [hread.lastLine] at hne hlast
    cases hpast : (lines.take k).getLast? with
    | none => simp [hpast] at hne
    | some line =>
      obtain ⟨hfeed, hmem⟩ := ended_of_lt hlines hk line (List.mem_of_getLast? hpast)
      rw [hpast] at hlast
      exact absurd (hfeed.getLast?_eq hmem) hlast
  · rw [hstart, hstop, hline]
    dsimp only
    rw [hrow]
    exact ⟨hkind, rfl, rfl, rfl⟩

theorem rows_of_feeds (hlines : Ruled lines) (hk : k < lines.length)
    (hread : st.HasRead (lines.take k)) (hfeeds : Feeds st (lines.getD k "") tokens st') :
    ∀ t ∈ tokens, t.start.row ≤ t.stop.row ∧ t.stop.row = k + 1 ∧
      (t.kind = .string → t.start.row + t.text.toList.count '\n' = t.stop.row) := by
  have hrow : st.row = k := by rw [hread.row, List.length_take, Nat.min_eq_left (Nat.le_of_lt hk)]
  have honline : ∀ t, Token.OnLine (st.row + 1) (lines.getD k "") t →
      t.start.row ≤ t.stop.row ∧ t.stop.row = k + 1 ∧
        (t.kind = .string → t.start.row + t.text.toList.count '\n' = t.stop.row) := by
    intro t ht
    rw [ht.start_row, ht.stop_row, hrow]
    refine ⟨Int.le_refl _, rfl, fun hkind => ?_⟩
    rw [List.count_eq_zero_of_not_mem (ht.inner (by simp [Token.isNewline, hkind]))]
    rfl
  cases hfeeds with
  | row _ hrow _ _ => exact fun t ht => honline t (hrow.onLine t ht)
  | goOn => exact List.forall_mem_nil _
  | @close o n _ _ hopen hend hrow' _ =>
    refine List.forall_mem_cons.mpr ⟨?_, fun t ht => honline t (hrow'.onLine t ht)⟩
    have hstart := (hread.start_add_count hlines hk hopen).1
    have hcount := count_take_stringEnd? (hlines.feedLast _ (Ruled.getD_mem hk))
      (hread.sane.quote o hopen) hend
    dsimp only
    rw [String.toList_append, String.toList_ofList, List.count_append, hcount, hrow]
    refine ⟨?_, ?_, fun _ => ?_⟩ <;> omega
  | @breakOff o _ hopen _ _ _ =>
    refine List.forall_mem_singleton.mpr ?_
    have hstart := (hread.start_add_count hlines hk hopen).1
    dsimp only
    rw [hrow]
    refine ⟨?_, ?_, fun hkind => by cases hkind⟩ <;> omega
  | ends _ hblank _ _ _ =>
    intro t ht
    obtain ⟨hkind, hstart, hstop, -⟩ := mem_closing_of_lt hlines hk hread ht
    rw [hstart, hstop]
    refine ⟨Int.le_refl _, rfl, fun hstring => ?_⟩
    rw [hstring] at hkind
    rcases hkind with hkind | hkind <;> cases hkind

end TokenizerState

open TokenizerState

theorem punctual_feed (hlines : Ruled lines) : Feed.Punctual TokenizerState.feed lines := by
  have hrows : ∀ {k tokens}, Feed.Gives TokenizerState.feed lines k tokens → k < lines.length →
      ∀ t ∈ tokens, t.start.row ≤ t.stop.row ∧ t.stop.row = k + 1 ∧
        (t.kind = .string → t.start.row + t.text.toList.count '\n' = t.stop.row) := by
    rintro k tokens ⟨st, st', hfed, -, hfeed⟩ hk
    have hread := hasRead_of_fed hlines hfed (Nat.le_of_lt hk)
    have hline := hlines.feedLast _ (Ruled.getD_mem hk)
    exact rows_of_feeds hlines hk hread (feeds_of_feed hread.sane hline hfeed)
  have hclosing : ∀ {k tokens}, Feed.Gives TokenizerState.feed lines k tokens →
      lines.length ≤ k → ∀ t ∈ tokens, t.kind ≠ .string ∧
        (t.stop.row = lines.length ∨ lines.length < t.start.row) := by
    rintro k tokens ⟨st, st', hfed, hgoes, hfeed⟩ hk
    have hk : k = lines.length := Nat.le_antisymm (le_length_of_fed hfed hgoes) hk
    have hread := hasRead_of_fed hlines hfed (Nat.le_of_eq hk)
    have hrow : st.row = lines.length := by
      rw [hread.row, hk, List.take_length]
    rw [List.getD_eq_default _ _ (Nat.le_of_eq hk.symm)] at hfeed
    rw [(feed_empty hfeed).2.2.1]
    intro t ht
    rcases mem_closing ht with ⟨hkind, -, hstop, -⟩ | ⟨hkind, hstart, -⟩
    · refine ⟨by simp [hkind], .inl ?_⟩
      rw [hstop, hrow]
      push_cast
      omega
    · refine ⟨fun hstring => ?_, .inr ?_⟩
      · rw [hstring] at hkind
        rcases hkind with hkind | hkind <;> cases hkind
      · rw [hstart]
        dsimp only
        rw [hrow]
        omega
  constructor
  case rows => exact fun h hk t ht => ⟨(hrows h hk t ht).1, (hrows h hk t ht).2.1⟩
  case atEnd => exact fun h hk t ht => (hclosing h hk t ht).2
  case strings =>
    intro k tokens h t ht hkind
    rcases Nat.lt_or_ge k lines.length with hk | hk
    · exact (hrows h hk t ht).2.2 hkind
    · exact absurd hkind (hclosing h hk t ht).1
  case patient => exact length_le_of_finished hlines

end LintRunner.Source
