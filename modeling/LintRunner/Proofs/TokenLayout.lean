import LintRunner.Proofs.LineCalls
import LintRunner.Proofs.PathNames
import LintRunner.Proofs.PunctualFeed

/-!
# Where the tokens of a file stand

The tokens of a file in the order of their rows: which line each shows, which of them end a line,
and how the text of a string over several lines is made up of these lines.
-/

namespace LintRunner.Source

open TokenizerState

/-- The token does not lie beyond the last of `n` lines. -/
def Token.within (n : Nat) (t : Token) : Bool := t.start.row ≤ n

/-- The token starts on the row or above it, and goes on below. -/
def Token.Crosses (t : Token) (r : Int) : Prop := t.start.row ≤ r ∧ r < t.stop.row

instance (t : Token) (r : Int) : Decidable (t.Crosses r) := inferInstanceAs (Decidable (_ ∧ _))

theorem Token.endsLine_of_isNewline {t : Token} (h : t.isNewline = true) : t.endsLine = true := by
  rw [Token.endsLine, h, Bool.true_or]

theorem Token.endsLine_of_empty {t : Token} (hkind : t.kind = .dedent ∨ t.kind = .endMarker)
    (hline : t.line = "") : t.endsLine = false := by
  have hafter : textFrom t.line t.stop.col = [] := by
    rw [hline, textFrom]
    split <;> exact List.drop_nil
  rw [endsLine, hafter, isNewline]
  rcases hkind with hkind | hkind <;> rw [hkind] <;> rfl

/-- The text of a string is made up of lines: the first one from a column on, then whole ones, and
the start of the one that it ends on. -/
structure Token.Quotes (lines : List String) (t : Token) : Prop where
  made_up : ∃ older first more, (older ++ first :: more) <+: lines ∧
    t.start.row = older.length + 1 ∧ t.stop.row = older.length + 1 + more.length + 1 ∧
    ∃ col : Nat, t.start.col = col ∧ col < first.toList.length ∧
      (Processor.splitLine t.text).map (· ++ "\n") =
        String.ofList (first.toList.drop col) :: more
  endsLine_eq : t.endsLine = false

theorem Token.Quotes.col_lt {lines : List String} {t : Token} (h : t.Quotes lines) :
    ∃ col : Nat, t.start.col = col ∧
      col < (lines.getD (t.start.row - 1).toNat "").toList.length := by
  obtain ⟨older, first, more, ⟨rest, rfl⟩, hrow, -, col, hcol, hlt, -⟩ := h.made_up
  have hfirst : (older ++ first :: more ++ rest).getD (t.start.row - 1).toNat "" = first := by
    rw [hrow, show ((older.length : Int) + 1 - 1).toNat = older.length by omega]
    simp
  exact ⟨col, hcol, by rwa [hfirst]⟩

/-- The tokens that come with one more line, the one with index `k`. -/
structure Block (lines : List String) (k : Nat) (st : TokenizerState) (tokens : List Token)
    (st' : TokenizerState) : Prop where
  rows : ∀ t ∈ tokens, t.start.row ≤ t.stop.row ∧ t.stop.row = k + 1 ∧
    (t.kind = .string → t.start.row + t.text.toList.count '\n' = t.stop.row)
  starts : ∀ t ∈ tokens, t.start.row = k + 1 ∨ ∃ o, st.openString = some o ∧ t.start = o.start
  ordered : tokens.Pairwise fun t u => t.stop.row ≤ u.start.row
  opened : ∀ o', st'.openString = some o' →
    o'.start.row = k + 1 ∧ (∀ t ∈ tokens, t.endsLine = false) ∨
      tokens = [] ∧ ∃ o, st.openString = some o ∧ o'.start = o.start
  quotes : ∀ t ∈ tokens, t.start.row < t.stop.row → t.kind = .string → t.Quotes lines
  lined : ∀ t ∈ tokens, t.endsLine = true → t.start.row = t.stop.row → t.line = lines.getD k ""
  shown : ∀ t ∈ tokens, t.endsLine = true → lines.getD k "" ≠ ""
  newline : ∀ t ∈ tokens, t.isNewline = true → tokens.filter Token.endsLine = [t]

variable {lines : List String} {k : Nat} {st st' : TokenizerState} {tokens given : List Token}
  {line : String} {continued : Bool} {o : OpenString} {t : Token}

theorem RowEnd.filter_eq {openString : Option OpenString}
    (h : RowEnd line tokens openString continued) :
    ∀ t ∈ tokens, t.isNewline = true → tokens.filter Token.endsLine = [t] := by
  intro t ht hnewline
  have hends := Token.endsLine_of_isNewline hnewline
  cases h with
  | opened hnone => cases (hnone t ht).symm.trans hends
  | marked hnone => cases (hnone t ht).symm.trans hnewline
  | @ended init u htokens hu hinit =>
    have hrest : init.filter Token.endsLine = [] := by
      rw [List.filter_eq_nil_iff]
      intro v hv
      simp [hinit v hv]
    have hlast : t = u := by
      rw [htokens, List.mem_append, List.mem_singleton] at ht
      refine ht.resolve_left fun hmem => ?_
      cases (hinit t hmem).symm.trans hends
    rw [htokens, List.filter_append, hrest, hlast, List.nil_append,
      List.filter_cons_of_pos (Token.endsLine_of_isNewline hu), List.filter_nil]
  | unended _ hnone => cases (hnone t ht).symm.trans hends

theorem RowEnd.endsLine_eq
    (h : RowEnd line tokens (some o) continued) : ∀ t ∈ tokens, t.endsLine = false := by
  cases h with
  | opened hnone => exact hnone

theorem Token.endsLine_eq_false_of_mem (hnewline : t.isNewline = false) {c : Char}
    (hquote : isQuote c = true) (hc : c ∈ textFrom t.line t.stop.col) : t.endsLine = false := by
  rw [Token.endsLine, hnewline, Bool.false_or, decide_eq_false_iff_not]
  intro hmark
  rw [← (textFrom t.line t.stop.col).takeWhile_append_dropWhile (p := Text.isBlank),
    List.mem_append] at hc
  rcases hc with hblank | hrest
  · have hblank := List.mem_takeWhile_imp hblank
    rw [isQuote, Bool.or_eq_true, beq_iff_eq, beq_iff_eq] at hquote
    rcases hquote with rfl | rfl <;> cases hblank
  · rw [Text.dropLeading] at hmark
    rw [hmark] at hrest
    simp only [List.mem_cons, List.not_mem_nil, or_false] at hrest
    rcases hrest with rfl | rfl <;> cases hquote

theorem splitBy_flatten {ls : List (List Char)} {tail : List Char}
    (hls : ∀ l ∈ ls, Text.FeedLast l ∧ '\n' ∈ l) (htail : '\n' ∉ tail) :
    Text.splitBy (· == '\n') (ls.flatten ++ tail) = ls.map List.dropLast ++ [tail] := by
  induction ls with
  | nil =>
    refine Text.splitBy_of_forall_not fun c hc => ?_
    rw [beq_eq_false_iff_ne]
    rintro rfl
    exact htail hc
  | cons l rest ih =>
    obtain ⟨⟨hfeed, hmem⟩, hrest⟩ := List.forall_mem_cons.mp hls
    obtain ⟨init, rfl⟩ := List.getLast?_eq_some_iff.mp (hfeed.getLast?_eq hmem)
    have hinit : '\n' ∉ init := by
      have := hfeed
      rwa [Text.FeedLast, List.dropLast_concat] at this
    have hsplit : Text.splitBy (· == '\n') init = [init] := by
      refine Text.splitBy_of_forall_not fun c hc => ?_
      rw [beq_eq_false_iff_ne]
      rintro rfl
      exact hinit hc
    rw [List.flatten_cons, List.append_assoc, List.append_assoc, List.singleton_append,
      Text.splitBy_append_cons rfl, ih hrest, hsplit, List.map_cons, List.dropLast_concat]
    rfl

theorem splitLine_of_lines {text : String} {ls : List String} (tail : List Char)
    (htext : text.toList = (ls.map String.toList).flatten ++ tail)
    (hls : ∀ l ∈ ls, Text.FeedLast l.toList ∧ '\n' ∈ l.toList) (htail : '\n' ∉ tail) :
    (Processor.splitLine text).map (· ++ "\n") = ls := by
  have hlines : ∀ l ∈ ls.map String.toList, Text.FeedLast l ∧ '\n' ∈ l :=
    List.forall_mem_map.mpr hls
  rw [Processor.splitLine, Text.splitOnChar, htext, splitBy_flatten hlines htail, List.map_append,
    List.map_singleton, List.dropLast_concat, List.map_map, List.map_map, List.map_map]
  refine (List.map_congr_left fun l hl => ?_).trans (List.map_id ls)
  obtain ⟨hfeed, hmem⟩ := hls l hl
  obtain ⟨init, hinit⟩ := List.getLast?_eq_some_iff.mp (hfeed.getLast?_eq hmem)
  simp only [Function.comp_apply, hinit, List.dropLast_concat, id_eq]
  rw [← String.ofList_toList (s := l), hinit, String.ofList_append]

theorem quote_mem_drop {close : StringEnd} {front cs : List Char} {n : Nat} (hfront : front ≠ [])
    (hend : stringEnd? close cs = some n) : close.quote ∈ (front ++ cs).drop n := by
  obtain ⟨init, hinit⟩ := List.getLast?_eq_some_iff.mp (stringEnd?_spec hend).2
  have hlength := congrArg List.length hinit
  rw [List.length_take, Nat.min_eq_left (stringEnd?_spec hend).1, List.length_append,
    List.length_singleton] at hlength
  have hpos := List.length_pos_iff.mpr hfront
  rw [← List.take_append_drop n cs, hinit, List.append_assoc, ← List.append_assoc,
    List.drop_append_of_le_length (by rw [List.length_append]; omega)]
  simp

theorem quotes_of_close {n : Nat} (hlines : Ruled lines) (hk : k < lines.length)
    (hread : st.HasRead (lines.take k)) (hopen : st.openString = some o)
    (hend : stringEnd? o.close (lines.getD k "").toList = some n) :
    Token.Quotes lines ⟨.string, o.text ++ String.ofList ((lines.getD k "").toList.take n), o.start,
      ⟨st.row + 1, n⟩, o.line ++ lines.getD k ""⟩ := by
  obtain ⟨older, first, more, hpast, hspans⟩ := hread.spans o hopen
  obtain ⟨col, hstart, htext, hmem⟩ := hspans.start_eq
  have hrow : st.row = older.length + (more.length + 1) := by
    rw [hread.row, hpast, List.length_append, List.length_cons]
  have hended : ∀ line ∈ first :: more, Text.FeedLast line.toList ∧ '\n' ∈ line.toList := by
    intro line hline
    refine ended_of_lt hlines hk line ?_
    rw [hpast]
    exact List.mem_append_right _ hline
  obtain ⟨⟨hfeed, hfirst⟩, hmore⟩ := List.forall_mem_cons.mp hended
  constructor
  case made_up =>
    refine ⟨older, first, more, hpast ▸ List.take_prefix k lines, ?_, ?_, col, ?_, ?_, ?_⟩
    · rw [hstart]
      rfl
    · dsimp only
      rw [hrow]
      omega
    · rw [hstart]
    · exact Nat.lt_of_not_le fun hle => by simp [List.drop_of_length_le hle] at hmem
    · refine splitLine_of_lines ((lines.getD k "").toList.take n) ?_ ?_ ?_
      · rw [String.toList_append, htext, String.toList_ofList, List.map_cons, List.flatten_cons,
          String.toList_ofList, ← List.flatMap_def]
      · refine List.forall_mem_cons.mpr ⟨?_, hmore⟩
        rw [String.toList_ofList]
        exact ⟨hfeed.drop col, hfeed.mem_drop hfirst (List.ne_nil_of_mem hmem)⟩
      · exact List.count_eq_zero.mp (count_take_stringEnd?
          (hlines.feedLast _ (Ruled.getD_mem hk)) (hread.sane.quote o hopen) hend)
  case endsLine_eq =>
    refine Token.endsLine_eq_false_of_mem rfl (hread.sane.quote o hopen) ?_
    rw [Token.textFrom, if_pos (Int.natCast_nonneg n), Int.toNat_natCast, String.toList_append]
    refine quote_mem_drop ?_ hend
    rw [hspans.line_eq]
    exact fun hnil => by simp [(List.append_eq_nil_iff.mp hnil).1] at hfirst

theorem FedRow.opened {row : Nat} {openString : Option OpenString}
    (h : FedRow row line tokens openString continued) :
    ∀ o, openString = some o → o.start.row = row ∧ ∀ t ∈ tokens, t.endsLine = false := by
  rintro o rfl
  obtain ⟨col, hcol, -⟩ := (h.leftOpen o rfl).start_eq
  exact ⟨by rw [hcol], h.rowEnd.endsLine_eq⟩

theorem FedRow.block (st : TokenizerState)
    (h : FedRow (k + 1) (lines.getD k "") tokens st'.openString st'.continued)
    (hshown : ∀ t ∈ tokens, t.endsLine = true → lines.getD k "" ≠ "") :
    Block lines k st tokens st' := by
  have hstart : ∀ t ∈ tokens, t.start.row = k + 1 := fun t ht => (h.onLine t ht).start_row
  have hstop : ∀ t ∈ tokens, t.stop.row = k + 1 := fun t ht => (h.onLine t ht).stop_row
  constructor
  case rows =>
    intro t ht
    rw [hstart t ht, hstop t ht]
    refine ⟨Int.le_refl _, rfl, fun hkind => ?_⟩
    rw [List.count_eq_zero_of_not_mem ((h.onLine t ht).inner (by simp [Token.isNewline, hkind]))]
    exact Int.add_zero _
  case starts => exact fun t ht => .inl (hstart t ht)
  case ordered =>
    refine List.pairwise_of_forall_mem_list fun t ht u hu => ?_
    exact Int.le_of_eq ((hstop t ht).trans (hstart u hu).symm)
  case opened => exact fun o ho => .inl (h.opened o ho)
  case quotes =>
    intro t ht hcrosses
    rw [hstart t ht, hstop t ht] at hcrosses
    exact absurd hcrosses (Int.lt_irrefl _)
  case lined => exact fun t ht _ _ => (h.onLine t ht).line_eq
  case shown => exact hshown
  case newline => exact h.rowEnd.filter_eq

theorem Block.cons (h : Block lines k st tokens st')
    (hopen : st.openString = some o) (hstart : t.start = o.start)
    (hrows : t.start.row ≤ t.stop.row ∧ t.stop.row = k + 1 ∧
      (t.kind = .string → t.start.row + t.text.toList.count '\n' = t.stop.row))
    (hquotes : t.Quotes lines) (hstarts : ∀ u ∈ tokens, u.start.row = k + 1)
    (hopened : ∀ o', st'.openString = some o' → o'.start.row = k + 1 ∧
      ∀ u ∈ tokens, u.endsLine = false) : Block lines k st (t :: tokens) st' := by
  constructor
  case rows => exact List.forall_mem_cons.mpr ⟨hrows, h.rows⟩
  case starts => exact List.forall_mem_cons.mpr ⟨.inr ⟨o, hopen, hstart⟩, h.starts⟩
  case ordered =>
    refine List.pairwise_cons.mpr ⟨fun u hu => ?_, h.ordered⟩
    exact Int.le_of_eq (hrows.2.1.trans (hstarts u hu).symm)
  case opened =>
    intro o' ho'
    obtain ⟨hrow', hnone⟩ := hopened o' ho'
    exact .inl ⟨hrow', List.forall_mem_cons.mpr ⟨hquotes.endsLine_eq, hnone⟩⟩
  case quotes => exact List.forall_mem_cons.mpr ⟨fun _ _ => hquotes, h.quotes⟩
  case lined =>
    refine List.forall_mem_cons.mpr ⟨fun hends => ?_, h.lined⟩
    cases hquotes.endsLine_eq.symm.trans hends
  case shown =>
    refine List.forall_mem_cons.mpr ⟨fun hends => ?_, h.shown⟩
    cases hquotes.endsLine_eq.symm.trans hends
  case newline =>
    rw [List.filter_cons_of_neg (by simp [hquotes.endsLine_eq])]
    refine List.forall_mem_cons.mpr ⟨fun hnewline => ?_, h.newline⟩
    cases hquotes.endsLine_eq.symm.trans (Token.endsLine_of_isNewline hnewline)

theorem shown_of_feed (hlines : Ruled lines) (hk : k < lines.length)
    (hread : st.HasRead (lines.take k)) (hfeed : st.feed (lines.getD k "") = .ok (tokens, st')) :
    ∀ t ∈ tokens, t.endsLine = true → lines.getD k "" ≠ "" := by
  intro t ht hends hempty
  rw [hempty] at hfeed
  obtain ⟨-, -, rfl, -⟩ := feed_empty hfeed
  obtain ⟨hkind, -, -, hline⟩ := mem_closing_of_lt hlines hk hread ht
  cases (Token.endsLine_of_empty hkind hline).symm.trans hends

theorem block_of_feeds (hlines : Ruled lines) (hk : k < lines.length)
    (hread : st.HasRead (lines.take k)) (hfeeds : Feeds st (lines.getD k "") tokens st')
    (hshown : ∀ t ∈ tokens, t.endsLine = true → lines.getD k "" ≠ "") :
    Block lines k st tokens st' := by
  have hrow : st.row = k := by rw [hread.row, List.length_take, Nat.min_eq_left (Nat.le_of_lt hk)]
  have hrows := rows_of_feeds hlines hk hread hfeeds
  cases hfeeds with
  | row hopen hfed hblank hst => exact FedRow.block st (hrow ▸ hfed) hshown
  | @close o n tokens' _ hopen hend hfed hst =>
    rw [hrow] at hfed
    have hblock : Block lines k st tokens' st' :=
      hfed.block st fun t ht => hshown t (List.mem_cons_of_mem _ ht)
    have hquotes := quotes_of_close hlines hk hread hopen hend
    have hstarts : ∀ u ∈ tokens', u.start.row = k + 1 := fun u hu => (hfed.onLine u hu).start_row
    exact hblock.cons hopen rfl (hrows _ List.mem_cons_self) hquotes hstarts hfed.opened
  | @goOn o _ hopen hmore hsame hst =>
    refine ⟨hrows, List.forall_mem_nil _, .nil, fun o' ho' => .inr ⟨rfl, o, hopen, ?_⟩,
      List.forall_mem_nil _, List.forall_mem_nil _, hshown, List.forall_mem_nil _⟩
    rw [hmore] at ho'
    cases ho'
    rfl
  | @breakOff o _ hopen hline hnone hst =>
    have hstop := (hrows _ List.mem_cons_self).2.1
    refine ⟨hrows, List.forall_mem_singleton.mpr (.inr ⟨o, hopen, rfl⟩),
      List.pairwise_singleton _ _, fun o' ho' => ?_, ?_, ?_, hshown, ?_⟩
    · rw [hnone] at ho'
      cases ho'
    · exact List.forall_mem_singleton.mpr fun _ hkind => by cases hkind
    · refine List.forall_mem_singleton.mpr fun _ hsame => ?_
      have := (hread.start_add_count hlines hk hopen).2
      have : o.start.row = k + 1 := hsame.trans hstop
      omega
    · exact List.forall_mem_singleton.mpr fun hnewline => by cases hnewline
  | ends hopen hblank hnone hends hst =>
    have hclosing : ∀ t ∈ closing { st with row := st.row + 1, lastLine := lines.getD k "" }
        st.lastLine, t.start.row = k + 1 ∧ t.endsLine = false := by
      intro t ht
      obtain ⟨hkind, hstart, -, hline⟩ := mem_closing_of_lt hlines hk hread ht
      exact ⟨by rw [hstart], Token.endsLine_of_empty hkind hline⟩
    refine ⟨hrows, fun t ht => .inl (hclosing t ht).1, ?_, fun o' ho' => ?_, ?_, ?_, hshown, ?_⟩
    · refine List.pairwise_of_forall_mem_list fun t ht u hu => ?_
      exact Int.le_of_eq ((hrows t ht).2.1.trans (hclosing u hu).1.symm)
    · rw [hnone] at ho'
      cases ho'
    · intro t ht hcrosses
      rw [(hrows t ht).2.1, (hclosing t ht).1] at hcrosses
      exact absurd hcrosses (Int.lt_irrefl _)
    · intro t ht hends
      cases (hclosing t ht).2.symm.trans hends
    · intro t ht hnewline
      cases (hclosing t ht).2.symm.trans (Token.endsLine_of_isNewline hnewline)

/-- How a line ends that is neither left inside a string nor continued: with a token for the line
feed, with a string that breaks off, or without a token that ends it. -/
theorem rowEnd_of_feeds (hlines : Ruled lines) (hk : k < lines.length)
    (hread : st.HasRead (lines.take k)) (hgoes : st.finished = false)
    (hfeeds : Feeds st (lines.getD k "") tokens st') (hopen' : st'.openString = none)
    (hcontinued' : st'.continued = false) :
    (∃ t ∈ tokens, t.isNewline = true) ∨
      (∃ t ∈ tokens, t.start.row < t.stop.row ∧ t.kind ≠ .string) ∨
      ((∀ t ∈ tokens, t.endsLine = false) ∧ tokens ≠ []) ∨
      (tokens = [] ∧ st'.finished = false ∧
        ∀ c ∈ (lines.getD k "").toList, Text.isInlineBlank c = true) := by
  have hrowEnd : ∀ {tokens : List Token}, RowEnd (lines.getD k "") tokens none false →
      (∃ t ∈ tokens, t.isNewline = true) ∨ ∀ t ∈ tokens, t.endsLine = false := by
    intro tokens h
    cases h with
    | @ended init t htokens ht _ => exact .inl ⟨t, by simp [htokens], ht⟩
    | unended _ hnone => exact .inr hnone
  cases hfeeds with
  | row hopen hfed hblank hst =>
    have hends := hfed.rowEnd
    rw [hopen', hcontinued'] at hends
    rcases hrowEnd hends with hnewline | hnone
    · exact .inl hnewline
    · by_cases htokens : tokens = []
      · exact .inr (.inr (.inr ⟨htokens, hst.finished.trans hgoes,
          hblank htokens hopen' hcontinued'⟩))
      · exact .inr (.inr (.inl ⟨hnone, htokens⟩))
  | close hopen hend hfed hst =>
    have hends := hfed.rowEnd
    rw [hopen', hcontinued'] at hends
    rcases hrowEnd hends with ⟨t, ht, hnewline⟩ | hnone
    · exact .inl ⟨t, List.mem_cons_of_mem _ ht, hnewline⟩
    · have hquotes := quotes_of_close hlines hk hread hopen hend
      exact .inr (.inr (.inl ⟨List.forall_mem_cons.mpr ⟨hquotes.endsLine_eq, hnone⟩, nofun⟩))
  | @breakOff o _ hopen hline hnone hst =>
    refine .inr (.inl ⟨_, List.mem_cons_self, ?_, nofun⟩)
    have hstop := (rows_of_feeds hlines hk hread (.breakOff hopen hline hnone hst) _
      List.mem_cons_self).2.1
    have := (hread.start_add_count hlines hk hopen).2
    rw [hstop]
    dsimp only
    omega
  | goOn hopen hmore hsame hst =>
    rw [hmore] at hopen'
    cases hopen'
  | ends hopen hblank hnone hends hst =>
    refine .inr (.inr (.inl ⟨fun t ht => ?_, ?_⟩))
    · obtain ⟨hkind, -, -, hline⟩ := mem_closing_of_lt hlines hk hread ht
      exact Token.endsLine_of_empty hkind hline
    · simp [closing]

structure Laid (lines : List String) (k : Nat) (st : TokenizerState) (given : List Token) :
    Prop where
  rows : ∀ t ∈ given, 1 ≤ t.start.row ∧ t.start.row ≤ t.stop.row ∧ t.stop.row ≤ k
  ordered : given.Pairwise fun t u => t.stop.row ≤ u.start.row
  opened : ∀ o, st.openString = some o → 1 ≤ o.start.row ∧
    (∀ t ∈ given, t.stop.row ≤ o.start.row) ∧
    ∀ t ∈ given, t.endsLine = true → t.stop.row < o.start.row
  crossed : ∀ t ∈ given, ∀ u ∈ given, u.endsLine = true → ¬t.Crosses u.stop.row
  strings : ∀ t ∈ given, t.kind = .string →
    t.start.row + t.text.toList.count '\n' = t.stop.row
  quotes : ∀ t ∈ given, t.start.row < t.stop.row → t.kind = .string → t.Quotes lines
  lined : ∀ t ∈ given, t.endsLine = true → t.start.row = t.stop.row →
    lines.getD (t.stop.row - 1).toNat "" ≠ "" ∧ t.line = lines.getD (t.stop.row - 1).toNat ""
  newline : ∀ t ∈ given, t.isNewline = true →
    (given.filter fun u => u.stop.row = t.stop.row && u.endsLine) = [t]

theorem laid_start : Laid lines 0 {} [] :=
  ⟨List.forall_mem_nil _, .nil, nofun, List.forall_mem_nil _, List.forall_mem_nil _,
    List.forall_mem_nil _, List.forall_mem_nil _, List.forall_mem_nil _⟩

theorem filter_row_of_ne {r : Int} (h : ∀ u ∈ tokens, u.stop.row ≠ r) :
    (tokens.filter fun u => u.stop.row = r && u.endsLine) = [] :=
  List.filter_eq_nil_iff.mpr fun u hu => by simp [h u hu]

theorem Laid.append (h : Laid lines k st given)
    (hblock : Block lines k st tokens st') : Laid lines (k + 1) st' (given ++ tokens) := by
  have hgiven : ∀ t ∈ given, t.stop.row ≤ k := fun t ht => (h.rows t ht).2.2
  have htokens : ∀ t ∈ tokens, t.stop.row = k + 1 := fun t ht => (hblock.rows t ht).2.1
  constructor
  case rows =>
    refine List.forall_mem_append.mpr ⟨fun t ht => ?_, fun t ht => ?_⟩
    · have := h.rows t ht
      push_cast
      omega
    · have hrows := hblock.rows t ht
      rcases hblock.starts t ht with hstart | ⟨o, ho, hstart⟩
      · push_cast
        omega
      · have := (h.opened o ho).1
        rw [← hstart] at this
        push_cast
        omega
  case ordered =>
    refine List.pairwise_append.mpr ⟨h.ordered, hblock.ordered, fun t ht u hu => ?_⟩
    rcases hblock.starts u hu with hstart | ⟨o, ho, hstart⟩
    · have := hgiven t ht
      omega
    · rw [hstart]
      exact (h.opened o ho).2.1 t ht
  case opened =>
    intro o' ho'
    rcases hblock.opened o' ho' with ⟨hstart, hnone⟩ | ⟨rfl, o, ho, hstart⟩
    · rw [hstart]
      refine ⟨by omega, List.forall_mem_append.mpr ⟨fun t ht => ?_, fun t ht => ?_⟩,
        List.forall_mem_append.mpr ⟨fun t ht _ => ?_, fun t ht hends => ?_⟩⟩
      · have := hgiven t ht
        omega
      · exact Int.le_of_eq (htokens t ht)
      · have := hgiven t ht
        omega
      · cases (hnone t ht).symm.trans hends
    · rw [hstart, List.append_nil]
      exact h.opened o ho
  case crossed =>
    refine List.forall_mem_append.mpr ⟨fun t ht => ?_, fun t ht => ?_⟩ <;>
      refine List.forall_mem_append.mpr ⟨fun u hu hends => ?_, fun u hu hends => ?_⟩
    · exact h.crossed t ht u hu hends
    · rintro ⟨-, hlt⟩
      have := hgiven t ht
      rw [htokens u hu] at hlt
      omega
    · rintro ⟨hle, -⟩
      rcases hblock.starts t ht with hstart | ⟨o, ho, hstart⟩
      · have := hgiven u hu
        omega
      · have := (h.opened o ho).2.2 u hu hends
        rw [← hstart] at this
        omega
    · rintro ⟨-, hlt⟩
      rw [htokens u hu, htokens t ht] at hlt
      exact Int.lt_irrefl _ hlt
  case strings =>
    exact List.forall_mem_append.mpr ⟨h.strings, fun t ht => (hblock.rows t ht).2.2⟩
  case quotes => exact List.forall_mem_append.mpr ⟨h.quotes, hblock.quotes⟩
  case lined =>
    refine List.forall_mem_append.mpr ⟨h.lined, fun t ht hends hsame => ?_⟩
    rw [htokens t ht, show ((k : Int) + 1 - 1).toNat = k by omega]
    exact ⟨hblock.shown t ht hends, hblock.lined t ht hends hsame⟩
  case newline =>
    refine List.forall_mem_append.mpr ⟨fun t ht hnewline => ?_, fun t ht hnewline => ?_⟩
    · have hother : ∀ u ∈ tokens, u.stop.row ≠ t.stop.row := by
        intro u hu
        have := hgiven t ht
        rw [htokens u hu]
        omega
      rw [List.filter_append, h.newline t ht hnewline, filter_row_of_ne hother, List.append_nil]
    · have hother : ∀ u ∈ given, u.stop.row ≠ t.stop.row := by
        intro u hu
        have := hgiven u hu
        rw [htokens t ht]
        omega
      have hrow : (tokens.filter fun u => u.stop.row = t.stop.row && u.endsLine) =
          tokens.filter Token.endsLine := by
        refine List.filter_congr fun u hu => ?_
        rw [htokens u hu, htokens t ht, decide_eq_true rfl, Bool.true_and]
      rw [List.filter_append, filter_row_of_ne hother, hrow, List.nil_append,
        hblock.newline t ht hnewline]

/-! ## The whole file -/

/-- The tokens of a file: how they stand in its lines. A newline that is made up where the last line
has no line feed shows an empty line. -/
structure Arranged (lines : List String) (tokens : List Token) : Prop where
  rows : ∀ t ∈ tokens, 1 ≤ t.start.row ∧ t.start.row ≤ t.stop.row ∧ t.stop.row ≤ lines.length
  ordered : tokens.Pairwise fun t u => t.stop.row ≤ u.start.row
  crossed : ∀ t ∈ tokens, ∀ u ∈ tokens, u.endsLine = true → ¬t.Crosses u.stop.row
  strings : ∀ t ∈ tokens, t.kind = .string →
    t.start.row + t.text.toList.count '\n' = t.stop.row
  quotes : ∀ t ∈ tokens, t.start.row < t.stop.row → t.kind = .string → t.Quotes lines
  lined : ∀ t ∈ tokens, t.endsLine = true → t.start.row = t.stop.row →
    lines.getD (t.stop.row - 1).toNat "" ≠ "" ∧
      (t.line = lines.getD (t.stop.row - 1).toNat "" ∨ t.isNewline = true ∧ t.line = "")
  newline : (∀ t ∈ tokens, t.isNewline = true → t.line ≠ "") → ∀ t ∈ tokens, t.isNewline = true →
    (tokens.filter fun u => u.stop.row = t.stop.row && u.endsLine) = [t]
  last : lines ≠ [] → (∀ t ∈ tokens, t.isNewline = true → t.stop.row ≠ lines.length) →
    (∀ t ∈ tokens, t.start.row < t.stop.row → t.kind = .string) →
    (∀ t ∈ tokens, t.stop.row = lines.length → t.endsLine = false) ∧
      ∃ init t, tokens = init ++ [t] ∧ t.isNewline = false

/-- How the last line that was read ends, unless it is left inside a string or continued. -/
def EndOfRow (lines : List String) (k : Nat) (st : TokenizerState) (given : List Token) : Prop :=
  0 < k → st.openString = none → st.continued = false →
    (∃ t ∈ given, t.isNewline = true ∧ t.stop.row = k) ∨
    (∃ t ∈ given, t.start.row < t.stop.row ∧ t.kind ≠ .string) ∨
    ((∀ t ∈ given, t.stop.row = k → t.endsLine = false) ∧
      ∃ init t, given = init ++ [t] ∧ t.isNewline = false) ∨
    (st.finished = false ∧ ∀ c ∈ (lines.getD (k - 1) "").toList, Text.isInlineBlank c = true)

theorem endOfRow_of_feeds (hlines : Ruled lines) (hk : k < lines.length)
    (hread : st.HasRead (lines.take k)) (hgoes : st.finished = false)
    (hlaid : Laid lines k st given) (hfeeds : Feeds st (lines.getD k "") tokens st') :
    EndOfRow lines (k + 1) st' (given ++ tokens) := by
  intro _ hopen hcontinued
  have hrows := rows_of_feeds hlines hk hread hfeeds
  rcases rowEnd_of_feeds hlines hk hread hgoes hfeeds hopen hcontinued with
    ⟨t, ht, hnewline⟩ | ⟨t, ht, hbroken⟩ | ⟨hnone, hne⟩ | ⟨-, hblank⟩
  · exact .inl ⟨t, List.mem_append_right _ ht, hnewline, (hrows t ht).2.1⟩
  · exact .inr (.inl ⟨t, List.mem_append_right _ ht, hbroken⟩)
  · refine .inr (.inr (.inl ⟨List.forall_mem_append.mpr ⟨fun t ht hrow => ?_,
      fun t ht _ => hnone t ht⟩, ?_⟩))
    · have := (hlaid.rows t ht).2.2
      push_cast at hrow
      omega
    · refine ⟨given ++ tokens.dropLast, tokens.getLast hne, ?_, ?_⟩
      · rw [List.append_assoc, List.dropLast_concat_getLast]
      · refine Bool.eq_false_iff.mpr fun hnewline => ?_
        have := hnone _ (List.getLast_mem hne)
        rw [Token.endsLine_of_isNewline hnewline] at this
        cases this
  · exact .inr (.inr (.inr hblank))

theorem Laid.arranged (h : Laid lines lines.length st given)
    (hend : EndOfRow lines lines.length st given) (hopen : st.openString = none)
    (hcontinued : st.continued = false)
    (hvisible : lines ≠ [] → st.finished = false → ∃ c ∈ (lines.getD (lines.length - 1) "").toList,
      Text.isInlineBlank c = false) : Arranged lines given := by
  refine ⟨h.rows, h.ordered, h.crossed, h.strings, h.quotes, fun t ht hends hsame => ?_,
    fun _ => h.newline, fun hne hnewline hstrings => ?_⟩
  · exact (h.lined t ht hends hsame).imp_right .inl
  · rcases hend (List.length_pos_iff.mpr hne) hopen hcontinued with ⟨t, ht, hends, hrow⟩ |
      ⟨t, ht, hcrosses, hkind⟩ | hlast | ⟨hgoes, hblank⟩
    · exact absurd hrow (hnewline t ht hends)
    · exact absurd (hstrings t ht hcrosses) hkind
    · exact hlast
    · obtain ⟨c, hc, hvisible⟩ := hvisible hne hgoes
      cases (hblank c hc).symm.trans hvisible

theorem Laid.arranged_concat (h : Laid lines lines.length st given)
    (hkind : t.kind = .newline) (hstart : t.start.row = lines.length)
    (hstop : t.stop.row = lines.length) (hline : t.line = "") (hne : lines ≠ [])
    (hlast : lines.getD (lines.length - 1) "" ≠ "") : Arranged lines (given ++ [t]) := by
  have hlength := List.length_pos_iff.mpr hne
  have hnewline : t.isNewline = true := by simp [Token.isNewline, hkind]
  have hmem : t ∈ given ++ [t] := List.mem_append_right _ List.mem_cons_self
  constructor
  case rows =>
    refine List.forall_mem_append.mpr ⟨h.rows, List.forall_mem_singleton.mpr ?_⟩
    omega
  case ordered =>
    refine List.pairwise_append.mpr ⟨h.ordered, List.pairwise_singleton _ _, fun u hu => ?_⟩
    refine List.forall_mem_singleton.mpr ?_
    have := (h.rows u hu).2.2
    omega
  case crossed =>
    refine List.forall_mem_append.mpr ⟨fun u hu => ?_, List.forall_mem_singleton.mpr ?_⟩
    · refine List.forall_mem_append.mpr ⟨h.crossed u hu, List.forall_mem_singleton.mpr ?_⟩
      rintro - ⟨-, hlt⟩
      have := (h.rows u hu).2.2
      omega
    · rintro u - - ⟨hle, hlt⟩
      omega
  case strings =>
    refine List.forall_mem_append.mpr ⟨h.strings, List.forall_mem_singleton.mpr fun hstring => ?_⟩
    cases hkind.symm.trans hstring
  case quotes =>
    refine List.forall_mem_append.mpr ⟨h.quotes, List.forall_mem_singleton.mpr fun hlt => ?_⟩
    omega
  case lined =>
    refine List.forall_mem_append.mpr ⟨fun u hu hends hsame => ?_, ?_⟩
    · exact (h.lined u hu hends hsame).imp_right .inl
    refine List.forall_mem_singleton.mpr fun _ _ => ⟨?_, .inr ⟨hnewline, hline⟩⟩
    rwa [hstop, show ((lines.length : Int) - 1).toNat = lines.length - 1 by omega]
  case newline => exact fun hshown => absurd hline (hshown t hmem hnewline)
  case last => exact fun _ hnone => absurd hstop (hnone t hmem hnewline)

theorem closing_eq (st : TokenizerState) (lastLine : String) :
    ∃ madeUp rest, closing st lastLine = madeUp ++ rest ∧ rest ≠ [] ∧
      (∀ t ∈ rest, t.start.row = st.row) ∧
      (madeUp = [] ∧ (lastLine = "" ∨ ∃ c ∈ lastLine.toList, Text.isInlineBlank c = false) ∨
        lastLine ≠ "" ∧ ∃ t, madeUp = [t] ∧ t.kind = .newline ∧ t.start.row = st.row - 1 ∧
          t.stop.row = st.row - 1 ∧ t.line = "") := by
  refine ⟨_, _, List.append_assoc _ _ _, by simp, fun t ht => ?_, ?_⟩
  · rcases List.mem_append.mp ht with hdedent | hend
    · obtain ⟨_, _, rfl⟩ := List.mem_map.mp hdedent
      rfl
    · rw [List.mem_singleton.mp hend]
  · cases hcs : lastLine.toList.getLast? with
    | none =>
      refine .inl ⟨rfl, .inl (String.toList_eq_nil_iff.mp (List.getLast?_eq_none_iff.mp hcs))⟩
    | some c =>
      have hne : lastLine ≠ "" := by
        rintro rfl
        cases hcs
      dsimp only
      split
      · rename_i hended
        refine .inl ⟨rfl, .inr ?_⟩
        simp only [Bool.or_eq_true, decide_eq_true_iff] at hended
        rcases hended with (rfl | rfl) | hcomment
        · exact ⟨'\n', List.mem_of_getLast? hcs, rfl⟩
        · exact ⟨'\r', List.mem_of_getLast? hcs, rfl⟩
        · have hmem := List.mem_of_mem_head? hcomment
          rw [Text.dropEnds, Text.dropTrailing, List.mem_reverse] at hmem
          have hmem := List.mem_reverse.mp ((List.dropWhile_sublist _).subset hmem)
          exact ⟨'#', (List.dropWhile_sublist _).subset hmem, rfl⟩
      · exact .inr ⟨hne, _, rfl, rfl, rfl, rfl, rfl⟩

/-- Behind the last line a newline may be made up for it; all other tokens lie beyond the file. -/
theorem Laid.arranged_closing (h : Laid lines lines.length st given) (hlines : Ruled lines)
    (hfed : Feed.Fed feed lines lines.length st) (hend : EndOfRow lines lines.length st given)
    (hgoes : st.finished = false) (hfeed : st.feed "" = .ok (tokens, st')) :
    Arranged lines (given ++ tokens.takeWhile (Token.within lines.length)) := by
  obtain ⟨hopen, hcontinued, rfl, -⟩ := feed_empty hfeed
  have hread := hasRead_of_fed hlines hfed (Nat.le_refl _)
  have hrow : st.row = lines.length := by rw [hread.row, List.take_length]
  have hlast : st.lastLine = lines.getD (lines.length - 1) "" := by
    rw [hread.lastLine, List.take_length, List.getLast?_eq_getElem?, List.getD_eq_getElem?_getD]
  obtain ⟨madeUp, rest, hclosing, hne, hrest, hcase⟩ :=
    closing_eq { st with row := st.row + 1, lastLine := "" } st.lastLine
  have hbeyond : rest.takeWhile (Token.within lines.length) = [] := by
    obtain ⟨t, more, rfl⟩ := List.exists_cons_of_ne_nil hne
    refine List.takeWhile_cons_of_neg ?_
    rw [Token.within, decide_eq_true_iff, hrest t List.mem_cons_self]
    dsimp only
    omega
  rw [hclosing]
  rcases hcase with ⟨rfl, hvisible⟩ | ⟨hsome, t, rfl, hkind, hstart, hstop, hline⟩
  · rw [List.nil_append, hbeyond, List.append_nil]
    refine h.arranged hend hopen hcontinued fun hlength _ => ?_
    rw [hlast] at hvisible
    refine hvisible.resolve_left fun hempty => ?_
    cases hgoes.symm.trans (finished_of_empty hfed (List.length_pos_iff.mpr hlength) hempty)
  · have hlength : lines ≠ [] := by
      rintro rfl
      exact hsome hlast
    dsimp only at hstart hstop
    rw [List.takeWhile_append_of_pos (List.forall_mem_singleton.mpr ?_), hbeyond, List.append_nil]
    · exact h.arranged_concat hkind (by omega) (by omega) hline hlength (hlast ▸ hsome)
    · rw [Token.within, decide_eq_true_iff]
      omega

/-- Tokenizing has finished, or a line is fed; behind the last one this is an empty one. -/
theorem tokenizeFrom_ok {more : List Token} (hk : k ≤ lines.length)
    (h : tokenizeFrom st (lines.drop k) = .ok more) :
    st.finished = true ∧ more = [] ∨
      st.finished = false ∧ ∃ tokens st', st.feed (lines.getD k "") = .ok (tokens, st') ∧
        ((k < lines.length ∧ ∃ later, tokenizeFrom st' (lines.drop (k + 1)) = .ok later ∧
          more = tokens ++ later) ∨ k = lines.length ∧ more = tokens) := by
  rcases Nat.lt_or_eq_of_le hk with hlt | rfl
  · rw [List.drop_eq_getElem_cons hlt, tokenizeFrom, ← List.getD_eq_getElem lines "" hlt] at h
    split at h
    · exact .inl ⟨‹_›, (Except.ok.inj h).symm⟩
    · refine .inr ⟨Bool.eq_false_iff.mpr ‹_›, ?_⟩
      split at h
      · cases h
      · rename_i tokens st' hfeed
        split at h
        · cases h
        · cases h
          exact ⟨tokens, st', hfeed, .inl ⟨hlt, _, ‹_›, rfl⟩⟩
  · rw [List.drop_length, tokenizeFrom] at h
    rw [List.getD_eq_default _ _ (Nat.le_refl _)]
    split at h
    · exact .inl ⟨‹_›, (Except.ok.inj h).symm⟩
    · refine .inr ⟨Bool.eq_false_iff.mpr ‹_›, ?_⟩
      split at h
      · cases h
      · cases h
        exact ⟨_, _, ‹_›, .inr ⟨rfl, rfl⟩⟩

theorem arranged_of_tokenizeFrom {more : List Token} (hlines : Ruled lines)
    (hfed : Feed.Fed feed lines k st) (hlaid : Laid lines k st given)
    (hend : EndOfRow lines k st given) (hk : k ≤ lines.length)
    (h : tokenizeFrom st (lines.drop k) = .ok more) :
    Arranged lines (given ++ more.takeWhile (Token.within lines.length)) := by
  obtain ⟨left, hleft⟩ : ∃ left, lines.length < k + left := ⟨lines.length + 1, by omega⟩
  induction left generalizing k st given more with
  | zero => omega
  | succ left ih =>
    rcases tokenizeFrom_ok hk h with ⟨hfinished, rfl⟩ | ⟨hgoes, tokens, st', hfeed, hmore⟩
    · obtain ⟨rfl, hopen, hcontinued⟩ := quiet_of_finished hlines hfed hk hfinished
      rw [List.takeWhile_nil, List.append_nil]
      refine hlaid.arranged hend hopen hcontinued fun _ hgoes => ?_
      cases hgoes.symm.trans hfinished
    rcases hmore with ⟨hlt, later, hlater, rfl⟩ | ⟨rfl, rfl⟩
    · have hread := hasRead_of_fed hlines hfed hk
      have hfeeds := feeds_of_feed hread.sane (hlines.feedLast _ (Ruled.getD_mem hlt)) hfeed
      have hblock := block_of_feeds hlines hlt hread hfeeds (shown_of_feed hlines hlt hread hfeed)
      have hwithin : ∀ t ∈ tokens, t.within lines.length = true := by
        intro t ht
        have := hblock.rows t ht
        rw [Token.within, decide_eq_true_iff]
        omega
      rw [List.takeWhile_append_of_pos hwithin, ← List.append_assoc]
      exact ih (hfed.next hgoes hfeed) (hlaid.append hblock)
        (endOfRow_of_feeds hlines hlt hread hgoes hlaid hfeeds) hlt hlater (by omega)
    · rw [List.getD_eq_default _ _ (Nat.le_refl _)] at hfeed
      exact hlaid.arranged_closing hlines hfed hend hgoes hfeed

theorem arranged_of_tokenize (hlines : Ruled lines) (h : tokenize lines = .ok tokens) :
    Arranged lines (tokens.takeWhile (Token.within lines.length)) :=
  arranged_of_tokenizeFrom hlines .start laid_start (fun hpos => absurd hpos (Nat.lt_irrefl 0))
    (Nat.zero_le _) h

end LintRunner.Source
