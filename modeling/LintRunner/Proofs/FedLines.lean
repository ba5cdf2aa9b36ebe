import LintRunner.Proofs.ScannedLines

/-!
# Feeding a line to the tokenizer

What the tokenizer does with one more line of a file, in five cases: it cuts the line into tokens,
it closes an open string and cuts what follows, it breaks an open string off, it goes on with an
open string, or it closes the source.
-/

namespace LintRunner.Source

structure Token.OnLine (row : Nat) (line : String) (t : Token) : Prop where
  start_row : t.start.row = row
  stop_row : t.stop.row = row
  line_eq : t.line = line
  inner : t.isNewline = false → '\n' ∉ t.text.toList

/-- How a line ends, with the string that it leaves open and whether it is continued. -/
inductive RowEnd (line : String) (tokens : List Token) :
    (openString : Option OpenString) → (continued : Bool) → Prop
  | opened {o : OpenString} (hnone : ∀ t ∈ tokens, t.endsLine = false) :
      RowEnd line tokens (some o) false
  | marked (hnone : ∀ t ∈ tokens, t.isNewline = false) : RowEnd line tokens none true
  | ended {init : List Token} {t : Token} (htokens : tokens = init ++ [t])
      (ht : t.isNewline = true) (hinit : ∀ u ∈ init, u.endsLine = false) :
      RowEnd line tokens none false
  | unended (hline : '\n' ∉ line.toList) (hnone : ∀ t ∈ tokens, t.endsLine = false) :
      RowEnd line tokens none false

structure FedRow (row : Nat) (line : String) (tokens : List Token)
    (openString : Option OpenString) (continued : Bool) : Prop where
  onLine : ∀ t ∈ tokens, t.OnLine row line
  leftOpen : ∀ o, openString = some o → o.LeftOpen row line
  rowEnd : RowEnd line tokens openString continued

theorem Token.Cut.onLine {row : Nat} {line : String} {t : Token} {after : List Char}
    (h : t.Cut row line after) : t.OnLine row line :=
  ⟨h.start_row, h.stop_row, h.line_eq, h.inner⟩

theorem FedRow.of_scan {row : Nat} {line : String} {col : Nat} {front : List Token} (depth : Int)
    (hfeed : Text.FeedLast line.toList) (hcol : line.toList.drop col ≠ [] ∨ '\n' ∉ line.toList)
    (hfront : ∀ t ∈ front, t.Cut row line (line.toList.drop col) ∧ t.isNewline = false) :
    FedRow row line (front ++ (scanLine row line col depth false).tokens)
      (scanLine row line col depth false).openString
      (scanLine row line col depth false).continued := by
  have hscans : Scans row line false (line.toList.drop col) (scanLine row line col depth false) :=
    scanFrom_scans hfeed rfl (Nat.lt_succ_self _)
  have hmarked : (line.toList.drop col).dropWhile Text.isBlank = ['\\', '\n'] →
      (scanLine row line col depth false).Marked :=
    scanFrom_marked (hfeed.drop col) (Nat.lt_succ_self _)
  refine ⟨List.forall_mem_append.mpr ⟨fun t ht => (hfront t ht).1.onLine, fun t ht => ?_⟩,
    hscans.leftOpen, ?_⟩
  · obtain ⟨after, hcut⟩ := hscans.exists_cut t ht
    exact hcut.onLine
  · generalize scanLine row line col depth false = s at hscans hmarked
    have hends : ¬s.Marked → ∀ t ∈ front, t.endsLine = false := by
      intro hs t ht
      obtain ⟨hcut, hnewline⟩ := hfront t ht
      rw [← Bool.not_eq_true, hcut.endsLine_iff, not_or, hnewline]
      exact ⟨by simp, fun hblank => hs (hmarked hblank)⟩
    by_cases hmem : '\n' ∈ line.toList
    · have hrest : line.toList.drop col ≠ [] := hcol.resolve_right fun hnot => hnot hmem
      have hlast : (line.toList.drop col).getLast? = some '\n' := by
        rw [List.getLast?_drop, if_neg (by simpa using hrest)]
        exact hfeed.getLast?_eq hmem
      rcases hscans.outcome (hfeed.drop col) hlast with ⟨⟨o, ho⟩, hsame, hnone⟩ | hs |
        ⟨hopen, hsame, init, t, htokens, ht, hinit⟩
      · have hfree : ¬s.Marked := fun hs => by simp [hs.openString] at ho
        rw [ho, hsame]
        exact .opened (List.forall_mem_append.mpr ⟨hends hfree, hnone⟩)
      · rw [hs.openString, hs.continued]
        exact .marked (List.forall_mem_append.mpr ⟨fun t ht => (hfront t ht).2, hs.tokens⟩)
      · have hfree : ¬s.Marked := fun hs => by simpa [ht] using hs.tokens t (by simp [htokens])
        rw [hopen, hsame]
        have hall : front ++ s.tokens = (front ++ init) ++ [t] := by rw [htokens, List.append_assoc]
        exact .ended hall ht (List.forall_mem_append.mpr ⟨hends hfree, hinit⟩)
    · obtain ⟨hsame, hnone⟩ :=
        hscans.outcome_of_not_mem fun h => hmem (List.mem_of_mem_drop h)
      have hall : ∀ t ∈ front ++ s.tokens, t.endsLine = false := by
        refine List.forall_mem_append.mpr ⟨hends fun hs => ?_, hnone⟩
        rw [hs.continued] at hsame
        cases hsame
      rw [hsame]
      cases s.openString with
      | none => exact .unended hmem hall
      | some o => exact .opened hall

theorem RowEnd.map {line : String} {tokens : List Token} {openString : Option OpenString}
    {continued : Bool} (h : RowEnd line tokens openString continued) (f : OpenString → OpenString) :
    RowEnd line tokens (openString.map f) continued := by
  cases h with
  | opened hnone => exact .opened hnone
  | marked hnone => exact .marked hnone
  | ended htokens ht hinit => exact .ended htokens ht hinit
  | unended hline hnone => exact .unended hline hnone

structure TokenizerState.Advances (st : TokenizerState) (line : String) (finished : Bool)
    (st' : TokenizerState) : Prop where
  row : st'.row = st.row + 1
  lastLine : st'.lastLine = line
  finished : st'.finished = finished

inductive Feeds (st : TokenizerState) (line : String) : List Token → TokenizerState → Prop
  | row {tokens : List Token} {st' : TokenizerState} (hopen : st.openString = none)
      (hrow : FedRow (st.row + 1) line tokens st'.openString st'.continued)
      (hblank : tokens = [] → st'.openString = none → st'.continued = false →
        ∀ c ∈ line.toList, Text.isInlineBlank c = true)
      (hst : st.Advances line st.finished st') : Feeds st line tokens st'
  | close {o : OpenString} {n : Nat} {tokens : List Token} {st' : TokenizerState}
      (hopen : st.openString = some o) (hend : stringEnd? o.close line.toList = some n)
      (hrow : FedRow (st.row + 1) line tokens st'.openString st'.continued)
      (hst : st.Advances line st.finished st') :
      Feeds st line
        (⟨.string, o.text ++ String.ofList (line.toList.take n), o.start, ⟨st.row + 1, n⟩,
          o.line ++ line⟩ :: tokens) st'
  | breakOff {o : OpenString} {st' : TokenizerState} (hopen : st.openString = some o)
      (hline : Text.endsWith line "\\\n" = false) (hnone : st'.openString = none)
      (hst : st.Advances line st.finished st') :
      Feeds st line
        [⟨.errorToken, o.text ++ line, o.start, ⟨st.row + 1, line.toList.length⟩, o.line⟩] st'
  | goOn {o : OpenString} {st' : TokenizerState} (hopen : st.openString = some o)
      (hmore : st'.openString = some { o with text := o.text ++ line, line := o.line ++ line })
      (hsame : st'.continued = st.continued) (hst : st.Advances line st.finished st') :
      Feeds st line [] st'
  | ends {st' : TokenizerState} (hopen : st.openString = none)
      (hline : ∀ c ∈ line.toList, Text.isInlineBlank c = true) (hnone : st'.openString = none)
      (hends : st'.continued = false) (hst : st.Advances line true st') :
      Feeds st line (closing { st with row := st.row + 1, lastLine := line } st.lastLine) st'

theorem indentation_snd (width chars : Nat) (cs : List Char) :
    (indentation width chars cs).2 = chars + (cs.takeWhile Text.isInlineBlank).length := by
  fun_induction indentation width chars cs with
  | case1 width chars cs ih =>
    rw [ih, List.takeWhile_cons_of_pos rfl, List.length_cons]
    omega
  | case2 width chars cs ih =>
    rw [ih, List.takeWhile_cons_of_pos rfl, List.length_cons]
    omega
  | case3 width chars cs ih =>
    rw [ih, List.takeWhile_cons_of_pos rfl, List.length_cons]
    omega
  | case4 cs width chars h1 h2 h3 =>
    have : cs.takeWhile Text.isInlineBlank = [] := by
      cases cs with
      | nil => rfl
      | cons c cs =>
        refine List.takeWhile_cons_of_neg ?_
        simp only [Text.isInlineBlank, Bool.or_eq_true, beq_iff_eq]
        rintro ((rfl | rfl) | rfl)
        · exact h1 cs rfl
        · exact h2 cs rfl
        · exact h3 cs rfl
    rw [this]
    rfl

namespace TokenizerState

variable {st st' : TokenizerState} {line : String} {tokens : List Token}

theorem fedRow_scanOn (st : TokenizerState) {col : Nat} {front : List Token}
    (hfeed : Text.FeedLast line.toList)
    (hcol : line.toList.drop col ≠ [] ∨ '\n' ∉ line.toList) (hcontinued : st.continued = false)
    (hfront : ∀ t ∈ front, t.Cut st.row line (line.toList.drop col) ∧ t.isNewline = false) :
    FedRow st.row line (front ++ (st.scanOn line col).1) (st.scanOn line col).2.openString
      (st.scanOn line col).2.continued := by
  have hscan := FedRow.of_scan st.depth hfeed hcol hfront
  unfold scanOn
  rw [hcontinued]
  refine ⟨hscan.onLine, fun o ho => ?_, hscan.rowEnd.map _⟩
  obtain ⟨o', ho', rfl⟩ := Option.map_eq_some_iff.mp ho
  obtain ⟨hstart, hline, hquote, hmem⟩ := hscan.leftOpen o' ho'
  exact ⟨hstart, hline, hquote, hmem⟩

theorem blank_of_scanOn (st : TokenizerState) {col : Nat} (hfeed : Text.FeedLast line.toList)
    (hcontinued : st.continued = false) (htokens : (st.scanOn line col).1 = [])
    (hopen : (st.scanOn line col).2.openString = none)
    (hends : (st.scanOn line col).2.continued = false) :
    ∀ c ∈ line.toList.drop col, Text.isInlineBlank c = true := by
  unfold scanOn at htokens hopen hends
  rw [hcontinued] at htokens hopen hends
  have hscans : Scans st.row line false (line.toList.drop col)
      (scanLine st.row line col st.depth false) := scanFrom_scans hfeed rfl (Nat.lt_succ_self _)
  exact hscans.blank_of_nil htokens (Option.map_eq_none_iff.mp hopen) hends

theorem cut_tokenAt {row : Nat} {kind : TokenKind} {text : List Char} {col : Nat}
    (hkind : (tokenAt kind text row col line).isNewline = false) (htext : '\n' ∉ text) :
    (tokenAt kind text row col line).Cut row line (line.toList.drop (col + text.length)) :=
  ⟨rfl, rfl, rfl, ⟨col + text.length, rfl, rfl⟩, fun h => absurd h (by simp [hkind]), fun _ => by
    rwa [tokenAt, String.toList_ofList]⟩

theorem dropTrailing_ends {cs : List Char} (hfeed : Text.FeedLast cs) :
    '\n' ∉ Text.dropTrailing (fun c => c == '\r' || c == '\n') cs ∧
      ∀ c ∈ cs.drop (Text.dropTrailing (fun c => c == '\r' || c == '\n') cs).length,
        Text.isBlank c = true := by
  have happend := Text.dropTrailing_append (fun c => c == '\r' || c == '\n') cs
  generalize hcomment : Text.dropTrailing (fun c => c == '\r' || c == '\n') cs = comment
    at happend ⊢
  generalize htail : (cs.reverse.takeWhile fun c => c == '\r' || c == '\n').reverse = tail
    at happend
  constructor
  · intro hmem
    have hlast := hfeed.getLast?_eq (happend ▸ List.mem_append_left tail hmem)
    obtain ⟨before, after, rfl⟩ := List.append_of_mem hmem
    rw [← happend, List.append_assoc, List.cons_append] at hfeed
    obtain ⟨-, hnil⟩ := List.append_eq_nil_iff.mp hfeed.eq_nil
    rw [List.getLast?_eq_head?_reverse] at hlast
    obtain ⟨front, hfront⟩ := List.head?_eq_some_iff.mp hlast
    rw [hnil, hfront] at htail
    simp at htail
  · intro c hc
    rw [← happend, List.drop_left, ← htail] at hc
    have hend := List.mem_takeWhile_imp (List.mem_reverse.mp hc)
    simp only [Bool.or_eq_true, beq_iff_eq] at hend
    rcases hend with rfl | rfl <;> decide

theorem fedRow_comment {row chars : Nat} {comment after : List Char}
    (hrest : line.toList.drop (chars + comment.length) = after) (hcomment : '\n' ∉ comment)
    (hafter : ∀ c ∈ after, Text.isBlank c = true) :
    FedRow row line
      [tokenAt .comment comment row chars line,
        tokenAt .lineBreak after row (chars + comment.length) line] none false := by
  have hcut : (tokenAt .comment comment row chars line).Cut row line after :=
    hrest ▸ cut_tokenAt rfl hcomment
  have hends : (tokenAt .comment comment row chars line).endsLine = false := by
    rw [← Bool.not_eq_true, hcut.endsLine_iff, List.dropWhile_eq_nil_iff.mpr hafter]
    simp [tokenAt, Token.isNewline]
  refine ⟨List.forall_mem_cons.mpr ⟨hcut.onLine, ?_⟩, fun o ho => ?_, ?_⟩
  · exact List.forall_mem_singleton.mpr ⟨rfl, rfl, rfl, fun h => by cases h⟩
  · cases ho
  · exact .ended (List.singleton_append).symm rfl (List.forall_mem_singleton.mpr hends)

theorem feeds_of_feedIndented (hfeed : Text.FeedLast line.toList) (hopen : st.openString = none)
    (hcontinued : st.continued = false)
    (h : { st with row := st.row + 1, lastLine := line }.feedIndented st.lastLine line =
      .ok (tokens, st')) : Feeds st line tokens st' := by
  unfold feedIndented at h
  have hchars := indentation_snd 0 0 line.toList
  rw [Nat.zero_add] at hchars
  dsimp only at h
  generalize hindent : indentation 0 0 line.toList = indent at h hchars
  obtain ⟨width, chars⟩ := indent
  dsimp only at h hchars
  have hblanks : ∀ c ∈ line.toList.take chars, Text.isInlineBlank c = true := by
    intro c hc
    rw [hchars, take_length_takeWhile] at hc
    exact List.mem_takeWhile_imp hc
  split at h
  · rename_i hnil
    cases h
    refine .ends hopen ?_ hopen hcontinued ⟨rfl, rfl, rfl⟩
    rwa [List.take_of_length_le (List.drop_eq_nil_iff.mp hnil)] at hblanks
  · rename_i c rest hrest
    have hcol : line.toList.drop chars ≠ [] ∨ '\n' ∉ line.toList := .inl (by simp [hrest])
    split at h
    · cases h
      refine .row hopen ?_ (fun h => by cases h) ⟨rfl, rfl, rfl⟩
      rw [hopen, hcontinued]
      obtain ⟨hcomment, hafter⟩ := dropTrailing_ends (hrest ▸ hfeed.drop chars)
      refine fedRow_comment ?_ hcomment hafter
      rw [← List.drop_drop, hrest]
    · split at h
      · cases h
        refine .row hopen ?_ (fun h => by cases h) ⟨rfl, rfl, rfl⟩
        rw [hopen, hcontinued]
        refine ⟨List.forall_mem_singleton.mpr ⟨rfl, rfl, rfl, fun h => by cases h⟩, ?_, ?_⟩
        · intro o ho
          cases ho
        · exact .ended (List.nil_append _).symm rfl (List.forall_mem_nil _)
      · split at h
        · cases h
          refine .row hopen ?_ (fun h => by cases h) ⟨rfl, rfl, rfl⟩
          have htext : '\n' ∉ line.toList.take chars := fun hmem => by cases hblanks _ hmem
          have hlength : (line.toList.take chars).length = chars := by
            rw [hchars, take_length_takeWhile]
          have hcut : (tokenAt .indent (line.toList.take chars) (st.row + 1) 0 line).Cut
              (st.row + 1) line (line.toList.drop (0 + (line.toList.take chars).length)) :=
            cut_tokenAt rfl htext
          rw [hlength, Nat.zero_add] at hcut
          exact fedRow_scanOn
            { st with row := st.row + 1, indents := width :: st.indents, lastLine := line }
            hfeed hcol hcontinued (List.forall_mem_singleton.mpr ⟨hcut, rfl⟩)
        · split at h
          · cases h
          · cases h
            refine .row hopen ?_ (fun hnil hclosed hends => ?_) ⟨rfl, rfl, rfl⟩
            · refine fedRow_scanOn { st with
                row := st.row + 1
                indents := st.indents.dropWhile (width < ·)
                lastLine := line } hfeed hcol hcontinued fun t ht => ?_
              obtain ⟨_, _, rfl⟩ := List.mem_map.mp ht
              exact ⟨cut_tokenAt rfl List.not_mem_nil, rfl⟩
            · have hrest := blank_of_scanOn { st with
                row := st.row + 1
                indents := st.indents.dropWhile (width < ·)
                lastLine := line } hfeed hcontinued (List.append_eq_nil_iff.mp hnil).2 hclosed hends
              rw [← List.take_append_drop chars line.toList]
              exact List.forall_mem_append.mpr ⟨hblanks, hrest⟩

theorem feeds_of_feedString {o : OpenString} (hfeed : Text.FeedLast line.toList)
    (hopen : st.openString = some o) (hcontinued : st.continued = false)
    (hquote : isQuote o.close.quote = true)
    (h : { st with row := st.row + 1, lastLine := line }.feedString o line = .ok (tokens, st')) :
    Feeds st line tokens st' := by
  unfold feedString at h
  dsimp only at h
  split at h
  · cases h
  · split at h
    · rename_i n hend
      cases h
      -- the quote is not the last character of a line that ends
      have hcol : line.toList.drop n ≠ [] ∨ '\n' ∉ line.toList := by
        by_cases hmem : '\n' ∈ line.toList
        · refine .inl fun hnil => ?_
          have hlast := (stringEnd?_spec hend).2
          rw [List.take_of_length_le (List.drop_eq_nil_iff.mp hnil),
            hfeed.getLast?_eq hmem] at hlast
          rw [← Option.some.inj hlast] at hquote
          cases hquote
        · exact .inr hmem
      refine .close hopen hend ?_ ⟨rfl, rfl, rfl⟩
      exact fedRow_scanOn { st with
        row := st.row + 1
        lastLine := line
        openString := none
        brokeOff := false } hfeed hcol hcontinued (List.forall_mem_nil _)
    · split at h
      · rename_i hbreak
        cases h
        simp only [Bool.and_eq_true, Bool.not_eq_true'] at hbreak
        exact .breakOff hopen hbreak.1.2 rfl ⟨rfl, rfl, rfl⟩
      · cases h
        exact .goOn hopen rfl rfl ⟨rfl, rfl, rfl⟩

/-- The strings that a tokenizer has open are open since an earlier line. -/
structure Sane (st : TokenizerState) : Prop where
  continued : ∀ o, st.openString = some o → st.continued = false
  quote : ∀ o, st.openString = some o → isQuote o.close.quote = true

theorem feeds_of_feed (hsane : st.Sane) (hfeed : Text.FeedLast line.toList)
    (h : st.feed line = .ok (tokens, st')) : Feeds st line tokens st' := by
  unfold feed at h
  dsimp only at h
  split at h
  · rename_i o hopen
    exact feeds_of_feedString hfeed hopen (hsane.continued o hopen) (hsane.quote o hopen) h
  · rename_i hopen
    split at h
    · rename_i hfresh
      simp only [Bool.and_eq_true, Bool.not_eq_true'] at hfresh
      exact feeds_of_feedIndented hfeed hopen hfresh.2 h
    · split at h
      · cases h
      · rename_i hne
        cases h
        refine .row hopen ?_ (fun hnil hclosed hends => ?_) ⟨rfl, rfl, rfl⟩
        · have hcol : line.toList.drop 0 ≠ [] ∨ '\n' ∉ line.toList := by
            refine .inl fun hnil => hne ?_
            rw [List.drop_zero, String.toList_eq_nil_iff] at hnil
            rw [hnil]
            rfl
          exact fedRow_scanOn { st with row := st.row + 1, lastLine := line, continued := false }
            hfeed hcol rfl (List.forall_mem_nil _)
        · exact blank_of_scanOn _ hfeed rfl hnil hclosed hends

theorem feed_empty (h : st.feed "" = .ok (tokens, st')) :
    st.openString = none ∧ st.continued = false ∧
      tokens = closing { st with row := st.row + 1, lastLine := "" } st.lastLine ∧
      st.Advances "" true st' := by
  unfold feed at h
  dsimp only at h
  split at h
  · cases h
  · rename_i hopen
    split at h
    · rename_i hfresh
      simp only [Bool.and_eq_true, Bool.not_eq_true'] at hfresh
      cases h
      exact ⟨hopen, hfresh.2, rfl, ⟨rfl, rfl, rfl⟩⟩
    · cases h

end TokenizerState

variable {line : String} {tokens : List Token}

theorem RowEnd.continued_eq {o : OpenString}
    {continued : Bool} (h : RowEnd line tokens (some o) continued) : continued = false := by
  cases h
  rfl

theorem Feeds.sane {st st' : TokenizerState}
    (hsane : st.Sane) (h : Feeds st line tokens st') : st'.Sane := by
  cases h with
  | row _ hrow _ _ | close _ _ hrow _ =>
    refine ⟨fun o ho => ?_, fun o ho => (hrow.leftOpen o ho).quote⟩
    have hend := hrow.rowEnd
    rw [ho] at hend
    exact hend.continued_eq
  | breakOff _ _ hnone _ | ends _ _ hnone _ _ =>
    constructor <;> (intro o ho; rw [hnone] at ho; cases ho)
  | @goOn o _ hopen hmore hsame _ =>
    refine ⟨fun _ _ => hsame.trans (hsane.continued o hopen), fun o' ho' => ?_⟩
    rw [hmore] at ho'
    cases ho'
    exact hsane.quote o hopen

/-- A string that started in a line and has gone on over the lines after it. -/
structure OpenString.Spans (o : OpenString) (row : Nat) (first : String) (more : List String) :
    Prop where
  start_eq : ∃ col : Nat, o.start = ⟨row, col⟩ ∧
    o.text.toList = first.toList.drop col ++ more.flatMap String.toList ∧
    o.close.quote ∈ first.toList.drop col
  line_eq : o.line.toList = first.toList ++ more.flatMap String.toList

structure TokenizerState.HasRead (st : TokenizerState) (past : List String) : Prop where
  row : st.row = past.length
  lastLine : st.lastLine = past.getLast?.getD ""
  sane : st.Sane
  spans : ∀ o, st.openString = some o → ∃ older first more,
    past = older ++ first :: more ∧ o.Spans (older.length + 1) first more

theorem TokenizerState.hasRead_start : TokenizerState.HasRead {} [] :=
  ⟨rfl, rfl, ⟨fun _ h => absurd h (by simp), fun _ h => absurd h (by simp)⟩,
    fun _ h => absurd h (by simp)⟩

theorem Feeds.hasRead {st st' : TokenizerState}
    {past : List String} (hread : st.HasRead past) (h : Feeds st line tokens st') :
    st'.HasRead (past ++ [line]) := by
  have hsane := h.sane hread.sane
  have hadvances : ∀ {b}, st.Advances line b st' → st'.row = (past ++ [line]).length ∧
      st'.lastLine = (past ++ [line]).getLast?.getD "" := by
    intro b hst
    rw [hst.row, hst.lastLine, hread.row]
    simp
  have hfresh : ∀ o : OpenString, o.LeftOpen (st.row + 1) line → ∃ older first more,
      past ++ [line] = older ++ first :: more ∧ o.Spans (older.length + 1) first more := by
    intro o ho
    obtain ⟨col, hstart, htext⟩ := ho.start_eq
    refine ⟨past, line, [], rfl, ⟨col, hread.row ▸ hstart, ?_, htext ▸ ho.mem⟩, ?_⟩
    · rw [htext]
      simp
    · rw [ho.line_eq]
      simp
  cases h with
  | row _ hrow _ hst | close _ _ hrow hst =>
    exact ⟨(hadvances hst).1, (hadvances hst).2, hsane, fun o ho => hfresh o (hrow.leftOpen o ho)⟩
  | breakOff _ _ hnone hst | ends _ _ hnone _ hst =>
    refine ⟨(hadvances hst).1, (hadvances hst).2, hsane, fun o ho => ?_⟩
    rw [hnone] at ho
    cases ho
  | @goOn o st' hopen hmore _ hst =>
    refine ⟨(hadvances hst).1, (hadvances hst).2, hsane, fun o' ho' => ?_⟩
    rw [hmore] at ho'
    cases ho'
    obtain ⟨older, first, more, hpast, ⟨col, hstart, htext, hmem⟩, hline⟩ := hread.spans o hopen
    refine ⟨older, first, more ++ [line], ?_, ⟨col, hstart, ?_, hmem⟩, ?_⟩
    · rw [hpast]
      simp
    · rw [String.toList_append, htext]
      simp
    · rw [String.toList_append, hline]
      simp

end LintRunner.Source
