import LintRunner.Proofs.LogicalPlaces
import LintRunner.Proofs.RunSteps
import LintRunner.Proofs.TokenRows

/-!
# Where the tokens of a file go

Tokens that are taken up stay at hand until the checks of logical lines have run on them, or until
they turn out to be a blank line. The record of a run is kept here as a ledger, with the tokens at
hand beside each entry. Wherever processing stands, the tokens that it took are the first ones that
the tokenizer gave, and they are those that are settled with those at hand after them. Tokens are
settled by a blank line, or by calls of all checks of logical lines while they are at hand.
-/

namespace LintRunner

open Source (Feed Processor Token TokenizerState)

namespace Source.Feed

/-- The tokens that were given so far, and what the tokenizer has come to unless it failed, after
one more line. -/
def take (feed : Feed) (so : List Token × Option TokenizerState) (line : String) :
    List Token × Option TokenizerState :=
  match so with
  | (given, none) => (given, none)
  | (given, some st) =>
    match feed st line with
    | .error _ => (given, none)
    | .ok (tokens, st) => (given ++ tokens, some st)

/-- What a tokenizer makes of these lines. -/
def course (feed : Feed) (lines : List String) : List Token × Option TokenizerState :=
  lines.foldl feed.take ([], some {})

variable {feed : Feed} {lines : List String} {line : String} {st : TokenizerState}
  {given : List Token}

theorem course_concat (feed : Feed) (lines : List String) (line : String) :
    feed.course (lines ++ [line]) = feed.take (feed.course lines) line := by
  rw [course, List.foldl_append]
  rfl

theorem course_concat_ok {tokens : List Token} {st' : TokenizerState}
    (h : feed.course lines = (given, some st)) (hfeed : feed st line = .ok (tokens, st')) :
    feed.course (lines ++ [line]) = (given ++ tokens, some st') := by
  simp only [course_concat, h, take, hfeed]

theorem course_grows (feed : Feed) (lines : List String) (line : String) :
    (feed.course lines).1 <+: (feed.course (lines ++ [line])).1 := by
  rw [course_concat]
  obtain ⟨given, _ | st⟩ := feed.course lines
  · exact List.prefix_rfl
  · dsimp only [take]
    split
    · exact List.prefix_rfl
    · exact List.prefix_append _ _

theorem course_rows (lines : List String) :
    ∀ t ∈ (course TokenizerState.feed lines).1, 1 ≤ t.start.row := by
  have hall : (∀ st ∈ (course TokenizerState.feed lines).2, st.Counting) ∧
      ∀ t ∈ (course TokenizerState.feed lines).1, 1 ≤ t.start.row := by
    induction lines using List.reverseRecOn with
    | nil =>
      refine ⟨?_, List.forall_mem_nil _⟩
      rintro _ ⟨⟩
      exact TokenizerState.counting_start
    | append_singleton before line ih =>
      obtain ⟨hcounting, hrows⟩ := ih
      rw [course_concat]
      rcases hcourse : course TokenizerState.feed before with ⟨given, _ | st⟩ <;>
        rw [hcourse] at hcounting hrows
      · exact ⟨hcounting, hrows⟩
      · unfold take
        dsimp only
        cases hfeed : st.feed line with
        | error why => exact ⟨by simp, hrows⟩
        | ok fed =>
          obtain ⟨hgiven, hnext⟩ := TokenizerState.feed_rows (hcounting st rfl) hfeed
          refine ⟨?_, List.forall_mem_append.mpr ⟨hrows, hgiven⟩⟩
          rintro _ ⟨⟩
          exact hnext
  exact hall.2

end Source.Feed

namespace Check

/-- The parameter for what checks of a subject look at. -/
def Subject.parameter : Subject → String
  | physicalLine => "physical_line"
  | logicalLine => "logical_line"
  | tree => "tree"

inductive LedgerEvent where
  | read (line : String)
  | taken (t : Token)
  | handled (t : Token)
  /-- A logical line is made of the tokens at hand. -/
  | opened
  /-- A check is called, with this to look at. -/
  | called (subject : Subject) (check : Checker) (object : Option Value)
  /-- The checks of logical lines have run on these tokens, which are no longer at hand. -/
  | checked (batch : List Token)
  /-- The only token at hand was counted as a blank line and deleted. -/
  | blank (t : Token)
  | lastLine (line : Option String)

structure LedgerEntry where
  event : LedgerEvent
  /-- The tokens at hand after the event. -/
  hand : List Token
  /-- The blank lines that the file has counted after the event. -/
  blankLines : Nat

namespace LedgerEvent

def ofHappening : Happening → Option LedgerEvent
  | .read line => some (read line)
  | .taken t => some (taken t)
  | .handled t => some (handled t)
  | .opened _ => some opened
  | .called subject check args => some (called subject check (args.lookup subject.parameter))
  | .completed _ _ batch => some (checked batch)
  | .dropped t => some (blank t)
  | .lastLine line => some (lastLine line)
  | .begun .. => none
  | .stored .. => none

def token? : LedgerEvent → Option Token
  | taken t => some t
  | _ => none

def line? : LedgerEvent → Option String
  | read line => some line
  | _ => none

def settled : LedgerEvent → List Token
  | checked batch => batch
  | blank t => [t]
  | _ => []

def blankLines : LedgerEvent → Nat → Nat
  | checked _, _ => 0
  | blank _, n => n + 1
  | _, n => n

end LedgerEvent

/-- All but the memories of checks is put down. -/
def LedgerEntry.watch : Watch LedgerEntry := fun p happening =>
  (LedgerEvent.ofHappening happening).map fun event => ⟨event, p.tokens, p.blankLines⟩

/-- The lines that were read so far, in order. -/
def linesRead (log : List LedgerEntry) : List String := log.reverse.filterMap (·.event.line?)

/-- The tokens that were taken so far, in order. -/
def yielded (log : List LedgerEntry) : List Token := log.reverse.filterMap (·.event.token?)

/-- The tokens that are settled, in the order of the ledger. -/
def settledTokens (log : List LedgerEntry) : List Token := log.reverse.flatMap (·.event.settled)

/-- The blank lines of the ledger since tokens were last checked, after `n` at its start. -/
def blankLinesIn (n : Nat) (log : List LedgerEntry) : Nat :=
  log.foldr (fun e => e.event.blankLines) n

/-- The tokens that were taken are the first ones that the tokenizer gave, and they are those that
are settled with those at hand after them. Those that are settled as blank lines are counted. -/
structure Accounted (feed : Feed) (start : Nat) (log : List LedgerEntry) (hand : List Token)
    (blanks : Nat) : Prop where
  stream : yielded log <+: (feed.course (linesRead log)).1
  balance : yielded log = settledTokens log ++ hand
  counted : blanks = blankLinesIn start log

/-- The entries for calls of these checks on a logical line, while its tokens are at hand. -/
def callsOn (parts : Source.LogicalParts) (batch : List Token) (blanks : Nat)
    (called : List Checker) : List LedgerEntry :=
  (called.map fun check =>
    ⟨.called .logicalLine check (some (.text parts.line)), batch, blanks⟩).reverse

/-- What else is so of an entry after the earlier ones: tokens were checked by calls of all checks
of logical lines, one after the other, on the line that they make; a blank line is a line break; and
the last line is asked for while tokens of the file are at hand. -/
def LedgerEntry.Sound (checks : List Checker) (lines : List String) (e : LedgerEntry)
    (before : List LedgerEntry) : Prop :=
  match e.event with
  | .checked batch => e.hand = [] ∧ (∃ t ∈ batch, t.isLayout = false) ∧
      ∃ parts n earlier, Source.logicalParts lines batch = .ok parts ∧
        before = callsOn parts batch n checks ++ ⟨.opened, batch, n⟩ :: earlier
  | .blank t => t.kind = .lineBreak
  | .lastLine line =>
    line = lines.getLast? ∧ e.hand ≠ [] ∧ ∀ t ∈ e.hand, t.start.row ≤ lines.length
  | _ => True

/-- The tokens still to be taken are the next ones that the tokenizer gave. -/
def Reading (feed : Feed) (log : List LedgerEntry) (here : Place) : Prop :=
  feed.course (linesRead log) = (yielded log ++ here.pending, some here.tokenizer)

/-- The ledger is right at each entry, and now, with these tokens at hand. -/
structure Ledger (feed : Feed) (checks : List Checker) (lines : List String) (start : Nat)
    (log : List LedgerEntry) (hand : List Token) (blanks : Nat) : Prop where
  entries : ∀ e before, e :: before <:+ log →
    Accounted feed start (e :: before) e.hand e.blankLines ∧ e.Sound checks lines before
  account : Accounted feed start log hand blanks
  rows : ∀ t ∈ hand, t.start.row ≤ lines.length

section

variable {feed : Feed} {checks : List Checker} {lines : List String} {log : List LedgerEntry}
  {event : LedgerEvent} {hand : List Token} {start blanks : Nat} {st : TokenizerState} {here : Place}

theorem yielded_cons (e : LedgerEntry) (log : List LedgerEntry) :
    yielded (e :: log) = yielded log ++ e.event.token?.toList := by
  rw [yielded, List.reverse_cons, List.filterMap_append]
  cases h : e.event.token? <;> simp [yielded, h]

theorem linesRead_cons (e : LedgerEntry) (log : List LedgerEntry) :
    linesRead (e :: log) = linesRead log ++ e.event.line?.toList := by
  rw [linesRead, List.reverse_cons, List.filterMap_append]
  cases h : e.event.line? <;> simp [linesRead, h]

theorem settledTokens_cons (e : LedgerEntry) (log : List LedgerEntry) :
    settledTokens (e :: log) = settledTokens log ++ e.event.settled := by
  rw [settledTokens, List.reverse_cons, List.flatMap_append, List.flatMap_singleton]
  rfl

theorem Ledger.nil : Ledger feed checks lines start [] [] start where
  entries := by simp
  account := ⟨List.nil_prefix, rfl, rfl⟩
  rows := List.forall_mem_nil _

/-- One more entry, which is right with the tokens at hand after it. -/
theorem Ledger.cons (h : Ledger feed checks lines start log hand blanks) {e : LedgerEntry}
    (haccount : Accounted feed start (e :: log) e.hand e.blankLines)
    (hsound : e.Sound checks lines log) (hrows : ∀ t ∈ e.hand, t.start.row ≤ lines.length) :
    Ledger feed checks lines start (e :: log) e.hand e.blankLines := by
  refine ⟨fun e' before hsuffix => ?_, haccount, hrows⟩
  rcases List.suffix_cons_iff.mp hsuffix with heq | hsuffix
  · obtain ⟨rfl, rfl⟩ := List.cons.inj heq
    exact ⟨haccount, hsound⟩
  · exact h.entries e' before hsuffix

/-- One more entry, which settles the first tokens at hand and takes none. -/
theorem Ledger.settle (h : Ledger feed checks lines start log hand blanks) {e : LedgerEntry}
    (htoken : e.event.token? = none) (hline : e.event.line? = none)
    (hsettled : hand = e.event.settled ++ e.hand)
    (hblanks : e.blankLines = e.event.blankLines blanks) (hsound : e.Sound checks lines log) :
    Ledger feed checks lines start (e :: log) e.hand e.blankLines := by
  refine h.cons ⟨?_, ?_, ?_⟩ hsound fun t ht => h.rows t (hsettled ▸ List.mem_append_right _ ht)
  · rw [yielded_cons, linesRead_cons, htoken, hline]
    simpa using h.account.stream
  · rw [yielded_cons, settledTokens_cons, htoken, List.append_assoc, ← hsettled]
    simpa using h.account.balance
  · exact hblanks.trans (congrArg e.event.blankLines h.account.counted)

theorem Ledger.read (h : Ledger feed checks lines start log hand blanks) (line : String) :
    Ledger feed checks lines start (⟨.read line, hand, blanks⟩ :: log) hand blanks := by
  refine h.cons (e := ⟨.read line, hand, blanks⟩) ⟨?_, ?_, h.account.counted⟩ trivial h.rows
  · rw [yielded_cons, linesRead_cons]
    exact (List.append_nil _).symm ▸ h.account.stream.trans (feed.course_grows _ line)
  · rw [yielded_cons, settledTokens_cons]
    simpa [LedgerEvent.token?, LedgerEvent.settled] using h.account.balance

theorem Ledger.taken (h : Ledger feed checks lines start log hand blanks) {t : Token}
    (hstream : yielded (⟨.taken t, hand ++ [t], blanks⟩ :: log) <+:
      (feed.course (linesRead (⟨.taken t, hand ++ [t], blanks⟩ :: log))).1)
    (hrow : t.start.row ≤ lines.length) :
    Ledger feed checks lines start (⟨.taken t, hand ++ [t], blanks⟩ :: log) (hand ++ [t])
      blanks := by
  refine h.cons (e := ⟨.taken t, hand ++ [t], blanks⟩) ⟨hstream, ?_, h.account.counted⟩ trivial ?_
  · rw [yielded_cons, settledTokens_cons, h.account.balance, List.append_assoc]
    simp [LedgerEvent.token?, LedgerEvent.settled]
  · exact List.forall_mem_append.mpr ⟨h.rows, List.forall_mem_singleton.mpr hrow⟩

theorem Reading.stream (h : Reading feed log here) :
    yielded log <+: (feed.course (linesRead log)).1 := by
  rw [h]
  exact List.prefix_append _ _

theorem Reading.idle (h : Reading feed log here) (htoken : event.token? = none)
    (hline : event.line? = none) : Reading feed (⟨event, hand, blanks⟩ :: log) here := by
  rw [Reading, yielded_cons, linesRead_cons, htoken, hline]
  simpa [Reading] using h

theorem Reading.read (h : Reading feed log here) (hused : here.pending = []) {line : String}
    {tokens : List Token} (hfeed : feed here.tokenizer line = .ok (tokens, st)) :
    Reading feed (⟨.read line, hand, blanks⟩ :: log)
      { here with tokenizer := st, pending := tokens } := by
  rw [Reading, hused, List.append_nil] at h
  rw [Reading, yielded_cons, linesRead_cons]
  exact (List.append_nil (yielded log)).symm ▸ Feed.course_concat_ok h hfeed

theorem Reading.taken (h : Reading feed log here) {t : Token} {rest : List Token}
    (hnext : here.pending = t :: rest) :
    Reading feed (⟨.taken t, hand, blanks⟩ :: log) { here with pending := rest } := by
  rw [Reading, hnext] at h
  rw [Reading, yielded_cons, linesRead_cons]
  simpa [LedgerEvent.token?, LedgerEvent.line?] using h

/-- Tokens at hand have a line, if rows count from one. -/
theorem Ledger.lastLine_ne_none (h : Ledger feed checks lines start log hand blanks)
    (hrows : ∀ t ∈ (feed.course (linesRead log)).1, 1 ≤ t.start.row) (left : List Token) (n : Nat) :
    ⟨.lastLine none, left, n⟩ ∉ log := by
  intro hmem
  obtain ⟨after, before, rfl⟩ := List.append_of_mem hmem
  obtain ⟨haccount, hnone, hne, hwithin⟩ := h.entries _ before (List.suffix_append after _)
  obtain ⟨t, ht⟩ := List.exists_mem_of_ne_nil left hne
  have hlines : lines = [] := List.getLast?_eq_none_iff.mp hnone.symm
  have hyielded : t ∈ yielded (after ++ ⟨.lastLine none, left, n⟩ :: before) := by
    have hearlier : t ∈ yielded (⟨.lastLine none, left, n⟩ :: before) :=
      haccount.balance ▸ List.mem_append_right _ ht
    rw [yielded, List.reverse_append, List.filterMap_append]
    exact List.mem_append_left _ hearlier
  have hfirst := hrows t (h.account.stream.subset hyielded)
  have hlast := hwithin t ht
  rw [hlines, List.length_nil] at hlast
  omega

end

/-- What is known of the tokens at hand and of the last entries at a point. -/
def Spot.Holds (lines : List String) (log : List LedgerEntry) (hand : List Token)
    (blanks : Nat) (called : List Checker) : Spot → Prop
  | lineOf t _ _ => ∃ earlier, hand = earlier ++ [t]
  | logicalLine _ parts => Source.logicalParts lines hand = .ok parts ∧ parts.mapping ≠ [] ∧
      ∃ earlier, log = callsOn parts hand blanks called ++ ⟨.opened, hand, blanks⟩ :: earlier
  | _ => True

def Point.Holds (lines : List String) (log : List LedgerEntry) (hand : List Token) (blanks : Nat) :
    Point → Prop
  | holding t _ => ∃ earlier, hand = earlier ++ [t]
  | built _ parts => Source.logicalParts lines hand = .ok parts
  | closed _ => ∀ t ∈ hand, t.isLayout = true
  | ended => ∀ t ∈ hand, t.isLayout = true
  | calling spot called => spot.Holds lines log hand blanks called
  | begun spot called _ => spot.Holds lines log hand blanks called
  | _ => True

def ledgerOutline (feed : Feed) (checks : Checks) (lines : List String) (start : Nat) (pt : Point) :
    Knowledge LedgerEntry := fun p log =>
  p.lines = lines ∧ Ledger feed checks.logicalLines lines start log p.tokens p.blankLines ∧
    (∀ here ∈ pt.place?, Reading feed log here) ∧ pt.Holds lines log p.tokens p.blankLines

theorem callsOn_concat (parts : Source.LogicalParts) (batch : List Token) (n : Nat)
    (called : List Checker) (check : Checker) : callsOn parts batch n (called ++ [check]) =
      ⟨.called .logicalLine check (some (.text parts.line)), batch, n⟩ ::
        callsOn parts batch n called := by
  simp [callsOn]

theorem exists_not_layout {lines : List String} {batch : List Token} {parts : Source.LogicalParts}
    (hparts : Source.logicalParts lines batch = .ok parts) (hline : parts.mapping ≠ []) :
    ∃ t ∈ batch, t.isLayout = false := by
  by_contra hnone
  refine hline ((Source.mapping_eq_nil_iff hparts).mpr fun t ht => ?_)
  exact Bool.of_not_eq_false fun hlayout => hnone ⟨t, ht, hlayout⟩

theorem upheld_ledger {feed : Feed} {checks : Checks} {lines : List String} {start : Nat} :
    Upheld feed checks LedgerEntry.watch (ledgerOutline feed checks lines start) := by
  rintro pt p happening pt' q log hstep ⟨hlines, hledger, hplace, hholds⟩
  cases hstep with
  | fail => exact ⟨hlines, hledger, by simp [Point.place?], trivial⟩
  | @readLine here _ line tokens st hused hfeed =>
    refine ⟨hlines, hledger.read line, ?_, trivial⟩
    rintro _ ⟨⟩
    exact (hplace here rfl).read hused hfeed
  | @badLine _ _ line =>
    exact ⟨hlines, hledger.read line, by simp [Point.place?], trivial⟩
  | @take here _ t rest hnext hrow =>
    have hreading : Reading feed (⟨.taken t, p.tokens ++ [t], p.blankLines⟩ :: log)
        { here with pending := rest } :=
      (hplace here rfl).taken hnext
    have hrow : t.start.row ≤ lines.length := hlines ▸ hrow
    refine ⟨hlines, hledger.taken hreading.stream hrow, ?_, p.tokens, rfl⟩
    rintro _ ⟨⟩
    exact hreading
  | stop => exact ⟨hlines, hledger, by simp [Point.place?], trivial⟩
  | look => exact ⟨hlines, hledger, hplace, hholds⟩
  | looked => exact ⟨hlines, hledger, hplace, hholds⟩
  | pass => exact ⟨hlines, hledger, hplace, trivial⟩
  | endStatement => exact ⟨hlines, hledger, hplace, trivial⟩
  | @drop t x here _ hkind hdepth hone =>
    obtain ⟨earlier, hhand⟩ := hholds
    have hone : p.still.tokens = [x] := hone
    -- the token that is looked at is the last one at hand, and there is only one
    have hx : t = x := by
      rw [hone] at hhand
      simpa using (congrArg List.getLast? hhand).symm
    refine ⟨hlines, hledger.settle rfl rfl hone rfl ?_, ?_, trivial⟩
    · exact hx ▸ hkind
    · exact fun here hhere => (hplace here hhere).idle rfl rfl
  | pause => exact ⟨hlines, hledger, hplace, trivial⟩
  | build hbuild =>
    obtain ⟨hparts, rfl⟩ := Processor.buildLogicalLine_ok hbuild
    have hlines : p.lines = lines := hlines
    exact ⟨hlines, hledger, hplace, hlines ▸ hparts⟩
  | leave hempty => exact ⟨hlines, hledger, hplace, (Source.mapping_eq_nil_iff hholds).mp hempty⟩
  | openLine hline hupdate =>
    obtain ⟨level, before, rfl⟩ := Processor.exists_of_updateState_ok hupdate
    refine ⟨hlines, hledger.settle rfl rfl rfl rfl trivial, ?_, hholds, hline, log, rfl⟩
    exact fun here hhere => (hplace here hhere).idle rfl rfl
  | @complete x _ parts =>
    obtain ⟨hparts, hline, earlier, hlog⟩ := hholds
    obtain ⟨level, text, unindented, hnext⟩ := p.exists_nextLogicalLine_eq
    rw [hnext]
    refine ⟨hlines, hledger.settle rfl rfl (List.append_nil p.tokens).symm rfl ?_, ?_,
      List.forall_mem_nil _⟩
    · exact ⟨rfl, exists_not_layout hparts hline, parts, _, earlier, hparts, hlog⟩
    · exact fun here hhere => (hplace here hhere).idle rfl rfl
  | reset => exact ⟨hlines, hledger, hplace, trivial⟩
  | resume => exact ⟨hlines, hledger, hplace, trivial⟩
  | @handle t here =>
    refine ⟨hlines, hledger.settle rfl rfl rfl rfl trivial, ?_, trivial⟩
    rintro _ ⟨⟩
    exact (hplace here rfl).idle rfl rfl
  | enough hnone =>
    have hnone : p.still.tokens = [] := hnone
    exact ⟨hlines, hledger, by simp [Point.place?], hnone ▸ List.forall_mem_nil _⟩
  | lastLine hrest hline =>
    have hsound : LedgerEntry.Sound checks.logicalLines lines
        ⟨.lastLine (some _), p.tokens, p.blankLines⟩ log :=
      ⟨hlines ▸ hline.symm, hrest, hledger.rows⟩
    exact ⟨hlines, hledger.settle rfl rfl rfl rfl hsound, by simp [Point.place?, Spot.place?],
      trivial⟩
  | noLine hrest hline =>
    have hsound : LedgerEntry.Sound checks.logicalLines lines
        ⟨.lastLine none, p.tokens, p.blankLines⟩ log :=
      ⟨hlines ▸ hline.symm, hrest, hledger.rows⟩
    exact ⟨hlines, hledger.settle rfl rfl rfl rfl hsound, by simp [Point.place?], trivial⟩
  | lastLooked => exact ⟨hlines, hledger, by simp [Point.place?, Occasion.place?], trivial⟩
  | finish => exact ⟨hlines, hledger, by simp [Point.place?], hholds⟩
  | whole => exact ⟨hlines, hledger, by simp [Point.place?, Spot.place?], trivial⟩
  | @begin spot called check =>
    obtain ⟨states, current, hturned⟩ := exists_turned_eq spot.subject check p
    rw [hturned]
    exact ⟨hlines, hledger, hplace, hholds⟩
  | @call spot called check _ found hfound =>
    refine ⟨hlines, hledger.settle rfl rfl rfl rfl trivial, ?_, ?_⟩
    · exact fun here hhere => (hplace here hhere).idle rfl rfl
    · cases spot with
      | logicalLine x parts =>
        obtain ⟨hparts, hline, earlier, rfl⟩ := hholds
        refine ⟨hparts, hline, earlier, ?_⟩
        have hobject : found.lookup "logical_line" = some (.text parts.line) :=
          Processor.lookup_argumentsFor hfound rfl
        rw [callsOn_concat, ← hobject]
        rfl
      | _ => exact hholds
  | @store spot called check _ m hwants =>
    obtain ⟨states, hstored⟩ := p.exists_setCheckerState_eq m
    rw [hstored]
    exact ⟨hlines, hledger, hplace, hholds⟩

/-- A file that has no tokens at hand yet is processed, with whatever tokenizer and checks. At every
entry of the record, and at the end even if processing fails, the tokens that were taken are the
first ones that the tokenizer gave, and they are those that are settled with those at hand after
them. Each batch that was checked holds more than layout, and all checks of logical lines were
called on its line, in order, while it was at hand; a blank line is a lone line break, and the file
counts it until a batch is checked. Processing that does not fail leaves only layout. The last line
is never asked for in vain where rows count from one, as `TokenizerState.feed` counts them. -/
theorem ledger_accounts_for_tokens (feed : Feed) {c : FileChecker} {p : Processor}
    (hp : c.processor = some p) (hfresh : p.tokens = []) :
    ∃ r d q log,
      (Recording.processTokensBy LedgerEntry.watch feed).run (c, []) = (r, d, log) ∧
      (FileChecker.processTokensBy feed).run c = (r, d) ∧ d.processor = some q ∧
      Accounted feed p.blankLines log q.tokens q.blankLines ∧
      (r = .ok () → ∀ t ∈ q.tokens, t.isLayout = true) ∧
      (∀ e before, e :: before <:+ log →
        Accounted feed p.blankLines (e :: before) e.hand e.blankLines) ∧
      (∀ batch hand n before, ⟨.checked batch, hand, n⟩ :: before <:+ log →
        hand = [] ∧ (∃ t ∈ batch, t.isLayout = false) ∧
        ∃ parts n earlier, Source.logicalParts p.lines batch = .ok parts ∧
          before = callsOn parts batch n c.checks.logicalLines ++ ⟨.opened, batch, n⟩ :: earlier) ∧
      (∀ t hand n, ⟨.blank t, hand, n⟩ ∈ log → t.kind = .lineBreak) ∧
      ((feed = TokenizerState.feed ∨ ∀ t ∈ (feed.course (linesRead log)).1, 1 ≤ t.start.row) →
        ∀ hand n, ⟨.lastLine none, hand, n⟩ ∉ log) := by
  have hstart : Known c.identity (ledgerOutline feed c.checks p.lines p.blankLines
      (.between {})) c [] := by
    refine ⟨rfl, p, hp, rfl, ?_, ?_, trivial⟩
    · have hhand : p.still.tokens = [] := hfresh
      rw [hhand]
      exact .nil
    · rintro _ ⟨⟩
      rfl
  obtain ⟨hrun, hends⟩ := Upheld.tells_processTokensBy upheld_ledger c [] hstart
  rcases hrecorded : (Recording.processTokensBy LedgerEntry.watch feed).run (c, []) with ⟨r, d, log⟩
  rw [hrecorded] at hrun hends
  obtain ⟨q, hq, hledger, hlayout⟩ : ∃ q, d.processor = some q ∧
      Ledger feed c.checks.logicalLines p.lines p.blankLines log q.tokens q.blankLines ∧
      (r = .ok () → ∀ t ∈ q.tokens, t.isLayout = true) := by
    cases r with
    | error e =>
      obtain ⟨-, q, hq, -, hledger, -⟩ := hends
      exact ⟨q, hq, hledger, fun hok => by cases hok⟩
    | ok a =>
      obtain ⟨-, q, hq, -, hledger, -, hlayout⟩ := hends
      exact ⟨q, hq, hledger, fun _ => hlayout⟩
  refine ⟨r, d, q, log, rfl, hrun, hq, hledger.account, hlayout, ?_, ?_, ?_, ?_⟩
  · exact fun e before hsuffix => (hledger.entries e before hsuffix).1
  · exact fun batch hand n before hsuffix => (hledger.entries _ before hsuffix).2
  · intro t hand n hmem
    obtain ⟨after, before, rfl⟩ := List.append_of_mem hmem
    exact (hledger.entries _ before (List.suffix_append after _)).2
  · rintro (rfl | hrows)
    · exact hledger.lastLine_ne_none (Feed.course_rows _)
    · exact hledger.lastLine_ne_none hrows

/-! A check of logical lines that finds nothing, and a file with a blank line. -/

section Bystander

def bystander : Checker where
  name := "B"
  pluginName := .text "B"
  parameters := [("logical_line", true)]
  call _ := { reply := .ok (.results .nothing), memory := none }

def spacedFile : FileChecker :=
  { filename := .text "a.py"
    displayName := .text "a.py"
    checks := { logicalLines := [bystander] }
    processor := some { filename := .text "a.py", lines := ["x\n", "\n", "y\n"] } }

/-- The calls on record, in order: who was called, on what, the texts of the tokens at hand, and the
blank lines before them. -/
def callsIn (log : List LedgerEntry) : List (String × Option Value × List String × Nat) :=
  log.reverse.filterMap fun e =>
    match e.event with
    | .called _ check object => some (check.name, object, e.hand.map (·.text), e.blankLines)
    | _ => none

/-- The texts of the tokens that were settled together, in order. -/
def settlements (log : List LedgerEntry) : List (List String) :=
  (log.reverse.map fun e => e.event.settled.map (·.text)).filter (!·.isEmpty)

theorem ledger_accounts_for_spacedFile :
    ∃ p r d q log, spacedFile.processor = some p ∧ p.tokens = [] ∧
      (Recording.processTokensBy LedgerEntry.watch TokenizerState.feed).run (spacedFile, []) =
        (r, d, log) ∧
      FileChecker.processTokens.run spacedFile = (r, d) ∧ d.processor = some q ∧
      yielded log = settledTokens log ++ q.tokens ∧ q.tokens = [] ∧
      callsIn log =
        [("B", some (.text "x"), ["x", "\n"], 0), ("B", some (.text "y"), ["y", "\n"], 1)] ∧
      settlements log = [["x", "\n"], ["\n"], ["y", "\n"]] := by
  have hlog : (fun s => s.2.1.processor.map (·.tokens) = some [] ∧ callsIn s.2.2 =
        [("B", some (.text "x"), ["x", "\n"], 0), ("B", some (.text "y"), ["y", "\n"], 1)] ∧
      settlements s.2.2 = [["x", "\n"], ["\n"], ["y", "\n"]])
      ((Recording.processTokensBy LedgerEntry.watch TokenizerState.feed).run (spacedFile, [])) := by
    beta_reduce
    decide +kernel
  obtain ⟨r, d, q, log, hrecorded, hrun, hq, haccount, -⟩ :=
    ledger_accounts_for_tokens TokenizerState.feed (c := spacedFile) rfl rfl
  rw [hrecorded] at hlog
  obtain ⟨hnone, hcalls, hsettled⟩ := hlog
  rw [hq] at hnone
  exact ⟨_, r, d, q, log, rfl, rfl, hrecorded, hrun, hq, haccount.balance, Option.some.inj hnone,
    hcalls, hsettled⟩

end Bystander

end Check

end LintRunner
