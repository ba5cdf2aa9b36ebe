import LintRunner.Proofs.PlaceOrder
import LintRunner.Proofs.ReadingOrder
import LintRunner.Proofs.TokenLayout

/-!
# Which lines the checks of physical lines see

The checks of physical lines are called when a token ends a line, for the pieces of a string over
several lines, and once more if tokens are left over at the end. From the tokens of a file follows
for which lines these calls are. They are in step with the lines of the file if and only if strings
over several lines start at the beginning of a line, a continued line has one token before its mark,
no line feed is made up for the last line, and nothing is left over behind it.
-/

namespace LintRunner.Check

open Source (Token Arranged)

/-- The lines with their numbers. -/
def numberLines : (row : Int) → List String → List (Int × String)
  | _, [] => []
  | row, line :: rest => (row, line) :: numberLines (row + 1) rest

theorem le_of_mem_numberLines {row : Int} {lines : List String} {key : Int × String}
    (h : key ∈ numberLines row lines) : row ≤ key.1 ∧ key.1 < row + lines.length := by
  induction lines generalizing row with
  | nil => cases h
  | cons line rest ih =>
    rw [numberLines, List.mem_cons] at h
    rw [List.length_cons]
    rcases h with rfl | h
    · dsimp only
      omega
    · have := ih h
      omega

theorem pairwise_numberLines (row : Int) (lines : List String) :
    (numberLines row lines).Pairwise fun a b => a.1 ≤ b.1 := by
  induction lines generalizing row with
  | nil => exact .nil
  | cons line rest ih =>
    refine List.pairwise_cons.mpr ⟨fun key hkey => ?_, ih (row + 1)⟩
    have := le_of_mem_numberLines hkey
    dsimp only
    omega

theorem filter_numberLines (row r : Int) (lines : List String) :
    (numberLines row lines).filter (fun key => key.1 = r) =
      if row ≤ r ∧ r < row + lines.length then [(r, lines.getD (r - row).toNat "")] else [] := by
  induction lines generalizing row with
  | nil =>
    rw [if_neg (by rw [List.length_nil]; omega)]
    rfl
  | cons line rest ih =>
    rw [numberLines, List.filter_cons, ih, List.length_cons]
    by_cases hrow : row = r
    · subst hrow
      rw [if_pos (decide_eq_true rfl), if_neg (by omega), if_pos (by omega), Int.sub_self]
      rfl
    · rw [if_neg (by simpa using hrow)]
      by_cases hlt : row + 1 ≤ r ∧ r < row + 1 + rest.length
      · obtain ⟨m, hm⟩ : ∃ m, (r - row).toNat = m + 1 := ⟨(r - row).toNat - 1, by omega⟩
        rw [if_pos hlt, if_pos (by omega), hm, List.getD_cons_succ,
          show (r - (row + 1)).toNat = m by omega]
      · rw [if_neg hlt, if_neg (by omega)]

theorem eq_iff_forall_filter_eq {xs ys : List (Int × String)}
    (hxs : xs.Pairwise fun a b => a.1 ≤ b.1) (hys : ys.Pairwise fun a b => a.1 ≤ b.1) :
    xs = ys ↔ ∀ r, xs.filter (fun key => key.1 = r) = ys.filter (fun key => key.1 = r) := by
  refine ⟨fun h _ => by rw [h], fun h => ?_⟩
  have htied : ∀ a : Int × String, tied (fun a b : Int × String => decide (a.1 ≤ b.1)) a =
      fun b => decide (b.1 = a.1) := by
    intro a
    funext b
    rw [tied, ← Bool.decide_and, decide_eq_decide]
    omega
  refine @eq_of_filter_tied_eq _ (fun a b => decide (a.1 ≤ b.1)) (fun a b => ?_) _ _ ?_ ?_
    fun a => ?_
  · rw [Bool.or_eq_true, decide_eq_true_iff, decide_eq_true_iff]
    exact Int.le_total a.1 b.1
  · simpa only [decide_eq_true_iff] using hxs
  · simpa only [decide_eq_true_iff] using hys
  · rw [htied]
    exact h a.1

/-- Under which number which line is checked. -/
def LineCall.key (call : LineCall) : Int × String := (call.number, call.line)

def lineKeys (t : Token) : List (Int × String) := (lineCalls t).map LineCall.key

theorem keys_pieceCalls (shown : String) (row : Int) (pieces : List String) :
    (pieceCalls shown row pieces).map LineCall.key = numberLines row (pieces.map (· ++ "\n")) := by
  induction pieces generalizing row with
  | nil => rfl
  | cons piece rest ih =>
    rw [pieceCalls, List.map_cons, List.map_cons, ih]
    rfl

variable {lines : List String} {tokens : List Token} {t : Token} {r : Int} {key : Int × String}

theorem lineKeys_of_endsLine (h : t.endsLine = true) : lineKeys t = [(t.stop.row, t.line)] := by
  rw [lineKeys, lineCalls, if_pos h]
  rfl

theorem isMultilineString_iff (h : t.kind = .string →
    t.start.row + t.text.toList.count '\n' = t.stop.row) :
    t.isMultilineString = true ↔ t.kind = .string ∧ t.start.row < t.stop.row := by
  rw [Token.isMultilineString, Bool.and_eq_true, decide_eq_true_iff, List.contains_iff_mem,
    ← List.count_pos_iff]
  refine and_congr_right fun hkind => ?_
  have := h hkind
  omega

theorem lineKeys_eq_nil (h : t.kind = .string → t.start.row + t.text.toList.count '\n' = t.stop.row)
    (hends : t.endsLine = false) (hstring : ¬(t.kind = .string ∧ t.start.row < t.stop.row)) :
    lineKeys t = [] := by
  rw [lineKeys, lineCalls, if_neg (by simp [hends]),
    if_neg fun hmulti => hstring ((isMultilineString_iff h).mp hmulti)]
  rfl

theorem exists_lineKeys_eq (h : t.Quotes lines) (hkind : t.kind = .string)
    (hstring : t.start.row + t.text.toList.count '\n' = t.stop.row) :
    ∃ older first more, (older ++ first :: more) <+: lines ∧ t.start.row = older.length + 1 ∧
      t.stop.row = older.length + 1 + more.length + 1 ∧
      ∃ col : Nat, t.start.col = col ∧ col < first.toList.length ∧
        lineKeys t = numberLines t.start.row (String.ofList (first.toList.drop col) :: more) := by
  obtain ⟨older, first, more, hlines, hstart, hstop, col, hcol, hlt, hpieces⟩ := h.made_up
  refine ⟨older, first, more, hlines, hstart, hstop, col, hcol, hlt, ?_⟩
  have hmulti : t.isMultilineString = true :=
    (isMultilineString_iff fun _ => hstring).mpr ⟨hkind, by omega⟩
  rw [lineKeys, lineCalls, if_neg (by simp [h.endsLine_eq]), if_pos hmulti, keys_pieceCalls,
    hpieces]

theorem lineKeys_cases (h : Arranged lines tokens) (ht : t ∈ tokens) :
    t.endsLine = true ∧ lineKeys t = [(t.stop.row, t.line)] ∨
      t.endsLine = false ∧ t.kind = .string ∧
        (∃ older first more, (older ++ first :: more) <+: lines ∧ t.start.row = older.length + 1 ∧
          t.stop.row = older.length + 1 + more.length + 1 ∧
          ∃ col : Nat, t.start.col = col ∧ col < first.toList.length ∧
            lineKeys t = numberLines t.start.row (String.ofList (first.toList.drop col) :: more)) ∨
      t.endsLine = false ∧ ¬(t.kind = .string ∧ t.start.row < t.stop.row) ∧ lineKeys t = [] := by
  by_cases hends : t.endsLine = true
  · exact .inl ⟨hends, lineKeys_of_endsLine hends⟩
  · rw [Bool.not_eq_true] at hends
    by_cases hstring : t.kind = .string ∧ t.start.row < t.stop.row
    · have hquotes := h.quotes t ht hstring.2 hstring.1
      exact .inr (.inl ⟨hends, hstring.1,
        exists_lineKeys_eq hquotes hstring.1 (h.strings t ht hstring.1)⟩)
    · exact .inr (.inr ⟨hends, hstring, lineKeys_eq_nil (h.strings t ht) hends hstring⟩)

theorem rows_of_mem_lineKeys (h : Arranged lines tokens) (ht : t ∈ tokens)
    (hkey : key ∈ lineKeys t) : t.start.row ≤ key.1 ∧
      (key.1 < t.stop.row ∨ key.1 = t.stop.row ∧ t.endsLine = true) := by
  rcases lineKeys_cases h ht with ⟨hends, hkeys⟩ |
    ⟨-, -, older, first, more, -, hstart, hstop, col, -, -, hkeys⟩ | ⟨-, -, hkeys⟩ <;>
    rw [hkeys] at hkey
  · rw [List.mem_singleton.mp hkey]
    exact ⟨(h.rows t ht).2.1, .inr ⟨rfl, hends⟩⟩
  · have := le_of_mem_numberLines hkey
    rw [List.length_cons] at this
    omega
  · cases hkey

theorem pairwise_keys (h : Arranged lines tokens) :
    (tokens.flatMap lineKeys).Pairwise fun a b => a.1 ≤ b.1 := by
  refine List.pairwise_flatMap.mpr ⟨fun t ht => ?_, ?_⟩
  · rcases lineKeys_cases h ht with ⟨-, hkeys⟩ |
      ⟨-, -, older, first, more, -, -, -, col, -, -, hkeys⟩ | ⟨-, -, hkeys⟩ <;> rw [hkeys]
    · exact List.pairwise_singleton _ _
    · exact pairwise_numberLines _ _
    · exact .nil
  · refine h.ordered.imp_of_mem fun ht hu hle a ha b hb => ?_
    have := rows_of_mem_lineKeys h ht ha
    have := rows_of_mem_lineKeys h hu hb
    omega

theorem filter_keys_of_uncrossed (h : Arranged lines tokens) (hr : ∀ t ∈ tokens, ¬t.Crosses r) :
    (tokens.flatMap lineKeys).filter (fun key => key.1 = r) =
      (tokens.filter fun t => t.stop.row = r && t.endsLine).map fun t => (r, t.line) := by
  have hone : ∀ t ∈ tokens, (lineKeys t).filter (fun key => key.1 = r) =
      if t.stop.row = r && t.endsLine then [(r, t.line)] else [] := by
    intro t ht
    rcases lineKeys_cases h ht with ⟨hends, hkeys⟩ |
      ⟨hends, -, older, first, more, -, hstart, hstop, col, -, -, hkeys⟩ | ⟨hends, -, hkeys⟩ <;>
      rw [hkeys, hends]
    · rw [List.filter_cons, Bool.and_true]
      split
      · rename_i hstop
        rw [← of_decide_eq_true hstop]
        rfl
      · rfl
    · rw [Bool.and_false, filter_numberLines, if_neg fun hrow => hr t ht ⟨hrow.1, ?_⟩]
      · rfl
      · rw [List.length_cons] at hrow
        omega
    · rw [Bool.and_false]
      rfl
  clear h hr
  induction tokens with
  | nil => rfl
  | cons t rest ih =>
    obtain ⟨ht, hrest⟩ := List.forall_mem_cons.mp hone
    rw [List.flatMap_cons, List.filter_append, ht, ih hrest, List.filter_cons]
    split <;> rfl

theorem filter_keys_of_crosses (h : Arranged lines tokens) (ht : t ∈ tokens) (hr : t.Crosses r) :
    (tokens.flatMap lineKeys).filter (fun key => key.1 = r) =
      (lineKeys t).filter fun key => key.1 = r := by
  obtain ⟨before, after, rfl⟩ := List.append_of_mem ht
  obtain ⟨-, hafter, hbefore⟩ := List.pairwise_append.mp h.ordered
  have hafter := (List.pairwise_cons.mp hafter).1
  have hnone : ∀ {us : List Token}, (∀ u ∈ us, ∀ key ∈ lineKeys u, key.1 ≠ r) →
      (us.flatMap lineKeys).filter (fun key => key.1 = r) = [] := by
    intro us hus
    refine List.filter_eq_nil_iff.mpr fun key hkey => ?_
    obtain ⟨u, hu, hkey⟩ := List.mem_flatMap.mp hkey
    simpa using hus u hu key hkey
  rw [List.flatMap_append, List.flatMap_cons, List.filter_append, List.filter_append,
    hnone fun u hu key hkey => ?_, hnone fun u hu key hkey => ?_, List.nil_append, List.append_nil]
  · have hmem : u ∈ before ++ t :: after := by simp [hu]
    have hle := hafter u hu
    have hkey := (rows_of_mem_lineKeys h hmem hkey).1
    have hlt := hr.2
    omega
  · have hmem : u ∈ before ++ t :: after := by simp [hu]
    have hle := hbefore u hu t List.mem_cons_self
    have hstart := hr.1
    rcases (rows_of_mem_lineKeys h hmem hkey).2 with hlt | ⟨hstop, hends⟩
    · omega
    · rintro rfl
      exact h.crossed t ht u hmem hends (hstop ▸ hr)

theorem filter_lineKeys_of_crosses (h : Arranged lines tokens) (ht : t ∈ tokens)
    (hr : t.Crosses r) :
    (lineKeys t).filter (fun key => key.1 = r) =
      if t.kind = .string then
        [(r, if r = t.start.row then
            String.ofList ((lines.getD (r - 1).toNat "").toList.drop t.start.col.toNat)
          else lines.getD (r - 1).toNat "")]
      else [] := by
  have hcrosses : t.start.row < t.stop.row := Int.lt_of_le_of_lt hr.1 hr.2
  rcases lineKeys_cases h ht with ⟨hends, hkeys⟩ |
    ⟨-, hkind, older, first, more, ⟨rest, rfl⟩, hstart, hstop, col, hcol, -, hkeys⟩ |
    ⟨-, hstring, hkeys⟩
  · have hkind : t.kind ≠ .string := by
      intro hkind
      cases (h.quotes t ht hcrosses hkind).endsLine_eq.symm.trans hends
    have hother : t.stop.row ≠ r := Int.ne_of_gt hr.2
    rw [hkeys, if_neg hkind, List.filter_cons_of_neg (by simpa using hother), List.filter_nil]
  · have hget : ∀ i, (older ++ first :: more ++ rest).getD (older.length + i) "" =
        (first :: (more ++ rest)).getD i "" := by
      intro i
      rw [List.append_assoc, List.getD_append_right _ _ _ _ (Nat.le_add_right _ _),
        Nat.add_sub_cancel_left, List.cons_append]
    have hrow : (r - 1).toNat = older.length + (r - t.start.row).toNat := by
      have := hr.1
      omega
    have hlast : r < t.start.row + (String.ofList (first.toList.drop col) :: more).length := by
      have := hr.2
      rw [List.length_cons]
      omega
    rw [hkeys, filter_numberLines, if_pos ⟨hr.1, hlast⟩, if_pos hkind, hrow, hget]
    by_cases hfirst : r = t.start.row
    · rw [if_pos hfirst, hfirst, Int.sub_self, hcol]
      rfl
    · obtain ⟨i, hi⟩ : ∃ i, (r - t.start.row).toNat = i + 1 :=
        ⟨(r - t.start.row).toNat - 1, by have := hr.1; omega⟩
      have hlt : i < more.length := by
        have := hr.2
        omega
      rw [if_neg hfirst, hi, List.getD_cons_succ, List.getD_cons_succ, List.getD_append _ _ _ _ hlt]
  · rw [hkeys, if_neg fun hkind => hstring ⟨hkind, hcrosses⟩]
    rfl

/-! ## Calls in step with the lines -/

/-- The tokens at hand after a token. At the end of a line outside of brackets those of a statement
are done with, and so is a blank line; layout stays. -/
def handAfter (depth : Int) (hand : List Token) (t : Token) : List Token :=
  if depth = 0 && t.isNewline then
    if t.kind = .lineBreak && hand.isEmpty || (hand ++ [t]).any (!·.isLayout) then []
    else hand ++ [t]
  else hand ++ [t]

/-- The tokens at hand after several tokens. -/
def handAfterAll : (depth : Int) → (hand : List Token) → List Token → List Token
  | _, hand, [] => hand
  | depth, hand, t :: rest => handAfterAll (depthAfter depth t) (handAfter depth hand t) rest

theorem handAfterAll_concat_ne_nil (ht : t.isNewline = false) (depth : Int) (hand init : List Token) :
    handAfterAll depth hand (init ++ [t]) ≠ [] := by
  induction init generalizing depth hand with
  | nil => simp [handAfterAll, handAfter, ht]
  | cons u rest ih => exact ih _ _

/-- The call for tokens that are left over at the end: one for the last line. -/
def restCalls (lines : List String) (left : List Token) : List LineCall :=
  if left.isEmpty then []
  else lines.getLast?.toList.map fun line => ⟨lines.length, line, .none, false⟩

def checkedLines (lines : List String) (tokens : List Token) : List (Int × String) :=
  tokens.flatMap lineKeys ++ (restCalls lines (handAfterAll 0 [] tokens)).map LineCall.key

/-- What makes the calls keep step with the lines. -/
structure InStep (lines : List String) (tokens : List Token) : Prop where
  strings : ∀ t ∈ tokens, t.start.row < t.stop.row → t.kind = .string ∧ t.start.col = 0
  /-- Where a line goes on on the next one, a single token stands before the mark. -/
  marks : ∀ r : Int, 1 ≤ r → r < lines.length → (∀ t ∈ tokens, ¬t.Crosses r) →
    (∀ t ∈ tokens, t.isNewline = true → t.stop.row ≠ r) →
    (tokens.filter fun t => t.stop.row = r && t.endsLine).length = 1
  shown : ∀ t ∈ tokens, t.isNewline = true → t.line ≠ ""
  /-- Nothing is left over behind the last line feed. -/
  left : handAfterAll 0 [] tokens ≠ [] → ∀ t ∈ tokens, t.isNewline = true → t.stop.row ≠ lines.length

theorem filter_restCalls (left : List Token) :
    ((restCalls lines left).map LineCall.key).filter (fun key => key.1 = r) =
      if left ≠ [] ∧ lines ≠ [] ∧ r = lines.length then [(r, lines.getD (r - 1).toNat "")]
      else [] := by
  rw [restCalls]
  by_cases hleft : left = []
  · rw [if_pos (List.isEmpty_iff.mpr hleft), if_neg fun h => h.1 hleft]
    rfl
  · rw [if_neg fun h => hleft (List.isEmpty_iff.mp h)]
    rcases lines.eq_nil_or_concat with rfl | ⟨init, last, rfl⟩
    · rw [if_neg fun h => h.2.1 rfl]
      rfl
    · rw [List.concat_eq_append, List.getLast?_concat, List.length_append, List.length_singleton]
      by_cases hr : r = ((init.length + 1 : Nat) : Int)
      · subst hr
        have hlast : (init ++ [last]).getD (((init.length + 1 : Nat) : Int) - 1).toNat "" =
            last := by
          rw [show (((init.length + 1 : Nat) : Int) - 1).toNat = init.length by omega]
          simp
        rw [if_pos ⟨hleft, by simp, rfl⟩, hlast]
        simp [LineCall.key]
      · rw [if_neg fun h => hr h.2.2]
        refine List.filter_eq_nil_iff.mpr fun key hkey => ?_
        rw [List.mem_singleton.mp hkey, decide_eq_true_iff]
        exact Ne.symm hr

theorem rows_of_mem_restCalls {left : List Token}
    (hkey : key ∈ (restCalls lines left).map LineCall.key) :
    1 ≤ key.1 ∧ key.1 = lines.length := by
  obtain ⟨call, hcall, rfl⟩ := List.mem_map.mp hkey
  rw [restCalls] at hcall
  split at hcall
  · cases hcall
  · obtain ⟨line, hline, rfl⟩ := List.mem_map.mp hcall
    have hmem := List.mem_of_getLast? (Option.mem_toList.mp hline)
    have := List.length_pos_of_mem hmem
    refine ⟨?_, rfl⟩
    dsimp only [LineCall.key]
    omega

theorem rows_of_mem_keys (h : Arranged lines tokens)
    (hkey : key ∈ tokens.flatMap lineKeys) : 1 ≤ key.1 ∧ key.1 ≤ lines.length := by
  obtain ⟨t, ht, hkey⟩ := List.mem_flatMap.mp hkey
  have := rows_of_mem_lineKeys h ht hkey
  have := h.rows t ht
  omega

theorem rows_of_mem_checkedLines (h : Arranged lines tokens)
    (hkey : key ∈ checkedLines lines tokens) : 1 ≤ key.1 ∧ key.1 ≤ lines.length := by
  rcases List.mem_append.mp hkey with hkey | hkey
  · exact rows_of_mem_keys h hkey
  · obtain ⟨hpos, hlast⟩ := rows_of_mem_restCalls hkey
    exact ⟨hpos, Int.le_of_eq hlast⟩

theorem pairwise_checkedLines (h : Arranged lines tokens) :
    (checkedLines lines tokens).Pairwise fun a b => a.1 ≤ b.1 := by
  refine List.pairwise_append.mpr ⟨pairwise_keys h, ?_, fun a ha b hb => ?_⟩
  · refine List.pairwise_of_forall_mem_list fun a ha b hb => ?_
    exact Int.le_of_eq ((rows_of_mem_restCalls ha).2.trans (rows_of_mem_restCalls hb).2.symm)
  · rw [(rows_of_mem_restCalls hb).2]
    exact (rows_of_mem_keys h ha).2

theorem filter_checkedLines (lines : List String) (tokens : List Token) (r : Int) :
    (checkedLines lines tokens).filter (fun key => key.1 = r) =
      (tokens.flatMap lineKeys).filter (fun key => key.1 = r) ++
        if handAfterAll 0 [] tokens ≠ [] ∧ lines ≠ [] ∧ r = lines.length then
          [(r, lines.getD (r - 1).toNat "")]
        else [] := by
  rw [checkedLines, List.filter_append, filter_restCalls]

namespace InStep

theorem line_eq (h : InStep lines tokens) (harranged : Arranged lines tokens) (ht : t ∈ tokens)
    (hends : t.endsLine = true) : t.line = lines.getD (t.stop.row - 1).toNat "" := by
  have hsame : t.start.row = t.stop.row := by
    refine Int.le_antisymm (harranged.rows t ht).2.1 (Int.not_lt.mp fun hlt => ?_)
    cases (harranged.quotes t ht hlt (h.strings t ht hlt).1).endsLine_eq.symm.trans hends
  refine (harranged.lined t ht hends hsame).2.resolve_right ?_
  rintro ⟨hnewline, hmade⟩
  exact h.shown t ht hnewline hmade

theorem filter_of_crosses (h : InStep lines tokens) (harranged : Arranged lines tokens)
    (ht : t ∈ tokens) (hr : t.Crosses r) :
    (checkedLines lines tokens).filter (fun key => key.1 = r) =
      [(r, lines.getD (r - 1).toNat "")] := by
  obtain ⟨hkind, hcol⟩ := h.strings t ht (Int.lt_of_le_of_lt hr.1 hr.2)
  have hnotlast : r ≠ lines.length := by
    have := (harranged.rows t ht).2.2
    have := hr.2
    omega
  rw [filter_checkedLines, filter_keys_of_crosses harranged ht hr,
    filter_lineKeys_of_crosses harranged ht hr, if_pos hkind, hcol]
  simp only [Int.toNat_zero, List.drop_zero, String.ofList_toList, ite_self]
  rw [if_neg fun hrest => hnotlast hrest.2.2, List.append_nil]

theorem filter_of_newline (h : InStep lines tokens) (harranged : Arranged lines tokens)
    (ht : t ∈ tokens) (hnewline : t.isNewline = true) :
    (checkedLines lines tokens).filter (fun key => key.1 = t.stop.row) =
      [(t.stop.row, lines.getD (t.stop.row - 1).toNat "")] := by
  have hends := Token.endsLine_of_isNewline hnewline
  rw [filter_checkedLines, filter_keys_of_uncrossed harranged fun u hu =>
    harranged.crossed u hu t ht hends, harranged.newline h.shown t ht hnewline, if_neg,
    List.append_nil, List.map_singleton, h.line_eq harranged ht hends]
  exact fun hrest => h.left hrest.1 t ht hnewline hrest.2.2

theorem filter_of_mark (h : InStep lines tokens) (harranged : Arranged lines tokens)
    (hpos : 1 ≤ r) (hlt : r < lines.length) (huncrossed : ∀ t ∈ tokens, ¬t.Crosses r)
    (hnone : ∀ t ∈ tokens, t.isNewline = true → t.stop.row ≠ r) :
    (checkedLines lines tokens).filter (fun key => key.1 = r) =
      [(r, lines.getD (r - 1).toNat "")] := by
  obtain ⟨t, hmark⟩ := List.length_eq_one_iff.mp (h.marks r hpos hlt huncrossed hnone)
  have hmem : t ∈ tokens.filter fun t => t.stop.row = r && t.endsLine := by
    rw [hmark]
    exact List.mem_cons_self
  obtain ⟨ht, hrow⟩ := List.mem_filter.mp hmem
  rw [Bool.and_eq_true, decide_eq_true_iff] at hrow
  obtain ⟨rfl, hends⟩ := hrow
  rw [filter_checkedLines, filter_keys_of_uncrossed harranged huncrossed, hmark,
    if_neg fun hrest => Int.ne_of_lt hlt hrest.2.2, List.append_nil, List.map_singleton,
    h.line_eq harranged ht hends]

theorem filter_of_last (h : InStep lines tokens) (harranged : Arranged lines tokens)
    (hne : lines ≠ []) (huncrossed : ∀ t ∈ tokens, ¬t.Crosses lines.length)
    (hnone : ∀ t ∈ tokens, t.isNewline = true → t.stop.row ≠ lines.length) :
    (checkedLines lines tokens).filter (fun key => key.1 = (lines.length : Int)) =
      [((lines.length : Int), lines.getD ((lines.length : Int) - 1).toNat "")] := by
  obtain ⟨hquiet, init, t, hconcat, hlast⟩ :=
    harranged.last hne hnone fun t ht hlt => (h.strings t ht hlt).1
  have hleft : handAfterAll 0 [] tokens ≠ [] := by
    rw [hconcat]
    exact handAfterAll_concat_ne_nil hlast 0 [] init
  have hnomark : (tokens.filter fun t => t.stop.row = (lines.length : Int) && t.endsLine) = [] := by
    refine List.filter_eq_nil_iff.mpr fun t ht hrow => ?_
    rw [Bool.and_eq_true, decide_eq_true_iff] at hrow
    cases (hquiet t ht hrow.1).symm.trans hrow.2
  rw [filter_checkedLines, filter_keys_of_uncrossed harranged huncrossed, hnomark,
    if_pos ⟨hleft, hne, rfl⟩, List.map_nil, List.nil_append]

end InStep

theorem checkedLines_eq_of_inStep (harranged : Arranged lines tokens) (h : InStep lines tokens) :
    checkedLines lines tokens = numberLines 1 lines := by
  refine (eq_iff_forall_filter_eq (pairwise_checkedLines harranged)
    (pairwise_numberLines 1 lines)).mpr fun r => ?_
  rw [filter_numberLines]
  split
  · rename_i hr
    by_cases hcrossed : ∃ t ∈ tokens, t.Crosses r
    · obtain ⟨t, ht, hcrosses⟩ := hcrossed
      exact h.filter_of_crosses harranged ht hcrosses
    have huncrossed : ∀ t ∈ tokens, ¬t.Crosses r := fun t ht hcrosses =>
      hcrossed ⟨t, ht, hcrosses⟩
    by_cases hnewline : ∃ t ∈ tokens, t.isNewline = true ∧ t.stop.row = r
    · obtain ⟨t, ht, hnewline, rfl⟩ := hnewline
      exact h.filter_of_newline harranged ht hnewline
    have hnone : ∀ t ∈ tokens, t.isNewline = true → t.stop.row ≠ r :=
      fun t ht hends hrow => hnewline ⟨t, ht, hends, hrow⟩
    rcases Int.lt_or_eq_of_le (show r ≤ lines.length by omega) with hlt | rfl
    · exact h.filter_of_mark harranged hr.1 hlt huncrossed hnone
    · exact h.filter_of_last harranged (List.length_pos_iff.mp (by omega)) huncrossed hnone
  · rename_i hr
    refine List.filter_eq_nil_iff.mpr fun key hkey hrow => hr ?_
    have hrows := rows_of_mem_checkedLines harranged hkey
    have := of_decide_eq_true hrow
    omega

theorem filter_keys_of_eq (h : checkedLines lines tokens = numberLines 1 lines) (hpos : 1 ≤ r)
    (hle : r ≤ lines.length) :
    (tokens.flatMap lineKeys).filter (fun key => key.1 = r) ++
      (if handAfterAll 0 [] tokens ≠ [] ∧ lines ≠ [] ∧ r = lines.length then
        [(r, lines.getD (r - 1).toNat "")]
      else []) = [(r, lines.getD (r - 1).toNat "")] := by
  rw [← filter_checkedLines, h, filter_numberLines, if_pos ⟨hpos, by omega⟩]

theorem filter_keys_of_lt (h : checkedLines lines tokens = numberLines 1 lines) (hpos : 1 ≤ r)
    (hlt : r < lines.length) :
    (tokens.flatMap lineKeys).filter (fun key => key.1 = r) =
      [(r, lines.getD (r - 1).toNat "")] := by
  have hrow := filter_keys_of_eq h hpos (Int.le_of_lt hlt)
  rwa [if_neg fun hrest => Int.ne_of_lt hlt hrest.2.2, List.append_nil] at hrow

theorem mem_keys_of_endsLine (ht : t ∈ tokens) (hends : t.endsLine = true) :
    (t.stop.row, t.line) ∈ (tokens.flatMap lineKeys).filter (fun key => key.1 = t.stop.row) := by
  refine List.mem_filter.mpr ⟨List.mem_flatMap.mpr ⟨t, ht, ?_⟩, decide_eq_true rfl⟩
  rw [lineKeys_of_endsLine hends]
  exact List.mem_cons_self

/-- A line that is seen whole has no string over several lines that starts in it behind others. -/
theorem string_of_checkedLines_eq (harranged : Arranged lines tokens)
    (h : checkedLines lines tokens = numberLines 1 lines) (ht : t ∈ tokens)
    (hlt : t.start.row < t.stop.row) : t.kind = .string ∧ t.start.col = 0 := by
  have hrows := harranged.rows t ht
  have hcrosses : t.Crosses t.start.row := ⟨Int.le_refl _, hlt⟩
  have hfirst := filter_keys_of_lt h hrows.1 (by omega)
  rw [filter_keys_of_crosses harranged ht hcrosses,
    filter_lineKeys_of_crosses harranged ht hcrosses] at hfirst
  by_cases hkind : t.kind = .string
  · refine ⟨hkind, ?_⟩
    rw [if_pos hkind, if_pos rfl, List.singleton_inj, Prod.mk.injEq] at hfirst
    obtain ⟨col, hcol, hshort⟩ := (harranged.quotes t ht hlt hkind).col_lt
    have hlength := congrArg (fun s => s.toList.length) hfirst.2
    simp only [String.toList_ofList, List.length_drop, hcol, Int.toNat_natCast] at hlength
    omega
  · rw [if_neg hkind] at hfirst
    cases hfirst

theorem inStep_of_checkedLines_eq (harranged : Arranged lines tokens)
    (h : checkedLines lines tokens = numberLines 1 lines) : InStep lines tokens := by
  refine ⟨fun t ht hlt => string_of_checkedLines_eq harranged h ht hlt,
    fun r hpos hlt huncrossed _ => ?_, fun t ht hnewline hmade => ?_,
    fun hleft t ht hnewline hlast => ?_⟩
  · have hmark := congrArg List.length (filter_keys_of_lt h hpos hlt)
    rwa [filter_keys_of_uncrossed harranged huncrossed, List.length_map] at hmark
  · have hends := Token.endsLine_of_isNewline hnewline
    have hrows := harranged.rows t ht
    have hsame : t.start.row = t.stop.row := by
      refine Int.le_antisymm hrows.2.1 (Int.not_lt.mp fun hlt => ?_)
      rw [Token.isNewline, (string_of_checkedLines_eq harranged h ht hlt).1] at hnewline
      cases hnewline
    have hin := List.mem_append_left
      (if handAfterAll 0 [] tokens ≠ [] ∧ lines ≠ [] ∧ t.stop.row = lines.length then
        [(t.stop.row, lines.getD (t.stop.row - 1).toNat "")] else [])
      (mem_keys_of_endsLine ht hends)
    rw [filter_keys_of_eq h (by omega) hrows.2.2, List.mem_singleton, hmade,
      Prod.mk.injEq] at hin
    exact (harranged.lined t ht hends hsame).1 hin.2.symm
  · have hends := Token.endsLine_of_isNewline hnewline
    have hrows := harranged.rows t ht
    have hne : lines ≠ [] := by
      rintro rfl
      rw [List.length_nil] at hlast
      omega
    have hlength := congrArg List.length (filter_keys_of_eq h (r := t.stop.row) (by omega) hrows.2.2)
    rw [if_pos ⟨hleft, hne, hlast⟩, List.length_append] at hlength
    have := List.length_pos_of_mem (mem_keys_of_endsLine ht hends)
    simp only [List.length_singleton] at hlength
    omega

end LintRunner.Check
