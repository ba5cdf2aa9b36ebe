import LintRunner.Source.Tokenizer

/-!
# The rows of tokens

Rows count from one. A token starts on the row that is being read, or on the one where the string
that it closes was opened.
-/

namespace LintRunner.Source

/-- All tokens of a scan, and the string it leaves open, start on a row. -/
structure Scan.OnRow (row : Nat) (s : Scan) : Prop where
  tokens : ∀ t ∈ s.tokens, t.start.row = row
  openString : ∀ o, s.openString = some o → o.start.row = row

theorem Scan.OnRow.empty (row : Nat) (depth : Int) (continued : Bool) :
    Scan.OnRow row ⟨[], depth, continued, none⟩ :=
  ⟨List.forall_mem_nil _, fun _ ho => absurd ho.symm (Option.some_ne_none _)⟩

theorem Scan.OnRow.opens {row : Nat} {o : OpenString} (h : o.start.row = row) (depth : Int)
    (continued : Bool) : Scan.OnRow row ⟨[], depth, continued, some o⟩ := by
  refine ⟨List.forall_mem_nil _, fun o' ho' => ?_⟩
  cases ho'
  exact h

theorem Scan.OnRow.cons {row : Nat} {s : Scan} (h : s.OnRow row) {t : Token}
    (ht : t.start.row = row) : (s.cons t).OnRow row :=
  ⟨List.forall_mem_cons.mpr ⟨ht, h.tokens⟩, h.openString⟩

theorem scanFrom_onRow (row : Nat) (line : String) (fuel col : Nat) (rest : List Char) (depth : Int)
    (continued : Bool) : (scanFrom row line fuel col rest depth continued).OnRow row := by
  induction fuel generalizing col rest depth continued with
  | zero => exact .empty row depth continued
  | succ fuel ih =>
    rw [scanFrom]
    split
    · exact .empty row depth continued
    · dsimp only
      split
      · exact (ih _ _ _ _).cons rfl
      · exact .empty row depth continued
      · exact ih _ _ _ _
      · exact (ih _ _ _ _).cons rfl
      · exact (ih _ _ _ _).cons rfl
      · exact (ih _ _ _ _).cons rfl
      · exact (ih _ _ _ _).cons rfl
      · exact (ih _ _ _ _).cons rfl
      · split
        · exact (ih _ _ _ _).cons rfl
        · exact .opens rfl depth continued
      · split
        · exact .opens rfl depth continued
        · exact (ih _ _ _ _).cons rfl

namespace TokenizerState

/-- What was read lies on rows that count from one. -/
structure Counting (st : TokenizerState) : Prop where
  row_pos : st.lastLine ≠ "" → 1 ≤ st.row
  openString : ∀ o, st.openString = some o → 1 ≤ o.start.row

variable {st st' : TokenizerState} {line : String} {tokens : List Token}

theorem counting_start : Counting {} :=
  ⟨fun h => absurd rfl h, fun _ ho => absurd ho.symm (Option.some_ne_none _)⟩

theorem scanOn_rows (st : TokenizerState) (hrow : 1 ≤ st.row) (line : String) (col : Nat) :
    (∀ t ∈ (st.scanOn line col).1, 1 ≤ t.start.row) ∧ (st.scanOn line col).2.Counting := by
  have hscan := scanFrom_onRow st.row line ((line.toList.drop col).length + 1) col
    (line.toList.drop col) st.depth st.continued
  refine ⟨fun t ht => ?_, fun _ => hrow, fun o ho => ?_⟩
  · rw [hscan.tokens t ht]
    omega
  · obtain ⟨o', ho', rfl⟩ := Option.map_eq_some_iff.mp ho
    have := hscan.openString o' ho'
    dsimp only
    omega

theorem closing_rows {lastLine : String} (hrow : 1 ≤ st.row)
    (hlast : lastLine ≠ "" → 2 ≤ st.row) : ∀ t ∈ closing st lastLine, 1 ≤ t.start.row := by
  unfold closing
  dsimp only
  intro t ht
  rcases List.mem_append.mp ht with hfront | hend
  · rcases List.mem_append.mp hfront with hnewline | hdedent
    · by_cases hne : lastLine = ""
      · subst hne
        cases hnewline
      · have htwo := hlast hne
        have hsub := List.mem_ite_nil_left.mp hnewline
        rw [List.mem_singleton.mp hsub.2]
        dsimp only
        omega
    · obtain ⟨_, _, rfl⟩ := List.mem_map.mp hdedent
      dsimp only
      omega
  · rw [List.mem_singleton.mp hend]
    dsimp only
    omega

theorem feedString_rows {o : OpenString} (hrow : 1 ≤ st.row) (ho : 1 ≤ o.start.row)
    (hfeed : st.feedString o line = .ok (tokens, st')) :
    (∀ t ∈ tokens, 1 ≤ t.start.row) ∧ st'.Counting := by
  unfold feedString at hfeed
  dsimp only at hfeed
  split at hfeed
  · cases hfeed
  · split at hfeed
    · rename_i n _
      cases hfeed
      obtain ⟨htokens, hstate⟩ :=
        scanOn_rows { st with openString := none, brokeOff := false } hrow line n
      exact ⟨List.forall_mem_cons.mpr ⟨ho, htokens⟩, hstate⟩
    · split at hfeed
      · cases hfeed
        refine ⟨List.forall_mem_singleton.mpr ho, fun _ => hrow, fun o' ho' => ?_⟩
        cases ho'
      · cases hfeed
        refine ⟨List.forall_mem_nil _, fun _ => hrow, fun o' ho' => ?_⟩
        cases ho'
        exact ho

theorem feedIndented_rows (st : TokenizerState) {before : String} (hrow : 1 ≤ st.row)
    (hbefore : before ≠ "" → 2 ≤ st.row)
    (hnone : st.openString = none)
    (hfeed : st.feedIndented before line = .ok (tokens, st')) :
    (∀ t ∈ tokens, 1 ≤ t.start.row) ∧ st'.Counting := by
  have hstate : ∀ st₁ : TokenizerState, st₁.row = st.row → st₁.openString = none → st₁.Counting := by
    intro st₁ hsame hstring
    refine ⟨fun _ => hsame ▸ hrow, fun o ho => ?_⟩
    rw [hstring] at ho
    cases ho
  have hat : ∀ kind text col, 1 ≤ (tokenAt kind text st.row col line).start.row := by
    intro kind text col
    dsimp only [tokenAt]
    omega
  unfold feedIndented at hfeed
  dsimp only at hfeed
  split at hfeed
  · cases hfeed
    exact ⟨closing_rows hrow hbefore, hstate _ rfl hnone⟩
  · split at hfeed
    · cases hfeed
      refine ⟨List.forall_mem_cons.mpr ⟨hat _ _ _, ?_⟩, hstate _ rfl hnone⟩
      exact List.forall_mem_singleton.mpr (hat _ _ _)
    · split at hfeed
      · cases hfeed
        exact ⟨List.forall_mem_singleton.mpr (hat _ _ _), hstate _ rfl hnone⟩
      · split at hfeed
        · cases hfeed
          obtain ⟨htokens, hcounting⟩ :=
            scanOn_rows { st with indents := (indentation 0 0 line.toList).1 :: st.indents } hrow
              line (indentation 0 0 line.toList).2
          exact ⟨List.forall_mem_cons.mpr ⟨hat _ _ _, htokens⟩, hcounting⟩
        · split at hfeed
          · cases hfeed
          · cases hfeed
            obtain ⟨htokens, hcounting⟩ :=
              scanOn_rows { st with
                indents := st.indents.dropWhile ((indentation 0 0 line.toList).1 < ·) } hrow line
                (indentation 0 0 line.toList).2
            refine ⟨fun t ht => ?_, hcounting⟩
            rcases List.mem_append.mp ht with hdedent | hscanned
            · obtain ⟨_, _, rfl⟩ := List.mem_map.mp hdedent
              exact hat _ _ _
            · exact htokens t hscanned

theorem feed_rows
    (h : st.Counting) (hfeed : st.feed line = .ok (tokens, st')) :
    (∀ t ∈ tokens, 1 ≤ t.start.row) ∧ st'.Counting := by
  have hpos : 1 ≤ st.row + 1 := Nat.le_add_left 1 st.row
  unfold feed at hfeed
  dsimp only at hfeed
  split at hfeed
  · rename_i o ho
    exact feedString_rows hpos (h.openString o ho) hfeed
  · rename_i hnone
    split at hfeed
    · exact feedIndented_rows { st with row := st.row + 1, lastLine := line } hpos
        (fun hne => Nat.succ_le_succ (h.row_pos hne)) hnone hfeed
    · split at hfeed
      · cases hfeed
      · cases hfeed
        exact scanOn_rows _ hpos line 0

end TokenizerState

end LintRunner.Source
