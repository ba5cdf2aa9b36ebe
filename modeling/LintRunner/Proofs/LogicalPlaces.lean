import LintRunner.Proofs.MutedStrings
import LintRunner.Proofs.Stateful
import Mathlib.Data.List.Induction

/-!
# Places of a logical line

Every character of a logical line that stands for a token is traced back to the place where the
token has it. The one exception is the first character of a token that follows another one without
a gap, but on a new row: it is traced back to where the token before it stopped.
-/

namespace LintRunner

open Stateful

namespace Source

variable {ms more : Mapping} {fits : Int → Bool} {offset : Int}

theorem entryFor_append (h : ∃ e ∈ ms, fits e.1 = true) :
    entryFor fits (ms ++ more) = entryFor fits ms := by
  induction ms with
  | nil => simp at h
  | cons e rest ih =>
    by_cases he : fits e.1 = true
    · cases rest <;> cases more <;> simp [entryFor, he]
    · obtain ⟨e', he', hfits⟩ := h
      have hrest : e' ∈ rest := by
        rcases List.mem_cons.mp he' with rfl | hin
        · contradiction
        · exact hin
      obtain ⟨d, ds, rfl⟩ := List.exists_cons_of_ne_nil (List.ne_nil_of_mem hrest)
      have hrec := ih ⟨e', hrest, hfits⟩
      simpa [entryFor, he] using hrec

theorem entryFor_concat {e : Int × Pos}
    (h : ∀ a ∈ ms, fits a.1 = false) : entryFor fits (ms ++ [e]) = some e := by
  induction ms with
  | nil => rfl
  | cons a rest ih =>
    have hrec := ih fun b hb => h b (List.mem_cons_of_mem a hb)
    cases rest with
    | nil => simp [entryFor, h a List.mem_cons_self]
    | cons d ds => simpa [entryFor, h a List.mem_cons_self] using hrec

theorem placeOf_append (h : ∃ e ∈ ms, offset ≤ e.1) :
    placeOf offset (ms ++ more) = placeOf offset ms := by
  rw [placeOf, placeOf, entryFor_append (by simpa using h)]

theorem placeOf_concat {stop : Int} {p : Pos} (h : ∀ e ∈ ms, e.1 < offset) :
    placeOf offset (ms ++ [(stop, p)]) = some ⟨p.row, p.col + offset - stop⟩ := by
  rw [placeOf, entryFor_concat]
  · rfl
  · intro e he
    simpa using h e he

namespace Token

def isCode (t : Token) : Bool := !t.isLayout && t.kind != .comment

/-- The token lies on one row of the source, whose line it knows, and its text is what stands there
between its columns. Strings are literals. -/
structure StandsIn (lines : List String) (t : Token) : Prop where
  row_pos : 1 ≤ t.start.row
  stop_row : t.stop.row = t.start.row
  line : lines[(t.start.row - 1).toNat]? = some t.line
  start_nonneg : 0 ≤ t.start.col
  start_le : t.start.col ≤ t.stop.col
  stop_le : t.stop.col ≤ t.line.length
  text : t.text.toList = slice t.line.toList t.start.col t.stop.col
  text_ne : t.text ≠ ""
  literal : t.kind = .string → IsLiteral t.text.toList

def Before (a b : Token) : Prop :=
  a.stop.row < b.start.row ∨ a.stop.row = b.start.row ∧ a.stop.col ≤ b.start.col

instance : DecidableRel Before := fun a b =>
  inferInstanceAs
    (Decidable (a.stop.row < b.start.row ∨ a.stop.row = b.start.row ∧ a.stop.col ≤ b.start.col))

end Token

theorem length_slice {cs : List Char} {i j : Int} (hi : 0 ≤ i) (hij : i ≤ j) (hj : j ≤ cs.length) :
    ((slice cs i j).length : Int) = j - i := by
  simp only [slice, sliceIndex, List.length_drop, List.length_take]
  rw [if_pos hi, if_pos (Int.le_trans hi hij)]
  omega

namespace Token.StandsIn

variable {lines : List String} {t prev : Token}

theorem stop_col (h : t.StandsIn lines) : t.stop.col = t.start.col + t.text.length := by
  have hle : t.stop.col ≤ t.line.toList.length := by
    rw [String.length_toList]
    exact h.stop_le
  have hlen := length_slice h.start_nonneg h.start_le hle
  rw [← h.text, String.length_toList] at hlen
  omega

theorem text_pos (h : t.StandsIn lines) : 0 < t.text.length := by
  have hne : t.text.length ≠ 0 := by simpa using h.text_ne
  omega

theorem exists_shown (h : t.StandsIn lines) :
    ∃ text, t.shown = .ok text ∧ text.length = t.text.length := by
  unfold Token.shown
  split
  · rename_i hstring
    obtain ⟨muted, hmuted, hlen⟩ := exists_mute?_of_isLiteral (h.literal hstring)
    rw [hmuted]
    exact ⟨String.ofList muted, rfl, by rw [String.length_ofList, hlen, String.length_toList]⟩
  · exact ⟨t.text, rfl, rfl⟩

theorem exists_last_char (h : t.StandsIn lines) :
    ∃ c, ((elementAt? lines (t.stop.row - 1)).bind fun l => elementAt? l.toList (t.stop.col - 1)) =
      some c := by
  have hrow := h.row_pos
  have hcol := h.stop_col
  have hpos := h.text_pos
  have hnonneg := h.start_nonneg
  have hline : elementAt? lines (t.stop.row - 1) = some t.line := by
    rw [elementAt?, if_pos (by rw [h.stop_row]; omega), h.stop_row, h.line]
  have hindex : (t.stop.col - 1).toNat < t.line.toList.length := by
    have hle := h.stop_le
    rw [String.length_toList]
    omega
  refine ⟨t.line.toList.get ⟨_, hindex⟩, ?_⟩
  rw [hline, Option.bind_some, elementAt?, if_pos (by omega)]
  exact List.getElem?_eq_getElem hindex

/-- There is always an answer to what separates two tokens, and on one row it is nothing only if the
second token starts where the first one stops. -/
theorem exists_separator (hprev : prev.StandsIn lines) (ht : t.StandsIn lines)
    (hbefore : prev.Before t) (text : String) :
    ∃ gap, separator lines prev.stop text t = .ok gap ∧
      (prev.stop.row = t.start.row → gap = "" → prev.stop = t.start) := by
  have hrow : prev.stop.row ≠ 0 := by
    have hpos := hprev.row_pos
    rw [hprev.stop_row]
    omega
  unfold separator
  rw [if_neg hrow]
  by_cases hsame : prev.stop.row = t.start.row
  · rw [if_neg (not_not.mpr hsame)]
    by_cases hjoin : prev.stop.col = t.start.col
    · rw [if_neg (not_not.mpr hjoin)]
      exact ⟨"", rfl, fun _ _ => Pos.ext hsame hjoin⟩
    · rw [if_pos hjoin]
      refine ⟨_, rfl, fun _ hempty => ?_⟩
      -- The tokens do not overlap, so what stands between them is as long as their distance.
      have hle : prev.stop.col ≤ t.start.col := by
        rcases hbefore with hlt | ⟨-, hle⟩
        · omega
        · exact hle
      have hnonneg : 0 ≤ prev.stop.col := Int.le_trans hprev.start_nonneg hprev.start_le
      have hstart : t.start.col ≤ t.line.toList.length := by
        rw [String.length_toList]
        exact Int.le_trans ht.start_le ht.stop_le
      have hlen := length_slice hnonneg hle hstart
      rw [← String.toList_inj, String.toList_ofList, String.toList_empty] at hempty
      rw [hempty, List.length_nil] at hlen
      omega
  · rw [if_pos hsame]
    obtain ⟨c, hc⟩ := hprev.exists_last_char
    rw [hc]
    exact ⟨_, rfl, fun h => absurd h hsame⟩

end Token.StandsIn

/-! ## Building the line -/

variable {p : LogicalParts} {lines : List String} {t : Token} {tokens : List Token}

theorem toList_joinWith_empty (pieces : List String) :
    (Text.joinWith "" pieces).toList = (pieces.map String.toList).flatten := by
  rw [Text.joinWith, String.toList_intercalate]
  induction pieces with
  | nil => rfl
  | cons s rest ih =>
    cases rest with
    | nil => simp [List.intercalate]
    | cons r rs => simpa [List.intercalate] using ih

theorem LogicalParts.line_concat {q : LogicalParts} {piece : String}
    (h : q.pieces = p.pieces ++ [piece]) : q.line = p.line ++ piece := by
  rw [← String.toList_inj, String.toList_append]
  simp [LogicalParts.line, toList_joinWith_empty, h]

theorem logicalParts_concat (lines : List String) (before : List Token) (t : Token) :
    logicalParts lines (before ++ [t]) = logicalParts lines before >>= (·.add lines t) := by
  simp [logicalParts]

theorem LogicalParts.mapping_add_eq_nil {p' : LogicalParts}
    (h : p.add lines t = .ok p') : p'.mapping = [] ↔ p.mapping = [] ∧ t.isLayout = true := by
  have hopened : p.opened t ≠ [] := by
    unfold LogicalParts.opened
    split <;> simp_all
  unfold LogicalParts.add at h
  split at h
  · cases h
    simp_all
  · split at h
    · cases h
      simp_all
    · obtain ⟨text, -, hgap⟩ := bind_ok h
      obtain ⟨gap, -, hend⟩ := bind_ok hgap
      cases hend
      simp_all

theorem mapping_eq_nil_iff
    (h : logicalParts lines tokens = .ok p) :
    p.mapping = [] ↔ ∀ t ∈ tokens, t.isLayout = true := by
  induction tokens using List.reverseRecOn generalizing p with
  | nil =>
    cases h
    simp
  | append_singleton before t ih =>
    rw [logicalParts_concat] at h
    obtain ⟨q, hq, hadd⟩ := bind_ok h
    rw [LogicalParts.mapping_add_eq_nil hadd, ih hq, List.forall_mem_append,
      List.forall_mem_singleton]

def lastCode (tokens : List Token) : Option Token := (tokens.filter Token.isCode).getLast?

theorem lastCode_concat (before : List Token) (t : Token) :
    lastCode (before ++ [t]) = if t.isCode then some t else lastCode before := by
  by_cases h : t.isCode = true <;> simp [lastCode, h]

theorem exists_lastCode (hmem : t ∈ tokens)
    (ht : t.isCode = true) : ∃ u, lastCode tokens = some u := by
  rw [← Option.isSome_iff_exists, lastCode, List.getLast?_isSome]
  exact List.ne_nil_of_mem (List.mem_filter.mpr ⟨hmem, ht⟩)

/-- Tokens that stand in the source one after the other, with no comment before the first one that
gives a piece. -/
structure Placed (lines : List String) (tokens : List Token) : Prop where
  stands : ∀ t ∈ tokens, t.isCode = true → t.StandsIn lines
  ordered : (tokens.filter Token.isCode).Pairwise Token.Before
  comments : tokens.any Token.isCode = true →
    ∀ c ∈ tokens.takeWhile (!·.isCode), c.kind ≠ .comment

namespace Placed

variable {lines : List String} {before after : List Token} {t : Token}

theorem left (h : Placed lines (before ++ after)) : Placed lines before where
  stands t ht := h.stands t (List.mem_append_left after ht)
  ordered := by
    have hordered := h.ordered
    rw [List.filter_append] at hordered
    exact (List.pairwise_append.mp hordered).1
  comments hany c hc := by
    apply h.comments (by simp [List.any_append, hany]) c
    rw [List.takeWhile_append]
    split
    · exact List.mem_append_left _ ((List.takeWhile_prefix _).subset hc)
    · exact hc

theorem lastCode_before (h : Placed lines (before ++ [t])) (ht : t.isCode = true) {prev : Token}
    (hprev : lastCode before = some prev) : prev.StandsIn lines ∧ prev.Before t := by
  have hmem : prev ∈ before.filter Token.isCode := List.mem_of_getLast? hprev
  obtain ⟨hin, hcode⟩ := List.mem_filter.mp hmem
  refine ⟨h.stands prev (List.mem_append_left _ hin) hcode, ?_⟩
  have hordered := h.ordered
  rw [List.filter_append, List.pairwise_append] at hordered
  exact hordered.2.2 prev hmem t (by simp [ht])

theorem no_comment (h : Placed lines (before ++ [t])) (ht : t.isCode = true)
    (hnone : lastCode before = none) : ∀ c ∈ before, c.kind ≠ .comment := by
  have hlayout : ∀ c ∈ before, (!c.isCode) = true := by
    intro c hc
    have hempty : before.filter Token.isCode = [] := List.getLast?_eq_none_iff.mp hnone
    simpa using List.filter_eq_nil_iff.mp hempty c hc
  intro c hc
  apply h.comments (by simp [ht]) c
  rw [List.takeWhile_append_of_pos hlayout]
  exact List.mem_append_left _ hc

end Placed

theorem LogicalParts.exists_opened_eq (p : LogicalParts) (t : Token) :
    ∃ more, p.opened t = p.mapping ++ more := by
  unfold LogicalParts.opened
  split
  · rename_i hempty
    exact ⟨_, by rw [List.isEmpty_iff.mp hempty, List.nil_append]⟩
  · exact ⟨[], (List.append_nil _).symm⟩

/-- What is known of the parts of a logical line: the tokens are accounted for up to its length,
where the mapping has the end of the last one. -/
structure Built (tokens : List Token) (p : LogicalParts) : Prop where
  length : p.line.length = p.length
  last : p.last = (lastCode tokens).map (·.stop)
  unstarted : lastCode tokens = none → p.length = 0 ∧ (∀ e ∈ p.mapping, e.1 = 0) ∧
    ((∀ c ∈ tokens, c.kind ≠ .comment) → p.mapping = [])
  started : ∀ t, lastCode tokens = some t → ∃ init,
    p.mapping = init ++ [((p.length : Int), t.stop)] ∧ ∀ e ∈ init, e.1 < p.length

namespace Built

variable {lines : List String} {before : List Token} {t : Token} {p : LogicalParts}

theorem nil : Built [] {} where
  length := rfl
  last := rfl
  unstarted _ := ⟨rfl, fun e he => absurd he List.not_mem_nil, fun _ => rfl⟩
  started t ht := by cases ht

theorem add_layout (h : Built before p) (ht : t.isLayout = true) : Built (before ++ [t]) p := by
  have hcode : t.isCode = false := by simp [Token.isCode, ht]
  have hlast : lastCode (before ++ [t]) = lastCode before := by simp [lastCode_concat, hcode]
  refine ⟨h.length, hlast ▸ h.last, fun hnone => ?_, fun u hu => h.started u (hlast ▸ hu)⟩
  obtain ⟨hzero, hentries, hempty⟩ := h.unstarted (hlast ▸ hnone)
  exact ⟨hzero, hentries, fun hc => hempty fun c hin => hc c (List.mem_append_left _ hin)⟩

theorem add_comment (h : Built before p) (ht : t.kind = .comment) :
    Built (before ++ [t]) { p with
      mapping := p.opened t, comments := p.comments ++ [t.text] } := by
  have hcode : t.isCode = false := by simp [Token.isCode, ht]
  have hlast : lastCode (before ++ [t]) = lastCode before := by simp [lastCode_concat, hcode]
  refine ⟨h.length, hlast ▸ h.last, fun hnone => ?_, fun u hu => ?_⟩
  · obtain ⟨hzero, hentries, -⟩ := h.unstarted (hlast ▸ hnone)
    refine ⟨hzero, ?_, fun hc => absurd ht (hc t (by simp))⟩
    intro e he
    dsimp only [LogicalParts.opened] at he
    split at he
    · rw [List.mem_singleton.mp he]
    · exact hentries e he
  · obtain ⟨init, hmapping, hinit⟩ := h.started u (hlast ▸ hu)
    refine ⟨init, ?_, hinit⟩
    simp [LogicalParts.opened, hmapping]

end Built

/-- The place that a character of a token's text is traced back to, when `gap` separates the token
from the one before. -/
def Token.tracedPlace (previous : Option Token) (gap : String) (t : Token) (j : Nat) : Pos :=
  match previous with
  | none => ⟨t.start.row, t.start.col + j⟩
  | some prev =>
    if j = 0 ∧ prev.start.row ≠ t.start.row ∧ gap = "" then prev.stop
    else ⟨t.start.row, t.start.col + j⟩

theorem Token.tracedPlace_of_gap {previous : Option Token} {gap : String} {t : Token} {j : Nat}
    (h : ¬(gap = "" ∧ j = 0)) :
    t.tracedPlace previous gap j = ⟨t.start.row, t.start.col + j⟩ := by
  cases previous with
  | none => rfl
  | some prev => exact if_neg fun ⟨hj, _, hgap⟩ => h ⟨hgap, hj⟩

/-- Where nothing separates two tokens on one row, the second one starts where the first one
stops. -/
theorem Token.tracedPlace_zero {previous : Option Token} {t : Token}
    (h : ∀ prev, previous = some prev → prev.start.row = t.start.row → prev.stop = t.start) :
    t.tracedPlace previous "" 0 = (previous.map (·.stop)).getD t.start := by
  have hstart : (⟨t.start.row, t.start.col + (0 : Nat)⟩ : Pos) = t.start := by simp
  cases previous with
  | none => exact hstart
  | some prev =>
    by_cases hrow : prev.start.row = t.start.row
    · simpa [tracedPlace, hrow] using (h prev rfl hrow).symm
    · simp [tracedPlace, hrow]

section Code

variable {lines : List String} {before : List Token} {t : Token} {p : LogicalParts}

theorem LogicalParts.add_eq (ht : t.isCode = true) {text gap : String} (hshown : t.shown = .ok text)
    (hgap : p.gap lines text t = .ok gap) :
    p.add lines t = .ok { p with
      pieces := p.pieces ++ [gap ++ text]
      length := p.length + (gap ++ text).length
      last := some t.stop
      mapping := p.opened t ++ [(((p.length + (gap ++ text).length : Nat) : Int), t.stop)] } := by
  obtain ⟨hlayout, hcomment⟩ : t.isLayout = false ∧ t.kind ≠ .comment := by
    simpa [Token.isCode] using ht
  unfold LogicalParts.add
  rw [if_neg (by simp [hlayout]), if_neg hcomment, hshown]
  dsimp only [bind, Except.bind]
  rw [hgap]
  rfl

namespace Built

theorem exists_gap (h : Built before p) (hplaced : Placed lines (before ++ [t]))
    (ht : t.isCode = true) (text : String) :
    ∃ gap, p.gap lines text t = .ok gap ∧ (lastCode before = none → gap = "") ∧
      ∀ prev, lastCode before = some prev → prev.start.row = t.start.row → gap = "" →
        prev.stop = t.start := by
  unfold LogicalParts.gap
  rw [h.last]
  cases hprev : lastCode before with
  | none => exact ⟨"", rfl, fun _ => rfl, fun _ hsome => absurd hsome.symm (Option.some_ne_none _)⟩
  | some prev =>
    obtain ⟨hstands, hbefore⟩ := hplaced.lastCode_before ht hprev
    obtain ⟨gap, hgap, hjoin⟩ :=
      hstands.exists_separator (hplaced.stands t (by simp) ht) hbefore text
    refine ⟨gap, hgap, nofun, fun prev' hsome hrow => ?_⟩
    cases hsome
    exact hjoin (hstands.stop_row.trans hrow)

theorem le_of_mem_opened (h : Built before p) {e : Int × Pos} (he : e ∈ p.opened t) :
    e.1 ≤ p.length := by
  unfold LogicalParts.opened at he
  split at he
  · rw [List.mem_singleton.mp he]
    exact Int.natCast_nonneg _
  · cases hlast : lastCode before with
    | none =>
      rw [(h.unstarted hlast).2.1 e he]
      exact Int.natCast_nonneg _
    | some prev =>
      obtain ⟨init, hmapping, hinit⟩ := h.started prev hlast
      rw [hmapping] at he
      rcases List.mem_append.mp he with hin | hend
      · exact Int.le_of_lt (hinit e hin)
      · exact Int.le_of_eq (congrArg Prod.fst (List.mem_singleton.mp hend))

/-- At the end of what was built, the place is where the last token stopped, or where the first one
starts. -/
theorem placeOf_length (h : Built before p) (hplaced : Placed lines (before ++ [t]))
    (ht : t.isCode = true) (more : Mapping) :
    placeOf p.length (p.opened t ++ more) =
      some (((lastCode before).map (·.stop)).getD t.start) := by
  unfold LogicalParts.opened
  cases hlast : lastCode before with
  | none =>
    obtain ⟨hzero, -, hempty⟩ := h.unstarted hlast
    rw [hempty (hplaced.no_comment ht hlast), hzero, placeOf_append ⟨(0, t.start), by simp⟩]
    simp [placeOf, entryFor]
  | some prev =>
    obtain ⟨init, hmapping, hinit⟩ := h.started prev hlast
    rw [hmapping, if_neg (by simp), placeOf_append ⟨((p.length : Int), prev.stop), by simp⟩,
      placeOf_concat hinit]
    simp

/-- A token that gives a piece adds it, with an entry for its end, and the characters of its text
are traced back. -/
theorem add_code (h : Built before p) (hplaced : Placed lines (before ++ [t]))
    (ht : t.isCode = true) :
    ∃ gap text p', t.shown = .ok text ∧ p.add lines t = .ok p' ∧ Built (before ++ [t]) p' ∧
      p'.line = p.line ++ gap ++ text ∧ (∃ more, p'.mapping = p.mapping ++ more) ∧
      ∀ j < text.length, placeOf ((p.length + gap.length + j : Nat) : Int) p'.mapping =
        some (t.tracedPlace (lastCode before) gap j) := by
  have hstands := hplaced.stands t (by simp) ht
  have hpos := hstands.text_pos
  obtain ⟨text, hshown, htext⟩ := hstands.exists_shown
  obtain ⟨gap, hgap, hfirst, hjoin⟩ := h.exists_gap hplaced ht text
  have hlength : (gap ++ text).length = gap.length + text.length := String.length_append _ _
  have hlast : lastCode (before ++ [t]) = some t := by simp [lastCode_concat, ht]
  refine ⟨gap, text, _, hshown, LogicalParts.add_eq ht hshown hgap, ⟨?_, ?_, ?_, ?_⟩, ?_, ?_, ?_⟩
  · rw [LogicalParts.line_concat rfl, String.length_append, h.length]
  · rw [hlast]
    rfl
  · intro hnone
    cases hlast.symm.trans hnone
  · intro u hu
    cases hlast.symm.trans hu
    refine ⟨p.opened t, rfl, fun e he => ?_⟩
    have hle := h.le_of_mem_opened he
    dsimp only
    omega
  · rw [LogicalParts.line_concat rfl, String.append_assoc]
  · obtain ⟨more, hmore⟩ := p.exists_opened_eq t
    exact ⟨_, by rw [hmore, List.append_assoc]⟩
  · intro j hj
    dsimp only
    by_cases hat : gap = "" ∧ j = 0
    · obtain ⟨rfl, rfl⟩ := hat
      rw [Token.tracedPlace_zero fun prev hprev hrow => hjoin prev hprev hrow rfl]
      exact h.placeOf_length hplaced ht _
    · have hpast : 0 < gap.length + j := by
        have hnonzero : gap.length = 0 → j ≠ 0 := by simpa using hat
        omega
      have hstop := hstands.stop_col
      rw [Token.tracedPlace_of_gap hat,
        placeOf_concat fun e he => by have hle := h.le_of_mem_opened he; omega]
      congr 1
      apply Pos.ext
      · exact hstands.stop_row
      · dsimp only
        omega

end Built

/-- In the logical line of `p`, the text of `t` stands after what the tokens before it gave and
after a gap, and each of its characters is traced back. -/
def Traced (lines : List String) (p : LogicalParts) (before : List Token) (t : Token) : Prop :=
  ∃ left gap text right : String, t.shown = .ok text ∧
    (logicalParts lines before).map LogicalParts.line = .ok left ∧
    (logicalParts lines (before ++ [t])).map LogicalParts.line = .ok (left ++ gap ++ text) ∧
    p.line = left ++ gap ++ text ++ right ∧
    ∀ j < text.length, placeOf ((left.length + gap.length + j : Nat) : Int) p.mapping =
      some (t.tracedPlace (lastCode before) gap j)

theorem Traced.extend {p' : LogicalParts} (h : Traced lines p before t)
    (hend : ∃ e ∈ p.mapping, (p.line.length : Int) ≤ e.1) (hline : ∃ rest, p'.line = p.line ++ rest)
    (hmapping : ∃ more, p'.mapping = p.mapping ++ more) : Traced lines p' before t := by
  obtain ⟨left, gap, text, right, hshown, hleft, hstep, hp, hplaces⟩ := h
  obtain ⟨rest, hrest⟩ := hline
  obtain ⟨more, hmore⟩ := hmapping
  refine ⟨left, gap, text, right ++ rest, hshown, hleft, hstep, ?_, fun j hj => ?_⟩
  · rw [hrest, hp, String.append_assoc]
  · obtain ⟨e, he, hle⟩ := hend
    rw [hmore, placeOf_append ⟨e, he, ?_⟩, hplaces j hj]
    rw [hp] at hle
    simp only [String.length_append] at hle
    omega

theorem Built.add_token (h : Built before p) (hplaced : Placed lines (before ++ [t]))
    (hp : logicalParts lines before = .ok p) :
    ∃ p', logicalParts lines (before ++ [t]) = .ok p' ∧ Built (before ++ [t]) p' ∧
      (∃ rest, p'.line = p.line ++ rest) ∧ (∃ more, p'.mapping = p.mapping ++ more) ∧
      (t.isCode = true → Traced lines p' before t) := by
  have hstep : logicalParts lines (before ++ [t]) = p.add lines t := by
    rw [logicalParts_concat, hp]
    rfl
  by_cases hcode : t.isCode = true
  · obtain ⟨gap, text, p', hshown, hadd, hbuilt, hline, hmapping, hplaces⟩ :=
      h.add_code hplaced hcode
    refine ⟨p', hstep.trans hadd, hbuilt, ⟨gap ++ text, ?_⟩, hmapping, fun _ => ?_⟩
    · rw [hline, String.append_assoc]
    · refine ⟨p.line, gap, text, "", hshown, ?_, ?_, ?_, ?_⟩
      · rw [hp]
        rfl
      · rw [hstep, hadd, ← hline]
        rfl
      · rw [hline, String.append_empty]
      · rw [h.length]
        exact hplaces
  · have hnot : ∀ {P : Prop}, t.isCode = true → P := fun hc => absurd hc hcode
    by_cases hlayout : t.isLayout = true
    · refine ⟨p, ?_, h.add_layout hlayout, ⟨"", String.append_empty.symm⟩,
        ⟨[], (List.append_nil _).symm⟩, hnot⟩
      rw [hstep, LogicalParts.add, if_pos hlayout]
    · have hcomment : t.kind = .comment := by simpa [Token.isCode, hlayout] using hcode
      refine ⟨_, ?_, h.add_comment hcomment, ⟨"", String.append_empty.symm⟩,
        p.exists_opened_eq t, hnot⟩
      rw [hstep, LogicalParts.add, if_neg hlayout, if_pos hcomment]

theorem exists_built {tokens : List Token} (h : Placed lines tokens) :
    ∃ p, logicalParts lines tokens = .ok p ∧ Built tokens p ∧
      ∀ before t after, tokens = before ++ t :: after → t.isCode = true →
        Traced lines p before t := by
  induction tokens using List.reverseRecOn with
  | nil => exact ⟨{}, rfl, Built.nil, fun before t after heq => by simp at heq⟩
  | append_singleton seen next ih =>
    obtain ⟨p, hp, hbuilt, htraced⟩ := ih h.left
    obtain ⟨p', hp', hbuilt', hline, hmapping, hnext⟩ := hbuilt.add_token h hp
    refine ⟨p', hp', hbuilt', fun before t after heq hcode => ?_⟩
    rcases List.eq_nil_or_concat after with rfl | ⟨init, last, rfl⟩
    · obtain ⟨rfl, rfl⟩ := List.append_singleton_inj.mp heq
      exact hnext hcode
    · have hseen : seen ++ [next] = (before ++ t :: init) ++ [last] := by simpa using heq
      obtain ⟨rfl, rfl⟩ := List.append_singleton_inj.mp hseen
      refine (htraced before t init rfl hcode).extend ?_ hline hmapping
      obtain ⟨u, hu⟩ :=
        exists_lastCode (List.mem_append_right before (List.mem_cons_self (l := init))) hcode
      obtain ⟨entries, hentries, -⟩ := hbuilt.started u hu
      exact ⟨(p.length, u.stop), by simp [hentries], Int.le_of_eq (by rw [hbuilt.length])⟩

theorem Built.getLast?_mapping {tokens : List Token} (h : Built tokens p) {e : Int × Pos}
    (he : p.mapping.getLast? = some e) : e.1 = p.line.length := by
  rw [h.length]
  cases hlast : lastCode tokens with
  | none =>
    obtain ⟨hzero, hentries, -⟩ := h.unstarted hlast
    rw [hentries e (List.mem_of_getLast? he), hzero]
    rfl
  | some t =>
    obtain ⟨init, hmapping, -⟩ := h.started t hlast
    rw [hmapping, List.getLast?_concat] at he
    cases he
    rfl

/-- Each character of a token's text is traced back to where the token has it; only the first one
of a token that starts a new row without a gap is traced back to the end of the token before. The
last offset of the mapping is the length of the logical line. -/
theorem placeOf_traces_tokens {tokens : List Token} (h : Placed lines tokens) :
    ∃ parts, logicalParts lines tokens = .ok parts ∧
      (∀ before t after, tokens = before ++ t :: after → t.isCode = true →
        Traced lines parts before t) ∧
      ∀ e, parts.mapping.getLast? = some e → e.1 = parts.line.length := by
  obtain ⟨p, hp, hbuilt, htraced⟩ := exists_built h
  exact ⟨p, hp, htraced, fun e he => hbuilt.getLast?_mapping he⟩

end Code

/-! A call whose argument is a string on a row of its own. -/

def callLines : List String := ["f(\n", "  'a' )\n"]

def callTokens : List Token :=
  [⟨.name, "f", ⟨1, 0⟩, ⟨1, 1⟩, "f(\n"⟩, ⟨.operator, "(", ⟨1, 1⟩, ⟨1, 2⟩, "f(\n"⟩,
    ⟨.lineBreak, "\n", ⟨1, 2⟩, ⟨1, 3⟩, "f(\n"⟩, ⟨.string, "'a'", ⟨2, 2⟩, ⟨2, 5⟩, "  'a' )\n"⟩,
    ⟨.operator, ")", ⟨2, 6⟩, ⟨2, 7⟩, "  'a' )\n"⟩, ⟨.newline, "\n", ⟨2, 7⟩, ⟨2, 8⟩, "  'a' )\n"⟩]

theorem placed_callTokens : Placed callLines callTokens where
  stands t ht hcode := by
    have hliteral : IsLiteral "'a'".toList := by
      refine .short [] ['a'] '\'' (.inl rfl) List.not_mem_nil fun left right h => ?_
      have hmem : '\'' ∈ ['a'] := h ▸ List.mem_append_right left List.mem_cons_self
      exact absurd hmem (by decide)
    simp only [callTokens, List.mem_cons, List.not_mem_nil, or_false] at ht
    rcases ht with rfl | rfl | rfl | rfl | rfl | rfl
    · exact ⟨by decide, rfl, rfl, by decide, by decide, by decide, by decide, by decide, nofun⟩
    · exact ⟨by decide, rfl, rfl, by decide, by decide, by decide, by decide, by decide, nofun⟩
    · cases hcode
    · exact ⟨by decide, rfl, rfl, by decide, by decide, by decide, by decide, by decide,
        fun _ => hliteral⟩
    · exact ⟨by decide, rfl, rfl, by decide, by decide, by decide, by decide, by decide, nofun⟩
    · cases hcode
  ordered := by decide
  comments := by decide

/-- The string starts a new row without a gap, so its first character is traced back to the end of
the bracket before it, and its second one to its own place. -/
theorem placeOf_traces_call :
    Placed callLines callTokens ∧ ∃ parts, logicalParts callLines callTokens = .ok parts ∧
      parts.line = "f('x' )" ∧ placeOf 2 parts.mapping = some ⟨1, 2⟩ ∧
      placeOf 3 parts.mapping = some ⟨2, 3⟩ ∧
      ∀ before t after, callTokens = before ++ t :: after → t.isCode = true →
        Traced callLines parts before t := by
  obtain ⟨parts, hparts, htraced, -⟩ := placeOf_traces_tokens placed_callTokens
  refine ⟨placed_callTokens, parts, hparts, ?_, ?_, ?_, htraced⟩ <;> cases hparts
  · decide
  · decide
  · decide

end Source

end LintRunner
