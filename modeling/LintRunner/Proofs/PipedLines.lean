import LintRunner.Proofs.TextLines
import LintRunner.Source.Encoding
import LintRunner.Source.Processor

/-!
# The lines of a file and of standard input

Bytes that are UTF-8 and announce no encoding spell one text, whether they are read from a file or
from standard input. A file is then cut after line feeds, with carriage returns unified first;
standard input is cut at every line end in the wide sense. The two give the same lines exactly if
the text knows no line end but the line feed.
-/

namespace LintRunner

namespace Text

/-- Lines end at line feeds only. A line end of another kind does no harm as the last character,
unless it is a carriage return. -/
def PlainEnds (cs : List Char) : Prop :=
  (∀ c ∈ cs.dropLast, isLineEnd c = true → c = '\n') ∧ cs.getLast? ≠ some '\r'

instance (cs : List Char) : Decidable (PlainEnds cs) := by
  delta PlainEnds
  infer_instance

variable {c : Char} {cs : List Char}

theorem plainEnds_cons {d : Char} :
    PlainEnds (c :: d :: cs) ↔ (isLineEnd c = true → c = '\n') ∧ PlainEnds (d :: cs) := by
  unfold PlainEnds
  rw [List.dropLast_cons_cons, List.forall_mem_cons, List.getLast?_cons_cons, and_assoc]

theorem plainEnds_cons_of_not_isLineEnd (hc : isLineEnd c = false) (cs : List Char) :
    PlainEnds (c :: cs) ↔ PlainEnds cs := by
  have hne := ne_return_of_oneLine hc
  cases cs with
  | nil => simp [PlainEnds, hne]
  | cons d cs => simp [plainEnds_cons, hc]

theorem return_not_mem_of_plainEnds (h : PlainEnds cs) : '\r' ∉ cs := by
  intro hmem
  induction cs with
  | nil => cases hmem
  | cons c cs ih =>
    cases cs with
    | nil =>
      rw [← List.mem_singleton.mp hmem] at h
      exact h.2 rfl
    | cons d cs =>
      obtain ⟨hc, hrest⟩ := plainEnds_cons.mp h
      rcases List.mem_cons.mp hmem with rfl | hmem
      · exact absurd (hc (by decide)) (by decide)
      · exact ih hrest hmem

theorem unifyNewlines_cons (hc : c ≠ '\r') (cs : List Char) :
    unifyNewlines (c :: cs) = c :: unifyNewlines cs := by
  rw [unifyNewlines]
  · rintro _ rfl
    exact absurd rfl hc
  · exact hc

theorem unifyNewlines_of_not_mem (h : '\r' ∉ cs) : unifyNewlines cs = cs := by
  induction cs with
  | nil => rfl
  | cons c cs ih =>
    have hc : c ≠ '\r' := fun heq => h (heq ▸ List.mem_cons_self)
    rw [unifyNewlines_cons hc, ih fun hmem => h (List.mem_cons_of_mem c hmem)]

theorem return_not_mem_unifyNewlines (cs : List Char) : '\r' ∉ unifyNewlines cs := by
  fun_induction unifyNewlines cs with
  | case1 => exact List.not_mem_nil
  | case2 cs ih => simpa using ih
  | case3 cs _ ih => simpa using ih
  | case4 c cs _ hc ih => simpa using ⟨fun h => hc h.symm, ih⟩

theorem consToFirst_inj {ls ms : List (List Char)} (hls : [] ∉ ls) (hms : [] ∉ ms) :
    consToFirst c ls = consToFirst c ms ↔ ls = ms := by
  constructor
  · intro h
    cases ls with
    | nil =>
      cases ms with
      | nil => rfl
      | cons m ms =>
        simp only [consToFirst, List.cons.injEq, true_and] at h
        exact absurd (h.1 ▸ List.mem_cons_self) hms
    | cons l ls =>
      cases ms with
      | nil =>
        simp only [consToFirst, List.cons.injEq, true_and] at h
        exact absurd (h.1 ▸ List.mem_cons_self) hls
      | cons m ms => simpa [consToFirst] using h
  · exact congrArg _

theorem nil_not_mem_consToFirst {ls : List (List Char)} (h : [] ∉ ls) :
    [] ∉ consToFirst c ls := by
  cases ls with
  | nil => simp [consToFirst]
  | cons l ls => simpa [consToFirst] using fun hmem => h (List.mem_cons_of_mem l hmem)

theorem nil_not_mem_wideLines (cs : List Char) : [] ∉ wideLines cs := by
  fun_induction wideLines cs with
  | case1 => exact List.not_mem_nil
  | case2 cs ih => simpa using ih
  | case3 c cs _ _ ih => simpa using ih
  | case4 c cs _ _ ih => exact nil_not_mem_consToFirst ih

theorem nil_not_mem_linesAfterFeed (cs : List Char) : [] ∉ linesAfterFeed cs := by
  fun_induction linesAfterFeed cs with
  | case1 => exact List.not_mem_nil
  | case2 cs ih => simpa using ih
  | case3 c cs _ ih => exact nil_not_mem_consToFirst ih

theorem linesAfterFeed_cons (hc : c ≠ '\n') (cs : List Char) :
    linesAfterFeed (c :: cs) = consToFirst c (linesAfterFeed cs) := by
  rw [linesAfterFeed]
  exact hc

theorem wideLines_end (hc : isLineEnd c = true) (hne : c ≠ '\r') (cs : List Char) :
    wideLines (c :: cs) = [c] :: wideLines cs := by
  rw [wideLines]
  · rw [if_pos hc]
  · rintro _ rfl
    exact absurd rfl hne

/-- Without carriage returns, cutting at every line end and cutting after line feeds agree as long as
only line feeds end lines. -/
theorem wideLines_eq_linesAfterFeed_iff (h : '\r' ∉ cs) :
    wideLines cs = linesAfterFeed cs ↔ PlainEnds cs := by
  induction cs with
  | nil => simp [wideLines, linesAfterFeed, PlainEnds]
  | cons c cs ih =>
    have hc : c ≠ '\r' := fun heq => h (heq ▸ List.mem_cons_self)
    have ih := ih fun hmem => h (List.mem_cons_of_mem c hmem)
    cases hend : isLineEnd c with
    | false =>
      have hfeed : c ≠ '\n' := by
        rintro rfl
        exact absurd hend (by decide)
      rw [wideLines_cons hend, linesAfterFeed_cons hfeed,
        consToFirst_inj (nil_not_mem_wideLines cs) (nil_not_mem_linesAfterFeed cs), ih,
        plainEnds_cons_of_not_isLineEnd hend]
    | true =>
      by_cases hfeed : c = '\n'
      · subst hfeed
        rw [wideLines_end hend hc, linesAfterFeed, List.cons.injEq, ih]
        cases cs with
        | nil => simp [PlainEnds]
        | cons d cs => simp [plainEnds_cons]
      · rw [wideLines_end hend hc, linesAfterFeed_cons hfeed]
        cases cs with
        | nil => simp [wideLines, linesAfterFeed, consToFirst, PlainEnds, hc]
        | cons d cs =>
          rw [plainEnds_cons]
          constructor
          · intro heq
            rcases hlines : linesAfterFeed (d :: cs) with _ | ⟨l, ls⟩
            · have hflat := flatten_linesAfterFeed (d :: cs)
              rw [hlines] at hflat
              cases hflat
            · rw [hlines] at heq
              have hnil := nil_not_mem_linesAfterFeed (d :: cs)
              rw [hlines] at hnil
              simp only [consToFirst, List.cons.injEq, true_and] at heq
              exact absurd (heq.1 ▸ List.mem_cons_self) hnil
          · intro hplain
            exact absurd (hplain.1 hend) hfeed

/-- Cutting a text at every line end gives the lines that end at unified newlines exactly if lines end
at line feeds only. -/
theorem wideLines_eq_unified_iff :
    wideLines cs = linesAfterFeed (unifyNewlines cs) ↔ PlainEnds cs := by
  constructor
  · intro heq
    have hsame : cs = unifyNewlines cs := by
      have hflat := congrArg List.flatten heq
      rwa [flatten_wideLines, flatten_linesAfterFeed] at hflat
    have hreturn : '\r' ∉ cs := hsame ▸ return_not_mem_unifyNewlines cs
    rw [unifyNewlines_of_not_mem hreturn] at heq
    exact (wideLines_eq_linesAfterFeed_iff hreturn).mp heq
  · intro hplain
    have hreturn := return_not_mem_of_plainEnds hplain
    rw [unifyNewlines_of_not_mem hreturn]
    exact (wideLines_eq_linesAfterFeed_iff hreturn).mpr hplain

end Text

namespace Source

/-- The line is no comment that announces an encoding. -/
def Silent (line : List UInt8) : Prop := ∀ cs ∈ decodeUtf8 line, cookie? cs = none

instance (line : List UInt8) : Decidable (Silent line) := by
  delta Silent
  infer_instance

/-- No encoding is announced by the first line, nor by the second one after a first that holds no
code. A byte-order mark belongs to no line. -/
def Unannounced (bytes : List UInt8) : Prop :=
  Silent (takeLine ((afterMark? bytes).getD bytes)).1 ∧
    (isBlankLine (takeLine ((afterMark? bytes).getD bytes)).1 = true →
      Silent (takeLine (takeLine ((afterMark? bytes).getD bytes)).2).1)

instance (bytes : List UInt8) : Decidable (Unannounced bytes) := by
  delta Unannounced
  infer_instance

variable {b : UInt8} {bytes : List UInt8} {start : List Char}

theorem ne_feed_of_continuation? {n : Nat} (h : continuation? b = some n) :
    b ≠ 0x0a := by
  rintro rfl
  cases h

theorem ne_feed_of_not_lt (hb : ¬b < 0x80) : b ≠ 0x0a := by
  rintro rfl
  exact hb (by decide)

theorem takeLine_cons (hb : b ≠ 0x0a) (rest : List UInt8) :
    takeLine (b :: rest) = (b :: (takeLine rest).1, (takeLine rest).2) := by
  rw [takeLine, if_neg hb]

theorem isSome_decodeUtf8_takeLine (h : (decodeUtf8 bytes).isSome = true) :
    (decodeUtf8 (takeLine bytes).1).isSome = true ∧
      (decodeUtf8 (takeLine bytes).2).isSome = true := by
  fun_induction decodeUtf8 bytes with
  | case1 => exact ⟨rfl, rfl⟩
  | case2 b rest hb ih =>
    rw [Option.isSome_map] at h
    by_cases hfeed : b = 0x0a
    · subst hfeed
      exact ⟨rfl, h⟩
    · obtain ⟨hfirst, hrest⟩ := ih h
      rw [takeLine_cons hfeed]
      refine ⟨?_, hrest⟩
      unfold decodeUtf8
      rw [if_pos hb, Option.isSome_map]
      exact hfirst
  | case4 b hb hlow htwo b1 rest ih =>
    simp only [Option.bind_eq_bind, Option.isSome_bind, Option.any_eq_true] at h
    obtain ⟨c1, hc1, c, hc, cs, hcs, -⟩ := h
    obtain ⟨hfirst, hrest⟩ := ih (hcs ▸ rfl)
    obtain ⟨ds, hds⟩ := Option.isSome_iff_exists.mp hfirst
    rw [takeLine_cons (ne_feed_of_not_lt hb), takeLine_cons (ne_feed_of_continuation? hc1)]
    refine ⟨?_, hrest⟩
    unfold decodeUtf8
    rw [if_neg hb, if_neg hlow, if_pos htwo]
    simp [hc1, hc, hds]
  | case6 b hb hlow htwo hthree b1 b2 rest ih =>
    simp only [Option.bind_eq_bind, Option.isSome_bind, Option.any_eq_true] at h
    obtain ⟨c1, hc1, c2, hc2, c, hc, cs, hcs, -⟩ := h
    obtain ⟨hfirst, hrest⟩ := ih (hcs ▸ rfl)
    obtain ⟨ds, hds⟩ := Option.isSome_iff_exists.mp hfirst
    rw [takeLine_cons (ne_feed_of_not_lt hb), takeLine_cons (ne_feed_of_continuation? hc1),
      takeLine_cons (ne_feed_of_continuation? hc2)]
    refine ⟨?_, hrest⟩
    unfold decodeUtf8
    rw [if_neg hb, if_neg hlow, if_neg htwo, if_pos hthree]
    simp [hc1, hc2, hc, hds]
  | case8 b hb hlow htwo hthree hfour b1 b2 b3 rest ih =>
    simp only [Option.bind_eq_bind, Option.isSome_bind, Option.any_eq_true] at h
    obtain ⟨c1, hc1, c2, hc2, c3, hc3, c, hc, cs, hcs, -⟩ := h
    obtain ⟨hfirst, hrest⟩ := ih (hcs ▸ rfl)
    obtain ⟨ds, hds⟩ := Option.isSome_iff_exists.mp hfirst
    rw [takeLine_cons (ne_feed_of_not_lt hb), takeLine_cons (ne_feed_of_continuation? hc1),
      takeLine_cons (ne_feed_of_continuation? hc2), takeLine_cons (ne_feed_of_continuation? hc3)]
    refine ⟨?_, hrest⟩
    unfold decodeUtf8
    rw [if_neg hb, if_neg hlow, if_neg htwo, if_neg hthree, if_pos hfour]
    simp [hc1, hc2, hc3, hc, hds]
  | _ => cases h

def markChar : Char := Char.ofNat 0xfeff

theorem decodeUtf8_mark (rest : List UInt8) :
    decodeUtf8 (0xef :: 0xbb :: 0xbf :: rest) = (decodeUtf8 rest).map (markChar :: ·) := by
  have hb1 : continuation? 0xbb = some 0x3b := by decide
  have hb2 : continuation? 0xbf = some 0x3f := by decide
  have hc : charIn? 0x800 0xffff (((UInt8.toNat 0xef - 0xe0) * 64 + 0x3b) * 64 + 0x3f) =
      some markChar := by decide
  conv => lhs; unfold decodeUtf8
  rw [if_neg (by decide), if_neg (by decide), if_neg (by decide), if_pos (by decide)]
  simp only [hb1, hb2, hc, Option.bind_eq_bind, Option.bind_some]
  cases decodeUtf8 rest <;> rfl

theorem afterMark?_eq_some_iff {rest : List UInt8} :
    afterMark? bytes = some rest ↔ bytes = 0xef :: 0xbb :: 0xbf :: rest := by
  constructor
  · intro h
    unfold afterMark? at h
    split at h
    · rw [Option.some.inj h]
    · cases h
  · rintro rfl
    rfl

theorem lineEncoding_of_silent {line : List UInt8} (hdec : (decodeUtf8 line).isSome = true)
    (h : Silent line) (marked : Bool) : lineEncoding marked line = .ok none := by
  obtain ⟨cs, hcs⟩ := Option.isSome_iff_exists.mp hdec
  unfold lineEncoding
  rw [hcs]
  dsimp only
  rw [h cs hcs]

theorem detect_of_unannounced
    (hdec : (decodeUtf8 ((afterMark? bytes).getD bytes)).isSome = true) (h : Unannounced bytes) :
    detect bytes = .ok (if (afterMark? bytes).isSome then .utf8Marked else .utf8) := by
  obtain ⟨hfirst, hsecond⟩ := h
  obtain ⟨hdecFirst, hdecRest⟩ := isSome_decodeUtf8_takeLine hdec
  have hdecSecond := (isSome_decodeUtf8_takeLine hdecRest).1
  unfold detect
  cases hmark : afterMark? bytes
  all_goals
    simp only [hmark, Option.getD_none, Option.getD_some] at hfirst hsecond hdecFirst hdecSecond
    dsimp only
    rw [lineEncoding_of_silent hdecFirst hfirst]
    split
    · rfl
    · dsimp only
      split
      · rfl
      · rename_i hblank
        rw [Bool.not_eq_true, Bool.not_eq_false'] at hblank
        rw [lineEncoding_of_silent hdecSecond (hsecond hblank)]
        split <;> rfl

theorem exists_text_of_unannounced {cs : List Char}
    (hdec : decodeUtf8 bytes = some cs) (h : Unannounced bytes) :
    ∃ text, pipeText bytes = some text ∧ fileText bytes = Text.unifyNewlines text ∧
      (cs = text ∨ cs = markChar :: text) := by
  cases hmark : afterMark? bytes with
  | none =>
    have hdetect : detect bytes = .ok .utf8 := by
      have hbody : (afterMark? bytes).getD bytes = bytes := by rw [hmark]; rfl
      have hsome := detect_of_unannounced (by rw [hbody, hdec]; rfl) h
      rwa [hmark] at hsome
    refine ⟨cs, ?_, ?_, .inl rfl⟩
    · simp only [pipeText, hdetect, Encoding.decode, hdec]
    · simp only [fileText, announcedText, hdetect, Encoding.decodeFile, Encoding.decode, hdec,
        Option.getD_some]
  | some rest =>
    have hbytes := afterMark?_eq_some_iff.mp hmark
    have hbody : (afterMark? bytes).getD bytes = rest := by rw [hmark]; rfl
    rw [hbytes, decodeUtf8_mark] at hdec
    obtain ⟨text, htext, rfl⟩ := Option.map_eq_some_iff.mp hdec
    have hdetect : detect bytes = .ok .utf8Marked := by
      have hsome := detect_of_unannounced (by rw [hbody, htext]; rfl) h
      rwa [hmark] at hsome
    refine ⟨text, ?_, ?_, .inr rfl⟩
    · simp only [pipeText, hdetect, Encoding.decode, hbody, htext]
    · simp only [fileText, announcedText, hdetect, Encoding.decodeFile, Encoding.decode, hbody,
        htext, Option.getD_some]

def markBytes : List Char := [Char.ofNat 0xef, Char.ofNat 0xbb, Char.ofNat 0xbf]

theorem exists_consToFirst (c : Char) (ls : List (List Char)) :
    ∃ first more, Text.consToFirst c ls = (c :: first) :: more := by
  cases ls with
  | nil => exact ⟨[], [], rfl⟩
  | cons l ls => exact ⟨l, ls, rfl⟩

theorem exists_wideLines_append (hne : start ≠ []) (h : Text.OneLine start)
    (cs : List Char) : ∃ first more, Text.wideLines (start ++ cs) = (start ++ first) :: more := by
  rcases hlines : Text.wideLines cs with _ | ⟨first, more⟩
  · have hflat := Text.flatten_wideLines cs
    rw [hlines, List.flatten_nil] at hflat
    subst hflat
    exact ⟨[], [], by rw [List.append_nil, Text.wideLines_of_oneLine h hne]⟩
  · exact ⟨first, more, Text.wideLines_append h hlines⟩

theorem exists_linesAfterFeed_append (hne : start ≠ [])
    (h : Text.OneLine start) (cs : List Char) :
    ∃ first more, Text.linesAfterFeed (Text.unifyNewlines (start ++ cs)) =
      (start ++ first) :: more := by
  induction start with
  | nil => exact absurd rfl hne
  | cons c start ih =>
    obtain ⟨hc, hstart⟩ := List.forall_mem_cons.mp h
    have hfeed : c ≠ '\n' := by
      rintro rfl
      exact absurd hc (by decide)
    rw [List.cons_append, Text.unifyNewlines_cons (Text.ne_return_of_oneLine hc),
      Text.linesAfterFeed_cons hfeed]
    by_cases hlast : start = []
    · subst hlast
      exact exists_consToFirst c _
    · obtain ⟨first, more, hlines⟩ := ih hlast hstart
      rw [hlines]
      exact ⟨first, more, rfl⟩

theorem prefix_of_prefix_unifyNewlines {cs : List Char} (h : Text.OneLine start)
    (hpre : start <+: Text.unifyNewlines cs) : start <+: cs := by
  induction start generalizing cs with
  | nil => exact List.nil_prefix
  | cons c start ih =>
    obtain ⟨hc, hstart⟩ := List.forall_mem_cons.mp h
    have hfeed : c ≠ '\n' := by
      rintro rfl
      exact absurd hc (by decide)
    unfold Text.unifyNewlines at hpre
    split at hpre
    · exact absurd hpre.length_le (by simp)
    · exact absurd (List.cons_prefix_cons.mp hpre).1 hfeed
    · exact absurd (List.cons_prefix_cons.mp hpre).1 hfeed
    · obtain ⟨rfl, hrest⟩ := List.cons_prefix_cons.mp hpre
      exact List.cons_prefix_cons.mpr ⟨rfl, ih hstart hrest⟩

namespace Processor

theorem withoutMark_markChar (first : List Char) (more : List String) :
    withoutMark (String.ofList ([markChar] ++ first) :: more) = .ok (String.ofList first :: more) := by
  simp [withoutMark, markChar]

theorem withoutMark_markBytes (first : List Char) (more : List String) :
    withoutMark (String.ofList (markBytes ++ first) :: more) =
      .ok (String.ofList first :: more) := by
  simp [withoutMark, markBytes]

theorem withoutMark_of_not_prefix {first : List Char} (hne : first ≠ [])
    (hchar : ¬[markChar] <+: first) (hbytes : ¬markBytes <+: first) (more : List String) :
    withoutMark (String.ofList first :: more) = .ok (String.ofList first :: more) := by
  have hspelt : ∀ c n, c.toNat = n → c = Char.ofNat n := by
    rintro c _ rfl
    exact (Char.ofNat_toNat c).symm
  cases first with
  | nil => exact absurd rfl hne
  | cons c cs =>
    unfold withoutMark
    dsimp only
    rw [String.toList_ofList]
    dsimp only
    split
    · rename_i hc
      exact absurd (hspelt c _ hc ▸ List.cons_prefix_cons.mpr ⟨rfl, List.nil_prefix⟩) hchar
    · split
      · rename_i a b d after heq
        split
        · rename_i habd
          simp only [Bool.and_eq_true, decide_eq_true_eq] at habd
          obtain ⟨⟨ha, hb⟩, hd⟩ := habd
          rw [heq, hspelt a _ ha, hspelt b _ hb, hspelt d _ hd] at hbytes
          exact absurd (List.prefix_append markBytes after) hbytes
        · rfl
      · rfl

theorem withoutMark_of_unmarked {ls : List (List Char)} (hnil : [] ∉ ls)
    (hchar : ¬[markChar] <+: ls.flatten) (hbytes : ¬markBytes <+: ls.flatten) :
    withoutMark (ls.map String.ofList) = .ok (ls.map String.ofList) := by
  cases ls with
  | nil => rfl
  | cons l ls =>
    have hfirst : l <+: (l :: ls).flatten := List.prefix_append l _
    apply withoutMark_of_not_prefix
    · exact fun h => hnil (h ▸ List.mem_cons_self)
    · exact fun h => hchar (h.trans hfirst)
    · exact fun h => hbytes (h.trans hfirst)

/-- The lines of a text in both ways of reading it, once a mark is dropped: nothing is lost of the
difference between them. -/
def Comparable (text : List Char) : Prop :=
  ∃ piped filed,
    withoutMark ((Text.wideLines text).map String.ofList) = .ok piped ∧
    withoutMark ((Text.linesAfterFeed (Text.unifyNewlines text)).map String.ofList) = .ok filed ∧
    (piped = filed ↔ Text.wideLines text = Text.linesAfterFeed (Text.unifyNewlines text))

theorem comparable_of_mark {start : List Char} (hne : start ≠ []) (hline : Text.OneLine start)
    (hdrop : ∀ first more, withoutMark (String.ofList (start ++ first) :: more) =
      .ok (String.ofList first :: more)) (cs : List Char) : Comparable (start ++ cs) := by
  obtain ⟨first, more, hwide⟩ := exists_wideLines_append hne hline cs
  obtain ⟨first', more', hnarrow⟩ := exists_linesAfterFeed_append hne hline cs
  unfold Comparable
  rw [hwide, hnarrow]
  refine ⟨_, _, hdrop first _, hdrop first' _, ?_⟩
  rw [List.cons.injEq, List.cons.injEq, String.ofList_inj, List.append_cancel_left_eq,
    List.map_inj_right fun _ _ => String.ofList_inj.mp]

theorem comparable (text : List Char) : Comparable text := by
  by_cases hchar : [markChar] <+: text
  · obtain ⟨cs, rfl⟩ := hchar
    exact comparable_of_mark (by simp) (by decide) withoutMark_markChar cs
  by_cases hbytes : markBytes <+: text
  · obtain ⟨cs, rfl⟩ := hbytes
    exact comparable_of_mark (by decide) (by decide) withoutMark_markBytes cs
  refine ⟨_, _, withoutMark_of_unmarked (Text.nil_not_mem_wideLines text) ?_ ?_,
    withoutMark_of_unmarked (Text.nil_not_mem_linesAfterFeed _) ?_ ?_, ?_⟩
  · rwa [Text.flatten_wideLines]
  · rwa [Text.flatten_wideLines]
  · rw [Text.flatten_linesAfterFeed]
    exact fun h => hchar (prefix_of_prefix_unifyNewlines (by decide) h)
  · rw [Text.flatten_linesAfterFeed]
    exact fun h => hbytes (prefix_of_prefix_unifyNewlines (by decide) h)
  · exact List.map_inj_right fun _ _ => String.ofList_inj.mp

end Processor

end Source

end LintRunner
