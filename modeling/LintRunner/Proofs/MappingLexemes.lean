import LintRunner.Proofs.WrittenMappings

/-!
# Cutting a mapping into lexemes

Every kind of token has its lexemes. Wherever the text does not end a lexeme starts, so the text is
cut into lexemes up to its end: each time the first kind that has one there takes its longest. What
may follow a piece is restricted, since otherwise the piece would have been longer or of another
kind.
-/

namespace LintRunner.PerFile

/-- The mark around which a kind takes blanks. -/
def TokenKind.sign? : TokenKind → Option Char
  | colon => some ':'
  | comma => some ','
  | _ => none

/-- The place of a kind in the order in which the kinds are tried. -/
def TokenKind.turn : TokenKind → Nat
  | code => 0
  | file => 1
  | colon => 2
  | comma => 3
  | blank => 4
  | finish => 5

def Blanks (w : List Char) : Prop := ∀ c ∈ w, Text.isBlank c = true

inductive IsLexeme : TokenKind → List Char → Prop
  | code {c : Char} {digits : List Char} (hc : isCapital c = true)
      (hdigits : ∀ d ∈ digits, isPlainDigit d = true) : IsLexeme .code (c :: digits)
  | file {w : List Char} (hne : w ≠ []) (hw : ∀ c ∈ w, isFileChar c = true) : IsLexeme .file w
  | sign {kind : TokenKind} {mark : Char} {before after : List Char}
      (hmark : kind.sign? = some mark) (hbefore : Blanks before) (hafter : Blanks after) :
      IsLexeme kind (before ++ mark :: after)
  | blank {w : List Char} (hne : w ≠ []) (hw : Blanks w) : IsLexeme .blank w

/-- A kind of token and what was cut off for it. -/
structure Piece where
  kind : TokenKind
  lexeme : List Char
deriving DecidableEq, Repr

def Piece.token (p : Piece) : Token := ⟨p.kind, Text.trim (String.ofList p.lexeme)⟩

/-- The piece is cut off at the start of the text: no kind whose turn is before has a lexeme there,
and its own kind has no longer one. -/
structure CutOff (text : List Char) (p : Piece) (rest : List Char) : Prop where
  text_eq : text = p.lexeme ++ rest
  isLexeme : IsLexeme p.kind p.lexeme
  longest : ∀ w, IsLexeme p.kind w → w <+: text → w.length ≤ p.lexeme.length
  first : ∀ kind w, kind.turn < p.kind.turn → IsLexeme kind w → ¬ w <+: text

/-- The text is cut into pieces up to its end. There is no rule for a text that is not empty and at
whose start no kind has a lexeme. -/
inductive CutInto : List Char → List Piece → Prop
  | done : CutInto [] []
  | cons {text rest : List Char} {p : Piece} {ps : List Piece} (h : CutOff text p rest)
      (hrest : CutInto rest ps) : CutInto text (p :: ps)

variable {kind : TokenKind} {c mark : Char} {cs w text rest rest' before after : List Char}
  {p q : Piece} {ps qs : List Piece}

theorem IsLexeme.ne_nil (h : IsLexeme kind w) : w ≠ [] := by
  cases h with
  | code => exact List.cons_ne_nil _ _
  | file hne => exact hne
  | sign => simp
  | blank hne => exact hne

theorem IsLexeme.all_isFileChar (h : IsLexeme kind w) (hkind : kind = .file ∨ kind = .code) :
    ∀ c ∈ w, isFileChar c = true := by
  cases h with
  | code hc hdigits =>
    exact List.forall_mem_cons.mpr ⟨isFileChar_of_isCapital hc, fun d hd =>
      isFileChar_of_isPlainDigit (hdigits d hd)⟩
  | file _ hw => exact hw
  | sign hmark => rcases hkind with rfl | rfl <;> cases hmark
  | blank => simp at hkind

theorem length_le_takeWhile {holds : Char → Bool} (hw : ∀ c ∈ w, holds c = true)
    (h : w <+: text) : w.length ≤ (text.takeWhile holds).length := by
  obtain ⟨rest, rfl⟩ := h
  rw [List.takeWhile_append_of_pos hw, List.length_append]
  exact Nat.le_add_right _ _

theorem not_blank_of_sign (h : kind.sign? = some mark) : Text.isBlank mark = false := by
  cases kind <;> cases h <;> decide

theorem IsLexeme.turn_of_head (h : IsLexeme kind w) (hw : w <+: c :: cs) :
    kind = .code ∧ isCapital c = true ∨ kind = .file ∧ isFileChar c = true ∨ 2 ≤ kind.turn := by
  cases h with
  | code hc =>
    obtain ⟨rfl, -⟩ := List.cons_prefix_cons.mp hw
    exact .inl ⟨rfl, hc⟩
  | file hne hfile =>
    obtain ⟨d, ds, rfl⟩ := List.exists_cons_of_ne_nil hne
    obtain ⟨rfl, -⟩ := List.cons_prefix_cons.mp hw
    exact .inr (.inl ⟨rfl, hfile d List.mem_cons_self⟩)
  | sign hmark => cases kind <;> cases hmark <;> exact .inr (.inr (by decide))
  | blank => exact .inr (.inr (by decide))

theorem IsLexeme.two_le_turn (h : IsLexeme kind w) (hw : w <+: c :: cs)
    (hc : isFileChar c = false) : 2 ≤ kind.turn := by
  rcases h.turn_of_head hw with ⟨-, h⟩ | ⟨-, h⟩ | h
  · exact absurd (isFileChar_of_isCapital h) (Bool.eq_false_iff.mp hc)
  · exact absurd h (Bool.eq_false_iff.mp hc)
  · exact h

theorem IsLexeme.sign_inv (h : IsLexeme kind w) (hmark : kind.sign? = some mark) :
    ∃ before after, w = before ++ mark :: after ∧ Blanks before ∧ Blanks after := by
  cases h with
  | code | file | blank => cases hmark
  | sign hsame hbefore hafter =>
    cases hmark.symm.trans hsame
    exact ⟨_, _, rfl, hbefore, hafter⟩

theorem isLexeme_mark (hmark : kind.sign? = some mark) : IsLexeme kind [mark] :=
  @IsLexeme.sign kind mark [] [] hmark (List.forall_mem_nil _) (List.forall_mem_nil _)

theorem span_sign (rest : List Char) (hbefore : Blanks before) (hmark : Text.isBlank mark = false) :
    (before ++ mark :: rest).takeWhile Text.isBlank = before ∧
      (before ++ mark :: rest).dropWhile Text.isBlank = mark :: rest := by
  rw [List.takeWhile_append_of_pos hbefore, List.dropWhile_append_of_pos hbefore,
    List.takeWhile_cons_of_neg (by simp [hmark]), List.dropWhile_cons_of_neg (by simp [hmark])]
  exact ⟨List.append_nil _, rfl⟩

theorem exists_of_mark?_eq_some (h : mark? mark text = some rest) :
    ∃ before after, text = before ++ mark :: (after ++ rest) ∧ Blanks before ∧ Blanks after ∧
      ∀ c ∈ rest.head?, Text.isBlank c = false := by
  unfold mark? at h
  split at h
  · cases h
  · rename_i d tail hdrop
    split_ifs at h with hd
    cases h
    refine ⟨text.takeWhile Text.isBlank, tail.takeWhile Text.isBlank, ?_,
      fun c => List.mem_takeWhile_imp, fun c => List.mem_takeWhile_imp, fun c hc => ?_⟩
    · rw [List.takeWhile_append_dropWhile, ← hd, ← hdrop, List.takeWhile_append_dropWhile]
    · have hhead := List.head?_dropWhile_not Text.isBlank tail
      rwa [Option.mem_def.mp hc] at hhead

theorem not_prefix_of_mark?_none (hmark : kind.sign? = some mark) (h : mark? mark text = none)
    (hw : IsLexeme kind w) : ¬ w <+: text := by
  rintro ⟨more, rfl⟩
  obtain ⟨before, after, rfl, hbefore, -⟩ := hw.sign_inv hmark
  rw [List.append_assoc, List.cons_append, mark?,
    (span_sign _ hbefore (not_blank_of_sign hmark)).2] at h
  simp at h

theorem colon_sign : TokenKind.colon.sign? = some ':' := rfl

theorem comma_sign : TokenKind.comma.sign? = some ',' := rfl

theorem IsLexeme.three_le_turn (h : IsLexeme kind w) (hw : w <+: c :: cs)
    (hc : isFileChar c = false) (hcolon : mark? ':' (c :: cs) = none) : 3 ≤ kind.turn := by
  have htwo := h.two_le_turn hw hc
  cases kind with
  | code | file => exact absurd htwo (by decide)
  | colon => exact absurd hw (not_prefix_of_mark?_none colon_sign hcolon h)
  | comma | blank | finish => decide

theorem cutOff_code (hc : isCapital c = true) :
    CutOff (c :: cs) ⟨.code, c :: cs.takeWhile isPlainDigit⟩ (cs.dropWhile isPlainDigit) where
  text_eq := by rw [List.cons_append, List.takeWhile_append_dropWhile]
  isLexeme := .code hc fun d => List.mem_takeWhile_imp
  longest := by
    rintro _ (⟨-, hdigits⟩ | _ | ⟨hmark⟩) hw
    · exact Nat.succ_le_succ (length_le_takeWhile hdigits (List.cons_prefix_cons.mp hw).2)
    · cases hmark
  first := fun kind w hturn => absurd hturn (Nat.not_lt_zero _)

theorem cutOff_file (hcapital : isCapital c = false) (hc : isFileChar c = true) :
    CutOff (c :: cs) ⟨.file, c :: cs.takeWhile isFileChar⟩ (cs.dropWhile isFileChar) where
  text_eq := by rw [List.cons_append, List.takeWhile_append_dropWhile]
  isLexeme := .file (List.cons_ne_nil _ _)
    (List.forall_mem_cons.mpr ⟨hc, fun d => List.mem_takeWhile_imp⟩)
  longest := by
    rintro w (_ | ⟨-, hfile⟩ | ⟨hmark⟩) hw
    · have hlen := length_le_takeWhile hfile hw
      rwa [List.takeWhile_cons_of_pos hc] at hlen
    · cases hmark
  first := by
    intro kind w hturn hlexeme hw
    rcases hlexeme.turn_of_head hw with ⟨-, h⟩ | ⟨rfl, -⟩ | h
    · exact absurd h (Bool.eq_false_iff.mp hcapital)
    · exact absurd hturn (Nat.lt_irrefl _)
    · exact absurd (h.trans_lt hturn) (Nat.not_lt.mpr (Nat.le_succ 1))

theorem token_of_isFileChar (hw : ∀ c ∈ w, isFileChar c = true) :
    (⟨kind, w⟩ : Piece).token = ⟨kind, String.ofList w⟩ := by
  rw [Piece.token, Text.trim, String.toList_ofList,
    Text.dropEnds_of_forall_not fun c hc => not_blank_of_isFileChar (hw c hc)]

theorem token_of_isBlank (h : IsLexeme .blank w) : (⟨.blank, w⟩ : Piece).token = ⟨.blank, ""⟩ := by
  cases h with
  | sign hmark => cases hmark
  | blank _ hw =>
    rw [Piece.token, Text.trim, String.toList_ofList, Text.dropEnds, Text.dropLeading,
      List.dropWhile_eq_nil_iff.mpr hw]
    rfl

theorem trim_sign (hbefore : Blanks before) (hafter : Blanks after)
    (hmark : Text.isBlank mark = false) :
    Text.trim (String.ofList (before ++ mark :: after)) = String.ofList [mark] := by
  have hreverse : Blanks after.reverse := fun c hc => hafter c (List.mem_reverse.mp hc)
  have hlast : (mark :: after).reverse.dropWhile Text.isBlank = [mark] := by
    rw [List.reverse_cons]
    exact (span_sign [] hreverse hmark).2
  rw [Text.trim, String.toList_ofList, Text.dropEnds, Text.dropLeading,
    (span_sign _ hbefore hmark).2, Text.dropTrailing, hlast]
  rfl

theorem cutOff_sign (hmark : kind.sign? = some mark) (h : mark? mark text = some rest)
    (hfirst : ∀ k w, k.turn < kind.turn → IsLexeme k w → ¬ w <+: text) :
    ∃ lexeme, CutOff text ⟨kind, lexeme⟩ rest ∧
      (⟨kind, lexeme⟩ : Piece).token = ⟨kind, String.ofList [mark]⟩ := by
  have hblank := not_blank_of_sign hmark
  obtain ⟨before, after, rfl, hbefore, hafter, hrest⟩ := exists_of_mark?_eq_some h
  refine ⟨before ++ mark :: after, ⟨by simp, .sign hmark hbefore hafter, ?_, hfirst⟩,
    congrArg _ (trim_sign hbefore hafter hblank)⟩
  rintro w hlexeme ⟨more, hmore⟩
  obtain ⟨before', after', rfl, hbefore', hafter'⟩ := hlexeme.sign_inv hmark
  rw [List.append_assoc, List.cons_append] at hmore
  have hspan := span_sign (after ++ rest) hbefore hblank
  have hspan' := span_sign (after' ++ more) hbefore' hblank
  rw [hmore] at hspan'
  obtain rfl : before = before' := hspan.1.symm.trans hspan'.1
  have hafters : after ++ rest = after' ++ more := (List.cons.inj (hspan.2.symm.trans hspan'.2)).2
  have hlen := length_le_takeWhile hafter' ⟨more, hafters.symm⟩
  rw [Text.takeWhile_append_stop hrest, List.takeWhile_eq_self_iff.mpr hafter] at hlen
  simpa using hlen

theorem cutOff_blank (hc : isFileChar c = false) (hcolon : mark? ':' (c :: cs) = none)
    (hcomma : mark? ',' (c :: cs) = none) :
    CutOff (c :: cs) ⟨.blank, c :: cs.takeWhile Text.isBlank⟩ (cs.dropWhile Text.isBlank) := by
  have hblank : Text.isBlank c = true := by
    by_contra hblank
    have hmark : c = ':' ∨ c = ',' := by
      simpa [isFileChar, Bool.eq_false_iff.mpr hblank, or_iff_not_imp_left] using hc
    rcases hmark with rfl | rfl
    · exact not_prefix_of_mark?_none colon_sign hcolon (isLexeme_mark colon_sign) ⟨cs, rfl⟩
    · exact not_prefix_of_mark?_none comma_sign hcomma (isLexeme_mark comma_sign) ⟨cs, rfl⟩
  refine ⟨?_, .blank (List.cons_ne_nil _ _) ?_, ?_, ?_⟩
  · rw [List.cons_append, List.takeWhile_append_dropWhile]
  · exact List.forall_mem_cons.mpr ⟨hblank, fun d => List.mem_takeWhile_imp⟩
  · rintro w (_ | _ | ⟨hmark⟩ | ⟨-, hw⟩) hpre
    · cases hmark
    · have hlen := length_le_takeWhile hw hpre
      rwa [List.takeWhile_cons_of_pos hblank] at hlen
  · intro kind w hturn hlexeme hw
    have hthree := hlexeme.three_le_turn hw hc hcolon
    cases kind with
    | code | file | colon => exact absurd hthree (by decide)
    | comma => exact not_prefix_of_mark?_none comma_sign hcomma hlexeme hw
    | blank => exact absurd hturn (Nat.lt_irrefl _)
    | finish => exact absurd hturn (Nat.not_lt.mpr (Nat.le_succ 4))

/-- At the start of every text that is not empty a piece is cut off, and its token is the next
one. -/
theorem exists_cutOff_next (c : Char) (cs : List Char) :
    ∃ p, CutOff (c :: cs) p (next c cs).2 ∧ p.token = (next c cs).1 := by
  unfold next
  split
  · rename_i hc
    have hcut := @cutOff_code c cs hc
    exact ⟨_, hcut, token_of_isFileChar (hcut.isLexeme.all_isFileChar (.inr rfl))⟩
  · rename_i hcapital
    split
    · rename_i hc
      have hcut := @cutOff_file c cs (Bool.eq_false_iff.mpr hcapital) hc
      exact ⟨_, hcut, token_of_isFileChar (hcut.isLexeme.all_isFileChar (.inl rfl))⟩
    · rename_i hfile
      have hfile : isFileChar c = false := Bool.eq_false_iff.mpr hfile
      split
      · rename_i rest hcolon
        obtain ⟨lexeme, hcut, htoken⟩ := cutOff_sign colon_sign hcolon fun k w hturn hlexeme hw =>
          absurd hturn (Nat.not_lt.mpr (hlexeme.two_le_turn hw hfile))
        exact ⟨_, hcut, htoken⟩
      · rename_i hcolon
        split
        · rename_i rest hcomma
          obtain ⟨lexeme, hcut, htoken⟩ := cutOff_sign comma_sign hcomma fun k w hturn hlexeme hw =>
            absurd hturn (Nat.not_lt.mpr (hlexeme.three_le_turn hw hfile hcolon))
          exact ⟨_, hcut, htoken⟩
        · rename_i hcomma
          have hcut := cutOff_blank hfile hcolon hcomma
          exact ⟨_, hcut, token_of_isBlank hcut.isLexeme⟩

theorem CutOff.unique (hp : CutOff text p rest) (hq : CutOff text q rest') :
    p = q ∧ rest = rest' := by
  have hpw : p.lexeme <+: text := ⟨rest, hp.text_eq.symm⟩
  have hqw : q.lexeme <+: text := ⟨rest', hq.text_eq.symm⟩
  have hturn : p.kind.turn = q.kind.turn := by
    rcases lt_trichotomy p.kind.turn q.kind.turn with h | h | h
    · exact absurd hpw (hq.first _ _ h hp.isLexeme)
    · exact h
    · exact absurd hqw (hp.first _ _ h hq.isLexeme)
  obtain ⟨k, v⟩ := p
  obtain ⟨k', v'⟩ := q
  obtain rfl : k = k' := by cases k <;> cases k' <;> simp_all [TokenKind.turn]
  have hlen : v.length = v'.length :=
    le_antisymm (hq.longest _ hp.isLexeme hpw) (hp.longest _ hq.isLexeme hqw)
  obtain rfl : v = v' := (List.prefix_of_prefix_length_le hpw hqw hlen.le).eq_of_length hlen
  exact ⟨rfl, List.append_cancel_left (hp.text_eq.symm.trans hq.text_eq)⟩

theorem CutInto.unique (hp : CutInto text ps) (hq : CutInto text qs) : ps = qs := by
  induction hp generalizing qs with
  | done =>
    cases hq with
    | done => rfl
    | cons h => exact absurd (List.append_eq_nil_iff.mp h.text_eq.symm).1 h.isLexeme.ne_nil
  | cons h _ ih =>
    cases hq with
    | done => exact absurd (List.append_eq_nil_iff.mp h.text_eq.symm).1 h.isLexeme.ne_nil
    | cons h' hrest =>
      obtain ⟨rfl, rfl⟩ := h.unique h'
      rw [ih hrest]

theorem CutInto.flatMap_lexeme (h : CutInto text ps) : ps.flatMap Piece.lexeme = text := by
  induction h with
  | done => rfl
  | cons h _ ih => rw [List.flatMap_cons, ih, h.text_eq]

theorem CutInto.isLexeme (h : CutInto text ps) : ∀ p ∈ ps, IsLexeme p.kind p.lexeme := by
  induction h with
  | done => exact List.forall_mem_nil _
  | cons h _ ih => exact List.forall_mem_cons.mpr ⟨h.isLexeme, ih⟩

/-- The scanner cuts every text into pieces up to its end. -/
theorem exists_cutInto_scan (text : List Char) :
    ∃ ps, CutInto text ps ∧ ps.map Piece.token = scan text := by
  induction text using scan.induct with
  | case1 => exact ⟨[], .done, by simp [scan]⟩
  | case2 c cs ih =>
    obtain ⟨p, hcut, htoken⟩ := exists_cutOff_next c cs
    obtain ⟨ps, hrest, htokens⟩ := ih
    refine ⟨p :: ps, .cons hcut hrest, ?_⟩
    rw [List.map_cons, htoken, htokens, scan]

/-- Neither is a file name followed by a file name, nor a blank by a blank, a comma or a colon. -/
def MayFollow (k k' : TokenKind) : Prop :=
  (k = .file → k' ≠ .file) ∧ (k = .blank → k' ≠ .blank ∧ k' ≠ .comma ∧ k' ≠ .colon)

theorem IsLexeme.blank_append {v : List Char} (hv : IsLexeme .blank v) (hw : IsLexeme kind w)
    (hkind : kind = .blank ∨ kind = .comma ∨ kind = .colon) : IsLexeme kind (v ++ w) := by
  have hblank : Blanks v := by
    cases hv with
    | sign hmark => cases hmark
    | blank _ hblank => exact hblank
  cases hw with
  | code | file => simp at hkind
  | sign hmark hbefore hafter =>
    rw [← List.append_assoc]
    exact .sign hmark (List.forall_mem_append.mpr ⟨hblank, hbefore⟩) hafter
  | blank hne hw =>
    exact .blank (List.append_ne_nil_of_right_ne_nil v hne)
      (List.forall_mem_append.mpr ⟨hblank, hw⟩)

/-- A lexeme and the next one together are no lexeme that would have been preferred. -/
theorem CutOff.mayFollow (hp : CutOff text p rest) (hq : CutOff rest q rest') :
    MayFollow p.kind q.kind := by
  have hboth : p.lexeme ++ q.lexeme <+: text := by
    rw [hp.text_eq, hq.text_eq, ← List.append_assoc]
    exact List.prefix_append _ _
  have hlonger : ¬ IsLexeme p.kind (p.lexeme ++ q.lexeme) := by
    intro h
    have hle := hp.longest _ h hboth
    have hpos := List.length_pos_of_ne_nil hq.isLexeme.ne_nil
    rw [List.length_append] at hle
    omega
  obtain ⟨k, v⟩ := p
  obtain ⟨k', v'⟩ := q
  constructor
  · rintro rfl rfl
    refine hlonger (.file (List.append_ne_nil_of_left_ne_nil hp.isLexeme.ne_nil _) ?_)
    exact List.forall_mem_append.mpr
      ⟨hp.isLexeme.all_isFileChar (.inl rfl), hq.isLexeme.all_isFileChar (.inl rfl)⟩
  · rintro rfl
    have happend := hp.isLexeme.blank_append hq.isLexeme
    refine ⟨?_, ?_, ?_⟩
    · rintro rfl
      exact hlonger (happend (.inl rfl))
    · rintro rfl
      exact hp.first .comma _ (Nat.lt_succ_self 3) (happend (.inr (.inl rfl))) hboth
    · rintro rfl
      exact hp.first .colon _ (by decide : 2 < 4) (happend (.inr (.inr rfl))) hboth

theorem CutInto.isChain (h : CutInto text ps) :
    ps.IsChain fun p q => MayFollow p.kind q.kind := by
  induction h with
  | done => exact .nil
  | cons h hrest ih =>
    refine List.isChain_cons.mpr ⟨fun q hq => ?_, ih⟩
    cases hrest with
    | done => cases hq
    | cons h' =>
      cases hq
      exact h.mayFollow h'

/-- Every text is cut into lexemes up to its end, in one way only, and the tokens are those of the
pieces. No lexeme is empty, and together they are the text; file names and codes are without blanks,
colons and commas, and what follows a file name or a blank is restricted. -/
theorem tokens_cut_text (value : String) :
    ∃ ps : List Piece, CutInto value.toList ps ∧ (∀ qs, CutInto value.toList qs → qs = ps) ∧
      tokens value = ps.map Piece.token ++ [⟨.finish, ""⟩] ∧
      (∀ p ∈ ps, p.lexeme ≠ []) ∧ ps.flatMap Piece.lexeme = value.toList ∧
      (∀ t ∈ tokens value, t.kind = .file ∨ t.kind = .code →
        ∀ c ∈ t.text.toList, Text.isBlank c = false ∧ c ≠ ':' ∧ c ≠ ',') ∧
      (tokens value).IsChain fun t u => MayFollow t.kind u.kind := by
  obtain ⟨ps, hcut, htokens⟩ := exists_cutInto_scan value.toList
  have htokens : tokens value = ps.map Piece.token ++ [⟨.finish, ""⟩] := by rw [tokens, htokens]
  refine ⟨ps, hcut, fun qs hqs => hqs.unique hcut, htokens, fun p hp => (hcut.isLexeme p hp).ne_nil,
    hcut.flatMap_lexeme, ?_, ?_⟩
  · rw [htokens]
    intro t ht hkind c hc
    rcases List.mem_append.mp ht with ht | ht
    · obtain ⟨⟨k, v⟩, hp, rfl⟩ := List.mem_map.mp ht
      have hfile := (hcut.isLexeme _ hp).all_isFileChar hkind
      rw [token_of_isFileChar hfile, String.toList_ofList] at hc
      simpa [isFileChar, and_assoc] using hfile c hc
    · rw [List.mem_singleton.mp ht] at hc
      cases hc
  · rw [htokens]
    refine List.isChain_append.mpr ⟨?_, .singleton _, ?_⟩
    · exact (List.isChain_map _).mpr hcut.isChain
    · intro t _ u hu
      rw [← Option.some.inj hu]
      simp [MayFollow]

end LintRunner.PerFile
