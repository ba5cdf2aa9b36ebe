import LintRunner.PerFile.Mapping
import LintRunner.Proofs.Stateful
import Mathlib.Data.List.Chain
import Mathlib.Data.List.TakeWhile

/-!
# Mappings as clauses

A mapping that can be read consists of clauses, each of file names, a colon and codes. Commas and
blanks may stand anywhere, and something must stand between two items. The reader finds out about
both in one pass, with two bits of state. Here they come apart: `Apart` is what the first bit
watches over, and with blanks put between all items the second one alone decides, so that the tokens
read so far are those of the clauses found and of the group at hand.
-/

namespace LintRunner.PerFile

namespace Token

def isSeparator (t : Token) : Bool := t.kind = .comma || t.kind = .blank

def isItem (t : Token) : Bool := t.kind = .file || t.kind = .code

end Token

/-- Files, and the codes that are ignored in them. -/
structure Clause where
  files : List String
  codes : List String
deriving DecidableEq, Repr

namespace Clause

/-- The tokens of a clause that is written without commas and blanks. -/
def tokens (c : Clause) : List Token :=
  c.files.map (Token.mk .file) ++ ⟨.colon, ":"⟩ :: c.codes.map (Token.mk .code)

def pairs (c : Clause) : List Pair := if c.codes = [] then [] else c.files.map (·, c.codes)

end Clause

def essential (ts : List Token) : List Token := ts.filter (!·.isSeparator)

def Apart (ts : List Token) : Prop :=
  ts.IsChain fun t u => ¬ (t.isItem = true ∧ u.isItem = true)

instance (ts : List Token) : Decidable (Apart ts) := by
  delta Apart
  infer_instance

/-- The tokens are those of the clauses with commas and blanks anywhere between them, only the first
clause may be without file names, and items are apart. -/
structure Spells (ts : List Token) (clauses : List Clause) : Prop where
  nonempty : clauses ≠ []
  named : ∀ c ∈ clauses.tail, c.files ≠ []
  essential_eq : essential ts = clauses.flatMap Clause.tokens ++ [⟨.finish, ""⟩]
  apart : Apart ts

namespace Group

inductive Step (g : Group) : Token → List Pair → Group → Prop
  | separator {t : Token} (h : t.isSeparator = true) : Step g t [] { g with separated := true }
  | colon {text : String} (h : g.colonSeen = false) :
      Step g ⟨.colon, text⟩ [] { g with colonSeen := true, separated := true }
  | name {f : String} (h : g.colonSeen = false) (hs : g.separated = true) :
      Step g ⟨.file, f⟩ [] { g with files := g.files ++ [f], separated := false }
  | code {c : String} (h : g.colonSeen = true) (hs : g.separated = true) :
      Step g ⟨.code, c⟩ [] { g with codes := g.codes ++ [c], separated := false }
  | reopen {f : String} (h : g.colonSeen = true) (hs : g.separated = true) :
      Step g ⟨.file, f⟩ g.pairs { files := [f], separated := false }
  | close {text : String} (h : g.colonSeen = true) : Step g ⟨.finish, text⟩ g.pairs {}

variable {g g' : Group} {t : Token} {done : List Pair}

theorem feed_eq_ok_iff : g.feed t = .ok (done, g') ↔ g.Step t done g' := by
  constructor
  · intro h
    obtain ⟨kind, text⟩ := t
    obtain ⟨separated, colonSeen, files, codes⟩ := g
    cases kind with
    | comma | blank =>
      cases h
      exact .separator rfl
    | colon =>
      cases colonSeen <;> simp [feed] at h
      obtain ⟨rfl, rfl⟩ := h
      exact .colon rfl
    | file =>
      cases colonSeen <;> cases separated <;> simp [feed] at h <;> obtain ⟨rfl, rfl⟩ := h
      · exact .name rfl rfl
      · exact .reopen rfl rfl
    | code =>
      cases colonSeen <;> cases separated <;> simp [feed] at h
      obtain ⟨rfl, rfl⟩ := h
      exact .code rfl rfl
    | finish =>
      cases colonSeen <;> simp [feed] at h
      obtain ⟨rfl, rfl⟩ := h
      exact .close rfl
  · intro h
    cases h with
    | separator h =>
      obtain ⟨kind, text⟩ := t
      cases kind <;> simp [Token.isSeparator] at h <;> rfl
    | colon h => simp [feed, h]
    | name h hs => simp [feed, h, hs]
    | code h hs => simp [feed, h, hs]
    | reopen h hs => simp [feed, h, hs]
    | close h => simp [feed, h]

theorem feed_error {u : Unexpected} (h : g.feed t = .error u) : u.token = t := by
  unfold feed at h
  split at h
  · cases h
  · cases h
  · split_ifs at h <;> cases h <;> rfl

theorem Step.separated_eq (h : g.Step t done g') : g'.separated = !t.isItem := by
  cases h with
  | separator h =>
    obtain ⟨kind, text⟩ := t
    cases kind <;> simp [Token.isSeparator] at h <;> rfl
  | colon | name | code | reopen | close => rfl

/-- A token that separates nothing may come exactly if it may come after a separator, and is
separated where it must be. -/
theorem step_iff_of_not_isSeparator (ht : t.isSeparator = false) :
    g.Step t done g' ↔
      (t.isItem = true → g.separated = true) ∧
        ({ g with separated := true } : Group).Step t done g' := by
  constructor
  · intro h
    cases h with
    | separator h => exact absurd h (Bool.eq_false_iff.mp ht)
    | colon h => exact ⟨fun hitem => absurd hitem Bool.false_ne_true, .colon h⟩
    | name h hs => exact ⟨fun _ => hs, .name h rfl⟩
    | code h hs => exact ⟨fun _ => hs, .code h rfl⟩
    | reopen h hs => exact ⟨fun _ => hs, .reopen h rfl⟩
    | close h => exact ⟨fun hitem => absurd hitem Bool.false_ne_true, .close h⟩
  · rintro ⟨hs, h⟩
    cases h with
    | separator h => exact absurd h (Bool.eq_false_iff.mp ht)
    | colon h => exact .colon h
    | name h => exact .name h (hs rfl)
    | code h => exact .code h (hs rfl)
    | reopen h => exact .reopen h (hs rfl)
    | close h => exact .close h

end Group

section Tokens

variable {g : Group} {t : Token} {ts : List Token} {pairs : List Pair}

theorem feedAll_cons_ok_iff :
    feedAll g (t :: ts) = .ok pairs ↔
      ∃ done g' more, g.Step t done g' ∧ feedAll g' ts = .ok more ∧ pairs = done ++ more := by
  simp only [← Group.feed_eq_ok_iff, feedAll]
  cases g.feed t with
  | error u => simp
  | ok result =>
    obtain ⟨done, g'⟩ := result
    cases hrest : feedAll g' ts with
    | error u =>
      refine ⟨fun h => by simp [hrest] at h, ?_⟩
      rintro ⟨_, _, more, hstep, hmore, -⟩
      cases hstep
      rw [hrest] at hmore
      cases hmore
    | ok more =>
      simp only [hrest, Except.ok.injEq, Prod.mk.injEq]
      constructor
      · intro h
        exact ⟨done, g', more, ⟨rfl, rfl⟩, hrest, h.symm⟩
      · rintro ⟨_, _, more', ⟨rfl, rfl⟩, hmore, rfl⟩
        rw [hrest] at hmore
        cases hmore
        rfl

theorem Group.Step.feedAll_ok {done more : List Pair} {g' : Group} (h : g.Step t done g')
    (hrest : feedAll g' ts = .ok more) : feedAll g (t :: ts) = .ok (done ++ more) :=
  feedAll_cons_ok_iff.mpr ⟨done, g', more, h, hrest, rfl⟩

theorem mem_of_feedAll_error {u : Unexpected} (h : feedAll g ts = .error u) : u.token ∈ ts := by
  induction ts generalizing g with
  | nil => cases h
  | cons t ts ih =>
    rw [feedAll] at h
    cases hfeed : g.feed t with
    | error e =>
      rw [hfeed] at h
      cases h
      rw [Group.feed_error hfeed]
      exact List.mem_cons_self
    | ok result =>
      obtain ⟨done, g'⟩ := result
      rw [hfeed] at h
      cases hrest : feedAll g' ts with
      | error e =>
        simp only [hrest] at h
        cases h
        exact List.mem_cons_of_mem t (ih hrest)
      | ok more => simp [hrest] at h

/-- Items are apart, also the first one from what stands before it if that is not `separated`. -/
def ApartAfter (separated : Bool) : List Token → Prop
  | [] => True
  | t :: ts => (t.isItem = true → separated = true) ∧ ApartAfter (!t.isItem) ts

theorem apartAfter_iff {separated : Bool} :
    ApartAfter separated ts ↔
      (separated = false → ∀ t ∈ ts.head?, t.isItem = false) ∧ Apart ts := by
  induction ts generalizing separated with
  | nil => simp [ApartAfter, Apart]
  | cons t ts ih =>
    rw [ApartAfter, ih, Apart, Apart, List.isChain_cons]
    cases hitem : t.isItem <;> cases separated <;> simp [hitem]

def spaced (ts : List Token) : List Token := ts.flatMap fun t => [⟨.blank, ""⟩, t]

theorem feedAll_of_isSeparator (ht : t.isSeparator = true) :
    feedAll g (t :: ts) = .ok pairs ↔
      feedAll { g with separated := true } ts = .ok pairs := by
  rw [feedAll_cons_ok_iff]
  constructor
  · rintro ⟨done, g', more, hstep, hrest, rfl⟩
    cases hstep with
    | separator => exact hrest
    | colon | name | code | reopen | close => exact absurd ht Bool.false_ne_true
  · intro hrest
    exact ⟨[], _, pairs, .separator ht, hrest, rfl⟩

theorem feedAll_spaced_cons :
    feedAll g (spaced (t :: ts)) = .ok pairs ↔
      feedAll { g with separated := true } (t :: spaced ts) = .ok pairs :=
  feedAll_of_isSeparator rfl

theorem feedAll_spaced_separated (separated : Bool) :
    feedAll { g with separated := separated } (spaced ts) = .ok pairs ↔
      feedAll g (spaced ts) = .ok pairs := by
  cases ts with
  | nil => rfl
  | cons t ts => rw [feedAll_spaced_cons, feedAll_spaced_cons]

/-- Tokens can be read exactly if their items are apart and they can be read without their commas
and blanks, but with a blank before each. -/
theorem feedAll_eq_ok_iff :
    feedAll g ts = .ok pairs ↔
      ApartAfter g.separated ts ∧ feedAll g (spaced (essential ts)) = .ok pairs := by
  induction ts generalizing g pairs with
  | nil => simp [ApartAfter, essential, spaced]
  | cons t ts ih =>
    cases ht : t.isSeparator with
    | true =>
      have hitem : t.isItem = false := by
        obtain ⟨kind, text⟩ := t
        cases kind <;> simp [Token.isSeparator] at ht <;> rfl
      have hess : essential (t :: ts) = essential ts := by simp [essential, ht]
      rw [feedAll_of_isSeparator ht, ih, hess, feedAll_spaced_separated, ApartAfter, hitem]
      simp
    | false =>
      have hess : essential (t :: ts) = t :: essential ts := by simp [essential, ht]
      rw [hess, feedAll_spaced_cons, feedAll_cons_ok_iff, feedAll_cons_ok_iff, ApartAfter]
      constructor
      · rintro ⟨done, g', more, hstep, hrest, rfl⟩
        obtain ⟨hapart, hrest⟩ := ih.mp hrest
        rw [hstep.separated_eq] at hapart
        obtain ⟨hs, hstep⟩ := (Group.step_iff_of_not_isSeparator ht).mp hstep
        exact ⟨⟨hs, hapart⟩, done, g', more, hstep, hrest, rfl⟩
      · rintro ⟨⟨hs, hapart⟩, done, g', more, hstep, hrest, rfl⟩
        have hstep := (Group.step_iff_of_not_isSeparator ht).mpr ⟨hs, hstep⟩
        rw [← hstep.separated_eq] at hapart
        exact ⟨done, g', more, hstep, ih.mpr ⟨hapart, hrest⟩, rfl⟩

end Tokens

/-! ## From clauses to tokens -/

section Written

variable {g : Group} {core : List Token} {pairs : List Pair}

theorem feedAll_names {fs : List String} (names : List String)
    (h : feedAll { files := fs ++ names } (spaced core) = .ok pairs) :
    feedAll { files := fs } (spaced (names.map (Token.mk .file) ++ core)) = .ok pairs := by
  induction names generalizing fs with
  | nil => simpa using h
  | cons f names ih =>
    have hrest : feedAll { files := fs ++ [f], separated := false }
        (spaced (names.map (Token.mk .file) ++ core)) = .ok pairs :=
      (feedAll_spaced_separated false).mpr (ih (by simpa using h))
    exact feedAll_spaced_cons.mpr ((Group.Step.name rfl rfl).feedAll_ok hrest)

theorem feedAll_codes {fs cs : List String} (codes : List String)
    (h : feedAll { colonSeen := true, files := fs, codes := cs ++ codes } (spaced core) =
      .ok pairs) :
    feedAll { colonSeen := true, files := fs, codes := cs }
      (spaced (codes.map (Token.mk .code) ++ core)) = .ok pairs := by
  induction codes generalizing cs with
  | nil => simpa using h
  | cons c codes ih =>
    have hrest : feedAll
        { colonSeen := true, files := fs, codes := cs ++ [c], separated := false }
        (spaced (codes.map (Token.mk .code) ++ core)) = .ok pairs :=
      (feedAll_spaced_separated false).mpr (ih (by simpa using h))
    exact feedAll_spaced_cons.mpr ((Group.Step.code rfl rfl).feedAll_ok hrest)

theorem feedAll_clause (fs : List String) {names codes : List String}
    (h : feedAll { colonSeen := true, files := fs ++ names, codes := codes } (spaced core) =
      .ok pairs) :
    feedAll { files := fs } (spaced ((⟨names, codes⟩ : Clause).tokens ++ core)) = .ok pairs := by
  rw [Clause.tokens, List.append_assoc, List.cons_append]
  apply feedAll_names
  apply feedAll_spaced_cons.mpr
  exact (Group.Step.colon rfl).feedAll_ok (feedAll_codes codes h)

theorem Clause.pairs_eq (c : Clause) :
    c.pairs = ({ colonSeen := true, files := c.files, codes := c.codes } : Group).pairs := by
  simp [Clause.pairs, Group.pairs]

theorem feedAll_clauses {c : Clause} {rest : List Clause} (hrest : ∀ d ∈ rest, d.files ≠ []) :
    feedAll { colonSeen := true, files := c.files, codes := c.codes }
      (spaced (rest.flatMap Clause.tokens ++ [⟨.finish, ""⟩])) =
        .ok ((c :: rest).flatMap Clause.pairs) := by
  induction rest generalizing c with
  | nil =>
    apply feedAll_spaced_cons.mpr
    rw [List.flatMap_cons, c.pairs_eq]
    exact (Group.Step.close rfl).feedAll_ok rfl
  | cons d rest ih =>
    obtain ⟨hd, htail⟩ := List.forall_mem_cons.mp hrest
    obtain ⟨files, codes⟩ := d
    obtain ⟨f, names, rfl⟩ := List.exists_cons_of_ne_nil hd
    have hnext : feedAll { files := [f], separated := false }
        (spaced ((⟨names, codes⟩ : Clause).tokens ++
          (rest.flatMap Clause.tokens ++ [⟨.finish, ""⟩]))) =
        .ok ((⟨f :: names, codes⟩ :: rest).flatMap Clause.pairs) :=
      (feedAll_spaced_separated false).mpr
        (feedAll_clause [f] (ih htail (c := ⟨f :: names, codes⟩)))
    rw [List.flatMap_cons, List.flatMap_cons, c.pairs_eq, List.append_assoc]
    exact feedAll_spaced_cons.mpr ((Group.Step.reopen rfl rfl).feedAll_ok hnext)

theorem feedAll_of_spells {ts : List Token} {clauses : List Clause} (h : Spells ts clauses) :
    feedAll {} ts = .ok (clauses.flatMap Clause.pairs) := by
  obtain ⟨c, rest, rfl⟩ := List.exists_cons_of_ne_nil h.nonempty
  have hapart : ApartAfter true ts :=
    apartAfter_iff.mpr ⟨fun hs => absurd hs.symm Bool.false_ne_true, h.apart⟩
  refine feedAll_eq_ok_iff.mpr ⟨hapart, ?_⟩
  rw [h.essential_eq, List.flatMap_cons, List.append_assoc]
  exact feedAll_clause [] (feedAll_clauses h.named)

end Written

def Group.written (g : Group) : List Token :=
  g.files.map (Token.mk .file) ++
    if g.colonSeen then ⟨.colon, ":"⟩ :: g.codes.map (Token.mk .code) else []

/-- A token as the scanner makes them before the final one. -/
def Token.Inner (t : Token) : Prop := t.kind ≠ .finish ∧ (t.kind = .colon → t.text = ":")

theorem exists_clauses_of_feedAll {g : Group} {ts : List Token} {pairs : List Pair}
    (h : feedAll g (ts ++ [⟨.finish, ""⟩]) = .ok pairs) (hts : ∀ t ∈ ts, t.Inner)
    (hg : g.colonSeen = false → g.codes = []) :
    ∃ c rest, (∀ d ∈ rest, d.files ≠ []) ∧ (g.files ≠ [] → c.files ≠ []) ∧
      g.written ++ essential ts = (c :: rest).flatMap Clause.tokens ∧
      pairs = (c :: rest).flatMap Clause.pairs := by
  induction ts generalizing g pairs with
  | nil =>
    obtain ⟨done, g', more, hstep, hrest, rfl⟩ := feedAll_cons_ok_iff.mp h
    cases hrest
    cases hstep with
    | separator hsep => exact absurd hsep Bool.false_ne_true
    | close hseen =>
      refine ⟨⟨g.files, g.codes⟩, [], by simp, id, ?_, ?_⟩
      · simp [Group.written, hseen, essential, Clause.tokens]
      · simp [Clause.pairs, Group.pairs]
  | cons t ts ih =>
    obtain ⟨ht, htail⟩ := List.forall_mem_cons.mp hts
    obtain ⟨done, g', more, hstep, hrest, rfl⟩ := feedAll_cons_ok_iff.mp h
    cases hstep with
    | separator hsep =>
      have hess : essential (t :: ts) = essential ts := by simp [essential, hsep]
      obtain ⟨c, rest, hnamed, hfirst, htokens, rfl⟩ := ih hrest htail hg
      exact ⟨c, rest, hnamed, hfirst, hess ▸ htokens, rfl⟩
    | @colon text hseen =>
      obtain rfl : text = ":" := ht.2 rfl
      obtain ⟨c, rest, hnamed, hfirst, htokens, rfl⟩ := ih hrest htail (by simp)
      refine ⟨c, rest, hnamed, hfirst, ?_, rfl⟩
      rw [← htokens]
      simp [Group.written, hseen, hg hseen, essential, Token.isSeparator]
    | @name f hseen hs =>
      obtain ⟨c, rest, hnamed, hfirst, htokens, rfl⟩ := ih hrest htail hg
      refine ⟨c, rest, hnamed, fun _ => hfirst (by simp), ?_, rfl⟩
      rw [← htokens]
      simp [Group.written, hseen, essential, Token.isSeparator]
    | @code code hseen hs =>
      obtain ⟨c, rest, hnamed, hfirst, htokens, rfl⟩ :=
        ih hrest htail fun hno => absurd (hno.symm.trans hseen) Bool.false_ne_true
      refine ⟨c, rest, hnamed, hfirst, ?_, rfl⟩
      rw [← htokens]
      simp [Group.written, hseen, essential, Token.isSeparator]
    | @reopen f hseen hs =>
      obtain ⟨c, rest, hnamed, hfirst, htokens, rfl⟩ := ih hrest htail fun _ => rfl
      refine ⟨⟨g.files, g.codes⟩, c :: rest, ?_, id, ?_, ?_⟩
      · exact List.forall_mem_cons.mpr ⟨hfirst (by simp), hnamed⟩
      · rw [List.flatMap_cons, ← htokens]
        simp [Group.written, hseen, essential, Token.isSeparator, Clause.tokens]
      · simp [Clause.pairs, Group.pairs]
    | close => exact absurd rfl ht.1

theorem next_inner (c : Char) (cs : List Char) : (next c cs).1.Inner := by
  unfold next
  split_ifs with hcapital hfile
  · exact ⟨by simp, by simp⟩
  · exact ⟨by simp, by simp⟩
  · split
    · exact ⟨by simp, fun _ => rfl⟩
    · split <;> exact ⟨by simp, by simp⟩

theorem inner_of_mem_scan {cs : List Char} {t : Token} (h : t ∈ scan cs) : t.Inner := by
  induction cs using scan.induct with
  | case1 => simp [scan] at h
  | case2 c cs ih =>
    rw [scan, List.mem_cons] at h
    rcases h with rfl | hrest
    · exact next_inner c cs
    · exact ih hrest

theorem isEmpty_trim_iff (s : String) :
    (Text.trim s).isEmpty = true ↔ ∀ c ∈ s.toList, Text.isBlank c = true := by
  rw [String.isEmpty_iff, Text.trim, String.ofList_eq_empty_iff, Text.dropEnds, Text.dropTrailing,
    Text.dropLeading, List.reverse_eq_nil_iff, List.dropWhile_eq_nil_iff]
  constructor
  · intro h
    apply List.dropWhile_eq_nil_iff.mp
    by_contra hne
    have hhead := List.head_dropWhile_not Text.isBlank hne
    have hblank := h _ (List.mem_reverse.mpr (List.head_mem hne))
    exact absurd (hhead.symm.trans hblank) Bool.false_ne_true
  · intro h
    rw [List.dropWhile_eq_nil_iff.mpr h]
    simp

theorem parse_eq_ok_iff {s : String} {pairs : List Pair}
    (hs : ∃ c ∈ s.toList, Text.isBlank c = false) :
    parse s = .ok pairs ↔
      ∃ clauses, Spells (tokens s) clauses ∧ pairs = clauses.flatMap Clause.pairs := by
  have hblank : (Text.trim s).isEmpty = false := by
    obtain ⟨c, hc, hcb⟩ := hs
    rw [Bool.eq_false_iff, ne_eq, isEmpty_trim_iff]
    exact fun hall => absurd (hcb.symm.trans (hall c hc)) Bool.false_ne_true
  rw [parse, hblank, if_neg Bool.false_ne_true]
  constructor
  · intro h
    have hapart := (feedAll_eq_ok_iff.mp h).1
    obtain ⟨c, rest, hnamed, -, htokens, hpairs⟩ :=
      exists_clauses_of_feedAll h (fun t ht => inner_of_mem_scan ht) fun _ => rfl
    refine ⟨c :: rest, ⟨by simp, hnamed, ?_, (apartAfter_iff.mp hapart).2⟩, hpairs⟩
    rw [← htokens]
    simp [tokens, essential, Group.written, Token.isSeparator]
  · rintro ⟨clauses, hspells, rfl⟩
    exact feedAll_of_spells hspells

theorem mem_tokens_of_parse_error {s : String} {u : Unexpected} (h : parse s = .error u) :
    u.token ∈ tokens s := by
  unfold parse at h
  split at h
  · cases h
  · exact mem_of_feedAll_error h

/-- The value gives the text of a mapping, in one piece or line by line. -/
inductive Tells : Value → String → Prop
  | text (s : String) : Tells (.text s) s
  | list (lines : List String) : Tells (.list (lines.map .text)) (Text.joinWith "\n" lines)
  | tuple (lines : List String) : Tells (.tuple (lines.map .text)) (Text.joinWith "\n" lines)

theorem Tells.read_eq {v : Value} {s : String} (h : Tells v s) :
    read v = (parse s).mapError fun u => Fault.badValue u.message := by
  have hlines : ∀ lines : List String, (lines.map Value.text).mapM Value.asText = .ok lines :=
    Stateful.mapM_map_ok fun _ => rfl
  have htext : textOf v = .ok s := by
    cases h with
    | text => rfl
    | list lines => rw [textOf, hlines]; rfl
    | tuple lines => rw [textOf, hlines]; rfl
  rw [read, htext]
  dsimp only [bind, Except.bind]

/-- A mapping of blanks is empty. Any other one can be read exactly if its tokens spell clauses, and
then gives the pairs of these clauses in order; if not, one of its tokens is unexpected. -/
theorem read_ok_iff_spells {v : Value} {s : String} (hv : Tells v s) :
    ((∀ c ∈ s.toList, Text.isBlank c = true) → read v = .ok []) ∧
    ((∃ c ∈ s.toList, Text.isBlank c = false) →
      ((∃ pairs, read v = .ok pairs) ↔ ∃ clauses, Spells (tokens s) clauses) ∧
      (∀ clauses, Spells (tokens s) clauses → read v = .ok (clauses.flatMap Clause.pairs)) ∧
      ((¬ ∃ clauses, Spells (tokens s) clauses) →
        ∃ t ∈ tokens s, read v = .error (Fault.badValue (Unexpected.message ⟨t⟩)))) := by
  rw [hv.read_eq]
  refine ⟨fun hblank => ?_, fun hs => ?_⟩
  · rw [parse, if_pos ((isEmpty_trim_iff s).mpr hblank)]
    rfl
  · cases hparse : parse s with
    | ok pairs =>
      obtain ⟨clauses, hspells, hpairs⟩ := (parse_eq_ok_iff hs).mp hparse
      refine ⟨⟨fun _ => ⟨clauses, hspells⟩, fun _ => ⟨pairs, rfl⟩⟩, ?_, ?_⟩
      · intro others hothers
        have hsame := (parse_eq_ok_iff hs).mpr ⟨others, hothers, rfl⟩
        rw [hparse] at hsame
        cases hsame
        rfl
      · exact fun hno => absurd ⟨clauses, hspells⟩ hno
    | error u =>
      have hno : ¬ ∃ clauses, Spells (tokens s) clauses := by
        rintro ⟨clauses, hspells⟩
        have hok := (parse_eq_ok_iff hs).mpr ⟨clauses, hspells, rfl⟩
        rw [hparse] at hok
        cases hok
      refine ⟨⟨?_, fun hspells => absurd hspells hno⟩, ?_, ?_⟩
      · rintro ⟨pairs, hpairs⟩
        cases hpairs
      · exact fun clauses hspells => absurd ⟨clauses, hspells⟩ hno
      · exact fun _ => ⟨u.token, mem_tokens_of_parse_error hparse, rfl⟩

/-- Two files with two codes, and a third clause without codes, over three lines. -/
theorem read_ok_over_lines :
    Tells (.list (["f.py , g.py:", "E1 F", "h.py :"].map .text)) "f.py , g.py:\nE1 F\nh.py :" ∧
      read (.list (["f.py , g.py:", "E1 F", "h.py :"].map .text)) =
        .ok [("f.py", ["E1", "F"]), ("g.py", ["E1", "F"])] := by
  have htells : Tells (.list (["f.py , g.py:", "E1 F", "h.py :"].map .text))
      "f.py , g.py:\nE1 F\nh.py :" := .list ["f.py , g.py:", "E1 F", "h.py :"]
  have hspells : Spells (tokens "f.py , g.py:\nE1 F\nh.py :")
      [⟨["f.py", "g.py"], ["E1", "F"]⟩, ⟨["h.py"], []⟩] :=
    ⟨by decide, by decide, by decide +kernel, by decide +kernel⟩
  have hvisible : ∃ c ∈ "f.py , g.py:\nE1 F\nh.py :".toList, Text.isBlank c = false :=
    ⟨'f', by decide, rfl⟩
  exact ⟨htells, ((read_ok_iff_spells htells).2 hvisible).2.1 _ hspells⟩

end LintRunner.PerFile
