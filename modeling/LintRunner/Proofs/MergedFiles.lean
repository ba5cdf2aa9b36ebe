import LintRunner.Proofs.LowerCase
import LintRunner.Proofs.NormalValues
import LintRunner.Proofs.RememberedConfiguration

/-!
# Files read one after the other

Reading a file over what was read before comes to the same as reading the file alone and putting
what it says over the rest. So of several files each option keeps the place where it was mentioned
first and has the value that it was given last.
-/

namespace LintRunner.Config

open Stateful

namespace Ini

variable {ini base own : Ini} {n p : String}

def part (ini : Ini) (n : String) : Section :=
  if n = defaultSection then ini.defaults else (ini.sections.lookup n).getD []

@[simp] theorem part_empty (n : String) : part {} n = [] := by
  unfold part
  split <;> rfl

theorem part_modify (ini : Ini) (p : String) (g : Section → Section) (n : String) :
    (ini.modify p g).part n = if n = p then g (ini.part p) else ini.part n := by
  unfold modify part
  by_cases hp : p = defaultSection
  · rw [if_pos hp, if_pos hp]
    by_cases hn : n = defaultSection
    · rw [if_pos hn, if_pos (hn.trans hp.symm)]
    · rw [if_neg hn, if_neg fun h => hn (h.trans hp), if_neg hn]
  · rw [if_neg hp, if_neg hp, Entries.lookup_put]
    by_cases hn : n = p
    · rw [if_pos hn, if_pos hn, if_neg fun h => hp (hn.symm.trans h), Option.getD_some]
    · rw [if_neg hn, if_neg hn]

theorem modify_congr {g g' : Section → Section} (h : g (ini.part p) = g' (ini.part p)) :
    ini.modify p g = ini.modify p g' := by
  unfold part at h
  unfold modify
  by_cases hp : p = defaultSection
  · rw [if_pos hp] at h
    rw [if_pos hp, if_pos hp, h]
  · rw [if_neg hp] at h
    rw [if_neg hp, if_neg hp, h]

theorem hasSection_modify (ini : Ini) (p : String) (g : Section → Section) (n : String) :
    (ini.modify p g).hasSection n = (ini.hasSection n || (n = p && p ≠ defaultSection)) := by
  unfold modify hasSection Entries.has
  by_cases hp : p = defaultSection
  · simp [hp]
  · rw [if_neg hp, Entries.lookup_put]
    by_cases hn : n = p <;> simp [hn, hp]

theorem part_addSection (ini : Ini) (p n : String) : (ini.addSection p).part n = ini.part n := by
  unfold addSection part
  rw [Entries.lookup_putNew]
  by_cases hn : n = p
  · rw [if_pos hn]
    cases ini.sections.lookup n <;> rfl
  · rw [if_neg hn, Option.or_none]

theorem hasSection_addSection (ini : Ini) (p n : String) :
    (ini.addSection p).hasSection n = (ini.hasSection n || n = p) := by
  unfold addSection hasSection Entries.has
  rw [Entries.lookup_putNew, Option.isSome_or]
  by_cases hn : n = p <;> simp [hn]

theorem part_trimmed (ini : Ini) (n : String) :
    ini.trimmed.part n = Entries.mapValues Text.trimEnd (ini.part n) := by
  unfold part
  have hlookup : ini.trimmed.sections.lookup n =
      (ini.sections.lookup n).map (Entries.mapValues Text.trimEnd) :=
    Entries.lookup_mapValues (Entries.mapValues Text.trimEnd) n ini.sections
  rw [hlookup]
  by_cases hn : n = defaultSection
  · rw [if_pos hn, if_pos hn]
    rfl
  · rw [if_neg hn, if_neg hn]
    cases ini.sections.lookup n <;> rfl

theorem hasSection_trimmed (ini : Ini) (n : String) :
    ini.trimmed.hasSection n = ini.hasSection n := by
  have hlookup : ini.trimmed.sections.lookup n =
      (ini.sections.lookup n).map (Entries.mapValues Text.trimEnd) :=
    Entries.lookup_mapValues (Entries.mapValues Text.trimEnd) n ini.sections
  unfold hasSection Entries.has
  rw [hlookup, Option.isSome_map]

/-- A configuration says what one says and, where that says nothing, what another says. -/
structure Overlaid (base own ini : Ini) : Prop where
  part : ∀ n, ini.part n = Entries.putAll (own.part n) (base.part n)
  hasSection : ∀ n, ini.hasSection n = (base.hasSection n || own.hasSection n)

theorem Overlaid.modify (h : Overlaid base own ini) {g g' : Section → Section}
    (hg : g' (Entries.putAll (own.part p) (base.part p)) =
      Entries.putAll (g (own.part p)) (base.part p)) :
    Overlaid base (own.modify p g) (ini.modify p g') := by
  constructor
  · intro n
    rw [part_modify, part_modify, h.part, h.part]
    by_cases hn : n = p
    · rw [if_pos hn, if_pos hn, hg, hn]
    · rw [if_neg hn, if_neg hn]
  · intro n
    rw [hasSection_modify, hasSection_modify, h.hasSection, Bool.or_assoc]

theorem Overlaid.addSection (h : Overlaid base own ini) (p : String) :
    Overlaid base (own.addSection p) (ini.addSection p) := by
  constructor
  · intro n
    rw [part_addSection, part_addSection, h.part]
  · intro n
    rw [hasSection_addSection, hasSection_addSection, h.hasSection, Bool.or_assoc]

def Reader.over (q : Reader) (ini : Ini) : Reader := { q with ini := ini }

/-- Reading a file over a base goes as reading the file alone does: what stands then over the base
is what the file alone says. -/
structure Follows (base : Ini) (q : Reader) (ini : Ini) : Prop where
  overlaid : Overlaid base q.ini ini
  listed : ∀ n, Entries.Listed (fun option => Text.lower option = option) (q.ini.part n)
  met : ∀ n ∈ q.sections, q.ini.hasSection n = true
  noDefault : q.ini.hasSection defaultSection = false
  started : ∀ n option, q.place = some n → q.option = some option →
    ∃ v, (q.ini.part n).lookup option = some v

/-- Readers of a file alone and over a base differ in nothing else. -/
def Beside (base : Ini) (q r : Reader) : Prop := ∃ ini, r = q.over ini ∧ Follows base q ini

variable {q q' : Reader} {file line option value : String}

theorem Follows.congr (h : Follows base q ini) (hini : q'.ini = q.ini)
    (hsections : q'.sections = q.sections) (hplace : q'.place = q.place)
    (hoption : q'.option = q.option) : Follows base q' ini := by
  obtain ⟨hover, hlisted, hmet, hdefault, hstarted⟩ := h
  refine ⟨hini ▸ hover, hini ▸ hlisted, ?_, hini ▸ hdefault, ?_⟩
  · rw [hsections, hini]
    exact hmet
  · rw [hplace, hoption, hini]
    exact hstarted

theorem Follows.put (h : Follows base q ini) (hlower : Text.lower option = option)
    (hini : q'.ini = q.ini.modify p (Entries.put option value))
    (hsections : q'.sections = q.sections) (hplace : q'.place = some p)
    (hoption : ∀ o, q'.option = some o → o = option) :
    Follows base q' (ini.modify p (Entries.put option value)) := by
  constructor
  · rw [hini]
    exact h.overlaid.modify (Entries.putAll_put (h.listed p).nodup option value _).symm
  · intro n
    rw [hini, part_modify]
    split
    · exact (h.listed p).put hlower
    · exact h.listed n
  · intro n hn
    rw [hini, hasSection_modify, h.met n (hsections ▸ hn), Bool.true_or]
  · rw [hini, hasSection_modify, h.noDefault, Bool.false_or]
    by_cases hp : p = defaultSection
    · simp [hp]
    · simp [Ne.symm hp]
  · intro n o hn ho
    cases hplace.symm.trans hn
    refine ⟨value, ?_⟩
    rw [hini, part_modify, if_pos rfl, hoption o ho, Entries.lookup_put, if_pos rfl]

theorem append_of_none (hnone : q.place = none ∨ q.option = none) : q.append line = q := by
  unfold Reader.append
  rcases hnone with hnone | hnone
  · rw [hnone]
  · rw [hnone]
    cases q.place <;> rfl

theorem append_of_lookup {v : String} (hplace : q.place = some p) (hoption : q.option = some option)
    (hv : (q.ini.part p).lookup option = some v) :
    q.append line = q.over (q.ini.modify p (Entries.put option (v ++ "\n" ++ line))) := by
  unfold Reader.append
  split
  · rename_i n o hn ho
    cases hn.symm.trans hplace
    cases ho.symm.trans hoption
    refine congrArg q.over (modify_congr ?_)
    rw [hv]
  · rename_i hnone
    exact (hnone p option hplace hoption).elim

theorem Follows.append (h : Follows base q ini) (line : String) :
    Beside base (q.append line) ((q.over ini).append line) := by
  by_cases hnone : q.place = none ∨ q.option = none
  · have hover : (q.over ini).append line = q.over ini := append_of_none hnone
    rw [append_of_none hnone, hover]
    exact ⟨ini, rfl, h⟩
  · obtain ⟨hplace, hoption⟩ := not_or.mp hnone
    obtain ⟨n, hplace⟩ := Option.ne_none_iff_exists'.mp hplace
    obtain ⟨o, hoption⟩ := Option.ne_none_iff_exists'.mp hoption
    obtain ⟨v, hv⟩ := h.started n o hplace hoption
    have hbase : (ini.part n).lookup o = some v := by
      rw [h.overlaid.part, Entries.lookup_putAll, Entries.lookup_reverse (h.listed n).nodup, hv,
        Option.some_or]
    have hlower : Text.lower o = o := by
      refine (h.listed n).names o ?_
      by_contra hmem
      rw [Entries.lookup_eq_none_of_not_mem hmem] at hv
      cases hv
    have hover : (q.over ini).append line = (q.over ini).over _ :=
      append_of_lookup hplace hoption hbase
    rw [append_of_lookup hplace hoption hv, hover]
    refine ⟨_, rfl, h.put hlower rfl rfl hplace ?_⟩
    intro o' ho'
    exact (Option.some.inj (hoption.symm.trans ho')).symm

theorem Follows.enter_alike (h : Follows base q ini) (file : String) (n : Nat) (name : String) :
    Alike (Beside base) (q.enter file n name) ((q.over ini).enter file n name) := by
  have hagain : (ini.hasSection name && q.sections.contains name) =
      (q.ini.hasSection name && q.sections.contains name) := by
    by_cases hmem : name ∈ q.sections
    · rw [h.overlaid.hasSection, h.met name hmem, Bool.or_true]
    · rw [List.contains_eq_mem, decide_eq_false hmem, Bool.and_false, Bool.and_false]
  unfold Reader.enter
  simp only [Reader.over, hagain]
  split
  · exact .error _
  · split
    · refine .ok ⟨ini, rfl, ⟨h.overlaid, h.listed, h.met, h.noDefault, ?_⟩⟩
      intro _ o _ ho
      cases ho
    · rename_i hname
      refine .ok ⟨_, rfl, ⟨h.overlaid.addSection name, ?_, ?_, ?_, ?_⟩⟩
      · intro p
        rw [part_addSection]
        exact h.listed p
      · intro p hp
        rw [hasSection_addSection]
        rcases List.mem_cons.mp hp with rfl | hp
        · simp
        · rw [h.met p hp, Bool.true_or]
      · rw [hasSection_addSection, h.noDefault, Bool.false_or]
        exact decide_eq_false (Ne.symm hname)
      · intro _ o _ ho
        cases ho

theorem Follows.start_alike (h : Follows base q ini) (hplace : q.place = some p)
    (hlower : Text.lower option = option) (file : String) (n : Nat) (line value : String) :
    Alike (Beside base) (q.start file p n line option value)
      ((q.over ini).start file p n line option value) := by
  unfold Reader.start
  cases hempty : option.isEmpty with
  | false =>
    simp only [Reader.over, Bool.false_eq_true, if_false]
    split
    · exact .error _
    · exact .ok ⟨_, rfl, h.put hlower rfl rfl hplace fun o ho => (Option.some.inj ho).symm⟩
  | true =>
    simp only [Reader.over, if_true]
    split
    · exact .error _
    · refine .ok ⟨_, rfl, h.put hlower rfl rfl hplace fun o ho => ?_⟩
      cases ho

theorem lower_of_option? {body : List Char} (h : option? body = some (option, value)) :
    Text.lower option = option := by
  unfold option? at h
  split at h
  · rw [← (Prod.mk.inj (Option.some.inj h)).1]
    exact Text.lower_lower _
  · cases h

theorem Follows.line_alike (h : Follows base q ini) (file : String) (n : Nat) (line : String) :
    Alike (Beside base) (q.line file n line) ((q.over ini).line file n line) := by
  obtain ⟨own, place, started, indent, sections, options, bad⟩ := q
  have hindent : Follows base
      ⟨own, place, started, (line.toList.takeWhile Text.isBlank).length, sections, options, bad⟩ ini :=
    h.congr rfl rfl rfl rfl
  unfold Reader.line
  simp only [Reader.over]
  refine .ite .rfl (fun _ => .ok ⟨ini, rfl, h⟩) fun _ => ?_
  refine .ite .rfl (fun _ => .ok (h.append "")) fun _ => ?_
  refine .ite .rfl (fun _ => .ok (h.append _)) fun _ => ?_
  cases header? (Text.trim line).toList with
  | some name => exact hindent.enter_alike file n name
  | none =>
    cases place with
    | none => exact .error _
    | some p =>
      cases hoption : option? (Text.trim line).toList with
      | some e => exact hindent.start_alike rfl (lower_of_option? hoption) file n line e.2
      | none => exact .ok ⟨ini, rfl, hindent.congr rfl rfl rfl rfl⟩

theorem Follows.lines (h : Follows base q ini) (file : String) (n : Nat) (ls : List String) :
    ((q.over ini).lines file n ls).2 = (q.lines file n ls).2 ∧
      Beside base (q.lines file n ls).1 ((q.over ini).lines file n ls).1 := by
  induction ls generalizing q ini n with
  | nil => exact ⟨rfl, ini, rfl, h⟩
  | cons l rest ih =>
    have hline := h.line_alike file n l
    rw [Reader.lines, Reader.lines]
    generalize q.line file n l = alone at hline ⊢
    generalize (q.over ini).line file n l = joint at hline ⊢
    cases hline with
    | error e => exact ⟨rfl, ini, rfl, h⟩
    | ok hnext =>
      obtain ⟨ini', rfl, hnext⟩ := hnext
      exact ih hnext (n + 1)

/-- A configuration as a file alone gives it: options stand once, in lower case. -/
structure Plain (ini : Ini) : Prop where
  listed : ∀ n, Entries.Listed (fun option => Text.lower option = option) (ini.part n)
  noDefault : ini.hasSection defaultSection = false

def Trimmed (ini : Ini) : Prop :=
  ∀ n, Entries.mapValues Text.trimEnd (ini.part n) = ini.part n

theorem trimmed_empty : Trimmed {} := by
  intro n
  rw [part_empty]
  rfl

theorem trimmed_trimmed (ini : Ini) : Trimmed ini.trimmed := by
  intro n
  rw [part_trimmed, Entries.mapValues, Entries.mapValues, List.map_map]
  refine List.map_congr_left fun e _ => Prod.ext rfl ?_
  change Text.trimEnd (Text.trimEnd e.2) = Text.trimEnd e.2
  rw [Text.trimEnd, Text.trimEnd, String.toList_ofList, Text.dropTrailing_dropTrailing]

theorem Overlaid.trimmed (h : Overlaid base own ini) (hbase : Trimmed base) :
    Overlaid base own.trimmed ini.trimmed := by
  constructor
  · intro n
    rw [part_trimmed, part_trimmed, h.part, Entries.mapValues_putAll, hbase]
  · intro n
    rw [hasSection_trimmed, hasSection_trimmed, h.hasSection]

theorem overlaid_empty (base : Ini) : Overlaid base {} base := by
  constructor
  · intro n
    rw [part_empty]
    rfl
  · intro n
    exact (Bool.or_false _).symm

theorem plain_empty : Plain {} := by
  refine ⟨fun n => ?_, rfl⟩
  rw [part_empty]
  exact ⟨List.nodup_nil, List.forall_mem_nil _⟩

theorem follows_empty (base : Ini) : Follows base { ini := {} } base := by
  constructor
  · exact overlaid_empty base
  · exact plain_empty.listed
  · exact List.forall_mem_nil _
  · rfl
  · intro n o hn
    cases hn

theorem read_of_lines {q : Reader} {fault : Option Fault} {text : List Char}
    (h : Reader.lines { ini := ini } file 1
      ((Text.linesAfterFeed (Text.unifyNewlines text)).map String.ofList) = (q, fault)) :
    ini.read file text = (q.ini.trimmed,
      fault.or (if q.badLines.isEmpty then none else some (badLinesFault file q.badLines))) := by
  unfold Ini.read
  simp only [h]
  cases fault <;> rfl

theorem read_over (hbase : Trimmed base) (file : String) (text : List Char) :
    (Ini.read {} file text).1.Plain ∧ (base.read file text).2 = (Ini.read {} file text).2 ∧
      Overlaid base (Ini.read {} file text).1 (base.read file text).1 ∧
      Trimmed (base.read file text).1 := by
  obtain ⟨hfault, ini, hini, hfollows⟩ := (follows_empty base).lines file 1
    ((Text.linesAfterFeed (Text.unifyNewlines text)).map String.ofList)
  rcases hq : Reader.lines { ini := {} } file 1
    ((Text.linesAfterFeed (Text.unifyNewlines text)).map String.ofList) with ⟨q, fault⟩
  rw [hq] at hfault hini hfollows
  rw [read_of_lines hq, read_of_lines (Prod.ext hini hfault)]
  refine ⟨⟨fun n => ?_, ?_⟩, rfl, hfollows.overlaid.trimmed hbase, trimmed_trimmed ini⟩
  · rw [part_trimmed]
    exact (hfollows.listed n).mapValues _
  · rw [hasSection_trimmed]
    exact hfollows.noDefault

theorem read_overlaid {text : List Char} (hbase : Trimmed base)
    (h : Ini.read {} file text = (own, none)) :
    own.Plain ∧ ∃ ini, base.read file text = (ini, none) ∧ Overlaid base own ini ∧ Trimmed ini := by
  have hover := read_over hbase file text
  rw [h] at hover
  exact ⟨hover.1, _, Prod.ext rfl hover.2.1, hover.2.2⟩

end Ini

/-- The file can be read, and this is what it says. -/
def Says (t : FileTree) (file : String) (own : Ini) : Prop :=
  ∃ bytes text, t.read file = .ok bytes ∧ Source.decodeUtf8 bytes = some text ∧
    Ini.read {} file text = (own, none)

theorem readFiles_says {t : FileTree} {files : List String} {owns : List Ini} {base : Ini}
    (h : List.Forall₂ (Says t) files owns) (hbase : base.Trimmed) (read : List String) :
    (∀ own ∈ owns, own.Plain) ∧ ∃ ini, Finder.readFiles t base read files = .ok (ini, read ++ files) ∧
      (∀ n, ini.part n = Entries.putAll (owns.flatMap (·.part n)) (base.part n)) ∧
      ∀ n, ini.hasSection n = (base.hasSection n || owns.any (·.hasSection n)) := by
  induction h generalizing base read with
  | nil =>
    refine ⟨List.forall_mem_nil _, base, ?_, fun n => rfl, fun n => (Bool.or_false _).symm⟩
    rw [Finder.readFiles, List.append_nil]
  | @cons file own files owns hfile _ ih =>
    obtain ⟨bytes, text, hread, htext, hown⟩ := hfile
    obtain ⟨hplain, next, hnext, hover, htrimmed⟩ := Ini.read_overlaid hbase hown
    obtain ⟨hplains, ini, hini, hpart, hhas⟩ := ih htrimmed (read ++ [file])
    refine ⟨List.forall_mem_cons.mpr ⟨hplain, hplains⟩, ini, ?_, fun n => ?_, fun n => ?_⟩
    · rw [Finder.readFiles, hread]
      simp only [htext, hnext]
      rw [hini, List.append_assoc]
      rfl
    · rw [hpart, hover.part, List.flatMap_cons, Entries.putAll_append]
    · rw [hhas, hover.hasSection, List.any_cons, Bool.or_assoc]

end LintRunner.Config
