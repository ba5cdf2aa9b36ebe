import LintRunner.Options.Aggregate
import LintRunner.Proofs.ConfiguredValues
import LintRunner.Proofs.NormalValues
import LintRunner.Proofs.ReadSettings

/-!
# Where the settings of a run come from

The settings of a run are read three times: once without words, for the defaults; once from the
command line alone, which says what configuration counts; and once more from the command line, over
the defaults and the configuration. For an option with a setting of its own this module says which of
the layers its value comes from.
-/

namespace LintRunner.Options

open Stateful
open Config (Finder Known Layer layeredValue? layersOf)

namespace Registry

variable {r r' : Registry} {t : FileTree} {f : Finder} {finder : Option Finder}
  {words args : List String} {s : Settings} {cwd name : String}

theorem parseWords_nil (r : Registry) (cwd : String) (values : Option Settings) :
    (r.parseWords .strict cwd [] values).2 = r := by
  unfold parseWords
  cases values with
  | some start => rfl
  | none =>
    dsimp only
    cases r.commandLine.defaultValues <;> rfl

theorem parse_nil_ok {values : Option Settings}
    (h : r.parse .strict cwd (.ok []) values = (.ok (s, args), r')) :
    ∃ epilog fullVersion, r' = { r with epilog := epilog, fullVersion := fullVersion } := by
  unfold parse at h
  split at h
  · cases h
  · rename_i r₁ hepilog
    obtain ⟨epilog, rfl⟩ := makeEpilog_ok hepilog
    split at h
    · cases h
    · rename_i r₂ hversion
      obtain ⟨fullVersion, rfl⟩ := makeFullVersion_ok hversion
      exact ⟨epilog, fullVersion, (congrArg Prod.snd h).symm.trans (parseWords_nil _ cwd values)⟩

theorem ReadsTo.remade {start : Settings} {met : List Meeting}
    {defaults : List (String × Value)} {epilog : Option String} {fullVersion : Value}
    (h : (r.remade defaults epilog fullVersion).ReadsTo cwd words start met s args) :
    r.ReadsTo cwd words start met s args := by
  have hoptions : r.reader.options = (r.remade defaults epilog fullVersion).reader.options := rfl
  exact ⟨h.reads.of_options hoptions, h.goesOn, h.settled⟩

theorem aggregate_ok (hown : r.commandLine.callbacks = [])
    (h : aggregate r (some f) t (.ok words) none = (.ok (s, args), r', finder)) :
    ∃ start defaults asked found extended g met,
      r.commandLine.defaultValues = .ok start ∧ r.ReadsTo t.cwd [] start [] defaults [] ∧
      (r.parse .strict t.cwd (.ok words) none).1 = .ok (asked, args) ∧
      ((Config.parse r (asked.value "config") (asked.flag "isolated")).run t).run f =
        (.ok found, g) ∧ finder = some g ∧
      r.extendDefaults defaults = .ok extended ∧
      r.ReadsTo t.cwd words (r.overlay extended found) met s args := by
  unfold aggregate at h
  rcases hfirst : r.parse .strict t.cwd (.ok []) none with ⟨_ | ⟨defaults, none⟩, r₁⟩ <;>
    rw [hfirst] at h
  · cases h
  obtain ⟨start, met₀, hstart, hdefaults⟩ := parse_ok hown (congrArg Prod.fst hfirst)
  obtain ⟨rfl, rfl⟩ := hdefaults.reads.unique .done
  obtain ⟨epilog, fullVersion, rfl⟩ := parse_nil_ok hfirst
  dsimp only at h
  rcases hsecond : parse { r with epilog := epilog, fullVersion := fullVersion } .strict t.cwd
    (.ok words) none with ⟨_ | ⟨asked, args₁⟩, r₂⟩ <;> rw [hsecond] at h
  · cases h
  have hasked := congrArg Prod.fst hsecond
  rw [parse_of_texts] at hasked
  obtain ⟨defaults₂, epilog₂, fullVersion₂, hr₂, -⟩ := parse_remade
    { r with epilog := epilog, fullVersion := fullVersion } .strict t.cwd (.ok words) none
  rw [hsecond] at hr₂
  obtain rfl : r₂ = r.remade defaults₂ epilog₂ fullVersion₂ := hr₂
  unfold configured at h
  dsimp only at h
  have hsame : Config.parse (r.remade defaults₂ epilog₂ fullVersion₂) (asked.value "config")
      (asked.flag "isolated") = Config.parse r (asked.value "config") (asked.flag "isolated") := rfl
  have hextend : (r.remade defaults₂ epilog₂ fullVersion₂).extendDefaults defaults =
      r.extendDefaults defaults := rfl
  rw [hsame, hextend] at h
  rcases hfound : ((Config.parse r (asked.value "config") (asked.flag "isolated")).run t).run f with
    ⟨_ | found, g⟩ <;> rw [hfound] at h
  · cases h
  cases hextended : r.extendDefaults defaults with
  | error fault =>
    rw [hextended] at h
    cases h
  | ok extended =>
    rw [hextended] at h
    obtain ⟨hlast, h⟩ := Prod.mk.inj h
    obtain ⟨-, rfl⟩ := Prod.mk.inj h
    obtain ⟨_, met, hvalues, hread⟩ := parse_ok
      (r := r.remade defaults₂ epilog₂ fullVersion₂) hown hlast
    cases hvalues
    obtain ⟨_, met₁, -, hread₁⟩ := parse_ok hown hasked
    obtain ⟨-, rfl⟩ := hread₁.reads.unique hread.remade.reads
    exact ⟨start, defaults, asked, found, extended, g, met, hstart, hdefaults, hasked, hfound, rfl,
      hextended, hread.remade⟩

theorem mem_union {code : String} (codes more : List String) :
    code ∈ union codes more ↔ code ∈ codes ∨ code ∈ more := by
  rw [union, List.mem_append, Text.mem_dedup, List.mem_filter]
  constructor
  · rintro (hcode | ⟨hcode, -⟩)
    · exact .inl hcode
    · exact .inr hcode
  · intro hcode
    by_cases hmem : code ∈ codes
    · exact .inl hmem
    · exact .inr ⟨hcode.resolve_left hmem, by simpa using hmem⟩

theorem extendDefaults_ok {defaults extended : Settings}
    (h : r.extendDefaults defaults = .ok extended) :
    ∃ v, defaults.find? "ignore" = some v ∧
      extended.find? "ignore" =
        some (Value.texts (Text.sorted (union r.extendedIgnore v.textItems))) ∧
      extended.find? "extended_default_select" = some (.set (r.extendedSelect.map .text)) ∧
      ∀ name, name ≠ "ignore" → name ≠ "extended_default_select" →
        extended.find? name = defaults.find? name := by
  obtain ⟨v, hv, h⟩ := bind_ok h
  cases h
  refine ⟨v, ?_, ?_, ?_, fun name hignore hreserved => ?_⟩
  · unfold Settings.get at hv
    split at hv <;> cases hv
    assumption
  · rw [find?_set, if_neg (by decide), find?_set, if_pos rfl]
  · rw [find?_set, if_pos rfl]
  · rw [find?_set, if_neg hreserved, find?_set, if_neg hignore]

def placeFor (r : Registry) (s : Settings) (name : String) : String :=
  match s.find? name, r.configOptions.lookup name with
  | none, some d => d.dest.text?.getD name
  | _, _ => name

theorem overlay_cons (r : Registry) (s : Settings) (name : String) (v : Value)
    (rest : List (String × Value)) :
    r.overlay s ((name, v) :: rest) = r.overlay (s.set (r.placeFor s name) v) rest := rfl

theorem placeFor_of_isSome (h : (s.find? name).isSome) :
    r.placeFor s name = name := by
  obtain ⟨v, hv⟩ := Option.isSome_iff_exists.mp h
  rw [placeFor, hv]

theorem placeFor_ne (hr : r.Sound) {other : String}
    (hplace : ∀ e ∈ r.declarations, e.dest = .text name → e.configName = some name)
    (hother : ∃ d, Known r d other) (hne : other ≠ name) :
    r.placeFor s other ≠ name := by
  unfold placeFor
  split
  · rename_i e _ hlookup
    obtain ⟨he, spelled, hspelled, hkey⟩ := hr.configured other e hlookup
    cases hdest : e.dest.text? with
    | none => exact hne
    | some dest =>
      rintro rfl
      have hown : e.dest = .text dest := by
        cases hvalue : e.dest <;> rw [hvalue] at hdest <;> cases hdest
        rfl
      cases hspelled.symm.trans (hplace e he hown)
      -- both are names in files, so they are one if one is a spelling of the other
      obtain ⟨d, hd⟩ := hother
      refine hne ((d.underscored_configName hd.named).symm.trans ?_)
      exact Config.underscored_of_isSpelled hspelled (Config.isSpelled_iff.mpr hkey)
  · exact hne

theorem find?_overlay (hr : r.Sound) {found : List (String × Value)}
    (hplace : ∀ e ∈ r.declarations, e.dest = .text name → e.configName = some name)
    (hlisted : Entries.Listed (fun name => ∃ d, Known r d name) found)
    (hs : (s.find? name).isSome) :
    (r.overlay s found).find? name = (found.lookup name).or (s.find? name) := by
  induction found generalizing s with
  | nil => rfl
  | cons e rest ih =>
    obtain ⟨other, v⟩ := e
    obtain ⟨hnew, hnodup⟩ := List.nodup_cons.mp hlisted.nodup
    obtain ⟨hother, hnames⟩ := List.forall_mem_cons.mp hlisted.names
    rw [overlay_cons, List.lookup_cons]
    by_cases hsame : name = other
    · subst hsame
      have hset : (s.set name v).find? name = some v := by rw [find?_set, if_pos rfl]
      have hrest : rest.lookup name = none := by
        rw [List.lookup_eq_none_iff]
        intro p hp
        rw [bne_iff_ne]
        rintro rfl
        exact hnew (List.mem_map.mpr ⟨p, hp, rfl⟩)
      rw [placeFor_of_isSome hs, ih ⟨hnodup, hnames⟩ (by rw [hset]; rfl), hset, hrest,
        beq_self_eq_true]
      rfl
    · have hset : (s.set (r.placeFor s other) v).find? name = s.find? name := by
        rw [find?_set, if_neg (placeFor_ne hr hplace hother (Ne.symm hsame)).symm]
      rw [ih ⟨hnodup, hnames⟩ (by rw [hset]; exact hs), hset, beq_eq_false_iff_ne.mpr hsame]

/-- Values that stay as they are when they are brought into normal form once more: only the paths in
a list may become empty or get blanks at their ends. -/
def Steady (d : Declaration) (v : Value) : Prop :=
  d.isPath = true → d.isList = true → ∀ path ∈ v.textItems, Text.IsItem path

/-- The default of an option in its normal form; the codes that plugins ignore by default join those
of `ignore`. -/
def IsDefault (r : Registry) (cwd : String) (d : Declaration) (o : CommandOption) (name : String)
    (v : Value) : Prop :=
  ∃ start w, o.startValue d.default = .ok start ∧ d.normalize cwd "." start = .ok w ∧
    if name = "ignore" then
      ∃ codes, (∀ code, code ∈ codes ↔ code ∈ r.extendedIgnore ∨ code ∈ w.textItems) ∧
        d.normalize cwd "." (Value.texts codes) = .ok v
    else v = w

/-- What an option has before the command line speaks: the value from the strongest layer of
configuration that writes it, or else its default. -/
def IsBase (r : Registry) (layers : List Layer) (cwd : String) (d : Declaration)
    (o : CommandOption) (name : String) (v : Value) : Prop :=
  match layeredValue? layers r.program d name cwd with
  | some written => written = .ok v
  | none => r.IsDefault cwd d o name v

/-- The value that an option has in the end, from the layers of configuration and the options that
are met for its setting. -/
inductive Settles (r : Registry) (layers : List Layer) (cwd : String) (d : Declaration)
    (o : CommandOption) (name : String) (given : List Meeting) (v : Value) : Prop
  | given {m : Meeting} (haction : o.action ≠ .count) (hlast : given.getLast? = some m)
      (hv : d.normalize cwd "." m.stored = .ok v)
  | kept {base : Value} (haction : o.action ≠ .count) (hnone : given = [])
      (hbase : r.IsBase layers cwd d o name base) (hv : Steady d base → v = base)
  | counted {base : Value} (haction : o.action = .count)
      (hbase : r.IsBase layers cwd d o name base)
      (hv : Steady d base → raised given.length base = .ok v)
      (hsum : ∀ n, base.int? = some n → v.int? = some (n + given.length))

section OneOption

variable {d : Declaration} {o : CommandOption} {name : String} {layers : List Layer}
  {found : List (String × Value)} {start defaults extended : Settings}

/-- What lies under the command line is the base of an option, or the list of codes whose normal form
is the base. -/
theorem find?_overlay_base (hr : r.Sound) (hd : r.Sole d name) (hknown : Known r d name)
    (ho : CommandOption.ofDeclaration d = .ok o) (hstores : o.action.stores = true)
    (hname : name ≠ "extended_default_select") (hstart : r.commandLine.defaultValues = .ok start)
    (hdefaults : r.ReadsTo t.cwd [] start [] defaults [])
    (hextended : r.extendDefaults defaults = .ok extended)
    (hlisted : Entries.Listed (fun name => ∃ d, Known r d name) found)
    (hfound : (found.lookup name).map Except.ok = layeredValue? layers r.program d name t.cwd) :
    ∃ raw, (r.overlay extended found).find? name = some raw ∧
      (((∃ parent u, d.normalize t.cwd parent u = .ok raw) ∧ r.IsBase layers t.cwd d o name raw) ∨
        ((∃ codes, raw = Value.texts codes) ∧
          ∀ v, d.normalize t.cwd "." raw = .ok v → r.IsBase layers t.cwd d o name v)) := by
  have hnone := CommandLine.nameless_of_defaultValues hstart
  obtain ⟨first, hfirst, hset⟩ := hd.find?_defaultValues hr ho hstores hstart
  obtain ⟨_, w, hsame, hw, hdefault⟩ := hdefaults.find? hr hnone hd ho hstores hset
  cases hsame
  obtain ⟨old, hold, hignore, -, hothers⟩ := extendDefaults_ok hextended
  have hunder : (r.overlay extended found).find? name =
      (found.lookup name).or (extended.find? name) := by
    refine find?_overlay hr (fun e he hdest => ?_) hlisted ?_
    · rw [hd.eq_of_dest he hdest]
      exact hknown.named
    · by_cases hcodes : name = "ignore"
      · rw [hcodes, hignore]
        rfl
      · rw [hothers name hcodes hname, hdefault]
        rfl
  unfold IsBase
  rw [← hfound, hunder]
  cases hwritten : found.lookup name with
  | some v =>
    refine ⟨v, rfl, .inl ⟨?_, rfl⟩⟩
    rw [hwritten] at hfound
    obtain ⟨l, -, hl⟩ := List.exists_of_findSome?_eq_some hfound.symm
    obtain ⟨written, -, hv⟩ := Option.map_eq_some_iff.mp hl
    obtain ⟨u, -, hu⟩ := bind_ok hv
    exact ⟨l.directory, u, hu⟩
  | none =>
    by_cases hcodes : name = "ignore"
    · rw [hcodes, hignore]
      refine ⟨_, rfl, .inr ⟨⟨_, rfl⟩, fun v hv => ?_⟩⟩
      refine ⟨first, w, hfirst, hw, ?_⟩
      rw [if_pos rfl]
      refine ⟨_, fun code => ?_, hv⟩
      rw [hcodes, hold] at hdefault
      cases hdefault
      rw [Text.sorted, List.mem_mergeSort, mem_union]
    · rw [hothers name hcodes hname, hdefault]
      refine ⟨w, rfl, .inl ⟨⟨".", first, hw⟩, first, w, hfirst, hw, ?_⟩⟩
      rw [if_neg hcodes]

end OneOption

/-- What plugins select by default is in the settings, unless an option stands in its place. -/
theorem aggregate_extendedSelect (hr : r.Built)
    (hfree : ∀ e ∈ r.declarations, e.dest ≠ .text "extended_default_select" ∧
      e.configName ≠ some "extended_default_select")
    (h : aggregate r (some f) t (.ok words) none = (.ok (s, args), r', finder)) :
    s.find? "extended_default_select" = some (.set (r.extendedSelect.map .text)) := by
  obtain ⟨start, defaults, asked, found, extended, g, met, hstart, hdefaults, -, hfound, -,
    hextended, hread⟩ := aggregate_ok hr.sound.own h
  have hsound := hr.sound
  obtain ⟨-, -, hlisted, -⟩ := Config.parse_ok hsound hfound
  obtain ⟨-, -, -, hselect, -⟩ := extendDefaults_ok hextended
  have hunwritten : found.lookup "extended_default_select" = none := by
    rw [List.lookup_eq_none_iff]
    intro p hp
    rw [bne_iff_ne]
    intro heq
    obtain ⟨e, he⟩ := hlisted.names p.1 (List.mem_map.mpr ⟨p, hp, rfl⟩)
    exact (hfree e (he.mem hsound)).2 (heq ▸ he.named)
  rw [hread.find?_of_ne hsound (CommandLine.nameless_of_defaultValues hstart)
      fun e he => (hfree e he).1,
    find?_overlay hsound (fun e he hdest => absurd hdest (hfree e he).1) hlisted
      (by rw [hselect]; rfl), hunwritten, Option.none_or, hselect]

def projectWith (written : String) : FileTree where
  cwd := "/p"
  root := .directory [("p", .directory
    [("setup.cfg", .ofBytes (written.toList.map fun c => UInt8.ofNat c.toNat))])]

def projectFinder : Finder :=
  { program := "flake8", extraFiles := [], userDirectory := "/h", localDirectory := "/p",
    parent := "/p" }

def counting : Declaration :=
  { short := .text "-v", long := .text "--verbose", dest := .text "verbose", default := .int 0,
    action := .text "count", fromConfig := true }

def numbered : Declaration :=
  { long := .text "--foo-bar", dest := .text "foo_bar", type := .text "int", fromConfig := true }

end Registry

end LintRunner.Options
