import LintRunner.Proofs.Registrations

/-!
# Settings that are read

Reading starts from the defaults, or from settings that are given, lets the options that are met act
on them, and brings the value of every declared option into its normal form. For an option that
alone stores into its setting, this says what the setting holds in the end.
-/

namespace LintRunner.Options

open Stateful

section Start

variable {c : CommandLine} {o : CommandOption} {name : String} {v w : Value}

def CommandOption.startValue (o : CommandOption) (default : Value) : Except String Value :=
  match default with
  | .text s => o.checkValue o.name s
  | v => .ok v

theorem CommandOption.checkValue_text {opt word t : String}
    (h : o.checkValue opt word = .ok (.text t)) : t = word := by
  unfold checkValue at h
  extract_lets invalid integer at h
  have hinteger : integer ≠ .ok (.text t) := by
    unfold integer invalid
    split <;> exact fun h => nomatch h
  split at h
  · exact absurd h hinteger
  · exact absurd h hinteger
  · split at h <;> cases h
  · split at h <;> cases h
  · split at h <;> cases h
    rfl
  · cases h
    rfl

theorem CommandOption.startValue_of_startValue (h : o.startValue v = .ok w) :
    o.startValue w = .ok w := by
  cases w with
  | text t =>
    cases v with
    | text s =>
      cases checkValue_text h
      exact h
    | _ => cases h
  | _ => rfl

namespace CommandLine

/-- Where a step reads the default of one option and leaves its setting alone for all others, so do
many steps. -/
theorem lookup_foldlM {step : List (String × Value) → CommandOption →
      Except Fault (List (String × Value))}
    (hown : ∀ {ds ds' v}, ds.lookup name = some v → step ds o = .ok ds' →
      ∃ w, o.startValue v = .ok w ∧ ds'.lookup name = some w)
    (hother : ∀ {ds ds' o'}, o'.dest ≠ some name → step ds o' = .ok ds' →
      ds'.lookup name = ds.lookup name)
    {os : List CommandOption} (hos : ∀ o' ∈ os, o'.dest = some name → o' = o)
    (hdest : o.dest = some name) {ds ds' : List (String × Value)} (hv : ds.lookup name = some v)
    (h : os.foldlM step ds = .ok ds') :
    ∃ w, ds'.lookup name = some w ∧ (w = v ∨ o.startValue v = .ok w) ∧
      (o ∈ os → o.startValue v = .ok w) := by
  induction os generalizing ds v with
  | nil =>
    cases h
    exact ⟨v, hv, .inl rfl, fun ho => nomatch ho⟩
  | cons o' rest ih =>
    obtain ⟨ho', hrest⟩ := List.forall_mem_cons.mp hos
    rw [List.foldlM_cons] at h
    obtain ⟨ds₁, hstep, h⟩ := bind_ok h
    by_cases hsame : o'.dest = some name
    · rw [ho' hsame] at hstep
      obtain ⟨u, hu, hds₁⟩ := hown hv hstep
      obtain ⟨w, hw, hkept, -⟩ := ih hrest hds₁ h
      have hwu : w = u := by
        rcases hkept with hkept | hkept
        · exact hkept
        · cases (CommandOption.startValue_of_startValue hu).symm.trans hkept
          rfl
      rw [hwu] at hw
      exact ⟨u, hw, .inr hu, fun _ => hu⟩
    · obtain ⟨w, hw, hkept, hread⟩ := ih hrest ((hother hsame hstep).trans hv) h
      refine ⟨w, hw, hkept, fun ho => hread ((List.mem_cons.mp ho).resolve_left ?_)⟩
      rintro rfl
      exact hsame hdest

theorem nameless_of_defaultValues {start : Settings} (h : c.defaultValues = .ok start) :
    c.nameless = [] := by
  unfold defaultValues at h
  extract_lets asWord step at h
  obtain ⟨defaults, -, h⟩ := bind_ok h
  split at h
  · cases h
  · rename_i hnone
    simpa using hnone

theorem find?_defaultValues {start : Settings} (ho : o ∈ c.options) (hdest : o.dest = some name)
    (hos : ∀ o' ∈ c.options, o'.dest = some name → o' = o) (hv : c.defaults.lookup name = some v)
    (h : c.defaultValues = .ok start) :
    ∃ w, o.startValue v = .ok w ∧ start.find? name = some w := by
  unfold defaultValues at h
  extract_lets asWord step at h
  have hown : ∀ {ds ds' v}, ds.lookup name = some v → step ds o = .ok ds' →
      ∃ w, o.startValue v = .ok w ∧ ds'.lookup name = some w := by
    intro ds ds' v hv hstep
    unfold step at hstep
    rw [hdest] at hstep
    obtain ⟨found, hfound, hstep⟩ := bind_ok hstep
    cases hstep
    rw [hv] at hfound
    unfold asWord at hfound
    split at hfound
    · rename_i s heq
      cases heq
      split at hfound <;> cases hfound
      rename_i w hw
      refine ⟨w, hw, ?_⟩
      exact (Entries.lookup_put name name w ds).trans (if_pos rfl)
    · rename_i hnot
      cases hfound
      refine ⟨v, ?_, hv⟩
      unfold CommandOption.startValue
      split
      · exact absurd rfl (hnot _)
      · rfl
  have hother : ∀ {ds ds' o'}, o'.dest ≠ some name → step ds o' = .ok ds' →
      ds'.lookup name = ds.lookup name := by
    intro ds ds' o' hne hstep
    unfold step at hstep
    split at hstep
    · rename_i dest hdest
      obtain ⟨found, -, hstep⟩ := bind_ok hstep
      cases hstep
      cases found with
      | none => rfl
      | some w =>
        refine (Entries.lookup_put dest name w ds).trans (if_neg fun heq => hne ?_)
        rw [hdest, heq]
    · obtain ⟨_, -, hstep⟩ := bind_ok hstep
      cases hstep
      rfl
  obtain ⟨defaults, hfold, h⟩ := bind_ok h
  obtain ⟨w, hw, -, hread⟩ := lookup_foldlM hown hother hos hdest hv hfold
  split at h
  · cases h
  · cases h
    exact ⟨w, hread ho, hw⟩

end CommandLine

end Start

namespace Registry

variable {r : Registry} {d : Declaration} {name cwd : String} {s s' start : Settings} {v : Value}
  {words args : List String}

theorem normalizeAll_cons {rest : List Declaration} (h : normalizeAll cwd s (d :: rest) = .ok s') :
    ∃ dest v w, d.dest = .text dest ∧ s.find? dest = some v ∧ d.normalize cwd "." v = .ok w ∧
      normalizeAll cwd (s.set dest w) rest = .ok s' := by
  rw [normalizeAll] at h
  obtain ⟨dest, hdest, h⟩ := bind_ok h
  obtain ⟨v, hv, h⟩ := bind_ok h
  obtain ⟨w, hw, h⟩ := bind_ok h
  refine ⟨dest, v, w, ?_, ?_, hw, h⟩
  · unfold Value.asText at hdest
    split at hdest <;> cases hdest
    assumption
  · unfold Settings.get at hv
    split at hv <;> cases hv
    assumption

theorem find?_normalizeAll_of_ne {ds : List Declaration} (hds : ∀ d ∈ ds, d.dest ≠ .text name)
    (h : normalizeAll cwd s ds = .ok s') : s'.find? name = s.find? name := by
  induction ds generalizing s with
  | nil =>
    cases h
    rfl
  | cons d rest ih =>
    obtain ⟨hd, hrest⟩ := List.forall_mem_cons.mp hds
    obtain ⟨dest, v, w, hdest, -, -, h⟩ := normalizeAll_cons h
    rw [ih hrest h]
    refine (find?_set s dest name w).trans (if_neg fun heq => hd ?_)
    rw [hdest, heq]

/-- The value of a declaration that alone stores into its setting is brought into its normal form
once. -/
theorem find?_normalizeAll {before after : List Declaration} (hdest : d.dest = .text name)
    (hothers : ∀ e ∈ before ++ after, e.dest ≠ .text name) (hv : s.find? name = some v)
    (h : normalizeAll cwd s (before ++ d :: after) = .ok s') :
    ∃ w, d.normalize cwd "." v = .ok w ∧ s'.find? name = some w := by
  induction before generalizing s with
  | nil =>
    obtain ⟨dest, u, w, hown, hu, hw, h⟩ := normalizeAll_cons h
    cases hdest.symm.trans hown
    cases hv.symm.trans hu
    refine ⟨w, hw, (find?_normalizeAll_of_ne hothers h).trans ?_⟩
    exact (find?_set s name name w).trans (if_pos rfl)
  | cons e rest ih =>
    obtain ⟨he, hrest⟩ := List.forall_mem_cons.mp hothers
    obtain ⟨dest, u, w, hown, -, -, h⟩ := normalizeAll_cons h
    refine ih hrest ?_ h
    refine ((find?_set s dest name w).trans (if_neg fun heq => he ?_)).trans hv
    rw [hown, heq]

/-- What reading does: it starts somewhere, the options that are met act, and values are brought
into their normal form. -/
structure ReadsTo (r : Registry) (cwd : String) (words : List String) (start : Settings)
    (met : List Meeting) (s : Settings) (args : List String) : Prop where
  reads : Reads r.reader words met args
  goesOn : ∀ m ∈ met, r.reader.GoesOn m.option
  settled : ∃ found, met.foldlM (fun s m => m.apply s) start = .ok found ∧
    normalizeAll cwd found r.declarations = .ok s

/-- Where reading starts: at the settings that are given, or at the defaults. -/
def startOf (r : Registry) (values : Option Settings) : Except Fault Settings :=
  values.elim r.commandLine.defaultValues .ok

theorem readBy_ok {found : Settings} (hown : r.commandLine.callbacks = [])
    (h : (r.readBy .strict words start).1 = .ok (found, args)) : ∃ met,
      Reads r.reader words met args ∧ met.foldlM (fun s m => m.apply s) start = .ok found ∧
        ∀ m ∈ met, r.reader.GoesOn m.option := by
  unfold readBy at h
  rcases hread : r.reader.read words start with ⟨result, line⟩
  rw [hread] at h
  dsimp only at h
  split at h
  · cases h
  · cases h
  · cases h
    exact CommandLine.read_ok (c := r.reader) hown hread

theorem parseWords_some_ok (hown : r.commandLine.callbacks = [])
    (h : (r.parseWords .strict cwd words (some start)).1 = .ok (s, args)) :
    ∃ met, r.ReadsTo cwd words start met s args := by
  unfold parseWords at h
  dsimp only at h
  obtain ⟨⟨found, args⟩, hread, h⟩ := bind_ok h
  obtain ⟨met, hmet, hfound, hgoes⟩ := readBy_ok hown hread
  dsimp only at h
  obtain ⟨settled, hsettled, h⟩ := bind_ok h
  cases h
  cases hnormal : normalizeAll cwd found r.declarations with
  | error f =>
    rw [hnormal] at hsettled
    cases hsettled
  | ok s =>
    rw [hnormal] at hsettled
    cases hsettled
    exact ⟨met, hmet, hgoes, found, hfound, hnormal⟩

theorem parseWords_none (h : r.commandLine.defaultValues = .ok start)
    (how : Strictness) (words : List String) :
    r.parseWords how cwd words none = r.parseWords how cwd words (some start) := by
  unfold parseWords
  dsimp only
  rw [h]

theorem parseWords_ok {values : Option Settings} (hown : r.commandLine.callbacks = [])
    (h : (r.parseWords .strict cwd words values).1 = .ok (s, args)) :
    ∃ start met, r.startOf values = .ok start ∧ r.ReadsTo cwd words start met s args := by
  cases values with
  | some start =>
    obtain ⟨met, hmet⟩ := parseWords_some_ok hown h
    exact ⟨start, met, rfl, hmet⟩
  | none =>
    cases hstart : r.commandLine.defaultValues with
    | error f =>
      unfold parseWords at h
      dsimp only at h
      rw [hstart] at h
      cases h
    | ok start =>
      rw [parseWords_none hstart] at h
      obtain ⟨met, hmet⟩ := parseWords_some_ok hown h
      exact ⟨start, met, hstart, hmet⟩

theorem parseWords_of_texts (r : Registry) (epilog : Option String) (fullVersion : Value)
    (how : Strictness) (cwd : String) (words : List String) (values : Option Settings) :
    (parseWords { r with epilog := epilog, fullVersion := fullVersion } how cwd words values).1 =
      (r.parseWords how cwd words values).1 := by
  unfold parseWords
  cases values with
  | some start => rfl
  | none =>
    dsimp only
    cases r.commandLine.defaultValues <;> rfl

theorem parse_fst (r : Registry) (how : Strictness) (cwd : String) (words : Words)
    (values : Option Settings) :
    (r.parse how cwd words values).1 =
      match r.versions versionFormat ", ", r.version.asText, words with
      | .error fault, _, _ => .error (.fault fault)
      | .ok _, .error fault, _ => .error (.fault fault)
      | .ok _, .ok _, .error fault => .error (.fault fault)
      | .ok _, .ok _, .ok words => (r.parseWords how cwd words values).1 := by
  unfold parse
  cases hplugins : r.versions versionFormat ", " with
  | error fault =>
    have hepilog : r.makeEpilog = .error fault := by
      rw [makeEpilog, hplugins]
      rfl
    rw [hepilog]
  | ok plugins =>
    have hepilog : r.makeEpilog =
        .ok { r with epilog := some ("Installed plugins: " ++ plugins) } := by
      rw [makeEpilog, hplugins]
      rfl
    have hversion : ∀ epilog, makeFullVersion { r with epilog := epilog } =
        r.version.asText.map fun v => { r with
          epilog := epilog
          fullVersion := .text (v ++ " (" ++ plugins ++ ") " ++ Release.platform) } := by
      intro epilog
      have hsame : versions { r with epilog := epilog } versionFormat ", " = .ok plugins :=
        hplugins
      rw [makeFullVersion, hsame]
      cases r.version.asText <;> rfl
    rw [hepilog]
    dsimp only
    rw [hversion]
    cases r.version.asText with
    | error fault => rfl
    | ok version =>
      cases words with
      | error fault => rfl
      | ok words => exact parseWords_of_texts r _ _ how cwd words values

theorem parse_of_texts (r : Registry) (epilog : Option String) (fullVersion : Value)
    (how : Strictness) (cwd : String) (words : Words) (values : Option Settings) :
    (parse { r with epilog := epilog, fullVersion := fullVersion } how cwd words values).1 =
      (r.parse how cwd words values).1 := by
  have hversions : versions { r with epilog := epilog, fullVersion := fullVersion } versionFormat
      ", " = r.versions versionFormat ", " := rfl
  rw [parse_fst, parse_fst, hversions]
  simp only [parseWords_of_texts]

/-- A command line that is accepted is read, whatever texts about plugins are made before. -/
theorem parse_ok {values : Option Settings} (hown : r.commandLine.callbacks = [])
    (h : (r.parse .strict cwd (.ok words) values).1 = .ok (s, args)) :
    ∃ start met, r.startOf values = .ok start ∧ r.ReadsTo cwd words start met s args := by
  unfold parse at h
  split at h
  · cases h
  · rename_i r₁ hepilog
    obtain ⟨epilog, rfl⟩ := makeEpilog_ok hepilog
    split at h
    · cases h
    · rename_i r₂ hversion
      obtain ⟨fullVersion, rfl⟩ := makeFullVersion_ok hversion
      obtain ⟨start, met, hstart, hmet⟩ := parseWords_ok
        (r := { r with epilog := epilog, fullVersion := fullVersion }) hown h
      exact ⟨start, met, hstart, hmet.reads, hmet.goesOn, hmet.settled⟩

theorem action_of_foldlM {met : List Meeting} {found : Settings}
    (h : met.foldlM (fun s m => m.apply s) start = .ok found) :
    ∀ m ∈ met, m.option.action ≠ .help ∧ m.option.action ≠ .version := by
  induction met generalizing start with
  | nil => exact List.forall_mem_nil _
  | cons m rest ih =>
    rw [List.foldlM_cons] at h
    obtain ⟨next, hm, h⟩ := bind_ok h
    refine List.forall_mem_cons.mpr ⟨⟨fun hhelp => ?_, fun hversion => ?_⟩, ih h⟩
    · rw [Meeting.apply, hhelp] at hm
      cases hm
    · rw [Meeting.apply, hversion] at hm
      cases hm

section Reading

variable {words args : List String} {start : Settings} {met : List Meeting} {o : CommandOption}

theorem ReadsTo.declared (h : r.ReadsTo cwd words start met s args) (hr : r.Sound)
    (hnone : r.commandLine.nameless = []) : ∀ m ∈ met, ∃ e ∈ r.declarations, ∃ dest,
      CommandOption.ofDeclaration e = .ok m.option ∧ e.dest = .text dest ∧
        m.option.dest = some dest := by
  intro m hm
  obtain ⟨found, hfound, -⟩ := h.settled
  obtain ⟨hhelp, hversion⟩ := action_of_foldlM hfound m hm
  obtain ⟨e, he, hserved⟩ := (hr.declared m.option (h.reads.option_mem m hm)).resolve_left
    fun hown => hown.2.elim hhelp hversion
  obtain ⟨dest, hdest⟩ := hr.named hnone e he
  refine ⟨e, he, dest, hserved, hdest, ?_⟩
  rw [CommandOption.dest_eq hserved, hdest]
  rfl

theorem ReadsTo.find?_of_ne (h : r.ReadsTo cwd words start met s args) (hr : r.Sound)
    (hnone : r.commandLine.nameless = []) (hname : ∀ e ∈ r.declarations, e.dest ≠ .text name) :
    s.find? name = start.find? name := by
  have hmet : ∀ m ∈ met, m.option.dest.getD "" ≠ name := by
    intro m hm heq
    obtain ⟨e, he, dest, -, hdest, hown⟩ := h.declared hr hnone m hm
    rw [hown, Option.getD_some] at heq
    exact hname e he (heq ▸ hdest)
  obtain ⟨found, hfound, hnormal⟩ := h.settled
  rw [find?_normalizeAll_of_ne hname hnormal]
  clear h hnormal
  induction met generalizing start with
  | nil =>
    cases hfound
    rfl
  | cons m rest ih =>
    obtain ⟨hm, hrest⟩ := List.forall_mem_cons.mp hmet
    rw [List.foldlM_cons] at hfound
    obtain ⟨next, hnext, hfound⟩ := bind_ok hfound
    exact (ih hrest hfound).trans (Meeting.find?_apply_of_ne hm hnext)

theorem Sole.option_dest (hd : r.Sole d name) (ho : CommandOption.ofDeclaration d = .ok o) :
    o.dest = some name := by
  rw [CommandOption.dest_eq ho, hd.dest]
  rfl

theorem ReadsTo.option_eq (h : r.ReadsTo cwd words start met s args) (hr : r.Sound)
    (hnone : r.commandLine.nameless = []) (hd : r.Sole d name)
    (ho : CommandOption.ofDeclaration d = .ok o) :
    ∀ m ∈ met, m.option = o ∨ m.option.dest.getD "" ≠ name := by
  intro m hm
  obtain ⟨e, he, dest, hserved, hdest, hplace⟩ := h.declared hr hnone m hm
  by_cases heq : dest = name
  · rw [hd.eq_of_dest he (heq ▸ hdest)] at hserved
    cases ho.symm.trans hserved
    exact .inl rfl
  · rw [hplace]
    exact .inr heq

theorem ReadsTo.find? (h : r.ReadsTo cwd words start met s args) (hr : r.Sound)
    (hnone : r.commandLine.nameless = []) (hd : r.Sole d name)
    (ho : CommandOption.ofDeclaration d = .ok o) (hstores : o.action.stores = true)
    (hv : start.find? name = some v) :
    ∃ raw w, (givenFor name met).foldlM (fun v m => m.next v) v = .ok raw ∧
      d.normalize cwd "." raw = .ok w ∧ s.find? name = some w := by
  have hown := hd.option_dest ho
  have hmet := h.option_eq hr hnone hd ho
  obtain ⟨found, hfound, hnormal⟩ := h.settled
  obtain ⟨raw, hraw, hset⟩ := find?_foldlM_apply hown hstores hmet hv hfound
  obtain ⟨before, after, hsplit, hothers⟩ := hd.alone
  rw [hsplit] at hnormal
  obtain ⟨w, hw, hs⟩ := find?_normalizeAll hd.dest hothers hset hnormal
  exact ⟨raw, w, hraw, hw, hs⟩

theorem Sole.eq_of_option (hd : r.Sole d name) (hr : r.Sound)
    (hnone : r.commandLine.nameless = []) (ho : CommandOption.ofDeclaration d = .ok o) :
    ∀ o' ∈ r.commandLine.options, o'.dest = some name → o' = o := by
  intro o' ho' hdest
  rcases hr.declared o' ho' with ⟨hplace, -⟩ | ⟨e, he, hserved⟩
  · cases hplace.symm.trans hdest
  · obtain ⟨dest, hplace⟩ := hr.named hnone e he
    rw [CommandOption.dest_eq hserved, hplace] at hdest
    cases hdest
    rw [hd.eq_of_dest he hplace] at hserved
    cases ho.symm.trans hserved
    rfl

theorem Sole.spares (hd : r.Sole d name) (hr : r.Sound) (hnone : r.commandLine.nameless = [])
    (ho : CommandOption.ofDeclaration d = .ok o) (hstores : o.action.stores = true) :
    r.commandLine.Spares name := by
  intro o' ho' happends hdest
  rcases hr.declared o' ho' with ⟨-, haction⟩ | ⟨e, he, hserved⟩
  · rcases haction with haction | haction <;> rw [haction] at happends <;> cases happends
  · obtain ⟨dest, hplace⟩ := hr.named hnone e he
    have hown : o'.dest = some dest := by
      rw [CommandOption.dest_eq hserved, hplace]
      rfl
    rw [hown, Option.getD_some] at hdest
    cases hd.eq_of_option hr hnone ho o' ho' (hdest ▸ hown)
    rcases Action.stores_iff.mp hstores with haction | haction | haction | haction <;>
      rw [haction] at happends <;> cases happends

theorem Sole.find?_defaultValues (hd : r.Sole d name) (hr : r.Sound)
    (ho : CommandOption.ofDeclaration d = .ok o) (hstores : o.action.stores = true)
    (h : r.commandLine.defaultValues = .ok start) :
    ∃ w, o.startValue d.default = .ok w ∧ start.find? name = some w := by
  have hnone := CommandLine.nameless_of_defaultValues h
  obtain ⟨o', ho', hserved⟩ := hr.served d hd.mem
  cases ho.symm.trans hserved
  have hown := hd.option_dest ho
  exact CommandLine.find?_defaultValues ho' hown (hd.eq_of_option hr hnone ho)
    (hr.default hnone d name hd (hd.spares hr hnone ho hstores)) h

end Reading

end Registry

end LintRunner.Options
