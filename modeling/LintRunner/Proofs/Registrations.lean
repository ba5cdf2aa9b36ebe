import LintRunner.Options.Registry
import LintRunner.Proofs.MetOptions

/-!
# Registered options

A registry keeps an option three times: as it was declared, as an option of the command line, and
under its names in configuration files. These belong together whatever was registered, and reading
a command line keeps them so. With that, reading says for one option what its setting holds in the
end.
-/

namespace LintRunner.Options

open Stateful

def dashed (name : String) : String := Text.replace name "_" "-"

def underscored (name : String) : String := Text.replace name "-" "_"

theorem replaceFrom_char (a b : Char) (cs : List Char) :
    Text.replaceFrom [a] [b] 0 cs = cs.map fun c => if a = c then b else c := by
  induction cs with
  | nil => rfl
  | cons c rest ih =>
    rw [Text.replaceFrom, List.map_cons, if_neg (by decide), List.isPrefixOf_cons_cons,
      List.isPrefixOf_nil_left, Bool.and_true]
    by_cases h : a = c
    · rw [if_pos (beq_iff_eq.mpr h), if_pos h]
      exact congrArg _ ih
    · rw [if_neg (by simpa using h), if_neg h, ih]

theorem toList_dashed (name : String) :
    (dashed name).toList = name.toList.map fun c => if '_' = c then '-' else c := by
  rw [dashed, Text.replace, String.toList_ofList]
  exact replaceFrom_char '_' '-' name.toList

theorem toList_underscored (name : String) :
    (underscored name).toList = name.toList.map fun c => if '-' = c then '_' else c := by
  rw [underscored, Text.replace, String.toList_ofList]
  exact replaceFrom_char '-' '_' name.toList

theorem underscored_dashed (name : String) : underscored (dashed name) = underscored name := by
  apply String.toList_inj.mp
  rw [toList_underscored, toList_underscored, toList_dashed, List.map_map]
  refine List.map_congr_left fun c _ => ?_
  by_cases h : '_' = c
  · subst h
    rfl
  · rw [Function.comp_apply, if_neg h]

theorem underscored_underscored (name : String) :
    underscored (underscored name) = underscored name := by
  apply String.toList_inj.mp
  rw [toList_underscored, toList_underscored, List.map_map]
  refine List.map_congr_left fun c _ => ?_
  by_cases h : '-' = c
  · subst h
    rfl
  · rw [Function.comp_apply, if_neg h, if_neg h]

theorem Declaration.underscored_configName {d : Declaration} {name : String}
    (h : d.configName = some name) : underscored name = name := by
  unfold Declaration.configName at h
  split at h
  · obtain ⟨long, -, rfl⟩ := Option.map_eq_some_iff.mp h
    exact underscored_underscored (Text.drop 2 long)
  · cases h

def Yields {ε α : Type} (P : α → Prop) (x : Except ε α) : Prop := ∀ a, x = .ok a → P a

namespace Yields

variable {ε α β : Type} {P : β → Prop}

theorem bind {x : Except ε α} {f : α → Except ε β} (h : ∀ a, Yields P (f a)) :
    Yields P (x >>= f) := by
  intro b hb
  obtain ⟨a, -, ha⟩ := bind_ok hb
  exact h a b ha

theorem ite {c : Prop} [Decidable c] {x y : Except ε β} (hx : Yields P x) (hy : Yields P y) :
    Yields P (if c then x else y) := by
  split
  · exact hx
  · exact hy

theorem pure {b : β} (h : P b) : Yields P (Pure.pure b : Except ε β) := by
  intro a ha
  cases ha
  exact h

end Yields

theorem CommandOption.yields_ofDeclaration {d : Declaration} {P : CommandOption → Prop}
    (h : ∀ shorts longs action type nargs choices,
      P ⟨shorts, longs, action, type, d.dest.text?, nargs, d.const, choices, d.handler, d.help,
        d.metavar⟩) : Yields P (ofDeclaration d) := by
  -- the checks stand one after the other; each either refuses or goes on with what follows it
  unfold ofDeclaration
  extract_lets names named
  have hnamed : ∀ u, Yields P (named u) := by
    intro u
    refine .bind fun sorted => ?_
    dsimp -zeta only
    extract_lets refuse acting
    have hacting : ∀ action, Yields P (acting action) := by
      intro action
      unfold acting
      extract_lets typed
      have htyped : ∀ type, Yields P (typed type) := by
        intro type
        unfold typed
        extract_lets chosen
        have hchosen : ∀ choices, Yields P (chosen choices) := by
          intro choices
          unfold chosen
          extract_lets sized fixed
          have hsized : ∀ nargs, Yields P (sized nargs) := by
            intro nargs
            unfold sized
            extract_lets called
            have hcalled : ∀ u, Yields P (called u) := fun _ => .pure (h _ _ _ _ _ _)
            exact .ite (.ite (.bind hcalled) (hcalled ())) (.ite (.bind hcalled)
              (.ite (.bind hcalled) (.ite (.bind hcalled) (hcalled ()))))
          have hfixed : ∀ u, Yields P (fixed u) :=
            fun _ => .ite (.bind hsized) (.ite (.bind hsized) (.bind hsized))
          exact .ite (.bind hfixed) (hfixed ())
        refine .ite ?_ (.ite (.bind hchosen) (.bind hchosen))
        split <;> exact .bind hchosen
      split
      · exact .ite (.bind htyped) (.bind htyped)
      · split
        · exact .ite (.bind htyped) (.bind htyped)
        · exact .bind htyped
    split
    · exact .bind hacting
    · split <;> exact .bind hacting
  exact .ite (.bind hnamed) (hnamed ())

theorem CommandOption.dest_eq {d : Declaration} {o : CommandOption} (h : ofDeclaration d = .ok o) :
    o.dest = d.dest.text? :=
  yields_ofDeclaration (P := fun o => o.dest = d.dest.text?) (fun _ _ _ _ _ _ => rfl) o h

namespace Registry

variable {r r' : Registry} {d e : Declaration} {name : String}

/-- The declaration is registered, and no other one stores into its setting. -/
structure Sole (r : Registry) (d : Declaration) (name : String) : Prop where
  dest : d.dest = .text name
  alone : ∃ before after, r.declarations = before ++ d :: after ∧
    ∀ e ∈ before ++ after, e.dest ≠ .text name

/-- The declarations, the options of the command line, their defaults and the names in configuration
files belong together, and no plugin gave a callback. -/
structure Sound (r : Registry) : Prop where
  declared : ∀ o ∈ r.commandLine.options,
    (o.dest = none ∧ (o.action = .help ∨ o.action = .version)) ∨
    ∃ d ∈ r.declarations, CommandOption.ofDeclaration d = .ok o
  served : ∀ d ∈ r.declarations, ∃ o ∈ r.commandLine.options,
    CommandOption.ofDeclaration d = .ok o
  named : r.commandLine.nameless = [] → ∀ d ∈ r.declarations, ∃ name, d.dest = .text name
  default : r.commandLine.nameless = [] → ∀ d name, r.Sole d name →
    r.commandLine.Spares name → r.commandLine.defaults.lookup name = some d.default
  configured : ∀ key d, r.configOptions.lookup key = some d → d ∈ r.declarations ∧
    ∃ name, d.configName = some name ∧ (key = name ∨ key = dashed name)
  spelled : ∀ name, underscored name = name →
    r.configOptions.lookup (dashed name) = r.configOptions.lookup name
  own : r.commandLine.callbacks = []

variable {key : String} {options : List (String × Declaration)} {ds : List Declaration}

theorem Sole.mem (h : r.Sole d name) : d ∈ r.declarations := by
  obtain ⟨before, after, hsplit, -⟩ := h.alone
  rw [hsplit]
  exact List.mem_append_right _ List.mem_cons_self

theorem Sole.eq_of_dest (h : r.Sole d name) (he : e ∈ r.declarations)
    (hdest : e.dest = .text name) :
    e = d := by
  obtain ⟨before, after, hsplit, hothers⟩ := h.alone
  rw [hsplit] at he
  rcases List.mem_append.mp he with he | he
  · exact absurd hdest (hothers e (List.mem_append_left _ he))
  · rcases List.mem_cons.mp he with he | he
    · exact he
    · exact absurd hdest (hothers e (List.mem_append_right _ he))

theorem sound_make (program : String) (version : Value) : (make program version).Sound := by
  have hnone : (make program version).declarations = [] := rfl
  refine ⟨fun o ho => ?_, ?_, ?_, fun _ d name h => ?_, fun key d h => ?_, ?_, rfl⟩
  · rcases List.mem_append.mp ho with ho | ho
    · split at ho
      · rw [List.mem_singleton.mp ho]
        exact .inl ⟨rfl, .inr rfl⟩
      · cases ho
    · rw [List.mem_singleton.mp ho]
      exact .inl ⟨rfl, .inl rfl⟩
  · exact List.forall_mem_nil _
  · exact fun _ => List.forall_mem_nil _
  · cases hnone ▸ h.mem
  · cases h
  · exact fun name _ => rfl

/-- The names in configuration files with those of one more option. -/
def withNames (d : Declaration) (configOptions : List (String × Declaration)) :
    List (String × Declaration) :=
  match d.configName with
  | some name => Entries.put (dashed name) d (Entries.put name d configOptions)
  | none => configOptions

theorem lookup_withNames_of_ne
    (h : ∀ name, d.configName = some name → key ≠ name ∧ key ≠ dashed name) :
    (withNames d options).lookup key = options.lookup key := by
  unfold withNames
  split
  · rename_i name hname
    obtain ⟨hplain, hdashed⟩ := h name hname
    rw [Entries.lookup_put, if_neg hdashed, Entries.lookup_put, if_neg hplain]
  · rfl

theorem lookup_withNames
    (hname : d.configName = some name) (hkey : key = name ∨ key = dashed name) :
    (withNames d options).lookup key = some d := by
  unfold withNames
  rw [hname]
  dsimp only
  rw [Entries.lookup_put, Entries.lookup_put]
  rcases hkey with rfl | rfl
  · rw [if_pos rfl, ite_self]
  · rw [if_pos rfl]

theorem add_ok (h : r.add d = .ok r') : ∃ o defaults nameless,
    CommandOption.ofDeclaration d = .ok o ∧
    r' = { r with
      commandLine := { r.commandLine with
        options := r.commandLine.options ++ [o], defaults := defaults, nameless := nameless }
      declarations := r.declarations ++ [d]
      configOptions := withNames d r.configOptions } ∧
    ((∃ dest, d.dest = .text dest ∧ defaults = Entries.put dest d.default r.commandLine.defaults ∧
        nameless = r.commandLine.nameless) ∨ nameless ≠ []) := by
  obtain ⟨o, ho, h⟩ := bind_ok h
  obtain ⟨line, hline, h⟩ := bind_ok h
  cases h
  unfold CommandLine.add at hline
  split at hline
  · obtain ⟨key, hkey, hline⟩ := bind_ok hline
    unfold Value.asKey at hkey
    split at hkey
    · cases hkey
      split at hline <;> cases hline
      · rename_i dest hdest _
        exact ⟨o, _, _, ho, rfl, .inl ⟨dest, hdest, rfl, rfl⟩⟩
      · exact ⟨o, _, _, ho, rfl, .inr (List.append_ne_nil_of_right_ne_nil _ (List.cons_ne_nil _ _))⟩
    · cases hkey
  · cases hline

theorem lookup_configOptions_add (h : r.add d = .ok r') (hname : d.configName = some name) :
    r'.configOptions.lookup name = some d := by
  obtain ⟨_, _, _, -, rfl, -⟩ := add_ok h
  exact lookup_withNames hname (.inl rfl)

theorem declarations_foldlM_add (h : ds.foldlM Registry.add r = .ok r') :
    r'.declarations = r.declarations ++ ds := by
  induction ds generalizing r with
  | nil =>
    cases h
    exact (List.append_nil _).symm
  | cons d rest ih =>
    rw [List.foldlM_cons] at h
    obtain ⟨next, hnext, h⟩ := bind_ok h
    obtain ⟨_, _, _, -, rfl, -⟩ := add_ok hnext
    rw [ih h, List.append_assoc]
    rfl

theorem Sole.of_append (h : r'.Sole d name) (hr : r'.declarations = r.declarations ++ [e])
    (he : e.dest ≠ .text name) : r.Sole d name := by
  obtain ⟨before, after, hsplit, hothers⟩ := h.alone
  rw [hr] at hsplit
  refine ⟨h.dest, ?_⟩
  rcases List.eq_nil_or_concat after with rfl | ⟨more, last, rfl⟩
  · obtain ⟨-, hlast⟩ := List.append_inj' hsplit rfl
    cases hlast
    exact absurd h.dest he
  · rw [List.concat_eq_append] at hsplit hothers
    rw [← List.cons_append, ← List.append_assoc] at hsplit
    obtain ⟨hinit, -⟩ := List.append_inj' hsplit rfl
    refine ⟨before, more, hinit, fun a ha => hothers a ?_⟩
    rw [← List.append_assoc]
    exact List.mem_append_left _ ha

theorem Sound.add (hr : r.Sound) (h : r.add d = .ok r') : r'.Sound := by
  obtain ⟨o, defaults, nameless, ho, rfl, hplace⟩ := add_ok h
  refine ⟨?_, ?_, fun hnone => ?_, fun hnone e name hsole hspares => ?_, fun key e hkey => ?_,
    fun name hname => ?_, hr.own⟩
  · refine List.forall_mem_append.mpr ⟨fun o' ho' => ?_, List.forall_mem_singleton.mpr ?_⟩
    · refine (hr.declared o' ho').imp_right ?_
      rintro ⟨e, he, hserved⟩
      exact ⟨e, List.mem_append_left _ he, hserved⟩
    · exact .inr ⟨d, List.mem_append_right _ (List.mem_singleton_self d), ho⟩
  · refine List.forall_mem_append.mpr ⟨fun e he => ?_, List.forall_mem_singleton.mpr ?_⟩
    · obtain ⟨o', ho', hserved⟩ := hr.served e he
      exact ⟨o', List.mem_append_left _ ho', hserved⟩
    · exact ⟨o, List.mem_append_right _ (List.mem_singleton_self o), ho⟩
  · obtain ⟨dest, hdest, -, hsame⟩ := hplace.resolve_right fun hne => hne hnone
    refine List.forall_mem_append.mpr ⟨hr.named (hsame ▸ hnone), List.forall_mem_singleton.mpr ?_⟩
    exact ⟨dest, hdest⟩
  · obtain ⟨dest, hdest, rfl, hsame⟩ := hplace.resolve_right fun hne => hne hnone
    rw [Entries.lookup_put]
    by_cases hname : name = dest
    · subst hname
      rw [if_pos rfl, hsole.eq_of_dest (List.mem_append_right _ (List.mem_singleton_self d)) hdest]
    · rw [if_neg hname]
      refine hr.default (hsame ▸ hnone) e name (hsole.of_append rfl fun heq => hname ?_)
        fun o' ho' => hspares o' (List.mem_append_left _ ho')
      cases hdest.symm.trans heq
      rfl
  · by_cases hkeys : ∃ name, d.configName = some name ∧ (key = name ∨ key = dashed name)
    · obtain ⟨name, hname, hspelled⟩ := hkeys
      cases (lookup_withNames hname hspelled).symm.trans hkey
      exact ⟨List.mem_append_right _ (List.mem_singleton_self _), name, hname, hspelled⟩
    · have hold : r.configOptions.lookup key = some e := by
        refine (lookup_withNames_of_ne fun name hname => ⟨fun heq => ?_, fun heq => ?_⟩).symm.trans
          hkey
        · exact hkeys ⟨name, hname, .inl heq⟩
        · exact hkeys ⟨name, hname, .inr heq⟩
      exact (hr.configured key e hold).imp_left (List.mem_append_left _)
  · by_cases hsame : d.configName = some name
    · exact (lookup_withNames hsame (.inr rfl)).trans (lookup_withNames hsame (.inl rfl)).symm
    · have hne : ∀ key, underscored key = name → (withNames d r.configOptions).lookup key =
          r.configOptions.lookup key := by
        intro key hkey
        refine lookup_withNames_of_ne fun n hn => ⟨fun heq => hsame ?_, fun heq => hsame ?_⟩
        · rw [hn, ← hkey, heq, d.underscored_configName hn]
        · rw [hn, ← hkey, heq, underscored_dashed, d.underscored_configName hn]
      rw [hne (dashed name) ((underscored_dashed name).trans hname), hne name hname]
      exact hr.spelled name hname

def remade (r : Registry) (defaults : List (String × Value)) (epilog : Option String)
    (fullVersion : Value) : Registry :=
  { r with
    commandLine := { r.commandLine with defaults := defaults }
    epilog := epilog
    fullVersion := fullVersion }

theorem Sound.remade (hr : r.Sound) {defaults : List (String × Value)} (epilog : Option String)
    (fullVersion : Value)
    (h : ∀ name, r.commandLine.Spares name →
      defaults.lookup name = r.commandLine.defaults.lookup name) :
    (r.remade defaults epilog fullVersion).Sound where
  declared := hr.declared
  served := hr.served
  named := hr.named
  default hnone d name hsole hspares :=
    (h name hspares).trans (hr.default hnone d name ⟨hsole.dest, hsole.alone⟩ hspares)
  configured := hr.configured
  spelled := hr.spelled
  own := hr.own

theorem makeEpilog_ok (h : r.makeEpilog = .ok r') : ∃ epilog, r' = { r with epilog := epilog } := by
  obtain ⟨text, -, h⟩ := bind_ok h
  cases h
  exact ⟨_, rfl⟩

theorem makeFullVersion_ok (h : r.makeFullVersion = .ok r') :
    ∃ fullVersion, r' = { r with fullVersion := fullVersion } := by
  obtain ⟨version, -, h⟩ := bind_ok h
  obtain ⟨plugins, -, h⟩ := bind_ok h
  cases h
  exact ⟨_, rfl⟩

theorem defaults_readBy {view : List (String × Value) → Option Value}
    (hown : r.commandLine.callbacks = [])
    (hview : ∀ o ∈ r.commandLine.options, CommandLine.Hides o view) (how : Strictness)
    (words : List String) (start : Settings) :
    view (r.readBy how words start).2.defaults = view r.commandLine.defaults := by
  cases how with
  | strict => exact CommandLine.defaults_read (c := r.reader) hown hview words start
  | lenient => exact CommandLine.defaults_readKnown (c := r.reader) hown hview words start

theorem parseWords_remade (r : Registry) (how : Strictness) (cwd : String) (words : List String)
    (values : Option Settings) : ∃ defaults,
      (r.parseWords how cwd words values).2 = r.remade defaults r.epilog r.fullVersion ∧
      ∀ view : List (String × Value) → Option Value, r.commandLine.callbacks = [] →
        (∀ o ∈ r.commandLine.options, CommandLine.Hides o view) →
          view defaults = view r.commandLine.defaults := by
  unfold parseWords
  cases values with
  | some start => exact ⟨_, rfl, fun view hown hview => defaults_readBy hown hview how words start⟩
  | none =>
    dsimp only
    split
    · exact ⟨_, rfl, fun _ _ _ => rfl⟩
    · exact ⟨_, rfl, fun view hown hview => defaults_readBy hown hview how words _⟩

theorem parse_remade (r : Registry) (how : Strictness) (cwd : String) (words : Words)
    (values : Option Settings) : ∃ defaults epilog fullVersion,
      (r.parse how cwd words values).2 = r.remade defaults epilog fullVersion ∧
      ∀ view : List (String × Value) → Option Value, r.commandLine.callbacks = [] →
        (∀ o ∈ r.commandLine.options, CommandLine.Hides o view) →
          view defaults = view r.commandLine.defaults := by
  unfold parse
  split
  · exact ⟨_, _, _, rfl, fun _ _ _ => rfl⟩
  · rename_i r₁ hepilog
    obtain ⟨epilog, rfl⟩ := makeEpilog_ok hepilog
    split
    · exact ⟨_, _, _, rfl, fun _ _ _ => rfl⟩
    · rename_i r₂ hversion
      obtain ⟨fullVersion, rfl⟩ := makeFullVersion_ok hversion
      split
      · exact ⟨_, _, _, rfl, fun _ _ _ => rfl⟩
      · rename_i words
        obtain ⟨defaults, hparse, hkept⟩ := parseWords_remade
          { r with epilog := epilog, fullVersion := fullVersion } how cwd words values
        exact ⟨defaults, epilog, fullVersion, hparse, hkept⟩

theorem Sound.parse (hr : r.Sound) (how : Strictness) (cwd : String) (words : Words)
    (values : Option Settings) : (r.parse how cwd words values).2.Sound := by
  obtain ⟨defaults, epilog, fullVersion, hparse, hkept⟩ := r.parse_remade how cwd words values
  rw [hparse]
  exact hr.remade epilog fullVersion fun name hspares => hkept (List.lookup name) hr.own hspares.hides

/-- Registries that come about by registering options without callbacks, codes and plugins and by
reading command lines. -/
inductive Built : Registry → Prop
  | make (program : String) (version : Value) : Built (make program version)
  | add {r r' : Registry} {d : Declaration} (hr : Built r) (h : r.add d = .ok r') : Built r'
  | extendIgnore {r : Registry} (hr : Built r) (codes : List String) : Built (r.extendIgnore codes)
  | removeIgnore {r : Registry} (hr : Built r) (codes : List String) : Built (r.removeIgnore codes)
  | extendSelect {r : Registry} (hr : Built r) (codes : List String) : Built (r.extendSelect codes)
  | announce {r r' : Registry} {p : PluginVersion} (hr : Built r) (h : r.announce p = .ok r') :
      Built r'
  | parse {r : Registry} (hr : Built r) (how : Strictness) (cwd : String) (words : Words)
      (values : Option Settings) : Built (r.parse how cwd words values).2

theorem Built.foldlM_add (hr : r.Built)
    (h : ds.foldlM Registry.add r = .ok r') : r'.Built := by
  induction ds generalizing r with
  | nil =>
    cases h
    exact hr
  | cons d rest ih =>
    rw [List.foldlM_cons] at h
    obtain ⟨next, hnext, h⟩ := bind_ok h
    exact ih (hr.add hnext) h

def ofOptions (options : List Declaration) : Except Fault Registry :=
  options.foldlM Registry.add (make "flake8" (.text "1.0"))

theorem built_ofOptions {options : List Declaration} (h : ofOptions options = .ok r) : r.Built :=
  (Built.make _ _).foldlM_add h

theorem Sound.of_fields (hr : r.Sound) (hline : r'.commandLine = r.commandLine)
    (hdeclared : r'.declarations = r.declarations) (hconfig : r'.configOptions = r.configOptions) :
    r'.Sound := by
  have hsole : ∀ d name, r'.Sole d name → r.Sole d name := by
    intro d name h
    exact ⟨h.dest, hdeclared ▸ h.alone⟩
  constructor
  · rw [hline, hdeclared]
    exact hr.declared
  · rw [hline, hdeclared]
    exact hr.served
  · rw [hline, hdeclared]
    exact hr.named
  · rw [hline]
    exact fun hnone d name h => hr.default hnone d name (hsole d name h)
  · rw [hdeclared, hconfig]
    exact hr.configured
  · rw [hconfig]
    exact hr.spelled
  · rw [hline]
    exact hr.own

theorem Built.sound (h : r.Built) : r.Sound := by
  induction h with
  | make program version => exact sound_make program version
  | add _ hadd ih => exact ih.add hadd
  | extendIgnore _ codes ih => exact ih.of_fields rfl rfl rfl
  | removeIgnore _ codes ih => exact ih.of_fields rfl rfl rfl
  | extendSelect _ codes ih => exact ih.of_fields rfl rfl rfl
  | announce _ hannounce ih =>
    obtain ⟨key, -, hannounce⟩ := bind_ok hannounce
    cases hannounce
    split
    · exact ih
    · exact ih.of_fields rfl rfl rfl
  | parse _ how cwd words values ih => exact ih.parse how cwd words values

end Registry

end LintRunner.Options
