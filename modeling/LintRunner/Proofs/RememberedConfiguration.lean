import LintRunner.Proofs.ConfiguredValues

/-!
# Reading configuration again

A finder reads files once and remembers them, so what it will find never changes. What does change
is the directory that relative paths are taken from: the user's paths are taken from the working
directory until the project's files have been looked for, and from the project's directory
afterwards. Reading again therefore fails alike or lists the same names, and it gives the same
values unless such a path comes to stand for another file.
-/

namespace LintRunner

open Stateful

section Alike

variable {α β γ δ : Type} {R : α → β → Prop} {S : γ → δ → Prop}

/-- Two computations fail with the same fault, or both give results that are related. -/
inductive Alike (R : α → β → Prop) : Except Fault α → Except Fault β → Prop
  | ok {a : α} {b : β} (h : R a b) : Alike R (.ok a) (.ok b)
  | error (e : Fault) : Alike R (.error e) (.error e)

variable {x : Except Fault α} {y : Except Fault β}

theorem Alike.bind {f : α → Except Fault γ}
    {g : β → Except Fault δ} (h : Alike R x y) (hfg : ∀ a b, R a b → Alike S (f a) (g b)) :
    Alike S (x >>= f) (y >>= g) := by
  cases h with
  | ok h => exact hfg _ _ h
  | error e => exact .error e

theorem Alike.refl {R : α → α → Prop} (hR : ∀ a, R a a) (x : Except Fault α) : Alike R x x := by
  cases x with
  | error e => exact .error e
  | ok a => exact .ok (hR a)

theorem Alike.ite {c c' : Prop} {dec : Decidable c} {dec' : Decidable c'} {x' : Except Fault α}
    {y' : Except Fault β} (hc : c ↔ c') (h : c → Alike R x y) (h' : ¬ c → Alike R x' y') :
    Alike R (if c then x else x') (if c' then y else y') := by
  by_cases hx : c
  · rw [if_pos hx, if_pos (hc.mp hx)]
    exact h hx
  · rw [if_neg hx, if_neg (mt hc.mpr hx)]
    exact h' hx

theorem Alike.error_right {e : Fault} (h : Alike R x y)
    (hx : x = .error e) : y = .error e := by
  cases h with
  | ok h => cases hx
  | error e =>
    cases hx
    rfl

theorem Alike.ok_right {a : α} (h : Alike R x y)
    (hx : x = .ok a) : ∃ b, y = .ok b ∧ R a b := by
  cases h with
  | ok h =>
    cases hx
    exact ⟨_, rfl, h⟩
  | error e => cases hx

end Alike

namespace Config

open Options (Declaration Registry)

section Directory

variable {r : Registry} {d : Declaration} {ini : Ini} {cwd a b : String}

theorem normalize_alike (d : Declaration) (cwd a b : String) (v : Value) :
    Alike (fun _ _ => True) (d.normalize cwd a v) (d.normalize cwd b v) := by
  unfold Declaration.normalize
  split
  · split
    · exact (Alike.refl (fun _ => rfl) _).bind fun _ _ _ => .ok trivial
    · split
      · exact .ok trivial
      · refine (Alike.refl (R := Eq) (fun _ => rfl) _).bind fun x y hxy => ?_
        subst hxy
        exact .refl (fun _ => trivial) _
  · exact .refl (fun _ => trivial) _

theorem valueOf_alike (d : Declaration) (cwd a b s : String) :
    Alike (fun _ _ => True) (valueOf d cwd a s) (valueOf d cwd b s) := by
  refine (Alike.refl (R := Eq) (fun _ => rfl) _).bind fun v w hvw => ?_
  subst hvw
  exact normalize_alike d cwd a b v

theorem valueOf_of_not_isPath (hd : d.isPath = false) (cwd a b s : String) :
    valueOf d cwd a s = valueOf d cwd b s := by
  refine congrArg (readValue d s >>= ·) (funext fun v => ?_)
  simp only [Declaration.normalize, hd, Bool.false_eq_true, if_false]

theorem readOption_alike {xs ys : List (String × Value)} (h : Entries.SameNames xs ys)
    (option : String) : Alike Entries.SameNames (readOption r ini cwd a xs option)
      (readOption r ini cwd b ys option) := by
  unfold readOption
  split
  · exact (valueOf_alike _ cwd a b _).bind fun v w _ => .ok (h.put _ v w)
  · exact .ok h

theorem foldlM_readOption_alike (options : List String) {xs ys : List (String × Value)}
    (h : Entries.SameNames xs ys) : Alike Entries.SameNames
      (options.foldlM (readOption r ini cwd a) xs) (options.foldlM (readOption r ini cwd b) ys) := by
  induction options generalizing xs ys with
  | nil => exact .ok h
  | cons option rest ih =>
    rw [List.foldlM_cons, List.foldlM_cons]
    exact (readOption_alike h option).bind fun _ _ hnext => ih hnext

/-- Whether a configuration can be read, and which names it lists, does not depend on the directory
that relative paths are taken from. -/
theorem sectionValues_alike (r : Registry) (ini : Ini) (cwd a b : String) :
    Alike Entries.SameNames (sectionValues r ini cwd a) (sectionValues r ini cwd b) := by
  exact foldlM_readOption_alike _ rfl

end Directory

/-! ## What a finder will find -/

theorem find_bind_of_error {α β : Type} {x : Finding α} {k : α → Finding β} {t : FileTree}
    {f f' : Finder} {e : Fault} (h : (x.run t).run f = (.error e, f')) :
    ((x >>= k).run t).run f = (.error e, f') :=
  (run_bind (x.run t) (fun a => (k a).run t) f).trans (by rw [h])

namespace Finder

variable {t : FileTree} {f g : Finder}

def userIni (t : FileTree) (f : Finder) : Except Fault Ini :=
  match f.userConfig with
  | some ini => .ok ini
  | none => (readFiles t {} [] [f.userFile]).map (·.1)

/-- The directory of the project's configuration, once its files have been looked for. -/
def projectDirectory (t : FileTree) (f : Finder) : String :=
  if f.localConfigs.isSome then f.localDirectory else ((f.search t).map (·.1)).getD f.localDirectory

/-- The project's files in the order in which they are read: those in its directory and then the
further ones. -/
def projectFiles (t : FileTree) (f : Finder) : List String :=
  ((f.search t).map (·.2)).getD [] ++ f.extraFiles.filter t.present

def projectInis (t : FileTree) (f : Finder) : Except Fault (Ini × List String) :=
  match f.localConfigs with
  | some inis => .ok inis
  | none => readFiles t {} [] (f.projectFiles t)

structure Outlook where
  user : Except Fault Ini
  own : Except Fault (Ini × List String)
  directory : String

def outlook (t : FileTree) (f : Finder) : Outlook :=
  ⟨f.userIni t, f.projectInis t, f.projectDirectory t⟩

def rememberUser (t : FileTree) (f : Finder) : Finder :=
  { f with userConfig := (f.userIni t).toOption }

def rememberOwn (t : FileTree) (f : Finder) : Finder :=
  { f with
    localDirectory := f.projectDirectory t
    localConfigs := (f.projectInis t).toOption }

theorem run_readAll (files : List String) (t : FileTree) (f : Finder) :
    ((readAll files).run t).run f = (readFiles t {} [] files, f) := by
  unfold readAll
  rw [find_bind_of_ok (show ((read : Finding FileTree).run t).run f = (.ok t, f) from rfl)]
  cases readFiles t {} [] files <;> rfl

theorem run_userConfigs (t : FileTree) (f : Finder) :
    (userConfigs.run t).run f = (f.userIni t, f.rememberUser t) := by
  unfold userConfigs rememberUser userIni
  rw [find_bind_of_ok (show ((get : Finding Finder).run t).run f = (.ok f, f) from rfl)]
  cases huser : f.userConfig with
  | some ini =>
    refine Prod.ext rfl ?_
    exact congrArg (fun u => { f with userConfig := u }) huser
  | none =>
    have hall := run_readAll [f.userFile] t f
    cases hread : readFiles t {} [] [f.userFile] with
    | ok inis =>
      rw [hread] at hall
      exact find_bind_of_ok hall
    | error e =>
      rw [hread] at hall
      refine (find_bind_of_error hall).trans (Prod.ext rfl ?_)
      exact congrArg (fun u => { f with userConfig := u }) huser

theorem search_congr (hprogram : g.program = f.program) (hparent : g.parent = f.parent) :
    g.search t = f.search t := by
  have hfiles : ∀ dir, g.filesIn t dir = f.filesIn t dir := by
    intro dir
    rw [filesIn, filesIn, projectNames, projectNames, hprogram]
  have hfrom : ∀ fuel dir, g.searchFrom t dir fuel = f.searchFrom t dir fuel := by
    intro fuel
    induction fuel with
    | zero =>
      intro dir
      rw [searchFrom, searchFrom]
    | succ fuel ih =>
      intro dir
      simp only [searchFrom, hfiles, ih]
  rw [search, search, hparent, hfrom]

theorem run_possibleLocalFiles (t : FileTree) (f : Finder) :
    (possibleLocalFiles.run t).run f = (.ok (((f.search t).map (·.2)).getD []),
      { f with localDirectory := ((f.search t).map (·.1)).getD f.localDirectory }) := by
  unfold possibleLocalFiles
  rw [find_bind_of_ok (show ((get : Finding Finder).run t).run f = (.ok f, f) from rfl),
    find_bind_of_ok (show ((read : Finding FileTree).run t).run f = (.ok t, f) from rfl)]
  cases f.search t <;> rfl

theorem run_localFiles (t : FileTree) (f : Finder) : (localFiles.run t).run f =
    (.ok (f.projectFiles t),
      { f with localDirectory := ((f.search t).map (·.1)).getD f.localDirectory }) := by
  unfold localFiles
  rw [find_bind_of_ok (run_possibleLocalFiles t f)]
  rfl

theorem run_localConfigsWithFiles (t : FileTree) (f : Finder) :
    (localConfigsWithFiles.run t).run f = (f.projectInis t, f.rememberOwn t) := by
  unfold localConfigsWithFiles rememberOwn projectInis projectDirectory
  rw [find_bind_of_ok (show ((get : Finding Finder).run t).run f = (.ok f, f) from rfl)]
  cases hown : f.localConfigs with
  | some inis =>
    refine Prod.ext rfl ?_
    exact congrArg (fun own => { f with localConfigs := own }) hown
  | none =>
    rw [find_bind_of_ok (run_localFiles t f)]
    generalize f.projectFiles t = files
    generalize ((f.search t).map (·.1)).getD f.localDirectory = dir
    have hall := run_readAll files t { f with localDirectory := dir }
    cases hread : readFiles t {} [] files with
    | ok inis =>
      rw [hread] at hall
      exact find_bind_of_ok hall
    | error e =>
      rw [hread] at hall
      refine (find_bind_of_error hall).trans (Prod.ext rfl ?_)
      exact congrArg (fun own => { f with localDirectory := dir, localConfigs := own }) hown

/-! Looking for configuration does not change what will be found. -/

theorem outlook_rememberUser (t : FileTree) (f : Finder) :
    outlook t (f.rememberUser t) = outlook t f := by
  have hsearch : (f.rememberUser t).search t = f.search t := search_congr rfl rfl
  have huser : (f.rememberUser t).userIni t = f.userIni t := by
    unfold rememberUser
    cases hread : f.userIni t with
    | ok ini => rfl
    | error e =>
      have hnone : f.userConfig = none := by
        cases hown : f.userConfig with
        | none => rfl
        | some ini =>
          rw [userIni, hown] at hread
          cases hread
      have hsame : { f with userConfig := none } = f :=
        congrArg (fun u => { f with userConfig := u }) hnone.symm
      exact (congrArg (userIni t) hsame).trans hread
  rw [outlook, huser, outlook, projectInis, projectInis, projectFiles, projectFiles,
    projectDirectory, projectDirectory, hsearch]
  rfl

theorem outlook_rememberOwn (t : FileTree) (f : Finder) :
    outlook t (f.rememberOwn t) = outlook t f := by
  unfold rememberOwn
  cases hread : f.projectInis t with
  | ok inis => rw [outlook, outlook, hread]; rfl
  | error e =>
    have hnone : f.localConfigs = none := by
      cases hown : f.localConfigs with
      | none => rfl
      | some inis =>
        rw [projectInis, hown] at hread
        cases hread
    -- A fault leaves nothing to remember but the directory, where the search ends again.
    obtain ⟨g, hg⟩ : ∃ g, g = { f with
        localDirectory := f.projectDirectory t
        localConfigs := none } := ⟨_, rfl⟩
    have hsearch : g.search t = f.search t := by
      refine search_congr ?_ ?_ <;> rw [hg]
    have huser : g.userIni t = f.userIni t := by
      rw [hg]
      rfl
    have hinis : g.projectInis t = f.projectInis t := by
      rw [projectInis, projectInis, projectFiles, projectFiles, hsearch, hnone, hg]
    have hdirectory : g.projectDirectory t = f.projectDirectory t := by
      rw [projectDirectory, hsearch, hg, projectDirectory, hnone]
      cases f.search t <;> rfl
    rw [Except.toOption, ← hg, outlook, huser, hinis, hdirectory, outlook]

def settled (t : FileTree) (f : Finder) : Finder :=
  { f with
    userConfig := (f.userIni t).toOption
    localDirectory := f.projectDirectory t
    localConfigs := (f.projectInis t).toOption }

theorem rememberOwn_rememberUser (t : FileTree) (f : Finder) :
    (f.rememberUser t).rememberOwn t = f.settled t := by
  have hown : (f.rememberUser t).projectInis t = f.projectInis t :=
    congrArg Outlook.own (outlook_rememberUser t f)
  have hdirectory : (f.rememberUser t).projectDirectory t = f.projectDirectory t :=
    congrArg Outlook.directory (outlook_rememberUser t f)
  rw [rememberOwn, hown, hdirectory]
  rfl

theorem outlook_settled (t : FileTree) (f : Finder) : outlook t (f.settled t) = outlook t f := by
  rw [← rememberOwn_rememberUser, outlook_rememberOwn, outlook_rememberUser]

theorem settled_settled (t : FileTree) (f : Finder) : (f.settled t).settled t = f.settled t := by
  obtain ⟨huser, hown, hdirectory⟩ := Outlook.mk.inj (outlook_settled t f)
  rw [settled, huser, hown, hdirectory]
  rfl

theorem settled_rememberOwn (t : FileTree) (f : Finder) :
    (f.rememberOwn t).settled t = f.settled t := by
  obtain ⟨huser, hown, hdirectory⟩ := Outlook.mk.inj (outlook_rememberOwn t f)
  rw [settled, huser, hown, hdirectory]
  rfl

end Finder

section Again

open Finder

variable {r : Registry} {t : FileTree} {f g : Finder} {found again : List (String × Value)}
  {cwd directory name : String} {ini : Ini}

theorem run_userValues (r : Registry) (t : FileTree) (f : Finder) :
    ((userValues r).run t).run f =
      (f.userIni t >>= fun ini => sectionValues r ini t.cwd f.localDirectory,
        f.rememberUser t) := by
  have huser := run_userConfigs t f
  unfold userValues
  cases hread : f.userIni t with
  | error e =>
    rw [hread] at huser
    exact find_bind_of_error huser
  | ok ini =>
    rw [hread] at huser
    rw [find_bind_of_ok huser, run_valuesOf]
    rfl

theorem run_localConfig (t : FileTree) (f : Finder) :
    (localConfig.run t).run f = ((f.projectInis t).map (·.1), f.rememberOwn t) := by
  have hlocal := run_localConfigsWithFiles t f
  unfold localConfig
  cases hread : f.projectInis t with
  | error e =>
    rw [hread] at hlocal
    exact find_bind_of_error hlocal
  | ok own =>
    rw [hread] at hlocal
    exact find_bind_of_ok hlocal

theorem run_localValues (r : Registry) (t : FileTree) (f : Finder) :
    ((localValues r).run t).run f =
      (f.projectInis t >>= fun own => sectionValues r own.1 t.cwd (f.projectDirectory t),
        f.rememberOwn t) := by
  have hlocal := run_localConfig t f
  unfold localValues
  cases hread : f.projectInis t with
  | error e =>
    rw [hread] at hlocal
    exact find_bind_of_error hlocal
  | ok own =>
    rw [hread] at hlocal
    rw [find_bind_of_ok hlocal]
    exact run_valuesOf r own.1 t _

/-- The values that count when no file is named, with the user's relative paths taken from a given
directory. -/
def Finder.Outlook.values (o : Outlook) (r : Registry) (cwd directory : String) :
    Except Fault (List (String × Value)) := do
  let theirs ← o.user >>= fun ini => sectionValues r ini cwd directory
  let ours ← o.own >>= fun own => sectionValues r own.1 cwd o.directory
  return theirs.foldl (fun vs e => Entries.putNew e.1 e.2 vs) ours

theorem values_alike (o : Outlook) (r : Registry) (cwd a b : String) :
    Alike Entries.SameNames (o.values r cwd a) (o.values r cwd b) := by
  have htheirs : Alike Entries.SameNames
      (o.user >>= fun ini => sectionValues r ini cwd a)
      (o.user >>= fun ini => sectionValues r ini cwd b) := by
    refine (Alike.refl (R := Eq) (fun _ => rfl) o.user).bind fun ini _ hini => ?_
    subst hini
    exact sectionValues_alike r ini cwd a b
  refine htheirs.bind fun theirs theirs' hsame => ?_
  refine (Alike.refl (R := Eq) (fun _ => rfl) _).bind fun ours _ hours => ?_
  subst hours
  exact .ok (hsame.foldl_putNew ours)

/-- Without a named file, values are read off what the finder will find. Nothing of that changes,
and if all can be read then all has been looked for. -/
theorem run_parse (r : Registry) (t : FileTree) (f : Finder) :
    ∃ g, ((parse r .none false).run t).run f =
        ((f.outlook t).values r t.cwd f.localDirectory, g) ∧
      g.outlook t = f.outlook t ∧
      ∀ found, (f.outlook t).values r t.cwd f.localDirectory = .ok found → g = f.settled t := by
  have hrun : ((parse r .none false).run t).run f = ((mergedValues r).run t).run f := rfl
  have huser := run_userValues r t f
  have hown := run_localValues r t (f.rememberUser t)
  obtain ⟨-, hinis, hdirectory⟩ := Outlook.mk.inj (outlook_rememberUser t f)
  rw [rememberOwn_rememberUser, hinis, hdirectory] at hown
  rw [hrun]
  unfold mergedValues Outlook.values outlook
  cases htheirs : f.userIni t >>= fun ini => sectionValues r ini t.cwd f.localDirectory with
  | error e =>
    rw [htheirs] at huser
    exact ⟨_, find_bind_of_error huser, outlook_rememberUser t f, fun found hfound => by cases hfound⟩
  | ok theirs =>
    rw [htheirs] at huser
    refine ⟨f.settled t, ?_, outlook_settled t f, fun _ _ => rfl⟩
    rw [find_bind_of_ok huser]
    cases hours : f.projectInis t >>=
        fun own => sectionValues r own.1 t.cwd (f.projectDirectory t) with
    | error e =>
      rw [hours] at hown
      exact find_bind_of_error hown
    | ok ours =>
      rw [hours] at hown
      exact find_bind_of_ok hown

theorem values_ok {o : Outlook} (h : o.values r cwd directory = .ok found) :
    ∃ user own theirs ours, o.user = .ok user ∧ o.own = .ok own ∧
      sectionValues r user cwd directory = .ok theirs ∧
      sectionValues r own.1 cwd o.directory = .ok ours ∧
      found = theirs.foldl (fun vs e => Entries.putNew e.1 e.2 vs) ours := by
  obtain ⟨theirs, htheirs, h⟩ := bind_ok h
  obtain ⟨ours, hours, h⟩ := bind_ok h
  obtain ⟨user, huser, htheirs⟩ := bind_ok htheirs
  obtain ⟨own, hown, hours⟩ := bind_ok hours
  cases h
  exact ⟨user, own, theirs, ours, huser, hown, htheirs, hours, rfl⟩

theorem lookup_eq_none_of_not_known (hr : r.Sound)
    (h : sectionValues r ini cwd directory = .ok found) (hname : ¬ ∃ d, Known r d name) :
    found.lookup name = none := by
  refine List.lookup_eq_none_iff.mpr fun p hp => bne_iff_ne.mpr fun heq => hname ?_
  exact (listed_sectionValues hr h).names name (List.mem_map.mpr ⟨p, hp, heq.symm⟩)

theorem lookup_eq_none_iff_written {d : Declaration}
    (hr : r.Sound) (hd : Known r d name) (h : sectionValues r ini cwd directory = .ok found) :
    found.lookup name = none ↔ ini.written? r.program name = none := by
  have hlookup := lookup_sectionValues hr hd h
  rw [← Option.map_eq_none_iff (f := Except.ok (ε := Fault)), hlookup, Option.map_eq_none_iff]

/-- Two directories give an option the same value exactly if what is written stands for the same in
both. -/
theorem lookup_eq_iff {d : Declaration} {a b : String} (hr : r.Sound)
    (hd : Known r d name) (hfound : sectionValues r ini cwd a = .ok found)
    (hagain : sectionValues r ini cwd b = .ok again) :
    again.lookup name = found.lookup name ↔ ∀ s, ini.written? r.program name = some s →
      valueOf d cwd b s = valueOf d cwd a s := by
  have hinj := Option.map_injective (f := Except.ok (ε := Fault) (α := Value))
    fun _ _ => Except.ok.inj
  rw [← hinj.eq_iff, lookup_sectionValues hr hd hfound, lookup_sectionValues hr hd hagain]
  generalize ini.written? r.program name = written
  cases written with
  | none => simp
  | some s =>
    constructor
    · intro h s' hs
      cases hs
      exact Option.some.inj h
    · intro h
      rw [Option.map_some, Option.map_some, h s rfl]

/-- Two directories for the user's relative paths give the same values exactly if each path that
counts stands for the same file in both: one that the user's configuration writes and the project's
does not. -/
theorem values_eq_iff {o : Outlook} {user : Ini} {own : Ini × List String} {a b : String}
    (hr : r.Sound) (huser : o.user = .ok user) (hown : o.own = .ok own)
    (hfound : o.values r cwd a = .ok found) (hagain : o.values r cwd b = .ok again) :
    again = found ↔ ∀ d name s, Known r d name → d.isPath = true →
      user.written? r.program name = some s → own.1.written? r.program name = none →
      valueOf d cwd b s = valueOf d cwd a s := by
  obtain ⟨others, hothers, hnames⟩ := (values_alike o r cwd a b).ok_right hfound
  cases hagain.symm.trans hothers
  obtain ⟨user', own', theirs, ours, huser', hown', htheirs, hours, rfl⟩ := values_ok hfound
  cases huser.symm.trans huser'
  cases hown.symm.trans hown'
  obtain ⟨user', own', theirs', ours', huser', hown', htheirs', hours', rfl⟩ := values_ok hagain
  cases huser.symm.trans huser'
  cases hown.symm.trans hown'
  cases hours.symm.trans hours'
  constructor
  · intro heq d name s hd _ hs hnone
    refine (lookup_eq_iff hr hd htheirs htheirs').mp ?_ s hs
    have hlookup := congrArg (List.lookup name) heq
    rw [Entries.lookup_foldl_putNew, Entries.lookup_foldl_putNew,
      (lookup_eq_none_iff_written hr hd hours).mpr hnone, Option.none_or, Option.none_or] at hlookup
    exact hlookup
  · intro hsame
    have hlisted := (listed_sectionValues hr hours).foldl_putNew (listed_sectionValues hr htheirs).names
    refine (hnames.eq_of_lookup hlisted.nodup fun name => Eq.symm ?_).symm
    rw [Entries.lookup_foldl_putNew, Entries.lookup_foldl_putNew]
    cases hour : ours.lookup name with
    | some v => rfl
    | none =>
      rw [Option.none_or, Option.none_or]
      by_cases hname : ∃ d, Known r d name
      · obtain ⟨d, hd⟩ := hname
        refine (lookup_eq_iff hr hd htheirs htheirs').mpr fun s hs => ?_
        cases hpath : d.isPath with
        | false => exact valueOf_of_not_isPath hpath cwd b a s
        | true =>
          exact hsame d name s hd hpath hs ((lookup_eq_none_iff_written hr hd hours).mp hour)
      · rw [lookup_eq_none_of_not_known hr htheirs hname,
          lookup_eq_none_of_not_known hr htheirs' hname]

/-- Reading configuration again fails as it did before, or it changes nothing about the finder and
gives the values that it also gives once the project's configuration has been looked for. They are
the values that were given before exactly if each path that the user's configuration writes, and the
project's does not, stands for the same file in the project's directory as in the directory from
before. -/
theorem parse_again_eq_iff (r : Registry) (hr : r.Built) (t : FileTree) (f : Finder) :
    (∀ e f', ((parse r .none false).run t).run f = (.error e, f') →
      (((parse r .none false).run t).run f').1 = .error e ∧
      ∀ own g, (localConfig.run t).run f = (.ok own, g) →
        (((parse r .none false).run t).run g).1 = .error e) ∧
    ∀ found f', ((parse r .none false).run t).run f = (.ok found, f') → ∃ user own files again,
      f'.userConfig = some user ∧ f'.localConfigs = some (own, files) ∧
      ((parse r .none false).run t).run f' = (.ok again, f') ∧
      ((localConfig >>= fun _ => parse r .none false).run t).run f = (.ok again, f') ∧
      (again = found ↔ ∀ d name s, Known r d name → d.isPath = true →
        user.written? r.program name = some s → own.written? r.program name = none →
        valueOf d t.cwd f'.localDirectory s = valueOf d t.cwd f.localDirectory s) := by
  obtain ⟨g, hrun, houtlook, hsettled⟩ := run_parse r t f
  have halike : ∀ g, g.outlook t = f.outlook t → Alike Entries.SameNames
      ((f.outlook t).values r t.cwd f.localDirectory) (((parse r .none false).run t).run g).1 := by
    intro g hg
    obtain ⟨_, hrun, -, -⟩ := run_parse r t g
    rw [hrun, hg]
    exact values_alike _ r t.cwd _ _
  refine ⟨fun e f' h => ?_, fun found f' h => ?_⟩
  · obtain ⟨hvalues, rfl⟩ := Prod.mk.inj (hrun.symm.trans h)
    refine ⟨(halike g houtlook).error_right hvalues, fun own g hown => ?_⟩
    refine (halike g ?_).error_right hvalues
    rw [← (Prod.mk.inj ((run_localConfig t f).symm.trans hown)).2]
    exact outlook_rememberOwn t f
  · obtain ⟨hvalues, rfl⟩ := Prod.mk.inj (hrun.symm.trans h)
    cases hsettled found hvalues
    obtain ⟨user, own, -, -, huser, hown, -⟩ := values_ok hvalues
    obtain ⟨again, hagain, -⟩ := (values_alike _ r t.cwd _ (f.projectDirectory t)).ok_right hvalues
    have hread : ∀ g, g.outlook t = f.outlook t → g.localDirectory = f.projectDirectory t →
        g.settled t = f.settled t →
        ((parse r .none false).run t).run g = (.ok again, f.settled t) := by
      intro g hg hdirectory hstate
      obtain ⟨g', hrun, -, hsettled⟩ := run_parse r t g
      rw [hg, hdirectory, hagain] at hrun hsettled
      rw [hrun, hsettled again rfl, hstate]
    have hlocal := run_localConfig t f
    rw [show f.projectInis t = .ok own from hown] at hlocal
    refine ⟨user, own.1, own.2, again, congrArg Except.toOption huser,
      congrArg Except.toOption hown, ?_, ?_, values_eq_iff hr.sound huser hown hvalues hagain⟩
    · exact hread _ houtlook rfl (settled_settled t f)
    · rw [find_bind_of_ok hlocal]
      exact hread _ (outlook_rememberOwn t f) rfl (settled_rememberOwn t f)

def excluding : Declaration :=
  { long := .text "--exclude", dest := .text "exclude", fromConfig := true, isList := true,
    isPath := true }

/-- A project whose configuration lies above the working directory, and a user's configuration. -/
def belowProject (user : String) : FileTree where
  cwd := "/p/s"
  root := .directory
    [("h", .directory [("flake8", .ofBytes (user.toList.map fun c => UInt8.ofNat c.toNat))]),
      ("p", .directory [("setup.cfg", .ofBytes []), ("s", .directory [])])]

def belowFinder : Finder :=
  { program := "flake8", extraFiles := [], userDirectory := "/h", localDirectory := "/p/s",
    parent := "/p/s" }

/-- What is given first and what is given then, with the directory of the project in between. -/
def givenTwice (r : Registry) (user : String) :
    Option (List (String × Value) × String × List (String × Value)) :=
  let first := ((parse r .none false).run (belowProject user)).run belowFinder
  let second := ((parse r .none false).run (belowProject user)).run first.2
  first.1.toOption.bind fun found => second.1.toOption.map fun again =>
    (found, first.2.localDirectory, again)

theorem exists_givenTwice {r : Registry} {user : String}
    {found again : List (String × Value)} (h : givenTwice r user = some (found, directory, again)) :
    ∃ f', ((parse r .none false).run (belowProject user)).run belowFinder = (.ok found, f') ∧
      f'.localDirectory = directory ∧
      (((parse r .none false).run (belowProject user)).run f').1 = .ok again := by
  obtain ⟨found', hfound, h⟩ := Option.bind_eq_some_iff.mp h
  obtain ⟨again', hagain, h⟩ := Option.map_eq_some_iff.mp h
  cases h
  exact ⟨_, Prod.ext (eq_ok_of_toOption hfound) rfl, rfl, eq_ok_of_toOption hagain⟩

/-- An absolute path is given again as it was, so what is written stands for the same file in both
directories. -/
theorem parse_again_eq_absolute :
    ∃ r f', Registry.ofOptions [excluding] = .ok r ∧
      ((parse r .none false).run (belowProject "[flake8]\nexclude = /x/y\n")).run belowFinder =
        (.ok [("exclude", .texts ["/x/y"])], f') ∧
      f'.localDirectory = "/p" ∧
      ∃ user own files, f'.userConfig = some user ∧ f'.localConfigs = some (own, files) ∧
        ∀ d name s, Known r d name → d.isPath = true →
          user.written? r.program name = some s → own.written? r.program name = none →
          valueOf d "/p/s" "/p" s = valueOf d "/p/s" "/p/s" s := by
  have hgiven : ((Registry.ofOptions [excluding]).toOption.bind fun r =>
      givenTwice r "[flake8]\nexclude = /x/y\n") =
        some ([("exclude", .texts ["/x/y"])], "/p", [("exclude", .texts ["/x/y"])]) := by
    decide +kernel
  obtain ⟨r, hr, hgiven⟩ := Option.bind_eq_some_iff.mp hgiven
  have hr := eq_ok_of_toOption hr
  obtain ⟨f', hfound, hdirectory, hagain⟩ := exists_givenTwice hgiven
  obtain ⟨user, own, files, again, huser, hown, hrun, -, hiff⟩ :=
    (parse_again_eq_iff r (Registry.built_ofOptions hr) _ _).2 _ f' hfound
  rw [hrun] at hagain
  rw [hdirectory] at hiff
  exact ⟨r, f', hr, hfound, hdirectory, user, own, files, huser, hown,
    hiff.mp (Except.ok.inj hagain)⟩

/-- A relative path stands for a file in the working directory first, and then for one in the
directory of the project. -/
theorem parse_again_moves_relative :
    ∃ r f', Registry.ofOptions [excluding] = .ok r ∧
      ((parse r .none false).run (belowProject "[flake8]\nexclude = ./x\n")).run belowFinder =
        (.ok [("exclude", .texts ["/p/s/x"])], f') ∧
      (((parse r .none false).run (belowProject "[flake8]\nexclude = ./x\n")).run f').1 =
        .ok [("exclude", .texts ["/p/x"])] := by
  have hgiven : ((Registry.ofOptions [excluding]).toOption.bind fun r =>
      givenTwice r "[flake8]\nexclude = ./x\n") =
        some ([("exclude", .texts ["/p/s/x"])], "/p", [("exclude", .texts ["/p/x"])]) := by
    decide +kernel
  obtain ⟨r, hr, hgiven⟩ := Option.bind_eq_some_iff.mp hgiven
  obtain ⟨f', hfound, -, hagain⟩ := exists_givenTwice hgiven
  exact ⟨r, f', eq_ok_of_toOption hr, hfound, hagain⟩

end Again

end Config

end LintRunner
