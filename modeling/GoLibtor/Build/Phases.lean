import GoLibtor.Build.Returns

/-! The phases of the function of a library: up to the wipe, the wrappers and the preamble, and the
configuration headers. -/
namespace GoLibtor

open Text Files Transition Program

/-! ### What a library decides from what its tools print -/

/-- The first submatch of a pattern in a text. -/
def Submatch (pattern : Regexp) (text x : Str) : Prop :=
  ∃ found, pattern.findSubmatch text = some found ∧ x = found.submatch 1

/-- The sources of libevent, `sha1` telling whether there is a `sha1.c`. -/
def libeventSources (out : Str) (sha1 : Bool) : List Str :=
  let deps := extractLibeventObjects out
  if containsString deps "ws".toList ∧ sha1 = true ∧ containsString deps "sha1".toList = false then
    sortStrings (deps ++ ["sha1".toList])
  else deps

def Library.folder (lib : Library) : Path := [linux, lib.name]

def Library.dryRun : Library → Command
  | .libevent => command Library.libevent.folder ["make", "--dry-run", "libevent.la"] []
  | lib => command lib.folder ["make", "--dry-run"] []

/-- The wrappers of the sources a library keeps: the listing of its folder for zlib, otherwise
what passes the filters of the output of `make --dry-run`. -/
def Kept (vs : List Event) : Library → List Wrapper → Prop
  | .zlib, wrappers => ∃ entries, Event.listed Library.zlib.folder entries true ∈ vs ∧
      wrappers = zlibWrappers entries
  | .libevent, wrappers => ∃ out fs, Event.ran Library.libevent.dryRun out true fs ∈ vs ∧
      wrappers = libeventWrappers (libeventSources out
        (present (within (some linux) fs) (Library.libevent.folder ++ ["sha1.c".toList])))
  | .openssl, wrappers => ∃ out fs, Event.ran Library.openssl.dryRun out true fs ∈ vs ∧
      wrappers = opensslWrappers (extractOpenSSLSources out)
  | .tor, wrappers => ∃ out fs orconf ok, Event.ran Library.tor.dryRun out true fs ∈ vs ∧
      Event.read (Library.tor.folder ++ ["orconfig.h".toList]) orconf ok ∈ vs ∧
      wrappers = torWrappers (modulePowPattern.findSubmatch orconf).isSome (extractTorSources out)

/-- What the configuration headers of a library are filled with. -/
inductive Release
  | zlib
  | libevent (numver strver : Str)
  | openssl (date : Str) (versionData : Fields)
  | tor (strver : Str)

def Release.FoundIn (vs : List Event) : Library → Release → Prop
  | .zlib, r => r = .zlib
  | .libevent, r => ∃ conf ok numver strver,
      Event.read (Library.libevent.folder ++ ["configure.ac".toList]) conf ok ∈ vs ∧
      Submatch numericVersionPattern conf numver ∧ Submatch libeventVersionPattern conf strver ∧
      r = .libevent numver strver
  | .openssl, r => ∃ date fs blob versionData,
      Event.ran (command Library.openssl.folder ["git", "show", "-s", "--format=%cd"] []) date true fs ∈ vs ∧
      Event.read (Library.openssl.folder ++ ["VERSION.dat".toList]) blob true ∈ vs ∧
      parseVersionData blob = .ok versionData ∧ r = .openssl (trimSpace date) versionData
  | .tor, r => ∃ orconf ok strver,
      Event.read (Library.tor.folder ++ ["orconfig.h".toList]) orconf ok ∈ vs ∧
      Submatch torVersionPattern orconf strver ∧ r = .tor strver

theorem Kept.mono {us vs : List Event} {lib : Library} {wrappers : List Wrapper}
    (h : Kept us lib wrappers) (hsub : us ⊆ vs) : Kept vs lib wrappers := by
  cases lib with
  | zlib =>
    obtain ⟨entries, hlisted, hrest⟩ := h
    exact ⟨entries, hsub hlisted, hrest⟩
  | libevent =>
    obtain ⟨out, fs, hran, hrest⟩ := h
    exact ⟨out, fs, hsub hran, hrest⟩
  | openssl =>
    obtain ⟨out, fs, hran, hrest⟩ := h
    exact ⟨out, fs, hsub hran, hrest⟩
  | tor =>
    obtain ⟨out, fs, orconf, ok, hran, hread, hrest⟩ := h
    exact ⟨out, fs, orconf, ok, hsub hran, hsub hread, hrest⟩

theorem Release.FoundIn.mono {us vs : List Event} {lib : Library} {r : Release}
    (h : r.FoundIn us lib) (hsub : us ⊆ vs) : r.FoundIn vs lib := by
  cases lib with
  | zlib => exact h
  | libevent =>
    obtain ⟨conf, ok, numver, strver, hread, hrest⟩ := h
    exact ⟨conf, ok, numver, strver, hsub hread, hrest⟩
  | openssl =>
    obtain ⟨date, fs, blob, versionData, hran, hread, hrest⟩ := h
    exact ⟨date, fs, blob, versionData, hsub hran, hsub hread, hrest⟩
  | tor =>
    obtain ⟨orconf, ok, strver, hread, hrest⟩ := h
    exact ⟨orconf, ok, strver, hsub hread, hrest⟩

/-- The phase that writes the configuration headers. -/
def Release.inject {σ : Type} (m : Machine σ) (pk : Packages) : Release → Gen σ PUnit
  | .zlib => pure ()
  | .libevent numver strver => injectLibevent m pk numver strver
  | .openssl date versionData => injectOpenSSL m pk Library.openssl.folder date versionData
  | .tor strver => injectTor m pk strver

/-- OpenSSL looks at the errors of its wrappers, the others do not. -/
def Library.onError {σ : Type} : Library → Option Err → Gen σ Unit
  | .openssl => check
  | _ => ignore

/-- The phase that writes into `libtor`. -/
def Library.writeAll {σ : Type} (m : Machine σ) (lib : Library) (wrappers : List Wrapper) : Gen σ Unit := do
  writeWrappers m lib.onError linux lib wrappers
  writePreamble m lib.onError linux lib

section

variable {σ A : Type} {m : Machine σ} {pk : Packages} {o : Options}

/-! ### Parts that return -/

theorem firstSubmatch_returns {pattern : Regexp} {text x : Str} {w w' : World σ} {vs : List Event} :
    Returns (firstSubmatch pattern text) w x w' vs ↔ Submatch pattern text x ∧ w' = w ∧ vs = [] := by
  unfold firstSubmatch Submatch
  cases h : pattern.findSubmatch text with
  | none => simp [not_fail_returns]
  | some found => simp [pure_returns]

theorem checked_returns {r : Except Err A} {w w' : World σ} {a : A} {vs : List Event} :
    Returns (checked r) w a w' vs ↔ r = .ok a ∧ w' = w ∧ vs = [] := by
  cases r with
  | ok b =>
    rw [show (checked (.ok b) : Gen σ A) = pure b from rfl, pure_returns]
    simp [eq_comm]
  | error e =>
    rw [show (checked (.error e) : Gen σ A) = fail (.returned e) from rfl]
    simp [not_fail_returns]

theorem ignore_returns {err : Option Err} {w w' : World σ} {u : Unit} {vs : List Event} :
    Returns (ignore err) w u w' vs ↔ w' = w ∧ vs = [] := by
  unfold ignore
  rw [pure_returns]
  simp

/-- A look at the files leaves them as they are. -/
theorem look_returns {op : Op} {answer : op.Seen → Option Damage → A} {w w' : World σ} {a : A}
    {vs : List Event} (hc : op.changes = none) (h : Returns (act m op answer) w a w' vs) :
    ∃ d, a = answer (op.see w.files) d ∧ w'.files = w.files ∧ vs = [op.event w.files d] := by
  obtain ⟨d, _, ha, hw, hvs⟩ := act_returns.mp h
  refine ⟨d, ha, ?_, hvs⟩
  rw [hw]
  exact effect_of_no_change hc

theorem readFile_returns {p : Path} {w w' : World σ} {r : Str × Option Err} {vs : List Event}
    (h : Returns (readFile m p) w r w' vs) : ∃ ok, Event.read p r.1 ok ∈ vs := by
  obtain ⟨d, rfl, -, rfl⟩ := look_returns rfl h
  exact ⟨d.isNone, List.mem_singleton.mpr rfl⟩

/-- A read without an error. -/
theorem readFile_ok {p : Path} {w w' : World σ} {r : Str × Option Err} {vs : List Event}
    (h : Returns (readFile m p) w r w' vs) (hr : r.2 = none) :
    w'.files = w.files ∧ vs = [.read p r.1 true] := by
  obtain ⟨d, rfl, hfiles, rfl⟩ := look_returns rfl h
  cases d with
  | some d => cases hr
  | none => exact ⟨hfiles, rfl⟩

/-- A write without an error. -/
theorem writeFile_ok {p : Path} {data : Str} {w w' : World σ} {vs : List Event}
    (h : Returns (writeFile m p data) w none w' vs) : w'.files = put w.files p data := by
  obtain ⟨d, -, hnone, rfl, -⟩ := act_returns.mp h
  cases d with
  | some d => cases hnone
  | none => rfl

/-- What a command leaves in the target folder. -/
theorem output_event {c : Command} {w w' : World σ} {out : Str} {vs : List Event}
    (h : Returns (output m c) w out w' vs) (hc : c.dir.head? = some linux) :
    ∃ fs, Event.ran c out true fs ∈ vs ∧ within (some linux) w'.files = within (some linux) fs := by
  obtain ⟨-, rfl, rfl, rfl⟩ := output_returns.mp h
  exact ⟨_, List.mem_singleton.mpr rfl, hc ▸ within_after m w c⟩

theorem present_within (fs : Store) {top : Str} {p : Path} (hp : p.head? = some top) :
    present (within (some top) fs) p = present fs p := by
  unfold present within
  rw [List.any_filter]
  congr 1
  funext e
  by_cases hbelow : p <+: e.1
  · obtain ⟨t, ht⟩ := hbelow
    have hhead : e.1.head? = some top := by
      rw [← ht, List.head?_append, hp]
      rfl
    simp [hhead]
  · simp [hbelow]

theorem libeventDeps_returns {tgtf : Path} {out : Str} {w w' : World σ} {deps : List Str} {vs : List Event}
    (h : Returns (libeventDeps m tgtf out) w deps w' vs) :
    deps = libeventSources out (present w.files (tgtf ++ ["sha1.c".toList])) ∧ w'.files = w.files ∧
      extractLibeventObjects out ≠ [] := by
  unfold libeventDeps at h
  unfold libeventSources
  dsimp only at h ⊢
  split at h
  · exact absurd h not_fail_returns
  next hlength =>
    have hne : extractLibeventObjects out ≠ [] := fun heq => hlength (by rw [heq]; rfl)
    split at h
    next hws =>
      obtain ⟨result, w₁, us, us', hstat, hrest, rfl⟩ := bind_returns.mp h
      obtain ⟨d, rfl, hfiles, -⟩ := look_returns rfl hstat
      cases d with
      | some d => exact absurd hrest not_fail_returns
      | none =>
        cases hsha : present w.files (tgtf ++ ["sha1.c".toList]) with
        | false =>
          simp only [Op.see, hsha, Bool.false_eq_true, if_false] at hrest
          obtain ⟨rfl, rfl, -⟩ := pure_returns.mp hrest
          exact ⟨(if_neg fun hall => Bool.noConfusion hall.2.1).symm, hfiles, hne⟩
        | true =>
          simp only [Op.see, hsha, if_true] at hrest
          cases hcontains : containsString (extractLibeventObjects out) "sha1".toList with
          | false =>
            rw [hcontains] at hrest
            obtain ⟨rfl, rfl, -⟩ := pure_returns.mp hrest
            exact ⟨(if_pos ⟨hws, rfl, rfl⟩).symm, hfiles, hne⟩
          | true =>
            rw [hcontains] at hrest
            obtain ⟨rfl, rfl, -⟩ := pure_returns.mp hrest
            exact ⟨(if_neg fun hall => Bool.noConfusion hall.2.2).symm, hfiles, hne⟩
    next hws =>
      obtain ⟨rfl, rfl, -⟩ := pure_returns.mp h
      exact ⟨(if_neg fun hall => hws hall.1).symm, rfl, hne⟩

/-! ### Up to the wipe -/

theorem configureLibevent_returns {lock : Option LockJson} {w w' : World σ}
    {commit numver strver : Str} {deps : List Str} {vs : List Event}
    (h : Returns (configureLibevent m o linux lock) w (commit, numver, strver, deps) w' vs) :
    ∃ out fs conf ok, Event.ran Library.libevent.dryRun out true fs ∈ vs ∧
      Event.read (Library.libevent.folder ++ ["configure.ac".toList]) conf ok ∈ vs ∧
      Submatch numericVersionPattern conf numver ∧ Submatch libeventVersionPattern conf strver ∧
      deps = libeventSources out
        (present (within (some linux) fs) (Library.libevent.folder ++ ["sha1.c".toList])) ∧
      extractLibeventObjects out ≠ [] ∧ within (some linux) w'.files = within (some linux) fs := by
  obtain ⟨_, _, us₁, _, _, h₁, rfl⟩ := bind_returns.mp h
  obtain ⟨_, _, us₂, _, _, h₂, rfl⟩ := bind_returns.mp h₁
  obtain ⟨_, _, us₃, _, _, h₃, rfl⟩ := bind_returns.mp h₂
  obtain ⟨_, _, us₄, _, _, h₄, rfl⟩ := bind_returns.mp h₃
  obtain ⟨read, _, us₅, _, hread, h₅, rfl⟩ := bind_returns.mp h₄
  obtain ⟨num, _, us₆, _, hnum, h₆, rfl⟩ := bind_returns.mp h₅
  obtain ⟨str, _, us₇, _, hstr, h₇, rfl⟩ := bind_returns.mp h₆
  obtain ⟨out, s, us₈, _, hout, h₈, rfl⟩ := bind_returns.mp h₇
  obtain ⟨sources, _, us₉, _, hdeps, hpure, rfl⟩ := bind_returns.mp h₈
  obtain ⟨heq, rfl, rfl⟩ := pure_returns.mp hpure
  obtain ⟨rfl, rfl, rfl, rfl⟩ := heq
  obtain ⟨ok, hmem⟩ := readFile_returns hread
  obtain ⟨fs, hran, hwithin⟩ := output_event hout rfl
  obtain ⟨rfl, hfiles, hne⟩ := libeventDeps_returns hdeps
  have hran : Event.ran Library.libevent.dryRun out true fs ∈ us₈ := hran
  have hmem : Event.read (Library.libevent.folder ++ ["configure.ac".toList]) read.1 ok ∈ us₅ := hmem
  refine ⟨out, fs, read.1, ok, ?_, ?_, (firstSubmatch_returns.mp hnum).1,
    (firstSubmatch_returns.mp hstr).1, ?_, hne, hfiles ▸ hwithin⟩
  · simp only [List.mem_append, hran, true_or, or_true]
  · simp only [List.mem_append, hmem, true_or, or_true]
  · rw [← hwithin, present_within _ rfl]
    rfl

theorem openSSLVersionData_returns {repo : Path} {w w' : World σ} {versionData : Fields} {vs : List Event}
    (h : Returns (openSSLVersionData m repo) w versionData w' vs) :
    ∃ blob, Event.read (repo ++ ["VERSION.dat".toList]) blob true ∈ vs ∧
      parseVersionData blob = .ok versionData := by
  obtain ⟨read, _, us₁, _, hread, h₁, rfl⟩ := bind_returns.mp h
  obtain ⟨_, _, us₂, _, hcheck, h₂, rfl⟩ := bind_returns.mp h₁
  obtain ⟨herr, -, -⟩ := check_returns.mp hcheck
  obtain ⟨hparse, -, -⟩ := checked_returns.mp h₂
  obtain ⟨-, rfl⟩ := readFile_ok hread herr
  exact ⟨_, List.mem_append_left _ (List.mem_singleton.mpr rfl), hparse⟩

theorem opensslDeps_returns {tgtf : Path} {out : Str} {w w' : World σ} {deps : List Str} {vs : List Event}
    (h : Returns (opensslDeps m tgtf out) w deps w' vs) :
    deps = extractOpenSSLSources out ∧ ∃ generated s us us',
      Returns (deps.foldlM (findGenerated m tgtf) []) w generated s us ∧
      Returns (makeGenerated m tgtf generated) s () w' us' ∧ us' ⊆ vs := by
  unfold opensslDeps at h
  dsimp only at h
  split at h
  · exact absurd h not_fail_returns
  · obtain ⟨generated, s, us, _, hfind, h₁, rfl⟩ := bind_returns.mp h
    obtain ⟨_, _, us', _, hmake, hpure, rfl⟩ := bind_returns.mp h₁
    obtain ⟨rfl, rfl, rfl⟩ := pure_returns.mp hpure
    exact ⟨rfl, generated, s, us, us', hfind, hmake, fun e he => by simp [he]⟩

theorem configureOpenSSL_returns {lock : Option LockJson} {w w' : World σ} {commit date : Str}
    {versionData : Fields} {deps : List Str} {vs : List Event}
    (h : Returns (configureOpenSSL m o linux lock) w (commit, date, versionData, deps) w' vs) :
    ∃ out fs s us, Event.ran Library.openssl.dryRun out true fs ∈ vs ∧
      (Release.openssl date versionData).FoundIn vs .openssl ∧
      Returns (opensslDeps m Library.openssl.folder out) s deps w' us ∧ us ⊆ vs ∧
      within (some linux) s.files = within (some linux) fs := by
  obtain ⟨_, _, us₁, _, _, h₁, rfl⟩ := bind_returns.mp h
  obtain ⟨shown, _, us₂, _, hdate, h₂, rfl⟩ := bind_returns.mp h₁
  obtain ⟨data, _, us₃, _, hversion, h₃, rfl⟩ := bind_returns.mp h₂
  obtain ⟨_, _, us₄, _, _, h₄, rfl⟩ := bind_returns.mp h₃
  obtain ⟨_, _, us₅, _, _, h₅, rfl⟩ := bind_returns.mp h₄
  obtain ⟨_, _, us₆, _, _, h₆, rfl⟩ := bind_returns.mp h₅
  obtain ⟨out, s, us₇, _, hout, h₇, rfl⟩ := bind_returns.mp h₆
  obtain ⟨sources, _, us₈, _, hdeps, hpure, rfl⟩ := bind_returns.mp h₇
  obtain ⟨heq, rfl, rfl⟩ := pure_returns.mp hpure
  obtain ⟨rfl, rfl, rfl, rfl⟩ := heq
  obtain ⟨fs', hshown, -⟩ := output_event hdate rfl
  obtain ⟨blob, hblob, hparse⟩ := openSSLVersionData_returns hversion
  obtain ⟨fs, hran, hwithin⟩ := output_event hout rfl
  have hran : Event.ran Library.openssl.dryRun out true fs ∈ us₇ := hran
  have hshown : Event.ran (command Library.openssl.folder ["git", "show", "-s", "--format=%cd"] [])
      shown true fs' ∈ us₂ := hshown
  have hblob : Event.read (Library.openssl.folder ++ ["VERSION.dat".toList]) blob true ∈ us₃ := hblob
  refine ⟨out, fs, s, us₈, ?_, ⟨shown, fs', blob, _, ?_, ?_, hparse, rfl⟩, hdeps, ?_, hwithin⟩
  · simp only [List.mem_append, hran, true_or, or_true]
  · simp only [List.mem_append, hshown, true_or, or_true]
  · simp only [List.mem_append, hblob, true_or, or_true]
  · intro e he
    simp only [List.mem_append, he, true_or, or_true]

theorem configureTor_returns {lock : Option LockJson} {w w' : World σ} {commit strver : Str}
    {hasModulePow : Bool} {deps : List Str} {vs : List Event}
    (h : Returns (configureTor m linux lock) w (commit, strver, hasModulePow, deps) w' vs) :
    ∃ out fs orconf ok, Event.ran Library.tor.dryRun out true fs ∈ vs ∧
      Event.read (Library.tor.folder ++ ["orconfig.h".toList]) orconf ok ∈ vs ∧
      Submatch torVersionPattern orconf strver ∧
      hasModulePow = (modulePowPattern.findSubmatch orconf).isSome ∧ deps = extractTorSources out ∧
      within (some linux) w'.files = within (some linux) fs := by
  obtain ⟨_, _, us₁, _, _, h₁, rfl⟩ := bind_returns.mp h
  obtain ⟨_, _, us₂, _, _, h₂, rfl⟩ := bind_returns.mp h₁
  obtain ⟨_, _, us₃, _, _, h₃, rfl⟩ := bind_returns.mp h₂
  obtain ⟨_, _, us₄, _, _, h₄, rfl⟩ := bind_returns.mp h₃
  obtain ⟨_, _, us₅, _, _, h₅, rfl⟩ := bind_returns.mp h₄
  obtain ⟨read, _, us₆, _, hread, h₆, rfl⟩ := bind_returns.mp h₅
  obtain ⟨str, _, us₇, _, hstr, h₇, rfl⟩ := bind_returns.mp h₆
  obtain ⟨out, s, us₈, _, hout, hpure, rfl⟩ := bind_returns.mp h₇
  obtain ⟨heq, rfl, rfl⟩ := pure_returns.mp hpure
  obtain ⟨rfl, rfl, rfl, rfl⟩ := heq
  obtain ⟨ok, hmem⟩ := readFile_returns hread
  obtain ⟨fs, hran, hwithin⟩ := output_event hout rfl
  have hran : Event.ran Library.tor.dryRun out true fs ∈ us₈ := hran
  have hmem : Event.read (Library.tor.folder ++ ["orconfig.h".toList]) read.1 ok ∈ us₆ := hmem
  refine ⟨out, fs, read.1, ok, ?_, ?_, (firstSubmatch_returns.mp hstr).1, rfl, rfl, hwithin⟩
  · simp only [List.mem_append, hran, true_or, or_true]
  · simp only [List.mem_append, hmem, true_or, or_true]

theorem wipeZlib_returns {w w' : World σ} {files : List Entry} {vs : List Event}
    (h : Returns (wipeZlib m Library.zlib.folder) w files w' vs) :
    Event.listed Library.zlib.folder files true ∈ vs := by
  obtain ⟨listing, _, us₁, _, hlisting, h₁, rfl⟩ := bind_returns.mp h
  obtain ⟨entries, _, us₂, _, hchecked, h₂, rfl⟩ := bind_returns.mp h₁
  obtain ⟨_, _, us₃, _, _, hpure, rfl⟩ := bind_returns.mp h₂
  obtain ⟨rfl, -, -⟩ := pure_returns.mp hpure
  obtain ⟨d, hd, -, rfl⟩ := look_returns rfl hlisting
  obtain ⟨hok, -, -⟩ := checked_returns.mp hchecked
  cases d with
  | some d => cases hd.symm.trans hok
  | none =>
    obtain rfl := Except.ok.inj (hd.symm.trans hok)
    exact List.mem_append_left _ (List.mem_singleton.mpr rfl)

/-! ### All phases -/

theorem writeAll_returns {lib : Library} {wrappers : List Wrapper} {w w' : World σ} {vs : List Event} :
    Returns (lib.writeAll m wrappers) w () w' vs ↔ ∃ t us us',
      Returns (writeWrappers m lib.onError linux lib wrappers) w ⟨⟩ t us ∧
      Returns (writePreamble m lib.onError linux lib) t () w' us' ∧ vs = us ++ us' := by
  unfold Library.writeAll
  rw [bind_returns]
  constructor
  · intro ⟨_, t, us, us', h⟩
    exact ⟨t, us, us', h⟩
  · intro ⟨t, us, us', h⟩
    exact ⟨⟨⟩, t, us, us', h⟩

theorem wrapLibevent_returns {lock : Option LockJson} {w w' : World σ} {a : Str × Str} {vs : List Event}
    (h : Returns (wrapLibevent m pk o linux lock) w a w' vs) :
    ∃ numver strver deps s t u us₁ us₂ us₃ us₄,
      Returns (configureLibevent m o linux lock) w (a.2, numver, strver, deps) s us₁ ∧
      Returns (wipeLibevent m Library.libevent.folder) s ⟨⟩ t us₂ ∧
      Returns (Library.libevent.writeAll m (libeventWrappers deps)) t () u us₃ ∧
      Returns ((Release.libevent numver strver).inject m pk) u ⟨⟩ w' us₄ ∧
      vs = us₁ ++ (us₂ ++ (us₃ ++ us₄)) := by
  obtain ⟨⟨commit, numver, strver, deps⟩, s, us₁, _, hconfigure, h₁, rfl⟩ := bind_returns.mp h
  obtain ⟨_, t, us₂, _, hwipe, h₂, rfl⟩ := bind_returns.mp h₁
  obtain ⟨_, t', us₃, _, hwrappers, h₃, rfl⟩ := bind_returns.mp h₂
  obtain ⟨_, u, us₄, _, hpreamble, h₄, rfl⟩ := bind_returns.mp h₃
  obtain ⟨_, _, us₅, _, hinject, hpure, rfl⟩ := bind_returns.mp h₄
  obtain ⟨rfl, rfl, rfl⟩ := pure_returns.mp hpure
  exact ⟨numver, strver, deps, s, t, u, us₁, us₂, us₃ ++ us₄, us₅, hconfigure, hwipe,
    writeAll_returns.mpr ⟨t', us₃, us₄, hwrappers, hpreamble, rfl⟩, hinject, by simp⟩

theorem wrapOpenSSL_returns {lock : Option LockJson} {w w' : World σ} {a : Str × Str} {vs : List Event}
    (h : Returns (wrapOpenSSL m pk o linux lock) w a w' vs) :
    ∃ date versionData deps s t u us₁ us₂ us₃ us₄,
      Returns (configureOpenSSL m o linux lock) w (a.2, date, versionData, deps) s us₁ ∧
      Returns (wipeOpenSSL m Library.openssl.folder) s ⟨⟩ t us₂ ∧
      Returns (Library.openssl.writeAll m (opensslWrappers deps)) t () u us₃ ∧
      Returns ((Release.openssl date versionData).inject m pk) u ⟨⟩ w' us₄ ∧
      opensslWrappers deps ≠ [] ∧ vs = us₁ ++ (us₂ ++ (us₃ ++ us₄)) := by
  obtain ⟨⟨commit, date, versionData, deps⟩, s, us₁, _, hconfigure, h₁, rfl⟩ := bind_returns.mp h
  obtain ⟨_, t, us₂, _, hwipe, h₂, rfl⟩ := bind_returns.mp h₁
  obtain ⟨_, t', us₃, _, hwrappers, h₃, rfl⟩ := bind_returns.mp h₂
  obtain ⟨_, u, us₄, _, hpreamble, h₄, rfl⟩ := bind_returns.mp h₃
  obtain ⟨_, _, us₅, _, hinject, hpure, rfl⟩ := bind_returns.mp h₄
  obtain ⟨rfl, rfl, rfl⟩ := pure_returns.mp hpure
  obtain ⟨_, t'', us₆, _, hwrite, hcount, rfl⟩ := bind_returns.mp hwrappers
  split at hcount
  · exact absurd hcount not_fail_returns
  next hne =>
    obtain ⟨-, rfl, rfl⟩ := pure_returns.mp hcount
    exact ⟨date, versionData, deps, s, t, u, us₁, us₂, us₆ ++ us₄, us₅, hconfigure, hwipe,
      writeAll_returns.mpr ⟨t', us₆, us₄, hwrite, hpreamble, rfl⟩, hinject,
      fun heq => hne (congrArg List.length heq), by simp⟩

theorem wrapTor_returns {lock : Option LockJson} {w w' : World σ} {a : Str × Str} {vs : List Event}
    (h : Returns (wrapTor m pk linux lock) w a w' vs) :
    ∃ strver hasModulePow deps s t u us₁ us₂ us₃ us₄,
      Returns (configureTor m linux lock) w (a.2, strver, hasModulePow, deps) s us₁ ∧
      Returns (wipeTor m Library.tor.folder) s () t us₂ ∧
      Returns (Library.tor.writeAll m (torWrappers hasModulePow deps)) t () u us₃ ∧
      Returns ((Release.tor strver).inject m pk) u ⟨⟩ w' us₄ ∧
      vs = us₁ ++ (us₂ ++ (us₃ ++ us₄)) := by
  obtain ⟨⟨commit, strver, hasModulePow, deps⟩, s, us₁, _, hconfigure, h₁, rfl⟩ := bind_returns.mp h
  obtain ⟨_, t, us₂, _, hwipe, h₂, rfl⟩ := bind_returns.mp h₁
  obtain ⟨_, t', us₃, _, hwrappers, h₃, rfl⟩ := bind_returns.mp h₂
  obtain ⟨_, u, us₄, _, hpreamble, h₄, rfl⟩ := bind_returns.mp h₃
  obtain ⟨_, _, us₅, _, hinject, hpure, rfl⟩ := bind_returns.mp h₄
  obtain ⟨rfl, rfl, rfl⟩ := pure_returns.mp hpure
  exact ⟨strver, hasModulePow, deps, s, t, u, us₁, us₂, us₃ ++ us₄, us₅, hconfigure, hwipe,
    writeAll_returns.mpr ⟨t', us₃, us₄, hwrappers, hpreamble, rfl⟩, hinject, by simp⟩

theorem configures_inject_release {lib : Library} {r : Release} {vs : List Event}
    (h : r.FoundIn vs lib) : Configures m lib (r.inject m pk) := by
  cases lib with
  | zlib =>
    obtain rfl := h
    exact .pure _
  | libevent =>
    obtain ⟨_, _, _, _, _, _, _, rfl⟩ := h
    exact configures_injectLibevent
  | openssl =>
    obtain ⟨_, _, _, _, _, _, _, rfl⟩ := h
    exact configures_injectOpenSSL
  | tor =>
    obtain ⟨_, _, _, _, _, rfl⟩ := h
    exact configures_injectTor

/-- What a library does before its wrappers, with what it found out. -/
structure Prepared (lib : Library) (lock : Option LockJson) (wrappers : List Wrapper) (r : Release)
    (w : World σ) (vs : List Event) (w' : World σ) : Prop where
  acts : Acts (EventOf (FolderOp lib) (WrapCommand lib lock)) w vs w'
  kept : Kept vs lib wrappers
  found : r.FoundIn vs lib

theorem wrap_phases {lib : Library} {lock : Option LockJson} {w w' : World σ} {a : Str × Str}
    {vs : List Event} (h : Returns (lib.wrap m pk o linux lock) w a w' vs) :
    ∃ wrappers r t u us₁ us₂ us₃, Prepared lib lock wrappers r w us₁ t ∧
      Returns (lib.writeAll m wrappers) t () u us₂ ∧ Returns (r.inject m pk) u ⟨⟩ w' us₃ ∧
      vs = us₁ ++ (us₂ ++ us₃) := by
  have hacts := acts_composes (σ := σ) (EventOf (FolderOp lib) (WrapCommand lib lock))
  have hleft : ∀ xs ys : List Event, ∀ e ∈ xs, e ∈ xs ++ ys := fun xs ys e he => List.mem_append_left ys he
  cases lib with
  | zlib =>
    obtain ⟨⟨strver, commit⟩, s, us₁, _, hcheckout, h₁, rfl⟩ := bind_returns.mp h
    obtain ⟨files, t, us₂, _, hwipe, h₂, rfl⟩ := bind_returns.mp h₁
    obtain ⟨_, t', us₃, _, hwrappers, h₃, rfl⟩ := bind_returns.mp h₂
    obtain ⟨_, u, us₄, _, hpreamble, hpure, rfl⟩ := bind_returns.mp h₃
    obtain ⟨-, rfl, rfl⟩ := pure_returns.mp hpure
    refine ⟨zlibWrappers files, .zlib, t, w', us₁ ++ us₂, us₃ ++ us₄, [], ⟨?_, ?_, rfl⟩,
      writeAll_returns.mpr ⟨t', us₃, us₄, hwrappers, hpreamble, rfl⟩, pure_returns.mpr ⟨rfl, rfl, rfl⟩,
      by simp⟩
    · exact hacts.trans (Along.returns (Uses.along prepares_checkoutZlib) hcheckout)
        (Along.returns (Uses.along prepares_wipeZlib) hwipe)
    · exact ⟨files, List.mem_append_right _ (wipeZlib_returns hwipe), rfl⟩
  | libevent =>
    obtain ⟨numver, strver, deps, s, t, u, us₁, us₂, us₃, us₄, hconfigure, hwipe, hwrite, hinject, rfl⟩ :=
      wrapLibevent_returns h
    obtain ⟨out, fs, conf, ok, hran, hread, hnum, hstr, hdeps, -, -⟩ :=
      configureLibevent_returns hconfigure
    refine ⟨libeventWrappers deps, .libevent numver strver, t, u, us₁ ++ us₂, us₃, us₄,
      ⟨?_, ?_, ?_⟩, hwrite, hinject, by simp⟩
    · exact hacts.trans (Along.returns (Uses.along prepares_configureLibevent) hconfigure)
        (Along.returns (Uses.along prepares_wipeLibevent) hwipe)
    · exact ⟨out, fs, hleft _ _ _ hran, by rw [hdeps]⟩
    · exact ⟨conf, ok, numver, strver, hleft _ _ _ hread, hnum, hstr, rfl⟩
  | openssl =>
    obtain ⟨date, versionData, deps, s, t, u, us₁, us₂, us₃, us₄, hconfigure, hwipe, hwrite, hinject,
      -, rfl⟩ := wrapOpenSSL_returns h
    obtain ⟨out, fs, s', us, hran, hfound, hdeps, -, -⟩ := configureOpenSSL_returns hconfigure
    refine ⟨opensslWrappers deps, .openssl date versionData, t, u, us₁ ++ us₂, us₃, us₄,
      ⟨?_, ?_, ?_⟩, hwrite, hinject, by simp⟩
    · exact hacts.trans (Along.returns (Uses.along prepares_configureOpenSSL) hconfigure)
        (Along.returns (Uses.along prepares_wipeOpenSSL) hwipe)
    · exact ⟨out, fs, hleft _ _ _ hran, by rw [(opensslDeps_returns hdeps).1]⟩
    · exact hfound.mono (List.subset_append_left us₁ us₂)
  | tor =>
    obtain ⟨strver, hasModulePow, deps, s, t, u, us₁, us₂, us₃, us₄, hconfigure, hwipe, hwrite, hinject,
      rfl⟩ := wrapTor_returns h
    obtain ⟨out, fs, orconf, ok, hran, hread, hstr, hpow, hdeps, -⟩ := configureTor_returns hconfigure
    refine ⟨torWrappers hasModulePow deps, .tor strver, t, u, us₁ ++ us₂, us₃, us₄,
      ⟨?_, ?_, ?_⟩, hwrite, hinject, by simp⟩
    · exact hacts.trans (Along.returns (Uses.along prepares_configureTor) hconfigure)
        (Along.returns (Uses.along prepares_wipeTor) hwipe)
    · exact ⟨out, fs, orconf, ok, hleft _ _ _ hran, hleft _ _ _ hread, by rw [hpow, hdeps]⟩
    · exact ⟨orconf, ok, strver, hleft _ _ _ hread, hstr, rfl⟩

end

end GoLibtor
