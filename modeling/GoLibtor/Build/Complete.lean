import GoLibtor.Build.Headers
import GoLibtor.Build.CompiledOnce
import GoLibtor.Build.Lock

/-! When a run that ends without an error has left the whole output: the preamble and the wrappers of
each library, its configuration headers, and the files of the Go package itself. -/
namespace GoLibtor

open Text Files Transition Program

/-- No two wrappers of different sources go to one file, and none goes to that of the preamble. -/
structure Apart (wrappers : List Wrapper) : Prop where
  free : ∀ wrapper ∈ wrappers, wrapper.gofile ≠ preambleFile
  names : ∀ wrapper ∈ wrappers, ∀ wrapper' ∈ wrappers,
    wrapper.gofile = wrapper'.gofile → wrapper.file = wrapper'.file

/-- All that the function of a library is to leave. -/
structure Complete (pk : Packages) (lib : Library) (wrappers : List Wrapper) (headers : List Header)
    (vs : List Event) (fs : Store) : Prop where
  preamble : get fs (wrapperPath linux lib preambleFile) = some (lib.preamble (targetFilters linux) linux)
  each : ∀ wrapper ∈ wrappers, get fs (wrapperPath linux lib wrapper.gofile) =
    some (lib.template (targetFilters linux) wrapper.file)
  some : wrappers ≠ []
  configured : ∀ header ∈ headers, header.Holds pk vs fs

/-- The files of the Go package that come from no library. -/
def entrypoints : List Header :=
  [.copied ["build".toList, "libtor_preamble.go.in".toList] ["libtor".toList, "libtor_preamble.go".toList],
    .copied ["build".toList, "libtor_external.go.in".toList] ["libtor.go".toList],
    .copied ["build".toList, "libtor_internal.go.in".toList] ["libtor".toList, "libtor.go".toList]]

/-! ### What the writes of a library leave -/

theorem wrapperPath_eq (lib : Library) (gofile : Str) :
    wrapperPath linux lib gofile = ["libtor".toList, baseName lib gofile] := by
  simp only [wrapperPath, baseName, List.append_assoc]
  rfl

theorem wrapperPath_inj {lib lib' : Library} {gofile gofile' : Str}
    (h : wrapperPath linux lib gofile = wrapperPath linux lib' gofile') : lib = lib' ∧ gofile = gofile' := by
  rw [wrapperPath_eq, wrapperPath_eq, List.cons.injEq, List.cons.injEq] at h
  exact baseName_inj h.2.1

theorem preamble_written (fs : Store) (lib : Library) (wrappers : List Wrapper) :
    get (puts fs (libraryWrites linux lib wrappers)) (wrapperPath linux lib preambleFile) =
      some (lib.preamble (targetFilters linux) linux) :=
  get_puts_last (by simp)

/-- The wrappers all have their own text when the writes are over exactly when they are apart. -/
theorem wrappers_written (fs : Store) (lib : Library) (wrappers : List Wrapper) :
    (∀ wrapper ∈ wrappers, get (puts fs (libraryWrites linux lib wrappers))
        (wrapperPath linux lib wrapper.gofile) = some (lib.template (targetFilters linux) wrapper.file)) ↔
      Apart wrappers := by
  constructor
  · intro hall
    refine ⟨?_, ?_⟩
    · intro wrapper hwrapper hname
      have htext := hall wrapper hwrapper
      rw [hname, preamble_written] at htext
      exact preamble_ne_template _ _ _ _ _ (Option.some.inj htext)
    · intro wrapper hwrapper wrapper' hwrapper' hname
      have htext := hall wrapper hwrapper
      rw [hname, hall wrapper' hwrapper'] at htext
      exact (template_inj (Option.some.inj htext)).2.symm
  · intro hapart wrapper hwrapper
    apply get_puts_of_mem
    · exact mem_libraryWrites.mpr (Or.inl ⟨wrapper, hwrapper, rfl, rfl⟩)
    · intro ⟨p, c⟩ hmem hp
      obtain rfl : p = wrapperPath linux lib wrapper.gofile := hp
      rcases mem_libraryWrites.mp hmem with ⟨wrapper', hwrapper', hpath, hc⟩ | ⟨hpath, -⟩
      · have hname := (wrapperPath_inj hpath).2
        rw [hapart.names wrapper hwrapper wrapper' hwrapper' hname]
        exact hc
      · exact absurd (wrapperPath_inj hpath).2 (hapart.free wrapper hwrapper)

section

variable {σ A : Type} {m : Machine σ} {pk : Packages} {o : Options} {lib : Library}

/-! ### One library -/

theorem config_ne_libtor (lib : Library) : some lib.config ≠ some "libtor".toList := by
  cases lib <;> decide

theorem inject_keeps {r : Release} {us : List Event} (hfound : r.FoundIn us lib) {p : Path}
    (hp : p.head? = some "libtor".toList) : Along (Keeps p) (r.inject m pk) := by
  refine Uses.keeps (configures_inject_release hfound) ?_ fun _ hc => hc.elim
  intro op hop q hq
  refine not_prefix_of_head (hop.2 q hq) ?_
  rw [hp]
  exact (config_ne_libtor lib).symm

/-- What the function of a library leaves in `libtor` is what it writes, provided that nothing it does
not look at failed, and its configuration headers hold. -/
theorem wrap_written {lock : Option LockJson} {w w' : World σ} {a : Str × Str} {vs : List Event}
    (h : Returns (lib.wrap m pk o linux lock) w a w' vs) (hvs : Undisturbed vs) :
    ∃ (wrappers : List Wrapper) (r : Release) (fs : Store), Kept vs lib wrappers ∧ r.FoundIn vs lib ∧
      (∀ gofile, get w'.files (wrapperPath linux lib gofile) =
        get (puts fs (libraryWrites linux lib wrappers)) (wrapperPath linux lib gofile)) ∧
      ∀ header ∈ r.headers (present w'.files configurationPath), header.Holds pk vs w'.files := by
  obtain ⟨wrappers, r, t, u, us₁, us₂, us₃, hprepared, hwrite, hinject, rfl⟩ := wrap_phases h
  have hleft : us₁ ⊆ us₁ ++ (us₂ ++ us₃) := List.subset_append_left us₁ _
  have hheaders := inject_holds hprepared.found hinject hvs.right.right
  refine ⟨wrappers, r, t.files, hprepared.kept.mono hleft, hprepared.found.mono hleft, ?_, ?_⟩
  · intro gofile
    rw [← writeAll_puts hwrite hvs.right.left]
    exact Along.returns (inject_keeps hprepared.found rfl) hinject
  · intro header hheader
    obtain ⟨text, htext, hget⟩ := hheaders header hheader
    exact ⟨text, htext.mono fun e he => by simp [he], hget⟩

/-- The function of a library that returns has left its whole output exactly when it had sources to
wrap and their wrappers are apart, provided that nothing it does not look at failed. -/
theorem wrap_complete {lock : Option LockJson} {w w' : World σ} {a : Str × Str} {vs : List Event}
    (h : Returns (lib.wrap m pk o linux lock) w a w' vs) (hvs : Undisturbed vs) :
    ∃ (wrappers : List Wrapper) (r : Release), Kept vs lib wrappers ∧ r.FoundIn vs lib ∧
      (Complete pk lib wrappers (r.headers (present w'.files configurationPath)) vs w'.files ↔
        wrappers ≠ [] ∧ Apart wrappers) := by
  obtain ⟨wrappers, r, fs, hkept, hfound, hlibtor, hheaders⟩ := wrap_written h hvs
  refine ⟨wrappers, r, hkept, hfound, ?_⟩
  constructor
  · intro hcomplete
    refine ⟨hcomplete.some, (wrappers_written fs lib wrappers).mp ?_⟩
    intro wrapper hwrapper
    rw [← hlibtor]
    exact hcomplete.each wrapper hwrapper
  · intro ⟨hsome, hapart⟩
    refine ⟨?_, ?_, hsome, hheaders⟩
    · rw [hlibtor]
      exact preamble_written fs lib wrappers
    · intro wrapper hwrapper
      rw [hlibtor]
      exact (wrappers_written fs lib wrappers).mpr hapart wrapper hwrapper

/-! ### What comes after a library -/

/-- Where a library puts its output. -/
def Library.Owns (lib : Library) (p : Path) : Prop :=
  (∃ gofile, p = wrapperPath linux lib gofile) ∨ p.head? = some lib.config

theorem headers_owned {r : Release} {us : List Event} (hfound : r.FoundIn us lib) (configured : Bool) :
    ∀ header ∈ r.headers configured, lib.Owns header.dst := by
  have hall : ∀ p ∈ (r.headers configured).map Header.dst, p.head? = some lib.config := by
    unfold Release.headers
    cases lib with
    | zlib =>
      obtain rfl := hfound
      intro p hp
      cases hp
    | libevent =>
      obtain ⟨_, _, _, _, _, _, _, rfl⟩ := hfound
      simp only [renderedAll_dst, List.mem_map]
      intro p ⟨name, _, hp⟩
      rw [← hp]
      rfl
    | openssl =>
      obtain ⟨_, _, _, _, _, _, _, rfl⟩ := hfound
      simp only [List.map_append, copiedAll_dst, renderedAll_dst, configurationHeaders_dst, List.mem_append,
        List.mem_map]
      intro p hp
      rcases hp with ⟨name, _, hp⟩ | ⟨name, _, hp⟩ | ⟨name, _, hp⟩ | ⟨name, _, hp⟩
      all_goals
        rw [← hp]
        rfl
    | tor =>
      obtain ⟨_, _, _, _, _, rfl⟩ := hfound
      simp only [List.map_append, copiedAll_dst, renderedAll_dst, List.mem_append, List.mem_map]
      intro p hp
      rcases hp with ⟨name, _, hp⟩ | ⟨name, _, hp⟩
      all_goals
        rw [← hp]
        rfl
  intro header hheader
  exact Or.inr (hall _ (List.mem_map_of_mem hheader))

/-- The output of a library stays complete, or incomplete, while nobody touches it. -/
theorem complete_congr {wrappers : List Wrapper} {headers : List Header} {vs : List Event} {fs fs' : Store}
    (howned : ∀ header ∈ headers, lib.Owns header.dst) (hkeep : ∀ p, lib.Owns p → get fs' p = get fs p) :
    Complete pk lib wrappers headers vs fs' ↔ Complete pk lib wrappers headers vs fs := by
  have hwrapper : ∀ gofile, get fs' (wrapperPath linux lib gofile) =
      get fs (wrapperPath linux lib gofile) := fun gofile => hkeep _ (Or.inl ⟨gofile, rfl⟩)
  constructor
  · intro h
    refine ⟨hwrapper _ ▸ h.preamble, fun wrapper hw => hwrapper _ ▸ h.each wrapper hw, h.some, ?_⟩
    intro header hheader
    obtain ⟨text, htext, hget⟩ := h.configured header hheader
    exact ⟨text, htext, hkeep _ (howned header hheader) ▸ hget⟩
  · intro h
    refine ⟨(hwrapper _).trans h.preamble, fun wrapper hw => (hwrapper _).trans (h.each wrapper hw), h.some, ?_⟩
    intro header hheader
    obtain ⟨text, htext, hget⟩ := h.configured header hheader
    exact ⟨text, htext, (hkeep _ (howned header hheader)).trans hget⟩

theorem Library.Owns.head {p : Path} (h : lib.Owns p) :
    p.head? = some "libtor".toList ∨ p.head? = some lib.config := by
  rcases h with ⟨gofile, rfl⟩ | h
  · exact Or.inl rfl
  · exact Or.inr h

theorem Library.Owns.head_ne {p : Path} (h : lib.Owns p) {top : Str} (hlibtor : top ≠ "libtor".toList)
    (hconfig : top ≠ lib.config) : p.head? ≠ some top := by
  intro htop
  rcases h.head with hp | hp
  · exact hlibtor (Option.some.inj (htop.symm.trans hp))
  · exact hconfig (Option.some.inj (htop.symm.trans hp))

/-- A library leaves the output of the others alone. -/
theorem wraps_keeps_owned {lib' : Library} (hne : lib' ≠ lib) {lock : Option LockJson} {q : Gen σ A}
    (h : Wraps m lib' lock q) {p : Path} (hp : lib.Owns p) : Along (Keeps p) q := by
  refine Wraps.keeps h ?_ ?_ ?_ ?_
  · exact hp.head_ne (by decide) (by cases lib <;> decide)
  · exact hp.head_ne (by decide) (by cases lib <;> decide)
  · refine hp.head_ne (fun heq => config_ne_libtor lib' (congrArg some heq)) ?_
    intro heq
    exact hne (library_name_inj (List.append_cancel_right heq))
  · intro gofile hbelow
    rcases hp with ⟨gofile', rfl⟩ | hp
    · exact hne (wrapperPath_inj (hbelow.eq_of_length rfl)).1
    · have hhead : p.head? ≠ some "libtor".toList := by
        rw [hp]
        exact config_ne_libtor lib
      exact not_prefix_of_head rfl hhead hbelow

theorem wrap_keeps_owned {lib' : Library} (hne : lib' ≠ lib) {lock : Option LockJson} {w w' : World σ}
    {a : Str × Str} {vs : List Event} (h : Returns (lib'.wrap m pk o linux lock) w a w' vs) {p : Path}
    (hp : lib.Owns p) : get w'.files p = get w.files p :=
  Along.returns (wraps_keeps_owned hne (wraps_wrap lib' lock) hp) h

/-- The output of a library is at the end of all libraries what it was at the end of its own function. -/
theorem wrapAll_keeps_owned {currentLock lock : Option LockJson} {w w' : World σ} {v : Versions}
    {vs : List Event} (h : Returns (wrapAll m pk o linux currentLock lock) w v w' vs) (lib : Library) :
    ∃ s t us, Returns (lib.wrap m pk o linux (o.lockFor currentLock lock lib)) s (v.of lib) t us ∧
      us ⊆ vs ∧ ∀ p, lib.Owns p → get w'.files p = get t.files p := by
  obtain ⟨w₁, w₂, w₃, us₁, us₂, us₃, us₄, h₁, h₂, h₃, h₄, rfl⟩ := wrapAll_returns h
  cases lib with
  | zlib =>
    refine ⟨w, w₁, us₁, h₁, List.subset_append_left us₁ _, ?_⟩
    intro p hp
    rw [wrap_keeps_owned (by decide) h₄ hp, wrap_keeps_owned (by decide) h₃ hp,
      wrap_keeps_owned (by decide) h₂ hp]
  | libevent =>
    refine ⟨w₁, w₂, us₂, h₂, fun e he => by simp [he], ?_⟩
    intro p hp
    rw [wrap_keeps_owned (by decide) h₄ hp, wrap_keeps_owned (by decide) h₃ hp]
  | openssl =>
    refine ⟨w₂, w₃, us₃, h₃, fun e he => by simp [he], ?_⟩
    intro p hp
    rw [wrap_keeps_owned (by decide) h₄ hp]
  | tor => exact ⟨w₃, w', us₄, h₄, fun e he => by simp [he], fun p _ => rfl⟩

/-! ### What `main` does around the libraries -/

/-- The operation changes nothing at or above a path. -/
def Op.Avoids (p : Path) (op : Op) : Prop := ∀ r, op.changes = some r → ¬ r <+: p

theorem avoids_look {p : Path} {op : Op} (hc : op.changes = none) : op.Avoids p := by
  intro r hr
  rw [hc] at hr
  cases hr

theorem avoids_writeFile {p q : Path} (h : ¬ q <+: p) (data : Str) : (Op.writeFile q data).Avoids p := by
  intro r hr
  rw [← Option.some.inj hr]
  exact h

theorem keeps_of_avoids {p : Path} {q : Gen σ A} (h : Uses m (Op.Avoids p) (fun _ => False) q) :
    Along (Keeps p) q :=
  Uses.keeps h (fun _ hop => hop) fun _ hc => hc.elim

theorem keeps_copyBuildFile {name : String} {dst p : Path} (h : ¬ dst <+: p) :
    Along (Keeps p) (copyBuildFile m name dst) :=
  keeps_of_avoids (uses_copyBuildFile (fun _ => avoids_look) (avoids_writeFile h))

theorem keeps_copyEntrypoints {p : Path} (hgo : ¬ ["libtor.go".toList] <+: p)
    (hlibtor : ¬ ["libtor".toList, "libtor.go".toList] <+: p) : Along (Keeps p) (copyEntrypoints m) :=
  along_bind (keeps_composes p) (keeps_copyBuildFile hgo) fun _ _ _ _ _ => keeps_copyBuildFile hlibtor

theorem keeps_update {p : Path} (v : Versions) (hreadme : p.head? ≠ some "README.md".toList)
    (hlock : p.head? ≠ some "lock.json".toList) : Along (Keeps p) (update m pk o v) := by
  apply keeps_of_avoids
  unfold update
  split
  · refine .bind (uses_writeReadme (fun _ => avoids_look) ?_ v) fun _ => ?_
    · exact avoids_writeFile (not_prefix_of_head rfl hreadme)
    · exact .bind (uses_act _ (avoids_writeFile (not_prefix_of_head rfl hlock) _)) fun err => uses_ignore err
  · exact .pure _

variable (pk) in
/-- A file of the build folder that is copied undisturbed. -/
theorem copyBuildFile_holds {name : String} {dst : Path} {w w' : World σ} {vs : List Event}
    (h : Returns (copyBuildFile m name dst) w () w' vs) (hvs : Undisturbed vs) (hdst : isOutput dst = true)
    (hunchecked : isChecked dst = false) :
    (Header.copied ["build".toList, name.toList] dst).Holds pk vs w'.files := by
  obtain ⟨read, s, us, _, hread, h₁, rfl⟩ := bind_returns.mp h
  obtain ⟨err, t, us', _, hwrite, hignore, rfl⟩ := bind_returns.mp h₁
  obtain ⟨rfl, rfl⟩ := ignore_returns.mp hignore
  obtain ⟨-, hevent⟩ := readFile_undisturbed hread hvs.left rfl
  obtain ⟨-, hfiles⟩ := writeFile_undisturbed hwrite hvs.right.left hdst hunchecked
  refine ⟨read.1, ?_, ?_⟩
  · rw [hevent]
    exact List.mem_append_left _ (List.mem_singleton.mpr rfl)
  · rw [hfiles, get_put]
    exact if_pos rfl

theorem Header.Holds.later {header : Header} {us vs : List Event} {fs fs' : Store}
    (h : header.Holds pk us fs) (hsub : us ⊆ vs) (hkeep : get fs' header.dst = get fs header.dst) :
    header.Holds pk vs fs' := by
  obtain ⟨text, htext, hget⟩ := h
  exact ⟨text, htext.mono hsub, hkeep.trans hget⟩

/-- After the copies only the readme and the lock are written. -/
theorem after_copies {v : Versions} {t₁ t₂ w' : World σ} {us₄ us₅ : List Event}
    (hbuild : Returns (build m o) t₁ () t₂ us₄) (hupdate : Returns (update m pk o v) t₂ () w' us₅) {p : Path}
    (hreadme : p.head? ≠ some "README.md".toList) (hlock : p.head? ≠ some "lock.json".toList) :
    get w'.files p = get t₁.files p := by
  have hupdated : get w'.files p = get t₂.files p := Along.returns (keeps_update v hreadme hlock) hupdate
  exact hupdated.trans (Along.returns (keeps_build p) hbuild)

/-- A file of `libtor` whose name does not begin with that of the target is no wrapper. -/
theorem wrapper_apart {name : Str} (hname : name.take 3 ≠ "lin".toList) (lib : Library) (gofile : Str) :
    ¬ wrapperPath linux lib gofile <+: ["libtor".toList, name] := by
  intro h
  have heq := h.eq_of_length rfl
  rw [wrapperPath_eq, List.cons.injEq, List.cons.injEq] at heq
  apply hname
  rw [← heq.2.1]
  rfl

theorem Library.Owns.not_entrypoint {p : Path} (h : lib.Owns p) {name : Str}
    (hname : name.take 3 ≠ "lin".toList) : ¬ ["libtor".toList, name] <+: p := by
  intro hbelow
  rcases h with ⟨gofile, rfl⟩ | h
  · have heq := hbelow.eq_of_length rfl
    exact wrapper_apart hname lib gofile (heq.symm ▸ List.prefix_rfl)
  · refine not_prefix_of_head rfl ?_ hbelow
    rw [h]
    exact config_ne_libtor lib

variable (pk) in
/-- The first file of the package is there when the preparation is over. -/
theorem prepare_holds {w w' : World σ} {vs : List Event} (h : Returns (prepare m o linux) w () w' vs)
    (hvs : Undisturbed vs) : (Header.copied ["build".toList, "libtor_preamble.go.in".toList]
      ["libtor".toList, "libtor_preamble.go".toList]).Holds pk vs w'.files := by
  obtain ⟨_, r₁, us₁, _, _, h₁, rfl⟩ := bind_returns.mp h
  obtain ⟨_, r₂, us₂, _, _, h₂, rfl⟩ := bind_returns.mp h₁
  obtain ⟨_, r₃, us₃, _, _, h₃, rfl⟩ := bind_returns.mp h₂
  obtain ⟨_, r₄, us₄, _, hcopy, h₄, rfl⟩ := bind_returns.mp h₃
  obtain ⟨err, r₅, us₅, _, hmkdir, hmust, rfl⟩ := bind_returns.mp h₄
  obtain ⟨-, rfl, rfl⟩ := must_returns.mp hmust
  have hcopied := copyBuildFile_holds pk hcopy hvs.right.right.right.left rfl rfl
  exact hcopied.later (fun e he => by simp [he]) (congrArg (get · _) (mkdirAll_files hmkdir))

/-- In a run of `main` that completes, the output of every library is at the end what its function left. -/
theorem main_wrapped {w w' : World σ} {v : Versions} {vs : List Event} (h : Returns (main m pk o) w v w' vs)
    (lib : Library) :
    ∃ (lock : Option LockJson) (s t : World σ) (us : List Event),
      Returns (lib.wrap m pk o linux lock) s (v.of lib) t us ∧ us ⊆ vs ∧
      ∀ p, lib.Owns p → get w'.files p = get t.files p := by
  obtain ⟨_, _, _, _, _, _, _, t₁, t₂, us₁, us₂, us₃, hgenerate, hbuild, hupdate, rfl⟩ := main_returns h
  obtain ⟨currentLock, lock, _, _, t, xs₁, xs₂, xs₃, xs₄, -, -, -, hwrap, hcopy, rfl⟩ :=
    generate_returns hgenerate
  obtain ⟨w₁, w₂, us, hlib, hfew, hkeep⟩ := wrapAll_keeps_owned hwrap lib
  refine ⟨_, w₁, w₂, us, hlib, fun e he => by simp [hfew he], ?_⟩
  intro p hp
  have hgo : ¬ ["libtor.go".toList] <+: p :=
    not_prefix_of_head rfl (hp.head_ne (by decide) (by cases lib <;> decide))
  have hcopied : get t₁.files p = get t.files p :=
    Along.returns (keeps_copyEntrypoints hgo (hp.not_entrypoint (by decide))) hcopy
  have hfinal : get w'.files p = get t₁.files p :=
    after_copies hbuild hupdate (hp.head_ne (by decide) (by cases lib <;> decide))
      (hp.head_ne (by decide) (by cases lib <;> decide))
  rw [hfinal, hcopied, hkeep p hp]

theorem main_library {w w' : World σ} {v : Versions} {vs : List Event} (h : Returns (main m pk o) w v w' vs)
    (hvs : Undisturbed vs) (lib : Library) :
    ∃ (lock : Option LockJson) (s t : World σ) (us : List Event) (wrappers : List Wrapper) (r : Release),
      Returns (lib.wrap m pk o linux lock) s (v.of lib) t us ∧ us ⊆ vs ∧ Kept us lib wrappers ∧
      r.FoundIn us lib ∧
      (Complete pk lib wrappers (r.headers (present t.files configurationPath)) us w'.files ↔
        wrappers ≠ [] ∧ Apart wrappers) := by
  obtain ⟨lock, s, t, us, hlib, hall, hkeep⟩ := main_wrapped h lib
  obtain ⟨wrappers, r, hkept, hfound, hcomplete⟩ := wrap_complete hlib (hvs.mono hall)
  refine ⟨lock, s, t, us, wrappers, r, hlib, hall, hkept, hfound, ?_⟩
  rw [← hcomplete]
  exact complete_congr (headers_owned hfound _) hkeep

/-- The files of the package itself are there as they were read. -/
theorem main_entrypoints {w w' : World σ} {v : Versions} {vs : List Event}
    (h : Returns (main m pk o) w v w' vs) (hvs : Undisturbed vs) :
    ∀ header ∈ entrypoints, header.Holds pk vs w'.files := by
  obtain ⟨_, _, _, _, _, _, _, t₁, t₂, us₁, us₂, us₃, hgenerate, hbuild, hupdate, hvs'⟩ := main_returns h
  obtain ⟨currentLock, lock, _, s, t, ys₁, ys₂, ys₃, ys₄, -, -, hprepare, hwrap, hcopy, hus⟩ :=
    generate_returns hgenerate
  have hfirst : ys₂ ⊆ vs := fun e he => by simp [hvs', hus, he]
  have hlast : ys₄ ⊆ vs := fun e he => by simp [hvs', hus, he]
  have hpreamble := prepare_holds pk hprepare (hvs.mono hfirst)
  have hwrapped : get t.files ["libtor".toList, "libtor_preamble.go".toList] =
      get s.files ["libtor".toList, "libtor_preamble.go".toList] := by
    refine Along.returns (along_wrapAll (keeps_composes _) ?_) hwrap
    intro lib T q hq
    refine Wraps.keeps hq (by decide) (by decide) ?_ (wrapper_apart (by decide) lib)
    exact (config_ne_libtor lib).symm
  have hcopied : get t₁.files ["libtor".toList, "libtor_preamble.go".toList] =
      get t.files ["libtor".toList, "libtor_preamble.go".toList] :=
    Along.returns (keeps_copyEntrypoints (by decide) (by decide)) hcopy
  obtain ⟨_, r, xs, xs', hexternal, hinternal, rfl⟩ := bind_returns.mp hcopy
  have hkept : get t₁.files ["libtor.go".toList] = get r.files ["libtor.go".toList] :=
    Along.returns (keeps_copyBuildFile (by decide)) hinternal
  have hexternal := copyBuildFile_holds pk hexternal (hvs.mono hlast).left rfl rfl
  have hinternal := copyBuildFile_holds pk hinternal (hvs.mono hlast).right rfl rfl
  have hfinal : ∀ p : Path, p.head? ≠ some "README.md".toList → p.head? ≠ some "lock.json".toList →
      get w'.files p = get t₁.files p := fun p => after_copies hbuild hupdate
  have hpreamble := hpreamble.later hfirst
    ((hfinal _ (by decide) (by decide)).trans (hcopied.trans hwrapped))
  have hexternal := hexternal.later (fun e he => hlast (List.mem_append_left xs' he))
    ((hfinal _ (by decide) (by decide)).trans hkept)
  have hinternal := hinternal.later (fun e he => hlast (List.mem_append_right xs he))
    (hfinal _ (by decide) (by decide))
  unfold entrypoints
  simp only [List.forall_mem_cons, List.not_mem_nil, false_implies, implies_true, and_true]
  exact ⟨hpreamble, hexternal, hinternal⟩

/-- A function of a library that returns no error, and a run of `main` that ends without a panic, have
left the whole output exactly when each library had sources to wrap and their wrappers are apart,
provided that no write of the output and no read of a template failed. -/
theorem complete_output (m : Machine σ) (pk : Packages) (o : Options) :
    (∀ (lib : Library) (lock : Option LockJson) (w w' : World σ) (a : Str × Str) (vs : List Event),
      Returns (lib.wrap m pk o linux lock) w a w' vs → Undisturbed vs →
      ∃ (wrappers : List Wrapper) (r : Release), Kept vs lib wrappers ∧ r.FoundIn vs lib ∧
        (Complete pk lib wrappers (r.headers (present w'.files configurationPath)) vs w'.files ↔
          wrappers ≠ [] ∧ Apart wrappers)) ∧
    ∀ (w w' : World σ) (v : Versions) (vs : List Event), Returns (main m pk o) w v w' vs → Undisturbed vs →
      (∀ lib : Library, ∃ (lock : Option LockJson) (s t : World σ) (us : List Event)
        (wrappers : List Wrapper) (r : Release),
        Returns (lib.wrap m pk o linux lock) s (v.of lib) t us ∧ us ⊆ vs ∧ Kept us lib wrappers ∧
        r.FoundIn us lib ∧
        (Complete pk lib wrappers (r.headers (present t.files configurationPath)) us w'.files ↔
          wrappers ≠ [] ∧ Apart wrappers)) ∧
      ∀ header ∈ entrypoints, header.Holds pk vs w'.files := by
  constructor
  · intro lib lock w w' a vs h hvs
    exact wrap_complete h hvs
  · intro w w' v vs h hvs
    exact ⟨main_library h hvs, main_entrypoints h hvs⟩

end

/-! ### Runs on the small example -/

/-- The templates of the output, each of them empty. -/
def templates : Store :=
  (entrypoints ++ ([.libevent [] [], .openssl [] [], .tor []] : List Release).flatMap
    (Release.headers false)).filterMap fun header =>
      match header with
      | .copied src _ => some (src, [])
      | .rendered _ src _ => some (src, [])
      | .written _ _ => none

def smallComplete : Outcome (World Unit) Event Stop Versions :=
  (main (upstreams small) plain (onLinux true)).run ⟨(), templates⟩

theorem smallComplete_undisturbed :
    smallComplete.result = .ok smallVersions ∧ smallComplete.trace.all Event.undisturbed = true := by
  decide +kernel

theorem complete_output_small :
    (∀ lib : Library, ∃ (lock : Option LockJson) (s t : World Unit) (us : List Event)
      (wrappers : List Wrapper) (r : Release),
      Returns (lib.wrap (upstreams small) plain (onLinux true) linux lock) s (smallVersions.of lib) t us ∧
      Undisturbed us ∧ Kept us lib wrappers ∧ r.FoundIn us lib ∧
      (Complete plain lib wrappers (r.headers (present t.files configurationPath)) us t.files ↔
        wrappers ≠ [] ∧ Apart wrappers)) ∧
    ∀ header ∈ entrypoints, header.Holds plain smallComplete.trace smallComplete.state.files := by
  have hvs : Undisturbed smallComplete.trace := List.all_eq_true.mp smallComplete_undisturbed.2
  obtain ⟨hwrap, hmain⟩ := complete_output (upstreams small) plain (onLinux true)
  obtain ⟨hlibrary, hentrypoints⟩ :=
    hmain _ _ _ _ (returns_of_result smallComplete_undisturbed.1) hvs
  refine ⟨?_, hentrypoints⟩
  intro lib
  obtain ⟨lock, s, t, us, -, -, hreturns, hsub, -⟩ := hlibrary lib
  obtain ⟨wrappers, r, hkept, hfound, hcomplete⟩ := hwrap lib lock s t _ us hreturns (hvs.mono hsub)
  exact ⟨lock, s, t, us, wrappers, r, hreturns, hvs.mono hsub, hkept, hfound, hcomplete⟩

/-- A disk that has no room left for the preamble of zlib. -/
def fullDisk : Machine Unit :=
  { upstreams small with
    fault := fun _ op =>
      (if op.changes = some (wrapperPath linux .zlib preambleFile) then some ⟨none, fun _ => false⟩ else none,
        ()) }

def wrapFull : Outcome (World Unit) Event Stop (Str × Str) :=
  (Library.zlib.wrap fullDisk plain (onLinux true) linux none).run ⟨(), []⟩

def mainFull : Outcome (World Unit) Event Stop Versions :=
  (main fullDisk plain (onLinux true)).run ⟨(), templates⟩

theorem full_disk : wrapFull.result = .ok smallVersions.zlib ∧
    get wrapFull.state.files (wrapperPath linux .zlib preambleFile) = none ∧
    mainFull.result = .ok smallVersions ∧
    get mainFull.state.files (wrapperPath linux .zlib preambleFile) = none := by
  decide +kernel

/-- The preamble is not there, and neither the function of zlib nor `main` tells. -/
theorem incomplete_output :
    (∃ a w' vs, Returns (Library.zlib.wrap fullDisk plain (onLinux true) linux none) ⟨(), []⟩ a w' vs ∧
      ∀ wrappers headers, ¬ Complete plain .zlib wrappers headers vs w'.files) ∧
    ∃ v w' vs, Returns (main fullDisk plain (onLinux true)) ⟨(), templates⟩ v w' vs ∧
      ∀ wrappers headers us, ¬ Complete plain .zlib wrappers headers us w'.files := by
  obtain ⟨hwrap, hgone, hmain, hgone'⟩ := full_disk
  refine ⟨⟨_, _, _, returns_of_result hwrap, ?_⟩, ⟨_, _, _, returns_of_result hmain, ?_⟩⟩
  · intro wrappers headers hcomplete
    exact Option.some_ne_none _ (hcomplete.preamble.symm.trans hgone)
  · intro wrappers headers us hcomplete
    exact Option.some_ne_none _ (hcomplete.preamble.symm.trans hgone')

end GoLibtor
