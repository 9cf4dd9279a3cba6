import GoLibtor.Build.Phases

/-! What the phases of a library that write leave behind when no write and no read of a template fails:
the wrappers with the preamble, and the configuration headers, each rendered from its template. -/
namespace GoLibtor

open Text Files Transition Program

/-- Where the output goes: `libtor`, `libtor.go` and the configuration headers. -/
def isOutput (p : Path) : Bool :=
  ["libtor".toList, "libtor.go".toList, Library.libevent.config, Library.openssl.config,
    Library.tor.config].any fun top => p.head? == some top

/-- A write of the output whose error ends the function of OpenSSL. The third header of OpenSSL 3,
`opensslconf.h`, is written elsewhere without a look at the error. -/
def isChecked : Path → Bool
  | [top, name] => top == "libtor".toList && hasPrefix name "linux_openssl_".toList
  | [top, dir, name] => top == Library.openssl.config && dir == "openssl".toList &&
      (name == "configuration.h".toList || name == "opensslv.h".toList)
  | _ => false

/-- Where the templates of the output come from. -/
def isTemplate (p : Path) : Bool := p.head? == some "config".toList || p.head? == some "build".toList

/-- The header that tells an OpenSSL that configures its own headers. -/
def configurationPath : Path :=
  Library.openssl.folder ++ ["include".toList, "openssl".toList, "configuration.h".toList]

/-- The event is no failure whose error the code may drop. -/
def Event.undisturbed : Event → Bool
  | .did (.writeFile p _) d => !isOutput p || isChecked p || d.isNone
  | .did (.stat p) d => !decide (p = configurationPath) || d.isNone
  | .read p _ ok => !isTemplate p || ok
  | _ => true

/-- Every write of an output that is not checked, every read of a template and the look for
`configuration.h` succeeded. -/
def Undisturbed (vs : List Event) : Prop := ∀ e ∈ vs, e.undisturbed = true

theorem Undisturbed.mono {us vs : List Event} (h : Undisturbed vs) (hsub : us ⊆ vs) : Undisturbed us :=
  fun e he => h e (hsub he)

theorem Undisturbed.left {us vs : List Event} (h : Undisturbed (us ++ vs)) : Undisturbed us :=
  h.mono (List.subset_append_left us vs)

theorem Undisturbed.right {us vs : List Event} (h : Undisturbed (us ++ vs)) : Undisturbed vs :=
  h.mono (List.subset_append_right us vs)

/-! ### The headers -/

/-- A file of the output: copied from another file, rendered from a template, or a fixed text. -/
inductive Header
  | copied (src dst : Path)
  | rendered (data : List (Str × Str)) (src dst : Path)
  | written (text : Str) (dst : Path)

def Header.dst : Header → Path
  | .copied _ dst => dst
  | .rendered _ _ dst => dst
  | .written _ dst => dst

/-- The whole text of the header, from what was read. -/
def Header.Text (pk : Packages) (vs : List Event) : Header → Str → Prop
  | .copied src _, text => Event.read src text true ∈ vs
  | .rendered data src _, text => ∃ blob execute, Event.read src blob true ∈ vs ∧
      pk.template blob = some execute ∧ execute data = (text, true)
  | .written fixed _, text => text = fixed

def Header.Holds (pk : Packages) (vs : List Event) (fs : Store) (header : Header) : Prop :=
  ∃ text, header.Text pk vs text ∧ get fs header.dst = some text

def copiedAll (src dst : Path) (names : List Str) : List Header :=
  names.map fun name => .copied (src ++ [name]) (dst ++ [name])

def renderedAll (data : List (Str × Str)) (src dst : Path) (names : List Str) : List Header :=
  names.map fun name => .rendered data (src ++ [name]) (dst ++ [name])

/-- Headers of OpenSSL's own tree, or those of the repository for one that has none. -/
def configurationHeaders (configured : Bool) (versionData : Fields) : List Header :=
  if configured then
    [.copied (Library.openssl.folder ++ ["include".toList, "openssl".toList, "opensslconf.h".toList])
        ["openssl_config".toList, "openssl".toList, "opensslconf.h".toList],
      .copied configurationPath ["openssl_config".toList, "openssl".toList, "configuration.h".toList],
      .written (versionHeader versionData) ["openssl_config".toList, "openssl".toList, "opensslv.h".toList]]
  else copiedAll ["config".toList, "openssl".toList] ["openssl_config".toList, "openssl".toList]
    (headers "opensslconf" ["", ".x64", ".x86"])

/-- The configuration headers that the function of a library is to inject. -/
def Release.headers (configured : Bool) : Release → List Header
  | .zlib => []
  | .libevent numver strver =>
    renderedAll [("NumVer".toList, numver), ("StrVer".toList, strver)] ["config".toList, "libevent".toList]
      ["libevent_config".toList, "event2".toList] (GoLibtor.headers "event-config" allTargets)
  | .openssl date versionData =>
    copiedAll ["config".toList, "openssl".toList] ["openssl_config".toList, "crypto".toList]
        (GoLibtor.headers "dso_conf" ["", ".linux"]) ++
      (copiedAll ["config".toList, "openssl".toList] ["openssl_config".toList, "crypto".toList]
        (GoLibtor.headers "bn_conf" ["", ".x64", ".x86"]) ++
      (renderedAll [("Date".toList, date)] ["config".toList, "openssl".toList] ["openssl_config".toList]
        (GoLibtor.headers "buildinf" ["", ".x64", ".x86"]) ++ configurationHeaders configured versionData))
  | .tor strver =>
    renderedAll [("StrVer".toList, strver)] ["config".toList, "tor".toList] ["tor_config".toList]
        (GoLibtor.headers "orconfig" allTargets) ++
      copiedAll ["config".toList, "tor".toList] ["tor_config".toList] ["micro-revision.i".toList]

theorem copiedAll_dst (src dst : Path) (names : List Str) :
    (copiedAll src dst names).map Header.dst = names.map fun name => dst ++ [name] := by
  unfold copiedAll
  rw [List.map_map]
  rfl

theorem renderedAll_dst (data : List (Str × Str)) (src dst : Path) (names : List Str) :
    (renderedAll data src dst names).map Header.dst = names.map fun name => dst ++ [name] := by
  unfold renderedAll
  rw [List.map_map]
  rfl

theorem configurationHeaders_dst (configured : Bool) (versionData : Fields) :
    (configurationHeaders configured versionData).map Header.dst =
      ((if configured then ["opensslconf.h", "configuration.h", "opensslv.h"].map String.toList
        else GoLibtor.headers "opensslconf" ["", ".x64", ".x86"]).map fun name =>
          ["openssl_config".toList, "openssl".toList, name]) := by
  unfold configurationHeaders
  split
  · rfl
  · rw [copiedAll_dst]
    rfl

/-- No two headers of a library go to one place. -/
theorem headers_nodup (r : Release) (configured : Bool) : ((r.headers configured).map Header.dst).Nodup := by
  unfold Release.headers
  cases r with
  | zlib => exact List.nodup_nil
  | libevent numver strver =>
    rw [renderedAll_dst]
    decide +kernel
  | openssl date versionData =>
    simp only [List.map_append, copiedAll_dst, renderedAll_dst, configurationHeaders_dst]
    revert configured
    decide +kernel
  | tor strver =>
    rw [List.map_append, renderedAll_dst, copiedAll_dst]
    decide +kernel

theorem Header.Text.mono {pk : Packages} {us vs : List Event} {header : Header} {text : Str}
    (h : header.Text pk us text) (hsub : us ⊆ vs) : header.Text pk vs text := by
  cases header with
  | copied src dst => exact hsub h
  | rendered data src dst =>
    obtain ⟨blob, execute, hread, hrest⟩ := h
    exact ⟨blob, execute, hsub hread, hrest⟩
  | written fixed dst => exact h

/-- What a part that writes these headers does to the files. -/
def Renders (pk : Packages) (vs : List Event) (hs : List Header) (fs fs' : Store) : Prop :=
  ∃ ws, fs' = puts fs ws ∧ ws.map Prod.fst = hs.map Header.dst ∧
    ∀ header ∈ hs, ∃ text, header.Text pk vs text ∧ (header.dst, text) ∈ ws

section Renders

variable {pk : Packages} {us vs : List Event} {hs hs' : List Header} {fs fs' fs'' : Store}

theorem Renders.nil : Renders pk vs [] fs fs := ⟨[], rfl, rfl, by simp⟩

theorem Renders.append (h : Renders pk us hs fs fs') (h' : Renders pk vs hs' fs' fs'') :
    Renders pk (us ++ vs) (hs ++ hs') fs fs'' := by
  obtain ⟨ws, hfs, hkeys, htexts⟩ := h
  obtain ⟨ws', hfs', hkeys', htexts'⟩ := h'
  refine ⟨ws ++ ws', ?_, ?_, ?_⟩
  · rw [hfs', hfs, puts_append]
  · rw [List.map_append, List.map_append, hkeys, hkeys']
  intro header hmem
  rcases List.mem_append.mp hmem with hmem | hmem
  · obtain ⟨text, htext, hw⟩ := htexts header hmem
    exact ⟨text, htext.mono (List.subset_append_left us vs), List.mem_append_left ws' hw⟩
  · obtain ⟨text, htext, hw⟩ := htexts' header hmem
    exact ⟨text, htext.mono (List.subset_append_right us vs), List.mem_append_right ws hw⟩

theorem Renders.mono (h : Renders pk us hs fs fs') (hsub : us ⊆ vs) : Renders pk vs hs fs fs' := by
  obtain ⟨ws, hfs, hkeys, htexts⟩ := h
  refine ⟨ws, hfs, hkeys, ?_⟩
  intro header hmem
  obtain ⟨text, htext, hw⟩ := htexts header hmem
  exact ⟨text, htext.mono hsub, hw⟩

/-- Headers with different names all hold what was written. -/
theorem Renders.holds (h : Renders pk vs hs fs fs') (hnodup : (hs.map Header.dst).Nodup) :
    ∀ header ∈ hs, header.Holds pk vs fs' := by
  obtain ⟨ws, hfs, hkeys, htexts⟩ := h
  intro header hmem
  obtain ⟨text, htext, hw⟩ := htexts header hmem
  refine ⟨text, htext, ?_⟩
  rw [hfs]
  apply get_puts_of_mem hw
  intro w hw' hpath
  have hinj := List.inj_on_of_nodup_map (hkeys ▸ hnodup) hw' hw hpath
  rw [hinj]

/-- Headers outside a folder leave it as it is. -/
theorem Renders.within {top : Str} (h : Renders pk vs hs fs fs')
    (hhs : ∀ p ∈ hs.map Header.dst, p.head? ≠ some top) :
    Files.within (some top) fs' = Files.within (some top) fs := by
  obtain ⟨ws, hfs, hkeys, -⟩ := h
  have hws : ∀ w ∈ ws, w.1.head? ≠ some top := by
    intro w hw
    exact hhs w.1 (hkeys ▸ List.mem_map_of_mem hw)
  rw [hfs]
  clear hfs hkeys
  induction ws generalizing fs with
  | nil => rfl
  | cons w ws ih =>
    rw [puts_cons, ih fun v hv => hws v (List.mem_cons_of_mem w hv)]
    unfold Files.within put
    rw [List.filter_cons, if_neg]
    simpa using hws w List.mem_cons_self

end Renders

section

variable {σ A : Type} {m : Machine σ} {pk : Packages} {o : Options} {lib : Library}

/-! ### Reading and writing undisturbed -/

theorem readFile_undisturbed {p : Path} {w w' : World σ} {r : Str × Option Err} {vs : List Event}
    (h : Returns (readFile m p) w r w' vs) (hvs : Undisturbed vs) (hp : isTemplate p = true) :
    w'.files = w.files ∧ vs = [.read p r.1 true] := by
  obtain ⟨d, rfl, hfiles, rfl⟩ := look_returns rfl h
  have hok := hvs _ (List.mem_singleton.mpr rfl)
  change (!isTemplate p || d.isNone) = true at hok
  rw [hp] at hok
  cases d with
  | some d => cases hok
  | none => exact ⟨hfiles, rfl⟩

theorem writeFile_undisturbed {p : Path} {data : Str} {w w' : World σ} {err : Option Err} {vs : List Event}
    (h : Returns (writeFile m p data) w err w' vs) (hvs : Undisturbed vs) (hp : isOutput p = true)
    (hunchecked : isChecked p = false) : err = none ∧ w'.files = put w.files p data := by
  obtain ⟨d, -, rfl, rfl, rfl⟩ := act_returns.mp h
  have hok := hvs _ (List.mem_singleton.mpr rfl)
  change (!isOutput p || isChecked p || d.isNone) = true at hok
  rw [hp, hunchecked] at hok
  cases d with
  | some d => cases hok
  | none => exact ⟨rfl, rfl⟩

theorem mkdirAll_files {p : Path} {w w' : World σ} {err : Option Err} {vs : List Event}
    (h : Returns (mkdirAll m p) w err w' vs) : w'.files = w.files := by
  obtain ⟨d, -, hfiles, -⟩ := look_returns rfl h
  exact hfiles

theorem onError_returns {err : Option Err} {w w' : World σ} {u : Unit} {vs : List Event}
    (h : Returns (lib.onError err) w u w' vs) : w' = w ∧ vs = [] := by
  cases lib with
  | openssl => exact (check_returns.mp h).2
  | zlib => exact ignore_returns.mp (show Returns (ignore err) w u w' vs from h)
  | libevent => exact ignore_returns.mp (show Returns (ignore err) w u w' vs from h)
  | tor => exact ignore_returns.mp (show Returns (ignore err) w u w' vs from h)

/-! ### The wrappers -/

theorem wrapper_unchecked (hlib : lib ≠ .openssl) (gofile : Str) :
    isChecked (wrapperPath linux lib gofile) = false := by
  cases lib with
  | openssl => exact absurd rfl hlib
  | _ => rfl

/-- A file of a library is written, whether the library looks at the error or not. -/
theorem write_onError {gofile text : Str} {w w' : World σ} {u : Unit} {vs : List Event}
    (h : Returns (writeFile m (wrapperPath linux lib gofile) text >>= lib.onError) w u w' vs)
    (hvs : Undisturbed vs) : w'.files = put w.files (wrapperPath linux lib gofile) text := by
  obtain ⟨err, s, xs, ys, hwrite, herr, rfl⟩ := bind_returns.mp h
  by_cases hlib : lib = .openssl
  · subst hlib
    obtain ⟨rfl, rfl, -⟩ := check_returns.mp herr
    exact writeFile_ok hwrite
  · obtain ⟨-, hfiles⟩ := writeFile_undisturbed hwrite hvs.left rfl (wrapper_unchecked hlib gofile)
    obtain ⟨rfl, -⟩ := onError_returns herr
    exact hfiles

theorem writeWrappers_puts {wrappers : List Wrapper} {w w' : World σ} {u : PUnit}
    {vs : List Event} (h : Returns (writeWrappers m lib.onError linux lib wrappers) w u w' vs)
    (hvs : Undisturbed vs) : w'.files = puts w.files (wrappers.map fun wrapper =>
      (wrapperPath linux lib wrapper.gofile, lib.template (targetFilters linux) wrapper.file)) := by
  unfold writeWrappers at h
  induction wrappers generalizing w vs with
  | nil =>
    obtain ⟨rfl, -⟩ := forM_nil_returns.mp h
    rfl
  | cons wrapper wrappers ih =>
    obtain ⟨t, us, us', hone, hrest, rfl⟩ := forM_cons_returns.mp h
    rw [ih hrest hvs.right, write_onError hone hvs.left, List.map_cons, puts_cons]

theorem writeAll_puts {wrappers : List Wrapper} {w w' : World σ} {vs : List Event}
    (h : Returns (lib.writeAll m wrappers) w () w' vs) (hvs : Undisturbed vs) :
    w'.files = puts w.files (libraryWrites linux lib wrappers) := by
  obtain ⟨t, us, us', hwrappers, hpreamble, rfl⟩ := writeAll_returns.mp h
  rw [write_onError hpreamble hvs.right, writeWrappers_puts hwrappers hvs.left, libraryWrites, puts_append]
  rfl

/-! ### The headers that are injected -/

/-- A loop over templates renders one header for each name. -/
theorem inject_renders {rendered : Str → Gen σ Str} {src dst : Path} {names : List Str}
    {header : Str → Header} (hdst : ∀ name, (header name).dst = dst ++ [name])
    (hrendered : ∀ name blob s text t us, Returns (rendered blob) s text t us →
      t = s ∧ ∀ vs, Event.read (src ++ [name]) blob true ∈ vs → (header name).Text pk vs text)
    (hsrc : ∀ name, isTemplate (src ++ [name]) = true) (hout : ∀ name, isOutput (dst ++ [name]) = true)
    (hunchecked : ∀ name ∈ names, isChecked (dst ++ [name]) = false)
    {w w' : World σ} {u : PUnit} {vs : List Event}
    (h : Returns (inject m rendered src dst names) w u w' vs) (hvs : Undisturbed vs) :
    Renders pk vs (names.map header) w.files w'.files := by
  unfold inject at h
  induction names generalizing w vs with
  | nil =>
    obtain ⟨rfl, -⟩ := forM_nil_returns.mp h
    exact Renders.nil
  | cons name names ih =>
    obtain ⟨t, us, us', hone, hrest, rfl⟩ := forM_cons_returns.mp h
    obtain ⟨read, s₁, xs₁, _, hread, h₁, rfl⟩ := bind_returns.mp hone
    obtain ⟨text, s₂, xs₂, _, htext, h₂, rfl⟩ := bind_returns.mp h₁
    obtain ⟨err, s₃, xs₃, _, hwrite, hignore, rfl⟩ := bind_returns.mp h₂
    obtain ⟨rfl, rfl⟩ := ignore_returns.mp hignore
    obtain ⟨hfiles₁, hevent⟩ := readFile_undisturbed hread hvs.left.left (hsrc name)
    obtain ⟨rfl, hwhole⟩ := hrendered name _ _ _ _ _ htext
    obtain ⟨-, hfiles₃⟩ := writeFile_undisturbed hwrite hvs.left.right.right.left (hout name)
      (hunchecked name List.mem_cons_self)
    have hfirst : Renders pk (xs₁ ++ (xs₂ ++ (xs₃ ++ []))) [header name] w.files t.files := by
      refine ⟨[(dst ++ [name], text)], ?_, ?_, ?_⟩
      · rw [hfiles₃, hfiles₁]
        rfl
      · rw [List.map_singleton, List.map_singleton, hdst]
      · intro hd hmem
        rw [List.mem_singleton.mp hmem]
        refine ⟨text, hwhole _ ?_, ?_⟩
        · rw [hevent]
          exact List.mem_append_left _ (List.mem_singleton.mpr rfl)
        · rw [hdst]
          exact List.mem_singleton.mpr rfl
    exact hfirst.append
      (ih (fun name hname => hunchecked name (List.mem_cons_of_mem _ hname)) hrest hvs.right)

theorem render_returns {data : List (Str × Str)} {blob text : Str} {s t : World σ} {us : List Event}
    (h : Returns (render pk data blob) s text t us) :
    t = s ∧ ∃ execute, pk.template blob = some execute ∧ execute data = (text, true) := by
  unfold render at h
  split at h
  · exact absurd h not_fail_returns
  next execute htemplate =>
    split at h
    next whole hexecute =>
      obtain ⟨rfl, rfl, -⟩ := pure_returns.mp h
      exact ⟨rfl, execute, htemplate, hexecute⟩
    · exact absurd h not_fail_returns

theorem inject_rendered {data : List (Str × Str)} {src dst : Path} {names : List Str} {w w' : World σ}
    {u : PUnit} {vs : List Event} (h : Returns (inject m (render pk data) src dst names) w u w' vs)
    (hvs : Undisturbed vs) (hsrc : ∀ name, isTemplate (src ++ [name]) = true)
    (hout : ∀ name, isOutput (dst ++ [name]) = true)
    (hunchecked : ∀ name ∈ names, isChecked (dst ++ [name]) = false) :
    Renders pk vs (renderedAll data src dst names) w.files w'.files := by
  refine inject_renders (fun _ => rfl) ?_ hsrc hout hunchecked h hvs
  intro name blob s text t us htext
  obtain ⟨hsame, execute, htemplate, hexecute⟩ := render_returns htext
  exact ⟨hsame, fun vs hread => ⟨blob, execute, hread, htemplate, hexecute⟩⟩

variable (pk) in
theorem inject_copied {src dst : Path} {names : List Str} {w w' : World σ} {u : PUnit} {vs : List Event}
    (h : Returns (inject m pure src dst names) w u w' vs) (hvs : Undisturbed vs)
    (hsrc : ∀ name, isTemplate (src ++ [name]) = true) (hout : ∀ name, isOutput (dst ++ [name]) = true)
    (hunchecked : ∀ name ∈ names, isChecked (dst ++ [name]) = false) :
    Renders pk vs (copiedAll src dst names) w.files w'.files := by
  refine inject_renders (fun _ => rfl) ?_ hsrc hout hunchecked h hvs
  intro name blob s text t us htext
  obtain ⟨rfl, rfl, -⟩ := pure_returns.mp htext
  exact ⟨rfl, fun vs hread => hread⟩

variable (pk) in
/-- A header of the configured tree is copied, or there is an error. -/
theorem copyHeader_renders {tgtf : Path} {name : Str} {w w' : World σ} {u : Unit} {vs : List Event}
    (h : Returns (copyHeader m tgtf name) w u w' vs) :
    Renders pk vs [.copied (tgtf ++ ["include".toList, "openssl".toList, name])
      ["openssl_config".toList, "openssl".toList, name]] w.files w'.files := by
  obtain ⟨read, s₁, xs₁, _, hread, h₁, rfl⟩ := bind_returns.mp h
  obtain ⟨_, s₂, xs₂, _, hcheck, h₂, rfl⟩ := bind_returns.mp h₁
  obtain ⟨err, s₃, xs₃, _, hwrite, hcheck', rfl⟩ := bind_returns.mp h₂
  obtain ⟨hnone, rfl, rfl⟩ := check_returns.mp hcheck
  obtain ⟨rfl, rfl, rfl⟩ := check_returns.mp hcheck'
  obtain ⟨hfiles, rfl⟩ := readFile_ok hread hnone
  have hwritten := writeFile_ok hwrite
  rw [hfiles] at hwritten
  refine ⟨[(["openssl_config".toList, "openssl".toList, name], read.1)], hwritten, rfl, ?_⟩
  intro header hmem
  rw [List.mem_singleton.mp hmem]
  exact ⟨_, List.mem_append_left _ (List.mem_singleton.mpr rfl), List.mem_singleton.mpr rfl⟩

variable (pk) in
theorem injectConfiguration_renders {versionData : Fields} {w w' : World σ} {u : PUnit} {vs : List Event}
    (h : Returns (injectConfiguration m Library.openssl.folder versionData) w u w' vs)
    (hvs : Undisturbed vs) :
    Renders pk vs (configurationHeaders (present w.files configurationPath) versionData) w.files
      w'.files := by
  obtain ⟨result, s, us, us', hstat, hrest, rfl⟩ := bind_returns.mp h
  obtain ⟨d, hresult, hfiles, rfl⟩ := look_returns rfl hstat
  have hok := hvs.left _ (List.mem_singleton.mpr rfl)
  change (!decide (configurationPath = configurationPath) || d.isNone) = true at hok
  rw [decide_eq_true rfl] at hok
  unfold configurationHeaders
  cases d with
  | some d => cases hok
  | none =>
    have hanswer : result = if present w.files configurationPath then .found else .notExist := hresult
    cases hthere : present w.files configurationPath with
    | true =>
      rw [hthere, if_pos rfl] at hanswer
      subst hanswer
      obtain ⟨_, s₁, us₁, _, hconf, h₁, rfl⟩ := bind_returns.mp hrest
      obtain ⟨_, s₂, us₂, _, hconfiguration, h₂, rfl⟩ := bind_returns.mp h₁
      obtain ⟨err, s₃, us₃, _, hversion, hcheck, rfl⟩ := bind_returns.mp h₂
      obtain ⟨rfl, rfl, rfl⟩ := check_returns.mp hcheck
      have hwritten : Renders pk us₃ [.written (versionHeader versionData)
          ["openssl_config".toList, "openssl".toList, "opensslv.h".toList]] s₂.files w'.files := by
        refine ⟨[(_, versionHeader versionData)], writeFile_ok hversion, rfl, ?_⟩
        intro header hmem
        rw [List.mem_singleton.mp hmem]
        exact ⟨_, rfl, List.mem_singleton.mpr rfl⟩
      rw [if_pos rfl, ← hfiles]
      have hall := (copyHeader_renders pk hconf).append
        ((copyHeader_renders pk hconfiguration).append hwritten)
      exact hall.mono (by simp)
    | false =>
      rw [hthere, if_neg (by decide)] at hanswer
      subst hanswer
      rw [if_neg (by decide), ← hfiles]
      have hcopied := inject_copied pk hrest hvs.right (fun _ => rfl) (fun _ => rfl) (by decide)
      exact hcopied.mono (List.subset_append_right _ _)

theorem injectOpenSSL_renders {date : Str} {versionData : Fields} {w w' : World σ} {u : PUnit}
    {vs : List Event} (h : Returns (injectOpenSSL m pk Library.openssl.folder date versionData) w u w' vs)
    (hvs : Undisturbed vs) : ∃ configured fs, Renders pk vs
      ((Release.openssl date versionData).headers configured) fs w'.files ∧
      configured = present w'.files configurationPath := by
  obtain ⟨err₁, s₁, us₁, _, hremove, h₁, rfl⟩ := bind_returns.mp h
  obtain ⟨_, s₂, us₂, _, hcheck, h₂, rfl⟩ := bind_returns.mp h₁
  obtain ⟨err₃, s₃, us₃, _, hmkdir, h₃, rfl⟩ := bind_returns.mp h₂
  obtain ⟨err₄, s₄, us₄, _, hmkdir', h₄, rfl⟩ := bind_returns.mp h₃
  obtain ⟨_, s₅, us₅, _, hdso, h₅, rfl⟩ := bind_returns.mp h₄
  obtain ⟨_, s₆, us₆, _, hbn, h₆, rfl⟩ := bind_returns.mp h₅
  obtain ⟨_, s₇, us₇, us₈, hbuildinf, hconfiguration, rfl⟩ := bind_returns.mp h₆
  have hrest := hvs.right.right.right.right
  have hdso := inject_copied pk hdso hrest.left (fun _ => rfl) (fun _ => rfl) fun _ _ => rfl
  have hbn := inject_copied pk hbn hrest.right.left (fun _ => rfl) (fun _ => rfl) fun _ _ => rfl
  have hbuildinf := inject_rendered hbuildinf hrest.right.right.left (fun _ => rfl) (fun _ => rfl) fun _ _ => rfl
  have hconfiguration := injectConfiguration_renders pk hconfiguration hrest.right.right.right
  have hall := hdso.append (hbn.append (hbuildinf.append hconfiguration))
  have hmore : us₅ ++ (us₆ ++ (us₇ ++ us₈)) ⊆
      us₁ ++ (us₂ ++ (us₃ ++ (us₄ ++ (us₅ ++ (us₆ ++ (us₇ ++ us₈)))))) := by
    intro e he
    exact List.mem_append_right _ (List.mem_append_right _ (List.mem_append_right _
      (List.mem_append_right _ he)))
  refine ⟨_, _, hall.mono hmore, ?_⟩
  have houtside : ∀ p ∈ (configurationHeaders (present s₇.files configurationPath) versionData).map Header.dst,
      p.head? ≠ some linux := by
    rw [configurationHeaders_dst]
    cases present s₇.files configurationPath <;> decide
  have hlinux : configurationPath.head? = some linux := rfl
  rw [← present_within s₇.files hlinux, ← hconfiguration.within houtside, present_within _ hlinux]

theorem injectLibevent_renders {numver strver : Str} {w w' : World σ} {u : PUnit} {vs : List Event}
    (h : Returns (injectLibevent m pk numver strver) w u w' vs) (hvs : Undisturbed vs) (configured : Bool) :
    ∃ fs, Renders pk vs ((Release.libevent numver strver).headers configured) fs w'.files := by
  obtain ⟨err, s, us, us', hmkdir, hinject, rfl⟩ := bind_returns.mp h
  have hall := inject_rendered hinject hvs.right (fun _ => rfl) (fun _ => rfl) fun _ _ => rfl
  exact ⟨_, hall.mono (List.subset_append_right us us')⟩

theorem injectTor_renders {strver : Str} {w w' : World σ} {u : PUnit} {vs : List Event}
    (h : Returns (injectTor m pk strver) w u w' vs) (hvs : Undisturbed vs) (configured : Bool) :
    ∃ fs, Renders pk vs ((Release.tor strver).headers configured) fs w'.files := by
  obtain ⟨err, s, us, _, hmkdir, h₁, rfl⟩ := bind_returns.mp h
  obtain ⟨_, t, us', us'', horconfig, hmicro, rfl⟩ := bind_returns.mp h₁
  have horconfig := inject_rendered horconfig hvs.right.left (fun _ => rfl) (fun _ => rfl) fun _ _ => rfl
  have hmicro := inject_copied pk hmicro hvs.right.right (fun _ => rfl) (fun _ => rfl) fun _ _ => rfl
  exact ⟨_, (horconfig.append hmicro).mono (List.subset_append_right us _)⟩

/-- The last phase of a library leaves every header with its whole text. -/
theorem inject_holds {lib : Library} {r : Release} {w w' : World σ} {us vs : List Event}
    (hfound : r.FoundIn us lib) (h : Returns (r.inject m pk) w ⟨⟩ w' vs) (hvs : Undisturbed vs) :
    ∀ header ∈ r.headers (present w'.files configurationPath), header.Holds pk vs w'.files := by
  have hall : ∃ fs, Renders pk vs (r.headers (present w'.files configurationPath)) fs w'.files := by
    cases r with
    | zlib =>
      obtain ⟨-, rfl, rfl⟩ := pure_returns.mp h
      exact ⟨_, Renders.nil⟩
    | libevent numver strver => exact injectLibevent_renders h hvs _
    | openssl date versionData =>
      obtain ⟨configured, fs, hrenders, rfl⟩ := injectOpenSSL_renders h hvs
      exact ⟨fs, hrenders⟩
    | tor strver => exact injectTor_renders h hvs _
  obtain ⟨fs, hrenders⟩ := hall
  exact hrenders.holds (headers_nodup r _)

end

end GoLibtor
