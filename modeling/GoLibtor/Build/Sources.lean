import GoLibtor.Build.Wipe
import GoLibtor.Build.Upstream

/-! Whether each wrapper names a source that is still there: what passes the filters comes from the
makefiles of the library, what is generated from its templates, and what is kept from the wipe. -/
namespace GoLibtor

open Text Files Transition Program

/-- The C file of a wrapper is there, below the folder of its library. -/
def There (fs : Store) (lib : Library) (file : Str) : Prop :=
  lib.folder <+: lib.source file ∧ get fs (lib.source file) ≠ none

/-- The C file is in the tree of the dry run, or OpenSSL has it generated. -/
def Available (fs : Store) (lib : Library) (file : Str) : Prop :=
  get fs (lib.source file) ≠ none ∨ lib = .openssl ∧ generates fs lib.folder file = true

/-- The C file is below the folder of its library, where the wipe spares it. -/
def Spared (lib : Library) (file : Str) : Prop :=
  ∃ rest, lib.source file = lib.folder ++ rest ∧ lib.spares rest = true

def isCFile (p : Path) : Bool := p.getLast?.any fun name => hasSuffix name ".c".toList

/-- A `make` that is asked for C files creates them; no other C file of OpenSSL comes or goes. -/
def Makes {σ : Type} (m : Machine σ) : Prop :=
  ∀ s fs files, files ≠ [] → (∀ file ∈ files, hasSuffix file ".c".toList = true) →
    (m.exec s fs (command Library.openssl.folder ["make"] files)).ok = true →
      ∀ p, Library.openssl.folder <+: p → isCFile p = true →
        (get (m.exec s fs (command Library.openssl.folder ["make"] files)).files p ≠ none ↔
          get fs p ≠ none ∨ p ∈ files.map (join Library.openssl.folder))

/-- What every command leaves is a tree of files. -/
def Trees (vs : List Event) : Prop := ∀ c out ok fs, Event.ran c out ok fs ∈ vs → Tree fs

/-! ### Paths -/

theorem source_head {lib : Library} {file : Str} (h : lib.folder <+: lib.source file) :
    (lib.source file).head? = some linux := by
  obtain ⟨rest, hrest⟩ := h
  rw [← hrest]
  rfl

theorem source_isCFile (lib : Library) (file : Str) : isCFile (lib.source file) = true := by
  obtain ⟨folders, stem, heq⟩ := join_last lib.folder file
  unfold Library.source isCFile
  rw [heq ".c".toList (Or.inl rfl), List.getLast?_append]
  exact hasSuffix_iff.mpr (List.suffix_append stem _)

/-- Two sources that are one file have one template. -/
theorem template_of_source {lib : Library} {file file' : Str} (h : lib.source file = lib.source file') :
    lib.sourceTemplate file = lib.sourceTemplate file' := by
  obtain ⟨folders, stem, heq⟩ := join_last lib.folder file
  obtain ⟨folders', stem', heq'⟩ := join_last lib.folder file'
  unfold Library.source at h
  unfold Library.sourceTemplate
  rw [heq ".c".toList (Or.inl rfl), heq' ".c".toList (Or.inl rfl)] at h
  rw [heq ".c.in".toList (Or.inr rfl), heq' ".c.in".toList (Or.inr rfl)]
  obtain ⟨hfolders, hlast⟩ := List.append_inj' h rfl
  rw [hfolders, List.append_cancel_right (List.cons.inj hlast).1]

theorem template_head {lib : Library} {file : Str} (h : lib.folder <+: lib.source file) :
    (lib.sourceTemplate file).head? = some linux := by
  obtain ⟨folders, stem, heq⟩ := join_last lib.folder file
  obtain ⟨rest, hrest⟩ := h
  unfold Library.sourceTemplate
  rw [heq ".c.in".toList (Or.inr rfl)]
  have hsource : lib.folder ++ rest = folders ++ [stem ++ ".c".toList] :=
    hrest.trans (heq ".c".toList (Or.inl rfl))
  cases folders with
  | nil =>
    -- The folder alone has two parts.
    have hlength := congrArg List.length hsource
    simp [Library.folder] at hlength
  | cons top folders => exact congrArg some (List.cons.inj hsource).1.symm

theorem generates_of_source {fs : Store} {lib : Library} {file file' : Str}
    (h : lib.source file = lib.source file') :
    generates fs lib.folder file = generates fs lib.folder file' := by
  have htemplate := template_of_source h
  unfold Library.source at h
  unfold Library.sourceTemplate at htemplate
  unfold generates
  rw [h, htemplate]

section

variable {σ A : Type} {m : Machine σ} {pk : Packages} {o : Options}

/-! ### The tree that the wipe begins with -/

/-- Availability looks at nothing outside the target folder. -/
theorem available_within {fs fs' : Store} {lib : Library} {file : Str}
    (h : within (some linux) fs = within (some linux) fs') (hbelow : lib.folder <+: lib.source file) :
    Available fs lib file ↔ Available fs' lib file := by
  have hget : get fs (lib.source file) = get fs' (lib.source file) := by
    have heq := congrArg (fun s => get s (lib.source file)) h
    simpa only [get_within, source_head hbelow, if_true] using heq
  have hpresent : ∀ p : Path, p.head? = some linux → present fs p = present fs' p := by
    intro p hp
    rw [← present_within fs hp, ← present_within fs' hp, h]
  have hsource : present fs (join lib.folder (file ++ ".c".toList)) =
      present fs' (join lib.folder (file ++ ".c".toList)) := hpresent _ (source_head hbelow)
  have htemplate : present fs (join lib.folder (file ++ ".c.in".toList)) =
      present fs' (join lib.folder (file ++ ".c.in".toList)) := hpresent _ (template_head hbelow)
  have hgenerates : generates fs lib.folder file = generates fs' lib.folder file := by
    unfold generates
    rw [hsource, htemplate]
  unfold Available
  rw [hget, hgenerates]

theorem makeGenerated_get (hmake : Makes m) {generated : List Str} {w w' : World σ} {vs : List Event}
    (hgenerated : ∀ file ∈ generated, hasSuffix file ".c".toList = true)
    (h : Returns (makeGenerated m Library.openssl.folder generated) w () w' vs) {p : Path}
    (hbelow : Library.openssl.folder <+: p) (hp : isCFile p = true) :
    get w'.files p ≠ none ↔
      get w.files p ≠ none ∨ p ∈ generated.map (join Library.openssl.folder) := by
  unfold makeGenerated at h
  split at h
  next hlength =>
    have hne : sortStrings generated ≠ [] := by
      intro hnil
      have hperm := (List.perm_insertionSort (· ≤ ·) generated).length_eq
      change (sortStrings generated).length = _ at hperm
      rw [hnil] at hperm
      change 0 = generated.length at hperm
      omega
    obtain ⟨hok, hw, -⟩ := run_returns.mp h
    have hhead : p.head? = some linux := by
      obtain ⟨rest, hrest⟩ := hbelow
      rw [← hrest]
      rfl
    have hexec := hmake w.machine _ (sortStrings generated) hne
      (fun file hfile => hgenerated file (mem_sortStrings.mp hfile)) hok p hbelow hp
    have hbefore : get (part (command Library.openssl.folder ["make"] (sortStrings generated)).reaches w.files) p =
        get w.files p := (get_filter w.files _ p).trans (if_pos (reaches_top hhead))
    rw [hbefore] at hexec
    have hafter : get w'.files p = get (reply m w
        (command Library.openssl.folder ["make"] (sortStrings generated))).files p := by
      rw [hw]
      exact (get_graft _ _ _ _).trans (if_pos (reaches_top hhead))
    rw [hafter]
    refine hexec.trans (or_congr_right ?_)
    rw [List.mem_map, List.mem_map]
    constructor
    · intro ⟨file, hfile, heq⟩
      exact ⟨file, mem_sortStrings.mp hfile, heq⟩
    · intro ⟨file, hfile, heq⟩
      exact ⟨file, mem_sortStrings.mpr hfile, heq⟩
  next hlength =>
    have hnil : generated = [] := List.length_eq_zero_iff.mp (by omega)
    obtain ⟨-, hw, -⟩ := pure_returns.mp h
    rw [hw, hnil]
    simp

/-- After the generation a source of OpenSSL is there if it was available before. -/
theorem opensslDeps_get (hmake : Makes m) {out file : Str} {w w' : World σ} {deps : List Str}
    {vs : List Event} (h : Returns (opensslDeps m Library.openssl.folder out) w deps w' vs)
    (hfile : file ∈ deps) (hbelow : Library.openssl.folder <+: Library.openssl.source file) :
    get w'.files (Library.openssl.source file) ≠ none ↔ Available w.files .openssl file := by
  obtain ⟨-, generated, s, us, us', hfind, hgenerate, -⟩ := opensslDeps_returns h
  obtain ⟨hfiles, hgenerated⟩ := foldlM_findGenerated_returns hfind
  rw [List.nil_append] at hgenerated
  have hends : ∀ file ∈ generated, hasSuffix file ".c".toList = true := by
    intro file hmem
    rw [hgenerated] at hmem
    obtain ⟨dep, -, heq⟩ := List.mem_map.mp hmem
    rw [← heq]
    exact hasSuffix_iff.mpr (List.suffix_append dep _)
  rw [makeGenerated_get hmake hends hgenerate hbelow (source_isCFile _ _), hfiles]
  apply or_congr_right
  rw [hgenerated, List.map_map, List.mem_map]
  constructor
  · intro ⟨dep, hdep, heq⟩
    have hsame : Library.openssl.source dep = Library.openssl.source file := heq
    exact ⟨rfl, generates_of_source hsame ▸ (List.mem_filter.mp hdep).2⟩
  · intro ⟨_, hgenerates⟩
    exact ⟨file, List.mem_filter.mpr ⟨hfile, hgenerates⟩, rfl⟩

theorem makeGenerated_tree {generated : List Str} {w w' : World σ} {vs : List Event}
    (h : Returns (makeGenerated m Library.openssl.folder generated) w () w' vs) (htrees : Trees vs)
    (htree : Tree (within (some linux) w.files)) : Tree (within (some linux) w'.files) := by
  unfold makeGenerated at h
  split at h
  · obtain ⟨-, hw, hvs⟩ := run_returns.mp h
    have hfiles : Tree (reply m w (command Library.openssl.folder ["make"] (sortStrings generated))).files :=
      htrees _ _ _ _ (hvs ▸ List.mem_singleton.mpr rfl)
    have hgraft : within (some linux) w'.files = within (some linux) (reply m w
        (command Library.openssl.folder ["make"] (sortStrings generated))).files := by
      rw [hw]
      exact within_after m w (command Library.openssl.folder ["make"] (sortStrings generated))
    rw [hgraft]
    exact tree_within hfiles _
  · obtain ⟨-, hw, -⟩ := pure_returns.mp h
    rw [hw]
    exact htree

/-! ### What the wrappers are written from -/

/-- An operation on files outside the target folder. -/
def Elsewhere (op : Op) : Prop := ∀ p, op.changes = some p → ∃ top, p.head? = some top ∧ top ≠ linux

theorem Elsewhere.keeps {q : Gen σ A} {p : Path} (h : Uses m Elsewhere (fun _ => False) q)
    (hp : p.head? = some linux) : Along (Keeps p) q := by
  refine Uses.keeps h ?_ ?_
  · intro op hop r hr
    obtain ⟨top, htop, hne⟩ := hop r hr
    apply not_prefix_of_head htop
    rw [hp]
    exact fun heq => hne (Option.some.inj heq).symm
  · intro c hc
    exact hc.elim

theorem elsewhere_writeAll (lib : Library) (wrappers : List Wrapper) :
    Uses m Elsewhere (fun _ => False) (lib.writeAll m wrappers) := by
  have hlibtor : ∀ gofile data, Elsewhere (.writeFile (wrapperPath linux lib gofile) data) := by
    intro gofile data p hp
    obtain rfl := Option.some.inj hp
    exact ⟨"libtor".toList, rfl, by decide⟩
  have herr : ∀ err, Uses m Elsewhere (fun _ => False) (lib.onError (σ := σ) err) := by
    intro err
    cases lib with
    | openssl => exact uses_check err
    | zlib => exact uses_ignore err
    | libevent => exact uses_ignore err
    | tor => exact uses_ignore err
  exact .bind (uses_writeWrappers herr fun w _ => hlibtor w.gofile) fun _ =>
    uses_writePreamble herr (hlibtor preambleFile)

theorem elsewhere_inject {lib : Library} {r : Release} {vs : List Event} (h : r.FoundIn vs lib) :
    Uses m Elsewhere (fun _ => False) (r.inject m pk) := by
  refine Uses.mono (configures_inject_release h) ?_ fun _ hc => hc
  intro op hop p hp
  refine ⟨lib.config, hop.2 p hp, ?_⟩
  cases lib <;> decide

/-- The run of the function of a library around its wipe. -/
structure AroundWipe (lib : Library) (wrappers : List Wrapper) (fs : Store) (s t w' : World σ)
    (vs : List Event) : Prop where
  kept : Kept vs lib wrappers
  dryRun : ∃ out, Event.ran lib.dryRun out true fs ∈ vs
  wipe : ∃ u us, Returns (lib.wipe m) s u t us ∧ us ⊆ vs
  tree : Trees vs → Tree (within (some linux) s.files)
  sources : Makes m → ∀ wrapper ∈ wrappers, lib.folder <+: lib.source wrapper.file →
    (get s.files (lib.source wrapper.file) ≠ none ↔ Available fs lib wrapper.file)
  chars : lib = .tor → ∀ wrapper ∈ wrappers, ∀ c ∈ wrapper.file, torSourceChar c = true
  later : ∀ p : Path, p.head? = some linux → get w'.files p = get t.files p

theorem Trees.mono {us vs : List Event} (h : Trees vs) (hsub : us ⊆ vs) : Trees us :=
  fun c out ok fs hmem => h c out ok fs (hsub hmem)

theorem later_keeps {lib : Library} {wrappers : List Wrapper} {r : Release} {t u w' : World σ}
    {us₁ us₂ vs : List Event} (hfound : r.FoundIn vs lib)
    (hwrite : Returns (lib.writeAll m wrappers) t () u us₁)
    (hinject : Returns (r.inject m pk) u ⟨⟩ w' us₂) (p : Path) (hp : p.head? = some linux) :
    get w'.files p = get t.files p := by
  have hwritten : get u.files p = get t.files p :=
    Along.returns (Elsewhere.keeps (elsewhere_writeAll lib wrappers) hp) hwrite
  have hinjected : get w'.files p = get u.files p :=
    Along.returns (Elsewhere.keeps (elsewhere_inject hfound) hp) hinject
  exact hinjected.trans hwritten

/-- A source that nothing generates is there exactly when it is available. -/
theorem available_plain {lib : Library} (hlib : lib ≠ .openssl) (fs : Store) (file : Str) :
    get fs (lib.source file) ≠ none ↔ Available fs lib file := by
  unfold Available
  constructor
  · intro h
    exact Or.inl h
  · intro h
    rcases h with h | h
    · exact h
    · exact absurd h.1 hlib

theorem wrap_aroundWipe {lib : Library} (hlib : lib ≠ .zlib) {lock : Option LockJson} {w w' : World σ}
    {a : Str × Str} {vs : List Event} (h : Returns (lib.wrap m pk o linux lock) w a w' vs) :
    ∃ wrappers fs s t, AroundWipe (m := m) lib wrappers fs s t w' vs := by
  have hleft : ∀ xs ys : List Event, ∀ e ∈ xs, e ∈ xs ++ ys := fun xs ys e he => List.mem_append_left ys he
  cases lib with
  | zlib => exact absurd rfl hlib
  | libevent =>
    obtain ⟨numver, strver, deps, s, t, u, us₁, us₂, us₃, us₄, hconfigure, hwipe, hwrite, hinject, rfl⟩ :=
      wrapLibevent_returns h
    obtain ⟨out, fs, conf, ok, hran, hread, hnum, hstr, hdeps, -, hwithin⟩ :=
      configureLibevent_returns hconfigure
    have hfound : (Release.libevent numver strver).FoundIn us₁ .libevent :=
      ⟨conf, ok, numver, strver, hread, hnum, hstr, rfl⟩
    refine ⟨libeventWrappers deps, fs, s, t, ⟨?_, ⟨out, hleft _ _ _ hran⟩, ⟨⟨⟩, us₂, hwipe, ?_⟩, ?_, ?_, ?_,
      later_keeps hfound hwrite hinject⟩⟩
    · exact ⟨out, fs, hleft _ _ _ hran, by rw [hdeps]⟩
    · intro e he
      simp [he]
    · intro htrees
      rw [hwithin]
      exact tree_within (htrees _ _ _ _ (hleft _ _ _ hran)) _
    · intro _ wrapper _ hbelow
      rw [available_plain (by decide)]
      exact available_within hwithin hbelow
    · intro heq
      cases heq
  | openssl =>
    obtain ⟨date, versionData, deps, s, t, u, us₁, us₂, us₃, us₄, hconfigure, hwipe, hwrite, hinject, -,
      rfl⟩ := wrapOpenSSL_returns h
    obtain ⟨out, fs, s', us, hran, hfound, hdeps, hsub, hwithin⟩ := configureOpenSSL_returns hconfigure
    have hall : deps = extractOpenSSLSources out := (opensslDeps_returns hdeps).1
    refine ⟨opensslWrappers deps, fs, s, t, ⟨?_, ⟨out, hleft _ _ _ hran⟩, ⟨⟨⟩, us₂, hwipe, ?_⟩, ?_, ?_, ?_,
      later_keeps hfound hwrite hinject⟩⟩
    · exact ⟨out, fs, hleft _ _ _ hran, by rw [hall]⟩
    · intro e he
      simp [he]
    · intro htrees
      obtain ⟨-, generated, s'', vs₁, vs₂, hfind, hgenerate, hmade⟩ := opensslDeps_returns hdeps
      have htree : Tree (within (some linux) s'.files) := by
        rw [hwithin]
        exact tree_within (htrees _ _ _ _ (hleft _ _ _ hran)) _
      rw [← (foldlM_findGenerated_returns hfind).1] at htree
      have hfew : Trees vs₂ := htrees.mono fun e he => hleft _ _ _ (hsub (hmade he))
      exact makeGenerated_tree hgenerate hfew htree
    · intro hmake wrapper hwrapper hbelow
      obtain ⟨dep, hdep, rfl⟩ := List.mem_map.mp hwrapper
      rw [opensslDeps_get hmake hdeps (List.mem_filter.mp hdep).1 hbelow]
      exact available_within hwithin hbelow
    · intro heq
      cases heq
  | tor =>
    obtain ⟨strver, hasModulePow, deps, s, t, u, us₁, us₂, us₃, us₄, hconfigure, hwipe, hwrite, hinject,
      rfl⟩ := wrapTor_returns h
    obtain ⟨out, fs, orconf, ok, hran, hread, hstr, hpow, hdeps, hwithin⟩ :=
      configureTor_returns hconfigure
    have hfound : (Release.tor strver).FoundIn us₁ .tor := ⟨orconf, ok, strver, hread, hstr, rfl⟩
    refine ⟨torWrappers hasModulePow deps, fs, s, t, ⟨?_, ⟨out, hleft _ _ _ hran⟩, ⟨(), us₂, hwipe, ?_⟩, ?_,
      ?_, ?_, later_keeps hfound hwrite hinject⟩⟩
    · exact ⟨out, fs, orconf, ok, hleft _ _ _ hran, hleft _ _ _ hread, by rw [hpow, hdeps]⟩
    · intro e he
      simp [he]
    · intro htrees
      rw [hwithin]
      exact tree_within (htrees _ _ _ _ (hleft _ _ _ hran)) _
    · intro _ wrapper _ hbelow
      rw [available_plain (by decide)]
      exact available_within hwithin hbelow
    · intro _ wrapper hwrapper
      apply torWrappers_char _ hwrapper
      intro dep hdep
      rw [hdeps] at hdep
      exact extractTorSources_char hdep

/-- Every wrapper names a file that is there after the wipe exactly when every source that was kept
was available at the dry run and lies where the wipe spares it. -/
theorem sources_remain {lib : Library} (hlib : lib ≠ .zlib) {lock : Option LockJson} {w w' : World σ}
    {a : Str × Str} {vs : List Event} (h : Returns (lib.wrap m pk o linux lock) w a w' vs)
    (hremoves : Removes vs) (htrees : Trees vs) (hmake : Makes m) :
    ∃ wrappers fs, Kept vs lib wrappers ∧ (∃ out, Event.ran lib.dryRun out true fs ∈ vs) ∧
      ((∀ wrapper ∈ wrappers, There w'.files lib wrapper.file) ↔
        ∀ wrapper ∈ wrappers, Available fs lib wrapper.file ∧ Spared lib wrapper.file) := by
  obtain ⟨wrappers, fs, s, t, haround⟩ := wrap_aroundWipe hlib h
  refine ⟨wrappers, fs, haround.kept, haround.dryRun, ?_⟩
  have hone : ∀ wrapper ∈ wrappers, There w'.files lib wrapper.file ↔
      Available fs lib wrapper.file ∧ Spared lib wrapper.file := by
    intro wrapper hwrapper
    obtain ⟨u, us, hwipe, hsub⟩ := haround.wipe
    have hfew : Removes us := fun op d hmem => hremoves op d (hsub hmem)
    have hsurvives : ∀ rest, lib.source wrapper.file = lib.folder ++ rest →
        (get w'.files (lib.source wrapper.file) ≠ none ↔
          Available fs lib wrapper.file ∧ lib.spares rest = true) := by
      intro rest hrest
      have hbelow : lib.folder <+: lib.source wrapper.file := ⟨rest, hrest.symm⟩
      have hdeps : lib = .tor → ".deps".toList ∉ rest := by
        intro htor
        subst htor
        exact source_no_deps (haround.chars rfl wrapper hwrapper) hrest
      rw [haround.later _ (source_head hbelow), ← haround.sources hmake wrapper hwrapper hbelow, hrest]
      exact wipe_survives hwipe hfew (haround.tree htrees) (source_rest hrest) hdeps
    unfold There Spared
    constructor
    · intro ⟨⟨rest, hrest⟩, hthere⟩
      obtain ⟨havailable, hspared⟩ := (hsurvives rest hrest.symm).mp hthere
      exact ⟨havailable, rest, hrest.symm, hspared⟩
    · intro ⟨havailable, rest, hrest, hspared⟩
      exact ⟨⟨rest, hrest.symm⟩, (hsurvives rest hrest).mpr ⟨havailable, hspared⟩⟩
  constructor
  · intro hall wrapper hwrapper
    exact (hone wrapper hwrapper).mp (hall wrapper hwrapper)
  · intro hall wrapper hwrapper
    exact (hone wrapper hwrapper).mpr (hall wrapper hwrapper)

end

/-! ### Runs on the small example -/

theorem makes_upstreams (up : Library → Upstream) : Makes (upstreams up) := by
  intro s fs files _ hends _ p _ _
  have hexec := exec_library up .openssl s fs ("make".toList :: files)
  have hmake : makes Library.openssl.folder ("make".toList :: files) =
      files.map fun name => (join Library.openssl.folder name, []) := by
    have hself : hasSuffix "make".toList ".c".toList = false := by decide
    have hall : files.filter (fun name => hasSuffix name ".c".toList) = files :=
      List.filter_eq_self.mpr hends
    have hfirst : ("make".toList :: files).head? = some "make".toList := rfl
    unfold makes
    rw [if_pos hfirst, List.filter_cons, hself, hall]
    rfl
  have hfiles : ((upstreams up).exec s fs (command Library.openssl.folder ["make"] files)).files =
      fs ++ files.map fun name => (join Library.openssl.folder name, []) := by
    rw [← hmake]
    exact congrArg Reply.files hexec
  rw [hfiles, get_append]
  have hmade : get (files.map fun name => (join Library.openssl.folder name, ([] : Str))) p ≠ none ↔
      p ∈ files.map (join Library.openssl.folder) := by
    constructor
    · intro hget
      obtain ⟨e, he, rfl⟩ := mem_of_get hget
      obtain ⟨name, hname, rfl⟩ := List.mem_map.mp he
      exact List.mem_map_of_mem hname
    · intro hmem
      obtain ⟨name, hname, rfl⟩ := List.mem_map.mp hmem
      exact get_isSome_of_mem (List.mem_map_of_mem hname)
  rw [← hmade]
  cases get fs p <;> simp

/-- Every removal of a run succeeded and every command left a tree. -/
def sound (e : Event) : Bool :=
  match e with
  | .ran _ _ _ fs => decide (Tree fs)
  | .did op d => !op.removes || d.isNone
  | _ => true

theorem removes_of_sound {vs : List Event} (h : vs.all sound = true) : Removes vs := by
  intro op d hmem hop
  have hd := List.all_eq_true.mp h _ hmem
  unfold sound at hd
  simpa [hop] using hd

theorem trees_of_sound {vs : List Event} (h : vs.all sound = true) : Trees vs := by
  intro c out ok fs hmem
  have hfs := List.all_eq_true.mp h _ hmem
  exact of_decide_eq_true hfs

def wrapSmall (up : Library → Upstream) : Outcome (World Unit) Event Stop (Str × Str) :=
  (Library.openssl.wrap (upstreams up) plain (onLinux true) linux none).run ⟨(), []⟩

theorem wrapSmall_small : (wrapSmall small).result = .ok ("3.6.3".toList, (small .openssl).commit) ∧
    (wrapSmall small).trace.all sound = true := by
  decide +kernel

/-- The one source of the small example is there before the wipe, and stays. -/
theorem sources_remain_small : ∃ wrappers fs, Kept (wrapSmall small).trace .openssl wrappers ∧
    (∃ out, Event.ran Library.openssl.dryRun out true fs ∈ (wrapSmall small).trace) ∧
    ((∀ wrapper ∈ wrappers, There (wrapSmall small).state.files .openssl wrapper.file) ↔
      ∀ wrapper ∈ wrappers, Available fs .openssl wrapper.file ∧ Spared .openssl wrapper.file) :=
  sources_remain (by decide) (returns_of_result wrapSmall_small.1) (removes_of_sound wrapSmall_small.2)
    (trees_of_sound wrapSmall_small.2) (makes_upstreams small)

/-- The small example with one more source in its makefiles, which is neither there nor generated. -/
def gone : Library → Upstream
  | .openssl =>
    { small .openssl with
      dryRun := (small .openssl).dryRun ++ "gcc -c -o crypto/libcrypto-lib-gone.o crypto/gone.c\n".toList }
  | lib => small lib

theorem wrapSmall_gone : (wrapSmall gone).result = .ok ("3.6.3".toList, (small .openssl).commit) ∧
    (wrapSmall gone).trace.all sound = true ∧
    get (wrapSmall gone).state.files (wrapperPath linux .openssl "crypto_gone.go".toList) =
      some (Library.openssl.template (targetFilters linux) "crypto/gone".toList) ∧
    get (wrapSmall gone).state.files (Library.openssl.source "crypto/gone".toList) = none := by
  decide +kernel

/-- A run that returns no error and writes a wrapper for a source that is not there. -/
theorem source_gone : ∃ a w' vs,
    Returns (Library.openssl.wrap (upstreams gone) plain (onLinux true) linux none) ⟨(), []⟩ a w' vs ∧
    Removes vs ∧ Trees vs ∧ Makes (upstreams gone) ∧
    get w'.files (wrapperPath linux .openssl "crypto_gone.go".toList) =
      some (Library.openssl.template (targetFilters linux) "crypto/gone".toList) ∧
    ¬ There w'.files .openssl "crypto/gone".toList := by
  obtain ⟨hresult, hsound, hwrapper, hgone⟩ := wrapSmall_gone
  exact ⟨_, _, _, returns_of_result hresult, removes_of_sound hsound, trees_of_sound hsound,
    makes_upstreams gone, hwrapper, fun hthere => hthere.2 hgone⟩

end GoLibtor
