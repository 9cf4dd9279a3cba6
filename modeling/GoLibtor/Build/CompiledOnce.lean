import GoLibtor.Build.GoFiles

/-! When every source that was kept is compiled by exactly one wrapper on every target. -/
namespace GoLibtor

open Text Files

/-- For every target and each library, exactly one file that Go selects includes a kept source. -/
def Sources.CompiledOnce (src : Sources) : Prop :=
  ∀ (t : Target) (lib : Library), ∀ dep ∈ src.kept lib, ∃! name : Str, Selected t name ∧
    get src.left (goFile name) =
      some (lib.template (targetFilters "linux".toList) (lib.fileOn t.arch dep))

/-! ### What is left in `libtor` -/

section Left

variable {src : Sources} {lib : Library}

theorem mem_libraryWrites {ws : List Wrapper} {p : Path} {c : Str} :
    (p, c) ∈ libraryWrites "linux".toList lib ws ↔
      (∃ w ∈ ws, p = wrapperPath "linux".toList lib w.gofile ∧
        c = lib.template (targetFilters "linux".toList) w.file) ∨
      (p = wrapperPath "linux".toList lib preambleFile ∧
        c = lib.preamble (targetFilters "linux".toList) "linux".toList) := by
  simp only [libraryWrites, List.mem_append, List.mem_map, List.mem_singleton, Prod.mk.injEq, eq_comm]

theorem preamblePath_eq (lib : Library) :
    wrapperPath "linux".toList lib preambleFile = goFile (baseName lib "preamble".toList) :=
  wrapperPath_go lib "preamble".toList

/-- A file that the generator writes is a wrapper of a kept source or a preamble. -/
theorem mem_writes {name c : Str} :
    (goFile name, c) ∈ src.writes ↔
      ∃ lib, (∃ dep ∈ src.kept lib, ∃ a, name = baseName lib (lib.stemOn a dep) ∧
          c = lib.template (targetFilters "linux".toList) (lib.fileOn a dep)) ∨
        (name = baseName lib "preamble".toList ∧
          c = lib.preamble (targetFilters "linux".toList) "linux".toList) := by
  unfold Sources.writes
  rw [List.mem_flatMap]
  have hall : ∀ l : Library, l ∈ Library.all := by
    intro l
    cases l <;> decide
  constructor
  · intro ⟨l, _, h⟩
    refine ⟨l, ?_⟩
    rcases mem_libraryWrites.mp h with ⟨w, hw, hp, hc⟩ | ⟨hp, hc⟩
    · obtain ⟨dep, hdep, a, rfl⟩ := mem_wrappers.mp hw
      rw [wrapperPath_go] at hp
      exact Or.inl ⟨dep, hdep, a, goFile_inj hp, hc⟩
    · rw [preamblePath_eq] at hp
      exact Or.inr ⟨goFile_inj hp, hc⟩
  · intro ⟨l, h⟩
    refine ⟨l, hall l, mem_libraryWrites.mpr ?_⟩
    rcases h with ⟨dep, hdep, a, rfl, hc⟩ | ⟨rfl, hc⟩
    · exact Or.inl ⟨_, mem_wrappers.mpr ⟨dep, hdep, a, rfl⟩, (wrapperPath_go l _).symm, hc⟩
    · exact Or.inr ⟨(preamblePath_eq l).symm, hc⟩

/-- A text that includes a source was written for a kept dependency of its library. -/
theorem template_left {name file : Str}
    (h : get src.left (goFile name) = some (lib.template (targetFilters "linux".toList) file)) :
    ∃ dep ∈ src.kept lib, ∃ a, name = baseName lib (lib.stemOn a dep) ∧ file = lib.fileOn a dep := by
  rcases mem_of_get_puts h with hmem | hnone
  · obtain ⟨l, ⟨dep, hdep, a, hname, hc⟩ | ⟨_, hc⟩⟩ := mem_writes.mp hmem
    · obtain ⟨rfl, hfile⟩ := template_inj hc
      exact ⟨dep, hdep, a, hname, hfile⟩
    · exact absurd hc.symm (preamble_ne_template l lib _ _ file)
  · cases hnone

/-- The preamble of a library is written after its wrappers. -/
theorem preamble_left (src : Sources) (lib : Library) :
    get src.left (goFile (baseName lib "preamble".toList)) =
      some (lib.preamble (targetFilters "linux".toList) "linux".toList) := by
  obtain ⟨pre, post, hall, hpost⟩ : ∃ pre post, Library.all = pre ++ lib :: post ∧ lib ∉ post := by
    cases lib
    · exact ⟨[], _, rfl, by decide⟩
    · exact ⟨[.zlib], _, rfl, by decide⟩
    · exact ⟨[.zlib, .libevent], _, rfl, by decide⟩
    · exact ⟨[.zlib, .libevent, .openssl], [], rfl, by decide⟩
  have hwrites : src.writes =
      ((pre.flatMap fun l => libraryWrites "linux".toList l (src.wrappers l)) ++
        (src.wrappers lib).map fun w => (wrapperPath "linux".toList lib w.gofile,
          lib.template (targetFilters "linux".toList) w.file)) ++
      (goFile (baseName lib "preamble".toList),
        lib.preamble (targetFilters "linux".toList) "linux".toList) ::
      post.flatMap fun l => libraryWrites "linux".toList l (src.wrappers l) := by
    unfold Sources.writes
    rw [hall, List.flatMap_append, List.flatMap_cons, libraryWrites, preamblePath_eq]
    simp only [List.append_assoc, List.singleton_append]
  unfold Sources.left
  rw [hwrites]
  apply get_puts_last
  intro ⟨p, c⟩ hmem hp
  rw [List.mem_flatMap] at hmem
  obtain ⟨l, hl, hw⟩ := hmem
  have hname : ∃ stem, p = goFile (baseName l stem) := by
    rcases mem_libraryWrites.mp hw with ⟨w, hw, hpw, _⟩ | ⟨hpw, _⟩
    · obtain ⟨dep, _, a, rfl⟩ := mem_wrappers.mp hw
      exact ⟨_, hpw.trans (wrapperPath_go l _)⟩
    · exact ⟨_, hpw.trans (preamblePath_eq l)⟩
  obtain ⟨stem, hstem⟩ := hname
  have hsame : l = lib := (baseName_inj (goFile_inj (hstem.symm.trans hp))).1
  exact hpost (hsame ▸ hl)

end Left

/-! ### Sources that keep out of each other's way -/

/-- What the wrappers of a library need: a name that constrains no target and is not that of the
preamble, unless the source is wrapped once per architecture; different names for different
sources; and different sources on 32 bits too. -/
structure WrapsApart (lib : Library) (kept : List Str) : Prop where
  free : ∀ dep ∈ kept, lib.perArch dep = false →
    Unconstrained (baseName lib (lib.stem dep)) ∧ lib.stem dep ≠ "preamble".toList
  names : ∀ dep ∈ kept, ∀ dep' ∈ kept, lib.stem dep = lib.stem dep' → dep = dep'
  files : ∀ dep ∈ kept, ∀ dep' ∈ kept, lib.fileOn .arm dep = lib.fileOn .arm dep' → dep = dep'

section Apart

variable {lib : Library} {kept : List Str}
  (hfree : ∀ dep ∈ kept, lib.perArch dep = false →
    Unconstrained (baseName lib (lib.stem dep)) ∧ lib.stem dep ≠ "preamble".toList)
  (hnames : ∀ dep ∈ kept, ∀ dep' ∈ kept, lib.stem dep = lib.stem dep' → dep = dep')

include hfree

/-- An unconstrained name is not that of a wrapper for one architecture. -/
theorem stem_ne_stemOn {dep dep' : Str} {a : Goarch} (hdep : dep ∈ kept)
    (hplain : lib.perArch dep = false) (hper : lib.perArch dep' = true) :
    lib.stem dep ≠ lib.stemOn a dep' := by
  intro heq
  apply (hfree dep hdep hplain).1.2.2 a.name a.name_mem
  rw [heq]
  simp only [Library.stemOn, hper, if_true, baseName, ← List.append_assoc]
  exact List.suffix_append _ _

theorem selected_stemOn {dep : Str} (t : Target) (hdep : dep ∈ kept) :
    Selected t (baseName lib (lib.stemOn t.arch dep)) := by
  cases hper : lib.perArch dep with
  | false =>
    rw [Library.stemOn_plain hper]
    exact (hfree dep hdep hper).1.selected t
  | true =>
    obtain ⟨_, s, hs⟩ := Library.perArch_iff.mp hper
    have hname : baseName lib (lib.stemOn t.arch dep) =
        ("linux".toList ++ ("_".toList ++ (lib.name ++ ("_".toList ++ s)))) ++ c64 ++ '_' :: t.arch.name := by
      simp only [baseName, Library.stemOn, hper, if_true, hs, List.append_assoc]
    rw [hname, selected_c64]

theorem stemOn_ne_preamble {dep : Str} {a : Goarch} (hdep : dep ∈ kept) :
    lib.stemOn a dep ≠ "preamble".toList := by
  cases hper : lib.perArch dep with
  | false =>
    rw [Library.stemOn_plain hper]
    exact (hfree dep hdep hper).2
  | true =>
    intro h
    have hmem : '_' ∈ lib.stemOn a dep := by simp [Library.stemOn, hper]
    rw [h] at hmem
    revert hmem
    decide

include hnames

theorem stemOn_inj {dep dep' : Str} {a a' : Goarch} (hdep : dep ∈ kept) (hdep' : dep' ∈ kept)
    (h : lib.stemOn a dep = lib.stemOn a' dep') : dep = dep' ∧ lib.fileOn a dep = lib.fileOn a' dep' := by
  cases hper : lib.perArch dep with
  | false =>
    cases hper' : lib.perArch dep' with
    | false =>
      rw [Library.stemOn_plain hper, Library.stemOn_plain hper'] at h
      obtain rfl := hnames dep hdep dep' hdep' h
      rw [Library.fileOn_plain hper, Library.fileOn_plain hper]
      exact ⟨rfl, rfl⟩
    | true =>
      rw [Library.stemOn_plain hper] at h
      exact absurd h (stem_ne_stemOn hfree hdep hper hper')
  | true =>
    cases hper' : lib.perArch dep' with
    | false =>
      rw [Library.stemOn_plain hper'] at h
      exact absurd h.symm (stem_ne_stemOn hfree hdep' hper' hper)
    | true =>
      have hU := no_underscore.2.1
      simp only [Library.stemOn, hper, hper', if_true] at h
      obtain ⟨hstem, harch⟩ := append_separated_inj (hU a.name a.name_mem) (hU a'.name a'.name_mem) h
      obtain rfl := hnames dep hdep dep' hdep' hstem
      rw [Goarch.name_inj harch]
      exact ⟨rfl, rfl⟩

end Apart

/-- Names that keep apart are never written with another text. -/
theorem left_stemOn {src : Sources} {lib : Library} {dep : Str} {a : Goarch}
    (hfree : ∀ dep ∈ src.kept lib, lib.perArch dep = false →
      Unconstrained (baseName lib (lib.stem dep)) ∧ lib.stem dep ≠ "preamble".toList)
    (hnames : ∀ dep ∈ src.kept lib, ∀ dep' ∈ src.kept lib, lib.stem dep = lib.stem dep' → dep = dep')
    (hdep : dep ∈ src.kept lib) :
    get src.left (goFile (baseName lib (lib.stemOn a dep))) =
      some (lib.template (targetFilters "linux".toList) (lib.fileOn a dep)) := by
  apply get_puts_of_mem
  · exact mem_writes.mpr ⟨lib, Or.inl ⟨dep, hdep, a, rfl, rfl⟩⟩
  · intro ⟨p, c⟩ hmem hp
    obtain rfl : p = goFile (baseName lib (lib.stemOn a dep)) := hp
    obtain ⟨l, ⟨dep', hdep', a', hname, hc⟩ | ⟨hname, _⟩⟩ := mem_writes.mp hmem
    · obtain ⟨rfl, hstem⟩ := baseName_inj hname
      rw [hc, (stemOn_inj hfree hnames hdep hdep' hstem).2]
    · obtain ⟨rfl, hstem⟩ := baseName_inj hname
      exact absurd hstem (stemOn_ne_preamble hfree hdep)

/-- Every kept source is compiled exactly once on every target if and only if the kept sources of
each library keep out of each other's way. -/
theorem compiledOnce_iff (src : Sources) :
    src.CompiledOnce ↔ ∀ lib, WrapsApart lib (src.kept lib) := by
  constructor
  · intro honce lib
    -- On 64 bits every source is included under its own name, so its own file is what is left.
    have hown : ∀ t : Target, t.arch.is64 = true → ∀ dep ∈ src.kept lib,
        Selected t (baseName lib (lib.stemOn t.arch dep)) ∧
        get src.left (goFile (baseName lib (lib.stemOn t.arch dep))) =
          some (lib.template (targetFilters "linux".toList) dep) := by
      intro t h64 dep hdep
      obtain ⟨name, ⟨hsel, hleft⟩, _⟩ := honce t lib dep hdep
      obtain ⟨dep', _, a, rfl, hfile⟩ := template_left hleft
      obtain ⟨hstem, hfile'⟩ := stemOn_arch hsel
      rw [hfile', Library.fileOn_64 h64, Library.fileOn_64 h64] at hfile
      subst hfile
      rw [hstem] at hsel hleft
      rw [Library.fileOn_64 h64] at hleft
      exact ⟨hsel, hleft⟩
    have hfree : ∀ dep ∈ src.kept lib, lib.perArch dep = false →
        Unconstrained (baseName lib (lib.stem dep)) ∧ lib.stem dep ≠ "preamble".toList := by
      intro dep hdep hplain
      constructor
      · apply unconstrained_of_selected
        intro t h64
        have hsel := (hown t h64 dep hdep).1
        rwa [Library.stemOn_plain hplain] at hsel
      · intro hpre
        have hleft := (hown ⟨.linux, .amd64⟩ rfl dep hdep).2
        rw [Library.stemOn_plain hplain, hpre, preamble_left] at hleft
        exact preamble_ne_template _ _ _ _ _ (Option.some.inj hleft)
    have hnames : ∀ dep ∈ src.kept lib, ∀ dep' ∈ src.kept lib,
        lib.stem dep = lib.stem dep' → dep = dep' := by
      intro dep hdep dep' hdep' hstem
      have hleft := (hown ⟨.linux, .amd64⟩ rfl dep hdep).2
      have hleft' := (hown ⟨.linux, .amd64⟩ rfl dep' hdep').2
      have hon : lib.stemOn .amd64 dep = lib.stemOn .amd64 dep' := by
        unfold Library.stemOn
        rw [Library.perArch_congr hstem, hstem]
      rw [hon] at hleft
      exact (template_inj (Option.some.inj (hleft.symm.trans hleft'))).2
    refine ⟨hfree, hnames, ?_⟩
    intro dep hdep dep' hdep' hfile
    obtain ⟨name, _, huniq⟩ := honce ⟨.linux, .arm⟩ lib dep hdep
    have hone := huniq _ ⟨selected_stemOn hfree ⟨.linux, .arm⟩ hdep, left_stemOn hfree hnames hdep⟩
    have htwo := huniq _ ⟨selected_stemOn hfree ⟨.linux, .arm⟩ hdep', by
      rw [left_stemOn hfree hnames hdep', hfile]⟩
    have hstem := (baseName_inj (hone.trans htwo.symm)).2
    exact (stemOn_inj hfree hnames hdep hdep' hstem).1
  · intro hapart t lib dep hdep
    obtain ⟨hfree, hnames, hfiles⟩ := hapart lib
    refine ⟨baseName lib (lib.stemOn t.arch dep),
      ⟨selected_stemOn hfree t hdep, left_stemOn hfree hnames hdep⟩, ?_⟩
    intro name ⟨hsel, hleft⟩
    obtain ⟨dep', hdep', a, rfl, hfile⟩ := template_left hleft
    obtain ⟨hstem, hfile'⟩ := stemOn_arch hsel
    rw [hfile'] at hfile
    have hsame : dep = dep' := by
      cases h64 : t.arch.is64 with
      | true => rwa [Library.fileOn_64 h64, Library.fileOn_64 h64] at hfile
      | false =>
        rw [Library.fileOn_32 h64 (show Goarch.arm.is64 = false from rfl),
          Library.fileOn_32 h64 (show Goarch.arm.is64 = false from rfl)] at hfile
        exact hfiles dep hdep dep' hdep' hfile
    rw [hsame, hstem]

/-- Two sources of OpenSSL whose paths differ in a slash only. -/
def slashSources : Sources :=
  { zlib := [], libevent := [], openssl := ["crypto/a/b".toList, "crypto/a_b".toList],
    hasModulePow := false, tor := [] }

theorem not_compiledOnce : ¬ ∀ src : Sources, src.CompiledOnce := by
  intro hall
  obtain ⟨name, ⟨_, hleft⟩, _⟩ :=
    hall slashSources ⟨.linux, .amd64⟩ .openssl "crypto/a/b".toList (by decide)
  obtain ⟨dep, _, a, rfl, hfile⟩ := template_left hleft
  have hplain : Library.openssl.perArch dep = false := rfl
  rw [Library.fileOn_plain rfl, Library.fileOn_plain hplain] at hfile
  rw [Library.stemOn_plain hplain, ← hfile, Library.fileOn_plain rfl] at hleft
  have hover : get slashSources.left (goFile (baseName .openssl (flatten "crypto/a/b".toList))) =
      some (Library.openssl.template (targetFilters "linux".toList) "crypto/a_b".toList) := by
    decide +kernel
  have hsame := (template_inj (Option.some.inj (hover.symm.trans hleft))).2
  revert hsame
  decide

end GoLibtor
