import GoLibtor.Build.Wrapper

/-! Which files Go selects for a target, and the files of the wrappers of each library. -/
namespace GoLibtor

open Text Files

/-! ### The file names Go reads a target from -/

inductive Goos
  | linux
  | android
  deriving DecidableEq, Repr

inductive Goarch
  | amd64
  | arm64
  | i386
  | arm
  deriving DecidableEq, Repr

structure Target where
  os : Goos
  arch : Goarch
  deriving DecidableEq, Repr

/-- The suffixes that select a file for an operating system. -/
def Goos.tags : Goos → List Str
  | .linux => ["linux".toList]
  | .android => ["android".toList, "linux".toList]

def Goarch.name : Goarch → Str
  | .amd64 => "amd64".toList
  | .arm64 => "arm64".toList
  | .i386 => "386".toList
  | .arm => "arm".toList

def Goarch.is64 : Goarch → Bool
  | .amd64 => true
  | .arm64 => true
  | .i386 => false
  | .arm => false

def knownOS : List Str :=
  ["aix", "android", "darwin", "dragonfly", "freebsd", "hurd", "illumos", "ios", "js", "linux",
    "nacl", "netbsd", "openbsd", "plan9", "solaris", "wasip1", "windows", "zos"].map String.toList

def knownArch : List Str :=
  ["386", "amd64", "amd64p32", "arm", "armbe", "arm64", "arm64be", "loong64", "mips", "mipsle",
    "mips64", "mips64le", "mips64p32", "mips64p32le", "ppc", "ppc64", "ppc64le", "riscv", "riscv64",
    "s390", "s390x", "sparc", "sparc64", "wasm"].map String.toList

/-- Whether Go compiles the file `name.go` for a target, told by the end of the name. (Of a name with
another dot in it Go looks only at the part before the first one.) -/
def Selected (t : Target) (name : Str) : Prop :=
  ¬ '_' :: "test".toList <:+ name ∧
  (∀ os ∈ knownOS, '_' :: os <:+ name → os ∈ t.os.tags) ∧
  (∀ arch ∈ knownArch, '_' :: arch <:+ name → arch = t.arch.name) ∧
  ∀ os ∈ knownOS, ∀ arch ∈ knownArch, ('_' :: os) ++ ('_' :: arch) <:+ name →
    os ∈ t.os.tags ∧ arch = t.arch.name

instance (t : Target) (name : Str) : Decidable (Selected t name) := by
  unfold Selected
  infer_instance

/-- A name that says nothing about the target, so that every target here takes the file. -/
def Unconstrained (name : Str) : Prop :=
  ¬ '_' :: "test".toList <:+ name ∧
  (∀ os ∈ knownOS, '_' :: os <:+ name → os = "linux".toList) ∧
  ∀ arch ∈ knownArch, ¬ '_' :: arch <:+ name

instance (name : Str) : Decidable (Unconstrained name) := by
  unfold Unconstrained
  infer_instance

theorem linux_mem_tags (os : Goos) : "linux".toList ∈ os.tags := by
  cases os <;> decide

theorem Unconstrained.selected {name : Str} (h : Unconstrained name) (t : Target) :
    Selected t name := by
  obtain ⟨htest, hos, harch⟩ := h
  refine ⟨htest, ?_, ?_, ?_⟩
  · intro os hmem hsuf
    rw [hos os hmem hsuf]
    exact linux_mem_tags t.os
  · intro arch hmem hsuf
    exact absurd hsuf (harch arch hmem)
  · intro os _ arch hmem hsuf
    exact absurd ((List.suffix_append ('_' :: os) ('_' :: arch)).trans hsuf) (harch arch hmem)

/-- Two architectures and two systems are enough to tell. -/
theorem unconstrained_of_selected {name : Str}
    (h : ∀ t : Target, t.arch.is64 = true → Selected t name) : Unconstrained name := by
  obtain ⟨htest, hos, harch, _⟩ := h ⟨.linux, .amd64⟩ rfl
  refine ⟨htest, ?_, ?_⟩
  · intro os hmem hsuf
    simpa [Goos.tags] using hos os hmem hsuf
  · intro arch hmem hsuf
    have hamd : arch = "amd64".toList := harch arch hmem hsuf
    have harm : arch = "arm64".toList := (h ⟨.linux, .arm64⟩ rfl).2.2.1 arch hmem hsuf
    rw [hamd] at harm
    revert harm
    decide

theorem no_underscore :
    (∀ os ∈ knownOS, '_' ∉ os) ∧ (∀ arch ∈ knownArch, '_' ∉ arch) ∧ '_' ∉ "test".toList := by
  decide

theorem Goarch.name_mem (a : Goarch) : a.name ∈ knownArch := by
  cases a <;> decide

theorem Goarch.name_inj {a b : Goarch} (h : a.name = b.name) : a = b := by
  revert h
  cases a <;> cases b <;> decide

/-- What ends like a donna source has no operating system before the architecture. -/
theorem not_os_suffix_c64 {os : Str} (hos : os ∈ knownOS) (s : Str) :
    ¬ '_' :: os <:+ s ++ c64 := by
  have hlast : ∀ os ∈ knownOS, ('_' :: os).getLast? ≠ some '4' := by decide
  intro ⟨p, hp⟩
  apply hlast os hos
  have := congrArg List.getLast? hp
  rw [List.getLast?_append, List.getLast?_append] at this
  cases hopt : ('_' :: os).getLast? with
  | none => simp at hopt
  | some c =>
    rw [hopt] at this
    exact this

/-- The four wrappers of a donna source go to one architecture each. -/
theorem selected_c64 (t : Target) (a : Goarch) (s : Str) :
    Selected t (s ++ c64 ++ '_' :: a.name) ↔ a = t.arch := by
  obtain ⟨hosU, harchU, htestU⟩ := no_underscore
  have haU : '_' ∉ a.name := harchU a.name a.name_mem
  constructor
  · intro ⟨_, _, harch, _⟩
    exact Goarch.name_inj (harch a.name a.name_mem ((suffix_separated haU haU).mpr rfl))
  · rintro rfl
    refine ⟨?_, ?_, ?_, ?_⟩
    · rw [suffix_separated htestU haU]
      cases t.arch <;> decide
    · intro os hmem hsuf
      have heq : os = t.arch.name := (suffix_separated (hosU os hmem) haU).mp hsuf
      have hdisj : ∀ a : Goarch, a.name ∉ knownOS := by intro a; cases a <;> decide
      exact absurd (heq ▸ hmem) (hdisj t.arch)
    · intro arch hmem hsuf
      exact (suffix_separated (harchU arch hmem) haU).mp hsuf
    · intro os hos arch hmem hsuf
      have heq : arch = t.arch.name :=
        (suffix_separated (harchU arch hmem) haU).mp ((List.suffix_append _ _).trans hsuf)
      subst heq
      obtain ⟨p, hp⟩ := hsuf
      rw [← List.append_assoc] at hp
      exact absurd ⟨p, List.append_cancel_right hp⟩ (not_os_suffix_c64 hos s)

/-! ### What each library contributes -/

/-- What the build tools printed, and what was found in the folder of zlib. -/
structure Sources where
  zlib : List Entry
  libevent : List Str
  openssl : List Str
  hasModulePow : Bool
  tor : List Str

def Sources.wrappers (src : Sources) : Library → List Wrapper
  | .zlib => zlibWrappers src.zlib
  | .libevent => libeventWrappers src.libevent
  | .openssl => opensslWrappers src.openssl
  | .tor => torWrappers src.hasModulePow src.tor

/-- The sources that survive the filters of a library. -/
def Sources.kept (src : Sources) : Library → List Str
  | .zlib => (src.zlib.filter fun file => !file.isDir && ext file.name == ".c".toList).map fun file =>
      trimSuffix file.name ".c".toList
  | .libevent => src.libevent
  | .openssl => src.openssl.filter opensslKept
  | .tor => src.tor.filter (torKept src.hasModulePow)

def Library.all : List Library := [.zlib, .libevent, .openssl, .tor]

/-- Everything the four functions write into `libtor`, in order. -/
def Sources.writes (src : Sources) : List (Path × Str) :=
  Library.all.flatMap fun lib => libraryWrites "linux".toList lib (src.wrappers lib)

/-- What they leave in a `libtor` that was empty. -/
def Sources.left (src : Sources) : Store := puts [] src.writes

/-- The source expected to be compiled for a dependency: of a `-c64` source of Tor the portable
one on 32 bits. -/
def Library.fileOn (lib : Library) (a : Goarch) (dep : Str) : Str :=
  if lib = .tor ∧ hasSuffix dep c64 = true ∧ a.is64 = false then portable dep else dep

/-- The file `name.go` of `libtor`. -/
def goFile (name : Str) : Path := ["libtor".toList, name ++ ".go".toList]

/-! ### The names of the wrappers -/

/-- Whether a source has one wrapper for each architecture. -/
def Library.perArch (lib : Library) (dep : Str) : Bool := decide (lib = .tor) && hasSuffix dep c64

/-- What stands for a dependency in the name of its wrappers. -/
def Library.stem : Library → Str → Str
  | .zlib, dep => dep
  | .libevent, dep => dep
  | .openssl, dep => flatten dep
  | .tor, dep => flatten dep

def Library.stemOn (lib : Library) (a : Goarch) (dep : Str) : Str :=
  if lib.perArch dep then lib.stem dep ++ '_' :: a.name else lib.stem dep

/-- The name of a wrapper without `.go`. -/
def baseName (lib : Library) (stem : Str) : Str :=
  "linux".toList ++ ("_".toList ++ (lib.name ++ ("_".toList ++ stem)))

theorem baseName_inj {lib lib' : Library} {stem stem' : Str}
    (h : baseName lib stem = baseName lib' stem') : lib = lib' ∧ stem = stem' := by
  unfold baseName at h
  rw [List.append_cancel_left_eq, List.append_cancel_left_eq] at h
  have hhead : lib.name.head? = lib'.name.head? := by
    have := congrArg List.head? h
    rw [List.head?_append, List.head?_append] at this
    revert this
    cases lib <;> cases lib' <;> exact id
  have hlib : lib = lib' := by
    revert hhead
    cases lib <;> cases lib' <;> decide
  subst hlib
  rw [List.append_cancel_left_eq, List.append_cancel_left_eq] at h
  exact ⟨rfl, h⟩

theorem goFile_inj {name name' : Str} (h : goFile name = goFile name') : name = name' := by
  simp only [goFile, List.cons.injEq, and_true, true_and] at h
  exact List.append_cancel_right h

theorem wrapperPath_go (lib : Library) (stem : Str) :
    wrapperPath "linux".toList lib (stem ++ ".go".toList) = goFile (baseName lib stem) := by
  simp only [wrapperPath, goFile, baseName, List.append_assoc]

theorem flatten_eq (dep : Str) : flatten dep = dep.map fun c => if c = '/' then '_' else c :=
  replaceAll_one '/' '_' dep

/-- Flattening neither makes nor breaks the ending of a donna source. -/
theorem hasSuffix_flatten (dep : Str) : hasSuffix (flatten dep) c64 = hasSuffix dep c64 := by
  rw [Bool.eq_iff_iff, hasSuffix_iff, hasSuffix_iff, flatten_eq]
  have hfix : c64.map (fun c => if c = '/' then '_' else c) = c64 := by decide
  constructor
  · intro ⟨p, hp⟩
    obtain ⟨s, t, hst, _, ht⟩ := List.map_eq_append_iff.mp hp.symm
    have hback : t = c64 := by
      refine List.ext_getElem ?_ ?_
      · rw [← ht, List.length_map]
      · intro i hi hi'
        have hmem : c64[i] ∈ c64 := List.getElem_mem hi'
        have heq : (if t[i] = '/' then '_' else t[i]) = c64[i] := by
          simp only [← ht, List.getElem_map]
        have hno : '_' ∉ c64 := by decide
        split at heq
        · exact absurd (heq ▸ hmem) hno
        · exact heq
    exact ⟨s, by rw [hst, hback]⟩
  · intro ⟨p, hp⟩
    rw [← hp, List.map_append, hfix]
    exact List.suffix_append _ _

theorem Library.perArch_iff {lib : Library} {dep : Str} :
    lib.perArch dep = true ↔ lib = .tor ∧ ∃ s, lib.stem dep = s ++ c64 := by
  unfold Library.perArch
  rw [Bool.and_eq_true, decide_eq_true_iff]
  refine and_congr_right ?_
  rintro rfl
  rw [← hasSuffix_flatten, hasSuffix_iff]
  constructor
  · intro ⟨s, hs⟩
    exact ⟨s, hs.symm⟩
  · intro ⟨s, hs⟩
    exact ⟨s, hs.symm⟩

theorem Library.perArch_congr {lib : Library} {dep dep' : Str} (h : lib.stem dep = lib.stem dep') :
    lib.perArch dep = lib.perArch dep' := by
  rw [Bool.eq_iff_iff, Library.perArch_iff, Library.perArch_iff, h]

theorem Library.fileOn_eq (lib : Library) (a : Goarch) (dep : Str) :
    lib.fileOn a dep = if lib.perArch dep = true ∧ a.is64 = false then portable dep else dep := by
  unfold Library.fileOn Library.perArch
  simp only [Bool.and_eq_true, decide_eq_true_eq, and_assoc]

theorem Library.fileOn_64 {lib : Library} {a : Goarch} {dep : Str} (h : a.is64 = true) :
    lib.fileOn a dep = dep := by
  rw [Library.fileOn_eq]
  simp [h]

theorem Library.fileOn_plain {lib : Library} {a : Goarch} {dep : Str} (h : lib.perArch dep = false) :
    lib.fileOn a dep = dep := by
  rw [Library.fileOn_eq]
  simp [h]

theorem Library.fileOn_32 {lib : Library} {a b : Goarch} {dep : Str} (ha : a.is64 = false)
    (hb : b.is64 = false) : lib.fileOn a dep = lib.fileOn b dep := by
  rw [Library.fileOn_eq, Library.fileOn_eq, ha, hb]

theorem Library.stemOn_plain {lib : Library} {a : Goarch} {dep : Str} (h : lib.perArch dep = false) :
    lib.stemOn a dep = lib.stem dep := by
  unfold Library.stemOn
  rw [if_neg (by simp [h])]

/-- A wrapper that Go selects and that is one of several of its source is the one for the target. -/
theorem stemOn_arch {lib : Library} {t : Target} {a : Goarch} {dep : Str}
    (h : Selected t (baseName lib (lib.stemOn a dep))) :
    lib.stemOn a dep = lib.stemOn t.arch dep ∧ lib.fileOn a dep = lib.fileOn t.arch dep := by
  cases hper : lib.perArch dep with
  | false =>
    rw [Library.stemOn_plain hper, Library.stemOn_plain hper, Library.fileOn_plain hper,
      Library.fileOn_plain hper]
    exact ⟨rfl, rfl⟩
  | true =>
    obtain ⟨_, s, hs⟩ := Library.perArch_iff.mp hper
    have hname : baseName lib (lib.stemOn a dep) =
        ("linux".toList ++ ("_".toList ++ (lib.name ++ ("_".toList ++ s)))) ++ c64 ++ '_' :: a.name := by
      simp only [baseName, Library.stemOn, hper, if_true, hs, List.append_assoc]
    rw [hname, selected_c64] at h
    rw [h]
    exact ⟨rfl, rfl⟩

/-- One wrapper for each kept source and, as far as they differ, for each architecture. -/
theorem mem_wrappers {src : Sources} {lib : Library} {w : Wrapper} :
    w ∈ src.wrappers lib ↔
      ∃ dep ∈ src.kept lib, ∃ a : Goarch, w = ⟨lib.stemOn a dep ++ ".go".toList, lib.fileOn a dep⟩ := by
  have hplain : ∀ {l : Library} {dep : Str}, l.perArch dep = false →
      ((∃ a : Goarch, w = ⟨l.stemOn a dep ++ ".go".toList, l.fileOn a dep⟩) ↔
        w = ⟨l.stem dep ++ ".go".toList, dep⟩) := by
    intro l dep h
    constructor
    · intro ⟨a, ha⟩
      rwa [Library.stemOn_plain h, Library.fileOn_plain h] at ha
    · intro hw
      exact ⟨.amd64, by rwa [Library.stemOn_plain h, Library.fileOn_plain h]⟩
  cases lib with
  | zlib =>
    simp only [Sources.wrappers, zlibWrappers, Sources.kept, List.mem_map, exists_exists_and_eq_and]
    refine exists_congr fun file => and_congr_right fun _ => ?_
    rw [hplain (show Library.zlib.perArch _ = false from rfl), eq_comm]
    rfl
  | libevent =>
    simp only [Sources.wrappers, libeventWrappers, Sources.kept, List.mem_map]
    refine exists_congr fun dep => and_congr_right fun _ => ?_
    rw [hplain (show Library.libevent.perArch _ = false from rfl), eq_comm]
    rfl
  | openssl =>
    simp only [Sources.wrappers, opensslWrappers, Sources.kept, List.mem_map]
    refine exists_congr fun dep => and_congr_right fun _ => ?_
    rw [hplain (show Library.openssl.perArch _ = false from rfl), eq_comm]
    rfl
  | tor =>
    simp only [Sources.wrappers, torWrappers, Sources.kept, List.mem_flatMap]
    refine exists_congr fun dep => and_congr_right fun _ => ?_
    unfold torWrap
    cases hper : hasSuffix dep c64 with
    | false =>
      have hnot : Library.tor.perArch dep = false := by simp [Library.perArch, hper]
      rw [hplain hnot]
      simp [Library.stem]
    | true =>
      have hname : ∀ a : Goarch, Library.tor.stemOn a dep = flatten dep ++ ("_".toList ++ a.name) := by
        intro a
        simp [Library.stemOn, Library.perArch, hper, Library.stem]
      have hfile : ∀ a : Goarch, Library.tor.fileOn a dep = if a.is64 = true then dep else portable dep := by
        intro a
        cases a <;> simp [Library.fileOn, hper, Goarch.is64]
      simp only [if_true, hname, hfile, List.map_cons, List.map_nil, List.mem_append, List.mem_cons,
        List.not_mem_nil, or_false, List.append_assoc]
      constructor
      · rintro ((h | h) | h | h)
        · exact ⟨.amd64, h⟩
        · exact ⟨.arm64, h⟩
        · exact ⟨.i386, h⟩
        · exact ⟨.arm, h⟩
      · intro ⟨a, h⟩
        cases a with
        | amd64 => exact Or.inl (Or.inl h)
        | arm64 => exact Or.inl (Or.inr h)
        | i386 => exact Or.inr (Or.inl h)
        | arm => exact Or.inr (Or.inr h)

end GoLibtor
