import GoLibtor.Build.Phases

/-! The wipe of the sources, and whether the wrappers point at what it leaves. -/
namespace GoLibtor

open Text Files Transition Program

def Op.removes : Op → Bool
  | .removeAll _ => true
  | .remove _ => true
  | .removeWalk _ _ => true
  | _ => false

/-- Every removal succeeded. -/
def Removes (vs : List Event) : Prop := ∀ op d, Event.did op d ∈ vs → op.removes = true → d = none

theorem Removes.left {vs ws : List Event} (h : Removes (vs ++ ws)) : Removes vs :=
  fun op d hmem => h op d (List.mem_append_left ws hmem)

theorem Removes.right {vs ws : List Event} (h : Removes (vs ++ ws)) : Removes ws :=
  fun op d hmem => h op d (List.mem_append_right vs hmem)

/-! ### The loops that wipe -/

/-- Whether the wipe of a folder removes the file `p` for this entry of the folder. -/
def wiped (keepDir keepFile : Str → Bool) (dir p : Path) (file : Entry) : Bool :=
  if file.isDir then !keepDir file.name && (dir ++ [file.name]).isPrefixOf p
  else !keepFile file.name && decide (p = dir ++ [file.name])

section

variable {σ : Type} {m : Machine σ} {pk : Packages} {o : Options}

theorem removeAll_returns {p q : Path} {w w' : World σ} {u : Unit} {vs : List Event}
    (h : Returns (removeAll m p >>= ignore) w u w' vs) (hremoves : Removes vs) :
    get w'.files q = if p.isPrefixOf q = true then none else get w.files q := by
  obtain ⟨err, t, us, us', hact, hignore, rfl⟩ := bind_returns.mp h
  obtain ⟨rfl, -⟩ := ignore_returns.mp hignore
  obtain ⟨d, -, -, rfl, rfl⟩ := act_returns.mp hact
  obtain rfl := hremoves (.removeAll p) d (List.mem_append_left _ (List.mem_singleton.mpr rfl)) rfl
  change get (Files.removeAll w.files p fun _ => false) q = _
  rw [get_removeAll]
  simp

theorem remove_returns {p q : Path} {w w' : World σ} {u : Unit} {vs : List Event}
    (h : Returns (remove m p >>= ignore) w u w' vs) (hremoves : Removes vs) :
    get w'.files q = if q = p then none else get w.files q := by
  obtain ⟨err, t, us, us', hact, hignore, rfl⟩ := bind_returns.mp h
  obtain ⟨rfl, -⟩ := ignore_returns.mp hignore
  obtain ⟨d, -, -, rfl, rfl⟩ := act_returns.mp hact
  obtain rfl := hremoves (.remove p) d (List.mem_append_left _ (List.mem_singleton.mpr rfl)) rfl
  exact get_remove _ _ _

/-- The wipe removes what one of the entries makes it remove, and nothing else. -/
theorem wipe_get {keepDir keepFile : Str → Bool} {dir : Path} {files : List Entry} {w w' : World σ}
    {u : PUnit} {vs : List Event} (h : Returns (wipe m keepDir keepFile dir files) w u w' vs)
    (hremoves : Removes vs) (p : Path) :
    get w'.files p = if files.any (wiped keepDir keepFile dir p) = true then none else get w.files p := by
  unfold wipe at h
  induction files generalizing w vs with
  | nil =>
    obtain ⟨rfl, -⟩ := forM_nil_returns.mp h
    rfl
  | cons file files ih =>
    obtain ⟨t, us, us', hone, hrest, rfl⟩ := forM_cons_returns.mp h
    have hfirst : get t.files p =
        if wiped keepDir keepFile dir p file = true then none else get w.files p := by
      unfold wiped
      cases hdir : file.isDir with
      | true =>
        rw [hdir] at hone
        cases hkeep : keepDir file.name with
        | true =>
          rw [hkeep] at hone
          obtain ⟨-, rfl, -⟩ := pure_returns.mp hone
          simp
        | false =>
          rw [hkeep] at hone
          simpa using removeAll_returns (q := p) hone hremoves.left
      | false =>
        rw [hdir] at hone
        cases hkeep : keepFile file.name with
        | true =>
          rw [hkeep] at hone
          obtain ⟨-, rfl, -⟩ := pure_returns.mp hone
          simp
        | false =>
          rw [hkeep] at hone
          simpa using remove_returns (q := p) hone hremoves.left
    rw [ih hrest hremoves.right, hfirst, List.any_cons]
    cases wiped keepDir keepFile dir p file <;> cases files.any (wiped keepDir keepFile dir p) <;> rfl

/-- A file below a folder of the folder survives if that folder is kept. -/
theorem wiped_folder {keepDir keepFile : Str → Bool} {fs : Store} {dir rest : Path} {name : Str}
    (hrest : rest ≠ []) (h : get fs (dir ++ name :: rest) ≠ none) :
    (Files.readDir fs dir).any (wiped keepDir keepFile dir (dir ++ name :: rest)) = !keepDir name := by
  have hentry := fun e => readDir_folder (e := e) hrest h
  have hname : ∀ e : Entry, (dir ++ [e.name]).isPrefixOf (dir ++ name :: rest) = true → e.name = name := by
    intro e hbelow
    rw [List.isPrefixOf_iff_prefix, List.prefix_append_right_inj] at hbelow
    exact (List.cons_prefix_cons.mp hbelow).1
  rw [Bool.eq_iff_iff, List.any_eq_true]
  constructor
  · rintro ⟨e, he, hwiped⟩
    unfold wiped at hwiped
    split at hwiped
    · rw [Bool.and_eq_true] at hwiped
      rw [← hname e hwiped.2]
      exact hwiped.1
    next hdir =>
      rw [Bool.and_eq_true, decide_eq_true_eq, List.append_cancel_left_eq] at hwiped
      exact absurd (List.cons.inj hwiped.2).2 hrest
  · intro hkeep
    have he := ((hentry ⟨name, true⟩).mpr rfl).1
    refine ⟨_, he, ?_⟩
    unfold wiped
    rw [if_pos rfl, hkeep, Bool.true_and, List.isPrefixOf_iff_prefix, List.prefix_append_right_inj]
    exact ⟨rest, rfl⟩

/-- A file of the folder survives if its name is kept. -/
theorem wiped_file {keepDir keepFile : Str → Bool} {fs : Store} {top : Str} {dir : Path}
    (hdir : dir.head? = some top) (htree : Tree (within (some top) fs)) {name : Str}
    (h : get fs (dir ++ [name]) ≠ none) :
    (Files.readDir fs dir).any (wiped keepDir keepFile dir (dir ++ [name])) = !keepFile name := by
  have hentry := fun e => readDir_file (e := e) hdir htree h
  rw [Bool.eq_iff_iff, List.any_eq_true]
  constructor
  · rintro ⟨e, he, hwiped⟩
    unfold wiped at hwiped
    split at hwiped
    next hisDir =>
      rw [Bool.and_eq_true, List.isPrefixOf_iff_prefix, List.prefix_append_right_inj] at hwiped
      have hname : e.name = name := (List.cons_prefix_cons.mp hwiped.2).1
      have hfile := (hentry e).mp ⟨he, hname⟩
      rw [hfile] at hisDir
      cases hisDir
    · rw [Bool.and_eq_true, decide_eq_true_eq, List.append_cancel_left_eq] at hwiped
      rw [(List.cons.inj hwiped.2).1]
      exact hwiped.1
  · intro hkeep
    have he := ((hentry ⟨name, false⟩).mpr rfl).1
    refine ⟨_, he, ?_⟩
    unfold wiped
    rw [if_neg (by simp), hkeep]
    simp

/-- Wipe a folder as it is listed. -/
def wipeListed (m : Machine σ) (keepDir keepFile : Str → Bool) (dir : Path) : Gen σ PUnit := do
  let listing ← readDir m dir
  let files ← checked listing
  wipe m keepDir keepFile dir files

/-- What a wipe spares of a folder, by the rest of the path. -/
def spares (keepDir keepFile : Str → Bool) : Path → Bool
  | [] => true
  | [name] => keepFile name
  | name :: _ => keepDir name

theorem wipeListed_get {keepDir keepFile : Str → Bool} {dir : Path} {w w' : World σ} {u : PUnit}
    {vs : List Event} (h : Returns (wipeListed m keepDir keepFile dir) w u w' vs) (hremoves : Removes vs)
    (p : Path) : get w'.files p =
      if (Files.readDir w.files dir).any (wiped keepDir keepFile dir p) = true then none
      else get w.files p := by
  obtain ⟨listing, s, us₁, _, hlisting, h₁, rfl⟩ := bind_returns.mp h
  obtain ⟨files, t, us₂, _, hchecked, hwipe, rfl⟩ := bind_returns.mp h₁
  obtain ⟨d, hd, hfiles, rfl⟩ := look_returns rfl hlisting
  obtain ⟨hok, rfl, rfl⟩ := checked_returns.mp hchecked
  cases d with
  | some d => cases hd.symm.trans hok
  | none =>
    obtain rfl : Files.readDir w.files dir = files := Except.ok.inj (hd.symm.trans hok)
    rw [wipe_get hwipe hremoves.right.right p, hfiles]

/-- A file survives the wipe of a folder above it if it is spared. -/
theorem wipeListed_survives {keepDir keepFile : Str → Bool} {dir rest : Path} {top : Str} {w w' : World σ}
    {u : PUnit} {vs : List Event} (h : Returns (wipeListed m keepDir keepFile dir) w u w' vs)
    (hremoves : Removes vs) (hdir : dir.head? = some top) (htree : Tree (within (some top) w.files))
    (hrest : rest ≠ []) :
    get w'.files (dir ++ rest) ≠ none ↔
      get w.files (dir ++ rest) ≠ none ∧ spares keepDir keepFile rest = true := by
  rw [wipeListed_get h hremoves]
  by_cases hthere : get w.files (dir ++ rest) = none
  · simp [hthere]
  have hwiped : (Files.readDir w.files dir).any (wiped keepDir keepFile dir (dir ++ rest)) =
      !spares keepDir keepFile rest := by
    cases rest with
    | nil => exact absurd rfl hrest
    | cons name rest =>
      cases rest with
      | nil => exact wiped_file hdir htree hthere
      | cons part rest => exact wiped_folder (by simp) hthere
  rw [hwiped]
  cases spares keepDir keepFile rest <;> simp [hthere]

/-- A wipe brings no files, so a tree stays one. -/
theorem wipeListed_tree {keepDir keepFile : Str → Bool} {dir : Path} {top : Option Str} {w w' : World σ}
    {u : PUnit} {vs : List Event} (h : Returns (wipeListed m keepDir keepFile dir) w u w' vs)
    (hremoves : Removes vs) (htree : Tree (within top w.files)) : Tree (within top w'.files) := by
  rw [tree_iff] at htree ⊢
  have hsub : ∀ p, get (within top w'.files) p ≠ none → get (within top w.files) p ≠ none := by
    intro p hp
    rw [get_within] at hp ⊢
    split at hp
    next htop =>
      rw [if_pos htop]
      rw [wipeListed_get h hremoves] at hp
      intro hnone
      rw [hnone, ite_self] at hp
      exact hp rfl
    next => exact absurd rfl hp
  intro p q hp hq hbelow
  exact htree p q (hsub p hp) (hsub q hq) hbelow

theorem wipeTor_returns {tgtf : Path} {w w' : World σ} {u : Unit} {vs : List Event}
    (h : Returns (wipeTor m tgtf) w u w' vs) : ∃ s t x err us₁ us₂ us₃ us₄,
      Returns (wipeListed m (· == "src".toList) (· == "LICENSE".toList) tgtf) w ⟨⟩ s us₁ ∧
      Returns (wipeListed m torKeepsDir (fun _ => false) (tgtf ++ ["src".toList])) s ⟨⟩ t us₂ ∧
      Returns (removeWalk m ".deps".toList (tgtf ++ ["src".toList])) t err x us₃ ∧ w'.files = x.files ∧
      vs = us₁ ++ (us₂ ++ (us₃ ++ us₄)) := by
  obtain ⟨r₁, w₁, xs₁, _, hread₁, h₁, rfl⟩ := bind_returns.mp h
  obtain ⟨r₂, w₂, xs₂, _, hchecked₁, h₂, rfl⟩ := bind_returns.mp h₁
  obtain ⟨_, w₃, xs₃, _, hwipe₁, h₃, rfl⟩ := bind_returns.mp h₂
  obtain ⟨r₄, w₄, xs₄, _, hread₂, h₄, rfl⟩ := bind_returns.mp h₃
  obtain ⟨r₅, w₅, xs₅, _, hchecked₂, h₅, rfl⟩ := bind_returns.mp h₄
  obtain ⟨_, w₆, xs₆, _, hwipe₂, h₆, rfl⟩ := bind_returns.mp h₅
  obtain ⟨err, w₇, xs₇, _, hremove, h₇, rfl⟩ := bind_returns.mp h₆
  obtain ⟨_, w₈, xs₈, _, hignore, h₈, rfl⟩ := bind_returns.mp h₇
  obtain ⟨rfl, rfl⟩ := ignore_returns.mp hignore
  obtain ⟨_, w₉, xs₉, _, hwalk, hcheck, rfl⟩ := bind_returns.mp h₈
  obtain ⟨-, rfl, rfl⟩ := check_returns.mp hcheck
  obtain ⟨d, -, -, rfl, -⟩ := act_returns.mp hwalk
  have hsame : (Op.walk (tgtf ++ ["src".toList])).effect w₈.files d = w₈.files := effect_of_no_change rfl
  refine ⟨w₃, w₆, w₈, err, xs₁ ++ (xs₂ ++ xs₃), xs₄ ++ (xs₅ ++ xs₆), xs₇, xs₉, ?_, ?_, hremove,
    hsame, by simp⟩
  · exact bind_returns.mpr ⟨r₁, w₁, xs₁, xs₂ ++ xs₃, hread₁,
      bind_returns.mpr ⟨r₂, w₂, xs₂, xs₃, hchecked₁, hwipe₁, rfl⟩, rfl⟩
  · exact bind_returns.mpr ⟨r₄, w₄, xs₄, xs₅ ++ xs₆, hread₂,
      bind_returns.mpr ⟨r₅, w₅, xs₅, xs₆, hchecked₂, hwipe₂, rfl⟩, rfl⟩

/-- The walk over the sources leaves a file in whose path nothing is called `.deps`. -/
theorem removeWalk_get {dir p : Path} {w w' : World σ} {err : Option Err} {vs : List Event}
    (h : Returns (removeWalk m ".deps".toList dir) w err w' vs)
    (hp : dir <+: p → ".deps".toList ∉ p.drop dir.length) : get w'.files p = get w.files p := by
  obtain ⟨d, -, -, rfl, -⟩ := act_returns.mp h
  have hget : ∀ keep, get (Files.removeWalk w.files ".deps".toList dir keep) p = get w.files p := by
    intro keep
    rw [get_removeWalk]
    by_cases hdir : dir <+: p
    · rw [walkRemoves_of_not_mem _ _ (hp hdir)]
      simp
    · simp [hdir]
  cases d with
  | none => exact hget _
  | some d => exact hget _

/-- The wipe of a library. -/
def Library.wipe (m : Machine σ) (lib : Library) : Gen σ PUnit :=
  match lib with
  | .zlib => wipeListed m (fun _ => false) isSource lib.folder
  | .libevent => wipeLibevent m lib.folder
  | .openssl => wipeOpenSSL m lib.folder
  | .tor => wipeTor m lib.folder

/-- What the wipe of a library spares of its folder. -/
def Library.spares : Library → Path → Bool
  | .zlib, rest => GoLibtor.spares (fun _ => false) isSource rest
  | .libevent, rest => GoLibtor.spares libeventKeepsDir isSourceOrLicense rest
  | .openssl, rest => GoLibtor.spares opensslKeepsDir isSourceOrLicense rest
  | .tor, [] => true
  | .tor, [name] => name == "LICENSE".toList
  | .tor, top :: rest => top == "src".toList && GoLibtor.spares torKeepsDir (fun _ => false) rest

/-- The second wipe of Tor, that of `src`, leaves the files at the top. -/
theorem wipeSrc_top {dir : Path} {name : Str} {w w' : World σ} {u : PUnit} {vs : List Event}
    (h : Returns (wipeListed m torKeepsDir (fun _ => false) (dir ++ ["src".toList])) w u w' vs)
    (hremoves : Removes vs) : get w'.files (dir ++ [name]) = get w.files (dir ++ [name]) := by
  rw [wipeListed_get h hremoves, if_neg]
  intro hany
  obtain ⟨e, -, hwiped⟩ := List.any_eq_true.mp hany
  have hlong : ∀ q : Path, ¬ dir ++ ["src".toList] ++ [e.name] ++ q = dir ++ [name] := by
    intro q heq
    have hlength := congrArg List.length heq
    simp only [List.length_append, List.length_singleton] at hlength
    omega
  unfold wiped at hwiped
  split at hwiped
  · rw [Bool.and_eq_true, List.isPrefixOf_iff_prefix] at hwiped
    obtain ⟨q, hq⟩ := hwiped.2
    exact hlong q hq
  · rw [Bool.and_eq_true, decide_eq_true_eq] at hwiped
    exact hlong [] ((List.append_nil _).trans hwiped.2.symm)

theorem wipeTor_survives {rest : Path} {w w' : World σ} {u : Unit} {vs : List Event}
    (h : Returns (wipeTor m Library.tor.folder) w u w' vs) (hremoves : Removes vs)
    (htree : Tree (within (some linux) w.files)) (hrest : rest ≠ []) (hdeps : ".deps".toList ∉ rest) :
    get w'.files (Library.tor.folder ++ rest) ≠ none ↔
      get w.files (Library.tor.folder ++ rest) ≠ none ∧ Library.tor.spares rest = true := by
  obtain ⟨s, t, x, err, us₁, us₂, us₃, us₄, htop, hsrc, hwalk, hfiles, rfl⟩ := wipeTor_returns h
  have hfirst := wipeListed_survives htop hremoves.left rfl htree hrest
  have hwalked : get w'.files (Library.tor.folder ++ rest) = get t.files (Library.tor.folder ++ rest) := by
    rw [hfiles]
    refine removeWalk_get hwalk fun _ hmem => ?_
    cases rest with
    | nil => exact hrest rfl
    | cons name rest => exact hdeps (List.mem_cons_of_mem name hmem)
  rw [hwalked]
  cases rest with
  | nil => exact absurd rfl hrest
  | cons name rest =>
    cases rest with
    | nil =>
      rw [wipeSrc_top hsrc hremoves.right.left]
      exact hfirst
    | cons part rest =>
      by_cases hname : name = "src".toList
      · subst hname
        have hpath : Library.tor.folder ++ "src".toList :: part :: rest =
            (Library.tor.folder ++ ["src".toList]) ++ part :: rest := by simp
        have hsecond := wipeListed_survives hsrc hremoves.right.left rfl
          (wipeListed_tree htop hremoves.left htree) (List.cons_ne_nil part rest)
        rw [hpath, hsecond, ← hpath, hfirst]
        simp [spares, Library.spares]
      · have hne : (name == "src".toList) = false := beq_eq_false_iff_ne.mpr hname
        have hgone : get s.files (Library.tor.folder ++ name :: part :: rest) = none := by
          by_contra hthere
          have hspared : (name == "src".toList) = true := (hfirst.mp hthere).2
          rw [hne] at hspared
          cases hspared
        have hnot : Library.tor.spares (name :: part :: rest) = false := by
          change (name == "src".toList && spares torKeepsDir (fun _ => false) (part :: rest)) = false
          rw [hne, Bool.false_and]
        rw [wipeListed_get hsrc hremoves.right.left, hgone, ite_self, hnot]
        simp

/-- A file of the library survives its wipe if it is spared. -/
theorem wipe_survives {lib : Library} {rest : Path} {w w' : World σ} {u : PUnit} {vs : List Event}
    (h : Returns (lib.wipe m) w u w' vs) (hremoves : Removes vs) (htree : Tree (within (some linux) w.files))
    (hrest : rest ≠ []) (hdeps : lib = .tor → ".deps".toList ∉ rest) :
    get w'.files (lib.folder ++ rest) ≠ none ↔
      get w.files (lib.folder ++ rest) ≠ none ∧ lib.spares rest = true := by
  cases lib with
  | zlib => exact wipeListed_survives h hremoves rfl htree hrest
  | libevent => exact wipeListed_survives h hremoves rfl htree hrest
  | openssl => exact wipeListed_survives h hremoves rfl htree hrest
  | tor => exact wipeTor_survives h hremoves htree hrest (hdeps rfl)

/-! ### The paths of the sources -/

/-- The C file a wrapper of the library names. -/
def Library.source (lib : Library) (file : Str) : Path := join lib.folder (file ++ ".c".toList)

/-- What the file is generated from, if it is. -/
def Library.sourceTemplate (lib : Library) (file : Str) : Path := join lib.folder (file ++ ".c.in".toList)

/-- A source of Tor lies in no folder with a dot in its name. -/
theorem source_no_deps {file : Str} {rest : Path} (hfile : ∀ c ∈ file, torSourceChar c = true)
    (h : Library.tor.source file = Library.tor.folder ++ rest) : ".deps".toList ∉ rest := by
  intro hmem
  have hjoin : ".deps".toList ∈ Library.tor.source file := h ▸ List.mem_append_right _ hmem
  unfold Library.source join at hjoin
  obtain ⟨init, last, hsplit⟩ := splitOn_ending file
  rw [List.mem_reverse, hsplit ".c".toList (by decide)] at hjoin
  rcases mem_foldl_cleanStep hjoin with hnil | hparts
  · cases hnil
  rcases List.mem_append.mp hparts with hfolder | hparts
  · revert hfolder
    decide
  rcases List.mem_append.mp hparts with hinit | hlast
  · have hpart : ".deps".toList ∈ splitOn file '/' := by
      have hwhole := hsplit [] (by simp)
      rw [List.append_nil] at hwhole
      rw [hwhole]
      exact List.mem_append_left _ hinit
    have hdot : torSourceChar '.' = true := hfile '.' (mem_splitOn hpart (by decide))
    revert hdot
    decide
  · have heq : ".deps".toList = last ++ ".c".toList := List.mem_singleton.mp hlast
    have hend : ".deps".toList.getLast? = some 'c' := by
      rw [heq, List.getLast?_append]
      rfl
    revert hend
    decide

theorem extractTorSources_char {out dep : Str} (h : dep ∈ extractTorSources out) :
    ∀ c ∈ dep, torSourceChar c = true := by
  obtain ⟨t, ht, rfl⟩ := List.mem_map.mp h
  obtain ⟨prev, rest, hends⟩ := Regexp.mem_findAllSubmatch ht
  exact Regexp.submatch_of_group_plus_set hends

theorem torWrappers_char {hasModulePow : Bool} {deps : List Str}
    (hdeps : ∀ dep ∈ deps, ∀ c ∈ dep, torSourceChar c = true) {wrapper : Wrapper}
    (h : wrapper ∈ torWrappers hasModulePow deps) : ∀ c ∈ wrapper.file, torSourceChar c = true := by
  obtain ⟨dep, hdep, hwrap⟩ := List.mem_flatMap.mp h
  have hchars := hdeps dep (List.mem_filter.mp hdep).1
  have hportable : ∀ c ∈ portable dep, torSourceChar c = true := by
    intro c hc
    rcases mem_replaceFrom hc with h | h
    · exact hchars c h
    · cases h
  unfold torWrap at hwrap
  split at hwrap
  · rcases List.mem_append.mp hwrap with hmem | hmem
    · obtain ⟨arch, -, rfl⟩ := List.mem_map.mp hmem
      exact hchars
    · obtain ⟨arch, -, rfl⟩ := List.mem_map.mp hmem
      exact hportable
  · rw [List.mem_singleton.mp hwrap]
    exact hchars

/-- The path of a source is not that of its folder. -/
theorem source_rest {lib : Library} {file : Str} {rest : Path}
    (h : lib.source file = lib.folder ++ rest) : rest ≠ [] := by
  rintro rfl
  obtain ⟨folders, stem, heq⟩ := join_last lib.folder file
  have hlast := congrArg List.getLast? ((heq ".c".toList (Or.inl rfl)).symm.trans h)
  rw [List.getLast?_append, List.append_nil] at hlast
  have hname : stem ++ ".c".toList = lib.name := Option.some.inj hlast
  have hend : lib.name.getLast? = some 'c' := by
    rw [← hname, List.getLast?_append]
    rfl
  revert hend
  cases lib <;> decide

/-! ### Generated sources of OpenSSL -/

/-- A source that `make` is asked for. -/
def generates (fs : Store) (tgtf : Path) (dep : Str) : Bool :=
  !present fs (join tgtf (dep ++ ".c".toList)) && present fs (join tgtf (dep ++ ".c.in".toList))

theorem findGenerated_returns {tgtf : Path} {generatedDeps result : List Str} {dep : Str} {w w' : World σ}
    {vs : List Event} (h : Returns (findGenerated m tgtf generatedDeps dep) w result w' vs) :
    w'.files = w.files ∧
      result = if generates w.files tgtf dep = true then generatedDeps ++ [dep ++ ".c".toList]
        else generatedDeps := by
  unfold generates
  obtain ⟨answer, s, us, _, hstat, hrest, rfl⟩ := bind_returns.mp h
  obtain ⟨d, rfl, hfiles, -⟩ := look_returns rfl hstat
  cases d with
  | some d => exact absurd hrest not_fail_returns
  | none =>
    cases hthere : present w.files (join tgtf (dep ++ ".c".toList)) with
    | true =>
      simp only [Op.see, hthere, if_true] at hrest
      obtain ⟨rfl, rfl, -⟩ := pure_returns.mp hrest
      exact ⟨hfiles, rfl⟩
    | false =>
      simp only [Op.see, hthere, Bool.false_eq_true, if_false] at hrest
      obtain ⟨answer, t, us', _, hstat', hrest', rfl⟩ := bind_returns.mp hrest
      obtain ⟨d, rfl, hfiles', -⟩ := look_returns rfl hstat'
      cases d with
      | some d => exact absurd hrest' not_fail_returns
      | none =>
        cases htemplate : present s.files (join tgtf (dep ++ ".c.in".toList)) with
        | true =>
          simp only [Op.see, htemplate, if_true] at hrest'
          obtain ⟨rfl, rfl, -⟩ := pure_returns.mp hrest'
          rw [hfiles] at htemplate
          rw [htemplate]
          exact ⟨hfiles'.trans hfiles, rfl⟩
        | false =>
          simp only [Op.see, htemplate, Bool.false_eq_true, if_false] at hrest'
          obtain ⟨rfl, rfl, -⟩ := pure_returns.mp hrest'
          rw [hfiles] at htemplate
          rw [htemplate]
          exact ⟨hfiles'.trans hfiles, rfl⟩

theorem foldlM_findGenerated_returns {tgtf : Path} {deps init result : List Str} {w w' : World σ}
    {vs : List Event} (h : Returns (deps.foldlM (findGenerated m tgtf) init) w result w' vs) :
    w'.files = w.files ∧
      result = init ++ (deps.filter (generates w.files tgtf)).map fun dep => dep ++ ".c".toList := by
  induction deps generalizing init w vs with
  | nil =>
    obtain ⟨rfl, rfl, -⟩ := pure_returns.mp h
    exact ⟨rfl, by simp⟩
  | cons dep deps ih =>
    obtain ⟨next, s, us, us', hfirst, hrest, rfl⟩ := bind_returns.mp h
    obtain ⟨hfiles, rfl⟩ := findGenerated_returns hfirst
    obtain ⟨hfiles', rfl⟩ := ih hrest
    refine ⟨hfiles'.trans hfiles, ?_⟩
    rw [hfiles, List.filter_cons]
    split <;> simp

end

end GoLibtor
