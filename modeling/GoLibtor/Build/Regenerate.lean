import GoLibtor.Build.Lock
import GoLibtor.Build.Phases

/-! Generating again without an update: what a run writes into `libtor` does not depend on what was
there, and what it does not write stays. -/
namespace GoLibtor

open Text Files Transition Program

/-! ### Worlds that differ in hidden files -/

def visible (fs : Store) : Store := fs.filter fun e => !hidden e.1

/-- Two worlds in which only the contents of `libtor` differ, and not in C sources. -/
def Alike {σ : Type} (w w' : World σ) : Prop :=
  w.machine = w'.machine ∧ visible w.files = visible w'.files

theorem get_visible (fs : Store) {p : Path} (hp : hidden p = false) : get (visible fs) p = get fs p := by
  unfold visible
  rw [get_filter fs (fun q => !hidden q), hp]
  rfl

/-- What can be said of a path from the entries below it does not depend on hidden files. -/
theorem filter_visible (fs : Store) {p : Path} (hp : ∀ q, hidden q = true → ¬ p <+: q) :
    ((visible fs).filter fun e => p.isPrefixOf e.1) = fs.filter fun e => p.isPrefixOf e.1 := by
  unfold visible
  rw [List.filter_filter]
  apply List.filter_congr
  intro e _
  cases hq : hidden e.1 with
  | false => simp
  | true =>
    have hnot : p.isPrefixOf e.1 = false := by
      rw [← Bool.not_eq_true, List.isPrefixOf_iff_prefix]
      exact hp _ hq
    rw [hnot]
    rfl

theorem present_eq (fs : Store) (p : Path) :
    present fs p = !(fs.filter fun e => p.isPrefixOf e.1).isEmpty := by
  unfold present
  rw [Bool.eq_iff_iff, List.any_eq_true, Bool.not_eq_true', List.isEmpty_eq_false_iff, ne_eq,
    List.filter_eq_nil_iff]
  push Not
  rfl

theorem see_visible {op : Op} (hb : op.Blind) (fs : Store) : op.see (visible fs) = op.see fs := by
  have hget : ∀ p, op.observes = some p → get (visible fs) p = get fs p := by
    intro p hp
    apply get_visible
    rw [← Bool.not_eq_true]
    intro hq
    exact hb p hp p hq List.prefix_rfl
  cases op with
  | openFile p => exact hget p rfl
  | readFile p => exact hget p rfl
  | stat p =>
    change present (visible fs) p = present fs p
    rw [present_eq, present_eq, filter_visible fs (hb p rfl)]
  | readDir p =>
    change Files.readDir (visible fs) p = Files.readDir fs p
    unfold Files.readDir below
    rw [filter_visible fs (hb p rfl)]
  | writeFile p data => rfl
  | removeAll p => rfl
  | remove p => rfl
  | mkdirAll p => rfl
  | removeWalk name p => rfl
  | walk p => rfl
  | abs p => rfl

theorem walkRemoves_visible (fs : Store) (name : Str) {dir : Path}
    (hdir : ∀ q, hidden q = true → ¬ dir <+: q) (rest : Path) :
    walkRemoves (visible fs) name dir rest = walkRemoves fs name dir rest := by
  induction rest generalizing dir with
  | nil => rfl
  | cons part rest ih =>
    have hnext : ∀ q, hidden q = true → ¬ dir ++ [part] <+: q := by
      intro q hq hbelow
      exact hdir q hq ((List.prefix_append dir [part]).trans hbelow)
    have hget : get (visible fs) (dir ++ [name]) = get fs (dir ++ [name]) := by
      apply get_visible
      rw [← Bool.not_eq_true]
      intro hq
      exact hdir _ hq (List.prefix_append dir [name])
    unfold walkRemoves
    rw [hget, ih hnext]

/-- An operation works on the visible files alone. -/
theorem effect_visible {op : Op} (hb : op.Blind) (fs : Store) (d : Option Damage) :
    visible (op.effect fs d) = visible (op.effect (visible fs) d) := by
  have hidem : ∀ fs : Store, visible (visible fs) = visible fs := by
    intro fs
    unfold visible
    rw [List.filter_filter]
    simp
  have hput : ∀ p c, visible (put fs p c) = visible (put (visible fs) p c) := by
    intro p c
    unfold put
    change visible ([(p, c)] ++ fs) = visible ([(p, c)] ++ visible fs)
    rw [visible, visible, List.filter_append, List.filter_append]
    exact congrArg _ (hidem fs).symm
  have hcut : ∀ f : Path × Str → Bool, visible (fs.filter f) = visible ((visible fs).filter f) := by
    intro f
    unfold visible
    rw [List.filter_filter, List.filter_filter, List.filter_filter]
    congr 1
    funext e
    cases hidden e.1 <;> simp
  cases op with
  | writeFile p data =>
    cases d with
    | none => exact hput p data
    | some d =>
      change visible ((d.data.map (put fs p)).getD fs) =
        visible ((d.data.map (put (visible fs) p)).getD (visible fs))
      cases d.data with
      | none => exact (hidem fs).symm
      | some c => exact hput p c
  | removeAll p => cases d <;> exact hcut _
  | remove p =>
    cases d with
    | none => exact hcut _
    | some d => exact (hidem fs).symm
  | removeWalk name p =>
    have hwalk : ∀ keep, visible (Files.removeWalk fs name p keep) =
        visible (Files.removeWalk (visible fs) name p keep) := by
      intro keep
      unfold Files.removeWalk
      simp only [walkRemoves_visible fs name (hb p rfl)]
      exact hcut _
    cases d <;> exact hwalk _
  | openFile p => cases d <;> exact (hidem fs).symm
  | readFile p => cases d <;> exact (hidem fs).symm
  | stat p => cases d <;> exact (hidem fs).symm
  | readDir p => cases d <;> exact (hidem fs).symm
  | mkdirAll p => cases d <;> exact (hidem fs).symm
  | walk p => cases d <;> exact (hidem fs).symm
  | abs p => cases d <;> exact (hidem fs).symm

section

variable {σ A B : Type} {m : Machine σ} {pk : Packages} {o : Options}

theorem event_visible {op : Op} (hb : op.Blind) (fs : Store) (d : Option Damage) :
    op.event (visible fs) d = op.event fs d := by
  have hsee := see_visible hb fs
  cases op with
  | readFile p =>
    have hget : get (visible fs) p = get fs p := hsee
    unfold Op.event
    simp only [hget]
  | readDir p =>
    have hlist : Files.readDir (visible fs) p = Files.readDir fs p := hsee
    unfold Op.event
    simp only [hlist]
  | openFile p => rfl
  | writeFile p data => rfl
  | removeAll p => rfl
  | remove p => rfl
  | stat p => rfl
  | mkdirAll p => rfl
  | removeWalk name p => rfl
  | walk p => rfl
  | abs p => rfl

theorem attempt_visible {op : Op} (hb : op.Blind) (s : σ) (fs : Store) :
    attempt m ⟨s, visible fs⟩ op = attempt m ⟨s, fs⟩ op := by
  have hsee := see_visible hb fs
  cases op with
  | readFile p =>
    have hget : get (visible fs) p = get fs p := hsee
    unfold attempt
    simp only [hget]
  | openFile p => rfl
  | readDir p => rfl
  | writeFile p data => rfl
  | removeAll p => rfl
  | remove p => rfl
  | stat p => rfl
  | mkdirAll p => rfl
  | removeWalk name p => rfl
  | walk p => rfl
  | abs p => rfl

/-- A blind operation is the same in alike worlds. -/
theorem mirrors_act {op : Op} (hb : op.Blind) (answer : op.Seen → Option Damage → A) :
    Mirrors Alike (act m op answer) := by
  intro s t ⟨hmachine, hfiles⟩
  obtain ⟨s, fs⟩ := s
  obtain ⟨s', gs⟩ := t
  obtain rfl : s = s' := hmachine
  have hattempt : attempt m ⟨s, fs⟩ op = attempt m ⟨s, gs⟩ op := by
    rw [← attempt_visible hb s fs, ← attempt_visible hb s gs]
    exact congrArg (fun v => attempt m ⟨s, v⟩ op) hfiles
  have hsee : op.see fs = op.see gs := by
    rw [← see_visible hb fs, ← see_visible hb gs]
    exact congrArg (fun v => op.see v) hfiles
  have hevent : ∀ d, op.event fs d = op.event gs d := by
    intro d
    rw [← event_visible hb fs, ← event_visible hb gs]
    exact congrArg (fun v => op.event v d) hfiles
  have heffect : ∀ d, visible (op.effect fs d) = visible (op.effect gs d) := by
    intro d
    rw [effect_visible hb fs, effect_visible hb gs]
    exact congrArg (fun v => visible (op.effect v d)) hfiles
  refine ⟨?_, ?_, ?_, ?_⟩
  · change Except.ok (answer (op.see fs) _) = Except.ok (answer (op.see gs) _)
    rw [hattempt, hsee]
  · change [op.event fs _] = [op.event gs _]
    rw [hattempt, hevent]
  · change (attempt m ⟨s, fs⟩ op).2 = (attempt m ⟨s, gs⟩ op).2
    rw [hattempt]
  · change visible (op.effect fs _) = visible (op.effect gs _)
    rw [hattempt, heffect]

theorem mirrors_command {c : Command} (hc : InTarget c) : Mirrors Alike (combinedOutput m c) := by
  have hnot : ∀ e : Path × Str, c.reaches e.1 = true → hidden e.1 = false := by
    intro e he
    unfold hidden
    rcases hc.head he with hhead | hstaged
    · rw [hhead]
      rfl
    · rw [staged_head hstaged]
      rfl
  have hseen : ∀ fs, part c.reaches fs = part c.reaches (visible fs) := by
    intro fs
    unfold part visible
    rw [List.filter_filter]
    apply List.filter_congr
    intro e _
    by_cases he : c.reaches e.1 = true
    · simp [he, hnot e he]
    · simp [he]
  have hother : ∀ fs, visible (part (fun p => !c.reaches p) fs) = part (fun p => !c.reaches p) (visible fs) := by
    intro fs
    unfold part visible
    rw [List.filter_filter, List.filter_filter]
    congr 1
    funext e
    exact Bool.and_comm _ _
  intro s t ⟨hmachine, hfiles⟩
  have hexec : m.exec s.machine (part c.reaches s.files) c =
      m.exec t.machine (part c.reaches t.files) c := by
    rw [hmachine, hseen s.files, hseen t.files, hfiles]
  refine ⟨?_, ?_, ?_, ?_⟩
  · change Except.ok ((m.exec s.machine _ c).out, _) = Except.ok ((m.exec t.machine _ c).out, _)
    rw [hexec]
  · change [Event.ran c (m.exec s.machine _ c).out _ _] = [Event.ran c (m.exec t.machine _ c).out _ _]
    rw [hexec]
  · change (m.exec s.machine _ c).state = (m.exec t.machine _ c).state
    rw [hexec]
  · change visible (graft _ s.files (m.exec s.machine _ c).files) =
      visible (graft _ t.files (m.exec t.machine _ c).files)
    rw [hexec]
    unfold graft
    rw [visible, visible, List.filter_append, List.filter_append]
    exact congrArg _ ((hother s.files).trans (hfiles ▸ (hother t.files).symm))

/-! ### What is written into `libtor` -/

/-- In `libtor`, only files of these names are written and nothing is removed. -/
def TidyOp (N : Path → Prop) (op : Op) : Prop :=
  ∀ p, op.changes = some p → (∃ top, p.head? = some top ∧ top ≠ "libtor".toList) ∨
    N p ∧ ∃ data, op = .writeFile p data

/-- A part of a run without an update: it looks at no hidden file and is tidy. -/
abbrev Clean (m : Machine σ) (N : Path → Prop) (q : Gen σ A) : Prop :=
  Uses m (fun op => op.Blind ∧ TidyOp N op) InTarget q

theorem uses_mirrors {okOp : Op → Prop} {okCommand : Command → Prop} {q : Gen σ A}
    (h : Uses m okOp okCommand q) (hop : ∀ op, okOp op → op.Blind)
    (hcommand : ∀ c, okCommand c → InTarget c) : Mirrors Alike q := by
  refine Built.mirrors ?_ h
  intro T r hr
  cases hr with
  | act op answer hok => exact mirrors_act (hop op hok) answer
  | command c hok => exact mirrors_command (hcommand c hok)

theorem Clean.mirrors {N : Path → Prop} {q : Gen σ A} (h : Clean m N q) : Mirrors Alike q :=
  uses_mirrors h (fun _ hop => hop.1) fun _ hc => hc

variable {N : Path → Prop}

end

def fresh : Store := [(lockPath, plain.marshal smallVersions.lock)]

def rerun {σ : Type} (m : Machine σ) (s : σ) (fs : Store) : Outcome (World σ) Event Stop Versions :=
  (main m plain (onLinux false)).run ⟨s, fs⟩

theorem rerun_returns {σ : Type} {m : Machine σ} {s : σ} {fs : Store} {v : Versions}
    (h : (rerun m s fs).result = .ok v) :
    Returns (main m plain (onLinux false)) ⟨s, fs⟩ v (rerun m s fs).state (rerun m s fs).trace :=
  returns_of_result h

def detour : Library → Upstream
  | .openssl =>
    { small .openssl with
      dryRun := (small .openssl).dryRun ++ "gcc -c -o libcrypto-lib-x.o ../../libtor/x.c\n".toList }
  | lib => small lib

/-- Once a source is made, Tor has another one. -/
def made : Library → Upstream
  | .tor => { small .tor with dryRun := "gcc -c src/core/other.c\n".toList }
  | lib => detour lib

def straying : Machine Bool where
  exec s fs c :=
    let r := (upstreams (if s then made else detour)).exec () fs c
    { out := r.out, ok := r.ok, files := r.files,
      state := s || decide (c.args = ["make".toList, "../../libtor/x.c".toList]) }
  goBuild s _ := (true, s)
  fault s _ := (none, s)
  cwd := "/go-libtor".toList

def withSource : Store := (["libtor".toList, "x.c.in".toList], []) :: fresh

def otherWrapper : Path := goFile "linux_tor_src_core_other".toList

/-- With a different C source in `libtor`, a run may not even write the same files. -/
theorem source_matters : ∃ v v' t t' vs vs',
    outside (some "libtor".toList) fresh = outside (some "libtor".toList) withSource ∧
    Returns (main straying plain (onLinux false)) ⟨false, fresh⟩ v t vs ∧
    Returns (main straying plain (onLinux false)) ⟨false, withSource⟩ v' t' vs' ∧
    get t.files otherWrapper = none ∧ get t'.files otherWrapper ≠ none ∧
    get withSource otherWrapper = none := by
  have hwithout : (rerun straying false fresh).result = .ok smallVersions ∧
      get (rerun straying false fresh).state.files otherWrapper = none := by
    decide +kernel
  have hwith : (rerun straying false withSource).result = .ok smallVersions ∧
      get (rerun straying false withSource).state.files otherWrapper ≠ none := by
    decide +kernel
  have hbefore : outside (some "libtor".toList) fresh = outside (some "libtor".toList) withSource ∧
      get withSource otherWrapper = none := by
    decide +kernel
  exact ⟨_, _, _, _, _, _, hbefore.1, rerun_returns hwithout.1, rerun_returns hwith.1, hwithout.2,
    hwith.2, hbefore.2⟩

end GoLibtor
