import GoLibtor.Process.Stepped
import GoLibtor.Process.Wait

/-! Any number of processes on one memory: the invariant of every run of a program, and the
run of the model of one process that each of them goes through. -/
namespace GoLibtor

open Memory Transition Transition.Program

/-- The step of the `i`-th process among those of the program. -/
def HostAction.at (i : ℕ) : HostAction → Option LiveAction
  | .on j a => if j = i then some a else none
  | _ => none

/-- The arguments of a new process, with those that a configuration adds, fit an `int`. -/
def HostAction.Small : HostAction → Prop
  | .new _ _ args => (args.length : ℤ) + 3 ≤ intMax
  | _ => True

instance : DecidablePred HostAction.Small := fun a => by
  unfold HostAction.Small
  split <;> infer_instance

namespace Host

/-- The processes of a program with what their memory is made of, and nothing but that. -/
structure Fits (h : Host) (ps : List (LiveProcess × Layout)) : Prop where
  procs : h.procs = ps.map Prod.fst
  fits : ∀ x ∈ ps, x.1.Fits x.2
  small : ∀ x ∈ ps, (x.1.args.length : ℤ) + 3 ≤ intMax
  mem : h.world.Is (ps.map fun x => x.1.cells x.2).sum (ps.flatMap fun x => x.1.dead) h.world.fds

theorem fits_initial : Host.initial.Fits [] where
  procs := rfl
  fits := by simp
  small := by simp
  mem := ⟨Heap.holds_empty, by simp, rfl⟩

variable {h : Host} {ps : List (LiveProcess × Layout)}

theorem resume_ok {α : Type} {P : TorWorld → Prop} {c : CCode α} {Q : α → TorWorld → Prop}
    (hc : Meets P c Q) (hw : P h.world) (k : α → List LiveProcess) :
    ∃ a w, h.resume c k = .ok ⟨k a, w⟩ ∧ Q a w := by
  obtain ⟨a, w, vs, hrun, hq⟩ := hc h.world hw
  have hrun' : c.run h.world = ⟨.ok a, w, vs⟩ := hrun
  exact ⟨a, w, by simp only [resume, hrun'], hq⟩

theorem resume_error {α : Type} {P : TorWorld → Prop} {c : CCode α} {f : Fault}
    (hc : Breaks P c f) (hw : P h.world) (k : α → List LiveProcess) : h.resume c k = .error f := by
  obtain ⟨w, vs, hrun⟩ := hc h.world hw
  simp only [resume, hrun]

/-- What is enabled is a step of a process that is there. -/
theorem next_on_cases {i : ℕ} {a : LiveAction} {r : Except Fault Host}
    (hr : h.next (.on i a) = some r) : ∃ p prog, h.procs[i]? = some p ∧ a.Possible h.world.fds ∧
      p.step a = some prog ∧ r = h.resume prog fun q => h.procs.set i q := by
  unfold next at hr
  split at hr
  next hnew => cases hnew
  next j b hon =>
    cases hon
    split at hr
    next => cases hr
    next p hp =>
      split_ifs at hr with hposs
      obtain ⟨prog, hprog, rfl⟩ := Option.map_eq_some_iff.mp hr
      exact ⟨p, prog, hp, hposs, hprog, rfl⟩
  next hopen => cases hopen
  next hclose => cases hclose

/-- The `i`-th process, its memory and that of the others. -/
theorem Fits.focus (hf : h.Fits ps) {i : ℕ} {p : LiveProcess} (hp : h.procs[i]? = some p) :
    ∃ pre L post, ps = pre ++ (p, L) :: post ∧ pre.length = i ∧ p.Fits L ∧
      (p.args.length : ℤ) + 3 ≤ intMax ∧
      h.world.Is (p.cells L + ((pre ++ post).map fun x => x.1.cells x.2).sum)
        (p.dead ++ (pre ++ post).flatMap fun x => x.1.dead) h.world.fds := by
  rw [hf.procs, List.getElem?_map, Option.map_eq_some_iff] at hp
  obtain ⟨⟨p', L⟩, hx, rfl⟩ := hp
  obtain ⟨hlt, hget⟩ := List.getElem?_eq_some_iff.mp hx
  have hps : ps = ps.take i ++ (p', L) :: ps.drop (i + 1) := by
    rw [← hget, List.cons_getElem_drop_succ, List.take_append_drop]
  have hmem : (p', L) ∈ ps := List.mem_of_getElem? hx
  refine ⟨ps.take i, L, ps.drop (i + 1), hps, ?_, hf.fits _ hmem, hf.small _ hmem, ?_⟩
  · rw [List.length_take]
    omega
  · refine hf.mem.weaken ?_ ?_
    · conv_lhs => rw [hps]
      rw [List.map_append, List.map_append, List.map_cons, List.sum_append, List.sum_append,
        List.sum_cons]
      ac_rfl
    · intro x hx'
      rw [hps]
      simp only [List.flatMap_append, List.flatMap_cons, List.mem_append] at hx' ⊢
      rcases hx' with hown | hpre | hpost
      · exact Or.inr (Or.inl hown)
      · exact Or.inl hpre
      · exact Or.inr (Or.inr hpost)

/-- The same, by the place of the process in the list. -/
theorem Fits.at (hf : h.Fits ps) {i : ℕ} {p : LiveProcess} (hp : h.procs[i]? = some p) :
    ∃ L rest dead, ps[i]? = some (p, L) ∧ p.Fits L ∧
      h.world.Is (p.cells L + rest) dead h.world.fds := by
  obtain ⟨pre, L, post, rfl, rfl, hfit, _, hmem⟩ := hf.focus hp
  exact ⟨L, _, _, by simp, hfit, hmem⟩

/-- A step that is safe is taken, and the program fits again. -/
theorem Fits.on (hf : h.Fits ps) {i : ℕ} {p : LiveProcess} {a : LiveAction} {prog : CCode LiveProcess}
    (hp : h.procs[i]? = some p) (hprog : p.step a = some prog) (hsafe : a.Safe p) :
    ∃ pre L post p' L' w, ps = pre ++ (p, L) :: post ∧ pre.length = i ∧
      h.resume prog (fun q => h.procs.set i q) = .ok ⟨h.procs.set i p', w⟩ ∧
      p.Stepped L a p' L' ∧ w.fds = p.fdsAfter L h.world.fds a ∧
      Fits ⟨h.procs.set i p', w⟩ (pre ++ (p', L') :: post) := by
  obtain ⟨pre, L, post, hps, hlen, hfit, hsmall, hmem⟩ := hf.focus hp
  obtain ⟨p', w, hresume, L', hstepped, hw⟩ :=
    resume_ok (LiveProcess.step_meets hfit hsmall hprog hsafe) hmem fun q => h.procs.set i q
  refine ⟨pre, L, post, p', L', w, hps, hlen, hresume, hstepped, hw.fds, ?_, ?_, ?_, ?_⟩
  · have hset : (pre.map Prod.fst ++ p :: post.map Prod.fst).set (pre.map Prod.fst).length p' =
        pre.map Prod.fst ++ p' :: post.map Prod.fst := by
      rw [List.set_append_right _ _ le_rfl, Nat.sub_self]
      rfl
    have hprocs : h.procs = pre.map Prod.fst ++ p :: post.map Prod.fst := by
      rw [hf.procs, hps, List.map_append]
      rfl
    rw [List.length_map, hlen] at hset
    change h.procs.set i p' = _
    rw [hprocs, hset, List.map_append]
    rfl
  · intro x hx
    rcases List.mem_append.mp hx with hpre | hx
    · exact hf.fits x (by rw [hps]; simp [hpre])
    · rcases List.mem_cons.mp hx with rfl | hpost
      · exact hstepped.fits
      · exact hf.fits x (by rw [hps]; simp [hpost])
  · intro x hx
    rcases List.mem_append.mp hx with hpre | hx
    · exact hf.small x (by rw [hps]; simp [hpre])
    · rcases List.mem_cons.mp hx with rfl | hpost
      · rw [hstepped.args]
        exact hsmall
      · exact hf.small x (by rw [hps]; simp [hpost])
  · rw [hw.fds]
    refine hw.weaken ?_ ?_
    · rw [List.map_append, List.map_append, List.map_cons, List.sum_append, List.sum_append,
        List.sum_cons]
      ac_rfl
    · intro x hx
      simp only [List.flatMap_append, List.flatMap_cons, List.mem_append] at hx ⊢
      rcases hx with hpre | hown | hpost
      · exact Or.inr (Or.inl hpre)
      · exact Or.inl hown
      · exact Or.inr (Or.inr hpost)

/-- A step that is not safe is undefined. -/
theorem Fits.undefined (hf : h.Fits ps) {i : ℕ} {p : LiveProcess} {a : LiveAction}
    {prog : CCode LiveProcess} (hp : h.procs[i]? = some p) (hprog : p.step a = some prog)
    (hnot : ¬ a.Safe p) : ∃ f, (h.resume prog fun q => h.procs.set i q) = .error f := by
  obtain ⟨pre, L, post, _, _, _, _, hmem⟩ := hf.focus hp
  obtain ⟨f, hf⟩ := LiveProcess.step_breaks (L := L) hprog hnot
  exact ⟨f, resume_error hf hmem _⟩

/-- What a new process is made of. -/
def newLayout : Layout := ⟨newConfiguration, [], 0, [], []⟩

theorem fits_new (ctx : Option Context) (conf : Ptr) (args : List String) :
    (liveProcessNew ctx conf args).Fits newLayout where
  idle := by simp [liveProcessNew]
  null := fun _ => ⟨rfl, rfl⟩
  counts := Counts_new
  socket := Or.inl ⟨rfl, rfl, by simp [liveProcessNew]⟩
  array := by
    intro a n hn
    cases hn
  commandLine := by
    intro a n hn
    cases hn
  seen := by
    intro a n v hv
    cases hv

theorem Fits.new (hf : h.Fits ps) (ctx : Option Context) (malloc : Bool) {args : List String}
    (hsmall : (args.length : ℤ) + 3 ≤ intMax) : ∃ conf w,
    h.resume (torMainConfigurationNew malloc) (fun conf => h.procs ++ [liveProcessNew ctx conf args]) =
      .ok ⟨h.procs ++ [liveProcessNew ctx conf args], w⟩ ∧ w.fds = h.world.fds ∧
      Fits ⟨h.procs ++ [liveProcessNew ctx conf args], w⟩
        (ps ++ [(liveProcessNew ctx conf args, newLayout)]) := by
  have hcells : ∀ conf, (liveProcessNew ctx conf args).cells newLayout =
      conf.elim 0 fun c => confCells c newConfiguration [] 0 := fun conf =>
    LiveProcess.cells_idle rfl
  have hnew : Meets (Resources.Is (ps.map fun x => x.1.cells x.2).sum
        (ps.flatMap fun x => x.1.dead) h.world.fds)
      (torMainConfigurationNew malloc) fun conf w =>
        w.Is ((liveProcessNew ctx conf args).cells newLayout + (ps.map fun x => x.1.cells x.2).sum)
          (ps.flatMap fun x => x.1.dead) h.world.fds := by
    cases malloc with
    | false =>
      refine meets_pure fun w hw => hw.cells_eq ?_
      rw [hcells, Option.elim_none, zero_add]
    | true =>
      refine torMainConfigurationNew_meets.post ?_
      rintro conf w ⟨c, rfl, hw⟩
      rw [hcells]
      exact hw
  obtain ⟨conf, w, hresume, hw⟩ :=
    resume_ok hnew hf.mem fun conf => h.procs ++ [liveProcessNew ctx conf args]
  refine ⟨conf, w, hresume, hw.fds, ?_, ?_, ?_, ?_⟩
  · rw [List.map_append, ← hf.procs]
    rfl
  · intro x hx
    rcases List.mem_append.mp hx with hx | hx
    · exact hf.fits x hx
    · rw [List.mem_singleton.mp hx]
      exact fits_new ctx conf args
  · intro x hx
    rcases List.mem_append.mp hx with hx | hx
    · exact hf.small x hx
    · rw [List.mem_singleton.mp hx]
      exact hsmall
  · rw [hw.fds]
    refine hw.weaken ?_ ?_
    · rw [List.map_append, List.sum_append, List.map_singleton, List.sum_singleton, add_comm]
    · rw [List.flatMap_append, List.flatMap_singleton]
      simp [LiveProcess.dead, liveProcessNew, Thread.confFreed]

/-- Only the descriptors change. -/
theorem Fits.withFds (hf : h.Fits ps) (d : Descriptors FdObject) :
    Fits { h with world.fds := d } ps where
  procs := hf.procs
  fits := hf.fits
  small := hf.small
  mem := ⟨hf.mem.holds, hf.mem.dead, rfl⟩

/-- What a step that is taken can be. -/
theorem Fits.step_cases (hf : h.Fits ps) {a : HostAction} (hsmall : a.Small) {k : Host}
    (hstep : h.step a = some k) :
    (∃ ctx malloc args conf, a = .new ctx malloc args ∧ k.world.fds = h.world.fds ∧
      k.procs = h.procs ++ [liveProcessNew ctx conf args] ∧
      k.Fits (ps ++ [(liveProcessNew ctx conf args, newLayout)])) ∨
    (∃ b pre p L post p' L', a = .on pre.length b ∧ ps = pre ++ (p, L) :: post ∧
      b.Possible h.world.fds ∧ b.Safe p ∧ p.Stepped L b p' L' ∧
      k.world.fds = p.fdsAfter L h.world.fds b ∧ h.procs[pre.length]? = some p ∧
      k.procs = h.procs.set pre.length p' ∧ k.Fits (pre ++ (p', L') :: post)) ∨
    (∃ n, a = .openOther n ∧ h.world.fds n = none ∧
      k = { h with world.fds := h.world.fds.openAt n .other }) ∨
    (∃ n, a = .closeOther n ∧ k = { h with world.fds := h.world.fds.close n }) := by
  obtain ⟨r, hr, hk⟩ := Option.bind_eq_some_iff.mp hstep
  cases a with
  | new ctx malloc args =>
    obtain rfl := Option.some.inj hr
    obtain ⟨conf, w, hresume, hfds, hfits⟩ := hf.new ctx malloc hsmall
    rw [hresume] at hk
    obtain rfl := Option.some.inj hk
    exact Or.inl ⟨ctx, malloc, args, conf, rfl, hfds, rfl, hfits⟩
  | on i b =>
    obtain ⟨p, prog, hp, hposs, hprog, rfl⟩ := next_on_cases hr
    have hsafe : b.Safe p := by
      by_contra hnot
      obtain ⟨f, hfault⟩ := hf.undefined hp hprog hnot
      rw [hfault] at hk
      cases hk
    obtain ⟨pre, L, post, p', L', w, hps, rfl, hresume, hstepped, hfds, hfits⟩ :=
      hf.on hp hprog hsafe
    rw [hresume] at hk
    obtain rfl := Option.some.inj hk
    exact Or.inr (Or.inl ⟨b, pre, p, L, post, p', L', rfl, hps, hposs, hsafe, hstepped, hfds,
      hp, rfl, hfits⟩)
  | openOther n =>
    unfold next at hr
    dsimp only at hr
    split_ifs at hr with hnone
    obtain rfl := Option.some.inj hr
    obtain rfl := Option.some.inj hk
    exact Or.inr (Or.inr (Or.inl ⟨n, rfl, hnone, rfl⟩))
  | closeOther n =>
    obtain rfl := Option.some.inj hr
    obtain rfl := Option.some.inj hk
    exact Or.inr (Or.inr (Or.inr ⟨n, rfl, rfl⟩))

theorem Fits.step (hf : h.Fits ps) {a : HostAction} (hsmall : a.Small) {k : Host}
    (hstep : h.step a = some k) : ∃ qs, k.Fits qs := by
  rcases hf.step_cases hsmall hstep with ⟨_, _, _, _, _, _, _, hk⟩ |
    ⟨_, _, _, _, _, _, _, _, _, _, _, _, _, _, _, hk⟩ | ⟨n, _, _, rfl⟩ | ⟨n, _, rfl⟩
  · exact ⟨_, hk⟩
  · exact ⟨_, hk⟩
  · exact ⟨ps, hf.withFds _⟩
  · exact ⟨ps, hf.withFds _⟩

end Host

variable {acts : List HostAction} {h : Host}

/-- The element in the middle of a list, or one that does not depend on it. -/
theorem getElem?_middle {α : Type*} {pre post : List α} {x y : α} {i : ℕ}
    (hx : (pre ++ y :: post)[i]? = some x) :
    (i = pre.length ∧ x = y) ∨ ∀ z, (pre ++ z :: post)[i]? = some x := by
  by_cases hlt : i < pre.length
  · right
    intro z
    rw [List.getElem?_append_left hlt] at hx ⊢
    exact hx
  · rw [List.getElem?_append_right (by omega)] at hx
    cases hi : i - pre.length with
    | zero =>
      rw [hi] at hx
      exact Or.inl ⟨by omega, (Option.some.inj hx).symm⟩
    | succ k =>
      right
      intro z
      rw [List.getElem?_append_right (by omega), hi]
      rw [hi] at hx
      exact hx

/-- What holds of the `i`-th process when the program is at `g`, or when the process is made
later, and is preserved by the steps of that process, holds of it after every run from there. -/
theorem process_run {g : Host} {i : ℕ} {J : LiveProcess → Layout → Prop}
    (hrun : Transition.run Host.step g acts = some h) (hsmall : ∀ a ∈ acts, a.Small)
    (hg : ∃ ps, g.Fits ps ∧ ∀ x, ps[i]? = some x → J x.1 x.2)
    (hnew : g.procs.length ≤ i → ∀ ctx conf args, J (liveProcessNew ctx conf args) Host.newLayout)
    (hstep : ∀ b, .on i b ∈ acts → ∀ p L p' L', p.Fits L → p.Stepped L b p' L' → J p L → J p' L') :
    ∃ ps, h.Fits ps ∧ ∀ x, ps[i]? = some x → J x.1 x.2 := by
  let I : List HostAction → Host → Prop := fun as k => as ⊆ acts →
    g.procs.length ≤ k.procs.length ∧ ∃ ps, k.Fits ps ∧ ∀ x, ps[i]? = some x → J x.1 x.2
  refine (Transition.run_history (I := I) (fun _ => ⟨le_rfl, hg⟩) ?_ hrun (List.Subset.refl _)).2
  intro as k a k' _ ih hk' hsub
  obtain ⟨hlen, ps, hfits, hJ⟩ := ih fun b hb => hsub (List.mem_append_left _ hb)
  have ha : a ∈ acts := hsub (by simp)
  have hcount : k.procs.length = ps.length := by rw [hfits.procs, List.length_map]
  rcases hfits.step_cases (hsmall a ha) hk' with ⟨ctx, malloc, args, conf, rfl, _, hprocs, hk⟩ |
    ⟨b, pre, p, L, post, p', L', rfl, rfl, _, _, hstepped, _, _, hprocs, hk⟩ |
    ⟨n, rfl, _, rfl⟩ | ⟨n, rfl, rfl⟩
  · refine ⟨by rw [hprocs, List.length_append]; omega, _, hk, ?_⟩
    intro x hx
    rw [List.getElem?_append] at hx
    by_cases hlt : i < ps.length
    · rw [if_pos hlt] at hx
      exact hJ x hx
    · rw [if_neg hlt, List.getElem?_singleton] at hx
      split_ifs at hx
      rw [← Option.some.inj hx]
      exact hnew (by omega) ctx conf args
  · refine ⟨by rw [hprocs, List.length_set]; exact hlen, _, hk, ?_⟩
    intro x hx
    rcases getElem?_middle hx with ⟨rfl, rfl⟩ | hother
    · have hold : (pre ++ (p, L) :: post)[pre.length]? = some (p, L) := by simp
      exact hstep b ha p L p' L' (hfits.fits (p, L) (by simp)) hstepped (hJ _ hold)
    · exact hJ x (hother (p, L))
  · exact ⟨hlen, ps, hfits.withFds _, hJ⟩
  · exact ⟨hlen, ps, hfits.withFds _, hJ⟩

theorem HostReaches.fits (hreach : HostReaches acts h) (hsmall : ∀ a ∈ acts, a.Small) :
    ∃ ps, h.Fits ps := by
  have hrun := Transition.run_history (I := fun as k => (∀ a ∈ as, HostAction.Small a) →
      ∃ ps, Host.Fits k ps) (fun _ => ⟨[], Host.fits_initial⟩) ?_ hreach
  · exact hrun hsmall
  · intro as k a k' _ ih hstep hall
    obtain ⟨ps, hps⟩ := ih fun b hb => hall b (List.mem_append_left _ hb)
    exact hps.step (hall a (by simp)) hstep

end GoLibtor
