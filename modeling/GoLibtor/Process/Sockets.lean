import GoLibtor.Process.ControlSocket

/-! The descriptor that `tor_main_configuration_free` closes: its number stood for Tor's end of
the control socket once, and Tor may close that end before. -/
namespace GoLibtor

open Memory Transition

/-- The step, taken in `g`, closes the number `n`. -/
def HostAction.Closes (g : Host) (n : ℕ) : HostAction → Prop
  | .closeOther m => m = n
  | .on i (.goroutine _) => ∃ p a m code cfg, g.procs[i]? = some p ∧
      p.thread = .releasing a m code ∧ configurationAt g.world.heap p.conf = some cfg ∧
      cfg.owningControllerSocket = n
  | _ => False

/-- No step of a run has closed `n` while it stood for Tor's end of the socket of `c`. -/
def TorEndKept (acts : List HostAction) (n c : ℕ) : Prop :=
  EveryStep Host.step (fun g a => g.world.fds n = some (.torEnd c) → ¬ a.Closes g n)
    Host.initial acts

/-- A process with the configuration `c` and the socket `n`. -/
def Owns (ps : List (LiveProcess × Layout)) (n c : ℕ) : Prop :=
  ∃ x ∈ ps, x.1.conf = some c ∧ x.2.cfg.owningControllerSocket = n

variable {acts : List HostAction} {h k : Host} {i n c : ℕ} {p p' : LiveProcess} {L L' : Layout}
  {ps pre post : List (LiveProcess × Layout)}

theorem owns_middle : Owns (pre ++ (p, L) :: post) n c ↔
    (p.conf = some c ∧ L.cfg.owningControllerSocket = n) ∨ Owns (pre ++ post) n c := by
  simp only [Owns, List.mem_append, List.mem_cons]
  constructor
  · rintro ⟨x, hpre | rfl | hpost, hx⟩
    · exact Or.inr ⟨x, Or.inl hpre, hx⟩
    · exact Or.inl hx
    · exact Or.inr ⟨x, Or.inr hpost, hx⟩
  · rintro (hx | ⟨x, hpre | hpost, hx⟩)
    · exact ⟨(p, L), Or.inr (Or.inl rfl), hx⟩
    · exact ⟨x, Or.inl hpre, hx⟩
    · exact ⟨x, Or.inr (Or.inr hpost), hx⟩

/-- No two processes have the same configuration. -/
def OneConf (ps : List (LiveProcess × Layout)) : Prop := (ps.filterMap fun x => x.1.conf).Nodup

theorem OneConf.not_owns (hone : OneConf (pre ++ (p, L) :: post)) (hconf : p.conf = some c) :
    ¬ Owns (pre ++ post) n c := by
  rintro ⟨x, hx, hxc, _⟩
  have hcons : ((p, L) :: post).filterMap (fun x => x.1.conf) =
      c :: post.filterMap fun x => x.1.conf := List.filterMap_cons_some hconf
  rw [OneConf, List.filterMap_append, hcons, List.nodup_middle, List.nodup_cons,
    ← List.filterMap_append] at hone
  exact hone.1 (List.mem_filterMap.mpr ⟨x, hx, hxc⟩)

theorem OneConf.set (hone : OneConf (pre ++ (p, L) :: post)) (hconf : p'.conf = p.conf) :
    OneConf (pre ++ (p', L') :: post) := by
  unfold OneConf at hone ⊢
  rw [List.filterMap_append, List.filterMap_cons] at hone ⊢
  rwa [hconf]

/-- The configuration of a process that has just been made was nobody's. -/
theorem OneConf.concat (hone : OneConf ps) (hf : k.Fits (ps ++ [(p, L)]))
    (hlive : p.liveConf = p.conf) : OneConf (ps ++ [(p, L)]) := by
  unfold OneConf at hone ⊢
  rw [List.filterMap_append]
  cases hconf : p.conf with
  | none => simpa [hconf] using hone
  | some c =>
    have hmem : (c, Block.configuration L.cfg) ∈ p.cells L :=
      mem_cells_conf (hlive.trans hconf) mem_confCells
    have hfresh : c ∉ ps.filterMap fun x => x.1.conf := by
      intro hc
      obtain ⟨x, hx, hxc⟩ := List.mem_filterMap.mp hc
      obtain ⟨s, t, rfl⟩ := List.append_of_mem hx
      have hblock : k.world.heap.block c = some (.configuration L.cfg) := by
        refine (hf.mem.holds.block_iff _ _).mpr ?_
        rw [List.map_append, List.sum_append, List.map_singleton, List.sum_singleton]
        exact Multiset.mem_add.mpr (Or.inr hmem)
      by_cases hfreed : x.1.thread.confFreed = true
      · have hdead : c ∈ x.1.dead := by simp [LiveProcess.dead, hfreed, hxc]
        have hnone := hf.mem.block_dead (a := c) (by simp [hdead])
        rw [hblock] at hnone
        cases hnone
      · have hxlive : x.1.liveConf = some c := by simp [LiveProcess.liveConf, hfreed, hxc]
        have hother : (c, Block.configuration x.2.cfg) ∈ x.1.cells x.2 :=
          mem_cells_conf hxlive mem_confCells
        have hnodup := hf.mem.holds.nodup
        rw [List.map_append, List.sum_append, List.map_append, List.map_cons, List.sum_append,
          List.sum_cons, List.map_singleton, List.sum_singleton, Multiset.map_add,
          Multiset.nodup_add] at hnodup
        have hleft : c ∈ ((s.map fun x => x.1.cells x.2).sum +
            (x.1.cells x.2 + (t.map fun x => x.1.cells x.2).sum)).map Prod.fst :=
          Multiset.mem_map.mpr ⟨_, Multiset.mem_add.mpr (Or.inr
            (Multiset.mem_add.mpr (Or.inl hother))), rfl⟩
        have hright : c ∈ (p.cells L).map Prod.fst := Multiset.mem_map.mpr ⟨_, hmem, rfl⟩
        exact Multiset.disjoint_left.mp hnodup.2.2 hleft hright
    have hlast : [(p, L)].filterMap (fun x => x.1.conf) = [c] := List.filterMap_cons_some hconf
    rw [hlast, ← List.concat_eq_append, List.nodup_concat]
    exact ⟨hfresh, hone⟩

/-! ### What one step does to the ends -/

/-- A step from `h`, with the processes `ps`, to `k`, with `qs`: for the number `n` and the
configuration `c`. -/
structure EndStep (h : Host) (ps : List (LiveProcess × Layout)) (a : HostAction) (k : Host)
    (qs : List (LiveProcess × Layout)) (n c : ℕ) : Prop where
  owns : Owns ps n c → Owns qs n c
  closed : h.world.fds n = some (.torEnd c) → (k.world.fds n = some (.torEnd c) ↔ ¬ a.Closes h n)
  opened : (k.world.fds n = some (.torEnd c) ∧ h.world.fds n ≠ some (.torEnd c)) ∨
      (Owns qs n c ∧ ¬ Owns ps n c) →
    k.world.fds n = some (.torEnd c) ∧ h.world.fds n ≠ some (.torEnd c) ∧ Owns qs n c ∧ ¬ Owns ps n c

variable {qs : List (LiveProcess × Layout)} {a : HostAction}

/-- Whatever else a step does, it may leave the ends and the sockets as they are. -/
theorem EndStep.same (howns : Owns qs n c ↔ Owns ps n c)
    (hfds : k.world.fds n = some (.torEnd c) ↔ h.world.fds n = some (.torEnd c))
    (hcloses : h.world.fds n = some (.torEnd c) → ¬ a.Closes h n) : EndStep h ps a k qs n c where
  owns := howns.mpr
  closed := fun htor => iff_of_true (hfds.mpr htor) (hcloses htor)
  opened := by
    rintro (⟨hk, hh⟩ | ⟨hq, hp⟩)
    · exact absurd (hfds.mp hk) hh
    · exact absurd (howns.mp hq) hp

/-- It may close a number. -/
theorem EndStep.close {m : ℕ} (howns : Owns qs n c ↔ Owns ps n c)
    (hfds : k.world.fds = h.world.fds.close m) (hcloses : a.Closes h n ↔ m = n) :
    EndStep h ps a k qs n c := by
  by_cases hmn : m = n
  · subst hmn
    have hnone : k.world.fds m = none := by rw [hfds, Descriptors.close_same]
    refine ⟨howns.mpr, fun _ => iff_of_false ?_ (not_not.mpr (hcloses.mpr rfl)), ?_⟩
    · rw [hnone]
      exact (Option.some_ne_none _).symm
    · rintro (⟨hk, _⟩ | ⟨hq, hp⟩)
      · rw [hnone] at hk
        cases hk
      · exact absurd (howns.mp hq) hp
  · refine EndStep.same howns ?_ fun _ hn => hmn (hcloses.mp hn)
    rw [hfds, Descriptors.close_ne (Ne.symm hmn)]

/-- The only number that a step makes an end of Tor is that of a first control socket. -/
theorem EndStep.socketpair {b : LiveAction} {c0 fd0 fd1 : ℕ} (hone : OneConf (pre ++ (p, L) :: post))
    (hconf : p.conf = some c0) (hconf' : p'.conf = p.conf) (hne : fd0 ≠ fd1)
    (hfree0 : h.world.fds fd0 = none) (hfree1 : h.world.fds fd1 = none)
    (hfds : k.world.fds = (h.world.fds.openAt fd0 (.goEnd c0)).openAt fd1 (.torEnd c0))
    (hcloses : ¬ HostAction.Closes h n (.on i b)) (hsocket : L.cfg.owningControllerSocket < 0)
    (hsocket' : L'.cfg.owningControllerSocket = fd1) :
    EndStep h (pre ++ (p, L) :: post) (.on i b) k (pre ++ (p', L') :: post) n c := by
  have hold : Owns (pre ++ (p, L) :: post) n c ↔ Owns (pre ++ post) n c := by
    rw [owns_middle]
    constructor
    · rintro (⟨_, hn⟩ | hother)
      · omega
      · exact hother
    · exact Or.inr
  by_cases hown : n = fd1 ∧ c = c0
  · obtain ⟨rfl, rfl⟩ := hown
    have hk : k.world.fds n = some (.torEnd c) := by rw [hfds, Descriptors.openAt_same]
    have hnot : h.world.fds n ≠ some (.torEnd c) := by
      rw [hfree1]
      exact (Option.some_ne_none _).symm
    refine ⟨fun hq => ?_, fun htor => absurd htor hnot, fun _ => ⟨hk, hnot, ?_, ?_⟩⟩
    · exact owns_middle.mpr (Or.inr (hold.mp hq))
    · exact owns_middle.mpr (Or.inl ⟨hconf'.trans hconf, hsocket'⟩)
    · exact fun hq => hone.not_owns hconf (hold.mp hq)
  · refine EndStep.same ?_ ?_ fun _ => hcloses
    · rw [hold, owns_middle]
      constructor
      · rintro (⟨hc, hn⟩ | hother)
        · have hcc : c = c0 := Option.some.inj (hc.symm.trans (hconf'.trans hconf))
          exact absurd ⟨by omega, hcc⟩ hown
        · exact hother
      · exact Or.inr
    · rw [hfds]
      by_cases hn1 : n = fd1
      · subst hn1
        have hcc : c0 ≠ c := fun hcc => hown ⟨rfl, hcc.symm⟩
        simp [hfree1, hcc]
      · rw [Descriptors.openAt_ne hn1]
        by_cases hn0 : n = fd0
        · subst hn0
          simp [hfree0]
        · rw [Descriptors.openAt_ne hn0]

theorem owns_same (hconf : p'.conf = p.conf)
    (hsocket : L'.cfg.owningControllerSocket = L.cfg.owningControllerSocket) :
    Owns (pre ++ (p', L') :: post) n c ↔ Owns (pre ++ (p, L) :: post) n c := by
  rw [owns_middle, owns_middle, hconf, hsocket]

theorem owns_new {ctx : Option Context} {conf : Ptr} {args : List String} :
    Owns (ps ++ [(liveProcessNew ctx conf args, Host.newLayout)]) n c ↔ Owns ps n c := by
  rw [owns_middle, List.append_nil]
  constructor
  · rintro (⟨_, hn⟩ | hother)
    · have hminus : Host.newLayout.cfg.owningControllerSocket = -1 := rfl
      omega
    · exact hother
  · exact Or.inr

/-- The goroutine closes a number when it frees a configuration that has a socket. -/
theorem closes_goroutine {code : ℤ} (hf : h.Fits ps) (hp : h.procs[i]? = some p)
    (hL : ps[i]? = some (p, L)) : HostAction.Closes h n (.on i (.goroutine code)) ↔
      (∃ a m e, p.thread = .releasing a m e) ∧ L.cfg.owningControllerSocket = n := by
  obtain ⟨L', rest, dead, hat, hfit, hmem⟩ := hf.at hp
  obtain rfl : L' = L := (Prod.mk.inj (Option.some.inj (hat.symm.trans hL))).2
  have hcfg : ∀ a m e, p.thread = .releasing a m e →
      configurationAt h.world.heap p.conf = some L'.cfg := by
    intro a m e ht
    obtain ⟨c, hconf, hlive⟩ := liveConf_of_stage hfit (by rw [ht]; exact Nat.le_add_left 1 3)
      (by rw [ht]; exact le_rfl)
    rw [hconf]
    exact (configuration_read hfit hlive hmem).1
  constructor
  · rintro ⟨q, a, m, e, cfg, hq, ht, hread, hn⟩
    obtain rfl := Option.some.inj (hp.symm.trans hq)
    rw [hcfg a m e ht] at hread
    rw [Option.some.inj hread]
    exact ⟨⟨a, m, e, ht⟩, hn⟩
  · rintro ⟨⟨a, m, e, ht⟩, hn⟩
    exact ⟨p, a, m, e, L'.cfg, hp, ht, hcfg a m e ht, hn⟩

theorem Host.Fits.on_ends {b : LiveAction} (hf : h.Fits (pre ++ (p, L) :: post))
    (hone : OneConf (pre ++ (p, L) :: post)) (hposs : b.Possible h.world.fds) (hsafe : b.Safe p)
    (hstepped : p.Stepped L b p' L') (hfds : k.world.fds = p.fdsAfter L h.world.fds b)
    (hp : h.procs[pre.length]? = some p) :
    EndStep h (pre ++ (p, L) :: post) (.on pre.length b) k (pre ++ (p', L') :: post) n c := by
  have hfit : p.Fits L := hf.fits (p, L) (by simp)
  have hsocket := hstepped.socket
  cases b with
  | embeddedControlConn ans fileConn =>
    dsimp only [LiveProcess.fdsAfter, LiveProcess.socketAfter] at hfds hsocket
    by_cases hhas : 0 ≤ L.cfg.owningControllerSocket
    · rw [if_pos hhas] at hfds hsocket
      exact EndStep.same (owns_same hstepped.conf hsocket) (by rw [hfds]) fun _ => id
    · rw [if_neg hhas] at hfds hsocket
      cases hpair : ans.socketpair with
      | none =>
        rw [hpair, Option.elim_none] at hfds hsocket
        exact EndStep.same (owns_same hstepped.conf hsocket) (by rw [hfds]) fun _ => id
      | some fds =>
        rw [hpair, Option.elim_some] at hfds hsocket
        obtain ⟨fd0, fd1⟩ := fds
        obtain ⟨hne, hfree0, hfree1⟩ : fd0 ≠ fd1 ∧ h.world.fds fd0 = none ∧ h.world.fds fd1 = none := by
          simpa only [LiveAction.Possible, hpair] using hposs
        obtain ⟨c0, hlive⟩ := Option.ne_none_iff_exists'.mp hsafe
        have hconf : p.conf = some c0 := by
          unfold LiveProcess.liveConf at hlive
          split_ifs at hlive
          exact hlive
        rw [hconf, Option.getD_some] at hfds
        exact EndStep.socketpair hone hconf hstepped.conf hne hfree0 hfree1 hfds id
          (not_le.mp hhas) hsocket
  | goroutine code =>
    have hcloses : HostAction.Closes h n (.on pre.length (.goroutine code)) ↔
        (∃ a m e, p.thread = .releasing a m e) ∧ L.cfg.owningControllerSocket = n :=
      closes_goroutine hf hp (by simp)
    have howns : Owns (pre ++ (p', L') :: post) n c ↔ Owns (pre ++ (p, L) :: post) n c :=
      owns_same hstepped.conf hsocket
    by_cases hthread : ∃ a m e, p.thread = .releasing a m e
    · obtain ⟨a, m, e, ht⟩ := hthread
      simp only [LiveProcess.fdsAfter, ht] at hfds
      rcases hfit.socket with ⟨hminus, _⟩ | ⟨_, fd1, hfd, _⟩
      · rw [hminus] at hfds hcloses
        refine EndStep.same howns (by rw [hfds]; rfl) fun _ hn => ?_
        have hneg := (hcloses.mp hn).2
        omega
      · rw [hfd, closeSocket, if_pos (Int.natCast_nonneg fd1), Int.toNat_natCast] at hfds
        refine EndStep.close howns hfds ?_
        rw [hcloses, hfd]
        constructor
        · rintro ⟨_, hn⟩
          omega
        · rintro rfl
          exact ⟨⟨a, m, e, ht⟩, rfl⟩
    · have hsame : k.world.fds = h.world.fds := by
        rw [hfds]
        cases ht : p.thread with
        | releasing a m e => exact absurd ⟨a, m, e, ht⟩ hthread
        | _ => simp only [LiveProcess.fdsAfter, ht]
      exact EndStep.same howns (by rw [hsame]) fun _ hn => hthread (hcloses.mp hn).1
  | _ => exact EndStep.same (owns_same hstepped.conf hsocket) (by rw [hfds]; rfl) fun _ => id

theorem Host.Fits.step_ends (hf : h.Fits ps) (hone : OneConf ps) (hsmall : a.Small)
    (hstep : h.step a = some k) :
    ∃ qs, k.Fits qs ∧ OneConf qs ∧ ∀ n c, EndStep h ps a k qs n c := by
  rcases hf.step_cases hsmall hstep with ⟨ctx, malloc, args, conf, rfl, hfds, _, hk⟩ |
    ⟨b, pre, p, L, post, p', L', rfl, rfl, hposs, hsafe, hstepped, hfds, hp, _, hk⟩ |
    ⟨m, rfl, hnone, rfl⟩ | ⟨m, rfl, rfl⟩
  · exact ⟨_, hk, hone.concat hk rfl, fun n c => EndStep.same owns_new (by rw [hfds]) fun _ => id⟩
  · exact ⟨_, hk, hone.set hstepped.conf, fun n c =>
      hf.on_ends hone hposs hsafe hstepped hfds hp⟩
  · have hother : ∀ n c, h.world.fds.openAt m .other n = some (.torEnd c) ↔
        h.world.fds n = some (.torEnd c) := by
      intro n c
      by_cases hnm : n = m
      · subst hnm
        simp [hnone]
      · rw [Descriptors.openAt_ne hnm]
    exact ⟨ps, hf.withFds _, hone, fun n c => EndStep.same Iff.rfl (hother n c) fun _ => id⟩
  · exact ⟨ps, hf.withFds _, hone, fun n c => EndStep.close Iff.rfl rfl Iff.rfl⟩

/-! ### A whole run -/

/-- What every run keeps about the number `n` and the configuration `c`. -/
structure EndsFit (acts : List HostAction) (h : Host) (ps : List (LiveProcess × Layout))
    (n c : ℕ) : Prop where
  owner : h.world.fds n = some (.torEnd c) → Owns ps n c
  quiet : ¬ Owns ps n c → TorEndKept acts n c
  kept : Owns ps n c → (h.world.fds n = some (.torEnd c) ↔ TorEndKept acts n c)

theorem EndsFit.step (hends : EndsFit acts h ps n c) (hreach : HostReaches acts h)
    (hstep : EndStep h ps a k qs n c) : EndsFit (acts ++ [a]) k qs n c := by
  have hkept : TorEndKept (acts ++ [a]) n c ↔
      TorEndKept acts n c ∧ (h.world.fds n = some (.torEnd c) → ¬ a.Closes h n) :=
    everyStep_concat hreach
  constructor
  · intro hk
    by_cases hh : h.world.fds n = some (.torEnd c)
    · exact hstep.owns (hends.owner hh)
    · exact (hstep.opened (Or.inl ⟨hk, hh⟩)).2.2.1
  · intro hq
    have hp : ¬ Owns ps n c := fun hp => hq (hstep.owns hp)
    exact hkept.mpr ⟨hends.quiet hp, fun hh => absurd (hends.owner hh) hp⟩
  · intro hq
    rw [hkept]
    by_cases hp : Owns ps n c
    · by_cases hh : h.world.fds n = some (.torEnd c)
      · rw [hstep.closed hh]
        exact ⟨fun hcl => ⟨(hends.kept hp).mp hh, fun _ => hcl⟩, fun hall => hall.2 hh⟩
      · refine iff_of_false (fun hk => ?_) fun hall => hh ((hends.kept hp).mpr hall.1)
        exact (hstep.opened (Or.inl ⟨hk, hh⟩)).2.2.2 hp
    · obtain ⟨hk, hh, _⟩ := hstep.opened (Or.inr ⟨hq, hp⟩)
      exact iff_of_true hk ⟨hends.quiet hp, fun hh' => absurd hh' hh⟩

theorem HostReaches.ends (hreach : HostReaches acts h) (hsmall : ∀ a ∈ acts, a.Small) :
    ∃ ps, h.Fits ps ∧ OneConf ps ∧ ∀ n c, EndsFit acts h ps n c := by
  refine Transition.run_history (I := fun as k => (∀ a ∈ as, HostAction.Small a) →
    ∃ ps, k.Fits ps ∧ OneConf ps ∧ ∀ n c, EndsFit as k ps n c) ?_ ?_ hreach hsmall
  · intro _
    refine ⟨[], Host.fits_initial, List.nodup_nil, fun n c => ⟨?_, ?_, ?_⟩⟩
    · intro hn
      cases hn
    · intro _
      exact everyStep_nil _ _
    · rintro ⟨x, hx, _⟩
      cases hx
  · intro as k a k' hk ih hstep hall
    obtain ⟨ps, hfits, hone, hends⟩ := ih fun b hb => hall b (List.mem_append_left _ hb)
    obtain ⟨qs, hqs, hone', hstepped⟩ := hfits.step_ends hone (hall a (by simp)) hstep
    exact ⟨qs, hqs, hone', fun n c => (hends n c).step hk (hstepped n c)⟩

/-- When the goroutine frees a configuration that has a control socket, it closes the number that
Tor's end had. What it closes is Tor's end if and only if nobody has closed that end before. -/
theorem free_closes_own_iff (hreach : HostReaches acts h) (hsmall : ∀ a ∈ acts, a.Small)
    (hp : h.procs[i]? = some p) {b : Ptr} {m e code : ℤ} (ht : p.thread = .releasing b m e)
    (hconf : p.conf = some c) {cfg : TorMainConfiguration}
    (hcfg : configurationAt h.world.heap p.conf = some cfg) (hn : cfg.owningControllerSocket = n)
    (hk : h.step (.on i (.goroutine code)) = some k) :
    k.world.fds = h.world.fds.close n ∧
      (h.world.fds n = some (.torEnd c) ↔ EveryStep Host.step
        (fun g a => g.world.fds n = some (.torEnd c) → ¬ a.Closes g n) Host.initial acts) := by
  obtain ⟨ps, hfits, hone, hends⟩ := hreach.ends hsmall
  rcases hfits.step_cases (show HostAction.Small (.on i (.goroutine code)) from trivial) hk with
    ⟨_, _, _, _, hact, _⟩ | ⟨b', pre, q, L, post, p', L', hact, rfl, _, _, _, hfds, hq, _, _⟩ |
    ⟨_, hact, _⟩ | ⟨_, hact, _⟩
  · cases hact
  · cases hact
    obtain rfl := Option.some.inj (hp.symm.trans hq)
    have hfit : p.Fits L := hfits.fits (p, L) (by simp)
    obtain ⟨_, rest, dead, hat, _, hmem⟩ := hfits.at hp
    obtain rfl : L = _ := by simpa using hat
    obtain ⟨c', hconf', hlive⟩ := liveConf_of_stage hfit (by rw [ht]; exact Nat.le_add_left 1 3)
      (by rw [ht]; exact le_rfl)
    have hread := (configuration_read hfit hlive hmem).1
    rw [← hconf', hcfg] at hread
    obtain rfl := Option.some.inj hread
    constructor
    · simp only [LiveProcess.fdsAfter, ht] at hfds
      rw [hfds, hn, closeSocket, if_pos (Int.natCast_nonneg n), Int.toNat_natCast]
    · exact (hends n c).kept (owns_middle.mpr (Or.inl ⟨hconf, hn⟩))
  · cases hact
  · cases hact

/-- Tor closes its end before it returns, and the program gets the same number for another file. -/
theorem free_closes_own_iff_reused : ∃ h k, HostReaches [.new none true [],
      .on 0 (.embeddedControlConn ⟨some (3, 4), ⟨true, true⟩, ⟨true, true⟩⟩ (.ok ())),
      .on 0 (.start true), .on 0 (.goroutine 0), .closeOther 4, .openOther 4, .on 0 (.goroutine 0),
      .on 0 (.goroutine 0)] h ∧ h.step (.on 0 (.goroutine 0)) = some k ∧
    h.world.fds 4 = some .other ∧ k.world.fds 4 = none := by
  obtain ⟨h, k, p, c, b, m, e, cfg, hreach, hk, hother, hp, ht, hconf, hcfg, hn⟩ :
      ∃ h k p c b m e cfg, HostReaches [.new none true [],
        .on 0 (.embeddedControlConn ⟨some (3, 4), ⟨true, true⟩, ⟨true, true⟩⟩ (.ok ())),
        .on 0 (.start true), .on 0 (.goroutine 0), .closeOther 4, .openOther 4,
        .on 0 (.goroutine 0), .on 0 (.goroutine 0)] h ∧
      h.step (.on 0 (.goroutine 0)) = some k ∧ h.world.fds 4 = some .other ∧
      h.procs[0]? = some p ∧ p.thread = .releasing b m e ∧ p.conf = some c ∧
      configurationAt h.world.heap p.conf = some cfg ∧ cfg.owningControllerSocket = (4 : ℕ) :=
    ⟨_, _, _, _, _, _, _, _, rfl, rfl, rfl, rfl, rfl, rfl, rfl, rfl⟩
  have hclose := (free_closes_own_iff hreach (by decide) hp ht hconf hcfg hn hk).1
  refine ⟨h, k, hreach, hk, hother, ?_⟩
  rw [hclose, Descriptors.close_same]

end GoLibtor
