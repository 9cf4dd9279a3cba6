import Mathlib.Algebra.GroupWithZero.Nat
import GoLibtor.Process.OneTor
import GoLibtor.Process.Refinement

/-! Memory safety of a program with embedded processes: which steps are undefined, and what
is allocated at any time. -/
namespace GoLibtor

open Memory Transition

variable {acts : List HostAction} {h : Host} {i : ℕ} {p : LiveProcess}

/-- The goroutine of `Start` has freed the configuration. -/
def LiveProcess.Released (p : LiveProcess) : Prop := p.thread.confFreed = true

theorem liveConf_eq_none : p.liveConf = none ↔ p.conf = none ∨ p.Released := by
  unfold LiveProcess.liveConf LiveProcess.Released
  by_cases hfreed : p.thread.confFreed = true
  · simp [hfreed]
  · simp [hfreed]

/-! ### More than one Tor -/

/-- The goroutine is about to call `tor_run_main`. -/
def Thread.EntersRunMain : Thread → Prop
  | .spawned _ _ => True
  | _ => False

def Thread.InRunMain : Thread → Prop
  | .running _ _ _ => True
  | _ => False

instance : DecidablePred Thread.EntersRunMain := fun t => by
  unfold Thread.EntersRunMain
  split <;> infer_instance

instance : DecidablePred Thread.InRunMain := fun t => by
  unfold Thread.InRunMain
  split <;> infer_instance

namespace Host

/-- The calls of `tor_run_main` that have not returned. -/
def inRunMain (h : Host) : ℕ := h.procs.countP fun p => p.thread.InRunMain

/-- The step calls `tor_run_main` while another call of it has not returned. By `tor_api.h`
that is undefined behaviour, whatever Tor then does. -/
def SecondTor (h : Host) : HostAction → Prop
  | .on i (.goroutine _) => (∃ p ∈ h.procs[i]?, p.thread.EntersRunMain) ∧ 0 < h.inRunMain
  | _ => False

/-- The step goes wrong on a pointer, or it starts a second Tor. -/
def Undefined (h : Host) (a : HostAction) : Prop :=
  (∃ f, h.next a = some (.error f)) ∨ h.SecondTor a

instance (h : Host) (a : HostAction) : Decidable (∃ f, h.next a = some (.error f)) :=
  match hr : h.next a with
  | some (.error f) => isTrue ⟨f, rfl⟩
  | some (.ok k) => isFalse (by simp)
  | none => isFalse (by simp)

instance (h : Host) (a : HostAction) : Decidable (h.SecondTor a) := by
  unfold SecondTor
  split <;> infer_instance

instance (h : Host) (a : HostAction) : Decidable (h.Undefined a) :=
  inferInstanceAs (Decidable (_ ∨ _))

end Host

/-- The goroutine of a process is in `tor_run_main` after a step if it was there before, or the
step is its own. -/
theorem ProcState.inRunMain_step {p q : ProcState} {a : Action} (h : p.step a = some q)
    (hq : q.goroutine.InRunMain) : p.goroutine.InRunMain ∨ ∃ code, a = .goroutine code := by
  cases a with
  | start code =>
    obtain rfl := Option.some.inj h
    rcases p.start_cases code with ⟨_, h⟩ | ⟨_, _, h⟩ | ⟨_, _, h⟩
    · rw [h] at hq
      exact Or.inl hq
    · rw [h] at hq
      exact Or.inl hq
    · rw [h] at hq
      cases hq
  | wait => obtain rfl := Option.some.inj h; exact Or.inl hq
  | waitDone i => obtain ⟨e, _, _, rfl⟩ := waitDone_cases h; exact Or.inl hq
  | waitReceive i => obtain ⟨code, rest, _, _, rfl⟩ := waitReceive_cases h; exact Or.inl hq
  | embeddedControlConn fd fileConn => obtain rfl := Option.some.inj h; exact Or.inl hq
  | cancel e => obtain rfl := Option.some.inj h; exact Or.inl hq
  | goroutine code => exact Or.inr ⟨code, rfl⟩

namespace LiveProcess

theorem exists_refines (p : LiveProcess) : ∃ q, p.Refines q :=
  ⟨⟨p.toEmbeddedProcess, p.thread.goroutine ("tor" :: p.args), p.waits, [], [], [], []⟩,
    rfl, rfl, rfl, rfl, rfl, rfl⟩

theorem Refines.inRunMain {q : ProcState} (h : p.Refines q) :
    q.goroutine.InRunMain ↔ p.thread.InRunMain := by
  rw [h.goroutine]
  cases p.thread <;> exact Iff.rfl

/-- The one step that takes a goroutine into `tor_run_main` is its own, from where it calls it. -/
theorem Stepped.inRunMain {L L' : Layout} {b : LiveAction} {p' : LiveProcess}
    (h : p.Stepped L b p' L') (hin : p'.thread.InRunMain) :
    p.thread.InRunMain ∨ p.thread.EntersRunMain ∧ ∃ code, b = .goroutine code := by
  by_cases hb : ∃ code, b = .goroutine code
  · obtain ⟨code, rfl⟩ := hb
    refine Or.inr ⟨?_, code, rfl⟩
    have hstage := h.advanced code rfl
    cases hp' : p'.thread with
    | running a n argv =>
      rw [hp', Thread.stage] at hstage
      cases hp : p.thread <;> simp [hp, Thread.stage] at hstage
      trivial
    | _ => simp [hp', Thread.InRunMain] at hin
  · obtain ⟨q, hq⟩ := p.exists_refines
    obtain ⟨_, _, _, hmodel⟩ := h.refines
    obtain ⟨q', hstep, hq'⟩ := hmodel q hq
    rcases ProcState.inRunMain_step hstep (hq'.inRunMain.mpr hin) with hold | ⟨code, hown⟩
    · exact Or.inl (hq.inRunMain.mp hold)
    · refine absurd ?_ hb
      cases b with
      | goroutine code => exact ⟨code, rfl⟩
      | _ => cases hown

end LiveProcess

/-- A step that starts no second Tor leaves at most one. -/
theorem Host.Fits.inRunMain_step {ps : List (LiveProcess × Layout)} (hf : h.Fits ps)
    {a : HostAction} (ha : a.Small) {k : Host} (hk : h.step a = some k) (hnot : ¬ h.SecondTor a)
    (hone : h.inRunMain ≤ 1) : k.inRunMain ≤ 1 := by
  rcases hf.step_cases ha hk with ⟨ctx, malloc, args, conf, rfl, _, hprocs, _⟩ |
    ⟨b, pre, p, L, post, p', L', rfl, _, _, _, hstepped, _, hp, hprocs, _⟩ |
    ⟨n, rfl, _, rfl⟩ | ⟨n, rfl, rfl⟩
  · rw [Host.inRunMain, hprocs, List.countP_append]
    exact hone
  · obtain ⟨hlt, hget⟩ := List.getElem?_eq_some_iff.mp hp
    rw [Host.inRunMain, hprocs, List.countP_set hlt, hget]
    by_cases hin : p'.thread.InRunMain
    · rcases hstepped.inRunMain hin with hold | ⟨henters, code, rfl⟩
      · have hpos : 0 < h.inRunMain :=
          List.countP_pos_iff.mpr ⟨p, List.mem_of_getElem? hp, decide_eq_true hold⟩
        simp only [hold, hin, decide_true, if_true]
        unfold Host.inRunMain at hone hpos
        omega
      · have hzero : h.inRunMain = 0 := by
          by_contra hne
          exact hnot ⟨⟨p, hp, henters⟩, Nat.pos_of_ne_zero hne⟩
        unfold Host.inRunMain at hzero
        rw [hzero]
        simp [hin]
    · unfold Host.inRunMain at hone
      simp only [hin, decide_false, Bool.false_eq_true, if_false]
      omega
  · exact hone
  · exact hone

/-- In a run without an undefined step there is at most one Tor at any time. -/
theorem HostReaches.inRunMain_le_one (hreach : HostReaches acts h) (hsmall : ∀ a ∈ acts, a.Small)
    (hdefined : EveryStep Host.step (fun g b => ¬ g.Undefined b) Host.initial acts) :
    h.inRunMain ≤ 1 := by
  refine Transition.run_history (I := fun as k => (∀ a ∈ as, HostAction.Small a) →
    EveryStep Host.step (fun g b => ¬ g.Undefined b) Host.initial as → k.inRunMain ≤ 1)
    (fun _ _ => Nat.zero_le 1) ?_ hreach hsmall hdefined
  intro as k a k' hrun ih hstep hall hok
  have hbefore : ∀ b ∈ as, HostAction.Small b := fun b hb => hall b (List.mem_append_left _ hb)
  obtain ⟨hok, hlast⟩ := (everyStep_concat hrun).mp hok
  obtain ⟨ps, hfits⟩ := HostReaches.fits hrun hbefore
  exact hfits.inRunMain_step (hall a (by simp)) hstep (fun hsecond => hlast (Or.inr hsecond))
    (ih hbefore hok)

/-! ### The steps that are undefined -/

/-- The pointers go wrong in a first `Start` without memory for the array, in
`EmbeddedControlConn` on a configuration that is NULL or was freed when Tor ended, and in
nothing else. -/
theorem fault_iff (hreach : HostReaches acts h) (hsmall : ∀ a ∈ acts, a.Small) {a : HostAction}
    (ha : a.Small) {r : Except Fault Host} (hr : h.next a = some r) :
    (∃ f, r = .error f) ↔ ∃ i p, h.procs[i]? = some p ∧
      ((a = .on i (.start false) ∧ p.done = none) ∨
        ∃ ans fileConn, a = .on i (.embeddedControlConn ans fileConn) ∧
          (p.conf = none ∨ p.Released)) := by
  obtain ⟨ps, hfits⟩ := hreach.fits hsmall
  constructor
  · rintro ⟨f, rfl⟩
    cases a with
    | new ctx malloc args =>
      obtain ⟨conf, w, hresume, _⟩ := hfits.new ctx malloc ha
      have hok := Option.some.inj hr
      rw [hresume] at hok
      cases hok
    | on i b =>
      obtain ⟨p, prog, hp, _, hprog, hfault⟩ := Host.next_on_cases hr
      have hnot : ¬ b.Safe p := by
        intro hsafe
        obtain ⟨_, _, _, _, _, _, _, _, hresume, _⟩ := hfits.on hp hprog hsafe
        rw [hresume] at hfault
        cases hfault
      refine ⟨i, p, hp, ?_⟩
      cases b with
      | start calloc =>
        obtain ⟨hdone, hcalloc⟩ := Classical.not_imp.mp hnot
        rw [Bool.eq_false_iff.mpr hcalloc]
        exact Or.inl ⟨rfl, hdone⟩
      | embeddedControlConn ans fileConn =>
        exact Or.inr ⟨ans, fileConn, rfl, liveConf_eq_none.mp (not_not.mp hnot)⟩
      | _ => exact absurd trivial hnot
    | openOther n =>
      unfold Host.next at hr
      dsimp only at hr
      split_ifs at hr
      cases Option.some.inj hr
    | closeOther n => cases Option.some.inj hr
  · rintro ⟨i, p, hp, ⟨rfl, hdone⟩ | ⟨ans, fileConn, rfl, hconf⟩⟩
    · obtain ⟨p', prog, hp', _, hprog, rfl⟩ := Host.next_on_cases hr
      obtain rfl := Option.some.inj (hp.symm.trans hp')
      have hnot : ¬ LiveAction.Safe p (.start false) := fun hsafe => by cases hsafe hdone
      exact hfits.undefined hp hprog hnot
    · obtain ⟨p', prog, hp', _, hprog, rfl⟩ := Host.next_on_cases hr
      obtain rfl := Option.some.inj (hp.symm.trans hp')
      have hnot : ¬ LiveAction.Safe p (.embeddedControlConn ans fileConn) :=
        fun hsafe => hsafe (liveConf_eq_none.mpr hconf)
      exact hfits.undefined hp hprog hnot

/-- In a run whose steps were all defined there is at most one Tor, and of all the steps that
the program can take next, whatever the C library answers, these are undefined and no others: a
first `Start` without memory for the array, `EmbeddedControlConn` on a configuration that is
NULL or was freed when Tor ended, and a call of `tor_run_main` while Tor runs. -/
theorem undefined_iff (hreach : HostReaches acts h) (hsmall : ∀ a ∈ acts, a.Small)
    (hdefined : EveryStep Host.step (fun g b => ¬ g.Undefined b) Host.initial acts)
    {a : HostAction} (ha : a.Small) {r : Except Fault Host} (hr : h.next a = some r) :
    h.inRunMain ≤ 1 ∧ (h.Undefined a ↔ ∃ i p, h.procs[i]? = some p ∧
      ((a = .on i (.start false) ∧ p.done = none) ∨
        (∃ ans fileConn, a = .on i (.embeddedControlConn ans fileConn) ∧
          (p.conf = none ∨ p.Released)) ∨
        ∃ code, a = .on i (.goroutine code) ∧ p.thread.EntersRunMain ∧
          ∃ q ∈ h.procs, q.thread.InRunMain)) := by
  refine ⟨hreach.inRunMain_le_one hsmall hdefined, ?_⟩
  have hfault : (∃ f, h.next a = some (.error f)) ↔ ∃ f, r = .error f := by
    rw [hr]
    simp only [Option.some.injEq]
  rw [Host.Undefined, hfault, fault_iff hreach hsmall ha hr]
  constructor
  · rintro (⟨i, p, hp, hstart | hconn⟩ | hsecond)
    · exact ⟨i, p, hp, Or.inl hstart⟩
    · exact ⟨i, p, hp, Or.inr (Or.inl hconn)⟩
    · unfold Host.SecondTor at hsecond
      split at hsecond
      next i code =>
        obtain ⟨⟨p, hp, henters⟩, hpos⟩ := hsecond
        obtain ⟨q, hq, hin⟩ := List.countP_pos_iff.mp hpos
        exact ⟨i, p, hp, Or.inr (Or.inr ⟨code, rfl, henters, q, hq, of_decide_eq_true hin⟩)⟩
      next => cases hsecond
  · rintro ⟨i, p, hp, hstart | hconn | ⟨code, rfl, henters, q, hq, hin⟩⟩
    · exact Or.inl ⟨i, p, hp, Or.inl hstart⟩
    · exact Or.inl ⟨i, p, hp, Or.inr hconn⟩
    · exact Or.inr ⟨⟨p, hp, henters⟩, List.countP_pos_iff.mpr ⟨q, hq, decide_eq_true hin⟩⟩

/-- The first Tor has ended, the second one runs, and a third process has been started. -/
def threeProcesses : List HostAction :=
  [.new none true ["--quiet"], .on 0 (.start true), .on 0 (.goroutine 0), .on 0 (.goroutine 0),
    .on 0 (.goroutine 0), .on 0 (.goroutine 0), .new none true [], .on 1 (.start true),
    .on 1 (.goroutine 0), .new none true [], .on 2 (.start true)]

/-- The first process may not be asked for a socket any more, the second one may, and the
third one must not enter Tor yet. -/
theorem undefined_iff_three : ∃ h, HostReaches threeProcesses h ∧
    h.Undefined (.on 0 (.embeddedControlConn ⟨none, ⟨true, true⟩, ⟨true, true⟩⟩ (.ok ()))) ∧
    ¬ h.Undefined (.on 1 (.embeddedControlConn ⟨none, ⟨true, true⟩, ⟨true, true⟩⟩ (.ok ()))) ∧
    h.Undefined (.on 2 (.goroutine 0)) := by
  obtain ⟨h, p, q, t, r₀, r₁, r₂, hreach, hr₀, hr₁, hr₂, hprocs, hp, hq, hin, ht⟩ :
      ∃ h p q t r₀ r₁ r₂, HostReaches threeProcesses h ∧
        h.next (.on 0 (.embeddedControlConn ⟨none, ⟨true, true⟩, ⟨true, true⟩⟩ (.ok ()))) = some r₀ ∧
        h.next (.on 1 (.embeddedControlConn ⟨none, ⟨true, true⟩, ⟨true, true⟩⟩ (.ok ()))) = some r₁ ∧
        h.next (.on 2 (.goroutine 0)) = some r₂ ∧ h.procs = [p, q, t] ∧ p.Released ∧
        ¬ (q.conf = none ∨ q.thread.confFreed = true) ∧ q.thread.InRunMain ∧ t.thread.EntersRunMain :=
    ⟨_, _, _, _, _, _, _, rfl, rfl, rfl, rfl, rfl, rfl, by decide +kernel, trivial, trivial⟩
  have hdefined : EveryStep Host.step (fun g b => ¬ g.Undefined b) Host.initial threeProcesses := by
    decide +kernel
  have hiff : ∀ {i : ℕ} {b : LiveAction} {r : Except Fault Host}, h.next (.on i b) = some r → _ :=
    fun {i b r} hr => (undefined_iff hreach (by decide) hdefined (a := .on i b) trivial hr).2
  refine ⟨h, hreach, (hiff hr₀).mpr ?_, fun hundefined => ?_, (hiff hr₂).mpr ?_⟩
  · exact ⟨0, p, by rw [hprocs]; rfl, Or.inr (Or.inl ⟨_, _, rfl, Or.inr hp⟩)⟩
  · obtain ⟨i, s, hs, ⟨hact, _⟩ | ⟨_, _, hact, hconf⟩ | ⟨_, hact, _⟩⟩ :=
      (hiff hr₁).mp hundefined
    · cases hact
    · cases hact
      rw [hprocs] at hs
      obtain rfl := Option.some.inj hs
      exact hq hconf
    · cases hact
  · exact ⟨2, t, by rw [hprocs]; rfl, Or.inr (Or.inr ⟨0, rfl, ht, q, by simp [hprocs], hin⟩)⟩

/-! ### What is allocated -/

/-- The process may hold memory: it has a configuration, and Tor has not ended. -/
def LiveProcess.holdsMemory (p : LiveProcess) : Bool :=
  p.conf.isSome && p.thread.stage < 6

namespace LiveProcess

variable {L : Layout}

theorem Fits.card_owned (hp : p.Fits L) : L.owned.length ≤ 2 := by
  rw [← Strings.length_texts]
  rcases hp.socket with ⟨_, hnil, _⟩ | ⟨_, _, _, hsub, _⟩
  · rw [hnil]
    exact Nat.zero_le _
  · exact hsub.length_le

theorem card_strings (l : Strings) : l.cells.card = l.length := by
  simp [Strings.cells]

theorem card_arrayCells (a : ℕ) (l : Strings) (pad : ℕ) :
    (arrayCells a l pad).card = l.length + 1 := by
  rw [arrayCells, Multiset.card_add, Multiset.card_singleton, card_strings]
  omega

theorem Fits.card_confCells (hp : p.Fits L) (c : ℕ) :
    (confCells c L.cfg L.owned L.pad).card ≤ 4 := by
  have howned := hp.card_owned
  rw [confCells, Multiset.card_add, Multiset.card_singleton]
  cases L.cfg.argvOwned with
  | none => simp
  | some a =>
    rw [Option.elim_some, card_arrayCells]
    omega

theorem Fits.card_threadCells (hp : p.Fits L) :
    (p.thread.cells L.argv L.seen).card ≤ p.args.length + 3 := by
  rw [Thread.cells, Multiset.card_add]
  have hvector : (p.thread.torArgv.elim (0 : Multiset (ℕ × Block))
      fun v => {(v, .pointers (L.argv.slots ++ L.seen.slots))}).card ≤ 1 := by
    cases p.thread.torArgv <;> simp
  cases harray : p.thread.array with
  | none => simp; omega
  | some x =>
    obtain ⟨a, n⟩ := x
    obtain ⟨hne, _, _, htexts⟩ := hp.array a n harray
    obtain ⟨b, rfl⟩ := Option.ne_none_iff_exists'.mp hne
    have hlen : L.argv.length = p.args.length + 1 := by
      rw [← Strings.length_texts, htexts, List.length_cons]
    rw [Option.bind_some, Option.elim_some, card_arrayCells]
    omega

/-- A process with nothing to hold has no cells. -/
theorem Fits.cells_eq_zero (hp : p.Fits L) (h : p.holdsMemory = false) : p.cells L = 0 := by
  cases hconf : p.conf with
  | none =>
    have hidle := (hp.null hconf).1
    rw [cells_idle hidle, hconf]
    rfl
  | some c =>
    cases ht : p.thread with
    | finished e => simp [cells, liveConf, ht, Thread.confFreed, Thread.cells, Thread.array, Thread.torArgv]
    | _ => simp [holdsMemory, hconf, ht, Thread.stage] at h

theorem Fits.card_cells (hp : p.Fits L) :
    (p.cells L).card ≤ if p.holdsMemory then p.args.length + 7 else 0 := by
  by_cases hholds : p.holdsMemory = true
  · have hthread := hp.card_threadCells
    rw [if_pos hholds, cells, Multiset.card_add]
    cases p.liveConf with
    | none =>
      rw [Option.elim_none, Multiset.card_zero]
      omega
    | some c =>
      have hconf := hp.card_confCells c
      rw [Option.elim_some]
      omega
  · rw [if_neg hholds, hp.cells_eq_zero (Bool.eq_false_iff.mpr hholds)]
    exact le_rfl

end LiveProcess

theorem card_cells_le : ∀ ps : List (LiveProcess × Layout), (∀ x ∈ ps, x.1.Fits x.2) →
    ((ps.map fun x : LiveProcess × Layout => x.1.cells x.2).sum).card ≤
      ((ps.map Prod.fst).map fun p => if p.holdsMemory then p.args.length + 7 else 0).sum
  | [], _ => by simp
  | x :: ps, hall => by
    have hx := (hall x List.mem_cons_self).card_cells
    have hps := card_cells_le ps fun y hy => hall y (List.mem_cons_of_mem x hy)
    rw [List.map_cons, List.sum_cons, Multiset.card_add, List.map_cons, List.map_cons, List.sum_cons]
    omega

/-- However many steps a program has taken, its processes hold no more blocks than this; and
when each of them has ended, or never had a configuration, there is no block left. -/
theorem allocated_le (hreach : HostReaches acts h) (hsmall : ∀ a ∈ acts, a.Small) :
    h.world.heap.live ≤
        (h.procs.map fun p => if p.holdsMemory then p.args.length + 7 else 0).sum ∧
      ((∀ p ∈ h.procs, p.conf = none ∨ ∃ code, p.thread = .finished code) →
        ∀ a, h.world.heap.block a = none) := by
  obtain ⟨ps, hfits⟩ := hreach.fits hsmall
  have hle : h.world.heap.live ≤
      (h.procs.map fun p => if p.holdsMemory then p.args.length + 7 else 0).sum := by
    rw [hfits.mem.holds.live_eq, hfits.procs]
    exact card_cells_le ps hfits.fits
  refine ⟨hle, fun hended a => ?_⟩
  have hnone : ∀ p ∈ h.procs, (if p.holdsMemory then p.args.length + 7 else 0) = 0 := by
    intro p hp
    rcases hended p hp with hconf | ⟨code, ht⟩
    · simp [LiveProcess.holdsMemory, hconf]
    · simp [LiveProcess.holdsMemory, ht, Thread.stage]
  have hzero : (h.procs.map fun p => if p.holdsMemory then p.args.length + 7 else 0).sum = 0 := by
    rw [List.map_congr_left hnone]
    simp
  have hempty : (ps.map fun x => x.1.cells x.2).sum = 0 := by
    rw [← Multiset.card_eq_zero, ← hfits.mem.holds.live_eq]
    omega
  have hholds := hfits.mem.holds
  rw [hempty] at hholds
  exact hholds.block_eq_none a

/-- Two processes: one had no configuration and failed twice to start, Tor ended for the other. -/
theorem allocated_le_ended : ∃ h, HostReaches [.new none false ["--quiet"], .on 0 (.start true),
      .new none true [], .on 1 (.start true), .on 1 (.goroutine 0), .on 0 (.start true),
      .on 1 (.goroutine 3), .on 1 (.goroutine 0), .on 1 (.goroutine 0), .on 1 (.goroutine 0)] h ∧
    h.world.heap.next = 10 ∧ ∀ a, h.world.heap.block a = none := by
  obtain ⟨h, p, q, hreach, hnext, hprocs, hp, hq⟩ : ∃ h p q, HostReaches
      [.new none false ["--quiet"], .on 0 (.start true), .new none true [], .on 1 (.start true),
        .on 1 (.goroutine 0), .on 0 (.start true), .on 1 (.goroutine 3), .on 1 (.goroutine 0),
        .on 1 (.goroutine 0), .on 1 (.goroutine 0)] h ∧ h.world.heap.next = 10 ∧
      h.procs = [p, q] ∧ p.conf = none ∧ q.thread = .finished 3 :=
    ⟨_, _, _, rfl, rfl, rfl, rfl, rfl⟩
  refine ⟨h, hreach, hnext, (allocated_le hreach (by decide)).2 fun r hr => ?_⟩
  rw [hprocs] at hr
  rcases List.mem_cons.mp hr with rfl | hr
  · exact Or.inl hp
  · rw [List.mem_singleton.mp hr]
    exact Or.inr ⟨3, hq⟩

end GoLibtor
