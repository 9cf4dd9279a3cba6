import GoLibtor.Process.Refinement
import Mathlib.Data.List.TakeWhile

/-! The command line that Tor is given and the control socket that is added to it, in every
run of a program. -/
namespace GoLibtor

open Memory Transition

/-! ### What is read through the pointers of a process -/

def configurationAt (h : Heap Block) (p : Ptr) : Option TorMainConfiguration :=
  match p.bind h.block with
  | some (.configuration cfg) => some cfg
  | _ => none

/-- The arguments that a configuration owns. -/
def ownedAt (h : Heap Block) (cfg : TorMainConfiguration) : Option (List String) :=
  match cfg.argvOwned.bind h.block with
  | some (.pointers slots) => (slots.take cfg.argcOwned).mapM (charsAt h)
  | _ => some []

section Reading

variable {h : Heap Block} {a : ℕ} {l : Strings} {pad : ℕ}

theorem mapM_charsAt (hl : ∀ s ∈ l, h.block s.1 = some (.chars s.2)) :
    l.slots.mapM (charsAt h) = some (l.texts.map cText) := by
  induction l with
  | nil => rfl
  | cons s l ih =>
    have hs : charsAt h (.block s.1) = some (cText s.2) := by
      simp only [charsAt, hl s List.mem_cons_self]
    have hrest := ih fun x hx => hl x (List.mem_cons_of_mem s hx)
    change (CharPtr.block s.1 :: Strings.slots l).mapM (charsAt h) = _
    rw [List.mapM_cons, hs, hrest]
    rfl

theorem mem_arrayCells : (a, .pointers (l.slots ++ List.replicate pad .null)) ∈ arrayCells a l pad :=
  Multiset.mem_add.mpr (Or.inl (Multiset.mem_singleton_self _))

theorem mem_arrayCells_of_mem {s : ℕ × String} (hs : s ∈ l) :
    (s.1, .chars s.2) ∈ arrayCells a l pad :=
  Multiset.mem_add.mpr (Or.inr (Multiset.mem_coe.mpr (List.mem_map.mpr ⟨s, hs, rfl⟩)))

theorem mem_confCells {c : ℕ} {cfg : TorMainConfiguration} :
    (c, .configuration cfg) ∈ confCells c cfg l pad :=
  Multiset.mem_add.mpr (Or.inl (Multiset.mem_singleton_self _))

theorem cText_eq {s : String} (hs : ∀ c ∈ s.toList, c ≠ '\x00') : cText s = s := by
  have htake : s.toList.takeWhile (· ≠ '\x00') = s.toList :=
    List.takeWhile_eq_self_iff.mpr fun c hc => decide_eq_true (hs c hc)
  rw [cText, htake, String.ofList_toList]

theorem cText_toString (n : ℕ) : cText (toString n) = toString n := by
  refine cText_eq fun c hc => ?_
  have hdigit : c.isDigit := by
    refine Nat.isDigit_of_mem_toDigits (b := 10) (n := n) (by omega) (by omega) ?_
    rwa [Nat.toString_eq_repr, Nat.repr_eq_ofList_toDigits, String.toList_ofList] at hc
  intro hzero
  rw [hzero] at hdigit
  cases hdigit

theorem cText_owningControllerFD : cText owningControllerFD = owningControllerFD :=
  cText_eq (by decide)

end Reading

variable {acts : List HostAction} {h : Host} {i c : ℕ} {p : LiveProcess} {L : Layout}
  {ps : List (LiveProcess × Layout)}

/-! ### One process of a program that fits -/

section Process

variable {w : TorWorld} {rest : Multiset (ℕ × Block)} {dead : List ℕ} {d : Descriptors FdObject}

theorem block_of_mem (hw : w.Is (p.cells L + rest) dead d) {a : ℕ} {b : Block}
    (hb : (a, b) ∈ p.cells L) : w.heap.block a = some b :=
  (hw.holds.block_iff a b).mpr (Multiset.mem_add.mpr (Or.inl hb))

theorem mem_cells_conf (hlive : p.liveConf = some c) {x : ℕ × Block}
    (hx : x ∈ confCells c L.cfg L.owned L.pad) : x ∈ p.cells L := by
  rw [LiveProcess.cells, hlive]
  exact Multiset.mem_add.mpr (Or.inl hx)

theorem mem_cells_owned (hlive : p.liveConf = some c) {a : ℕ} (hargv : L.cfg.argvOwned = some a)
    {x : ℕ × Block} (hx : x ∈ arrayCells a L.owned L.pad) : x ∈ p.cells L := by
  refine mem_cells_conf hlive ?_
  rw [confCells, hargv]
  exact Multiset.mem_add.mpr (Or.inr hx)

theorem block_owned (hp : p.Fits L) (hlive : p.liveConf = some c)
    (hw : w.Is (p.cells L + rest) dead d) :
    ∀ s ∈ L.owned, w.heap.block s.1 = some (.chars s.2) := by
  intro s hs
  cases hargv : L.cfg.argvOwned with
  | none =>
    rw [hp.counts.2 hargv] at hs
    cases hs
  | some a =>
    have hcell := mem_cells_owned hlive hargv (mem_arrayCells_of_mem hs)
    exact block_of_mem hw hcell

/-- A configuration that is not freed is where the process says, with the arguments it owns. -/
theorem configuration_read (hp : p.Fits L) (hlive : p.liveConf = some c)
    (hw : w.Is (p.cells L + rest) dead d) :
    configurationAt w.heap (some c) = some L.cfg ∧
      ownedAt w.heap L.cfg = some (L.owned.texts.map cText) := by
  have hcfg : w.heap.block c = some (.configuration L.cfg) :=
    block_of_mem hw (mem_cells_conf hlive mem_confCells)
  constructor
  · simp only [configurationAt, Option.bind_some, hcfg]
  · cases hargv : L.cfg.argvOwned with
    | none =>
      simp only [ownedAt, hargv, hp.counts.2 hargv, Option.bind_none]
      rfl
    | some a =>
      have harray : w.heap.block a = some (.pointers (L.owned.slots ++ List.replicate L.pad .null)) :=
        block_of_mem hw (mem_cells_owned hlive hargv mem_arrayCells)
      have htake : (L.owned.slots ++ List.replicate L.pad CharPtr.null).take L.cfg.argcOwned =
          L.owned.slots := by
        rw [hp.counts.1, ← L.owned.length_slots, List.take_left]
      simp only [ownedAt, hargv, Option.bind_some, harray, htake]
      exact mapM_charsAt (block_owned hp hlive hw)

theorem liveConf_of_stage (hp : p.Fits L) (hlow : 1 ≤ p.thread.stage) (hhigh : p.thread.stage ≤ 4) :
    ∃ c, p.conf = some c ∧ p.liveConf = some c := by
  have hne : p.conf ≠ none := by
    intro hnone
    rw [(hp.null hnone).1] at hlow
    cases hlow
  obtain ⟨c, hc⟩ := Option.ne_none_iff_exists'.mp hne
  have hnot : p.thread.confFreed = false := by
    cases ht : p.thread <;> simp [ht, Thread.stage] at hhigh <;> rfl
  exact ⟨c, hc, by rw [LiveProcess.liveConf, hnot, hc]; rfl⟩

/-- While Tor runs, its vector reads as the arguments of `Start` and the owned ones. -/
theorem torArgv_read (hp : p.Fits L) {b v : Ptr} {n : ℤ} (ht : p.thread = .running b n v)
    (hw : w.Is (p.cells L + rest) dead d) :
    argvAt w.heap v = some (("tor" :: p.args).map cText ++ L.seen.texts.map cText) := by
  obtain ⟨c, _, hlive⟩ := liveConf_of_stage hp (by rw [ht]; exact Nat.le_succ 1)
    (by rw [ht]; exact Nat.le_add_left 2 2)
  obtain ⟨hv, hseen⟩ := hp.seen b n v ht
  obtain ⟨hb, _, _, htexts⟩ := hp.array b n (by rw [ht]; rfl)
  obtain ⟨a, rfl⟩ := Option.ne_none_iff_exists'.mp hb
  obtain ⟨v, rfl⟩ := Option.ne_none_iff_exists'.mp hv
  have hthread : p.cells L = confCells c L.cfg L.owned L.pad + (arrayCells a L.argv 0 +
      {(v, .pointers (L.argv.slots ++ L.seen.slots))}) := by
    rw [LiveProcess.cells, hlive, ht]
    rfl
  have hvector : w.heap.block v = some (.pointers (L.argv ++ L.seen).slots) := by
    have hmem : (v, Block.pointers (L.argv.slots ++ L.seen.slots)) ∈ p.cells L := by
      rw [hthread]
      simp
    rw [Strings.slots_append]
    exact block_of_mem hw hmem
  have hstrings : ∀ s ∈ L.argv ++ L.seen, w.heap.block s.1 = some (.chars s.2) := by
    intro s hs
    rcases List.mem_append.mp hs with hs | hs
    · have hmem : (s.1, Block.chars s.2) ∈ p.cells L := by
        rw [hthread]
        exact Multiset.mem_add.mpr (Or.inr (Multiset.mem_add.mpr
          (Or.inl (mem_arrayCells_of_mem hs))))
      exact block_of_mem hw hmem
    · exact block_owned hp hlive hw s (hseen.subset hs)
  simp only [argvAt, Option.bind_some, hvector]
  rw [mapM_charsAt hstrings, Strings.texts_append, htexts, List.map_append]

end Process

/-! ### One control socket for each configuration -/

/-- What is added to the command line for a control socket. -/
def controlArgs (socket : ℤ) : List String :=
  if socket = -1 then [] else [owningControllerFD, toString socket.toNat]

theorem map_cText_controlArgs (socket : ℤ) : (controlArgs socket).map cText = controlArgs socket := by
  unfold controlArgs
  split_ifs
  · rfl
  · rw [List.map_cons, List.map_cons, List.map_nil, cText_owningControllerFD, cText_toString]

/-- No call of `realloc` or `strdup` fails in a step. -/
def LiveAction.AddsAll : LiveAction → Prop
  | .embeddedControlConn ans _ => ans.name = ⟨true, true⟩ ∧ ans.number = ⟨true, true⟩
  | _ => True

/-- Then the configuration owns both arguments of its socket. -/
theorem owned_of_addsAll {b : LiveAction} {p' : LiveProcess} {L' : Layout} (hp : p.Fits L)
    (hb : b.AddsAll) (hstepped : p.Stepped L b p' L')
    (howned : L.owned.texts = controlArgs L.cfg.owningControllerSocket) :
    L'.owned.texts = controlArgs L'.cfg.owningControllerSocket := by
  rw [hstepped.owned, hstepped.socket]
  cases b with
  | embeddedControlConn ans fileConn =>
    obtain ⟨hname, hnumber⟩ := hb
    dsimp only [LiveProcess.ownedAfter, LiveProcess.socketAfter]
    by_cases hsocket : 0 ≤ L.cfg.owningControllerSocket
    · rw [if_pos hsocket, if_pos hsocket, howned]
    · rw [if_neg hsocket, if_neg hsocket]
      cases hpair : ans.socketpair with
      | none => exact howned
      | some fds =>
        have hminus : L.cfg.owningControllerSocket = -1 := by
          rcases hp.socket with ⟨hminus, _⟩ | ⟨_, fd1, hfd, _⟩
          · exact hminus
          · omega
        have hne : (fds.2 : ℤ) ≠ -1 := by omega
        rw [Option.elim_some, Option.elim_some, howned, hminus, controlArgs, if_pos rfl, controlArgs,
          if_neg hne, SocketAnswers.added, hname, hnumber]
        rfl
  | _ => exact howned

/-- At most one call of `EmbeddedControlConn` on a process is ever answered with a socket. Its
configuration has a socket from then on, and owns the two arguments that name it, or what of
them there was memory for. -/
theorem control_socket_once (hreach : HostReaches acts h) (hsmall : ∀ a ∈ acts, a.Small)
    (hp : h.procs[i]? = some p) :
    (p.sockets.filter (· ≠ -1)).length ≤ 1 ∧
      ∀ c, p.liveConf = some c → ∃ cfg owned,
        configurationAt h.world.heap (some c) = some cfg ∧
        ownedAt h.world.heap cfg = some owned ∧
        (cfg.owningControllerSocket = -1 ↔ ∀ r ∈ p.sockets, r = -1) ∧
        owned.Sublist (controlArgs cfg.owningControllerSocket) ∧
        ((∀ b, .on i b ∈ acts → LiveAction.AddsAll b) →
          owned = controlArgs cfg.owningControllerSocket) := by
  obtain ⟨ps, hfits, hJ⟩ := process_run (i := i)
    (J := fun _ L => (∀ b, .on i b ∈ acts → LiveAction.AddsAll b) →
      L.owned.texts = controlArgs L.cfg.owningControllerSocket) hreach hsmall
    ⟨[], Host.fits_initial, by simp⟩ (fun _ _ _ _ _ => rfl)
    fun b hb q M q' M' hq hstepped hold hall =>
      owned_of_addsAll hq (hall b hb) hstepped (hold hall)
  obtain ⟨L, rest, dead, hat, hfit, hmem⟩ := hfits.at hp
  have hJ' := hJ _ hat
  constructor
  · rcases hfit.socket with ⟨_, _, hall⟩ | ⟨fd0, _, _, _, hone⟩
    · have hnil : p.sockets.filter (· ≠ -1) = [] := by
        rw [List.filter_eq_nil_iff]
        intro r hr
        simp [hall r hr]
      rw [hnil]
      exact Nat.zero_le _
    · rw [hone]
      exact le_rfl
  · intro c hlive
    obtain ⟨hcfg, howned⟩ := configuration_read hfit hlive hmem
    refine ⟨L.cfg, _, hcfg, howned, ?_, ?_, ?_⟩
    · rcases hfit.socket with ⟨hminus, _, hall⟩ | ⟨fd0, fd1, hfd, _, hone⟩
      · exact iff_of_true hminus hall
      · refine iff_of_false (by omega) fun hall => ?_
        have hmem : (fd0 : ℤ) ∈ p.sockets.filter (· ≠ -1) := by
          rw [hone]
          exact List.mem_singleton_self _
        obtain ⟨hin, hne⟩ := List.mem_filter.mp hmem
        exact of_decide_eq_true hne (hall _ hin)
    · rw [← map_cText_controlArgs]
      refine List.Sublist.map _ ?_
      rcases hfit.socket with ⟨_, hnil, _⟩ | ⟨_, fd1, hfd, htexts, _⟩
      · rw [hnil]
        exact List.nil_sublist _
      · have hne : (fd1 : ℤ) ≠ -1 := by omega
        rw [hfd, controlArgs, if_neg hne, Int.toNat_natCast]
        exact htexts
    · intro hall
      rw [hJ' hall, map_cText_controlArgs]

/-- Two arguments for the one socket: the second call of `EmbeddedControlConn` gets none. -/
theorem control_socket_once_twice : ∃ h p, HostReaches [.new none true [],
      .on 0 (.embeddedControlConn ⟨some (3, 4), ⟨true, true⟩, ⟨true, true⟩⟩ (.ok ())),
      .on 0 (.embeddedControlConn ⟨some (5, 6), ⟨true, true⟩, ⟨true, true⟩⟩ (.ok ()))] h ∧
    h.procs[0]? = some p ∧ p.sockets = [3, -1] ∧ (p.sockets.filter (· ≠ -1)).length ≤ 1 := by
  obtain ⟨h, p, hreach, hp, hsockets⟩ : ∃ h p, HostReaches [.new none true [],
      .on 0 (.embeddedControlConn ⟨some (3, 4), ⟨true, true⟩, ⟨true, true⟩⟩ (.ok ())),
      .on 0 (.embeddedControlConn ⟨some (5, 6), ⟨true, true⟩, ⟨true, true⟩⟩ (.ok ()))] h ∧
    h.procs[0]? = some p ∧ p.sockets = [3, -1] := ⟨_, _, rfl, rfl, rfl⟩
  exact ⟨h, p, hreach, hp, hsockets, (control_socket_once hreach (by decide) hp).1⟩

/-! ### The command line of Tor -/

theorem torArgv_stage (hp : p.Fits L) : p.thread.torArgv ≠ none ↔ p.thread.stage = 2 := by
  cases ht : p.thread with
  | running b n v => simpa [Thread.torArgv, Thread.stage] using (hp.seen b n v ht).1
  | _ => simp [Thread.torArgv, Thread.stage]

/-- From the call of `tor_run_main` on, what Tor was given of the configuration stays. -/
theorem seen_of_stepped {b : LiveAction} {p' : LiveProcess} {L' : Layout} {owned : Strings}
    (hp : p.Fits L) (hstepped : p.Stepped L b p' L') (hstage : 2 ≤ p.thread.stage)
    (hseen : p.thread.torArgv ≠ none → L.seen = owned) :
    2 ≤ p'.thread.stage ∧ (p'.thread.torArgv ≠ none → L'.seen = owned) := by
  have hle := hstepped.stage
  refine ⟨hstage.trans hle, fun hsome => ?_⟩
  have hp' := (torArgv_stage hstepped.fits).mp hsome
  have hsome' : p.thread.torArgv ≠ none := (torArgv_stage hp).mpr (by omega)
  rw [(hstepped.seen hsome' hsome).2]
  exact hseen hsome'

/-- As long as Tor runs, its argument vector reads as it did when `tor_run_main` was called: the
arguments of `Start`, each up to its first NUL, and those that the configuration owned then. -/
theorem tor_argv_intact {before after : List HostAction} {code : ℤ} {g : Host} {p0 : LiveProcess}
    {a b v : Ptr} {m n : ℤ} (hg : HostReaches before g) (hp0 : g.procs[i]? = some p0)
    (hspawned : p0.thread = .spawned a m)
    (hreach : HostReaches (before ++ .on i (.goroutine code) :: after) h)
    (hsmall : ∀ a ∈ before ++ .on i (.goroutine code) :: after, a.Small)
    (hp : h.procs[i]? = some p) (ht : p.thread = .running b n v) :
    ∃ cfg owned, configurationAt g.world.heap p0.conf = some cfg ∧
      ownedAt g.world.heap cfg = some owned ∧
      argvAt h.world.heap v = some (("tor" :: p.args).map cText ++ owned) := by
  obtain ⟨g', hg', hrest⟩ := Transition.run_append_eq_some.mp hreach
  obtain rfl := Option.some.inj (hg.symm.trans hg')
  obtain ⟨k, hk, hrun⟩ := Transition.run_cons_eq_some.mp hrest
  have hsmall' : ∀ x ∈ before, HostAction.Small x := fun x hx => hsmall x (List.mem_append_left _ hx)
  obtain ⟨ps, hfits⟩ := hg.fits hsmall'
  obtain ⟨L0, rest0, dead0, hat0, hfit0, hmem0⟩ := hfits.at hp0
  obtain ⟨c, hconf, hlive⟩ := liveConf_of_stage hfit0 (by rw [hspawned]; exact le_rfl)
    (by rw [hspawned]; exact Nat.le_add_left 1 3)
  obtain ⟨hcfg, howned⟩ := configuration_read hfit0 hlive hmem0
  rw [← hconf] at hcfg
  refine ⟨L0.cfg, _, hcfg, howned, ?_⟩
  -- The call of `tor_run_main` itself.
  have hcalled : i < k.procs.length ∧ ∃ ps, k.Fits ps ∧ ∀ x, ps[i]? = some x →
      2 ≤ x.1.thread.stage ∧ (x.1.thread.torArgv ≠ none → x.2.seen = L0.owned) := by
    rcases hfits.step_cases (hsmall _ (by simp)) hk with ⟨_, _, _, _, hact, _⟩ |
      ⟨b, pre, q, L, post, q', L', hact, rfl, _, _, hstepped, _, hq, hprocs, hkfits⟩ |
      ⟨_, hact, _⟩ | ⟨_, hact, _⟩
    · cases hact
    · cases hact
      obtain ⟨rfl, rfl⟩ : q = p0 ∧ L = L0 := by simpa using hat0
      have hlt := (List.getElem?_eq_some_iff.mp hq).1
      have hlen : k.procs.length = g.procs.length := by rw [hprocs, List.length_set]
      rw [← hlen] at hlt
      refine ⟨hlt, _, hkfits, ?_⟩
      intro x hx
      obtain rfl : (q', L') = x := by simpa using hx
      have hstage := hstepped.advanced code rfl
      rw [hspawned] at hstage
      refine ⟨hstage.ge, hstepped.entered ?_⟩
      rw [hspawned]
      rfl
    · cases hact
    · cases hact
  obtain ⟨qs, hqs, hJ⟩ := process_run hrun (fun x hx => hsmall x (by simp [hx])) hcalled.2
    (fun hlen => absurd hcalled.1 (Nat.not_lt.mpr hlen))
    fun b _ q M q' M' hq hstepped hold => seen_of_stepped hq hstepped hold.1 hold.2
  obtain ⟨L, rest, dead, hat, hfit, hmem⟩ := hqs.at hp
  have hseen := (hJ _ hat).2 ((torArgv_stage hfit).mpr (by rw [ht]; rfl))
  rw [torArgv_read hfit ht hmem, hseen]

/-- A control socket, a `Start`, and another process that is made while Tor runs. -/
theorem tor_argv_intact_socket : ∃ h v owned, HostReaches ([.new none true ["--quiet"],
      .on 0 (.embeddedControlConn ⟨some (3, 4), ⟨true, true⟩, ⟨true, true⟩⟩ (.ok ())),
      .on 0 (.start true)] ++ .on 0 (.goroutine 0) :: [.new none true []]) h ∧
    argvAt h.world.heap v = some (["tor", "--quiet"].map cText ++ owned) := by
  obtain ⟨g, p0, a, m, h, p, b, n, v, hg, hp0, hspawned, hreach, hp, ht, hargs⟩ :
      ∃ g p0 a m h p b n v, HostReaches [.new none true ["--quiet"],
        .on 0 (.embeddedControlConn ⟨some (3, 4), ⟨true, true⟩, ⟨true, true⟩⟩ (.ok ())),
        .on 0 (.start true)] g ∧ g.procs[0]? = some p0 ∧ p0.thread = .spawned a m ∧
      HostReaches ([.new none true ["--quiet"],
        .on 0 (.embeddedControlConn ⟨some (3, 4), ⟨true, true⟩, ⟨true, true⟩⟩ (.ok ())),
        .on 0 (.start true)] ++ .on 0 (.goroutine 0) :: [.new none true []]) h ∧
      h.procs[0]? = some p ∧ p.thread = .running b n v ∧ p.args = ["--quiet"] :=
    ⟨_, _, _, _, _, _, _, _, _, rfl, rfl, rfl, Transition.run_append_eq_some.mpr ⟨_, rfl, rfl⟩, rfl,
      rfl, rfl⟩
  obtain ⟨cfg, owned, _, _, hargv⟩ := tor_argv_intact hg hp0 hspawned hreach (by decide) hp ht
  rw [hargs] at hargv
  exact ⟨h, v, owned, hreach, hargv⟩

end GoLibtor
