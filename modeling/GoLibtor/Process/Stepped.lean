import GoLibtor.Process.Layout
import GoLibtor.Process.Invariant

/-! Each step of a process, by the cells of its memory before and after: the rule for every
method and for every position of the goroutine. -/
namespace GoLibtor

open Memory Transition Transition.Program

section Start

variable {rest : Multiset (ℕ × Block)} {dead : List ℕ} {d : Descriptors FdObject} {a pad : ℕ}

theorem cInt_eq {n : ℕ} (hn : (n : ℤ) ≤ intMax) : cInt n = n := by
  unfold intMax at hn
  unfold cInt
  rw [Int.bmod_eq_of_le] <;> omega

theorem setArg_meets {l : Strings} (arg : String) (hl : (l.length : ℤ) ≤ intMax) :
    Meets (Resources.Is (arrayCells a l (pad + 1) + rest) dead d)
      (LiveProcess.setArg (some a) (arg, l.length))
      fun _ w => ∃ b, w.Is (arrayCells a (l ++ [(b, arg)]) pad + rest) dead d := by
  have hin : (0 : ℤ) ≤ cInt l.length := by
    rw [cInt_eq hl]
    omega
  have hat : (cInt l.length).toNat = l.length := by
    rw [cInt_eq hl]
    omega
  have hcopy : Meets (Resources.Is (arrayCells a l (pad + 1) + rest) dead d) (cString arg)
      fun s w => ∃ b, s = .block b ∧
        w.Is (arrayCells a l (pad + 1) + ({(b, .chars arg)} + rest)) dead d :=
    (cString_meets arg).post fun s w ⟨b, hs, h⟩ => ⟨b, hs, h.cells_eq (add_left_comm _ _ _)⟩
  refine Meets.bind hcopy fun s => meets_exists fun b => meets_and ?_
  rintro rfl
  dsimp only
  rw [setArrayString, if_pos hin]
  refine (storeNext_meets hat (.block b)).post fun _ w h => ⟨b, h.cells_eq ?_⟩
  rw [arrayCells_concat]
  ac_rfl

/-- The loop of `Start` copies the arguments, one by one, into the slots of the array. -/
theorem setArgs_meets (args : List String) (l : Strings)
    (hl : ((l.length + args.length : ℕ) : ℤ) ≤ intMax) :
    Meets (Resources.Is (arrayCells a l args.length + rest) dead d)
      ((args.zipIdx l.length).forM (LiveProcess.setArg (some a)))
      fun _ w => ∃ l' : Strings, l'.texts = l.texts ++ args ∧ w.Is (arrayCells a l' 0 + rest) dead d := by
  induction args generalizing l with
  | nil => exact meets_pure fun w h => ⟨l, by rw [List.append_nil], h⟩
  | cons arg args ih =>
    have hlt : (l.length : ℤ) ≤ intMax := by
      rw [List.length_cons] at hl
      omega
    refine Meets.bind (setArg_meets arg hlt) fun _ => meets_exists fun b => ?_
    have hlen : (l ++ [(b, arg)]).length = l.length + 1 := by simp
    have hnext := ih (l ++ [(b, arg)]) (by
      rw [hlen]
      rw [List.length_cons] at hl
      omega)
    rw [hlen] at hnext
    refine hnext.post fun _ w ⟨l', htexts, h⟩ => ⟨l', ?_, h⟩
    rw [htexts, Strings.texts_append, List.append_assoc]
    rfl

variable {p : LiveProcess} {L : Layout} {c : ℕ}

/-- Before its first `Start` a process has its configuration and nothing else. -/
theorem LiveProcess.cells_idle (h : p.thread = .idle) :
    p.cells L = p.conf.elim 0 fun c => confCells c L.cfg L.owned L.pad := by
  simp [cells, liveConf, h, Thread.confFreed, Thread.cells, Thread.array, Thread.torArgv]

/-- What a successful `Start` makes of the struct. -/
def LiveProcess.started (p : LiveProcess) (a : ℕ) : LiveProcess :=
  { p with done := some [], thread := .spawned (some a) (p.args.length + 1) }

/-- The layout of a process once `Start` has succeeded. -/
def Layout.started (L : Layout) (a : ℕ) (argv : Strings) : Layout :=
  { L with cfg := { L.cfg with argc := argv.length, argv := .given (some a) }, argv := argv }

/-- The array of `Start`, filled with the arguments. -/
theorem fillCharArray_meets (hargs : (p.args.length : ℤ) + 3 ≤ intMax) {B : Type}
    {k : Ptr → CCode B} {Q : B → TorWorld → Prop}
    (hk : ∀ a argv, Strings.texts argv = "tor" :: p.args →
      Meets (Resources.Is (arrayCells a argv 0 + rest) dead d) (k (some a)) Q) :
    Meets (Resources.Is rest dead d) (do
      let charArray ← makeCharArray true (cInt ("tor" :: p.args).length)
      ("tor" :: p.args).zipIdx.forM (LiveProcess.setArg charArray)
      k charArray) Q := by
  have hlen : ((("tor" :: p.args).length : ℕ) : ℤ) ≤ intMax := by
    rw [List.length_cons]
    omega
  rw [cInt_eq hlen]
  refine Meets.bind (makeCharArray_meets _) fun q => meets_exists fun a => meets_and ?_
  rintro rfl
  have hsmall : ((([] : Strings).length + ("tor" :: p.args).length : ℕ) : ℤ) ≤ intMax := by
    rw [List.length_nil, Nat.zero_add]
    exact hlen
  refine Meets.bind (setArgs_meets ("tor" :: p.args) [] hsmall) fun _ => meets_exists fun argv => meets_and ?_
  intro htexts
  exact hk a argv htexts

theorem LiveProcess.start_meets (hargs : (p.args.length : ℤ) + 3 ≤ intMax) (hdone : p.done = none)
    (hthread : p.thread = .idle) (hconf : p.conf = some c) :
    Meets (Resources.Is (p.cells L + rest) dead d) (p.start true)
      fun r w => ∃ a argv, r = (none, p.started a) ∧ Strings.texts argv = "tor" :: p.args ∧
        w.Is (confCells c { L.cfg with argc := argv.length, argv := .given (some a) } L.owned L.pad +
          (arrayCells a argv 0 + rest)) dead d := by
  have hnot : ¬ p.done ≠ none := fun h => h hdone
  rw [start, if_neg hnot, cells_idle hthread, hconf, Option.elim_some]
  refine fillCharArray_meets hargs fun a argv htexts => ?_
  have hlen : ((("tor" :: p.args).length : ℕ) : ℤ) ≤ intMax := by
    rw [List.length_cons]
    omega
  have hargv : argv.length = ("tor" :: p.args).length := by
    rw [← htexts, Strings.length_texts]
  rw [cInt_eq hlen, ← hargv]
  let cfg' : TorMainConfiguration := { L.cfg with argc := argv.length, argv := .given (some a) }
  have hset : Meets
      (Resources.Is (arrayCells a argv 0 + (confCells c L.cfg L.owned L.pad + rest)) dead d)
      (torMainConfigurationSetCommandLine (some c) argv.length (some a))
      fun r w => r = 0 ∧
        w.Is (confCells c cfg' L.owned L.pad + (arrayCells a argv 0 + rest)) dead d :=
    (torMainConfigurationSetCommandLine_meets _ _).pre fun w h => h.cells_eq (add_left_comm _ _ _)
  have hzero : ¬ (0 : ℤ) ≠ 0 := fun h => h rfl
  refine Meets.bindEq hset ?_
  rw [if_neg hzero]
  refine meets_pure fun w h => ⟨a, argv, ?_, htexts, h⟩
  simp [started, hargv, hconf]

/-- For a configuration that is NULL, Tor refuses the command line, and everything that was
allocated is freed again. -/
theorem LiveProcess.start_null_meets (hargs : (p.args.length : ℤ) + 3 ≤ intMax)
    (hdone : p.done = none) (hconf : p.conf = none) :
    Meets (Resources.Is rest dead d) (p.start true)
      fun r w => r = (some (.setArguments (-1)), p) ∧ w.Is rest dead d := by
  have hnot : ¬ p.done ≠ none := fun h => h hdone
  rw [start, if_neg hnot, hconf]
  refine fillCharArray_meets hargs fun a argv htexts => ?_
  have hlen : ((("tor" :: p.args).length : ℕ) : ℤ) ≤ intMax := by
    rw [List.length_cons]
    omega
  have hargv : argv.length = ("tor" :: p.args).length := by
    rw [← htexts, Strings.length_texts]
  rw [cInt_eq hlen, ← hargv]
  have hset : Meets (Resources.Is (arrayCells a argv 0 + rest) dead d)
      (torMainConfigurationSetCommandLine none argv.length (some a))
      fun r w => r = -1 ∧ w.Is (arrayCells a argv 0 + rest) dead d :=
    meets_pure fun w h => ⟨rfl, h⟩
  have hminus : (-1 : ℤ) ≠ 0 := by omega
  refine Meets.bindEq hset ?_
  rw [if_pos hminus]
  refine Meets.bind (meets_pure (Q := fun _ => Resources.Is (arrayCells a argv 0 + rest) dead d)
    fun w h => h) fun _ => ?_
  exact Meets.bind freeCharArray_meets fun _ => meets_pure fun w h => ⟨rfl, h⟩

end Start

namespace LiveProcess

variable {p q : LiveProcess} {L : Layout} {a : LiveAction} {c i : ℕ}

/-- A step that leaves the memory and the goroutine alone. -/
theorem Fits.of_eq (h : p.Fits L) (hdone : q.done = none ↔ p.done = none) (hconf : q.conf = p.conf)
    (hargs : q.args = p.args) (hthread : q.thread = p.thread) (hsockets : q.sockets = p.sockets) :
    q.Fits L where
  idle := by rw [hdone, hthread, h.idle]
  null := by
    rw [hconf, hthread, hsockets]
    exact h.null
  counts := h.counts
  socket := by
    rw [SocketFits, hsockets]
    exact h.socket
  array := by
    rw [hthread, hargs]
    exact h.array
  commandLine := by
    rw [hthread]
    exact h.commandLine
  seen := by
    rw [hthread]
    exact h.seen

theorem cells_eq_of_thread (hconf : q.conf = p.conf) (hthread : q.thread = p.thread) :
    q.cells L = p.cells L := by
  rw [cells, cells, liveConf, liveConf, hconf, hthread]

theorem dead_eq_of_thread (hconf : q.conf = p.conf) (hthread : q.thread = p.thread) :
    q.dead = p.dead := by
  rw [dead, dead, hconf, hthread]

/-- Such a step does to the model what it does to the process. -/
theorem Stepped.quiet (h : p.Fits L) (hdone : q.done = none ↔ p.done = none)
    (hconf : q.conf = p.conf) (hargs : q.args = p.args) (hthread : q.thread = p.thread)
    (hsockets : q.sockets = p.sockets) (ha : socketAfter L a = L.cfg.owningControllerSocket)
    (howned : ownedAfter L a = L.owned.texts) (hmove : ∀ code, a ≠ .goroutine code)
    (hasked : a.asked = 0)
    (hrefines : ∀ r, p.Refines r → ∃ r', r.step (a.model p.conf (-1)) = some r' ∧ q.Refines r') :
    p.Stepped L a q L where
  fits := h.of_eq hdone hconf hargs hthread hsockets
  conf := hconf
  args := hargs
  stage := by rw [hthread]
  advanced := fun code ha => absurd ha (hmove code)
  owned := howned.symm
  socket := ha.symm
  seen := by
    intro _ _
    exact ⟨by rw [hthread], rfl⟩
  entered := by
    rw [hthread]
    exact fun hnone hsome => absurd hnone hsome
  refines := ⟨[], hasked.symm, by rw [hsockets, List.append_nil], hrefines⟩

/-- The process and its memory after a step, beside everything else there is. -/
def After (p : LiveProcess) (L : Layout) (a : LiveAction) (rest : Multiset (ℕ × Block))
    (dead : List ℕ) (d : Descriptors FdObject) (p' : LiveProcess) (w : TorWorld) : Prop :=
  ∃ L', p.Stepped L a p' L' ∧ w.Is (p'.cells L' + rest) (p'.dead ++ dead) (p.fdsAfter L d a)

variable {rest : Multiset (ℕ × Block)} {dead : List ℕ} {d : Descriptors FdObject}

theorem quiet_meets (h : p.Fits L) (hdone : q.done = none ↔ p.done = none) (hconf : q.conf = p.conf)
    (hargs : q.args = p.args) (hthread : q.thread = p.thread) (hsockets : q.sockets = p.sockets)
    (ha : socketAfter L a = L.cfg.owningControllerSocket) (howned : ownedAfter L a = L.owned.texts)
    (hfds : p.fdsAfter L d a = d) (hmove : ∀ code, a ≠ .goroutine code) (hasked : a.asked = 0)
    (hrefines : ∀ r, p.Refines r → ∃ r', r.step (a.model p.conf (-1)) = some r' ∧ q.Refines r') :
    Meets (Resources.Is (p.cells L + rest) (p.dead ++ dead) d) (pure q : CCode LiveProcess)
      (p.After L a rest dead d) := by
  refine meets_pure fun w hw =>
    ⟨L, .quiet h hdone hconf hargs hthread hsockets ha howned hmove hasked hrefines, ?_⟩
  rw [hfds, cells_eq_of_thread hconf hthread, dead_eq_of_thread hconf hthread]
  exact hw

/-! ### What `Wait` and the context do in the model -/

theorem Refines.wait {r : ProcState} (h : p.Refines r) : p.wait.Refines r.wait where
  ctx := h.ctx
  conf := h.conf
  args := h.args
  done := h.done
  goroutine := h.goroutine
  waits := by
    change r.waits ++ _ = p.waits ++ _
    rw [h.waits, h.done]

theorem Refines.waitDone {r : ProcState} {i : ℕ} (h : p.Refines r) (hq : p.waitDone i = some q) :
    ∃ r', r.waitDone i = some r' ∧ q.Refines r' := by
  unfold LiveProcess.waitDone at hq
  split at hq
  next e hw he =>
    obtain rfl := Option.some.inj hq
    have hmodel : r.waitDone i =
        some { r with waits := p.waits.set i (.returned (some (.context e))) } := by
      unfold ProcState.waitDone
      rw [h.waits, h.ctx, hw, he]
    exact ⟨_, hmodel, h.ctx, h.conf, h.args, h.done, h.goroutine, rfl⟩
  next => cases hq

theorem Refines.waitReceive {r : ProcState} {i : ℕ} (h : p.Refines r)
    (hq : p.waitReceive i = some q) : ∃ r', r.waitReceive i = some r' ∧ q.Refines r' := by
  unfold LiveProcess.waitReceive at hq
  split at hq
  next code buf hw hd =>
    obtain rfl := Option.some.inj hq
    have hmodel : r.waitReceive i = some { r with
        done := some buf
        waits := p.waits.set i (.returned (ProcState.exitError code))
        received := r.received ++ [code] } := by
      unfold ProcState.waitReceive
      rw [h.waits, h.done, hw, hd]
    exact ⟨_, hmodel, h.ctx, h.conf, h.args, rfl, h.goroutine, rfl⟩
  next => cases hq

theorem waitDone_cases (hq : p.waitDone i = some q) :
    ∃ e, q = { p with waits := p.waits.set i (.returned (some (.context e))) } := by
  unfold LiveProcess.waitDone at hq
  split at hq
  next e _ _ => exact ⟨e, (Option.some.inj hq).symm⟩
  next => cases hq

theorem waitReceive_cases (hq : p.waitReceive i = some q) :
    ∃ code buf, p.done = some (code :: buf) ∧ q = { p with
      done := some buf, waits := p.waits.set i (.returned (ProcState.exitError code)) } := by
  unfold LiveProcess.waitReceive at hq
  split at hq
  next code buf _ hd => exact ⟨code, buf, hd, (Option.some.inj hq).symm⟩
  next => cases hq

/-! ### The methods -/

theorem start_again_meets (h : p.Fits L) (hdone : p.done ≠ none) (calloc : Bool) :
    Meets (Resources.Is (p.cells L + rest) (p.dead ++ dead) d)
      (p.start calloc >>= fun r => pure r.2) (p.After L (.start calloc) rest dead d) := by
  rw [start, if_pos hdone]
  refine quiet_meets h Iff.rfl rfl rfl rfl rfl rfl rfl rfl (by simp) rfl fun r hr => ⟨r, ?_, hr⟩
  have hr' : r.done ≠ none := hr.done ▸ hdone
  simp [LiveAction.model, ProcState.step, ProcState.start, hr']

theorem start_null_step_meets (h : p.Fits L) (hargs : (p.args.length : ℤ) + 3 ≤ intMax)
    (hdone : p.done = none) (hconf : p.conf = none) :
    Meets (Resources.Is (p.cells L + rest) (p.dead ++ dead) d)
      (p.start true >>= fun r => pure r.2) (p.After L (.start true) rest dead d) := by
  refine Meets.bindEq (start_null_meets hargs hdone hconf) ?_
  refine quiet_meets h Iff.rfl rfl rfl rfl rfl rfl rfl rfl (by simp) rfl fun r hr => ?_
  have hr' : r.done = none := hr.done.trans hdone
  refine ⟨_, rfl, ?_⟩
  rw [hconf, if_pos rfl]
  rcases r.start_cases (-1) with ⟨hne, _⟩ | ⟨_, _, heq⟩ | ⟨_, hzero, _⟩
  · exact absurd hr' hne
  · rw [heq]
    exact ⟨hr.ctx, hr.conf, hr.args, hr.done, hr.goroutine, hr.waits⟩
  · omega

theorem Fits.started (h : p.Fits L) (hargs : (p.args.length : ℤ) + 3 ≤ intMax) {argv : Strings}
    (htexts : argv.texts = "tor" :: p.args) (hconf : p.conf = some c) (a : ℕ) :
    (p.started a).Fits (L.started a argv) where
  idle := by simp [LiveProcess.started]
  null := by
    intro hnone
    rw [LiveProcess.started, hconf] at hnone
    cases hnone
  counts := h.counts
  socket := h.socket
  array := by
    intro b n hb
    obtain ⟨rfl, rfl⟩ : some a = b ∧ (p.args.length : ℤ) + 1 = n := by
      simpa [LiveProcess.started, Thread.array] using hb
    have hlen : argv.length = p.args.length + 1 := by
      rw [← Strings.length_texts, htexts, List.length_cons]
    refine ⟨by simp, ?_, by omega, htexts⟩
    change (p.args.length : ℤ) + 1 = argv.length
    omega
  commandLine := by
    intro b n hb
    obtain ⟨rfl, rfl⟩ : some a = b ∧ (p.args.length : ℤ) + 1 = n := by
      simpa [LiveProcess.started] using hb
    have hlen : argv.length = p.args.length + 1 := by
      rw [← Strings.length_texts, htexts, List.length_cons]
    refine ⟨?_, rfl⟩
    change (argv.length : ℤ) = _
    omega
  seen := by
    intro b n v hb
    cases hb

theorem start_first_step_meets (h : p.Fits L) (hargs : (p.args.length : ℤ) + 3 ≤ intMax)
    (hdone : p.done = none) (hconf : p.conf = some c) :
    Meets (Resources.Is (p.cells L + rest) (p.dead ++ dead) d)
      (p.start true >>= fun r => pure r.2) (p.After L (.start true) rest dead d) := by
  have hidle := h.idle.mp hdone
  refine Meets.bind (start_meets hargs hdone hidle hconf) fun r => meets_exists fun a =>
    meets_exists fun argv => meets_and ?_
  rintro rfl
  refine meets_and fun htexts => meets_pure fun w hw => ⟨L.started a argv, ?_, ?_⟩
  · refine ⟨h.started hargs htexts hconf a, rfl, rfl, ?_, by simp, rfl, rfl, ?_, ?_, ?_⟩
    · rw [hidle]
      exact Nat.zero_le _
    · intro hsome
      rw [hidle] at hsome
      exact absurd rfl hsome
    · intro _ hsome
      exact absurd rfl hsome
    · refine ⟨[], rfl, by simp [LiveProcess.started], fun r hr => ?_⟩
      have hr' : r.done = none := hr.done.trans hdone
      have hne : p.conf ≠ none := by
        rw [hconf]
        simp
      refine ⟨_, rfl, ?_⟩
      rw [if_neg hne]
      rcases r.start_cases 0 with ⟨hne, _⟩ | ⟨_, hzero, _⟩ | ⟨_, _, heq⟩
      · exact absurd hr' hne
      · exact absurd rfl hzero
      · rw [heq]
        refine ⟨hr.ctx, hr.conf, hr.args, rfl, ?_, hr.waits⟩
        change Goroutine.spawned ("tor" :: r.args) = _
        rw [hr.args]
        rfl
  · have hdead : (p.started a).dead = p.dead := by
      simp [LiveProcess.dead, LiveProcess.started, hidle, Thread.confFreed]
    have hcells : (p.started a).cells (L.started a argv) =
        confCells c { L.cfg with argc := argv.length, argv := .given (some a) } L.owned L.pad +
          arrayCells a argv 0 := by
      simp [cells, liveConf, LiveProcess.started, Layout.started, hconf, Thread.confFreed,
        Thread.cells, Thread.array, Thread.torArgv]
    rw [hdead, hcells]
    exact hw.cells_eq (add_assoc _ _ _).symm

/-- The process once `EmbeddedControlConn` was answered `fd`. -/
def answered (p : LiveProcess) (fd : ℤ) : LiveProcess := { p with sockets := p.sockets ++ [fd] }

theorem Refines.answered {r : ProcState} (h : p.Refines r) (fd : ℤ) (fileConn : Except String Unit) :
    ∃ r', r.step (.embeddedControlConn fd fileConn) = some r' ∧ (p.answered fd).Refines r' :=
  ⟨_, rfl, h.ctx, h.conf, h.args, h.done, h.goroutine, h.waits⟩

/-- An answer, and what it makes of the configuration, leave the rest of the process alone. -/
theorem Fits.answered (h : p.Fits L) (hconf : p.conf ≠ none) {L' : Layout} {fd : ℤ}
    (hcounts : L'.cfg.Counts L'.owned) (hsocket : (p.answered fd).SocketFits L')
    (hcfg : L'.cfg.argc = L.cfg.argc ∧ L'.cfg.argv = L.cfg.argv) (hargv : L'.argv = L.argv)
    (hseen : L'.seen = L.seen) (howned : L.owned <+: L'.owned) : (p.answered fd).Fits L' where
  idle := h.idle
  null := fun hnone => absurd hnone hconf
  counts := hcounts
  socket := hsocket
  array := by
    rw [hargv]
    exact h.array
  commandLine := by
    rw [hcfg.1, hcfg.2]
    exact h.commandLine
  seen := by
    intro a n v hv
    obtain ⟨hne, hle⟩ := h.seen a n v hv
    rw [hseen]
    exact ⟨hne, hle.trans howned⟩

/-- A refusal is recorded, and changes nothing else. -/
theorem SocketFits.refused (h : p.SocketFits L) : (p.answered (-1)).SocketFits L := by
  rcases h with ⟨hminus, hnil, hall⟩ | ⟨fd0, fd1, hsocket, htexts, hone⟩
  · refine Or.inl ⟨hminus, hnil, ?_⟩
    intro r hr
    rcases List.mem_append.mp hr with hr | hr
    · exact hall r hr
    · exact List.mem_singleton.mp hr
  · refine Or.inr ⟨fd0, fd1, hsocket, htexts, ?_⟩
    rw [answered, List.filter_append, hone]
    rfl

/-- The first control socket. -/
theorem SocketFits.first (h : p.SocketFits L) (hsocket : ¬ 0 ≤ L.cfg.owningControllerSocket)
    {L' : Layout} {ans : SocketAnswers} {fd0 fd1 : ℕ} {new : Strings}
    (hsocket' : L'.cfg.owningControllerSocket = fd1) (howned : L'.owned = L.owned ++ new)
    (hnew : new.texts = ans.added fd1) : (p.answered fd0).SocketFits L' := by
  rcases h with ⟨_, hnil, hall⟩ | ⟨_, fd, hfd, _, _⟩
  · refine Or.inr ⟨fd0, fd1, hsocket', ?_, ?_⟩
    · rw [howned, hnil, List.nil_append, hnew, SocketAnswers.added, AddAnswers.added,
        AddAnswers.added]
      split_ifs <;> simp
    · have hnone : p.sockets.filter (· ≠ -1) = [] := by
        rw [List.filter_eq_nil_iff]
        intro r hr
        simp [hall r hr]
      have hne : (fd0 : ℤ) ≠ -1 := by omega
      rw [answered, List.filter_append, hnone, List.nil_append]
      exact List.filter_cons_of_pos (decide_eq_true hne)
  · omega

/-- `EmbeddedControlConn` records the answer of the C function that it calls. -/
theorem embeddedControlConn_meets {P : TorWorld → Prop} {Q : ℤ → TorWorld → Prop}
    {ans : SocketAnswers} (hsetup : Meets P (torMainConfigurationSetupControlSocket p.conf ans) Q)
    (fileConn : Except String Unit) :
    Meets P (p.embeddedControlConn ans fileConn >>= fun r => pure r.2)
      fun q w => ∃ fd, q = p.answered fd ∧ Q fd w := by
  have hboth : Meets P (p.embeddedControlConn ans fileConn)
      fun r w => ∃ fd, r.2 = p.answered fd ∧ Q fd w :=
    Meets.bind hsetup fun fd => meets_pure fun w hw => ⟨fd, rfl, hw⟩
  exact Meets.bind hboth fun r => meets_pure fun w hw => hw

theorem controlConn_meets (h : p.Fits L) (hlive : p.liveConf = some c) (ans : SocketAnswers)
    (fileConn : Except String Unit) :
    Meets (Resources.Is (p.cells L + rest) (p.dead ++ dead) d)
      (p.embeddedControlConn ans fileConn >>= fun r => pure r.2)
      (p.After L (.embeddedControlConn ans fileConn) rest dead d) := by
  have hconf : p.conf = some c := by
    unfold liveConf at hlive
    split_ifs at hlive
    exact hlive
  have hne : p.conf ≠ none := by
    rw [hconf]
    simp
  have hcells : ∀ (q : LiveProcess) (L' : Layout), q.liveConf = some c → q.cells L' + rest =
      confCells c L'.cfg L'.owned L'.pad + (q.thread.cells L'.argv L'.seen + rest) := by
    intro q L' hq
    rw [cells, hq, Option.elim_some, add_assoc]
  rw [hcells p L hlive]
  by_cases hrefused : 0 ≤ L.cfg.owningControllerSocket ∨ ans.socketpair = none
  · obtain ⟨hfds, hafter, howned⟩ : p.fdsAfter L d (.embeddedControlConn ans fileConn) = d ∧
        socketAfter L (.embeddedControlConn ans fileConn) = L.cfg.owningControllerSocket ∧
        ownedAfter L (.embeddedControlConn ans fileConn) = L.owned.texts := by
      by_cases hsocket : 0 ≤ L.cfg.owningControllerSocket
      · simp [fdsAfter, socketAfter, ownedAfter, hsocket]
      · simp [fdsAfter, socketAfter, ownedAfter, hrefused.resolve_left hsocket]
    have hsetup : Meets
        (Resources.Is (confCells c L.cfg L.owned L.pad + (p.thread.cells L.argv L.seen + rest))
          (p.dead ++ dead) d)
        (torMainConfigurationSetupControlSocket p.conf ans)
        fun r w => r = -1 ∧ w.Is (confCells c L.cfg L.owned L.pad +
          (p.thread.cells L.argv L.seen + rest)) (p.dead ++ dead) d := by
      rw [hconf]
      exact setupControlSocket_refused_meets hrefused
    refine (embeddedControlConn_meets hsetup fileConn).post ?_
    rintro q w ⟨fd, rfl, rfl, hw⟩
    refine ⟨L, ⟨h.answered hne h.counts h.socket.refused ⟨rfl, rfl⟩ rfl rfl
      (List.prefix_refl _), rfl, rfl, le_rfl, by simp, howned.symm, hafter.symm,
      fun _ _ => ⟨rfl, rfl⟩, ?_, ?_⟩, ?_⟩
    · exact fun hnone hsome => absurd hnone hsome
    · exact ⟨[-1], rfl, rfl, fun r hr => hr.answered (-1) fileConn⟩
    · rw [hfds, hcells (p.answered (-1)) L hlive]
      exact hw
  · obtain ⟨hsocket, hsome⟩ := not_or.mp hrefused
    obtain ⟨⟨fd0, fd1⟩, hans⟩ := Option.ne_none_iff_exists'.mp hsome
    obtain ⟨hfds, hafter, howned⟩ : p.fdsAfter L d (.embeddedControlConn ans fileConn) =
          (d.openAt fd0 (.goEnd c)).openAt fd1 (.torEnd c) ∧
        socketAfter L (.embeddedControlConn ans fileConn) = fd1 ∧
        ownedAfter L (.embeddedControlConn ans fileConn) = L.owned.texts ++ ans.added fd1 := by
      simp [fdsAfter, socketAfter, ownedAfter, hsocket, hans, hconf]
    have hsetup : Meets
        (Resources.Is (confCells c L.cfg L.owned L.pad + (p.thread.cells L.argv L.seen + rest))
          (p.dead ++ dead) d)
        (torMainConfigurationSetupControlSocket p.conf ans)
        fun r w => r = fd0 ∧ ∃ argcOwned argvOwned new pad',
          TorMainConfiguration.Counts { L.cfg with argcOwned, argvOwned } (L.owned ++ new) ∧
          new.texts = ans.added fd1 ∧
          w.Is (confCells c { L.cfg with argcOwned, argvOwned, owningControllerSocket := fd1 }
            (L.owned ++ new) pad' + (p.thread.cells L.argv L.seen + rest)) (p.dead ++ dead)
            ((d.openAt fd0 (.goEnd c)).openAt fd1 (.torEnd c)) := by
      rw [hconf]
      exact setupControlSocket_meets (by omega) h.counts hans
    refine (embeddedControlConn_meets hsetup fileConn).post ?_
    rintro q w ⟨fd, rfl, rfl, m, v, new, pad', hcounts, hnew, hw⟩
    let L' : Layout :=
      { L with
        cfg := { L.cfg with argcOwned := m, argvOwned := v, owningControllerSocket := fd1 }
        owned := L.owned ++ new
        pad := pad' }
    have hfirst : (p.answered fd0).SocketFits L' := h.socket.first hsocket rfl rfl hnew
    have htexts : L'.owned.texts = L.owned.texts ++ ans.added fd1 := by
      rw [← hnew]
      exact Strings.texts_append _ _
    refine ⟨L', ⟨h.answered hne hcounts hfirst ⟨rfl, rfl⟩ rfl rfl (List.prefix_append _ _), rfl, rfl,
      le_rfl, by simp, htexts.trans howned.symm, hafter.symm, fun _ _ => ⟨rfl, rfl⟩, ?_, ?_⟩, ?_⟩
    · exact fun hnone hsome => absurd hnone hsome
    · exact ⟨[(fd0 : ℤ)], rfl, rfl, fun r hr => hr.answered fd0 fileConn⟩
    · rw [hfds, hcells (p.answered fd0) L' hlive]
      exact hw

/-! ### The goroutine -/

theorem goroutineStep_cases {code : ℤ} {prog : CCode LiveProcess}
    (h : p.goroutineStep code = some prog) :
    (∃ b n, p.thread = .spawned b n ∧ prog = do
      let argv ← torRunMainArgv p.conf
      pure { p with thread := .running b n argv }) ∨
    (∃ b n v, p.thread = .running b n v ∧ prog = do
      torRunMainDone v
      pure { p with thread := .sending b n code }) ∨
    (∃ b n c buf, p.thread = .sending b n c ∧ p.done = some buf ∧ buf.length < doneCapacity ∧
      prog = pure { p with done := some (buf ++ [c]), thread := .releasing b n c }) ∨
    (∃ b n c, p.thread = .releasing b n c ∧ prog = do
      torMainConfigurationFree p.conf
      pure { p with thread := .freeing b n c }) ∨
    (∃ b n c, p.thread = .freeing b n c ∧ prog = do
      freeCharArray b n
      pure { p with thread := .finished c }) := by
  unfold goroutineStep at h
  split at h
  next _ b n ht => exact Or.inl ⟨b, n, ht, (Option.some.inj h).symm⟩
  next _ b n v ht => exact Or.inr (Or.inl ⟨b, n, v, ht, (Option.some.inj h).symm⟩)
  next b n c buf ht hd =>
    split at h
    next hlt => exact Or.inr (Or.inr (Or.inl ⟨b, n, c, buf, ht, hd, hlt, (Option.some.inj h).symm⟩))
    next => cases h
  next _ b n c ht => exact Or.inr (Or.inr (Or.inr (Or.inl ⟨b, n, c, ht, (Option.some.inj h).symm⟩)))
  next _ b n c ht => exact Or.inr (Or.inr (Or.inr (Or.inr ⟨b, n, c, ht, (Option.some.inj h).symm⟩)))
  next => cases h

/-- A move of the goroutine past `tor_run_main`. -/
theorem Fits.moved (h : p.Fits L) (hne : p.thread ≠ .idle) (hdone : q.done ≠ none)
    (hconf : q.conf = p.conf) (hargs : q.args = p.args) (hsockets : q.sockets = p.sockets)
    (hidle : q.thread ≠ .idle) (harray : q.thread.array = p.thread.array ∨ q.thread.array = none)
    (hspawned : ∀ b n, q.thread ≠ .spawned b n) (hrunning : ∀ b n v, q.thread ≠ .running b n v) :
    q.Fits L where
  idle := iff_of_false hdone hidle
  null := by
    intro hnone
    exact absurd (h.null (hconf ▸ hnone)).1 hne
  counts := h.counts
  socket := by
    rw [SocketFits, hsockets]
    exact h.socket
  array := by
    intro b n hb
    rcases harray with harray | harray
    · rw [hargs]
      exact h.array b n (harray ▸ hb)
    · rw [harray] at hb
      cases hb
  commandLine := fun b n hb => absurd hb (hspawned b n)
  seen := fun b n v hb => absurd hb (hrunning b n v)

theorem torArgv_eq_none {t : Thread} (h : ∀ b n v, t ≠ .running b n v) : t.torArgv = none := by
  cases t with
  | running b n v => exact absurd rfl (h b n v)
  | _ => rfl

/-- What such a move has to show of the array, of the configuration and of the model. -/
theorem Stepped.moved (h : p.Fits L) {code : ℤ} (hne : p.thread ≠ .idle) (hdone : q.done ≠ none)
    (hconf : q.conf = p.conf) (hargs : q.args = p.args) (hsockets : q.sockets = p.sockets)
    (hidle : q.thread ≠ .idle) (harray : q.thread.array = p.thread.array ∨ q.thread.array = none)
    (hspawned : ∀ b n, q.thread ≠ .spawned b n) (hrunning : ∀ b n v, q.thread ≠ .running b n v)
    (hstage : q.thread.stage = p.thread.stage + 1)
    (hrefines : ∀ r, p.Refines r → ∃ r', r.step (.goroutine code) = some r' ∧ q.Refines r') :
    p.Stepped L (.goroutine code) q L where
  fits := h.moved hne hdone hconf hargs hsockets hidle harray hspawned hrunning
  conf := hconf
  args := hargs
  stage := by omega
  advanced := fun _ _ => hstage
  owned := rfl
  socket := rfl
  seen := fun _ hsome => absurd (torArgv_eq_none hrunning) hsome
  entered := fun _ hsome => absurd (torArgv_eq_none hrunning) hsome
  refines := ⟨[], rfl, by rw [hsockets, List.append_nil], hrefines⟩

/-- The goroutine of the model stands where this one does. -/
theorem Refines.at {r : ProcState} (h : p.Refines r) {t : Thread} (ht : p.thread = t) :
    r.goroutine = t.goroutine ("tor" :: r.args) := by
  rw [h.goroutine, ht, h.args]

theorem spawned_meets (h : p.Fits L) (hargs : (p.args.length : ℤ) + 3 ≤ intMax) {b : Ptr} {n : ℤ}
    (ht : p.thread = .spawned b n) (code : ℤ) :
    Meets (Resources.Is (p.cells L + rest) (p.dead ++ dead) d)
      (do let argv ← torRunMainArgv p.conf; pure { p with thread := .running b n argv })
      (p.After L (.goroutine code) rest dead d) := by
  obtain ⟨c, hconf⟩ : ∃ c, p.conf = some c := by
    refine Option.ne_none_iff_exists'.mp fun hnone => ?_
    have hidle := (h.null hnone).1
    rw [ht] at hidle
    cases hidle
  obtain ⟨hb, hn, _, htexts⟩ := h.array b n (by rw [ht]; rfl)
  obtain ⟨a, rfl⟩ := Option.ne_none_iff_exists'.mp hb
  obtain ⟨hargc, hargv⟩ := h.commandLine _ _ ht
  have hfits : (L.argv.length : ℤ) + L.owned.length ≤ intMax := by
    have hlen : L.argv.length = p.args.length + 1 := by
      rw [← Strings.length_texts, htexts, List.length_cons]
    have howned : L.owned.length ≤ 2 := by
      rw [← Strings.length_texts]
      rcases h.socket with ⟨_, hnil, _⟩ | ⟨_, _, _, hsub, _⟩
      · rw [hnil]
        exact Nat.zero_le _
      · exact hsub.length_le
    omega
  have hcells : p.cells L + rest =
      confCells c L.cfg L.owned L.pad + (arrayCells a L.argv 0 + rest) := by
    simp [cells, liveConf, ht, hconf, Thread.confFreed, Thread.cells, Thread.array, Thread.torArgv,
      add_assoc]
  have hdead : p.dead = [] := by simp [LiveProcess.dead, ht, Thread.confFreed]
  rw [hconf, hcells, hdead]
  refine Meets.bind (torRunMainArgv_meets h.counts (hargc.trans hn) hargv hfits) fun r => ?_
  refine meets_exists fun v => meets_and ?_
  rintro rfl
  refine meets_pure fun w hw => ⟨{ L with seen := L.owned }, ⟨⟨?_, ?_, h.counts, h.socket, ?_, ?_, ?_⟩,
    rfl, rfl, ?_, ?_, rfl, rfl, ?_, fun _ _ => rfl, ?_⟩, ?_⟩
  · refine iff_of_false ?_ (by simp)
    intro hdone
    have hidle := h.idle.mp hdone
    rw [ht] at hidle
    cases hidle
  · intro hnone
    rw [hconf] at hnone
    cases hnone
  · intro b m hb
    exact h.array b m (by rw [ht]; exact hb)
  · intro b m hb
    cases hb
  · intro b m u hb
    cases hb
    exact ⟨by simp, List.prefix_refl _⟩
  · rw [ht]
    exact Nat.le_succ 1
  · intro _ _
    rw [ht]
    rfl
  · intro hsome
    rw [ht] at hsome
    exact absurd rfl hsome
  · refine ⟨[], rfl, by simp, fun r hr => ?_⟩
    have hr' := hr.at ht
    refine ⟨{ r.log [.runMain r.conf] with goroutine := .running ("tor" :: r.args) }, ?_, ?_⟩
    · simp only [LiveAction.model, ProcState.step, ProcState.goroutineStep, hr', Thread.goroutine]
    · exact ⟨hr.ctx, hr.conf, hr.args, hr.done, by rw [hr.args]; rfl, hr.waits⟩
  · have hcells' : LiveProcess.cells { p with thread := .running (some a) n (some v) }
        { L with seen := L.owned } + rest = {(v, .pointers (L.argv.slots ++ L.owned.slots))} +
          (confCells c L.cfg L.owned L.pad + (arrayCells a L.argv 0 + rest)) := by
      simp only [cells, liveConf, hconf, Thread.confFreed, Thread.cells, Thread.array,
        Thread.torArgv, Option.bind_some, Option.elim_some, Bool.false_eq_true, if_false]
      ac_rfl
    have hfds : p.fdsAfter L d (.goroutine code) = d := by simp [fdsAfter, ht]
    rw [hcells', hfds]
    exact hw

/-- The four moves that follow end the use of one block after the other. -/
theorem moved_meets {R : TorWorld → Prop} {prog : CCode PUnit} {code : ℤ}
    (hprog : Meets R prog fun _ => Resources.Is (q.cells L + rest) (q.dead ++ dead)
      (p.fdsAfter L d (.goroutine code)))
    (hstepped : p.Stepped L (.goroutine code) q L) :
    Meets R (do prog; pure q) (p.After L (.goroutine code) rest dead d) :=
  Meets.bind hprog fun _ => meets_pure fun _ hw => ⟨L, hstepped, hw⟩

theorem Fits.done_ne_none (h : p.Fits L) {t : Thread} (ht : p.thread = t) (hne : t ≠ .idle) :
    p.done ≠ none :=
  fun hdone => hne (ht.symm.trans (h.idle.mp hdone))

theorem running_meets (h : p.Fits L) {b v : Ptr} {n : ℤ} (ht : p.thread = .running b n v) (code : ℤ) :
    Meets (Resources.Is (p.cells L + rest) (p.dead ++ dead) d)
      (do torRunMainDone v; pure { p with thread := .sending b n code })
      (p.After L (.goroutine code) rest dead d) := by
  obtain ⟨a, rfl⟩ := Option.ne_none_iff_exists'.mp (h.seen b n v ht).1
  have hfds : p.fdsAfter L d (.goroutine code) = d := by simp [fdsAfter, ht]
  let q : LiveProcess := { p with thread := .sending b n code }
  have hcells : p.cells L + rest =
      {(a, .pointers (L.argv.slots ++ L.seen.slots))} + (q.cells L + rest) := by
    simp only [q, cells, liveConf, ht, Thread.confFreed, Thread.cells, Thread.array, Thread.torArgv,
      Option.bind_some, Option.elim_some, Option.elim_none, Bool.false_eq_true, if_false, add_zero]
    ac_rfl
  have hdead : p.dead = q.dead := by simp [q, LiveProcess.dead, ht, Thread.confFreed]
  refine moved_meets (q := q) ?_ (.moved h (by simp [ht]) (h.done_ne_none ht (by simp)) rfl rfl rfl
    (by simp [q]) (Or.inl (by rw [ht]; rfl)) (by simp [q]) (by simp [q]) (by rw [ht]; rfl)
    fun r hr => ?_)
  · rw [hfds, hcells, hdead]
    exact C.free_meets.post fun _ w hw => hw.weaken rfl (List.subset_cons_self _ _)
  · have hr' := hr.at ht
    refine ⟨{ r.log [.runMainReturned code] with goroutine := .sending ("tor" :: r.args) code }, ?_, ?_⟩
    · simp only [ProcState.step, ProcState.goroutineStep, hr', Thread.goroutine]
    · exact ⟨hr.ctx, hr.conf, hr.args, hr.done, by rw [hr.args]; rfl, hr.waits⟩

theorem sending_meets (h : p.Fits L) {b : Ptr} {n e : ℤ} {buf : List ℤ}
    (ht : p.thread = .sending b n e) (hdone : p.done = some buf) (hlt : buf.length < doneCapacity)
    (code : ℤ) :
    Meets (Resources.Is (p.cells L + rest) (p.dead ++ dead) d)
      (pure { p with done := some (buf ++ [e]), thread := .releasing b n e } : CCode LiveProcess)
      (p.After L (.goroutine code) rest dead d) := by
  have hfds : p.fdsAfter L d (.goroutine code) = d := by simp [fdsAfter, ht]
  let q : LiveProcess := { p with done := some (buf ++ [e]), thread := .releasing b n e }
  have hcells : p.cells L = q.cells L := by
    simp [q, cells, liveConf, ht, Thread.confFreed, Thread.cells, Thread.array, Thread.torArgv]
  have hdead : p.dead = q.dead := by simp [q, LiveProcess.dead, ht, Thread.confFreed]
  refine meets_pure fun w hw => ⟨L, .moved h (by simp [ht]) (by simp) rfl rfl rfl (by simp)
    (Or.inl (by rw [ht]; rfl)) (by simp) (by simp) (by rw [ht]; rfl) fun r hr => ?_, ?_⟩
  · have hr' := hr.at ht
    have hdone' : r.done = some buf := hr.done.trans hdone
    refine ⟨{ r with
      done := some (buf ++ [e]), sent := r.sent ++ [e], goroutine := .releasing ("tor" :: r.args) e }, ?_, ?_⟩
    · simp only [ProcState.step, ProcState.goroutineStep, hr', hdone', Thread.goroutine, if_pos hlt]
    · exact ⟨hr.ctx, hr.conf, hr.args, rfl, by rw [hr.args]; rfl, hr.waits⟩
  · rw [hfds, ← hcells, ← hdead]
    exact hw

theorem releasing_meets (h : p.Fits L) {b : Ptr} {n e : ℤ} (ht : p.thread = .releasing b n e)
    (code : ℤ) :
    Meets (Resources.Is (p.cells L + rest) (p.dead ++ dead) d)
      (do torMainConfigurationFree p.conf; pure { p with thread := .freeing b n e })
      (p.After L (.goroutine code) rest dead d) := by
  obtain ⟨c, hconf⟩ : ∃ c, p.conf = some c := by
    refine Option.ne_none_iff_exists'.mp fun hnone => ?_
    have hidle := (h.null hnone).1
    rw [ht] at hidle
    cases hidle
  have hfds : p.fdsAfter L d (.goroutine code) = closeSocket d L.cfg.owningControllerSocket := by
    simp [fdsAfter, ht]
  let q : LiveProcess := { p with thread := .freeing b n e }
  have hcells : p.cells L + rest = confCells c L.cfg L.owned L.pad + (q.cells L + rest) := by
    simp [q, cells, liveConf, ht, hconf, Thread.confFreed, Thread.cells, Thread.array,
      Thread.torArgv, add_assoc]
  have hdead : p.dead = [] ∧ q.dead = [c] := by
    simp [q, LiveProcess.dead, ht, hconf, Thread.confFreed]
  refine moved_meets (q := q) ?_ (.moved h (by simp [ht]) (h.done_ne_none ht (by simp)) rfl rfl rfl
    (by simp [q]) (Or.inl (by rw [ht]; rfl)) (by simp [q]) (by simp [q])
    (by rw [ht]; rfl) fun r hr => ?_)
  · rw [hconf, hfds, hcells, hdead.1, hdead.2]
    exact torMainConfigurationFree_meets h.counts
  · have hr' := hr.at ht
    refine ⟨{ r.log [.configurationFree r.conf] with
      goroutine := .freeing ("tor" :: r.args) e }, ?_, ?_⟩
    · simp only [ProcState.step, ProcState.goroutineStep, hr', Thread.goroutine]
    · exact ⟨hr.ctx, hr.conf, hr.args, hr.done, by rw [hr.args]; rfl, hr.waits⟩

theorem freeing_meets (h : p.Fits L) {b : Ptr} {n e : ℤ} (ht : p.thread = .freeing b n e)
    (code : ℤ) :
    Meets (Resources.Is (p.cells L + rest) (p.dead ++ dead) d)
      (do freeCharArray b n; pure { p with thread := .finished e })
      (p.After L (.goroutine code) rest dead d) := by
  obtain ⟨hb, hn, _⟩ := h.array b n (by rw [ht]; rfl)
  obtain ⟨a, rfl⟩ := Option.ne_none_iff_exists'.mp hb
  have hfds : p.fdsAfter L d (.goroutine code) = d := by simp [fdsAfter, ht]
  let q : LiveProcess := { p with thread := .finished e }
  have hcells : p.cells L + rest = arrayCells a L.argv 0 + (q.cells L + rest) := by
    simp [q, cells, liveConf, ht, Thread.confFreed, Thread.cells, Thread.array, Thread.torArgv]
  have hdead : p.dead = q.dead := by simp [q, LiveProcess.dead, ht, Thread.confFreed]
  refine moved_meets (q := q) ?_ (.moved h (by simp [ht]) (h.done_ne_none ht (by simp)) rfl rfl rfl
    (by simp [q]) (Or.inr rfl) (by simp [q]) (by simp [q]) (by rw [ht]; rfl)
    fun r hr => ?_)
  · rw [hfds, hcells, hdead, hn]
    exact freeCharArray_meets
  · have hr' := hr.at ht
    refine ⟨{ r.log [.freeCharArray ("tor" :: r.args)] with
      goroutine := .finished ("tor" :: r.args) e }, ?_, ?_⟩
    · simp only [ProcState.step, ProcState.goroutineStep, hr', Thread.goroutine]
    · exact ⟨hr.ctx, hr.conf, hr.args, hr.done, by rw [hr.args]; rfl, hr.waits⟩

/-- The rule for every step: whatever else there is in memory stays as it is. -/
theorem step_meets (h : p.Fits L) (hargs : (p.args.length : ℤ) + 3 ≤ intMax)
    {prog : CCode LiveProcess} (hstep : p.step a = some prog) (hsafe : a.Safe p) :
    Meets (Resources.Is (p.cells L + rest) (p.dead ++ dead) d) prog (p.After L a rest dead d) := by
  cases a with
  | start calloc =>
    obtain rfl := Option.some.inj hstep
    by_cases hdone : p.done = none
    · obtain rfl : calloc = true := hsafe hdone
      cases hconf : p.conf with
      | none => exact start_null_step_meets h hargs hdone hconf
      | some c => exact start_first_step_meets h hargs hdone hconf
    · exact start_again_meets h hdone calloc
  | wait =>
    obtain rfl := Option.some.inj hstep
    exact quiet_meets h Iff.rfl rfl rfl rfl rfl rfl rfl rfl (by simp) rfl fun r hr => ⟨r.wait, rfl, hr.wait⟩
  | waitDone i =>
    obtain ⟨q, hq, rfl⟩ := Option.map_eq_some_iff.mp hstep
    have hrefines : ∀ r, p.Refines r → ∃ r', r.waitDone i = some r' ∧ q.Refines r' :=
      fun r hr => hr.waitDone hq
    obtain ⟨e, rfl⟩ := waitDone_cases hq
    exact quiet_meets h Iff.rfl rfl rfl rfl rfl rfl rfl rfl (by simp) rfl hrefines
  | waitReceive i =>
    obtain ⟨q, hq, rfl⟩ := Option.map_eq_some_iff.mp hstep
    have hrefines : ∀ r, p.Refines r → ∃ r', r.waitReceive i = some r' ∧ q.Refines r' :=
      fun r hr => hr.waitReceive hq
    obtain ⟨code, buf, hdone, rfl⟩ := waitReceive_cases hq
    exact quiet_meets h (by simp [hdone]) rfl rfl rfl rfl rfl rfl rfl (by simp) rfl hrefines
  | embeddedControlConn ans fileConn =>
    obtain rfl := Option.some.inj hstep
    obtain ⟨c, hc⟩ := Option.ne_none_iff_exists'.mp hsafe
    exact controlConn_meets h hc ans fileConn
  | cancel e =>
    obtain rfl := Option.some.inj hstep
    refine quiet_meets h Iff.rfl rfl rfl rfl rfl rfl rfl rfl (by simp) rfl fun r hr => ⟨_, rfl, ?_⟩
    exact ⟨congrArg (·.cancel e) hr.ctx, hr.conf, hr.args, hr.done, hr.goroutine, hr.waits⟩
  | goroutine code =>
    rcases goroutineStep_cases hstep with ⟨b, n, ht, rfl⟩ | ⟨b, n, v, ht, rfl⟩ |
      ⟨b, n, e, buf, ht, hdone, hlt, rfl⟩ | ⟨b, n, e, ht, rfl⟩ | ⟨b, n, e, ht, rfl⟩
    · exact spawned_meets h hargs ht code
    · exact running_meets h ht code
    · exact sending_meets h ht hdone hlt code
    · exact releasing_meets h ht code
    · exact freeing_meets h ht code

/-! ### The steps that are undefined -/

theorem start_breaks {P : TorWorld → Prop} (hdone : p.done = none) :
    Breaks P (p.start false >>= fun r => pure r.2) .null := by
  have hnot : ¬ p.done ≠ none := fun h => h hdone
  have hnull : Meets P (makeCharArray false (cInt ("tor" :: p.args).length))
      fun q w => q = none ∧ P w := meets_pure fun w hw => ⟨rfl, hw⟩
  have hfirst : ∀ rest : List (String × ℕ), Breaks P
      (List.forM (("tor", 0) :: rest) (setArg none)) .null := by
    intro rest
    have hcopy : Meets P (cString "tor") fun _ _ => True := by
      intro w _
      exact ⟨_, _, _, rfl, trivial⟩
    exact Breaks.bind (hcopy.breaks fun s => Breaks.bind (Breaks.bind C.load_null_breaks))
  rw [start, if_neg hnot]
  refine Breaks.bind ?_
  refine hnull.breaks fun q => ?_
  intro w ⟨hq, hw⟩
  rw [hq]
  exact Breaks.bind (hfirst _) w hw

theorem controlConn_breaks (hlive : p.liveConf = none) (ans : SocketAnswers)
    (fileConn : Except String Unit) :
    ∃ f, Breaks (Resources.Is (p.cells L + rest) (p.dead ++ dead) d)
      (p.embeddedControlConn ans fileConn >>= fun r => pure r.2) f := by
  unfold embeddedControlConn torMainConfigurationSetupControlSocket
  cases hconf : p.conf with
  | none => exact ⟨.null, Breaks.bind (Breaks.bind (Breaks.bind (Breaks.bind C.load_null_breaks)))⟩
  | some c =>
    have hdead : c ∈ p.dead ++ dead := by
      unfold liveConf at hlive
      split_ifs at hlive with hfreed
      · simp [LiveProcess.dead, hfreed, hconf]
      · rw [hconf] at hlive
        cases hlive
    exact ⟨.invalid c, Breaks.bind (Breaks.bind (Breaks.bind (Breaks.bind (C.load_dead_breaks hdead))))⟩

theorem step_breaks {prog : CCode LiveProcess} (hstep : p.step a = some prog) (hnot : ¬ a.Safe p) :
    ∃ f, Breaks (Resources.Is (p.cells L + rest) (p.dead ++ dead) d) prog f := by
  cases a with
  | start calloc =>
    obtain rfl := Option.some.inj hstep
    obtain ⟨hdone, hcalloc⟩ := Classical.not_imp.mp hnot
    obtain rfl : calloc = false := Bool.eq_false_iff.mpr hcalloc
    exact ⟨.null, start_breaks hdone⟩
  | embeddedControlConn ans fileConn =>
    obtain rfl := Option.some.inj hstep
    exact controlConn_breaks (not_not.mp hnot) ans fileConn
  | _ => exact absurd trivial hnot

end LiveProcess

end GoLibtor
