import GoLibtor.Process.Wait

/-! The two questions an owner has about the exit of Tor: does the goroutine always get
through its releases, and what does a `Wait` made after the exit report. -/
namespace GoLibtor

variable {ctx : Option Context} {conf : Conf} {args : List String} {acts : List Action}
  {p : ProcState}

/-- From the return of `tor_run_main` on, at most three steps of its own take the goroutine
through the send and both deferred calls. -/
theorem ProcState.Inv.finishes (hp : p.Inv) {c : ℤ} (hc : p.goroutine.exitCodes = [c]) :
    ∃ n q, Transition.run ProcState.step p (List.replicate n (.goroutine 0)) = some q ∧
      q.goroutine = .finished p.argv c := by
  have hfreeing : ∀ q : ProcState, ∀ a, q.goroutine = .freeing a c →
      q.step (.goroutine 0) = some { q.log [.freeCharArray a] with goroutine := .finished a c } := by
    intro q a hg
    simp [ProcState.step, ProcState.goroutineStep, hg]
  have hreleasing : ∀ q : ProcState, ∀ a, q.goroutine = .releasing a c →
      ∃ r, Transition.run ProcState.step q (List.replicate 2 (.goroutine 0)) = some r ∧
        r.goroutine = .finished a c := by
    intro q a hg
    have hfree : q.step (.goroutine 0) =
        some { q.log [.configurationFree q.conf] with goroutine := .freeing a c } := by
      simp [ProcState.step, ProcState.goroutineStep, hg]
    have hlast := hfreeing { q.log [.configurationFree q.conf] with goroutine := .freeing a c } a rfl
    exact ⟨_, Transition.run_cons_eq_some.mpr
      ⟨_, hfree, Transition.run_cons_eq_some.mpr ⟨_, hlast, rfl⟩⟩, rfl⟩
  have hholds := hp.holds
  cases hg : p.goroutine with
  | idle => simp [hg, Goroutine.exitCodes, Goroutine.sentCodes] at hc
  | spawned a => simp [hg, Goroutine.exitCodes, Goroutine.sentCodes] at hc
  | running a => simp [hg, Goroutine.exitCodes, Goroutine.sentCodes] at hc
  | sending a c' =>
    obtain rfl : c' = c := by simpa [hg, Goroutine.exitCodes] using hc
    obtain rfl : a = p.argv := by simpa [hg, Goroutine.Holds] using hholds
    obtain ⟨q, hq⟩ := Option.isSome_iff_exists.mp
      (hp.goroutine_enabled (by simp [hg]) (by simp [hg]) 0)
    have hqg : q.goroutine = .releasing p.argv c' := by
      rcases ProcState.goroutineStep_cases hq with ⟨a, h, rfl⟩ | ⟨a, h, rfl⟩ |
        ⟨a, d, buf, h, _, _, rfl⟩ | ⟨a, d, h, rfl⟩ | ⟨a, d, h, rfl⟩ <;> rw [hg] at h <;> cases h
      rfl
    obtain ⟨r, hr, hrg⟩ := hreleasing q p.argv hqg
    exact ⟨3, r, Transition.run_cons_eq_some.mpr ⟨q, hq, hr⟩, hrg⟩
  | releasing a c' =>
    obtain rfl : c' = c := by simpa [hg, Goroutine.exitCodes, Goroutine.sentCodes] using hc
    obtain rfl : a = p.argv := by simpa [hg, Goroutine.Holds] using hholds
    obtain ⟨r, hr, hrg⟩ := hreleasing p _ hg
    exact ⟨2, r, hr, hrg⟩
  | freeing a c' =>
    obtain rfl : c' = c := by simpa [hg, Goroutine.exitCodes, Goroutine.sentCodes] using hc
    obtain rfl : a = p.argv := by simpa [hg, Goroutine.Holds] using hholds
    exact ⟨1, _, Transition.run_cons_eq_some.mpr ⟨_, hfreeing p _ hg, rfl⟩, rfl⟩
  | finished a c' =>
    obtain rfl : c' = c := by simpa [hg, Goroutine.exitCodes, Goroutine.sentCodes] using hc
    obtain rfl : a = p.argv := by simpa [hg, Goroutine.Holds] using hholds
    exact ⟨0, p, rfl, hg⟩

/-- There is no second code to confuse this one with. -/
theorem eq_singleton_of_mem {l : List ℤ} {c : ℤ} (hl : l.length ≤ 1) (hc : c ∈ l) : l = [c] := by
  obtain ⟨d, rfl⟩ := List.length_eq_one_iff.mp (Nat.le_antisymm hl (List.length_pos_of_mem hc))
  rw [List.mem_singleton.mp hc]

theorem ProcState.exitError_eq_none (c : ℤ) : exitError c = none ↔ c = 0 := by
  by_cases h : c = 0 <;> simp [exitError, h]

theorem ProcState.exitError_eq_torFailed (c d : ℤ) :
    exitError c = some (.torFailed d) ↔ c = d ∧ d ≠ 0 := by
  by_cases h : c = 0
  · simp [exitError, h]
    omega
  · simp only [exitError, h, if_false, Option.some.injEq, GoError.torFailed.injEq]
    omega

/-- Counting the calls of `Start` and its goroutine needs only the script. -/
theorem count_startCalls (cs : List CCall) {c : CCall} (hc : c.isControlSocket = false) :
    (ProcState.startCalls cs).count c = cs.count c := by
  rw [ProcState.startCalls, List.count_filter]
  simp [hc]

theorem Goroutine.count_free_script (conf : Conf) (argv : List String) (g : Goroutine) :
    (g.script conf argv).count (.configurationFree conf) ≤ 1 ∧
      (g.script conf argv).count (.freeCharArray argv) ≤ 1 := by
  cases g <;> simp [script]

/-- A process whose first `Start` succeeded, after any steps whatever: at most one code
exists and none is lost, the goroutine is never stuck, it releases `conf` and then the
argument vector once each, and no `Wait` reports a code that `tor_run_main` did not answer. -/
theorem started_process_lifecycle (h : Reaches ctx conf args acts p)
    (hfirst : FirstStartSucceeds acts) :
    -- codes produced, held and consumed
    ((exitCodes p.calls).length ≤ 1 ∧ exitCodes p.calls = p.sent ++ p.goroutine.inHand ∧
      p.sent = p.received ++ p.done.getD []) ∧
    -- the goroutine, its send included, is enabled until it is through
    ((∀ a c, p.goroutine ≠ .finished a c) → ∀ code, (p.step (.goroutine code)).isSome) ∧
    -- a `Wait` ended by the context takes no code
    (∀ i q, p.step (.waitDone i) = some q → q.done = p.done ∧ q.received = p.received) ∧
    -- after the return of `tor_run_main` the goroutine can go on to both releases
    (∀ c ∈ exitCodes p.calls, ∃ n q,
      Transition.run ProcState.step p (List.replicate n (.goroutine 0)) = some q ∧
      ProcState.startCalls q.calls = [.makeCharArray ("tor" :: args),
        .setCommandLine conf ("tor" :: args), .runMain conf, .runMainReturned c,
        .configurationFree conf, .freeCharArray ("tor" :: args)]) ∧
    -- neither is ever released twice, and `argv` only after `conf` and the return
    (p.calls.count (.configurationFree conf) ≤ 1 ∧
      p.calls.count (.freeCharArray ("tor" :: args)) ≤ 1 ∧
      (.freeCharArray ("tor" :: args) ∈ p.calls →
        .configurationFree conf ∈ p.calls ∧ exitCodes p.calls ≠ [] ∧
          ∀ a, p.goroutine ≠ .running a)) ∧
    -- what a `Wait` reports
    (∀ i : ℕ, (p.waits[i]? = some (.returned none) → exitCodes p.calls = [0]) ∧
      ∀ c, p.waits[i]? = some (.returned (some (.torFailed c))) → exitCodes p.calls = [c] ∧ c ≠ 0) := by
  have hinv := h.inv
  have hscript := h.script hfirst
  have hexit := hinv.exitCodes
  have hlen : (exitCodes p.calls).length ≤ 1 := hexit ▸ p.goroutine.exitCodes_length
  have hcodes : exitCodes p.calls = p.sent ++ p.goroutine.inHand := by
    rw [hexit, hinv.sent, Goroutine.exitCodes_eq]
  refine ⟨⟨hlen, hcodes, hinv.kept⟩, hinv.goroutine_enabled (h.goroutine_ne_idle hfirst), ?_, ?_,
    ⟨?_, ?_, ?_⟩, ?_⟩
  · intro i q hq
    obtain ⟨e, _, _, rfl⟩ := ProcState.waitDone_cases hq
    exact ⟨rfl, rfl⟩
  · intro c hc
    have hone : p.goroutine.exitCodes = [c] := hexit ▸ eq_singleton_of_mem hlen hc
    obtain ⟨n, q, hq, hqg⟩ := hinv.finishes hone
    refine ⟨n, q, hq, ?_⟩
    have hreach : Reaches ctx conf args (acts ++ List.replicate n (.goroutine 0)) q :=
      Transition.run_append_eq_some.mpr ⟨p, h, hq⟩
    have hfirst' : FirstStartSucceeds (acts ++ List.replicate n (.goroutine 0)) := by
      rw [FirstStartSucceeds, List.filterMap_append, List.filterMap_replicate_of_none rfl,
        List.append_nil]
      exact hfirst
    rw [hreach.script hfirst', hqg]
    rfl
  · rw [← count_startCalls _ rfl, hscript]
    exact (p.goroutine.count_free_script conf _).1
  · rw [← count_startCalls _ rfl, hscript]
    exact (p.goroutine.count_free_script conf _).2
  · intro hmem
    have hmem' : CCall.freeCharArray ("tor" :: args) ∈ p.goroutine.script conf ("tor" :: args) := by
      rw [← hscript]
      exact List.mem_filter.mpr ⟨hmem, rfl⟩
    cases hg : p.goroutine with
    | finished a c =>
      have hfree : CCall.configurationFree conf ∈ ProcState.startCalls p.calls := by
        simp [hscript, hg, Goroutine.script]
      exact ⟨(List.mem_filter.mp hfree).1,
        by simp [hexit, hg, Goroutine.exitCodes, Goroutine.sentCodes], by simp⟩
    | _ => simp [hg, Goroutine.script] at hmem'
  · have hsub : ∀ c ∈ p.received, exitCodes p.calls = [c] := by
      intro c hc
      refine eq_singleton_of_mem hlen ?_
      rw [hcodes, hinv.kept]
      exact List.mem_append_left _ (List.mem_append_left _ hc)
    intro i
    constructor
    · intro hi
      rcases h.waitsSound i none hi with hr | ⟨c, hc, hr⟩ | ⟨e, _, hr⟩
      · cases hr
      · obtain rfl := (ProcState.exitError_eq_none c).mp hr.symm
        exact hsub _ hc
      · cases hr
    · intro c hi
      rcases h.waitsSound i _ hi with hr | ⟨d, hd, hr⟩ | ⟨e, _, hr⟩
      · cases hr
      · obtain ⟨rfl, hne⟩ := (ProcState.exitError_eq_torFailed d c).mp hr.symm
        exact ⟨hsub _ hd, hne⟩
      · cases hr

/-- One `Wait`, one exit with code 7, and everything released. -/
theorem started_process_lifecycle_exit_seven :
    ∃ p, Reaches none (some 0) ["--quiet"] [.start 0, .wait, .goroutine 0, .goroutine 7,
        .goroutine 0, .goroutine 0, .goroutine 0, .waitReceive 0] p ∧
      exitCodes p.calls = [7] ∧ exitCodes p.calls = p.sent ++ p.goroutine.inHand ∧
      p.calls.count (.configurationFree (some 0)) ≤ 1 := by
  obtain ⟨p, hreach, hcalls⟩ : ∃ p, Reaches none (some 0) ["--quiet"] [.start 0, .wait,
      .goroutine 0, .goroutine 7, .goroutine 0, .goroutine 0, .goroutine 0, .waitReceive 0] p ∧
      exitCodes p.calls = [7] := ⟨_, rfl, rfl⟩
  obtain ⟨⟨_, hcodes, _⟩, _, _, _, ⟨hfree, _⟩, _⟩ := started_process_lifecycle hreach (by decide)
  exact ⟨p, hreach, hcalls, hcodes, hfree⟩

/-- What is asked of a `Wait` made now, after `c` was sent: one of its two cases is enabled,
and whenever it returns it reports `c`. -/
def ReportsExit (p : ProcState) (c : ℤ) : Prop :=
  ((p.wait.step (.waitDone p.waits.length)).isSome ∨
    (p.wait.step (.waitReceive p.waits.length)).isSome) ∧
  ∀ acts q r, Transition.run ProcState.step p.wait acts = some q →
    q.waits[p.waits.length]? = some (.returned r) → r = ProcState.exitError c

/-- A second `Wait` finds the channel empty and neither case enabled, and a `Wait` whose
context is done may report the context instead of the exit. -/
theorem wait_not_reportsExit :
    (¬ ∀ ctx conf args acts p c, Reaches ctx conf args acts p → p.sent = [c] → ReportsExit p c) ∧
    (∃ p, Reaches none (some 0) [] [.start 0, .wait, .goroutine 0, .goroutine 0, .goroutine 0,
        .waitReceive 0] p ∧ p.sent = [0] ∧ p.wait.waits[1]? = some .selecting ∧
      p.wait.step (.waitDone 1) = none ∧ p.wait.step (.waitReceive 1) = none) ∧
    (∃ p q, Reaches (some (.cancellable none)) (some 0) [] [.start 0, .goroutine 0, .goroutine 0,
        .goroutine 0, .cancel .canceled] p ∧ p.sent = [0] ∧
      p.wait.step (.waitDone 0) = some q ∧
      q.waits[0]? = some (.returned (some (.context .canceled)))) := by
  refine ⟨?_, ⟨_, rfl, rfl, rfl, rfl, rfl⟩, ⟨_, _, rfl, rfl, rfl, rfl⟩⟩
  intro hall
  have hrep := hall none (some 0) [] [.start 0, .wait, .goroutine 0, .goroutine 0, .goroutine 0,
    .waitReceive 0] _ 0 rfl rfl
  rcases hrep.1 with h | h <;> cases h

/-- A `Wait` made after the exit reports it or, only when the context is done, the context
error. It can return at once if no earlier `Wait` has taken the code or the context is done. -/
theorem wait_after_exit (h : Reaches ctx conf args acts p) {c : ℤ} (hc : p.sent = [c]) :
    (∀ acts' q r, Transition.run ProcState.step p.wait acts' = some q →
      q.waits[p.waits.length]? = some (.returned r) →
        r = ProcState.exitError c ∨ ∃ e, q.ctx.err = some e ∧ r = some (.context e)) ∧
    (p.received = [] ∨ p.ctx.err ≠ none →
      (p.wait.step (.waitDone p.waits.length)).isSome ∨
        (p.wait.step (.waitReceive p.waits.length)).isSome) := by
  have hinv := h.inv
  have hdone : p.done ≠ none := by
    intro hd
    have hs := hinv.sent
    rw [hinv.idle.mp hd, hc] at hs
    cases hs
  have hselecting : p.wait.waits[p.waits.length]? = some .selecting := by
    simp [ProcState.wait, hdone]
  constructor
  · intro acts' q r hrun hr
    have hq : Reaches ctx conf args (acts ++ .wait :: acts') q :=
      Transition.run_append_eq_some.mpr ⟨p, h, Transition.run_cons_eq_some.mpr ⟨_, rfl, hrun⟩⟩
    have hstarted : q.WaitStarted p.waits.length :=
      Transition.run_invariant (fun _ _ _ => ProcState.waitStarted_step) hrun
        (by simp [ProcState.WaitStarted, hselecting])
    have hsent : c ∈ q.sent :=
      Transition.run_invariant (I := fun s => c ∈ s.sent) (fun _ _ _ => ProcState.sent_step) hrun
        (by simp [ProcState.wait, hc])
    have hlen : q.sent.length ≤ 1 := hq.inv.sent ▸ q.goroutine.sentCodes_length
    rcases hq.waitsSound _ r hr with rfl | ⟨d, hd, rfl⟩ | he
    · exact absurd hr hstarted.2
    · have hd' : d ∈ q.sent := by
        rw [hq.inv.kept]
        exact List.mem_append_left _ hd
      rw [eq_singleton_of_mem hlen hsent, List.mem_singleton] at hd'
      exact Or.inl (by rw [hd'])
    · exact Or.inr he
  · rintro (hnone | hctx)
    · right
      have hkept := hinv.kept
      rw [hc, hnone, List.nil_append] at hkept
      obtain ⟨buf, hbuf⟩ := Option.ne_none_iff_exists'.mp hdone
      have hsingle : p.done = some [c] := by simpa [hbuf] using hkept.symm
      have hwait : p.wait.done = some [c] := hsingle
      simp [ProcState.step, ProcState.waitReceive, hselecting, hwait]
    · left
      obtain ⟨e, he⟩ := Option.ne_none_iff_exists'.mp hctx
      have hwait : p.wait.ctx.err = some e := he
      simp [ProcState.step, ProcState.waitDone, hselecting, hwait]

/-- An earlier `Wait` returned when the context was cancelled, and left the code in the channel. -/
theorem wait_after_exit_seven :
    ∃ p, Reaches (some (.cancellable none)) (some 0) [] [.start 0, .goroutine 0, .wait,
        .cancel .canceled, .waitDone 0, .goroutine 7, .goroutine 0] p ∧
      p.sent = [7] ∧ p.waits = [.returned (some (.context .canceled))] ∧
      ((p.wait.step (.waitDone p.waits.length)).isSome ∨
        (p.wait.step (.waitReceive p.waits.length)).isSome) := by
  obtain ⟨p, hreach, hsent, hwaits, hreceived⟩ : ∃ p, Reaches (some (.cancellable none)) (some 0) []
      [.start 0, .goroutine 0, .wait, .cancel .canceled, .waitDone 0, .goroutine 7, .goroutine 0] p ∧
      p.sent = [7] ∧ p.waits = [.returned (some (.context .canceled))] ∧ p.received = [] :=
    ⟨_, rfl, rfl, rfl, rfl⟩
  exact ⟨p, hreach, hsent, hwaits, (wait_after_exit hreach hsent).2 (Or.inl hreceived)⟩

end GoLibtor
