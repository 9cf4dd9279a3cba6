import GoLibtor.Process.Model

/-! What each step of a process can do, and the invariant of every run: the codes in
`done`, the position of the goroutine and the whole sequence of C calls fit together. -/
namespace GoLibtor
namespace ProcState

/-- The `charArray` that `Start` builds, `append([]string{"tor"}, e.args...)`. -/
def argv (p : ProcState) : List String := "tor" :: p.args

/-- The C calls of a `Start` whose command line was refused. -/
def refusedStart (conf : Conf) (argv : List String) : List CCall :=
  [.makeCharArray argv, .setCommandLine conf argv, .configurationFree conf, .freeCharArray argv]

/-- What a call of `Start` can do. -/
theorem start_cases (p : ProcState) (code : ℤ) :
    (p.done ≠ none ∧ p.start code = (some .alreadyStarted, p)) ∨
    (p.done = none ∧ code ≠ 0 ∧ p.start code = (some (.setArguments code),
      { p.log (refusedStart p.conf p.argv) with failed := p.failed ++ [code] })) ∨
    (p.done = none ∧ code = 0 ∧ p.start code = (none,
      { p.log [.makeCharArray p.argv, .setCommandLine p.conf p.argv] with
        done := some [], goroutine := .spawned p.argv })) := by
  by_cases hd : p.done = none
  · right
    by_cases hc : code = 0
    · exact Or.inr ⟨hd, hc, by simp [start, hd, hc, argv]⟩
    · exact Or.inl ⟨hd, hc, by simp [start, hd, hc, argv, log, refusedStart]⟩
  · exact Or.inl ⟨hd, by simp [start, hd]⟩

theorem waitDone_cases {p q : ProcState} {i : ℕ} (h : p.waitDone i = some q) :
    ∃ e, p.waits[i]? = some .selecting ∧ p.ctx.err = some e ∧
      q = { p with waits := p.waits.set i (.returned (some (.context e))) } := by
  unfold waitDone at h
  split at h
  next e hw he => exact ⟨e, hw, he, (Option.some.inj h).symm⟩
  next => cases h

theorem waitReceive_cases {p q : ProcState} {i : ℕ} (h : p.waitReceive i = some q) :
    ∃ code rest, p.waits[i]? = some .selecting ∧ p.done = some (code :: rest) ∧
      q = { p with
        done := some rest
        received := p.received ++ [code]
        waits := p.waits.set i (.returned (exitError code)) } := by
  unfold waitReceive at h
  split at h
  next code rest hw hd => exact ⟨code, rest, hw, hd, (Option.some.inj h).symm⟩
  next => cases h

theorem goroutineStep_cases {p q : ProcState} {code : ℤ} (h : p.goroutineStep code = some q) :
    (∃ a, p.goroutine = .spawned a ∧
      q = { p.log [.runMain p.conf] with goroutine := .running a }) ∨
    (∃ a, p.goroutine = .running a ∧
      q = { p.log [.runMainReturned code] with goroutine := .sending a code }) ∨
    (∃ a c buf, p.goroutine = .sending a c ∧ p.done = some buf ∧ buf.length < doneCapacity ∧
      q = { p with done := some (buf ++ [c]), sent := p.sent ++ [c], goroutine := .releasing a c }) ∨
    (∃ a c, p.goroutine = .releasing a c ∧
      q = { p.log [.configurationFree p.conf] with goroutine := .freeing a c }) ∨
    (∃ a c, p.goroutine = .freeing a c ∧
      q = { p.log [.freeCharArray a] with goroutine := .finished a c }) := by
  unfold goroutineStep at h
  split at h
  next a hg => exact Or.inl ⟨a, hg, (Option.some.inj h).symm⟩
  next a hg => exact Or.inr (Or.inl ⟨a, hg, (Option.some.inj h).symm⟩)
  next a c buf hg hd =>
    split at h
    next hlt => exact Or.inr (Or.inr (Or.inl ⟨a, c, buf, hg, hd, hlt, (Option.some.inj h).symm⟩))
    next => cases h
  next a c hg => exact Or.inr (Or.inr (Or.inr (Or.inl ⟨a, c, hg, (Option.some.inj h).symm⟩)))
  next a c hg => exact Or.inr (Or.inr (Or.inr (Or.inr ⟨a, c, hg, (Option.some.inj h).symm⟩)))
  next => cases h

end ProcState

/-- The codes the goroutine has put into `done` when it stands here. -/
def Goroutine.sentCodes : Goroutine → List ℤ
  | .releasing _ c | .freeing _ c | .finished _ c => [c]
  | _ => []

/-- The codes `tor_run_main` has answered when the goroutine stands here. -/
def Goroutine.exitCodes : Goroutine → List ℤ
  | .sending _ c => [c]
  | g => g.sentCodes

/-- The goroutine's copy of `charArray` is the one its `Start` built. -/
def Goroutine.Holds (argv : List String) : Goroutine → Prop
  | .idle => True
  | .spawned a | .running a | .sending a _ | .releasing a _ | .freeing a _ | .finished a _ => a = argv

/-- The C calls of a `Start` that succeeded, up to where its goroutine stands. -/
def Goroutine.script (conf : Conf) (argv : List String) : Goroutine → List CCall
  | .idle => []
  | .spawned _ => [.makeCharArray argv, .setCommandLine conf argv]
  | .running _ => [.makeCharArray argv, .setCommandLine conf argv, .runMain conf]
  | .sending _ c | .releasing _ c =>
    [.makeCharArray argv, .setCommandLine conf argv, .runMain conf, .runMainReturned c]
  | .freeing _ c =>
    [.makeCharArray argv, .setCommandLine conf argv, .runMain conf, .runMainReturned c,
      .configurationFree conf]
  | .finished _ c =>
    [.makeCharArray argv, .setCommandLine conf argv, .runMain conf, .runMainReturned c,
      .configurationFree conf, .freeCharArray argv]

def CCall.isControlSocket : CCall → Bool
  | .setupControlSocket _ => true
  | _ => false

namespace ProcState

/-- The C calls of `Start` and of its goroutine, without those of `EmbeddedControlConn`. -/
def startCalls (cs : List CCall) : List CCall := cs.filter fun c => !c.isControlSocket

theorem startCalls_append (cs ds : List CCall) :
    startCalls (cs ++ ds) = startCalls cs ++ startCalls ds := List.filter_append _ _

/-- The invariant of every run. -/
structure Inv (p : ProcState) : Prop where
  idle : p.done = none ↔ p.goroutine = .idle
  holds : p.goroutine.Holds p.argv
  sent : p.sent = p.goroutine.sentCodes
  kept : p.sent = p.received ++ p.done.getD []
  calls : startCalls p.calls =
    p.failed.flatMap (fun _ => refusedStart p.conf p.argv) ++ p.goroutine.script p.conf p.argv

theorem inv_new (ctx : Option Context) (conf : Conf) (args : List String) :
    Inv (embeddedCreatorNew ctx conf args) where
  idle := by simp [embeddedCreatorNew]
  holds := trivial
  sent := rfl
  kept := rfl
  calls := rfl

private theorem inv_start {p : ProcState} (hp : Inv p) (code : ℤ) : Inv (p.start code).2 := by
  rcases p.start_cases code with ⟨_, h⟩ | ⟨hd, _, h⟩ | ⟨hd, _, h⟩
  · rw [h]
    exact hp
  · have hg := hp.idle.mp hd
    have hc := hp.calls
    rw [hg, Goroutine.script, List.append_nil] at hc
    rw [h]
    refine ⟨hp.idle, hp.holds, hp.sent, hp.kept, ?_⟩
    change startCalls (p.calls ++ refusedStart p.conf p.argv) =
      (p.failed ++ [code]).flatMap (fun _ => refusedStart p.conf p.argv) ++ p.goroutine.script _ _
    rw [startCalls_append, hc, List.flatMap_append, hg, Goroutine.script, List.append_nil]
    rfl
  · have hg := hp.idle.mp hd
    have hc := hp.calls
    have hs := hp.sent
    have hk := hp.kept
    rw [hg] at hs
    rw [hg, Goroutine.script, List.append_nil] at hc
    rw [h]
    refine ⟨by simp, rfl, hs, by simpa [log, hd] using hk, ?_⟩
    change startCalls (p.calls ++ [.makeCharArray p.argv, .setCommandLine p.conf p.argv]) = _
    rw [startCalls_append, hc]
    rfl

private theorem inv_goroutineStep {p q : ProcState} {code : ℤ} (hp : Inv p)
    (h : p.goroutineStep code = some q) : Inv q := by
  obtain ⟨hidle, hholds, hsent, hkept, hcalls⟩ := hp
  -- Every step but the send appends one call to the script.
  have happend : ∀ (c : CCall) (g : Goroutine), startCalls [c] = [c] →
      g.script p.conf p.argv = p.goroutine.script p.conf p.argv ++ [c] →
      startCalls (p.calls ++ [c]) =
        p.failed.flatMap (fun _ => refusedStart p.conf p.argv) ++ g.script p.conf p.argv := by
    intro c g hc hg
    rw [startCalls_append, hcalls, hc, hg, List.append_assoc]
  rcases goroutineStep_cases h with ⟨a, hg, rfl⟩ | ⟨a, hg, rfl⟩ | ⟨a, c, buf, hg, hd, _, rfl⟩ |
    ⟨a, c, hg, rfl⟩ | ⟨a, c, hg, rfl⟩ <;> rw [hg] at hidle hholds hsent happend
  · exact ⟨by simpa [log] using hidle, hholds, hsent, hkept, happend _ (.running a) rfl rfl⟩
  · exact ⟨by simpa [log] using hidle, hholds, hsent, hkept, happend _ (.sending a code) rfl rfl⟩
  · refine ⟨by simp, hholds, ?_, ?_, ?_⟩
    · change p.sent ++ [c] = [c]
      rw [hsent]
      rfl
    · simp [hkept, hd]
    · rw [hg] at hcalls
      exact hcalls
  · exact ⟨by simpa [log] using hidle, hholds, hsent, hkept, happend _ (.freeing a c) rfl rfl⟩
  · have ha : a = p.argv := hholds
    refine ⟨by simpa [log] using hidle, hholds, hsent, hkept, ?_⟩
    exact ha ▸ happend (.freeCharArray p.argv) (.finished p.argv c) rfl rfl

theorem inv_step {p q : ProcState} {a : Action} (hp : Inv p) (h : p.step a = some q) : Inv q := by
  cases a with
  | start code =>
    obtain rfl := Option.some.inj h
    exact inv_start hp code
  | wait =>
    obtain rfl := Option.some.inj h
    exact ⟨hp.idle, hp.holds, hp.sent, hp.kept, hp.calls⟩
  | waitDone i =>
    obtain ⟨e, _, _, rfl⟩ := waitDone_cases h
    exact ⟨hp.idle, hp.holds, hp.sent, hp.kept, hp.calls⟩
  | waitReceive i =>
    obtain ⟨code, rest, _, hd, rfl⟩ := waitReceive_cases h
    have hidle := hp.idle
    have hkept := hp.kept
    simp only [hd, Option.getD_some] at hidle hkept
    exact ⟨by simpa using hidle, hp.holds, hp.sent, by simp [hkept], hp.calls⟩
  | embeddedControlConn fd fileConn =>
    obtain rfl := Option.some.inj h
    refine ⟨hp.idle, hp.holds, hp.sent, hp.kept, ?_⟩
    change startCalls (p.calls ++ [.setupControlSocket p.conf]) = _
    rw [startCalls_append, hp.calls]
    exact List.append_nil _
  | cancel e =>
    obtain rfl := Option.some.inj h
    exact ⟨hp.idle, hp.holds, hp.sent, hp.kept, hp.calls⟩
  | goroutine code => exact inv_goroutineStep hp h

/-- The owner never reassigns the fields that `New` filled in. -/
theorem step_frame {p q : ProcState} {a : Action} (h : p.step a = some q) :
    q.conf = p.conf ∧ q.args = p.args := by
  cases a with
  | start code =>
    obtain rfl := Option.some.inj h
    rcases p.start_cases code with ⟨_, h⟩ | ⟨_, _, h⟩ | ⟨_, _, h⟩ <;> rw [h] <;> exact ⟨rfl, rfl⟩
  | wait => obtain rfl := Option.some.inj h; exact ⟨rfl, rfl⟩
  | waitDone i => obtain ⟨e, _, _, rfl⟩ := waitDone_cases h; exact ⟨rfl, rfl⟩
  | waitReceive i => obtain ⟨code, rest, _, _, rfl⟩ := waitReceive_cases h; exact ⟨rfl, rfl⟩
  | embeddedControlConn fd fileConn => obtain rfl := Option.some.inj h; exact ⟨rfl, rfl⟩
  | cancel e => obtain rfl := Option.some.inj h; exact ⟨rfl, rfl⟩
  | goroutine code =>
    rcases goroutineStep_cases h with ⟨a, _, rfl⟩ | ⟨a, _, rfl⟩ | ⟨a, c, buf, _, _, _, rfl⟩ |
      ⟨a, c, _, rfl⟩ | ⟨a, c, _, rfl⟩ <;> exact ⟨rfl, rfl⟩

end ProcState

variable {ctx : Option Context} {conf : Conf} {args : List String} {acts : List Action}
  {p : ProcState}

theorem Reaches.inv (h : Reaches ctx conf args acts p) : p.Inv :=
  Transition.run_invariant (fun _ _ _ => ProcState.inv_step) h (ProcState.inv_new ctx conf args)

theorem Reaches.frame (h : Reaches ctx conf args acts p) : p.conf = conf ∧ p.args = args :=
  Transition.run_invariant (I := fun q => q.conf = conf ∧ q.args = args)
    (fun _ _ _ hs hstep => (ProcState.step_frame hstep).imp (·.trans hs.1) (·.trans hs.2)) h
    ⟨rfl, rfl⟩

theorem Reaches.argv (h : Reaches ctx conf args acts p) : p.argv = "tor" :: args := by
  rw [ProcState.argv, h.frame.2]

end GoLibtor
