import GoLibtor.Process.Invariant

/-! What becomes of the exit code: the goroutine always gets rid of it and goes on to
release its resources, and the `Wait` calls share the one code there is. -/
namespace GoLibtor

def Action.startCode : Action → Option ℤ
  | .start code => some code
  | _ => none

/-- `tor_main_configuration_set_command_line` answers 0 in the first call of `Start`. -/
def FirstStartSucceeds (acts : List Action) : Prop :=
  (acts.filterMap Action.startCode).head? = some 0

instance (acts : List Action) : Decidable (FirstStartSucceeds acts) :=
  inferInstanceAs (Decidable (_ = _))

def CCall.exitCode : CCall → Option ℤ
  | .runMainReturned code => some code
  | _ => none

/-- The codes that `tor_run_main` has returned. -/
def exitCodes (cs : List CCall) : List ℤ := cs.filterMap CCall.exitCode

/-- The code the goroutine has in hand, returned but not yet sent. -/
def Goroutine.inHand : Goroutine → List ℤ
  | .sending _ c => [c]
  | _ => []

theorem Goroutine.exitCodes_eq (g : Goroutine) : g.exitCodes = g.sentCodes ++ g.inHand := by
  cases g <;> rfl

theorem Goroutine.sentCodes_length (g : Goroutine) : g.sentCodes.length ≤ 1 := by
  cases g <;> simp [sentCodes]

theorem Goroutine.exitCodes_length (g : Goroutine) : g.exitCodes.length ≤ 1 := by
  cases g <;> simp [Goroutine.exitCodes, sentCodes]

theorem exitCodes_script (conf : Conf) (argv : List String) (g : Goroutine) :
    GoLibtor.exitCodes (g.script conf argv) = g.exitCodes := by
  cases g <;> rfl

theorem exitCodes_startCalls (cs : List CCall) : exitCodes (ProcState.startCalls cs) = exitCodes cs := by
  rw [exitCodes, exitCodes, ProcState.startCalls, List.filterMap_filter]
  refine congrArg (List.filterMap · cs) (funext fun c => ?_)
  cases c <;> rfl

namespace ProcState

/-- The codes seen in C are the one the goroutine has sent or has in hand. -/
theorem Inv.exitCodes {p : ProcState} (hp : p.Inv) : GoLibtor.exitCodes p.calls = p.goroutine.exitCodes := by
  have hrefused : ∀ l : List ℤ,
      GoLibtor.exitCodes (l.flatMap fun _ => refusedStart p.conf p.argv) = [] := by
    intro l
    induction l with
    | nil => rfl
    | cons _ l ih => exact ih
  rw [← exitCodes_startCalls, hp.calls, GoLibtor.exitCodes, List.filterMap_append]
  exact (congrArg (· ++ _) (hrefused p.failed)).trans (exitCodes_script p.conf p.argv p.goroutine)

/-- Once started and until it is through, the goroutine can take its next step. Its send
finds room because the one code there will ever be is still in its hand. -/
theorem Inv.goroutine_enabled {p : ProcState} (hp : p.Inv) (hidle : p.goroutine ≠ .idle)
    (hfin : ∀ a c, p.goroutine ≠ .finished a c) (code : ℤ) :
    (p.step (.goroutine code)).isSome := by
  cases hg : p.goroutine with
  | idle => exact absurd hg hidle
  | finished a c => exact absurd hg (hfin a c)
  | spawned a => simp [step, goroutineStep, hg]
  | running a => simp [step, goroutineStep, hg]
  | releasing a c => simp [step, goroutineStep, hg]
  | freeing a c => simp [step, goroutineStep, hg]
  | sending a c =>
    cases hd : p.done with
    | none => exact absurd (hp.idle.mp hd) hidle
    | some buf =>
      have hkept : p.goroutine.sentCodes = p.received ++ buf := by
        rw [← hp.sent, hp.kept, hd, Option.getD_some]
      have hempty : buf = [] := (List.append_eq_nil_iff.mp (by simpa [hg, Goroutine.sentCodes] using hkept.symm)).2
      simp [step, goroutineStep, hg, hd, hempty, doneCapacity]

/-- What a call of `Wait` may have returned: it came before any `Start`, it received a
code, or its context was done. -/
def Justified (p : ProcState) (r : Option GoError) : Prop :=
  r = some .notStarted ∨ (∃ c ∈ p.received, r = exitError c) ∨
    ∃ e, p.ctx.err = some e ∧ r = some (.context e)

def WaitsSound (p : ProcState) : Prop :=
  ∀ (i : ℕ) (r : Option GoError), p.waits[i]? = some (.returned r) → p.Justified r

theorem Justified.mono {p q : ProcState} {r : Option GoError} (hr : ∀ c ∈ p.received, c ∈ q.received)
    (he : ∀ e, p.ctx.err = some e → q.ctx.err = some e) (h : p.Justified r) : q.Justified r := by
  rcases h with h | ⟨c, hc, h⟩ | ⟨e, hctx, h⟩
  · exact Or.inl h
  · exact Or.inr (Or.inl ⟨c, hr c hc, h⟩)
  · exact Or.inr (Or.inr ⟨e, he e hctx, h⟩)

/-- A context stays done, with the error it was first done with. -/
theorem err_cancel {c : Context} {e : CtxErr} (e' : CtxErr)
    (h : c.err = some e) : (c.cancel e').err = some e := by
  cases c with
  | background => cases h
  | cancellable err =>
    cases err with
    | none => cases h
    | some _ => exact h

/-- A step that leaves the `Wait` calls alone leaves them justified. -/
private theorem waitsSound_mono {p q : ProcState} (hw : q.waits = p.waits)
    (hr : ∀ c ∈ p.received, c ∈ q.received) (he : ∀ e, p.ctx.err = some e → q.ctx.err = some e)
    (hp : p.WaitsSound) : q.WaitsSound := by
  intro i r hi
  exact (hp i r (hw ▸ hi)).mono hr he

private theorem waitsSound_set {p q : ProcState} {j : ℕ} {r' : Option GoError}
    (hw : q.waits = p.waits.set j (.returned r')) (hr : ∀ c ∈ p.received, c ∈ q.received)
    (he : q.ctx = p.ctx) (hr' : q.Justified r') (hp : p.WaitsSound) : q.WaitsSound := by
  intro i r hi
  rw [hw, List.getElem?_set] at hi
  split at hi
  · split at hi
    · cases hi
      exact hr'
    · cases hi
  · exact (hp i r hi).mono hr (by simp [he])

theorem waitsSound_step {p q : ProcState} {a : Action} (hp : p.WaitsSound)
    (h : p.step a = some q) : q.WaitsSound := by
  cases a with
  | start code =>
    obtain rfl := Option.some.inj h
    rcases p.start_cases code with ⟨_, h⟩ | ⟨_, _, h⟩ | ⟨_, _, h⟩ <;> rw [h] <;>
      exact waitsSound_mono (p := p) rfl (fun _ hc => hc) (fun _ he => he) hp
  | wait =>
    obtain rfl := Option.some.inj h
    intro i r hi
    simp only [wait, List.getElem?_append, List.getElem?_singleton] at hi
    split at hi
    · exact (hp i r hi).mono (fun _ hc => hc) (fun _ he => he)
    · split at hi
      · split at hi
        · cases hi
          exact Or.inl rfl
        · cases hi
      · cases hi
  | waitDone i =>
    obtain ⟨e, _, he, rfl⟩ := waitDone_cases h
    exact waitsSound_set rfl (fun _ hc => hc) rfl (Or.inr (Or.inr ⟨e, he, rfl⟩)) hp
  | waitReceive i =>
    obtain ⟨code, rest, _, _, rfl⟩ := waitReceive_cases h
    refine waitsSound_set rfl (fun c hc => List.mem_append_left _ hc) rfl ?_ hp
    exact Or.inr (Or.inl ⟨code, List.mem_append_right _ (List.mem_singleton_self code), rfl⟩)
  | embeddedControlConn fd fileConn =>
    obtain rfl := Option.some.inj h
    exact waitsSound_mono (p := p) rfl (fun _ hc => hc) (fun _ he => he) hp
  | cancel e =>
    obtain rfl := Option.some.inj h
    exact waitsSound_mono (p := p) rfl (fun _ hc => hc) (fun _ he => err_cancel e he) hp
  | goroutine code =>
    rcases goroutineStep_cases h with ⟨a, _, rfl⟩ | ⟨a, _, rfl⟩ | ⟨a, c, buf, _, _, _, rfl⟩ |
      ⟨a, c, _, rfl⟩ | ⟨a, c, _, rfl⟩ <;>
      exact waitsSound_mono (p := p) rfl (fun _ hc => hc) (fun _ he => he) hp

/-- The `i`-th `Wait` was made on a started process: it never says `not started`. -/
def WaitStarted (i : ℕ) (p : ProcState) : Prop :=
  p.waits[i]? ≠ none ∧ p.waits[i]? ≠ some (.returned (some .notStarted))

private theorem waitStarted_set {p q : ProcState} {i j : ℕ} {r : Option GoError}
    (hw : q.waits = p.waits.set j (.returned r)) (hr : r ≠ some .notStarted)
    (hp : p.WaitStarted i) : q.WaitStarted i := by
  obtain ⟨hsome, hne⟩ := hp
  rw [WaitStarted, hw, List.getElem?_set]
  split
  · next hij =>
    subst hij
    have hlt : j < p.waits.length := by
      by_contra hge
      exact hsome (List.getElem?_eq_none (Nat.le_of_not_lt hge))
    simp [hlt, hr]
  · exact ⟨hsome, hne⟩

theorem waitStarted_step {p q : ProcState} {a : Action} {i : ℕ} (hp : p.WaitStarted i)
    (h : p.step a = some q) : q.WaitStarted i := by
  cases a with
  | start code =>
    obtain rfl := Option.some.inj h
    rcases p.start_cases code with ⟨_, h⟩ | ⟨_, _, h⟩ | ⟨_, _, h⟩ <;> rw [h] <;> exact hp
  | wait =>
    obtain rfl := Option.some.inj h
    have hlt : i < p.waits.length := by
      by_contra hge
      exact hp.1 (List.getElem?_eq_none (Nat.le_of_not_lt hge))
    rw [WaitStarted, wait, List.getElem?_append_left hlt]
    exact hp
  | waitDone j =>
    obtain ⟨e, _, _, rfl⟩ := waitDone_cases h
    exact waitStarted_set rfl (by simp) hp
  | waitReceive j =>
    obtain ⟨code, rest, _, _, rfl⟩ := waitReceive_cases h
    refine waitStarted_set rfl ?_ hp
    by_cases hz : code = 0 <;> simp [exitError, hz]
  | embeddedControlConn fd fileConn => obtain rfl := Option.some.inj h; exact hp
  | cancel e => obtain rfl := Option.some.inj h; exact hp
  | goroutine code =>
    rcases goroutineStep_cases h with ⟨a, _, rfl⟩ | ⟨a, _, rfl⟩ | ⟨a, c, buf, _, _, _, rfl⟩ |
      ⟨a, c, _, rfl⟩ | ⟨a, c, _, rfl⟩ <;> exact hp

/-- A code that has been sent stays sent. -/
theorem sent_step {p q : ProcState} {a : Action} {c : ℤ} (hc : c ∈ p.sent)
    (h : p.step a = some q) : c ∈ q.sent := by
  cases a with
  | start code =>
    obtain rfl := Option.some.inj h
    rcases p.start_cases code with ⟨_, h⟩ | ⟨_, _, h⟩ | ⟨_, _, h⟩ <;> rw [h] <;> exact hc
  | wait => obtain rfl := Option.some.inj h; exact hc
  | waitDone i => obtain ⟨e, _, _, rfl⟩ := waitDone_cases h; exact hc
  | waitReceive i => obtain ⟨code, rest, _, _, rfl⟩ := waitReceive_cases h; exact hc
  | embeddedControlConn fd fileConn => obtain rfl := Option.some.inj h; exact hc
  | cancel e => obtain rfl := Option.some.inj h; exact hc
  | goroutine code =>
    rcases goroutineStep_cases h with ⟨a, _, rfl⟩ | ⟨a, _, rfl⟩ | ⟨a, c, buf, _, _, _, rfl⟩ |
      ⟨a, c, _, rfl⟩ | ⟨a, c, _, rfl⟩
    · exact hc
    · exact hc
    · exact List.mem_append_left _ hc
    · exact hc
    · exact hc

end ProcState

variable {ctx : Option Context} {conf : Conf} {args : List String} {acts : List Action}
  {p : ProcState}

theorem Reaches.waitsSound (h : Reaches ctx conf args acts p) : p.WaitsSound :=
  Transition.run_invariant (fun _ _ _ => ProcState.waitsSound_step) h
    (by intro i r hi; simp [embeddedCreatorNew] at hi)

/-- Before the first `Start` there is no channel. After one that succeeded there is one,
so every later `Start` is turned away. -/
theorem Reaches.started (h : Reaches ctx conf args acts p) (hfirst : FirstStartSucceeds acts) :
    p.done ≠ none ∧ p.failed = [] := by
  have hinv : (acts.filterMap Action.startCode = [] → p.done = none ∧ p.failed = []) ∧
      ((acts.filterMap Action.startCode).head? = some 0 → p.done ≠ none ∧ p.failed = []) := by
    refine Transition.run_history (I := fun as q =>
      (as.filterMap Action.startCode = [] → q.done = none ∧ q.failed = []) ∧
      ((as.filterMap Action.startCode).head? = some 0 → q.done ≠ none ∧ q.failed = []))
      ⟨fun _ => ⟨rfl, rfl⟩, by simp⟩ ?_ h
    rintro as s a t - ⟨hnone, hsome⟩ hstep
    rw [List.filterMap_append]
    -- A step other than `Start` keeps `failed` and does not turn `done` into nil or back.
    have hkeep : Action.startCode a = none →
        (t.done = none ↔ s.done = none) ∧ t.failed = s.failed := by
      intro ha
      cases a with
      | start code => cases ha
      | wait => obtain rfl := Option.some.inj hstep; exact ⟨Iff.rfl, rfl⟩
      | waitDone i => obtain ⟨e, _, _, rfl⟩ := ProcState.waitDone_cases hstep; exact ⟨Iff.rfl, rfl⟩
      | waitReceive i =>
        obtain ⟨code, rest, _, hd, rfl⟩ := ProcState.waitReceive_cases hstep
        exact ⟨by simp [hd], rfl⟩
      | embeddedControlConn fd f => obtain rfl := Option.some.inj hstep; exact ⟨Iff.rfl, rfl⟩
      | cancel e => obtain rfl := Option.some.inj hstep; exact ⟨Iff.rfl, rfl⟩
      | goroutine code =>
        rcases ProcState.goroutineStep_cases hstep with ⟨a, _, rfl⟩ | ⟨a, _, rfl⟩ |
          ⟨a, c, buf, _, hd, _, rfl⟩ | ⟨a, c, _, rfl⟩ | ⟨a, c, _, rfl⟩
        · exact ⟨Iff.rfl, rfl⟩
        · exact ⟨Iff.rfl, rfl⟩
        · exact ⟨by simp [hd], rfl⟩
        · exact ⟨Iff.rfl, rfl⟩
        · exact ⟨Iff.rfl, rfl⟩
    cases ha : Action.startCode a with
    | none =>
      obtain ⟨hd, hf⟩ := hkeep ha
      have hone : [a].filterMap Action.startCode = [] := by simp [ha]
      rw [hone, List.append_nil, hf, Ne, hd]
      exact ⟨hnone, hsome⟩
    | some code =>
      cases a with
      | start code' =>
        cases ha
        obtain rfl := Option.some.inj hstep
        refine ⟨by simp [Action.startCode], ?_⟩
        intro hhead
        cases hprev : as.filterMap Action.startCode with
        | nil =>
          obtain ⟨hd, hf⟩ := hnone hprev
          have hcode : code = 0 := by simpa [hprev, Action.startCode] using hhead
          rcases s.start_cases code with ⟨hne, _⟩ | ⟨_, hne, _⟩ | ⟨_, _, h⟩
          · exact absurd hd hne
          · exact absurd hcode hne
          · rw [h]
            exact ⟨by simp, hf⟩
        | cons c cs =>
          obtain ⟨hd, hf⟩ := hsome (by simpa [hprev] using hhead)
          rcases s.start_cases code with ⟨_, h⟩ | ⟨hnil, _, _⟩ | ⟨hnil, _, _⟩
          · rw [h]
            exact ⟨hd, hf⟩
          · exact absurd hnil hd
          · exact absurd hnil hd
      | _ => cases ha
  exact hinv.2 hfirst

/-- The C calls of a process whose first `Start` succeeded follow one script. -/
theorem Reaches.script (h : Reaches ctx conf args acts p) (hfirst : FirstStartSucceeds acts) :
    ProcState.startCalls p.calls = p.goroutine.script conf ("tor" :: args) := by
  rw [h.inv.calls, (h.started hfirst).2, h.frame.1, h.argv]
  rfl

theorem Reaches.goroutine_ne_idle (h : Reaches ctx conf args acts p) (hfirst : FirstStartSucceeds acts) :
    p.goroutine ≠ .idle :=
  fun hg => (h.started hfirst).1 (h.inv.idle.mpr hg)

end GoLibtor
