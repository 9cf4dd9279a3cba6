import GoLibtor.Process.Creator

/-! How many calls of `tor_run_main` can be in progress at once, over all processes. The
guard of `Start` looks at one process only. -/
namespace GoLibtor

open Transition (EveryStep)

def Goroutine.InRunMain : Goroutine → Prop
  | .running _ => True
  | _ => False

/-- Spawned, and `tor_run_main` has not returned yet. -/
def Goroutine.BeforeReturn : Goroutine → Prop
  | .spawned _ | .running _ => True
  | _ => False

theorem Goroutine.InRunMain.beforeReturn {g : Goroutine} (h : g.InRunMain) : g.BeforeReturn := by
  cases g <;> first | exact h | exact trivial

namespace System

/-- No two processes satisfy `P` in their goroutines. -/
def AtMostOne (P : Goroutine → Prop) (sys : System) : Prop :=
  ∀ (i j : ℕ) (p q : ProcState), sys[i]? = some p → sys[j]? = some q →
    P p.goroutine → P q.goroutine → i = j

/-- Two calls of `tor_run_main` are never in progress at once. -/
def OneTor (sys : System) : Prop := sys.AtMostOne Goroutine.InRunMain

/-- The condition on a step: a `Start` that gets past its own guard and its command line is
called while no goroutine is before the return of its `tor_run_main`. -/
def StartsAlone (sys : System) : SysAction → Prop
  | .on i (.start code) => ∀ p : ProcState, sys[i]? = some p → p.done = none → code = 0 →
      ∀ (j : ℕ) (q : ProcState), sys[j]? = some q → ¬ q.goroutine.BeforeReturn
  | _ => True

end System

/-- A step leaves its goroutine before the return only if it was there, or is the `Start`
that spawns it. -/
theorem ProcState.beforeReturn_step {p q : ProcState} {a : Action} (h : p.step a = some q)
    (hq : q.goroutine.BeforeReturn) :
    p.goroutine.BeforeReturn ∨ (a = .start 0 ∧ p.done = none) := by
  cases a with
  | start code =>
    obtain rfl := Option.some.inj h
    rcases p.start_cases code with ⟨_, h⟩ | ⟨_, _, h⟩ | ⟨hd, rfl, h⟩
    · rw [h] at hq
      exact Or.inl hq
    · rw [h] at hq
      exact Or.inl hq
    · exact Or.inr ⟨rfl, hd⟩
  | wait => obtain rfl := Option.some.inj h; exact Or.inl hq
  | waitDone i => obtain ⟨e, _, _, rfl⟩ := waitDone_cases h; exact Or.inl hq
  | waitReceive i => obtain ⟨code, rest, _, _, rfl⟩ := waitReceive_cases h; exact Or.inl hq
  | embeddedControlConn fd fileConn => obtain rfl := Option.some.inj h; exact Or.inl hq
  | cancel e => obtain rfl := Option.some.inj h; exact Or.inl hq
  | goroutine code =>
    left
    rcases goroutineStep_cases h with ⟨a, hg, rfl⟩ | ⟨a, hg, rfl⟩ | ⟨a, c, buf, hg, _, _, rfl⟩ |
      ⟨a, c, hg, rfl⟩ | ⟨a, c, hg, rfl⟩
    · exact hg ▸ trivial
    all_goals cases hq

namespace System

theorem atMostOne_step {sys sys' : System} {a : SysAction}
    (hone : sys.AtMostOne Goroutine.BeforeReturn) (hok : sys.StartsAlone a)
    (h : step sys a = some sys') : sys'.AtMostOne Goroutine.BeforeReturn := by
  cases a with
  | new ctx null args =>
    obtain rfl := Option.some.inj h
    intro i j p q hp hq hip hjq
    rcases getElem?_new_cases hp with hp | ⟨_, rfl⟩
    · rcases getElem?_new_cases hq with hq | ⟨_, rfl⟩
      · exact hone i j p q hp hq hip hjq
      · cases hjq
    · cases hip
  | on k b =>
    obtain ⟨p, q, hp, hq, rfl⟩ := step_on_cases h
    -- The others have not moved; this one is before the return only as the cases above say.
    have hother : ∀ j r, k ≠ j → sys[j]? = some r → r.goroutine.BeforeReturn →
        ¬ q.goroutine.BeforeReturn := by
      intro j r hkj hr hbr hbq
      rcases ProcState.beforeReturn_step hq hbq with hbp | ⟨rfl, hd⟩
      · exact hkj (hone k j p r hp hr hbp hbr)
      · exact hok p hp hd rfl j r hr hbr
    intro i j r s hr hs hbr hbs
    rcases getElem?_set_cases hr with ⟨hi, hrq⟩ | ⟨hi, hr⟩
    · rcases getElem?_set_cases hs with ⟨hj, _⟩ | ⟨hj, hs⟩
      · exact hi.symm.trans hj
      · exact absurd (hrq ▸ hbr) (hother j s hj hs hbs)
    · rcases getElem?_set_cases hs with ⟨hj, hsq⟩ | ⟨hj, hs⟩
      · exact absurd (hsq ▸ hbs) (hother i r hi hr hbr)
      · exact hone i j r s hr hs hbr hbs

/-- A step of a goroutine, which no caller decides the moment of. -/
def IsGoroutine : SysAction → Prop
  | .on _ (.goroutine _) => True
  | _ => False

theorem startsAlone_goroutine (sys : System) {a : SysAction} (ha : IsGoroutine a) :
    sys.StartsAlone a := by
  cases a with
  | new ctx null args => cases ha
  | on i b => cases b <;> trivial

/-- A goroutine that was spawned can be taken into `tor_run_main`, the others untouched. -/
theorem enter_runMain {sys : System} {i : ℕ} {p : ProcState} (hp : sys[i]? = some p)
    (hbr : p.goroutine.BeforeReturn) :
    ∃ gs sys', (∀ a ∈ gs, IsGoroutine a) ∧ Transition.run step sys gs = some sys' ∧
      (∃ q, sys'[i]? = some q ∧ q.goroutine.InRunMain) ∧
      ∀ j, i ≠ j → sys'[j]? = sys[j]? := by
  have hlt : i < sys.length := (List.getElem?_eq_some_iff.mp hp).1
  cases hg : p.goroutine with
  | spawned a =>
    obtain ⟨q, hstep, hin⟩ : ∃ q, p.step (.goroutine 0) = some q ∧ q.goroutine.InRunMain := by
      refine ⟨{ p.log [.runMain p.conf] with goroutine := .running a }, ?_, trivial⟩
      simp [ProcState.step, ProcState.goroutineStep, hg]
    refine ⟨[.on i (.goroutine 0)], sys.set i q, by simp [IsGoroutine], ?_, ⟨q, by simp [hlt], hin⟩, ?_⟩
    · exact Transition.run_cons_eq_some.mpr ⟨_, by simp [step, hp, hstep], rfl⟩
    · intro j hij
      simp [hij]
  | running a => exact ⟨[], sys, by simp, rfl, ⟨p, hp, hg ▸ trivial⟩, fun _ _ => rfl⟩
  | _ => simp [hg, Goroutine.BeforeReturn] at hbr

end System

/-- In every run, and however long each goroutine takes, there is never more than one call
of `tor_run_main` in progress exactly when every step of the run meets the condition. -/
theorem oneTor_iff {acts : List SysAction} {sys : System} (h : SysReaches acts sys) :
    (∀ pre post gs sys', acts = pre ++ post → (∀ a ∈ gs, System.IsGoroutine a) →
      SysReaches (pre ++ gs) sys' → sys'.OneTor) ↔
    EveryStep System.step System.StartsAlone [] acts := by
  constructor
  · intro hall pre a post t hsplit hpre
    cases a with
    | new ctx null args => trivial
    | on i b =>
      cases b with
      | start code =>
        rintro p hp hd rfl j q hq hbr
        obtain ⟨t', hstep⟩ : ∃ t', System.step t (.on i (.start 0)) = some t' := by
          rw [SysReaches, hsplit, Transition.run_append_eq_some] at h
          obtain ⟨u, hu, hrest⟩ := h
          obtain ⟨t', ht', _⟩ := Transition.run_cons_eq_some.mp hrest
          exact ⟨t', Option.some.inj (hpre.symm.trans hu) ▸ ht'⟩
        -- After this `Start` two goroutines are before the return; let both enter.
        obtain ⟨p', r, hp', hr, rfl⟩ := System.step_on_cases hstep
        obtain rfl := Option.some.inj (hp.symm.trans hp')
        have hlt : i < t.length := (List.getElem?_eq_some_iff.mp hp).1
        have hinv : p.Inv := SysReaches.inv (show SysReaches pre t from hpre) hp
        have hij : i ≠ j := by
          rintro rfl
          obtain rfl := Option.some.inj (hp.symm.trans hq)
          rw [hinv.idle.mp hd] at hbr
          exact hbr
        have hbi : r.goroutine.BeforeReturn := by
          obtain rfl := Option.some.inj hr
          simp [ProcState.start, hd, Goroutine.BeforeReturn]
        have hset : (t.set i r)[i]? = some r := by simp [hlt]
        obtain ⟨gs₁, t₁, hgs₁, hrun₁, ⟨ri, hri, hini⟩, hsame₁⟩ := System.enter_runMain hset hbi
        have hqj : t₁[j]? = some q := by
          rw [hsame₁ j hij]
          simpa [hij] using hq
        obtain ⟨gs₂, t₂, hgs₂, hrun₂, ⟨rj, hrj, hinj⟩, hsame₂⟩ := System.enter_runMain hqj hbr
        have hri' : t₂[i]? = some ri := (hsame₂ i (Ne.symm hij)).trans hri
        have hreach : SysReaches ((pre ++ [.on i (.start 0)]) ++ (gs₁ ++ gs₂)) t₂ :=
          Transition.run_append_eq_some.mpr ⟨_, Transition.run_concat_eq_some.mpr ⟨t, hpre, hstep⟩,
            Transition.run_append_eq_some.mpr ⟨t₁, hrun₁, hrun₂⟩⟩
        refine hij (hall _ post (gs₁ ++ gs₂) t₂ (by simp [hsplit]) ?_ hreach i j ri rj hri' hrj
          hini hinj)
        intro a ha
        exact (List.mem_append.mp ha).elim (hgs₁ a) (hgs₂ a)
      | _ => trivial
  · intro hok pre post gs sys' hsplit hgs hreach
    have hboth : ∀ bs t, SysReaches bs t →
        (∀ p b q u, bs = p ++ b :: q → Transition.run System.step [] p = some u → u.StartsAlone b) →
        t.AtMostOne Goroutine.BeforeReturn := by
      intro bs t ht
      refine Transition.run_history (I := fun bs t =>
        (∀ p b q u, bs = p ++ b :: q → Transition.run System.step [] p = some u → u.StartsAlone b) →
        t.AtMostOne Goroutine.BeforeReturn) ?_ ?_ ht
      · intro _ i j p q hp
        simp at hp
      · intro as s a t hs ih hstep hsteps
        refine System.atMostOne_step (ih fun p b q u hpq hu => ?_) (hsteps as a [] s rfl hs) hstep
        exact hsteps p b (q ++ [a]) u (by simp [hpq]) hu
    have hone := hboth _ _ hreach fun p b q u hpq hu => by
      rcases List.append_eq_append_iff.mp hpq with ⟨as, rfl, hgs'⟩ | ⟨bs, rfl, hbs⟩
      · exact System.startsAlone_goroutine u (hgs b (by simp [hgs']))
      · cases bs with
        | nil =>
          simp only [List.nil_append] at hbs
          exact System.startsAlone_goroutine u (hgs b (by simp [← hbs]))
        | cons c bs =>
          obtain ⟨rfl, _⟩ := List.cons.inj hbs
          exact hok p b (bs ++ post) u (by simp [hsplit]) hu
    intro i j p q hp hq hip hjq
    exact hone i j p q hp hq hip.beforeReturn hjq.beforeReturn

/-- The first `Wait` returns because its context is cancelled. The owner takes a new
process and starts it while the goroutine of the first is still inside Tor. -/
def restartAfterCancel : List SysAction :=
  [.new (some (.cancellable none)) false [], .on 0 (.start 0), .on 0 (.goroutine 0), .on 0 .wait,
    .on 0 (.cancel .canceled), .on 0 (.waitDone 0), .new none false [], .on 1 (.start 0),
    .on 1 (.goroutine 0)]

theorem not_oneTor : ¬ ∀ acts sys, SysReaches acts sys → sys.OneTor := by
  intro hall
  have hone := hall restartAfterCancel _ rfl 0 1 _ _ rfl rfl trivial trivial
  cases hone

theorem oneTor_iff_restartAfterCancel :
    ¬ EveryStep System.step System.StartsAlone [] restartAfterCancel := by
  intro hok
  obtain ⟨sys, hreach, p, q, hp, hq, hrun⟩ : ∃ sys, SysReaches restartAfterCancel sys ∧
      ∃ p q, sys[0]? = some p ∧ sys[1]? = some q ∧ p.goroutine.InRunMain ∧ q.goroutine.InRunMain :=
    ⟨_, rfl, _, _, rfl, rfl, trivial, trivial⟩
  have hone := (oneTor_iff hreach).mpr hok restartAfterCancel [] [] sys rfl (by simp)
    (by simpa using hreach) 0 1 p q hp hq hrun.1 hrun.2
  cases hone

end GoLibtor
