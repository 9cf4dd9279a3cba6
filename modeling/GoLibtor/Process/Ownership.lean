import GoLibtor.Process.Creator

/-! Who may still use the configuration handle of a process. `Start` releases it when the
command line is refused, the goroutine when Tor is through, and nothing records either. -/
namespace GoLibtor

/-- In a sequence of C calls every handle is released at most once, and no call is made on a
handle after its release. -/
def ConfRespected (calls : List CCall) : Prop :=
  (∀ h, calls.count (.configurationFree (some h)) ≤ 1) ∧
  calls.Pairwise fun earlier later =>
    ∀ h, earlier = .configurationFree (some h) → later.conf ≠ some h

/-- A release is itself a call on the handle, so the order of the calls decides. -/
theorem confRespected_iff (calls : List CCall) : ConfRespected calls ↔
    calls.Pairwise fun earlier later =>
      ∀ h, earlier = .configurationFree (some h) → later.conf ≠ some h := by
  refine ⟨And.right, fun hp => ⟨?_, hp⟩⟩
  intro h
  induction calls with
  | nil => simp
  | cons c calls ih =>
    obtain ⟨hc, htail⟩ := List.pairwise_cons.mp hp
    rw [List.count_cons]
    by_cases hfree : c = .configurationFree (some h)
    · have hnone : calls.count (.configurationFree (some h)) = 0 := by
        refine List.count_eq_zero.mpr fun hmem => ?_
        exact hc _ hmem h hfree rfl
      simp [hnone, hfree]
    · simpa [hfree] using ih htail

/-- The goroutine is past its deferred `tor_main_configuration_free`. -/
def Goroutine.PastFree : Goroutine → Prop
  | .freeing _ _ | .finished _ _ => True
  | _ => False

instance : DecidablePred Goroutine.PastFree := fun g => by
  cases g <;> unfold Goroutine.PastFree <;> infer_instance

namespace ProcState

/-- The condition on a step: `Start` is not called again after a `Start` that failed, and
`EmbeddedControlConn` is called neither after such a `Start` nor once the goroutine has run
its deferred release. A NULL handle needs no care. -/
def KeepsConf (p : ProcState) : Action → Prop
  | .start _ => p.conf = none ∨ p.done ≠ none ∨ p.failed = []
  | .embeddedControlConn _ _ => p.conf = none ∨ (p.failed = [] ∧ ¬ p.goroutine.PastFree)
  | _ => True

/-- The handle has been released by a failed `Start` or by the goroutine. -/
theorem Inv.released_iff {p : ProcState} (hp : p.Inv) :
    .configurationFree p.conf ∈ p.calls ↔ p.failed ≠ [] ∨ p.goroutine.PastFree := by
  have hmem : .configurationFree p.conf ∈ p.calls ↔ .configurationFree p.conf ∈ startCalls p.calls := by
    simp [startCalls, CCall.isControlSocket]
  have hscript : CCall.configurationFree p.conf ∈ p.goroutine.script p.conf p.argv ↔
      p.goroutine.PastFree := by
    cases p.goroutine <;> simp [Goroutine.script, Goroutine.PastFree]
  have hfailed : CCall.configurationFree p.conf ∈
      p.failed.flatMap (fun _ => refusedStart p.conf p.argv) ↔ p.failed ≠ [] := by
    cases p.failed <;> simp [refusedStart]
  rw [hmem, hp.calls, List.mem_append, hfailed, hscript]

/-- Once a `Start` has failed, the one that succeeds hands the released handle over. -/
theorem Inv.failed_nil {p : ProcState} (hp : p.Inv) {h : ℕ} (hconf : p.conf = some h)
    (hg : p.goroutine ≠ .idle) (hresp : ConfRespected p.calls) : p.failed = [] := by
  by_contra hne
  have hsub : (startCalls p.calls).Pairwise fun earlier later =>
      ∀ h, earlier = .configurationFree (some h) → later.conf ≠ some h :=
    hresp.2.sublist List.filter_sublist
  rw [hp.calls, List.pairwise_append] at hsub
  refine hsub.2.2 (.configurationFree p.conf) ?_ (.setCommandLine p.conf p.argv) ?_ h
    (by rw [hconf]) hconf
  · obtain ⟨c, hc⟩ := List.exists_mem_of_ne_nil _ hne
    exact List.mem_flatMap.mpr ⟨c, hc, by simp [refusedStart]⟩
  · cases hg' : p.goroutine with
    | idle => exact absurd hg' hg
    | _ => simp [Goroutine.script]

/-- Calls on NULL respect every handle. -/
theorem confRespected_null {calls : List CCall} (h : ∀ c ∈ calls, c.conf = none) :
    ConfRespected calls := by
  rw [confRespected_iff]
  refine List.Pairwise.imp_of_mem ?_ (List.pairwise_of_forall (R := fun _ _ => True) fun _ _ => trivial)
  intro a b _ hb _ k _ hk
  rw [h b hb] at hk
  cases hk

/-- Appending one call that takes the handle. -/
theorem confRespected_concat {calls : List CCall} {c : CCall} {h : ℕ} (hc : c.conf = some h) :
    ConfRespected (calls ++ [c]) ↔
      ConfRespected calls ∧ .configurationFree (some h) ∉ calls := by
  simp only [confRespected_iff, List.pairwise_append, List.pairwise_singleton, true_and,
    List.mem_singleton, forall_eq]
  refine and_congr_right fun _ => ⟨fun hall hmem => hall _ hmem h rfl hc, ?_⟩
  intro hmem d hd k hdk hck
  obtain rfl : h = k := Option.some.inj (hc.symm.trans hck)
  exact hmem (hdk ▸ hd)

/-- Appending one call that takes no handle. -/
theorem confRespected_concat_none {calls : List CCall} {c : CCall} (hc : c.conf = none) :
    ConfRespected (calls ++ [c]) ↔ ConfRespected calls := by
  simp [confRespected_iff, List.pairwise_append, hc]

theorem confRespected_start {calls : List CCall} {h : ℕ} (argv : List String) :
    ConfRespected (calls ++ [.makeCharArray argv, .setCommandLine (some h) argv]) ↔
      ConfRespected calls ∧ .configurationFree (some h) ∉ calls := by
  have hsplit : calls ++ [.makeCharArray argv, .setCommandLine (some h) argv] =
      (calls ++ [.makeCharArray argv]) ++ [.setCommandLine (some h) argv] := by simp
  rw [hsplit, confRespected_concat rfl, confRespected_concat_none rfl]
  simp

theorem confRespected_refusedStart {calls : List CCall} {h : ℕ} (argv : List String) :
    ConfRespected (calls ++ refusedStart (some h) argv) ↔
      ConfRespected calls ∧ .configurationFree (some h) ∉ calls := by
  have hsplit : calls ++ refusedStart (some h) argv =
      ((calls ++ [.makeCharArray argv, .setCommandLine (some h) argv]) ++
        [.configurationFree (some h)]) ++ [.freeCharArray argv] := by simp [refusedStart]
  rw [hsplit, confRespected_concat_none rfl, confRespected_concat rfl, confRespected_start]
  simp

/-- One step respects the handle exactly when it meets the condition. -/
theorem confRespected_step {p q : ProcState} {a : Action} {h : ℕ} (hp : p.Inv)
    (hconf : p.conf = some h) (hstep : p.step a = some q) :
    ConfRespected q.calls ↔ ConfRespected p.calls ∧ p.KeepsConf a := by
  have hreleased := hp.released_iff
  rw [hconf] at hreleased
  cases a with
  | start code =>
    obtain rfl := Option.some.inj hstep
    rcases p.start_cases code with ⟨hd, hs⟩ | ⟨hd, _, hs⟩ | ⟨hd, _, hs⟩
    · rw [hs]
      simp [KeepsConf, hd]
    · have hg := hp.idle.mp hd
      rw [hs]
      change ConfRespected (p.calls ++ refusedStart p.conf p.argv) ↔ _
      rw [hconf, confRespected_refusedStart, hreleased]
      simp [KeepsConf, hconf, hd, hg, Goroutine.PastFree]
    · have hg := hp.idle.mp hd
      rw [hs]
      change ConfRespected (p.calls ++ [.makeCharArray p.argv, .setCommandLine p.conf p.argv]) ↔ _
      rw [hconf, confRespected_start, hreleased]
      simp [KeepsConf, hconf, hd, hg, Goroutine.PastFree]
  | wait => obtain rfl := Option.some.inj hstep; simp [wait, KeepsConf]
  | waitDone i => obtain ⟨e, _, _, rfl⟩ := waitDone_cases hstep; simp [KeepsConf]
  | waitReceive i => obtain ⟨code, rest, _, _, rfl⟩ := waitReceive_cases hstep; simp [KeepsConf]
  | embeddedControlConn fd fileConn =>
    obtain rfl := Option.some.inj hstep
    change ConfRespected (p.calls ++ [.setupControlSocket p.conf]) ↔ _
    rw [confRespected_concat (c := .setupControlSocket p.conf) hconf, hreleased]
    simp [KeepsConf, hconf]
  | cancel e => obtain rfl := Option.some.inj hstep; simp [KeepsConf]
  | goroutine code =>
    -- The goroutine takes the handle before it releases it, so only a failed `Start` can
    -- have released it earlier, and then the `Start` that spawned it broke the condition.
    have hkeep : ∀ c : CCall, c.conf = some h → p.goroutine ≠ .idle → ¬ p.goroutine.PastFree →
        (ConfRespected (p.calls ++ [c]) ↔ ConfRespected p.calls ∧ p.KeepsConf (.goroutine code)) := by
      intro c hc hg hpast
      rw [confRespected_concat hc, hreleased]
      refine and_congr_right fun hresp => ?_
      simp [KeepsConf, hp.failed_nil hconf hg hresp, hpast]
    rcases goroutineStep_cases hstep with ⟨a, hg, rfl⟩ | ⟨a, hg, rfl⟩ | ⟨a, c, buf, hg, _, _, rfl⟩ |
      ⟨a, c, hg, rfl⟩ | ⟨a, c, hg, rfl⟩
    · exact hkeep (.runMain p.conf) hconf (by simp [hg]) (by simp [hg, Goroutine.PastFree])
    · change ConfRespected (p.calls ++ [.runMainReturned code]) ↔ _
      rw [confRespected_concat_none rfl]
      simp [KeepsConf]
    · simp [KeepsConf]
    · exact hkeep (.configurationFree p.conf) hconf (by simp [hg]) (by simp [hg, Goroutine.PastFree])
    · change ConfRespected (p.calls ++ [.freeCharArray a]) ↔ _
      rw [confRespected_concat_none rfl]
      simp [KeepsConf]

/-- Every call of a process is made on its own handle or on none. -/
theorem calls_conf {ctx : Option Context} {conf : Conf} {args : List String} {acts : List Action}
    {p : ProcState} (h : Reaches ctx conf args acts p) : ∀ c ∈ p.calls, c.conf = none ∨ c.conf = conf := by
  refine (Transition.run_invariant
    (I := fun q => q.conf = conf ∧ ∀ c ∈ q.calls, c.conf = none ∨ c.conf = conf) ?_ h
    ⟨rfl, by simp [embeddedCreatorNew]⟩).2
  rintro s a t ⟨hconf, hs⟩ hstep
  refine ⟨(step_frame hstep).1.trans hconf, ?_⟩
  cases a with
  | start code =>
    obtain rfl := Option.some.inj hstep
    rcases s.start_cases code with ⟨_, h⟩ | ⟨_, _, h⟩ | ⟨_, _, h⟩ <;> rw [h]
    · exact hs
    · simpa [log, refusedStart, or_imp, forall_and, CCall.conf, hconf] using hs
    · simpa [log, or_imp, forall_and, CCall.conf, hconf] using hs
  | wait => obtain rfl := Option.some.inj hstep; exact hs
  | waitDone i => obtain ⟨e, _, _, rfl⟩ := waitDone_cases hstep; exact hs
  | waitReceive i => obtain ⟨code, rest, _, _, rfl⟩ := waitReceive_cases hstep; exact hs
  | embeddedControlConn fd fileConn =>
    obtain rfl := Option.some.inj hstep
    simpa [log, embeddedControlConn, or_imp, forall_and, CCall.conf, hconf] using hs
  | cancel e => obtain rfl := Option.some.inj hstep; exact hs
  | goroutine code =>
    rcases goroutineStep_cases hstep with ⟨a, _, rfl⟩ | ⟨a, _, rfl⟩ | ⟨a, c, buf, _, _, _, rfl⟩ |
      ⟨a, c, _, rfl⟩ | ⟨a, c, _, rfl⟩
    all_goals first
      | exact hs
      | simpa [log, or_imp, forall_and, CCall.conf, hconf] using hs

end ProcState

/-- The condition on a step of the system, which only the process that takes it decides. -/
def System.KeepsConf (sys : System) : SysAction → Prop
  | .new _ _ _ => True
  | .on i a => ∀ p, sys[i]? = some p → p.KeepsConf a

/-- In every run, each handle is released at most once and never used after its release
exactly when every step of the run meets the condition. -/
theorem conf_respected_iff {acts : List SysAction} {sys : System} (h : SysReaches acts sys) :
    (∀ (i : ℕ) (p : ProcState), sys[i]? = some p → ConfRespected p.calls) ↔
      Transition.EveryStep System.step System.KeepsConf [] acts := by
  refine Transition.run_history (I := fun as sys =>
    SysReaches as sys ∧ ((∀ (i : ℕ) (p : ProcState), sys[i]? = some p → ConfRespected p.calls) ↔
      Transition.EveryStep System.step System.KeepsConf [] as)) ⟨rfl, ?_⟩ ?_ h |>.2
  · simp [Transition.everyStep_nil]
  rintro as sys a sys' hrun ⟨hreach, ih⟩ hstep
  refine ⟨Transition.run_concat_eq_some.mpr ⟨sys, hrun, hstep⟩, ?_⟩
  rw [Transition.everyStep_concat hrun, ← ih]
  cases a with
  | new ctx null args =>
    obtain rfl := Option.some.inj hstep
    refine ⟨fun hall => ⟨fun i p hp => hall i p ?_, trivial⟩, fun hall i p hp => ?_⟩
    · rw [List.getElem?_append_left (List.getElem?_eq_some_iff.mp hp).1]
      exact hp
    · rcases System.getElem?_new_cases hp with hp | ⟨_, rfl⟩
      · exact hall.1 i p hp
      · exact ⟨by simp [embeddedCreatorNew], List.Pairwise.nil⟩
  | on i b =>
    obtain ⟨p, q, hp, hq, rfl⟩ := System.step_on_cases hstep
    have hlt : i < sys.length := (List.getElem?_eq_some_iff.mp hp).1
    have hone : ConfRespected q.calls ↔ ConfRespected p.calls ∧ p.KeepsConf b := by
      obtain ⟨_, ctx, args, hproj⟩ := hreach.project i p hp
      cases hconf : p.conf with
      | some k => exact ProcState.confRespected_step hproj.inv hconf hq
      | none =>
        have hnext : Reaches ctx p.conf args (as.filterMap (SysAction.at i) ++ [b]) q :=
          Transition.run_concat_eq_some.mpr ⟨p, hproj, hq⟩
        rw [hconf] at hproj hnext
        have hnull : ∀ {r : ProcState} {bs : List Action}, Reaches ctx none args bs r →
            ConfRespected r.calls := fun hr =>
          ProcState.confRespected_null fun c hc => (ProcState.calls_conf hr c hc).elim id id
        have hkeeps : p.KeepsConf b := by
          cases b <;> simp [ProcState.KeepsConf, hconf]
        exact ⟨fun _ => ⟨hnull hproj, hkeeps⟩, fun _ => hnull hnext⟩
    constructor
    · intro hall
      have hqresp := hone.mp (hall i q (by simp [hlt]))
      refine ⟨fun j r hr => ?_, fun p' hp' => ?_⟩
      · by_cases hij : i = j
        · subst hij
          rw [← Option.some.inj (hp.symm.trans hr)]
          exact hqresp.1
        · exact hall j r (by simpa [List.getElem?_set, hij] using hr)
      · rw [← Option.some.inj (hp.symm.trans hp')]
        exact hqresp.2
    · rintro ⟨hall, hok⟩ j r hr
      rcases System.getElem?_set_cases hr with ⟨rfl, rfl⟩ | ⟨_, hr⟩
      · exact hone.mpr ⟨hall i p hp, hok p hp⟩
      · exact hall j r hr

/-- The caller serialises its calls on a process: none is made while a `Wait` still sits in
its `select`. The other calls are single steps. -/
def System.Serialised (sys : System) : SysAction → Prop
  | .on i (.start _) | .on i .wait | .on i (.embeddedControlConn _ _) =>
    ∀ p : ProcState, sys[i]? = some p → ∀ w ∈ p.waits, w ≠ .selecting
  | _ => True

instance (sys : System) (i : ℕ) :
    Decidable (∀ p : ProcState, sys[i]? = some p → ∀ w ∈ p.waits, w ≠ .selecting) :=
  inferInstanceAs (Decidable (∀ p ∈ sys[i]?, ∀ w ∈ p.waits, w ≠ .selecting))

instance (sys : System) (a : SysAction) : Decidable (sys.Serialised a) := by
  unfold System.Serialised
  split <;> infer_instance

/-- Tor exits with 0, `Wait` says so, and a control connection is asked for. -/
def lateControlConn : List SysAction :=
  [.new none false [], .on 0 (.start 0), .on 0 (.goroutine 0), .on 0 .wait, .on 0 (.goroutine 0),
    .on 0 (.goroutine 0), .on 0 (.waitReceive 0), .on 0 (.goroutine 0), .on 0 (.goroutine 0),
    .on 0 (.embeddedControlConn 5 (.error "bad file descriptor"))]

/-- The command line is refused, and `Start` is called again and gets through. -/
def startAfterFailure : List SysAction :=
  [.new none false [], .on 0 (.start (-1)), .on 0 (.start 0)]

theorem lateControlConn_serialised :
    Transition.EveryStep System.step System.Serialised [] lateControlConn := by decide

theorem lateControlConn_calls : ∃ sys p, SysReaches lateControlConn sys ∧ sys[0]? = some p ∧
    p.calls = [.makeCharArray ["tor"], .setCommandLine (some 0) ["tor"], .runMain (some 0),
      .runMainReturned 0, .configurationFree (some 0), .freeCharArray ["tor"],
      .setupControlSocket (some 0)] := ⟨_, _, rfl, rfl, rfl⟩

theorem startAfterFailure_calls : ∃ sys p, SysReaches startAfterFailure sys ∧ sys[0]? = some p ∧
    p.calls = [.makeCharArray ["tor"], .setCommandLine (some 0) ["tor"],
      .configurationFree (some 0), .freeCharArray ["tor"], .makeCharArray ["tor"],
      .setCommandLine (some 0) ["tor"]] := ⟨_, _, rfl, rfl, rfl⟩

/-- Both runs call on a handle that has been released, one of them a run whose calls are serialised. -/
theorem conf_not_respected :
    (¬ ∀ acts sys, SysReaches acts sys →
      Transition.EveryStep System.step System.Serialised [] acts →
      ∀ (i : ℕ) (p : ProcState), sys[i]? = some p → ConfRespected p.calls) ∧
    (∃ sys p, SysReaches startAfterFailure sys ∧ sys[0]? = some p ∧ ¬ ConfRespected p.calls) := by
  constructor
  · intro hall
    obtain ⟨sys, p, hrun, hp, hcalls⟩ := lateControlConn_calls
    have hpair := (hall lateControlConn sys hrun lateControlConn_serialised 0 p hp).2
    simp [hcalls, CCall.conf] at hpair
  · obtain ⟨sys, p, hrun, hp, hcalls⟩ := startAfterFailure_calls
    refine ⟨sys, p, hrun, hp, fun hresp => ?_⟩
    have hpair := hresp.2
    simp [hcalls, CCall.conf] at hpair

theorem conf_respected_iff_lateControlConn :
    ∃ sys, SysReaches lateControlConn sys ∧
      ((∀ (i : ℕ) (p : ProcState), sys[i]? = some p → ConfRespected p.calls) ↔
        Transition.EveryStep System.step System.KeepsConf [] lateControlConn) :=
  ⟨_, rfl, conf_respected_iff rfl⟩

end GoLibtor
