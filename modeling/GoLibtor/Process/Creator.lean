import GoLibtor.Process.Invariant

/-! Any number of processes obtained from `Creator`, and how the runs of all of them
together are runs of each. -/
namespace GoLibtor

/-- The processes made so far, in the order of their `New`. -/
abbrev System := List ProcState

/-- A call of `New`, where `null` says that `tor_main_configuration_new` answers NULL, or
a step of the `i`-th process. -/
inductive SysAction where
  | new (ctx : Option Context) (null : Bool) (args : List String)
  | on (i : ℕ) (a : Action)

namespace System

/-- No two allocations are the same handle: the `i`-th process gets handle `i`. -/
def step (sys : System) : SysAction → Option System
  | .new ctx null args =>
    some (sys ++ [embeddedCreatorNew ctx (if null then none else some sys.length) args])
  | .on i a =>
    match sys[i]? with
    | some p => (p.step a).map fun q => sys.set i q
    | none => none

theorem step_on_cases {sys sys' : System} {i : ℕ} {a : Action} (h : step sys (.on i a) = some sys') :
    ∃ p q, sys[i]? = some p ∧ p.step a = some q ∧ sys' = sys.set i q := by
  unfold step at h
  dsimp only at h
  split at h
  next p hp =>
    obtain ⟨q, hq, rfl⟩ := Option.map_eq_some_iff.mp h
    exact ⟨p, q, hp, hq, rfl⟩
  next => cases h

theorem getElem?_set_cases {sys : System} {i j : ℕ} {q r : ProcState}
    (h : (sys.set i q)[j]? = some r) : (i = j ∧ r = q) ∨ (i ≠ j ∧ sys[j]? = some r) := by
  rw [List.getElem?_set] at h
  split at h
  next hij =>
    split at h
    · exact Or.inl ⟨hij, (Option.some.inj h).symm⟩
    · cases h
  next hij => exact Or.inr ⟨hij, h⟩

theorem getElem?_new_cases {sys : System} {p r : ProcState} {j : ℕ}
    (h : (sys ++ [p])[j]? = some r) : sys[j]? = some r ∨ (j = sys.length ∧ r = p) := by
  rw [List.getElem?_append] at h
  split at h
  · exact Or.inl h
  · next hge =>
    rw [List.getElem?_singleton] at h
    split at h
    · exact Or.inr ⟨by omega, (Option.some.inj h).symm⟩
    · cases h

end System

/-- The steps of the `i`-th process among those of the system. -/
def SysAction.at (i : ℕ) : SysAction → Option Action
  | .new _ _ _ => none
  | .on j a => if j = i then some a else none

def SysReaches (acts : List SysAction) (sys : System) : Prop :=
  Transition.run System.step [] acts = some sys

/-- Each process of a system is in a state of a run of its own, on a handle of its own. -/
theorem SysReaches.project {acts : List SysAction} {sys : System} (h : SysReaches acts sys) :
    ∀ i p, sys[i]? = some p → (p.conf = none ∨ p.conf = some i) ∧
      ∃ ctx args, Reaches ctx p.conf args (acts.filterMap (SysAction.at i)) p := by
  have hinv : (∀ i, sys.length ≤ i → acts.filterMap (SysAction.at i) = []) ∧
      ∀ i p, sys[i]? = some p → (p.conf = none ∨ p.conf = some i) ∧
        ∃ ctx args, Reaches ctx p.conf args (acts.filterMap (SysAction.at i)) p := by
    refine Transition.run_history (I := fun as sys =>
      (∀ i, sys.length ≤ i → as.filterMap (SysAction.at i) = []) ∧
      ∀ i p, sys[i]? = some p → (p.conf = none ∨ p.conf = some i) ∧
        ∃ ctx args, Reaches ctx p.conf args (as.filterMap (SysAction.at i)) p)
      ⟨fun _ _ => rfl, by simp⟩ ?_ h
    rintro as sys a sys' - ⟨hunborn, hproj⟩ hstep
    cases a with
    | new ctx null args =>
      obtain rfl := Option.some.inj hstep
      have hat : ∀ i, (as ++ [SysAction.new ctx null args]).filterMap (SysAction.at i) =
          as.filterMap (SysAction.at i) := by
        intro i
        simp [SysAction.at]
      refine ⟨?_, ?_⟩
      · intro i hi
        rw [hat]
        rw [List.length_append, List.length_singleton] at hi
        exact hunborn i (by omega)
      · intro i p hi
        rw [hat]
        rcases System.getElem?_new_cases hi with hp | ⟨rfl, rfl⟩
        · exact hproj i p hp
        · refine ⟨by cases null <;> simp [embeddedCreatorNew], ctx, args, ?_⟩
          rw [hunborn _ (Nat.le_refl _)]
          rfl
    | on j b =>
      obtain ⟨p, q, hp, hq, rfl⟩ := System.step_on_cases hstep
      have hat : ∀ i, i ≠ j → (as ++ [SysAction.on j b]).filterMap (SysAction.at i) =
          as.filterMap (SysAction.at i) := by
        intro i hij
        simp [SysAction.at, Ne.symm hij]
      refine ⟨?_, ?_⟩
      · intro i hi
        rw [List.length_set] at hi
        rw [hat i ?_]
        · exact hunborn i hi
        · rintro rfl
          rw [List.getElem?_eq_none hi] at hp
          cases hp
      · intro i r hr
        rcases System.getElem?_set_cases hr with ⟨rfl, rfl⟩ | ⟨hij, hr⟩
        · obtain ⟨hconf, ctx, args, hreach⟩ := hproj j p hp
          have hframe := (ProcState.step_frame hq).1
          rw [hframe]
          refine ⟨hconf, ctx, args, ?_⟩
          have hone : [SysAction.on j b].filterMap (SysAction.at j) = [b] := by simp [SysAction.at]
          rw [List.filterMap_append, hone]
          exact Transition.run_concat_eq_some.mpr ⟨p, hreach, hq⟩
        · rw [hat i (Ne.symm hij)]
          exact hproj i r hr
  exact hinv.2

theorem SysReaches.inv {acts : List SysAction} {sys : System} (h : SysReaches acts sys) {i : ℕ}
    {p : ProcState} (hp : sys[i]? = some p) : p.Inv :=
  have ⟨_, _, _, hreach⟩ := h.project i p hp
  hreach.inv

end GoLibtor
