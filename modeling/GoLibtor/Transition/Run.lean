import Mathlib.Data.List.Induction

/-! Finite runs of a partial labelled step function, and the induction rules for
what every run preserves. A step answers `none` when its label is not enabled. -/
namespace Transition

variable {S A : Type*} {step : S → A → Option S}

/-- Take the labels in order; `none` when one of them is not enabled. -/
def run (step : S → A → Option S) (s : S) (as : List A) : Option S :=
  as.foldlM step s

theorem run_append (s : S) (as bs : List A) :
    run step s (as ++ bs) = (run step s as).bind fun t => run step t bs :=
  List.foldlM_append

theorem run_cons_eq_some {s t : S} {a : A} {as : List A} :
    run step s (a :: as) = some t ↔ ∃ u, step s a = some u ∧ run step u as = some t := by
  simp only [run, List.foldlM_cons]
  exact Option.bind_eq_some_iff

theorem run_append_eq_some {s t : S} {as bs : List A} :
    run step s (as ++ bs) = some t ↔ ∃ u, run step s as = some u ∧ run step u bs = some t := by
  rw [run_append]
  exact Option.bind_eq_some_iff

theorem run_concat_eq_some {s t : S} {a : A} {as : List A} :
    run step s (as ++ [a]) = some t ↔ ∃ u, run step s as = some u ∧ step u a = some t := by
  rw [run_append_eq_some]
  have hone : ∀ u, run step u [a] = some t ↔ step u a = some t := by
    intro u
    rw [run_cons_eq_some]
    constructor
    · rintro ⟨v, hv, hvt⟩
      exact hv.trans hvt
    · intro h
      exact ⟨t, h, rfl⟩
  simp only [hone]

/-- A state property that every step preserves holds at the end of every run. -/
theorem run_invariant {I : S → Prop} (hstep : ∀ s a t, I s → step s a = some t → I t)
    {s t : S} {as : List A} (h : run step s as = some t) (h0 : I s) : I t := by
  induction as generalizing s with
  | nil => exact Option.some.inj h ▸ h0
  | cons a as ih =>
    obtain ⟨u, hu, hut⟩ := run_cons_eq_some.mp h
    exact ih hut (hstep s a u h0 hu)

/-- The same rule for a property of the state and of the labels taken so far. -/
theorem run_history {s : S} {I : List A → S → Prop} (h0 : I [] s)
    (hstep : ∀ as t a u, run step s as = some t → I as t → step t a = some u → I (as ++ [a]) u)
    {as : List A} {t : S} (h : run step s as = some t) : I as t := by
  induction as using List.reverseRecOn generalizing t with
  | nil => exact Option.some.inj h ▸ h0
  | append_singleton as a ih =>
    obtain ⟨u, hu, hut⟩ := run_concat_eq_some.mp h
    exact hstep as u a t hu (ih hu) hut

/-- A condition on every step of a run, read in the state just before it. -/
def EveryStep (step : S → A → Option S) (Ok : S → A → Prop) (s : S) (as : List A) : Prop :=
  ∀ pre a post t, as = pre ++ a :: post → run step s pre = some t → Ok t a

theorem everyStep_nil (Ok : S → A → Prop) (s : S) : EveryStep step Ok s [] := by
  intro pre a post t h
  simp at h

theorem everyStep_cons {Ok : S → A → Prop} {s : S} {a : A} {as : List A} :
    EveryStep step Ok s (a :: as) ↔ Ok s a ∧ ∀ t ∈ step s a, EveryStep step Ok t as := by
  constructor
  · intro hall
    refine ⟨hall [] a as s rfl rfl, fun t ht pre b post u hsplit hu => ?_⟩
    exact hall (a :: pre) b post u (by rw [hsplit, List.cons_append])
      (run_cons_eq_some.mpr ⟨t, ht, hu⟩)
  · rintro ⟨ha, has⟩ pre b post u hsplit hu
    cases pre with
    | nil =>
      obtain ⟨rfl, rfl⟩ := List.cons.inj hsplit
      exact Option.some.inj hu ▸ ha
    | cons c pre =>
      obtain ⟨rfl, hrest⟩ := List.cons.inj hsplit
      obtain ⟨t, ht, htu⟩ := run_cons_eq_some.mp hu
      exact has t ht pre b post u hrest htu

/-- The condition can be checked by taking the steps. -/
instance decidableEveryStep {Ok : S → A → Prop} [∀ s a, Decidable (Ok s a)] :
    ∀ (as : List A) (s : S), Decidable (EveryStep step Ok s as)
  | [], s => isTrue (everyStep_nil Ok s)
  | _ :: as, _ =>
    have : ∀ s, Decidable (EveryStep step Ok s as) := decidableEveryStep as
    decidable_of_iff' _ everyStep_cons

theorem everyStep_concat {Ok : S → A → Prop} {s t : S} {as : List A} {a : A}
    (h : run step s as = some t) :
    EveryStep step Ok s (as ++ [a]) ↔ EveryStep step Ok s as ∧ Ok t a := by
  constructor
  · intro hall
    refine ⟨?_, hall as a [] t rfl h⟩
    intro pre b post u hsplit hu
    exact hall pre b (post ++ [a]) u (by simp [hsplit]) hu
  · rintro ⟨hall, hlast⟩ pre b post u hsplit hu
    rcases List.eq_nil_or_concat post with rfl | ⟨post, c, rfl⟩
    · obtain ⟨rfl, hab⟩ := List.append_inj' hsplit rfl
      obtain rfl := Option.some.inj (h.symm.trans hu)
      exact (List.cons.inj hab).1 ▸ hlast
    · have hsplit' : as ++ [a] = (pre ++ b :: post) ++ [c] := by simpa using hsplit
      exact hall pre b post u (List.append_inj' hsplit' rfl).1 hu

end Transition
