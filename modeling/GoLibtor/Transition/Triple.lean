import GoLibtor.Transition.Program

/-! Total correctness of programs: from what states they return, and what holds then; and
from what states they fail. -/
namespace Transition.Program

variable {S V E A B : Type} {P P' : S → Prop} {Q Q' : A → S → Prop} {R : B → S → Prop}
  {p : Program S V E A} {f : A → Program S V E B} {e : E}

/-- From every state with `P` the program returns, and its answer and last state meet `Q`. -/
def Meets (P : S → Prop) (p : Program S V E A) (Q : A → S → Prop) : Prop :=
  ∀ s, P s → ∃ a t vs, p.Returns s a t vs ∧ Q a t

/-- From every state with `P` the program ends in the error `e`. -/
def Breaks (P : S → Prop) (p : Program S V E A) (e : E) : Prop :=
  ∀ s, P s → ∃ t vs, p.run s = ⟨.error e, t, vs⟩

theorem meets_pure {a : A} (h : ∀ s, P s → Q a s) : Meets P (pure a : Program S V E A) Q :=
  fun s hs => ⟨a, s, [], pure_returns.mpr ⟨rfl, rfl, rfl⟩, h s hs⟩

theorem Meets.bind (hp : Meets P p Q) (hf : ∀ a, Meets (Q a) (f a) R) : Meets P (p >>= f) R := by
  intro s hs
  obtain ⟨a, t, vs, hrun, ht⟩ := hp s hs
  obtain ⟨b, u, ws, hrest, hu⟩ := hf a t ht
  exact ⟨b, u, vs ++ ws, bind_returns.mpr ⟨a, t, vs, ws, hrun, hrest, rfl⟩, hu⟩

theorem meets_and {φ : Prop} (h : φ → Meets P p Q) : Meets (fun s => φ ∧ P s) p Q := by
  intro s ⟨hφ, hs⟩
  exact h hφ s hs

/-- The same rule after a part whose answer is known. -/
theorem Meets.bindEq {a : A} {P'' : S → Prop} (hp : Meets P p fun b s => b = a ∧ P'' s)
    (hf : Meets P'' (f a) R) : Meets P (p >>= f) R := by
  refine Meets.bind hp fun b => meets_and ?_
  intro hb
  rw [hb]
  exact hf

theorem Meets.mono (hp : Meets P p Q) (hpre : ∀ s, P' s → P s) (hpost : ∀ a s, Q a s → Q' a s) :
    Meets P' p Q' := by
  intro s hs
  obtain ⟨a, t, vs, hrun, ht⟩ := hp s (hpre s hs)
  exact ⟨a, t, vs, hrun, hpost a t ht⟩

theorem Meets.pre (hp : Meets P p Q) (hpre : ∀ s, P' s → P s) : Meets P' p Q :=
  hp.mono hpre fun _ _ h => h

theorem Meets.post (hp : Meets P p Q) (hpost : ∀ a s, Q a s → Q' a s) : Meets P p Q' :=
  hp.mono (fun _ h => h) hpost

/-- What the precondition names may be named before the program runs. -/
theorem meets_exists {X : Type*} {P : X → S → Prop} (h : ∀ x, Meets (P x) p Q) :
    Meets (fun s => ∃ x, P x s) p Q := by
  intro s ⟨x, hx⟩
  exact h x s hx

theorem Breaks.bind (hp : Breaks P p e) : Breaks P (p >>= f) e := by
  intro s hs
  obtain ⟨t, vs, hrun⟩ := hp s hs
  refine ⟨t, vs, ?_⟩
  rw [run_bind, hrun]
  rfl

/-- A first part that returns, and a second that fails from there. -/
theorem Meets.breaks (hp : Meets P p Q) (hf : ∀ a, Breaks (Q a) (f a) e) : Breaks P (p >>= f) e := by
  intro s hs
  obtain ⟨a, t, vs, hrun, ht⟩ := hp s hs
  obtain ⟨u, ws, hrest⟩ := hf a t ht
  have hp' : p.run s = ⟨.ok a, t, vs⟩ := hrun
  refine ⟨u, vs ++ ws, ?_⟩
  rw [run_bind, hp']
  simp only [resume, hrest]

end Transition.Program
