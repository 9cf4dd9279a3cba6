import Mathlib.Data.List.Induction

/-! Programs that work on a state, may end early with an error and leave a trace of what
they did, with the rules that carry properties from the parts of a program to the whole. -/
namespace Transition

structure Outcome (S V E A : Type) where
  result : Except E A
  state : S
  trace : List V

structure Program (S V E A : Type) where
  run : S → Outcome S V E A

namespace Program

variable {S V E A B : Type}

protected def pure (a : A) : Program S V E A := ⟨fun s => ⟨.ok a, s, []⟩⟩

/-- What follows an outcome: an error ends the program where it stands. -/
def resume (f : A → Program S V E B) : Outcome S V E A → Outcome S V E B
  | ⟨.error e, s, vs⟩ => ⟨.error e, s, vs⟩
  | ⟨.ok a, s, vs⟩ => ⟨((f a).run s).result, ((f a).run s).state, vs ++ ((f a).run s).trace⟩

protected def bind (p : Program S V E A) (f : A → Program S V E B) : Program S V E B :=
  ⟨fun s => resume f (p.run s)⟩

instance : Monad (Program S V E) where
  pure := Program.pure
  bind := Program.bind

def fail (e : E) : Program S V E A := ⟨fun s => ⟨.error e, s, []⟩⟩

/-- Errors reported in the terms of the caller. -/
def mapError (f : E → E) (p : Program S V E A) : Program S V E A :=
  ⟨fun s => ⟨(p.run s).result.mapError f, (p.run s).state, (p.run s).trace⟩⟩

theorem run_pure (a : A) (s : S) : (pure a : Program S V E A).run s = ⟨.ok a, s, []⟩ := rfl

theorem run_fail (e : E) (s : S) : (fail e : Program S V E A).run s = ⟨.error e, s, []⟩ := rfl

theorem run_bind (p : Program S V E A) (f : A → Program S V E B) (s : S) :
    (p >>= f).run s = resume f (p.run s) := rfl

def Returns (p : Program S V E A) (s : S) (a : A) (t : S) (vs : List V) : Prop :=
  p.run s = ⟨.ok a, t, vs⟩

theorem pure_returns {s t : S} {a b : A} {vs : List V} :
    Returns (pure a : Program S V E A) s b t vs ↔ b = a ∧ t = s ∧ vs = [] := by
  unfold Returns
  rw [run_pure]
  simp [eq_comm]

theorem not_fail_returns {s t : S} {e : E} {b : A} {vs : List V} :
    ¬ Returns (fail e : Program S V E A) s b t vs := by
  unfold Returns
  rw [run_fail]
  simp

theorem returns_of_result {p : Program S V E A} {s : S} {a : A} (h : (p.run s).result = .ok a) :
    p.Returns s a (p.run s).state (p.run s).trace := by
  unfold Returns
  rw [← h]

/-- The rule by which a program that returns is taken apart. -/
theorem bind_returns {p : Program S V E A} {f : A → Program S V E B} {s u : S} {b : B}
    {ws : List V} :
    Returns (p >>= f) s b u ws ↔
      ∃ a t vs vs', p.Returns s a t vs ∧ (f a).Returns t b u vs' ∧ ws = vs ++ vs' := by
  unfold Returns
  rw [run_bind]
  constructor
  · intro h
    rcases hp : p.run s with ⟨e | a, t, vs⟩
    · simp [hp, resume] at h
    · rw [hp] at h
      rcases hf : (f a).run t with ⟨r, v, xs⟩
      simp only [resume, hf, Outcome.mk.injEq] at h
      obtain ⟨rfl, rfl, rfl⟩ := h
      exact ⟨a, t, vs, xs, rfl, hf, rfl⟩
  · intro ⟨a, t, vs, vs', hp, hf, hws⟩
    rw [hp, hws]
    simp only [resume, hf]

/-- A program that fails does so in its first part or in what follows it. -/
theorem bind_fails {p : Program S V E A} {f : A → Program S V E B} {s u : S} {e : E} {ws : List V}
    (h : (p >>= f).run s = ⟨.error e, u, ws⟩) :
    p.run s = ⟨.error e, u, ws⟩ ∨
      ∃ a t vs vs', p.Returns s a t vs ∧ (f a).run t = ⟨.error e, u, vs'⟩ ∧ ws = vs ++ vs' := by
  rw [run_bind] at h
  rcases hp : p.run s with ⟨e' | a, t, vs⟩
  · left
    rw [hp] at h
    cases h
    rfl
  · right
    rw [hp] at h
    rcases hf : (f a).run t with ⟨r, v, xs⟩
    simp only [resume, hf, Outcome.mk.injEq] at h
    obtain ⟨rfl, rfl, rfl⟩ := h
    exact ⟨a, t, vs, xs, hp, hf, rfl⟩

/-- What a program does, its first part does or what follows a return of it. -/
theorem mem_trace_bind {p : Program S V E A} {f : A → Program S V E B} {s : S} {v : V}
    (h : v ∈ ((p >>= f).run s).trace) :
    v ∈ (p.run s).trace ∨ ∃ a t vs, p.Returns s a t vs ∧ v ∈ ((f a).run t).trace := by
  rw [run_bind] at h
  rcases hp : p.run s with ⟨e | a, t, vs⟩
  · rw [hp] at h
    exact Or.inl h
  · rw [hp] at h
    rcases List.mem_append.mp h with hvs | hrest
    · exact Or.inl hvs
    · exact Or.inr ⟨a, t, vs, hp, hrest⟩

theorem mapError_returns {p : Program S V E A} {f : E → E} {s t : S} {a : A} {vs : List V} :
    Returns (mapError f p) s a t vs ↔ p.Returns s a t vs := by
  unfold Returns mapError
  rcases hp : p.run s with ⟨e | b, u, ws⟩
  · simp [hp, Except.mapError]
  · simp [hp, Except.mapError]

theorem forM_nil_returns {f : A → Program S V E PUnit} {s t : S} {u : PUnit} {vs : List V} :
    Returns (([] : List A).forM f) s u t vs ↔ t = s ∧ vs = [] := by
  change Returns (pure PUnit.unit) s u t vs ↔ _
  rw [pure_returns]
  simp

theorem forM_cons_returns {f : A → Program S V E PUnit} {s t : S} {u : PUnit} {vs : List V}
    {a : A} {as : List A} :
    Returns ((a :: as).forM f) s u t vs ↔
      ∃ s' ws ws', (f a).Returns s u s' ws ∧ (as.forM f).Returns s' u t ws' ∧ vs = ws ++ ws' := by
  change Returns (f a >>= fun _ => as.forM f) s u t vs ↔ _
  rw [bind_returns]
  constructor
  · intro ⟨_, s', ws, ws', h⟩
    exact ⟨s', ws, ws', h⟩
  · intro ⟨s', ws, ws', h⟩
    exact ⟨u, s', ws, ws', h⟩

/-- What is known of the answer of a program, wherever it begins. -/
def Answers (P : A → Prop) (p : Program S V E A) : Prop := ∀ s a t vs, p.Returns s a t vs → P a

theorem answers_pure {P : A → Prop} {a : A} (h : P a) : Answers P (pure a : Program S V E A) := by
  intro s b t vs hb
  rw [(pure_returns.mp hb).1]
  exact h

/-- The last part of a program gives the answer. -/
theorem answers_bind {P : B → Prop} {p : Program S V E A} {f : A → Program S V E B}
    (hf : ∀ a, Answers P (f a)) : Answers P (p >>= f) := by
  intro s b t vs hb
  obtain ⟨a, u, _, ws, _, h, _⟩ := bind_returns.mp hb
  exact hf a u b t ws h

theorem Answers.returns {P : A → Prop} {p : Program S V E A} (h : Answers P p) {s t : S} {a : A}
    {vs : List V} (hp : p.Returns s a t vs) : P a :=
  h s a t vs hp

/-- What is known of the error that a program ends with, wherever it begins. -/
def Errs (P : E → Prop) (p : Program S V E A) : Prop := ∀ s e, (p.run s).result = .error e → P e

theorem errs_of_ok {P : E → Prop} {p : Program S V E A} (h : ∀ s, ∃ a, (p.run s).result = .ok a) :
    Errs P p := by
  intro s e he
  obtain ⟨a, ha⟩ := h s
  rw [ha] at he
  cases he

theorem errs_pure {P : E → Prop} (a : A) : Errs P (pure a : Program S V E A) :=
  errs_of_ok fun _ => ⟨a, rfl⟩

theorem errs_fail {P : E → Prop} {e : E} (h : P e) : Errs P (fail e : Program S V E A) := by
  intro s e' he
  cases he
  exact h

/-- An error comes from the first part of a program or from what follows it. -/
theorem errs_bind {P : E → Prop} {p : Program S V E A} {f : A → Program S V E B} (hp : Errs P p)
    (hf : ∀ a, Errs P (f a)) : Errs P (p >>= f) := by
  intro s e he
  rw [run_bind] at he
  rcases hrun : p.run s with ⟨e' | a, t, vs⟩
  · rw [hrun] at he
    have he' : (.error e' : Except E B) = .error e := he
    cases he'
    exact hp s e (by rw [hrun])
  · rw [hrun] at he
    exact hf a t e he

theorem errs_mapError {P : E → Prop} {g : E → E} (h : ∀ e, P (g e)) (p : Program S V E A) :
    Errs P (mapError g p) := by
  intro s e he
  change (p.run s).result.mapError g = .error e at he
  cases hresult : (p.run s).result with
  | error e' =>
    rw [hresult] at he
    cases he
    exact h e'
  | ok a =>
    rw [hresult] at he
    cases he

/-! ### What holds along every execution, whether it returns or fails -/

/-- A relation between two states and the trace between them that steps compose to. -/
structure Composes (R : S → List V → S → Prop) : Prop where
  refl : ∀ s, R s [] s
  trans : ∀ {s t u vs ws}, R s vs t → R t ws u → R s (vs ++ ws) u

def Along (R : S → List V → S → Prop) (p : Program S V E A) : Prop :=
  ∀ s, R s (p.run s).trace (p.run s).state

section Along

variable {R : S → List V → S → Prop}

theorem along_pure (hR : Composes R) (a : A) : Along R (pure a : Program S V E A) :=
  fun s => hR.refl s

theorem along_fail (hR : Composes R) (e : E) : Along R (fail e : Program S V E A) :=
  fun s => hR.refl s

theorem along_bind (hR : Composes R) {p : Program S V E A} {f : A → Program S V E B}
    (hp : Along R p) (hf : ∀ s a t vs, p.Returns s a t vs → Along R (f a)) : Along R (p >>= f) := by
  intro s
  have hs : R s (p.run s).trace (p.run s).state := hp s
  rw [run_bind]
  rcases hout : p.run s with ⟨e | a, t, vs⟩
  · rw [hout] at hs
    exact hs
  · rw [hout] at hs
    exact hR.trans hs (hf s a t vs hout t)

theorem along_mapError {p : Program S V E A} {f : E → E} (hp : Along R p) :
    Along R (mapError f p) :=
  fun s => hp s

theorem Along.returns {p : Program S V E A} (h : Along R p) {s t : S} {a : A} {vs : List V}
    (hp : p.Returns s a t vs) : R s vs t := by
  have hs : R s (p.run s).trace (p.run s).state := h s
  rw [hp] at hs
  exact hs

end Along

/-! ### Two executions side by side -/

/-- From related states the program does and answers the same, and ends in related states. -/
def Mirrors (R : S → S → Prop) (p : Program S V E A) : Prop :=
  ∀ s t, R s t → (p.run s).result = (p.run t).result ∧ (p.run s).trace = (p.run t).trace ∧
    R (p.run s).state (p.run t).state

section Mirrors

variable {R : S → S → Prop}

theorem mirrors_pure (a : A) : Mirrors R (pure a : Program S V E A) :=
  fun _ _ h => ⟨rfl, rfl, h⟩

theorem mirrors_fail (e : E) : Mirrors R (fail e : Program S V E A) :=
  fun _ _ h => ⟨rfl, rfl, h⟩

theorem mirrors_bind {p : Program S V E A} {f : A → Program S V E B} (hp : Mirrors R p)
    (hf : ∀ s a t vs, p.Returns s a t vs → Mirrors R (f a)) : Mirrors R (p >>= f) := by
  intro s t h
  obtain ⟨hresult, htrace, hstate⟩ := hp s t h
  rw [run_bind, run_bind]
  rcases hs : p.run s with ⟨rs, s', vs⟩
  rcases ht : p.run t with ⟨rt, t', ws⟩
  rw [hs, ht] at hresult htrace hstate
  obtain rfl : rs = rt := hresult
  obtain rfl : vs = ws := htrace
  cases rs with
  | error e => exact ⟨rfl, rfl, hstate⟩
  | ok a =>
    obtain ⟨hresult', htrace', hstate'⟩ := hf s a s' vs hs s' t' hstate
    exact ⟨hresult', congrArg (vs ++ ·) htrace', hstate'⟩

theorem mirrors_mapError {p : Program S V E A} {f : E → E} (hp : Mirrors R p) :
    Mirrors R (mapError f p) := by
  intro s t h
  obtain ⟨hresult, hrest⟩ := hp s t h
  exact ⟨congrArg (Except.mapError f) hresult, hrest⟩

theorem Mirrors.returns {p : Program S V E A} (h : Mirrors R p) {s t s' : S} {a : A} {vs : List V}
    (hst : R s t) (hp : p.Returns s a s' vs) : ∃ t', p.Returns t a t' vs ∧ R s' t' := by
  obtain ⟨hresult, htrace, hstate⟩ := h s t hst
  rw [hp] at hresult htrace hstate
  rcases ht : p.run t with ⟨r, t', ws⟩
  rw [ht] at hresult htrace hstate
  obtain rfl : .ok a = r := hresult
  obtain rfl : vs = ws := htrace
  exact ⟨t', ht, hstate⟩

end Mirrors

/-! ### Programs made of given steps -/

/-- What the control structures make of the programs `Step`. What follows a program has to be
made of steps only for the answers that this program gives. -/
inductive Built (Step : ∀ T : Type, Program S V E T → Prop) : ∀ {T : Type}, Program S V E T → Prop
  | step {T : Type} {p : Program S V E T} (h : Step T p) : Built Step p
  | pure {T : Type} (a : T) : Built Step (Pure.pure a)
  | fail {T : Type} (e : E) : Built Step (Program.fail e : Program S V E T)
  | bindOf {T U : Type} {p : Program S V E T} {f : T → Program S V E U} (hp : Built Step p)
      (hf : ∀ s a t vs, p.Returns s a t vs → Built Step (f a)) : Built Step (p >>= f)
  | mapError {T : Type} {p : Program S V E T} (f : E → E) (hp : Built Step p) :
      Built Step (Program.mapError f p)

namespace Built

variable {Step : ∀ T : Type, Program S V E T → Prop}

theorem bind {p : Program S V E A} {f : A → Program S V E B} (hp : Built Step p)
    (hf : ∀ a, Built Step (f a)) : Built Step (p >>= f) :=
  .bindOf hp fun _ a _ _ _ => hf a

theorem forM {f : A → Program S V E PUnit} {as : List A} (hf : ∀ a ∈ as, Built Step (f a)) :
    Built Step (as.forM f) := by
  induction as with
  | nil => exact .pure PUnit.unit
  | cons a as ih =>
    exact bind (hf a List.mem_cons_self) fun _ => ih fun b hb => hf b (List.mem_cons_of_mem a hb)

theorem foldlM {f : B → A → Program S V E B} (hf : ∀ b a, Built Step (f b a)) (as : List A) (b : B) :
    Built Step (as.foldlM f b) := by
  induction as generalizing b with
  | nil => exact .pure b
  | cons a as ih => exact bind (hf b a) fun b' => ih b'

theorem mono {Step' : ∀ T : Type, Program S V E T → Prop} (h : ∀ T p, Step T p → Step' T p)
    {p : Program S V E A} (hp : Built Step p) : Built Step' p := by
  induction hp with
  | step hs => exact .step (h _ _ hs)
  | pure a => exact .pure a
  | fail e => exact .fail e
  | bindOf _ _ ihp ihf => exact .bindOf ihp ihf
  | mapError f _ ih => exact .mapError f ih

/-- What every step does along the way, the whole program does. -/
theorem along {R : S → List V → S → Prop} (hR : Composes R) (h : ∀ T p, Step T p → Along R p)
    {p : Program S V E A} (hp : Built Step p) : Along R p := by
  induction hp with
  | step hs => exact h _ _ hs
  | pure a => exact along_pure hR a
  | fail e => exact along_fail hR e
  | bindOf _ _ ihp ihf => exact along_bind hR ihp ihf
  | mapError f _ ih => exact along_mapError ih

/-- If every step runs side by side with itself, so does the whole program. -/
theorem mirrors {R : S → S → Prop} (h : ∀ T p, Step T p → Mirrors R p) {p : Program S V E A}
    (hp : Built Step p) : Mirrors R p := by
  induction hp with
  | step hs => exact h _ _ hs
  | pure a => exact mirrors_pure a
  | fail e => exact mirrors_fail e
  | bindOf _ _ ihp ihf => exact mirrors_bind ihp ihf
  | mapError f _ ih => exact mirrors_mapError ih

end Built

end Program

end Transition
