import GoLibtor.Memory.Heap
import GoLibtor.Memory.Descriptors
import GoLibtor.Transition.Triple

/-! The primitives of a C program on its memory: loads, stores, allocations and releases
that fail where the program would be undefined, and the closing of descriptors. -/
namespace Memory

open Transition Transition.Program

/-- A pointer to a block; `none` is NULL. -/
abbrev Ptr := Option ℕ

inductive Fault where
  | null
  | invalid (a : ℕ)
  | bounds
  | overflow
  deriving DecidableEq, Repr

structure Resources (B O : Type) where
  heap : Heap B
  fds : Descriptors O

abbrev C (B O α : Type) := Program (Resources B O) Empty Fault α

namespace C

variable {B O : Type}

def load (p : Ptr) : C B O B :=
  ⟨fun w =>
    match p with
    | none => ⟨.error .null, w, []⟩
    | some a =>
      match w.heap.block a with
      | none => ⟨.error (.invalid a), w, []⟩
      | some b => ⟨.ok b, w, []⟩⟩

def store (p : Ptr) (b : B) : C B O PUnit :=
  ⟨fun w =>
    match p with
    | none => ⟨.error .null, w, []⟩
    | some a =>
      match w.heap.write a b with
      | none => ⟨.error (.invalid a), w, []⟩
      | some h => ⟨.ok PUnit.unit, { w with heap := h }, []⟩⟩

/-- An allocation that succeeds. -/
def malloc (b : B) : C B O Ptr :=
  ⟨fun w => ⟨.ok (some w.heap.next), { w with heap := w.heap.alloc b }, []⟩⟩

/-- `free(NULL)` does nothing. -/
def free (p : Ptr) : C B O PUnit :=
  ⟨fun w =>
    match p with
    | none => ⟨.ok PUnit.unit, w, []⟩
    | some a =>
      match w.heap.free a with
      | none => ⟨.error (.invalid a), w, []⟩
      | some h => ⟨.ok PUnit.unit, { w with heap := h }, []⟩⟩

def openAt (n : ℕ) (o : O) : C B O PUnit :=
  ⟨fun w => ⟨.ok PUnit.unit, { w with fds := w.fds.openAt n o }, []⟩⟩

def close (n : ℕ) : C B O PUnit :=
  ⟨fun w => ⟨.ok PUnit.unit, { w with fds := w.fds.close n }, []⟩⟩

end C

/-- The memory is made of the given cells, the addresses of `dead` were given out and
released, and the descriptors are `d`. -/
structure Resources.Is {B O : Type} (cells : Multiset (ℕ × B)) (dead : List ℕ) (d : Descriptors O)
    (w : Resources B O) : Prop where
  holds : w.heap.Holds cells
  dead : ∀ a ∈ dead, a < w.heap.next ∧ w.heap.block a = none
  fds : w.fds = d

namespace Resources.Is

variable {B O : Type} {rest : Multiset (ℕ × B)} {dead : List ℕ} {d : Descriptors O} {w : Resources B O}
  {a : ℕ} {b : B}

/-- The cells may be told in another order, and fewer of the dead addresses. -/
theorem weaken {cells : Multiset (ℕ × B)} {dead' : List ℕ} (h : w.Is rest dead d)
    (hcells : rest = cells) (hdead : dead' ⊆ dead) : w.Is cells dead' d where
  holds := hcells ▸ h.holds
  dead := fun a ha => h.dead a (hdead ha)
  fds := h.fds

theorem cells_eq {cells : Multiset (ℕ × B)} (h : w.Is rest dead d) (hcells : rest = cells) :
    w.Is cells dead d :=
  h.weaken hcells (List.Subset.refl dead)

theorem block_dead (h : w.Is rest dead d) (ha : a ∈ dead) : w.heap.block a = none :=
  (h.dead a ha).2

theorem alloc (h : w.Is rest dead d) (b : B) :
    Resources.Is ({(w.heap.next, b)} + rest) dead d { w with heap := w.heap.alloc b } where
  holds := h.holds.alloc b
  dead := by
    intro a ha
    obtain ⟨hlt, hnone⟩ := h.dead a ha
    have hne : a ≠ w.heap.next := by omega
    exact ⟨Nat.lt_succ_of_lt hlt, (if_neg hne).trans hnone⟩
  fds := h.fds

theorem write (h : w.Is ({(a, b)} + rest) dead d) (c : B) :
    ∃ k, w.heap.write a c = some k ∧ Resources.Is ({(a, c)} + rest) dead d { w with heap := k } := by
  obtain ⟨k, hk, hholds⟩ := h.holds.write c
  refine ⟨k, hk, hholds, ?_, h.fds⟩
  intro x hx
  obtain ⟨hlt, hnone⟩ := h.dead x hx
  obtain ⟨hin, rfl⟩ : ∃ hin : a < w.heap.next ∧ (w.heap.block a).isSome,
      k = w.heap.update a (some c) hin.1 := by
    unfold Heap.write at hk
    split at hk
    next hin => exact ⟨hin, (Option.some.inj hk).symm⟩
    next => cases hk
  have hne : x ≠ a := by
    intro hxa
    have hsome := hin.2
    rw [← hxa, hnone] at hsome
    cases hsome
  exact ⟨hlt, (if_neg hne).trans hnone⟩

theorem free (h : w.Is ({(a, b)} + rest) dead d) :
    ∃ k, w.heap.free a = some k ∧ Resources.Is rest (a :: dead) d { w with heap := k } := by
  obtain ⟨k, hk, hholds⟩ := h.holds.free
  refine ⟨k, hk, hholds, ?_, h.fds⟩
  obtain ⟨hin, rfl⟩ : ∃ hin : a < w.heap.next ∧ (w.heap.block a).isSome,
      k = w.heap.update a none hin.1 := by
    unfold Heap.free at hk
    split at hk
    next hin => exact ⟨hin, (Option.some.inj hk).symm⟩
    next => cases hk
  intro x hx
  by_cases hxa : x = a
  · rw [hxa]
    exact ⟨hin.1, if_pos rfl⟩
  · have hdead : x ∈ dead := (List.mem_cons.mp hx).resolve_left hxa
    obtain ⟨hlt, hnone⟩ := h.dead x hdead
    exact ⟨hlt, (if_neg hxa).trans hnone⟩

end Resources.Is

namespace C

variable {B O : Type} {rest : Multiset (ℕ × B)} {dead : List ℕ} {d : Descriptors O} {a n : ℕ} {b : B}

theorem load_meets : Meets (Resources.Is ({(a, b)} + rest) dead d) (load (some a))
    fun x w => x = b ∧ w.Is ({(a, b)} + rest) dead d := by
  intro w hw
  refine ⟨b, w, [], ?_, rfl, hw⟩
  simp only [Returns, load, hw.holds.read]

theorem store_meets (c : B) : Meets (Resources.Is ({(a, b)} + rest) dead d) (store (some a) c)
    fun _ => Resources.Is ({(a, c)} + rest) dead d := by
  intro w hw
  obtain ⟨k, hk, hw'⟩ := hw.write c
  refine ⟨PUnit.unit, { w with heap := k }, [], ?_, hw'⟩
  simp only [Returns, store, hk]

theorem malloc_meets (b : B) : Meets (Resources.Is rest dead d) (malloc b)
    fun p w => ∃ a, p = some a ∧ w.Is ({(a, b)} + rest) dead d :=
  fun w hw => ⟨_, _, [], rfl, w.heap.next, rfl, hw.alloc b⟩

theorem free_meets : Meets (Resources.Is ({(a, b)} + rest) dead d) (free (some a))
    fun _ => Resources.Is rest (a :: dead) d := by
  intro w hw
  obtain ⟨k, hk, hw'⟩ := hw.free
  refine ⟨PUnit.unit, { w with heap := k }, [], ?_, hw'⟩
  simp only [Returns, free, hk]

theorem openAt_meets (o : O) : Meets (Resources.Is rest dead d) (openAt n o)
    fun _ => Resources.Is rest dead (d.openAt n o) :=
  fun _ hw => ⟨_, _, [], rfl, hw.holds, hw.dead, congrArg (·.openAt n o) hw.fds⟩

theorem close_meets : Meets (Resources.Is rest dead d) (close n)
    fun _ => Resources.Is rest dead (d.close n) :=
  fun _ hw => ⟨_, _, [], rfl, hw.holds, hw.dead, congrArg (·.close n) hw.fds⟩

theorem load_null_breaks {P : Resources B O → Prop} : Breaks P (load none) .null :=
  fun w _ => ⟨w, [], rfl⟩

/-- There is no way back to a block that was released. -/
theorem load_dead_breaks (ha : a ∈ dead) :
    Breaks (Resources.Is rest dead d) (load (some a)) (.invalid a) := by
  intro w hw
  refine ⟨w, [], ?_⟩
  simp only [load, hw.block_dead ha]

end C
end Memory
