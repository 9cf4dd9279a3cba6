import Mathlib.Algebra.Order.Group.Multiset
import Mathlib.Data.Multiset.Range

/-! A heap of blocks whose addresses are never given out twice, and the rules of exact
ownership: which blocks there are before and after an allocation, a write and a release. -/
namespace Memory

/-- `next` is the first address that was never given out. -/
structure Heap (B : Type*) where
  block : ℕ → Option B
  next : ℕ
  unborn : ∀ a, next ≤ a → block a = none

namespace Heap

variable {B : Type*}

def empty : Heap B := ⟨fun _ => none, 0, fun _ _ => rfl⟩

/-- What `block` becomes at one address that was given out before. -/
def update (h : Heap B) (a : ℕ) (x : Option B) (ha : a < h.next) : Heap B where
  block := fun c => if c = a then x else h.block c
  next := h.next
  unborn := by
    intro c hc
    have hne : c ≠ a := by omega
    rw [if_neg hne]
    exact h.unborn c hc

def alloc (h : Heap B) (b : B) : Heap B where
  block := fun c => if c = h.next then some b else h.block c
  next := h.next + 1
  unborn := by
    intro c hc
    have hne : c ≠ h.next := by omega
    rw [if_neg hne]
    exact h.unborn c (by omega)

theorem lt_next {h : Heap B} {a : ℕ} {b : B} (hb : h.block a = some b) : a < h.next := by
  by_contra hge
  rw [h.unborn a (by omega)] at hb
  cases hb

/-- A write goes to a block that is there. -/
def write (h : Heap B) (a : ℕ) (b : B) : Option (Heap B) :=
  if ha : a < h.next ∧ (h.block a).isSome then some (h.update a (some b) ha.1) else none

/-- Only a block that is there can be released. -/
def free (h : Heap B) (a : ℕ) : Option (Heap B) :=
  if ha : a < h.next ∧ (h.block a).isSome then some (h.update a none ha.1) else none

/-- The number of blocks that are there. -/
def live (h : Heap B) : ℕ := (Multiset.range h.next).countP fun a => (h.block a).isSome

/-- The heap is made of these blocks, each at its address, and of nothing else. -/
structure Holds (h : Heap B) (cells : Multiset (ℕ × B)) : Prop where
  nodup : (cells.map Prod.fst).Nodup
  block_iff : ∀ a b, h.block a = some b ↔ (a, b) ∈ cells

theorem holds_empty : (empty : Heap B).Holds 0 where
  nodup := Multiset.nodup_zero
  block_iff := by simp [empty]

namespace Holds

variable {h : Heap B} {rest : Multiset (ℕ × B)} {a : ℕ} {b : B}

theorem read (hh : h.Holds ({(a, b)} + rest)) : h.block a = some b :=
  (hh.block_iff a b).mpr (Multiset.mem_add.mpr (Or.inl (Multiset.mem_singleton_self _)))

theorem notMem_rest (hh : h.Holds ({(a, b)} + rest)) (c : B) : (a, c) ∉ rest := by
  have hnodup := hh.nodup
  rw [Multiset.map_add, Multiset.map_singleton, Multiset.singleton_add, Multiset.nodup_cons]
    at hnodup
  intro hc
  exact hnodup.1 (Multiset.mem_map.mpr ⟨(a, c), hc, rfl⟩)

theorem isSome_iff (hh : h.Holds rest) : (h.block a).isSome ↔ a ∈ rest.map Prod.fst := by
  rw [Option.isSome_iff_exists, Multiset.mem_map]
  constructor
  · intro ⟨c, hc⟩
    exact ⟨(a, c), (hh.block_iff a c).mp hc, rfl⟩
  · intro ⟨⟨a', c⟩, hc, ha⟩
    have ha' : a' = a := ha
    exact ⟨c, (hh.block_iff a c).mpr (ha' ▸ hc)⟩

theorem alloc (hh : h.Holds rest) (b : B) : (h.alloc b).Holds ({(h.next, b)} + rest) where
  nodup := by
    rw [Multiset.map_add, Multiset.map_singleton, Multiset.singleton_add, Multiset.nodup_cons]
    refine ⟨?_, hh.nodup⟩
    intro hmem
    have hsome := hh.isSome_iff.mpr hmem
    rw [h.unborn h.next le_rfl] at hsome
    cases hsome
  block_iff := by
    intro c d
    rw [Multiset.mem_add, Multiset.mem_singleton, ← hh.block_iff, Prod.mk.injEq]
    change (if c = h.next then some b else h.block c) = some d ↔ _
    by_cases hc : c = h.next
    · rw [if_pos hc, hc, h.unborn h.next le_rfl]
      simp [eq_comm]
    · simp [hc]

/-- What becomes of the cells when the block at one address does. -/
theorem update {x : Option B} (hh : h.Holds ({(a, b)} + rest)) (ha : a < h.next) :
    (h.update a x ha).Holds (x.elim 0 (fun c => {(a, c)}) + rest) where
  nodup := by
    have hnodup := hh.nodup
    cases x with
    | none =>
      rw [Multiset.map_add] at hnodup
      rw [Option.elim_none, zero_add]
      exact (Multiset.nodup_add.mp hnodup).2.1
    | some c => simpa using hnodup
  block_iff := by
    intro c d
    have hrest : c ≠ a → (h.block c = some d ↔ (c, d) ∈ rest) := by
      intro hc
      rw [hh.block_iff, Multiset.mem_add, Multiset.mem_singleton, Prod.mk.injEq]
      simp [hc]
    change (if c = a then x else h.block c) = some d ↔ _
    by_cases hc : c = a
    · have hno := hh.notMem_rest d
      rw [if_pos hc, hc]
      cases x with
      | none => simp [hno]
      | some e => simp [hno, eq_comm]
    · rw [if_neg hc, hrest hc]
      cases x with
      | none => simp
      | some e => simp [hc]

theorem write (hh : h.Holds ({(a, b)} + rest)) (c : B) :
    ∃ k, h.write a c = some k ∧ k.Holds ({(a, c)} + rest) := by
  have hread := hh.read
  have hlt : a < h.next ∧ (h.block a).isSome := ⟨lt_next hread, by rw [hread]; rfl⟩
  exact ⟨_, dif_pos hlt, hh.update hlt.1⟩

theorem free (hh : h.Holds ({(a, b)} + rest)) : ∃ k, h.free a = some k ∧ k.Holds rest := by
  have hread := hh.read
  have hlt : a < h.next ∧ (h.block a).isSome := ⟨lt_next hread, by rw [hread]; rfl⟩
  refine ⟨_, dif_pos hlt, ?_⟩
  have hupdate := hh.update (x := none) hlt.1
  rwa [Option.elim_none, zero_add] at hupdate

/-- The cells are counted by the blocks that are there. -/
theorem live_eq (hh : h.Holds rest) : h.live = rest.card := by
  have hmem : ∀ c, c ∈ (Multiset.range h.next).filter (fun c => (h.block c).isSome) ↔
      c ∈ rest.map Prod.fst := by
    intro c
    rw [Multiset.mem_filter, Multiset.mem_range, ← hh.isSome_iff]
    constructor
    · intro hc
      exact hc.2
    · intro hc
      obtain ⟨d, hd⟩ := Option.isSome_iff_exists.mp hc
      exact ⟨lt_next hd, hc⟩
  have heq : (Multiset.range h.next).filter (fun c => (h.block c).isSome) = rest.map Prod.fst :=
    (Multiset.Nodup.ext ((Multiset.nodup_range _).filter _) hh.nodup).mpr hmem
  rw [live, Multiset.countP_eq_card_filter, heq, Multiset.card_map]

theorem block_eq_none (hh : h.Holds 0) (c : ℕ) : h.block c = none := by
  cases hc : h.block c with
  | none => rfl
  | some d => exact absurd ((hh.block_iff c d).mp hc) (Multiset.notMem_zero _)

end Holds
end Heap
end Memory
