import Mathlib

/-! Items whose reading may fail: all of them, or a scan through sorted items that keeps the
best candidate so far. -/
namespace Search

variable {α β κ E : Type}

/-- Every item can be read. -/
theorem mapM_ok {read : α → Except E β} {value : α → β} {items : List α}
    (h : ∀ a ∈ items, read a = .ok (value a)) : items.mapM read = .ok (items.map value) := by
  induction items with
  | nil => rfl
  | cons a items ih =>
    rw [List.mapM_cons, h a List.mem_cons_self, ih fun b hb => h b (List.mem_cons_of_mem a hb)]
    rfl

/-- One item that cannot be read is enough. -/
theorem mapM_error {read : α → Except E β} {items : List α} (h : ∃ a ∈ items, ∃ e, read a = .error e) :
    ∃ e, items.mapM read = .error e := by
  induction items with
  | nil => simp at h
  | cons a items ih =>
    rw [List.mapM_cons]
    cases hread : read a with
    | error e => exact ⟨e, rfl⟩
    | ok b =>
      have hrest : ∃ c ∈ items, ∃ e, read c = .error e := by
        obtain ⟨c, hc, e, he⟩ := h
        rcases List.mem_cons.mp hc with heq | hc
        · rw [heq, hread] at he
          cases he
        · exact ⟨c, hc, e, he⟩
      obtain ⟨e, he⟩ := ih hrest
      rw [he]
      exact ⟨e, rfl⟩

theorem mem_of_mapM {read : α → Except E β} {items : List α} {values : List β}
    (h : items.mapM read = .ok values) : ∀ b ∈ values, ∃ a ∈ items, read a = .ok b := by
  induction items generalizing values with
  | nil =>
    have heq : [] = values := by simpa [pure, Except.pure] using h
    simp [← heq]
  | cons a items ih =>
    rw [List.mapM_cons] at h
    cases hread : read a with
    | error e =>
      rw [hread] at h
      cases h
    | ok c =>
      rw [hread] at h
      cases hrest : items.mapM read with
      | error e =>
        rw [hrest] at h
        cases h
      | ok rest =>
        rw [hrest] at h
        have heq : c :: rest = values := Except.ok.inj h
        intro b hb
        rw [← heq] at hb
        rcases List.mem_cons.mp hb with hb | hb
        · exact ⟨a, List.mem_cons_self, hb ▸ hread⟩
        · obtain ⟨a', ha', hread'⟩ := ih hrest b hb
          exact ⟨a', List.mem_cons_of_mem a ha', hread'⟩

/-- One item against the best candidate so far. -/
def offer (read : α → Except E (Option β)) (newer : β → β → Bool) (best : Option β) (a : α) :
    Except E (Option β) :=
  match read a with
  | .error e => .error e
  | .ok none => .ok best
  | .ok (some c) =>
    match best with
    | none => .ok (some c)
    | some b => .ok (some (if newer c b then c else b))

def scan (read : α → Except E (Option β)) (newer : β → β → Bool) (items : List α) :
    Except E (Option β) :=
  items.foldlM (offer read newer) none

variable {read : α → Except E (Option β)} {newer : β → β → Bool} {items : List α}

theorem scan_concat (items : List α) (a : α) :
    scan read newer (items ++ [a]) = (scan read newer items).bind fun best => offer read newer best a := by
  unfold scan
  rw [List.foldlM_append]
  cases items.foldlM (offer read newer) none with
  | error e => rfl
  | ok best =>
    change (offer read newer best a).bind pure = offer read newer best a
    cases offer read newer best a <;> rfl

/-- A scan that comes to its end could read every item. -/
theorem readable_of_scan {best : Option β} (h : scan read newer items = .ok best) :
    ∀ a ∈ items, ∃ c, read a = .ok c := by
  induction items using List.reverseRecOn generalizing best with
  | nil => simp
  | append_singleton items a ih =>
    rw [scan_concat] at h
    cases hscan : scan read newer items with
    | error e =>
      rw [hscan] at h
      cases h
    | ok best₀ =>
      rw [hscan] at h
      intro x hx
      rcases List.mem_append.mp hx with hx | hx
      · exact ih hscan x hx
      · rw [List.mem_singleton.mp hx]
        cases hread : read a with
        | error e =>
          have hoffer : offer read newer best₀ a = .ok best := h
          simp [offer, hread] at hoffer
        | ok c => exact ⟨c, rfl⟩

variable [LinearOrder α] [LinearOrder κ] {key : β → κ}

/-- The best candidate has the greatest key and comes from the least item with that key. -/
def Best (read : α → Except E (Option β)) (key : β → κ) (items : List α) : Option β → Prop
  | none => ∀ a ∈ items, read a = .ok none
  | some b => ∃ a ∈ items, read a = .ok (some b) ∧
      ∀ x ∈ items, ∀ c, read x = .ok (some c) → key c < key b ∨ key c = key b ∧ a ≤ x

/-- `newer` goes by the key. -/
def Ranks (read : α → Except E (Option β)) (newer : β → β → Bool) (key : β → κ) : Prop :=
  ∀ a x b c, read a = .ok (some b) → read x = .ok (some c) → (newer c b = true ↔ key b < key c)

/-- One more item, none of the earlier ones being greater. -/
theorem best_offer (hranks : Ranks read newer key) {best best' : Option β} {a : α}
    (hbest : Best read key items best) (hlast : ∀ x ∈ items, x ≤ a)
    (h : offer read newer best a = .ok best') : Best read key (items ++ [a]) best' := by
  have hmem : ∀ x ∈ items ++ [a], x ∈ items ∨ x = a := by simp
  unfold offer at h
  cases hread : read a with
  | error e => simp [hread] at h
  | ok c =>
    cases c with
    | none =>
      have heq : best = best' := by simpa [hread] using h
      subst heq
      cases best with
      | none =>
        intro x hx
        rcases hmem x hx with hx | hx
        · exact hbest x hx
        · rw [hx, hread]
      | some b =>
        obtain ⟨y, hy, hb, hgreatest⟩ := hbest
        refine ⟨y, List.mem_append_left [a] hy, hb, ?_⟩
        intro x hx d hd
        rcases hmem x hx with hx | hx
        · exact hgreatest x hx d hd
        · rw [hx, hread] at hd
          cases hd
    | some c =>
      have hself : ∀ x, x = a → ∀ d, read x = .ok (some d) → d = c := by
        intro x hx d hd
        rw [hx, hread] at hd
        simpa using hd.symm
      cases best with
      | none =>
        have heq : some c = best' := by simpa [hread] using h
        subst heq
        refine ⟨a, by simp, hread, ?_⟩
        intro x hx d hd
        rcases hmem x hx with hx | hx
        · have hnone : read x = .ok none := hbest x hx
          rw [hnone] at hd
          cases hd
        · right
          rw [hself x hx d hd, hx]
          exact ⟨rfl, le_rfl⟩
      | some b =>
        obtain ⟨y, hy, hb, hgreatest⟩ := hbest
        have hnewer := hranks y a b c hb hread
        have heq : some (if newer c b then c else b) = best' := by simpa [hread] using h
        subst heq
        by_cases hlt : key b < key c
        · rw [if_pos (hnewer.mpr hlt)]
          refine ⟨a, by simp, hread, ?_⟩
          intro x hx d hd
          rcases hmem x hx with hx | hx
          · left
            rcases hgreatest x hx d hd with h | ⟨h, -⟩
            · exact lt_trans h hlt
            · rw [h]
              exact hlt
          · right
            rw [hself x hx d hd, hx]
            exact ⟨rfl, le_rfl⟩
        · rw [if_neg fun hn => hlt (hnewer.mp hn)]
          refine ⟨y, List.mem_append_left [a] hy, hb, ?_⟩
          intro x hx d hd
          rcases hmem x hx with hx | hx
          · exact hgreatest x hx d hd
          · rw [hself x hx d hd, hx]
            rcases lt_or_eq_of_le (not_lt.mp hlt) with h | h
            · exact Or.inl h
            · exact Or.inr ⟨h, hlast y hy⟩

/-- A scan that comes to its end keeps the best item. -/
theorem best_of_scan (hranks : Ranks read newer key) (hsorted : items.Pairwise (· ≤ ·))
    {best : Option β} (h : scan read newer items = .ok best) : Best read key items best := by
  induction items using List.reverseRecOn generalizing best with
  | nil =>
    have heq : none = best := by simpa [scan, pure, Except.pure] using h
    subst heq
    simp [Best]
  | append_singleton items a ih =>
    obtain ⟨hsorted, _, hlast⟩ := List.pairwise_append.mp hsorted
    rw [scan_concat] at h
    cases hscan : scan read newer items with
    | error e =>
      rw [hscan] at h
      cases h
    | ok best₀ =>
      rw [hscan] at h
      exact best_offer hranks (ih hsorted hscan) (fun x hx => hlast x hx a (by simp)) h

/-- A scan fails with the error of the least item that cannot be read. -/
theorem error_of_scan (hsorted : items.Pairwise (· ≤ ·)) {e : E} (h : scan read newer items = .error e) :
    ∃ a ∈ items, read a = .error e ∧ ∀ x ∈ items, x < a → ∃ c, read x = .ok c := by
  induction items using List.reverseRecOn with
  | nil => simp [scan, pure, Except.pure] at h
  | append_singleton items a ih =>
    obtain ⟨hsorted, _, hlast⟩ := List.pairwise_append.mp hsorted
    rw [scan_concat] at h
    cases hscan : scan read newer items with
    | error e' =>
      have heq : e' = e := by simpa [hscan, Except.bind] using h
      obtain ⟨y, hy, hread, hbefore⟩ := ih hsorted (heq ▸ hscan)
      refine ⟨y, List.mem_append_left [a] hy, hread, ?_⟩
      intro x hx hlt
      rcases List.mem_append.mp hx with hx | hx
      · exact hbefore x hx hlt
      · rw [List.mem_singleton.mp hx] at hlt
        exact absurd hlt (not_lt.mpr (hlast y hy a (by simp)))
    | ok best =>
      have hoffer : offer read newer best a = .error e := by simpa [hscan, Except.bind] using h
      refine ⟨a, by simp, ?_, ?_⟩
      · cases hread : read a with
        | error e' => simpa [offer, hread] using hoffer
        | ok c =>
          exfalso
          unfold offer at hoffer
          cases c <;> cases best <;> simp [hread] at hoffer
      · intro x hx hlt
        rcases List.mem_append.mp hx with hx | hx
        · exact readable_of_scan hscan x hx
        · rw [List.mem_singleton.mp hx] at hlt
          exact absurd hlt (lt_irrefl a)

/-- There is only one best candidate. -/
theorem Best.unique {best best' : Option β} (h : Best read key items best)
    (h' : Best read key items best') : best = best' := by
  cases best with
  | none =>
    cases best' with
    | none => rfl
    | some b =>
      obtain ⟨a, ha, hread, _⟩ := h'
      have hnone := h a ha
      rw [hread] at hnone
      cases hnone
  | some b =>
    obtain ⟨a, ha, hread, hgreatest⟩ := h
    cases best' with
    | none =>
      have hnone := h' a ha
      rw [hread] at hnone
      cases hnone
    | some b' =>
      obtain ⟨a', ha', hread', hgreatest'⟩ := h'
      have heq : a = a' := by
        rcases hgreatest a' ha' b' hread' with hlt | ⟨heq, hle⟩
        · rcases hgreatest' a ha b hread with hlt' | ⟨heq', _⟩
          · exact absurd hlt' (lt_asymm hlt)
          · exact absurd hlt (heq' ▸ lt_irrefl _)
        · rcases hgreatest' a ha b hread with hlt' | ⟨_, hle'⟩
          · exact absurd hlt' (heq ▸ lt_irrefl _)
          · exact le_antisymm hle hle'
      rw [heq, hread'] at hread
      exact (Except.ok.inj hread).symm

theorem Best.congr {items' : List α} (hmem : ∀ a, a ∈ items ↔ a ∈ items') {best : Option β}
    (h : Best read key items best) : Best read key items' best := by
  cases best with
  | none =>
    intro a ha
    exact h a ((hmem a).mpr ha)
  | some b =>
    obtain ⟨a, ha, hread, hgreatest⟩ := h
    exact ⟨a, (hmem a).mp ha, hread, fun x hx => hgreatest x ((hmem x).mpr hx)⟩

/-- What a scan comes to depends on the items, and not on how often each of them is there. -/
theorem scan_congr (hranks : Ranks read newer key) {items' : List α} (hsorted : items.Pairwise (· ≤ ·))
    (hsorted' : items'.Pairwise (· ≤ ·)) (hmem : ∀ a, a ∈ items ↔ a ∈ items') :
    scan read newer items = scan read newer items' := by
  cases h : scan read newer items with
  | error e =>
    obtain ⟨a, ha, hread, hbefore⟩ := error_of_scan hsorted h
    cases h' : scan read newer items' with
    | error e' =>
      obtain ⟨a', ha', hread', hbefore'⟩ := error_of_scan hsorted' h'
      have heq : a = a' := by
        rcases lt_trichotomy a a' with hlt | heq | hlt
        · obtain ⟨c, hc⟩ := hbefore' a ((hmem a).mp ha) hlt
          rw [hread] at hc
          cases hc
        · exact heq
        · obtain ⟨c, hc⟩ := hbefore a' ((hmem a').mpr ha') hlt
          rw [hread'] at hc
          cases hc
      rw [heq, hread'] at hread
      exact hread.symm
    | ok best' =>
      obtain ⟨c, hc⟩ := readable_of_scan h' a ((hmem a).mp ha)
      rw [hread] at hc
      cases hc
  | ok best =>
    cases h' : scan read newer items' with
    | error e' =>
      obtain ⟨a', ha', hread', _⟩ := error_of_scan hsorted' h'
      obtain ⟨c, hc⟩ := readable_of_scan h a' ((hmem a').mpr ha')
      rw [hread'] at hc
      cases hc
    | ok best' =>
      have hbest := (best_of_scan hranks hsorted h).congr hmem
      rw [hbest.unique (best_of_scan hranks hsorted' h')]

end Search
