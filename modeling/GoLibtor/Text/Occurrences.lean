import GoLibtor.Text.Language

/-! Searches for all matches of a pattern. Where no two of its matches can overlap, the search from
left to right loses none of them. -/
namespace Text

/-- A maximal run can be told from what follows it. -/
theorem run_unique {p : Char → Bool} {a a' b b' : Str} (ha : ∀ c ∈ a, p c = true)
    (ha' : ∀ c ∈ a', p c = true) (hb : ∀ c, b.head? = some c → p c = false)
    (hb' : ∀ c, b'.head? = some c → p c = false) (h : a ++ b = a' ++ b') : a = a' ∧ b = b' := by
  have hstop : ∀ {a b : Str}, (∀ c ∈ a, p c = true) → (∀ c, b.head? = some c → p c = false) →
      (a ++ b).takeWhile p = a := by
    intro a b ha hb
    rw [List.takeWhile_append_of_pos ha]
    cases b with
    | nil => simp
    | cons c b => rw [List.takeWhile_cons_of_neg (by simp [hb c rfl]), List.append_nil]
  have heq : a = a' := by
    rw [← hstop ha hb, h, hstop ha' hb']
  subst heq
  exact ⟨rfl, List.append_cancel_left h⟩

/-- No nonempty end of a text, followed by the rest, has a property. -/
def Quiet (P : Str → Prop) (taken rest : Str) : Prop :=
  ∀ v s, taken = v ++ s → s ≠ [] → ¬ P (s ++ rest)

theorem quiet_append {P : Str → Prop} {a b rest : Str} (ha : Quiet P a (b ++ rest))
    (hb : Quiet P b rest) : Quiet P (a ++ b) rest := by
  intro v s hsplit hne hP
  rcases List.append_eq_append_iff.mp hsplit with ⟨u, hv, hs⟩ | ⟨u, hv, hs⟩
  · exact hb u s hs hne hP
  · cases u with
    | nil => exact hb [] s (by simpa using hs.symm) hne hP
    | cons c u =>
      rw [hs, List.append_assoc] at hP
      exact ha v (c :: u) hv (List.cons_ne_nil c u) hP

namespace Regexp

variable {A : Type} {r : Regexp} {value : Place → A} {Occ : Str → A → Str → Prop}

/-- What a pattern finds at the beginning of a text, whatever comes before it: the value of the match,
and what it leaves. No match begins inside another one. -/
structure Finds (r : Regexp) (value : Place → A) (Occ : Str → A → Str → Prop) : Prop where
  sound : ∀ {prev rest t}, t ∈ r.ends ⟨prev, rest, []⟩ → Occ rest (value t) t.rest
  complete : ∀ {rest a rest'} (prev), Occ rest a rest' → ∃ t, t ∈ r.ends ⟨prev, rest, []⟩
  unique : ∀ {rest a b u v}, Occ rest a u → Occ rest b v → a = b
  takes : ∀ {rest a rest'}, Occ rest a rest' → ∃ taken, taken ≠ [] ∧ rest = taken ++ rest'
  apart : ∀ {rest a rest' v s b u}, Occ rest a rest' → rest = v ++ s → v ≠ [] →
    rest'.length < s.length → ¬ Occ s b u

/-- The search finds what stands anywhere in the text. -/
theorem Finds.mem_findAll (h : Finds r value Occ) {prev : Option Char} {text : Str} {a : A} :
    a ∈ (r.findAll prev text).map value ↔ ∃ pre s rest, text = pre ++ s ∧ Occ s a rest := by
  induction hlength : text.length using Nat.strong_induction_on generalizing prev text with
  | _ n ih =>
    subst hlength
    cases hhere : r.matchHere ⟨prev, text, []⟩ with
    | none =>
      have hnot : ∀ a rest, ¬ Occ text a rest := by
        intro a rest hocc
        obtain ⟨t, ht⟩ := h.complete prev hocc
        exact matchHere_eq_none.mp hhere t ht
      cases text with
      | nil =>
        rw [findAll_nil]
        constructor
        · intro hmem
          cases hmem
        · intro ⟨pre, s, rest, hsplit, hocc⟩
          obtain ⟨-, hs⟩ := List.append_eq_nil_iff.mp hsplit.symm
          subst hs
          exact absurd hocc (hnot a rest)
      | cons c cs =>
        rw [findAll_advance hhere, ih cs.length (by simp) rfl]
        constructor
        · intro ⟨pre, s, rest, hsplit, hocc⟩
          exact ⟨c :: pre, s, rest, by rw [hsplit, List.cons_append], hocc⟩
        · intro ⟨pre, s, rest, hsplit, hocc⟩
          cases pre with
          | nil =>
            rw [List.nil_append] at hsplit
            subst hsplit
            exact absurd hocc (hnot a rest)
          | cons d pre => exact ⟨pre, s, rest, (List.cons.inj hsplit).2, hocc⟩
    | some t =>
      have hocc : Occ text (value t) t.rest := h.sound (mem_of_matchHere hhere)
      obtain ⟨taken, htaken, htext⟩ := h.takes hocc
      have hlt : t.rest.length < text.length := by
        have hpos := List.length_pos_iff.mpr htaken
        have htotal := congrArg List.length htext
        rw [List.length_append] at htotal
        omega
      rw [findAll_match hhere hlt, List.map_cons, List.mem_cons, ih t.rest.length hlt rfl]
      constructor
      · intro hmem
        rcases hmem with heq | ⟨pre, s, rest, hsplit, hocc'⟩
        · exact ⟨[], text, t.rest, rfl, heq ▸ hocc⟩
        · exact ⟨taken ++ pre, s, rest, by rw [htext, hsplit, List.append_assoc], hocc'⟩
      · intro ⟨pre, s, rest, hsplit, hocc'⟩
        by_cases hpre : pre = []
        · subst hpre
          rw [List.nil_append] at hsplit
          subst hsplit
          exact Or.inl (h.unique hocc' hocc)
        · -- What begins behind the match lies in what the match leaves.
          have hle : s.length ≤ t.rest.length := by
            by_contra hlonger
            exact h.apart hocc hsplit hpre (by omega) hocc'
          right
          rw [htext] at hsplit
          rcases List.append_eq_append_iff.mp hsplit with ⟨u, -, hrest⟩ | ⟨u, -, hs⟩
          · exact ⟨u, s, rest, hrest, hocc'⟩
          · have hu : u = [] := by
              have htotal := congrArg List.length hs
              rw [List.length_append] at htotal
              exact List.length_eq_zero_iff.mp (by omega)
            subst hu
            exact ⟨[], s, rest, hs.symm, hocc'⟩

end Regexp

end Text
