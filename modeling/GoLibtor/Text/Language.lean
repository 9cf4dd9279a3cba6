import GoLibtor.Text.Regexp

/-! The texts that a pattern takes in. Where only the fact of a match counts, and not which of
several is preferred, a pattern can be read as a language. -/
namespace Text

open Computability

/-- The place after a part of the text that ends before `rest`. -/
def Place.after (s : Place) (taken rest : Str) : Place := ⟨taken.getLast?.or s.prev, rest, s.groups⟩

theorem Place.after_after (s : Place) (u v rest rest' : Str) :
    (s.after u rest).after v rest' = s.after (u ++ v) rest' := by
  unfold Place.after
  rw [List.getLast?_append]
  cases v.getLast? <;> rfl

theorem Place.after_nil {s : Place} {rest : Str} (h : s.rest = rest) : s.after [] rest = s := by
  subst h
  rfl

namespace Regexp

/-- Patterns without groups that look at nothing but the characters they take. -/
def Plain : Regexp → Prop
  | .empty => True
  | .set _ => True
  | .seq a b => a.Plain ∧ b.Plain
  | .alt a b => a.Plain ∧ b.Plain
  | .star a => a.Plain
  | _ => False

def language : Regexp → Language Char
  | .set p => {w | ∃ c, p c = true ∧ w = [c]}
  | .seq a b => a.language * b.language
  | .alt a b => a.language + b.language
  | .star a => a.language∗
  | .group _ a => a.language
  | _ => 1

/-- What the iteration of a pattern takes, each time at least one character. -/
theorem mem_iterate {f : Place → List Place} {L : Language Char}
    (hf : ∀ s t, t ∈ f s ↔ ∃ w ∈ L, ∃ rest, s.rest = w ++ rest ∧ t = s.after w rest) {n : ℕ}
    {s t : Place} (hn : s.rest.length ≤ n) :
    t ∈ iterate f n s ↔ ∃ w ∈ L∗, ∃ rest, s.rest = w ++ rest ∧ t = s.after w rest := by
  induction n generalizing s with
  | zero =>
    have hempty : s.rest = [] := List.length_eq_zero_iff.mp (by omega)
    rw [iterate, List.mem_singleton]
    constructor
    · intro h
      subst h
      exact ⟨[], Language.nil_mem_kstar L, t.rest, rfl, rfl⟩
    · rintro ⟨w, _, rest, hsplit, ht⟩
      obtain ⟨hw, hrest⟩ : w = [] ∧ rest = [] := by
        rw [hempty] at hsplit
        simpa using hsplit.symm
      rw [ht, hw, hrest, Place.after_nil hempty]
  | succ n ih =>
    rw [iterate, List.mem_append, List.mem_flatMap, List.mem_singleton]
    constructor
    · intro h
      rcases h with ⟨u, hu, ht⟩ | ht
      · obtain ⟨hfu, hshort⟩ := List.mem_filter.mp hu
        have hlt : u.rest.length < s.rest.length := by simpa using hshort
        obtain ⟨v, hv, rest, hsplit, hu⟩ := (hf s u).mp hfu
        have hrest : u.rest = rest := by rw [hu]; rfl
        obtain ⟨w, hw, rest', hsplit', ht⟩ := (ih (s := u) (by omega)).mp ht
        refine ⟨v ++ w, ?_, rest', ?_, ?_⟩
        · rw [← Language.one_add_self_mul_kstar_eq_kstar]
          exact Or.inr (Language.append_mem_mul hv hw)
        · rw [hsplit, ← hrest, hsplit', List.append_assoc]
        · rw [ht, hu, Place.after_after]
      · subst ht
        exact ⟨[], Language.nil_mem_kstar L, t.rest, rfl, rfl⟩
    · rintro ⟨w, hw, rest, hsplit, ht⟩
      rw [Language.kstar_def_nonempty] at hw
      obtain ⟨parts, hflat, hparts⟩ := hw
      cases parts with
      | nil =>
        have hw : w = [] := hflat
        right
        rw [ht, hw]
        exact Place.after_nil (by simpa [hw] using hsplit)
      | cons v parts =>
        left
        obtain ⟨hv, hvne⟩ := hparts v List.mem_cons_self
        have hw : w = v ++ parts.flatten := hflat
        have hrest : s.rest = v ++ (parts.flatten ++ rest) := by
          rw [hsplit, hw, List.append_assoc]
        have hlen : 0 < v.length := List.length_pos_iff.mpr hvne
        have htotal : s.rest.length = v.length + (parts.flatten ++ rest).length := by
          rw [hrest, List.length_append]
        refine ⟨s.after v (parts.flatten ++ rest), List.mem_filter.mpr ⟨?_, ?_⟩, ?_⟩
        · exact (hf _ _).mpr ⟨v, hv, _, hrest, rfl⟩
        · have hlt : (parts.flatten ++ rest).length < s.rest.length := by omega
          simpa [Place.after] using hlt
        · have hshort : (s.after v (parts.flatten ++ rest)).rest.length ≤ n := by
            change (parts.flatten ++ rest).length ≤ n
            omega
          apply (ih hshort).mpr
          refine ⟨parts.flatten, ?_, rest, rfl, ?_⟩
          · exact ⟨parts, rfl, fun y hy => (hparts y (List.mem_cons_of_mem v hy)).1⟩
          · rw [ht, hw, Place.after_after]

/-- A plain pattern ends after every part of the text that is in its language. -/
theorem mem_ends_iff {r : Regexp} (hr : r.Plain) (s t : Place) :
    t ∈ r.ends s ↔ ∃ w ∈ r.language, ∃ rest, s.rest = w ++ rest ∧ t = s.after w rest := by
  induction r generalizing s t with
  | empty =>
    rw [ends, List.mem_singleton]
    constructor
    · intro h
      subst h
      exact ⟨[], Language.nil_mem_one, t.rest, rfl, rfl⟩
    · rintro ⟨w, hw, rest, hsplit, ht⟩
      have hnil : w = [] := hw
      subst hnil
      rw [ht]
      exact Place.after_nil hsplit
  | set p =>
    cases hrest : s.rest with
    | nil =>
      rw [ends_set_nil hrest]
      constructor
      · intro h
        cases h
      · rintro ⟨w, ⟨c, _, hw⟩, rest, hsplit, _⟩
        rw [hw] at hsplit
        cases hsplit
    | cons c tail =>
      rw [ends_set_cons hrest]
      constructor
      · intro h
        split at h
        · rename_i hc
          rw [List.mem_singleton.mp h]
          exact ⟨[c], ⟨c, hc, rfl⟩, tail, rfl, rfl⟩
        · cases h
      · rintro ⟨w, ⟨d, hd, hw⟩, rest, hsplit, ht⟩
        subst hw
        obtain ⟨hcd, htail⟩ : c = d ∧ tail = rest := by simpa using hsplit
        rw [hcd, if_pos hd, List.mem_singleton, ht, htail]
        rfl
  | seq a b iha ihb =>
    rw [ends_seq, List.mem_flatMap]
    constructor
    · rintro ⟨u, hu, ht⟩
      obtain ⟨v, hv, rest, hsplit, hu⟩ := (iha hr.1 s u).mp hu
      have hrest : u.rest = rest := by rw [hu]; rfl
      obtain ⟨w, hw, rest', hsplit', ht⟩ := (ihb hr.2 u t).mp ht
      refine ⟨v ++ w, Language.append_mem_mul hv hw, rest', ?_, ?_⟩
      · rw [hsplit, ← hrest, hsplit', List.append_assoc]
      · rw [ht, hu, Place.after_after]
    · rintro ⟨x, hx, rest, hsplit, ht⟩
      obtain ⟨v, hv, w, hw, hvw⟩ := Language.mem_mul.mp hx
      have hrest : s.rest = v ++ (w ++ rest) := by rw [hsplit, ← hvw, List.append_assoc]
      refine ⟨s.after v (w ++ rest), (iha hr.1 _ _).mpr ⟨v, hv, _, hrest, rfl⟩, ?_⟩
      apply (ihb hr.2 _ _).mpr
      exact ⟨w, hw, rest, rfl, by rw [ht, ← hvw, Place.after_after]⟩
  | alt a b iha ihb =>
    rw [ends_alt, List.mem_append, iha hr.1, ihb hr.2]
    constructor
    · intro h
      rcases h with ⟨w, hw, h⟩ | ⟨w, hw, h⟩
      · exact ⟨w, Or.inl hw, h⟩
      · exact ⟨w, Or.inr hw, h⟩
    · rintro ⟨w, hw, h⟩
      rcases hw with hw | hw
      · exact Or.inl ⟨w, hw, h⟩
      · exact Or.inr ⟨w, hw, h⟩
  | star a ih => exact mem_iterate (fun s t => ih hr s t) le_rfl
  | _ => exact absurd hr id

/-- A group records what its pattern took. -/
theorem mem_ends_group_iff {r : Regexp} (hr : r.Plain) (n : ℕ) (s t : Place) :
    t ∈ (Regexp.group n r).ends s ↔ ∃ w ∈ r.language, ∃ rest, s.rest = w ++ rest ∧
      t = { s.after w rest with groups := (n, w) :: s.groups } := by
  have hcapture : ∀ (w rest : Str), s.rest = w ++ rest →
      s.capture n (s.after w rest) = { s.after w rest with groups := (n, w) :: s.groups } := by
    intro w rest hsplit
    simp [Place.capture, Place.after, hsplit]
  rw [ends, List.mem_map]
  constructor
  · rintro ⟨u, hu, ht⟩
    obtain ⟨w, hw, rest, hsplit, hu⟩ := (mem_ends_iff hr s u).mp hu
    exact ⟨w, hw, rest, hsplit, by rw [← ht, hu, hcapture w rest hsplit]⟩
  · rintro ⟨w, hw, rest, hsplit, ht⟩
    refine ⟨s.after w rest, (mem_ends_iff hr _ _).mpr ⟨w, hw, rest, hsplit, rfl⟩, ?_⟩
    rw [ht, hcapture w rest hsplit]

/-- A plain pattern and then another one. -/
theorem mem_ends_plain_seq {a b : Regexp} (ha : a.Plain) (s t : Place) :
    t ∈ (Regexp.seq a b).ends s ↔
      ∃ w ∈ a.language, ∃ rest, s.rest = w ++ rest ∧ t ∈ b.ends (s.after w rest) := by
  rw [ends_seq, List.mem_flatMap]
  constructor
  · rintro ⟨u, hu, ht⟩
    obtain ⟨w, hw, rest, hsplit, hu⟩ := (mem_ends_iff ha s u).mp hu
    exact ⟨w, hw, rest, hsplit, hu ▸ ht⟩
  · rintro ⟨w, hw, rest, hsplit, ht⟩
    exact ⟨_, (mem_ends_iff ha _ _).mpr ⟨w, hw, rest, hsplit, rfl⟩, ht⟩

/-- A group and then another pattern. -/
theorem mem_ends_group_seq {a b : Regexp} (ha : a.Plain) (n : ℕ) (s t : Place) :
    t ∈ (Regexp.seq (.group n a) b).ends s ↔ ∃ w ∈ a.language, ∃ rest, s.rest = w ++ rest ∧
      t ∈ b.ends { s.after w rest with groups := (n, w) :: s.groups } := by
  rw [ends_seq, List.mem_flatMap]
  constructor
  · rintro ⟨u, hu, ht⟩
    obtain ⟨w, hw, rest, hsplit, hu⟩ := (mem_ends_group_iff ha n s u).mp hu
    exact ⟨w, hw, rest, hsplit, hu ▸ ht⟩
  · rintro ⟨w, hw, rest, hsplit, ht⟩
    exact ⟨_, (mem_ends_group_iff ha n _ _).mpr ⟨w, hw, rest, hsplit, rfl⟩, ht⟩

theorem exists_ends_seq {a b : Regexp} (ha : a.Plain) {s : Place} {w rest : Str} (hw : w ∈ a.language)
    (hsplit : s.rest = w ++ rest) (h : ∃ t, t ∈ b.ends (s.after w rest)) :
    ∃ t, t ∈ (Regexp.seq a b).ends s := by
  obtain ⟨t, ht⟩ := h
  exact ⟨t, (mem_ends_plain_seq ha s t).mpr ⟨w, hw, rest, hsplit, ht⟩⟩

theorem exists_ends_group {a b : Regexp} (ha : a.Plain) (n : ℕ) {s : Place} {w rest : Str}
    (hw : w ∈ a.language) (hsplit : s.rest = w ++ rest)
    (h : ∃ t, t ∈ b.ends { s.after w rest with groups := (n, w) :: s.groups }) :
    ∃ t, t ∈ (Regexp.seq (.group n a) b).ends s := by
  obtain ⟨t, ht⟩ := h
  exact ⟨t, (mem_ends_group_seq ha n s t).mpr ⟨w, hw, rest, hsplit, ht⟩⟩

theorem mem_ends_textEnd {s t : Place} : t ∈ Regexp.textEnd.ends s ↔ s.rest = [] ∧ t = s := by
  unfold ends
  split
  · simp_all
  · simp_all

theorem mem_of_matchHere {r : Regexp} {s t : Place} (h : r.matchHere s = some t) : t ∈ r.ends s :=
  List.mem_of_mem_head? h

theorem matchHere_eq_none {r : Regexp} {s : Place} : r.matchHere s = none ↔ ∀ t, t ∉ r.ends s := by
  unfold matchHere
  rw [List.head?_eq_none_iff, List.eq_nil_iff_forall_not_mem]

theorem mem_language_seq {a b : Regexp} {w : Str} :
    w ∈ (Regexp.seq a b).language ↔ ∃ u ∈ a.language, ∃ v ∈ b.language, u ++ v = w :=
  Language.mem_mul

theorem language_char (c : Char) : (char c).language = {[c]} := by
  apply Set.ext
  intro w
  change (∃ d, (d == c) = true ∧ w = [d]) ↔ w = [c]
  simp

theorem plain_lit (cs : Str) : (lit cs).Plain := by
  induction cs with
  | nil => trivial
  | cons c cs ih => exact ⟨trivial, ih⟩

theorem mem_language_lit {cs w : Str} : w ∈ (lit cs).language ↔ w = cs := by
  induction cs generalizing w with
  | nil => rfl
  | cons c cs ih =>
    rw [lit, mem_language_seq, language_char]
    constructor
    · rintro ⟨u, hu, v, hv, huv⟩
      have hu : u = [c] := hu
      rw [← huv, hu, ih.mp hv]
      rfl
    · intro h
      exact ⟨[c], rfl, cs, ih.mpr rfl, h.symm⟩

theorem mem_language_star_set {p : Char → Bool} {w : Str} :
    w ∈ (Regexp.star (.set p)).language ↔ ∀ c ∈ w, p c = true := by
  constructor
  · rintro ⟨parts, hflat, hparts⟩ c hc
    rw [hflat] at hc
    obtain ⟨part, hpart, hc⟩ := List.mem_flatten.mp hc
    obtain ⟨d, hd, hsingle⟩ := hparts part hpart
    rw [hsingle] at hc
    rw [List.mem_singleton.mp hc]
    exact hd
  · intro h
    refine ⟨w.map fun c => [c], (List.flatMap_singleton' w).symm, ?_⟩
    intro part hpart
    obtain ⟨c, hc, hsingle⟩ := List.mem_map.mp hpart
    exact ⟨c, h c hc, hsingle.symm⟩

theorem mem_language_plus_set {p : Char → Bool} {w : Str} :
    w ∈ (plus (.set p)).language ↔ w ≠ [] ∧ ∀ c ∈ w, p c = true := by
  rw [plus, mem_language_seq]
  constructor
  · rintro ⟨u, ⟨c, hc, hu⟩, v, hv, huv⟩
    have hw : w = c :: v := by rw [← huv, hu]; rfl
    rw [hw]
    refine ⟨List.cons_ne_nil c v, ?_⟩
    intro d hd
    rcases List.mem_cons.mp hd with hd | hd
    · rw [hd]
      exact hc
    · exact mem_language_star_set.mp hv d hd
  · rintro ⟨hne, hall⟩
    cases w with
    | nil => exact absurd rfl hne
    | cons c v =>
      refine ⟨[c], ⟨c, hall c List.mem_cons_self, rfl⟩, v, ?_, rfl⟩
      exact mem_language_star_set.mpr fun d hd => hall d (List.mem_cons_of_mem c hd)

/-- What is found is a match somewhere. -/
theorem mem_of_find {r : Regexp} {prev : Option Char} {text : Str} {t : Place}
    (h : r.find prev text = some t) : ∃ prev rest, t ∈ r.ends ⟨prev, rest, []⟩ := by
  induction text generalizing prev with
  | nil => exact ⟨_, _, mem_of_matchHere h⟩
  | cons c text ih =>
    rw [find] at h
    cases hhere : r.matchHere ⟨prev, c :: text, []⟩ with
    | some u =>
      rw [hhere, Option.some_or] at h
      exact ⟨_, _, Option.some.inj h ▸ mem_of_matchHere hhere⟩
    | none =>
      rw [hhere, Option.none_or] at h
      exact ih h

/-- A pattern anchored at the beginning of the text is found only there. -/
theorem findSubmatch_textStart (r : Regexp) (text : Str) :
    (Regexp.seq .textStart r).findSubmatch text = r.matchHere (Place.start text) := by
  have hnone : ∀ (c : Char) (rest : Str), (Regexp.seq .textStart r).find (some c) rest = none := by
    intro c rest
    induction rest generalizing c with
    | nil => rfl
    | cons d rest ih =>
      rw [find, ih]
      rfl
  unfold findSubmatch matchHere Place.start
  have hhere : (Regexp.seq .textStart r).ends ⟨none, text, []⟩ = r.ends ⟨none, text, []⟩ := by
    simp [ends]
  cases text with
  | nil => rw [find, matchHere, hhere]
  | cons c rest => rw [find, hnone, Option.or_none, matchHere, hhere]

end Regexp

end Text
