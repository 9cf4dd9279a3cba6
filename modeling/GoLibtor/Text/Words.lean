import GoLibtor.Text.Regexp

/-! Words of a text between the characters that separate them. -/
namespace Text

/-- The words of a text, each with the separator before it. The first one is said to
follow `sep`; two separators in a row have an empty word between them. -/
def words (isSep : Char → Bool) : (sep : Char) → Str → List (Char × Str)
  | sep, [] => [(sep, [])]
  | sep, c :: cs =>
    if isSep c then (sep, []) :: words isSep c cs
    else
      match words isSep sep cs with
      | (s, w) :: rest => (s, c :: w) :: rest
      | [] => [(sep, [c])]

def wordsAfter (isSep : Char → Bool) : Str → List (Char × Str)
  | [] => []
  | c :: rest => words isSep c rest

variable {isSep : Char → Bool}

theorem words_append {w rest : Str} (sep : Char) (hw : ∀ c ∈ w, isSep c = false)
    (hrest : ∀ c tail, rest = c :: tail → isSep c = true) :
    words isSep sep (w ++ rest) = (sep, w) :: wordsAfter isSep rest := by
  induction w with
  | nil =>
    cases rest with
    | nil => rfl
    | cons c tail => simp [words, wordsAfter, hrest c tail rfl]
  | cons d w ih =>
    have hd : isSep d = false := hw d List.mem_cons_self
    rw [List.cons_append, words, if_neg (by simp [hd]), ih fun c hc => hw c (List.mem_cons_of_mem d hc)]

theorem exists_word (isSep : Char → Bool) (text : Str) : ∃ w rest, text = w ++ rest ∧
    (∀ c ∈ w, isSep c = false) ∧ ∀ c tail, rest = c :: tail → isSep c = true := by
  refine ⟨text.takeWhile (! isSep ·), text.dropWhile (! isSep ·),
    (List.takeWhile_append_dropWhile).symm, ?_, ?_⟩
  · intro c hc
    simpa using List.mem_takeWhile_imp hc
  · intro c tail h
    have hne : text.dropWhile (! isSep ·) ≠ [] := by simp [h]
    have hhead := List.head_dropWhile_not (! isSep ·) hne
    simpa [h] using hhead

theorem words_head (isSep : Char → Bool) (sep : Char) (text : Str) :
    ∃ w rest, words isSep sep text = (sep, w) :: wordsAfter isSep rest ∧ text = w ++ rest ∧
      (∀ c ∈ w, isSep c = false) ∧ ∀ c tail, rest = c :: tail → isSep c = true := by
  obtain ⟨w, rest, rfl, hw, hrest⟩ := exists_word isSep text
  exact ⟨w, rest, words_append sep hw hrest, rfl, hw, hrest⟩

/-- Two words in a row are two pieces of the text with one separator between them. -/
theorem words_isChain {R : Str → Char → Str → Prop} (sep : Char) (text : Str)
    (h : ∀ pre w c v post, text = pre ++ w ++ c :: v ++ post → isSep c = true →
      (∀ d, pre.getLast? = some d → isSep d = true) →
      (∀ d tail, post = d :: tail → isSep d = true) → R w c v) :
    (words isSep sep text).IsChain fun x y => R x.2 y.1 y.2 := by
  induction hlen : text.length using Nat.strong_induction_on generalizing sep text with
  | _ n ih =>
    subst hlen
    obtain ⟨w, rest, hwords, rfl, hw, hrest⟩ := words_head isSep sep text
    rw [hwords]
    cases rest with
    | nil => exact List.isChain_singleton _
    | cons c tail =>
      have hc : isSep c = true := hrest c tail rfl
      have hlt : tail.length < (w ++ c :: tail).length := by
        rw [List.length_append, List.length_cons]
        omega
      have htail := ih tail.length hlt c tail ?_ rfl
      · obtain ⟨v, post, hnext, htext, _, hpost⟩ := words_head isSep c tail
        rw [hnext] at htail
        rw [wordsAfter, hnext]
        refine List.isChain_cons_cons.mpr ⟨?_, htail⟩
        exact h [] w c v post (by simp [htext]) hc (by simp) hpost
      · intro pre v d u post htext hd hpre hpost
        refine h (w ++ c :: pre) v d u post (by simp [htext]) hd ?_ hpost
        intro e he
        rcases List.eq_nil_or_concat pre with rfl | ⟨pre, g, rfl⟩
        · obtain rfl : c = e := by simpa using he
          exact hc
        · refine hpre e ?_
          rw [← he, List.getLast?_append_of_ne_nil _ (by simp)]
          simp [List.getLast?_cons]

/-- The words are the maximal separator-free pieces: where each of them stands. -/
theorem mem_words_iff {sep : Char} {text w : Str} :
    (∃ s, (s, w) ∈ words isSep sep text) ↔
      ∃ pre post, text = pre ++ w ++ post ∧ (∀ c ∈ w, isSep c = false) ∧
        (∀ c, pre.getLast? = some c → isSep c = true) ∧
        (∀ c tail, post = c :: tail → isSep c = true) := by
  induction h : text.length using Nat.strong_induction_on generalizing sep text with
  | _ n ih =>
    subst h
    obtain ⟨v, rest, rfl, hv, hrest⟩ := exists_word isSep text
    rw [words_append sep hv hrest]
    cases rest with
    | nil =>
      rw [wordsAfter]
      constructor
      · rintro ⟨s, hs⟩
        obtain ⟨rfl, rfl⟩ : s = sep ∧ w = v := by simpa using hs
        exact ⟨[], [], by simp, hv, by simp, by simp⟩
      · rintro ⟨pre, post, hsplit, hw, hpre, hpost⟩
        have hsep : ∀ c ∈ pre ++ w ++ post, isSep c = false := by simpa [← hsplit] using hv
        rcases List.eq_nil_or_concat pre with rfl | ⟨pre, d, rfl⟩
        · cases post with
          | nil => exact ⟨sep, by simpa using hsplit.symm⟩
          | cons c tail => simp [hsep c (by simp)] at hpost
        · simp [hsep d (by simp)] at hpre
    | cons c tail =>
      have hc : isSep c = true := hrest c tail rfl
      have hlt : tail.length < (v ++ c :: tail).length := by
        simp
        omega
      have htail : (∃ s, (s, w) ∈ words isSep c tail) ↔ _ := ih tail.length hlt rfl
      have hmem : (∃ s, (s, w) ∈ (sep, v) :: words isSep c tail) ↔
          w = v ∨ ∃ s, (s, w) ∈ words isSep c tail := by
        simp [exists_or]
      rw [wordsAfter, hmem, htail]
      constructor
      · rintro (rfl | ⟨pre, post, rfl, hw, hpre, hpost⟩)
        · exact ⟨[], c :: tail, by simp, hv, by simp, by simp [hc]⟩
        · refine ⟨v ++ c :: pre, post, by simp, hw, ?_, hpost⟩
          intro d hd
          rcases List.eq_nil_or_concat pre with rfl | ⟨pre, e, rfl⟩
          · obtain rfl : c = d := by simpa using hd
            exact hc
          · refine hpre d ?_
            rw [← hd, List.getLast?_append_of_ne_nil _ (by simp)]
            simp [List.getLast?_cons]
      · rintro ⟨pre, post, hsplit, hw, hpre, hpost⟩
        rw [List.append_assoc] at hsplit
        rcases List.append_eq_append_iff.mp hsplit with ⟨us, rfl, hus⟩ | ⟨us, rfl, hus⟩
        · -- The first separator lies in `pre` or just before `w`.
          cases us with
          | nil =>
            simp only [List.nil_append] at hus
            cases w with
            | cons d w => simp [List.cons.inj hus.symm |>.1, hc] at hw
            | nil =>
              rcases List.eq_nil_or_concat v with rfl | ⟨v, d, rfl⟩
              · exact Or.inl rfl
              · have := hpre d (by simp)
                simp [hv d (by simp)] at this
          | cons d us =>
            obtain ⟨rfl, rfl⟩ := List.cons.inj hus
            refine Or.inr ⟨us, post, by simp, hw, ?_, hpost⟩
            intro e he
            refine hpre e ?_
            rw [← he, List.getLast?_append_of_ne_nil _ (by simp)]
            rcases List.eq_nil_or_concat us with rfl | ⟨us, g, rfl⟩
            · simp at he
            · simp [List.getLast?_cons]
        · -- `pre` ends inside the first word, so it is empty.
          rcases List.eq_nil_or_concat pre with rfl | ⟨pre, d, rfl⟩
          · left
            simp only [List.nil_append] at hv hus
            rcases List.append_eq_append_iff.mp hus with ⟨ts, rfl, hts⟩ | ⟨ts, rfl, hts⟩
            · cases ts with
              | nil => simp
              | cons d ts =>
                have := hpost d (ts ++ c :: tail) (by simpa using hts)
                simp [hv d (by simp)] at this
            · cases ts with
              | nil => simp
              | cons d ts =>
                obtain ⟨rfl, _⟩ := List.cons.inj hts
                simp [hw c (by simp)] at hc
          · have := hpre d (by simp)
            simp [hv d (by simp)] at this

end Text
