import GoLibtor.Build.Extract
import GoLibtor.Text.Words

/-! Which libevent objects `extractLibeventObjects` finds. Its pattern consumes the white
space on both sides of an object, so one blank cannot serve two objects. -/
namespace GoLibtor

open Text

/-- `n` followed by `.lo` stands in `out` between a line start or white space and white
space, a semicolon or a line end. -/
def IsObject (out n : Str) : Prop :=
  n ≠ [] ∧ (∀ c ∈ n, objectChar c = true) ∧ ∃ pre post, out = pre ++ n ++ ".lo".toList ++ post ∧
    (∀ c, pre.getLast? = some c → spaceClass c = true) ∧
    (∀ c tail, post = c :: tail → spaceClass c = true ∨ c = ';')

/-- The object a word names, and whether the word ends with it. -/
def objectWord (w : Str) : Option (Str × Bool) :=
  if w.takeWhile objectChar = [] then none
  else
    match w.dropWhile objectChar with
    | ['.', 'l', 'o'] => some (w.takeWhile objectChar, true)
    | '.' :: 'l' :: 'o' :: ';' :: _ => some (w.takeWhile objectChar, false)
    | _ => none

/-- The objects that are not shadowed. An object shadows the next word when it ends its own
word and only one blank, not a newline, stands between the two. -/
def unshadowed : (shadow : Bool) → List (Char × Str) → List Str
  | _, [] => []
  | shadow, (sep, w) :: ws =>
    if shadow ∧ sep ≠ '\n' then unshadowed false ws
    else
      match objectWord w with
      | some (n, ends) => n :: unshadowed ends ws
      | none => unshadowed false ws

def unshadowedObjects (out : Str) : List Str := unshadowed false (words spaceClass '\n' out)

theorem objectChar_ne {c : Char} (h : objectChar c = true) : c ≠ '.' ∧ spaceClass c = false := by
  constructor
  · rintro rfl
    revert h
    decide
  · by_contra hs
    have hs : spaceClass c = true := by simpa using hs
    simp only [spaceClass, Bool.or_eq_true, beq_iff_eq] at hs
    rcases hs with ((((rfl | rfl) | rfl) | rfl) | rfl) | rfl <;> revert h <;> decide

theorem objectWord_eq_some {w n : Str} {b : Bool} (h : objectWord w = some (n, b)) :
    n ≠ [] ∧ (∀ c ∈ n, objectChar c = true) ∧
      ((b = true ∧ w = n ++ ".lo".toList) ∨ (b = false ∧ ∃ u, w = n ++ ".lo".toList ++ ';' :: u)) := by
  have hsplit : w = w.takeWhile objectChar ++ w.dropWhile objectChar :=
    List.takeWhile_append_dropWhile.symm
  have hchars : ∀ c ∈ w.takeWhile objectChar, objectChar c = true :=
    fun c hc => List.mem_takeWhile_imp hc
  unfold objectWord at h
  split at h
  · cases h
  next hne =>
    split at h
    next hdrop =>
      obtain ⟨rfl, rfl⟩ := Prod.mk.inj (Option.some.inj h)
      rw [hdrop] at hsplit
      exact ⟨hne, hchars, Or.inl ⟨rfl, hsplit⟩⟩
    next u hdrop =>
      obtain ⟨rfl, rfl⟩ := Prod.mk.inj (Option.some.inj h)
      refine ⟨hne, hchars, Or.inr ⟨rfl, u, ?_⟩⟩
      rw [hdrop] at hsplit
      simpa using hsplit
    next => cases h

theorem takeWhile_object {n : Str} (rest : Str) (hn : ∀ c ∈ n, objectChar c = true) :
    (n ++ '.' :: rest).takeWhile objectChar = n ∧ (n ++ '.' :: rest).dropWhile objectChar = '.' :: rest := by
  have hdot : objectChar '.' = false := by decide
  constructor
  · rw [List.takeWhile_append_of_pos hn]
    simp [hdot]
  · rw [List.dropWhile_append_of_pos hn]
    simp [hdot]

theorem objectWord_bare {n : Str} (hne : n ≠ []) (hn : ∀ c ∈ n, objectChar c = true) :
    objectWord (n ++ ".lo".toList) = some (n, true) := by
  obtain ⟨htake, hdrop⟩ := takeWhile_object ['l', 'o'] hn
  change objectWord (n ++ ['.', 'l', 'o']) = _
  rw [objectWord, htake, hdrop, if_neg hne]
  rfl

theorem objectWord_semicolon {n u : Str} (hne : n ≠ []) (hn : ∀ c ∈ n, objectChar c = true) :
    objectWord (n ++ ".lo".toList ++ ';' :: u) = some (n, false) := by
  obtain ⟨htake, hdrop⟩ := takeWhile_object ('l' :: 'o' :: ';' :: u) hn
  have hw : n ++ ".lo".toList ++ ';' :: u = n ++ '.' :: 'l' :: 'o' :: ';' :: u := by simp
  rw [hw, objectWord, htake, hdrop, if_neg hne]
  rfl

theorem spaceClass_lo {c : Char} (h : c ∈ ".lo".toList) : spaceClass c = false := by
  revert c
  decide

/-- Where `.lo` follows the object characters of a word that names no object, something
comes next that the pattern does not take. -/
theorem objectWord_none_stop {w tail rest : Str} (hw : ∀ c ∈ w, spaceClass c = false)
    (htail : ∀ c rest, tail = c :: rest → spaceClass c = true) (hobj : objectWord w = none)
    (hne : w.takeWhile objectChar ≠ []) (h : w.dropWhile objectChar ++ tail = ".lo".toList ++ rest) :
    ∃ c cs, rest = c :: cs ∧ spaceClass c = false ∧ c ≠ ';' := by
  have hdrop : ∃ v, w.dropWhile objectChar = ".lo".toList ++ v ∧ rest = v ++ tail := by
    rcases List.append_eq_append_iff.mp h with ⟨us, hlo, htl⟩ | ⟨us, hdw, hrest⟩
    · cases us with
      | nil => exact ⟨[], by simpa using hlo.symm, by simpa using htl.symm⟩
      | cons c us =>
        have hc := spaceClass_lo (hlo ▸ List.mem_append_right _ List.mem_cons_self : c ∈ ".lo".toList)
        simp [htail c (us ++ rest) htl] at hc
    · exact ⟨us, hdw, hrest⟩
  obtain ⟨v, hdw, rfl⟩ := hdrop
  rw [objectWord, if_neg hne, hdw] at hobj
  cases v with
  | nil => simp at hobj
  | cons c cs =>
    refine ⟨c, cs ++ tail, rfl, hw c ?_, ?_⟩
    · exact (List.dropWhile_suffix objectChar).subset (hdw ▸ by simp)
    · rintro rfl
      simp at hobj

/-- The objects of a text are those its words name. -/
theorem isObject_iff {out n : Str} : IsObject out n ↔
    ∃ s w b, (s, w) ∈ words spaceClass '\n' out ∧ objectWord w = some (n, b) := by
  constructor
  · rintro ⟨hne, hn, pre, post, rfl, hpre, hpost⟩
    obtain ⟨u, rest, rfl, hu, hrest⟩ := exists_word spaceClass post
    have hword : ∃ s, (s, n ++ ".lo".toList ++ u) ∈
        words spaceClass '\n' (pre ++ n ++ ".lo".toList ++ (u ++ rest)) := by
      refine mem_words_iff.mpr ⟨pre, rest, by simp, ?_, hpre, hrest⟩
      intro c hc
      rcases List.mem_append.mp hc with hc | hc
      · rcases List.mem_append.mp hc with hc | hc
        · exact (objectChar_ne (hn c hc)).2
        · exact spaceClass_lo hc
      · exact hu c hc
    obtain ⟨s, hs⟩ := hword
    cases u with
    | nil => exact ⟨s, _, true, hs, by simpa using objectWord_bare hne hn⟩
    | cons d u =>
      rcases hpost d (u ++ rest) rfl with hd | rfl
      · simp [hu d List.mem_cons_self] at hd
      · exact ⟨s, _, false, hs, objectWord_semicolon hne hn⟩
  · rintro ⟨s, w, b, hw, hobj⟩
    obtain ⟨hne, hn, hshape⟩ := objectWord_eq_some hobj
    obtain ⟨pre, post, rfl, hsep, hpre, hpost⟩ := mem_words_iff.mp ⟨s, hw⟩
    rcases hshape with ⟨_, rfl⟩ | ⟨_, u, rfl⟩
    · exact ⟨hne, hn, pre, post, by simp, hpre, fun c tail h => Or.inl (hpost c tail h)⟩
    · refine ⟨hne, hn, pre, ';' :: u ++ post, by simp, hpre, fun c tail h => Or.inr ?_⟩
      exact (List.cons.inj h).1.symm

theorem objectWord_of_mem_unshadowed {n : Str} {b : Bool} {ws : List (Char × Str)}
    (h : n ∈ unshadowed b ws) : ∃ s w b, (s, w) ∈ ws ∧ objectWord w = some (n, b) := by
  induction ws generalizing b with
  | nil => simp [unshadowed] at h
  | cons sw ws ih =>
    obtain ⟨sep, w⟩ := sw
    have hrest : ∀ {b}, n ∈ unshadowed b ws →
        ∃ s v b, (s, v) ∈ (sep, w) :: ws ∧ objectWord v = some (n, b) := by
      intro b hb
      obtain ⟨s, v, b', hv, hobj⟩ := ih hb
      exact ⟨s, v, b', List.mem_cons_of_mem _ hv, hobj⟩
    unfold unshadowed at h
    split at h
    · exact hrest h
    · split at h
      next m ends hobj =>
        rcases List.mem_cons.mp h with rfl | h
        · exact ⟨sep, w, ends, List.mem_cons_self, hobj⟩
        · exact hrest h
      next => exact hrest h

/-- The pattern from the object name on. -/
def objectBody : Regexp :=
  .seq (.group 1 (.plus (.set objectChar)))
    (.seq (.lit ".lo".toList) (.alt (.set fun c => spaceClass c || c == ';') .lineEnd))

def objectTail : Regexp :=
  .seq (.lit ".lo".toList) (.alt (.set fun c => spaceClass c || c == ';') .lineEnd)

theorem objectTail_stuck : Regexp.Stuck objectChar fun t => objectTail.ends t := by
  intro t c rest ht hc
  have hnot : ¬ ".lo".toList <+: t.rest := by
    rw [ht]
    intro hpre
    exact (objectChar_ne hc).1 (List.cons_prefix_cons.mp hpre).1.symm
  dsimp only
  rw [objectTail, Regexp.ends_seq, Regexp.ends_lit_of_not hnot, List.flatMap_nil]

/-- Where the preferred match of an object that ends its word stops. -/
def bareEnd (n tail : Str) : Place :=
  match tail with
  | [] => ⟨some 'o', [], [(1, n)]⟩
  | c :: rest => ⟨some c, rest, [(1, n)]⟩

/-- What the pattern makes of the word at a place. -/
theorem objectBody_head {prev : Option Char} {w tail : Str} (hw : ∀ c ∈ w, spaceClass c = false)
    (htail : ∀ c rest, tail = c :: rest → spaceClass c = true) :
    (objectBody.ends ⟨prev, w ++ tail, []⟩).head? =
      match objectWord w with
      | none => none
      | some (n, true) => some (bareEnd n tail)
      | some (n, false) => some ⟨some ';', w.drop (n.length + 4) ++ tail, [(1, n)]⟩ := by
  have hnot : ∀ c rest, tail = c :: rest → objectChar c = false := by
    intro c rest h
    by_contra hc
    have := (objectChar_ne (by simpa using hc)).2
    simp [htail c rest h] at this
  have htakeTail : tail.takeWhile objectChar = [] := by
    cases tail with
    | nil => rfl
    | cons c rest => simp [hnot c rest rfl]
  have hdropTail : tail.dropWhile objectChar = tail := by
    cases tail with
    | nil => rfl
    | cons c rest => simp [hnot c rest rfl]
  -- The run of object characters is the beginning of the word.
  have htake : (w ++ tail).takeWhile objectChar = w.takeWhile objectChar := by
    rw [List.takeWhile_append]
    split
    next hall =>
      have hwhole : w.takeWhile objectChar = w :=
        (List.takeWhile_prefix objectChar).eq_of_length hall
      rw [htakeTail, List.append_nil, hwhole]
    next => rfl
  have hdrop : (w ++ tail).dropWhile objectChar = w.dropWhile objectChar ++ tail := by
    rw [List.dropWhile_append]
    split
    next hempty => rw [hdropTail, List.isEmpty_iff.mp hempty, List.nil_append]
    next => rfl
  have hbody : objectBody.ends ⟨prev, w ++ tail, []⟩ =
      if w.takeWhile objectChar = [] then []
      else objectTail.ends ⟨((w.takeWhile objectChar).getLast?).or prev,
        w.dropWhile objectChar ++ tail, [(1, w.takeWhile objectChar)]⟩ := by
    cases htext : w ++ tail with
    | nil =>
      obtain ⟨rfl, rfl⟩ := List.append_eq_nil_iff.mp htext
      rfl
    | cons c rest =>
      have hflat := Regexp.ends_group_plus_set_flatMap (k := fun t => objectTail.ends t)
        objectTail_stuck (n := 1) (s := ⟨prev, c :: rest, []⟩) rfl
      refine hflat.trans ?_
      have hskip : Place.skip objectChar ⟨prev, c :: rest, []⟩ =
          ⟨((w.takeWhile objectChar).getLast?).or prev, w.dropWhile objectChar ++ tail, []⟩ := by
        rw [Place.skip, ← htext, htake, hdrop]
      have hlen : (c :: rest).take ((c :: rest).length - (w.dropWhile objectChar ++ tail).length) =
          w.takeWhile objectChar := by
        have hlist : c :: rest = w.takeWhile objectChar ++ (w.dropWhile objectChar ++ tail) := by
          rw [← htext, ← List.append_assoc, List.takeWhile_append_dropWhile]
        rw [hlist, List.length_append, Nat.add_sub_cancel, List.take_left]
      by_cases hc : objectChar c = true
      · have hne : w.takeWhile objectChar ≠ [] := by
          rw [← htake, htext]
          simp [hc]
        rw [if_pos hc, if_neg hne, hskip, Place.capture, hlen]
      · have hnil : w.takeWhile objectChar = [] := by
          rw [← htake, htext]
          simp [hc]
        rw [if_neg hc, if_pos hnil]
  have hafter : ∀ (p : Option Char) (n rest : Str), objectTail.ends ⟨p, ".lo".toList ++ rest, [(1, n)]⟩ =
      (Regexp.alt (.set fun c => spaceClass c || c == ';') .lineEnd).ends
        ⟨some 'o', rest, [(1, n)]⟩ := by
    intro p n rest
    rw [objectTail, Regexp.ends_seq, Regexp.ends_lit rfl, List.flatMap_singleton]
    rfl
  cases hobj : objectWord w with
  | some nb =>
    obtain ⟨n, b⟩ := nb
    obtain ⟨hne, hn, hshape⟩ := objectWord_eq_some hobj
    rcases hshape with ⟨rfl, rfl⟩ | ⟨rfl, u, rfl⟩
    · obtain ⟨ht, hd⟩ := takeWhile_object ['l', 'o'] hn
      change (n ++ ".lo".toList).takeWhile objectChar = n at ht
      change (n ++ ".lo".toList).dropWhile objectChar = ".lo".toList at hd
      rw [hbody, ht, hd, if_neg hne, hafter]
      cases tail with
      | nil => rfl
      | cons c rest => simp [Regexp.ends, Place.past, htail c rest rfl, bareEnd]
    · obtain ⟨ht, hd⟩ := takeWhile_object ('l' :: 'o' :: ';' :: u) hn
      have hw' : n ++ ".lo".toList ++ ';' :: u = n ++ '.' :: 'l' :: 'o' :: ';' :: u := by simp
      have hcut : (n ++ '.' :: 'l' :: 'o' :: ';' :: u).drop (n.length + 4) = u := by
        rw [List.drop_append]
        simp
      have hlo : '.' :: 'l' :: 'o' :: ';' :: u ++ tail = ".lo".toList ++ (';' :: u ++ tail) := by simp
      rw [hbody, hw', ht, hd, if_neg hne, hlo, hafter]
      simp [Regexp.ends, Place.past, hcut]
  | none =>
    rw [hbody]
    split
    next => rfl
    next hne =>
      by_cases hpre : ".lo".toList <+: w.dropWhile objectChar ++ tail
      · -- After `.lo` comes neither a separator nor the end.
        obtain ⟨rest, hrest⟩ := hpre
        obtain ⟨c, cs, rfl, hc, hsemi⟩ := objectWord_none_stop hw htail hobj hne hrest.symm
        have hnl : c ≠ '\n' := by
          rintro rfl
          revert hc
          decide
        rw [← hrest, hafter]
        simp [Regexp.ends, hc, hsemi, hnl]
      · rw [objectTail, Regexp.ends_seq, Regexp.ends_lit_of_not hpre]
        rfl

end GoLibtor
