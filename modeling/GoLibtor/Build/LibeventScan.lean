import GoLibtor.Build.LibeventObjects

/-! The search of `extractLibeventObjects` followed through a text word by word. -/
namespace GoLibtor

open Text

/-- The names the search yields from a place on. -/
def scan (prev : Option Char) (text : Str) : List Str :=
  (libeventObjectPattern.findAll prev text).map fun m => m.submatch 1

theorem scan_nil (prev : Option Char) : scan prev [] = [] := by
  rw [scan, Regexp.findAll_nil, List.map_nil]

/-- `^` holds here. -/
def AtLineStart (prev : Option Char) : Prop := prev = none ∨ prev = some '\n'

theorem pattern_ends_word {prev : Option Char} {c : Char} {cs : Str} (hc : spaceClass c = false) :
    (AtLineStart prev → libeventObjectPattern.matchHere ⟨prev, c :: cs, []⟩ =
      (objectBody.ends ⟨prev, c :: cs, []⟩).head?) ∧
    (¬ AtLineStart prev → libeventObjectPattern.matchHere ⟨prev, c :: cs, []⟩ = none) := by
  have hends : libeventObjectPattern.ends ⟨prev, c :: cs, []⟩ =
      (Regexp.lineStart.ends ⟨prev, c :: cs, []⟩).flatMap fun t => objectBody.ends t := by
    change ((Regexp.alt .lineStart (.set spaceClass)).ends _).flatMap _ = _
    rw [Regexp.ends_alt, Regexp.ends_set_cons rfl, hc]
    simp [objectBody]
  unfold AtLineStart
  constructor
  · intro h
    simp [Regexp.matchHere, hends, Regexp.ends, h]
  · intro h
    simp [Regexp.matchHere, hends, Regexp.ends, h]

theorem pattern_ends_space {prev : Option Char} {c : Char} {cs : Str} (hc : spaceClass c = true) :
    libeventObjectPattern.matchHere ⟨prev, c :: cs, []⟩ =
      (objectBody.ends ⟨some c, cs, []⟩).head? := by
  have hnot : objectChar c = false := by
    by_contra h
    simp [(objectChar_ne (by simpa using h)).2] at hc
  have hstart : ∀ p, objectBody.ends ⟨p, c :: cs, []⟩ = [] := by
    intro p
    exact (Regexp.ends_group_plus_set_flatMap (k := fun t => objectTail.ends t)
      objectTail_stuck (n := 1) (s := ⟨p, c :: cs, []⟩) rfl).trans (by simp [hnot])
  have hends : libeventObjectPattern.ends ⟨prev, c :: cs, []⟩ = objectBody.ends ⟨some c, cs, []⟩ := by
    change ((Regexp.alt .lineStart (.set spaceClass)).ends _).flatMap (fun t => objectBody.ends t) = _
    rw [Regexp.ends_alt, List.flatMap_append, Regexp.ends_set_cons rfl, if_pos hc,
      List.flatMap_singleton]
    have hline : (Regexp.lineStart.ends ⟨prev, c :: cs, []⟩).flatMap (fun t => objectBody.ends t) = [] := by
      rw [Regexp.ends]
      split <;> simp [hstart]
    rw [hline]
    rfl
  rw [Regexp.matchHere, hends]

/-- In the middle of a word there is no match, and the search goes on to its end. -/
theorem scan_word {prev : Option Char} {w tail : Str} (hprev : ¬ AtLineStart prev)
    (hw : ∀ c ∈ w, spaceClass c = false) : ∃ p, scan prev (w ++ tail) = scan p tail := by
  induction w generalizing prev with
  | nil => exact ⟨prev, rfl⟩
  | cons c w ih =>
    have hc : spaceClass c = false := hw c List.mem_cons_self
    have hnext : ¬ AtLineStart (some c) := by
      rintro (h | h)
      · cases h
      · obtain rfl := Option.some.inj h
        revert hc
        decide
    obtain ⟨p, hp⟩ := ih hnext fun d hd => hw d (List.mem_cons_of_mem c hd)
    refine ⟨p, ?_⟩
    rw [← hp, scan, scan, List.cons_append,
      Regexp.findAll_advance ((pattern_ends_word hc).2 hprev)]

theorem bareEnd_submatch (n tail : Str) : (bareEnd n tail).submatch 1 = n := by
  cases tail <;> rfl

theorem bareEnd_length (n tail : Str) : (bareEnd n tail).rest.length ≤ tail.length := by
  cases tail <;> simp [bareEnd]

/-- The three places a search can stand at before a text: at a line start, after a blank
that a match has consumed, and before the blank itself. -/
structure ScanSpec (text : Str) : Prop where
  line : ∀ prev, AtLineStart prev → scan prev text = unshadowed false (words spaceClass '\n' text)
  shadow : ∀ c, spaceClass c = true → c ≠ '\n' →
    scan (some c) text = unshadowed true (words spaceClass c text)
  blank : ∀ prev c, spaceClass c = true →
    scan prev (c :: text) = unshadowed false (words spaceClass c text)

section
variable {w tail : Str} (hw : ∀ c ∈ w, spaceClass c = false)
  (htail : ∀ c rest, tail = c :: rest → spaceClass c = true)
  (ih : ∀ c rest, tail = c :: rest → ScanSpec rest)
include htail ih

theorem scan_tail (prev : Option Char) : scan prev tail = unshadowed false (wordsAfter spaceClass tail) := by
  cases tail with
  | nil => exact scan_nil prev
  | cons c rest => exact (ih c rest rfl).blank prev c (htail c rest rfl)

/-- After an object that ends its word, the blank is consumed with it. -/
theorem scan_bareEnd (n : Str) :
    scan (bareEnd n tail).prev (bareEnd n tail).rest = unshadowed true (wordsAfter spaceClass tail) := by
  cases tail with
  | nil => exact scan_nil _
  | cons c rest =>
    by_cases hnl : c = '\n'
    · subst hnl
      refine ((ih '\n' rest rfl).line _ (Or.inr rfl)).trans ?_
      -- A newline casts no shadow.
      obtain ⟨v, more, rfl, hv, hmore⟩ := exists_word spaceClass rest
      simp [wordsAfter, words_append '\n' hv hmore, unshadowed]
    · exact (ih c rest rfl).shadow c (htail c rest rfl) hnl

include hw

/-- What a match at the beginning of a word leads to. -/
theorem scan_object {prev q : Option Char} {text : Str} {t : Place} {n : Str} {b : Bool}
    (hobj : objectWord w = some (n, b))
    (ht : (objectBody.ends ⟨q, w ++ tail, []⟩).head? = some t)
    (hhere : libeventObjectPattern.matchHere ⟨prev, text, []⟩ = some t)
    (hlen : (w ++ tail).length ≤ text.length) :
    scan prev text = n :: unshadowed b (wordsAfter spaceClass tail) := by
  rw [objectBody_head hw htail, hobj] at ht
  obtain ⟨hne, _, hshape⟩ := objectWord_eq_some hobj
  rcases hshape with ⟨rfl, rfl⟩ | ⟨rfl, u, rfl⟩
  · obtain rfl := Option.some.inj ht
    have hlt : (bareEnd n tail).rest.length < text.length := by
      have := bareEnd_length n tail
      have : 3 ≤ (n ++ ".lo".toList).length := by simp
      rw [List.length_append] at hlen
      omega
    rw [scan, Regexp.findAll_match hhere hlt, List.map_cons, bareEnd_submatch]
    exact congrArg (n :: ·) (scan_bareEnd htail ih n)
  · obtain rfl := Option.some.inj ht
    have hcut : (n ++ ".lo".toList ++ ';' :: u).drop (n.length + 4) = u := by
      simp [List.drop_append]
    have hlt : ((n ++ ".lo".toList ++ ';' :: u).drop (n.length + 4) ++ tail).length < text.length := by
      rw [hcut]
      simp only [List.length_append, List.length_cons] at hlen ⊢
      omega
    rw [scan, Regexp.findAll_match hhere hlt, List.map_cons]
    have hmid : ¬ AtLineStart (some ';') := by rintro (h | h) <;> cases h
    have hu : ∀ c ∈ u, spaceClass c = false := fun c hc => hw c (by simp [hc])
    obtain ⟨p, hp⟩ : ∃ p, scan (some ';') (u ++ tail) = scan p tail := scan_word hmid hu
    have hrest := hp.trans (scan_tail htail ih p)
    rw [scan] at hrest
    simp only [hcut, hrest]
    rfl

end

theorem scanSpec (text : Str) : ScanSpec text := by
  induction h : text.length using Nat.strong_induction_on generalizing text with
  | _ m hm =>
    subst h
    obtain ⟨w, tail, rfl, hw, htail⟩ := exists_word spaceClass text
    have ih : ∀ c rest, tail = c :: rest → ScanSpec rest := by
      rintro c rest rfl
      exact hm _ (by simp; omega) rest rfl
    have hwords : ∀ sep, words spaceClass sep (w ++ tail) = (sep, w) :: wordsAfter spaceClass tail := by
      intro sep
      exact words_append sep hw htail
    have hnone : objectWord w = none → ∀ p, (objectBody.ends ⟨p, w ++ tail, []⟩).head? = none := by
      intro hobj p
      rw [objectBody_head hw htail, hobj]
    have hline : ∀ prev, AtLineStart prev →
        scan prev (w ++ tail) = unshadowed false (words spaceClass '\n' (w ++ tail)) := by
      intro prev hprev
      rw [hwords]
      cases w with
      | nil => exact scan_tail htail ih prev
      | cons c w =>
        have hc : spaceClass c = false := hw c List.mem_cons_self
        have hhere : libeventObjectPattern.matchHere ⟨prev, c :: (w ++ tail), []⟩ = _ :=
          (pattern_ends_word hc).1 hprev
        cases hobj : objectWord (c :: w) with
        | some nb =>
          obtain ⟨n, b⟩ := nb
          obtain ⟨t, ht⟩ : ∃ t, (objectBody.ends ⟨prev, c :: w ++ tail, []⟩).head? = some t := by
            rw [objectBody_head hw htail, hobj]
            cases b <;> exact ⟨_, rfl⟩
          refine (scan_object hw htail ih hobj ht (hhere.trans ht) le_rfl).trans ?_
          simp [unshadowed, hobj]
        | none =>
          have hmiss := hhere.trans (hnone hobj prev)
          have hmid : ¬ AtLineStart (some c) := by
            rintro (h | h)
            · cases h
            · obtain rfl := Option.some.inj h
              revert hc
              decide
          obtain ⟨p, hp⟩ : ∃ p, scan (some c) (w ++ tail) = scan p tail :=
            scan_word hmid fun d hd => hw d (List.mem_cons_of_mem c hd)
          have hrest := hp.trans (scan_tail htail ih p)
          have hadv : scan prev (c :: (w ++ tail)) = scan (some c) (w ++ tail) := by
            rw [scan, Regexp.findAll_advance hmiss, scan]
          refine hadv.trans (hrest.trans ?_)
          simp [unshadowed, hobj]
    have hshadow : ∀ c, spaceClass c = true → c ≠ '\n' →
        scan (some c) (w ++ tail) = unshadowed true (words spaceClass c (w ++ tail)) := by
      intro c hc hnl
      have hmid : ¬ AtLineStart (some c) := by rintro (h | h) <;> simp_all
      obtain ⟨p, hp⟩ : ∃ p, scan (some c) (w ++ tail) = scan p tail := scan_word hmid hw
      rw [hwords, hp, scan_tail htail ih p]
      simp [unshadowed, hnl]
    refine ⟨hline, hshadow, ?_⟩
    intro prev c hc
    have hhere : libeventObjectPattern.matchHere ⟨prev, c :: (w ++ tail), []⟩ = _ :=
      pattern_ends_space hc
    cases hobj : objectWord w with
    | some nb =>
      obtain ⟨n, b⟩ := nb
      obtain ⟨t, ht⟩ : ∃ t, (objectBody.ends ⟨some c, w ++ tail, []⟩).head? = some t := by
        rw [objectBody_head hw htail, hobj]
        cases b <;> exact ⟨_, rfl⟩
      rw [scan_object hw htail ih hobj ht (hhere.trans ht) (by simp), hwords]
      simp [unshadowed, hobj]
    | none =>
      have hmiss := hhere.trans (hnone hobj (some c))
      have hadv : scan prev (c :: (w ++ tail)) = scan (some c) (w ++ tail) := by
        rw [scan, Regexp.findAll_advance hmiss, scan]
      rw [hadv]
      by_cases hnl : c = '\n'
      · exact hnl ▸ hline (some c) (Or.inr (congrArg some hnl))
      · rw [hshadow c hc hnl, hwords]
        simp [unshadowed, hobj, hnl]

/-- `extractLibeventObjects` finds the objects that are not shadowed. -/
theorem mem_extractLibeventObjects {out n : Str} :
    n ∈ extractLibeventObjects out ↔ n ∈ unshadowedObjects out := by
  rw [extractLibeventObjects, mem_uniqueStrings]
  change n ∈ scan none out ↔ _
  rw [(scanSpec out).line none (Or.inl rfl)]
  rfl

/-- The result is the strictly increasing list of exactly the objects of the text. -/
def FindsEveryObject (out : Str) : Prop :=
  (extractLibeventObjects out).Pairwise (· < ·) ∧ ∀ n, n ∈ extractLibeventObjects out ↔ IsObject out n

theorem extractLibeventObjects_sound (out : Str) :
    (extractLibeventObjects out).Pairwise (· < ·) ∧
      ∀ n, n ∈ extractLibeventObjects out → IsObject out n :=
  ⟨uniqueStrings_strict _, fun _ hn =>
    isObject_iff.mpr (objectWord_of_mem_unshadowed (mem_extractLibeventObjects.mp hn))⟩

/-- This holds exactly for the texts whose objects all occur unshadowed at least once. -/
theorem extractLibeventObjects_iff (out : Str) :
    FindsEveryObject out ↔ ∀ n, IsObject out n → n ∈ unshadowedObjects out := by
  constructor
  · intro h n hn
    exact mem_extractLibeventObjects.mp ((h.2 n).mpr hn)
  · intro h
    obtain ⟨hstrict, hsound⟩ := extractLibeventObjects_sound out
    exact ⟨hstrict, fun n => ⟨hsound n, fun hn => mem_extractLibeventObjects.mpr (h n hn)⟩⟩

/-! ### Texts without single blanks between objects -/

/-- Two objects stand on one line with one white-space character between them. -/
def SingleBlank (out : Str) : Prop :=
  ∃ pre n c m post, out = pre ++ (n ++ ".lo".toList) ++ c :: (m ++ ".lo".toList) ++ post ∧
    (n ≠ [] ∧ ∀ d ∈ n, objectChar d = true) ∧ (m ≠ [] ∧ ∀ d ∈ m, objectChar d = true) ∧
    (spaceClass c = true ∧ c ≠ '\n') ∧ (∀ d, pre.getLast? = some d → spaceClass d = true) ∧
    ∀ d tail, post = d :: tail → spaceClass d = true ∨ d = ';'

/-- A word that ends with its object is followed by a line end or by no object. -/
def ApartWords (w : Str) (c : Char) (v : Str) : Prop :=
  ∀ n, objectWord w = some (n, true) → c = '\n' ∨ objectWord v = none

theorem words_apart {out : Str} (h : ¬ SingleBlank out) :
    (words spaceClass '\n' out).IsChain fun x y => ApartWords x.2 y.1 y.2 := by
  refine words_isChain '\n' out ?_
  intro pre w c v post hout hc hpre hpost n hw
  by_contra hnot
  obtain ⟨hline, hv⟩ := not_or.mp hnot
  obtain ⟨⟨m, b⟩, hm⟩ := Option.ne_none_iff_exists'.mp hv
  obtain ⟨hn, hnchars, hnshape⟩ := objectWord_eq_some hw
  obtain ⟨hmne, hmchars, hmshape⟩ := objectWord_eq_some hm
  obtain rfl : w = n ++ ".lo".toList := by simpa using hnshape
  rcases hmshape with ⟨_, rfl⟩ | ⟨_, u, rfl⟩
  · exact h ⟨pre, n, c, m, post, hout, ⟨hn, hnchars⟩, ⟨hmne, hmchars⟩, ⟨hc, hline⟩, hpre,
      fun d tail hd => Or.inl (hpost d tail hd)⟩
  · refine h ⟨pre, n, c, m, ';' :: u ++ post, by simp [hout], ⟨hn, hnchars⟩, ⟨hmne, hmchars⟩,
      ⟨hc, hline⟩, hpre, fun d tail hd => Or.inr ?_⟩
    exact (List.cons.inj hd).1.symm

/-- Among words that are apart none is shadowed, unless the first one is. -/
theorem unshadowed_of_apart {ws : List (Char × Str)} {shadow : Bool}
    (hapart : ws.IsChain fun x y => ApartWords x.2 y.1 y.2)
    (hfirst : shadow = true → ∀ x ∈ ws.head?, x.1 = '\n' ∨ objectWord x.2 = none) :
    unshadowed shadow ws = ws.filterMap fun x => (objectWord x.2).map Prod.fst := by
  induction ws generalizing shadow with
  | nil => rfl
  | cons x ws ih =>
    obtain ⟨sep, v⟩ := x
    have hfalse : unshadowed false ws = ws.filterMap fun x => (objectWord x.2).map Prod.fst :=
      ih hapart.tail fun h => by cases h
    cases hobj : objectWord v with
    | none =>
      have hskip : unshadowed shadow ((sep, v) :: ws) = unshadowed false ws := by
        rw [unshadowed, hobj, ite_self]
      rw [hskip, hfalse, List.filterMap_cons_none (by rw [hobj]; rfl)]
    | some found =>
      obtain ⟨n, ends⟩ := found
      have hnot : ¬ (shadow = true ∧ sep ≠ '\n') := by
        rintro ⟨hshadow, hsep⟩
        have hnone := (hfirst hshadow (sep, v) rfl).resolve_left hsep
        rw [hobj] at hnone
        cases hnone
      have hnext : unshadowed ends ws = ws.filterMap fun x => (objectWord x.2).map Prod.fst := by
        refine ih hapart.tail ?_
        rintro rfl y hy
        obtain ⟨ws', rfl⟩ := List.head?_eq_some_iff.mp hy
        exact (List.isChain_cons_cons.mp hapart).1 n hobj
      rw [unshadowed, if_neg hnot, hobj, List.filterMap_cons_some (by rw [hobj]; rfl)]
      exact congrArg (n :: ·) hnext

/-- So every object is found as long as no two of a line have a single blank between them. -/
theorem findsEveryObject_of_apart {out : Str} (h : ¬ SingleBlank out) : FindsEveryObject out := by
  obtain ⟨hstrict, hsound⟩ := extractLibeventObjects_sound out
  refine ⟨hstrict, fun n => ⟨hsound n, fun hn => ?_⟩⟩
  obtain ⟨s, w, b, hw, hobj⟩ := isObject_iff.mp hn
  have hall : unshadowed false (words spaceClass '\n' out) = _ :=
    unshadowed_of_apart (words_apart h) fun hfalse => by cases hfalse
  rw [mem_extractLibeventObjects, unshadowedObjects, hall]
  exact List.mem_filterMap.mpr ⟨(s, w), hw, by rw [hobj]; rfl⟩

/-- Of two objects with a single blank between them the second is lost. -/
theorem extractLibeventObjects_loses : ¬ ∀ out, FindsEveryObject out := by
  intro h
  have hblank : ∀ c, "a.lo ".toList.getLast? = some c → spaceClass c = true := by
    intro c hc
    rw [← Option.some.inj (show some ' ' = some c from hc)]
    decide
  have hb : IsObject "a.lo b.lo".toList "b".toList :=
    ⟨by decide, by decide, "a.lo ".toList, [], by decide, hblank, by simp⟩
  have hmem := ((h "a.lo b.lo".toList).2 "b".toList).mpr hb
  revert hmem
  decide

end GoLibtor
