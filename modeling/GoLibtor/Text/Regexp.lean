import Mathlib

/-! Regular expressions with the leftmost-first meaning: a pattern lists its matches at a
place in the order of preference, and a search takes the first one at the first place
that has any. Iterations are greedy and each of them consumes something. -/
namespace Text

abbrev Str := List Char

instance : LawfulBEq Str := inferInstance

/-- A claim about the characters of a text is decided by going through the text, not the alphabet. -/
instance (priority := 2000) decidableBallChar (P : Char → Prop) [DecidablePred P] (s : Str) :
    Decidable (∀ c ∈ s, P c) := List.decidableBAll P s

/-- A place in a text: the character before it, what follows, and the groups so far. -/
structure Place where
  prev : Option Char
  rest : Str
  groups : List (ℕ × Str)
  deriving DecidableEq, Repr

inductive Regexp where
  | empty
  | set (p : Char → Bool)
  | lineStart
  | lineEnd
  | textStart
  | textEnd
  | seq (a b : Regexp)
  | alt (a b : Regexp)
  | star (a : Regexp)
  | group (n : ℕ) (a : Regexp)

namespace Place

def start (text : Str) : Place := ⟨none, text, []⟩

def past (s : Place) (c : Char) (rest : Str) : Place := ⟨some c, rest, s.groups⟩

/-- Record as group `n` what lies between two places of one text. -/
def capture (n : ℕ) (s t : Place) : Place :=
  { t with groups := (n, s.rest.take (s.rest.length - t.rest.length)) :: t.groups }

/-- The last text recorded as group `n`, empty if there is none. -/
def submatch (s : Place) (n : ℕ) : Str :=
  ((s.groups.find? fun g => g.1 == n).map Prod.snd).getD []

end Place

/-- Iterate a list of ways on, longest first, each iteration leaving less text. -/
def iterate (f : Place → List Place) : ℕ → Place → List Place
  | 0, s => [s]
  | n + 1, s =>
    ((f s).filter fun t => t.rest.length < s.rest.length).flatMap (iterate f n) ++ [s]

namespace Regexp

/-- The places where a match that begins here may end, in order of preference. -/
def ends : Regexp → Place → List Place
  | .empty, s => [s]
  | .set p, s =>
    match s.rest with
    | c :: rest => if p c then [s.past c rest] else []
    | [] => []
  | .lineStart, s => if s.prev = none ∨ s.prev = some '\n' then [s] else []
  | .lineEnd, s => if s.rest = [] ∨ s.rest.head? = some '\n' then [s] else []
  | .textStart, s => if s.prev = none then [s] else []
  | .textEnd, s => if s.rest = [] then [s] else []
  | .seq a b, s => (a.ends s).flatMap fun t => b.ends t
  | .alt a b, s => a.ends s ++ b.ends s
  | .star a, s => iterate (fun t => a.ends t) s.rest.length s
  | .group n a, s => (a.ends s).map (s.capture n)

def char (c : Char) : Regexp := .set (· == c)

/-- The characters of a text, one after the other. -/
def lit : Str → Regexp
  | [] => .empty
  | c :: cs => .seq (char c) (lit cs)

def plus (a : Regexp) : Regexp := .seq a (.star a)

def opt (a : Regexp) : Regexp := .alt a .empty

/-- The preferred match that begins exactly here. -/
def matchHere (r : Regexp) (s : Place) : Option Place := (r.ends s).head?

/-- The leftmost match from a place on. -/
def find (r : Regexp) : (prev : Option Char) → Str → Option Place
  | prev, [] => r.matchHere ⟨prev, [], []⟩
  | prev, c :: rest => (r.matchHere ⟨prev, c :: rest, []⟩).or (r.find (some c) rest)

/-- The leftmost match of a text, as `FindStringSubmatch` and `FindSubmatch` take it. -/
def findSubmatch (r : Regexp) (text : Str) : Option Place := r.find none text

/-- Matches that do not overlap, from left to right; each search begins where the last match
ended. A match of the empty text is passed over: no pattern used here has one. -/
def findAllFuel (r : Regexp) : ℕ → Option Char → Str → List Place
  | 0, _, _ => []
  | n + 1, prev, rest =>
    match (r.matchHere ⟨prev, rest, []⟩).filter fun t => t.rest.length < rest.length with
    | some t => t :: r.findAllFuel n t.prev t.rest
    | none =>
      match rest with
      | [] => []
      | c :: cs => r.findAllFuel n (some c) cs

def findAll (r : Regexp) (prev : Option Char) (rest : Str) : List Place :=
  r.findAllFuel (rest.length + 1) prev rest

/-- `FindAllStringSubmatch(text, -1)`. -/
def findAllSubmatch (r : Regexp) (text : Str) : List Place := r.findAll none text

/-- The match the search takes here, if it is not of the empty text. -/
def step (r : Regexp) (prev : Option Char) (rest : Str) : Option Place :=
  (r.matchHere ⟨prev, rest, []⟩).filter fun t => t.rest.length < rest.length

theorem findAllFuel_some {r : Regexp} {prev : Option Char} {rest : Str} {t : Place} (n : ℕ)
    (h : r.step prev rest = some t) :
    r.findAllFuel (n + 1) prev rest = t :: r.findAllFuel n t.prev t.rest := by
  rw [step] at h
  simp [findAllFuel, h]

theorem findAllFuel_none {r : Regexp} {prev : Option Char} {c : Char} {cs : Str} (n : ℕ)
    (h : r.step prev (c :: cs) = none) :
    r.findAllFuel (n + 1) prev (c :: cs) = r.findAllFuel n (some c) cs := by
  rw [step] at h
  simp only [findAllFuel, h]

theorem step_lt {r : Regexp} {prev : Option Char} {rest : Str} {t : Place}
    (h : r.step prev rest = some t) : t.rest.length < rest.length := by
  simpa using (Option.filter_eq_some_iff.mp h).2

theorem step_nil (r : Regexp) (prev : Option Char) : r.step prev [] = none := by
  cases h : r.step prev [] with
  | none => rfl
  | some t => exact absurd (step_lt h) (Nat.not_lt_zero _)

theorem findAllFuel_nil (r : Regexp) (n : ℕ) (prev : Option Char) : r.findAllFuel n prev [] = [] := by
  cases n with
  | zero => rfl
  | succ n =>
    have h := step_nil r prev
    rw [step] at h
    simp only [findAllFuel, h]

theorem findAllFuel_eq (r : Regexp) {n m : ℕ} {prev : Option Char} {rest : Str}
    (hn : rest.length < n) (hm : rest.length < m) :
    r.findAllFuel n prev rest = r.findAllFuel m prev rest := by
  induction n generalizing m prev rest with
  | zero => omega
  | succ n ih =>
    cases m with
    | zero => omega
    | succ m =>
      cases h : r.step prev rest with
      | some t =>
        have hlt := step_lt h
        rw [findAllFuel_some n h, findAllFuel_some m h, ih (m := m) (by omega) (by omega)]
      | none =>
        cases rest with
        | nil => rw [findAllFuel_nil, findAllFuel_nil]
        | cons c cs =>
          rw [List.length_cons] at hn hm
          rw [findAllFuel_none n h, findAllFuel_none m h, ih (m := m) (by omega) (by omega)]

/-- A match here is taken, and the search goes on where it ended. -/
theorem findAll_match {r : Regexp} {prev : Option Char} {rest : Str} {t : Place}
    (h : r.matchHere ⟨prev, rest, []⟩ = some t) (hlt : t.rest.length < rest.length) :
    r.findAll prev rest = t :: r.findAll t.prev t.rest := by
  have hstep : r.step prev rest = some t := by simp [step, h, hlt]
  rw [findAll, findAllFuel_some _ hstep]
  exact congrArg (t :: ·) (findAllFuel_eq r hlt (Nat.lt_succ_self _))

/-- Without a match here the search moves on by one character. -/
theorem findAll_advance {r : Regexp} {prev : Option Char} {c : Char} {cs : Str}
    (h : r.matchHere ⟨prev, c :: cs, []⟩ = none) :
    r.findAll prev (c :: cs) = r.findAll (some c) cs := by
  have hstep : r.step prev (c :: cs) = none := by rw [step, h, Option.filter_none]
  rw [findAll, findAllFuel_none _ hstep]
  rfl

theorem findAll_nil (r : Regexp) (prev : Option Char) : r.findAll prev [] = [] :=
  findAllFuel_nil r _ prev

end Regexp

namespace Place

/-- The place after the longest run of characters in `p`. -/
def skip (p : Char → Bool) (s : Place) : Place :=
  ⟨((s.rest.takeWhile p).getLast?).or s.prev, s.rest.dropWhile p, s.groups⟩

theorem skip_past {p : Char → Bool} {s : Place} {c : Char} {rest : Str} (h : s.rest = c :: rest)
    (hc : p c = true) : s.skip p = (s.past c rest).skip p := by
  obtain ⟨prev, _, groups⟩ := s
  obtain rfl : _ = c :: rest := h
  simp only [skip, past, List.takeWhile_cons_of_pos hc, List.dropWhile_cons_of_pos hc,
    List.getLast?_cons, Option.or_some]
  cases (rest.takeWhile p).getLast? <;> rfl

theorem skip_of_not {p : Char → Bool} {s : Place} (h : ∀ c rest, s.rest = c :: rest → p c = false) :
    s.skip p = s := by
  obtain ⟨prev, rest, groups⟩ := s
  cases rest with
  | nil => rfl
  | cons c rest => simp [skip, h c rest rfl]

end Place

namespace Regexp

/-- `k` cannot go on in the middle of a run of characters in `p`. -/
def Stuck (p : Char → Bool) (k : Place → List Place) : Prop :=
  ∀ t c rest, t.rest = c :: rest → p c = true → k t = []

theorem ends_seq (a b : Regexp) (s : Place) :
    (Regexp.seq a b).ends s = (a.ends s).flatMap fun t => b.ends t := rfl

theorem ends_alt (a b : Regexp) (s : Place) : (Regexp.alt a b).ends s = a.ends s ++ b.ends s := rfl

theorem ends_set_cons {p : Char → Bool} {s : Place} {c : Char} {rest : Str} (h : s.rest = c :: rest) :
    (Regexp.set p).ends s = if p c then [s.past c rest] else [] := by
  simp [ends, h]

theorem ends_set_nil {p : Char → Bool} {s : Place} (h : s.rest = []) :
    (Regexp.set p).ends s = [] := by
  simp [ends, h]

/-- A greedy run followed by what cannot go on inside the run: only the whole run counts. -/
theorem iterate_set_flatMap {p : Char → Bool} {k : Place → List Place} (hk : Stuck p k) {n : ℕ}
    {s : Place} (hn : s.rest.length ≤ n) :
    (iterate (fun t => (Regexp.set p).ends t) n s).flatMap k = k (s.skip p) := by
  induction n generalizing s with
  | zero =>
    have hnil : s.rest = [] := List.length_eq_zero_iff.mp (Nat.le_zero.mp hn)
    rw [Place.skip_of_not (by simp [hnil])]
    simp [iterate]
  | succ n ih =>
    cases hrest : s.rest with
    | nil =>
      rw [Place.skip_of_not (by simp [hrest])]
      simp [iterate, ends_set_nil hrest]
    | cons c rest =>
      by_cases hc : p c = true
      · have hlen : rest.length ≤ n := by simpa [hrest] using hn
        have hnext := ih (s := s.past c rest) hlen
        rw [Place.skip_past hrest hc, ← hnext]
        simp [iterate, ends_set_cons hrest, hc, hrest, Place.past, hk s c rest hrest hc]
      · rw [Place.skip_of_not (by simp [hrest, hc])]
        simp [iterate, ends_set_cons hrest, hc]

theorem ends_star_set_flatMap {p : Char → Bool} {k : Place → List Place} (hk : Stuck p k) (s : Place) :
    ((Regexp.star (.set p)).ends s).flatMap k = k (s.skip p) :=
  iterate_set_flatMap hk le_rfl

/-- The same for a run that may not be empty. -/
theorem ends_plus_set_flatMap {p : Char → Bool} {k : Place → List Place} (hk : Stuck p k) {s : Place}
    {c : Char} {rest : Str} (h : s.rest = c :: rest) :
    ((plus (.set p)).ends s).flatMap k = if p c then k (s.skip p) else [] := by
  rw [plus, ends, ends_set_cons h]
  split
  next hc =>
    rw [List.flatMap_singleton, ends_star_set_flatMap hk, ← Place.skip_past h hc]
  next => rfl

theorem ends_plus_set_nil {p : Char → Bool} {s : Place} (h : s.rest = []) :
    (plus (.set p)).ends s = [] := by
  rw [plus, ends, ends_set_nil h, List.flatMap_nil]

/-- A captured greedy run: the group holds the whole run. -/
theorem ends_group_plus_set_flatMap {p : Char → Bool} {k : Place → List Place} (hk : Stuck p k)
    {n : ℕ} {s : Place} {c : Char} {rest : Str} (h : s.rest = c :: rest) :
    ((Regexp.group n (plus (.set p))).ends s).flatMap k =
      if p c then k (s.capture n (s.skip p)) else [] := by
  rw [ends, List.flatMap_map]
  exact ends_plus_set_flatMap (k := fun t => k (s.capture n t))
    (fun t d tail ht hd => hk _ d tail ht hd) h

/-- A literal matches exactly where the text goes on with it. -/
theorem ends_lit {cs : Str} {s : Place} {rest : Str} (h : s.rest = cs ++ rest) :
    (lit cs).ends s = [⟨cs.getLast?.or s.prev, rest, s.groups⟩] := by
  induction cs generalizing s with
  | nil =>
    obtain ⟨prev, _, groups⟩ := s
    obtain rfl : _ = rest := h
    rfl
  | cons c cs ih =>
    have hcons : s.rest = c :: (cs ++ rest) := h
    rw [lit, ends, char, ends_set_cons hcons, beq_self_eq_true, if_pos rfl,
      List.flatMap_singleton, ih (s := s.past c (cs ++ rest)) rfl, List.getLast?_cons]
    cases cs.getLast? <;> rfl

theorem ends_lit_of_not {cs : Str} {s : Place} (h : ¬ cs <+: s.rest) : (lit cs).ends s = [] := by
  induction cs generalizing s with
  | nil => exact absurd List.nil_prefix h
  | cons c cs ih =>
    rw [lit, ends, char]
    cases hrest : s.rest with
    | nil => rw [ends_set_nil hrest, List.flatMap_nil]
    | cons d rest =>
      rw [ends_set_cons hrest]
      by_cases hd : d = c
      · have hnot : ¬ cs <+: rest := fun hpre => h (by
          rw [hrest, hd]
          exact List.cons_prefix_cons.mpr ⟨rfl, hpre⟩)
        simpa [hd, Place.past] using ih (s := s.past c rest) hnot
      · simp [hd]

/-! ### What a match consumes -/

theorem mem_ends_set {p : Char → Bool} {s t : Place} (h : t ∈ (Regexp.set p).ends s) :
    ∃ c, p c = true ∧ s.rest = c :: t.rest ∧ t.groups = s.groups := by
  cases hrest : s.rest with
  | nil =>
    rw [ends_set_nil hrest] at h
    cases h
  | cons c rest =>
    rw [ends_set_cons hrest] at h
    split at h
    next hc =>
      rw [List.mem_singleton.mp h]
      exact ⟨c, hc, rfl, rfl⟩
    next => cases h

theorem mem_iterate_set {p : Char → Bool} {n : ℕ} {s t : Place}
    (h : t ∈ iterate (fun t => (Regexp.set p).ends t) n s) :
    ∃ run, s.rest = run ++ t.rest ∧ (∀ c ∈ run, p c = true) ∧ t.groups = s.groups := by
  have hempty : ∃ run : Str, s.rest = run ++ s.rest ∧ (∀ c ∈ run, p c = true) ∧ s.groups = s.groups :=
    ⟨[], rfl, by simp, rfl⟩
  induction n generalizing s with
  | zero =>
    rw [List.mem_singleton.mp h]
    exact hempty
  | succ n ih =>
    rcases List.mem_append.mp h with hmore | hstop
    · obtain ⟨u, hu, ht⟩ := List.mem_flatMap.mp hmore
      obtain ⟨c, hc, hrest, hgroups⟩ := mem_ends_set (List.mem_filter.mp hu).1
      obtain ⟨run, hrun, hall, hgroups'⟩ := ih ht ⟨[], rfl, by simp, rfl⟩
      refine ⟨c :: run, by rw [hrest, hrun, List.cons_append], ?_, hgroups'.trans hgroups⟩
      intro d hd
      rcases List.mem_cons.mp hd with rfl | hd
      · exact hc
      · exact hall d hd
    · rw [List.mem_singleton.mp hstop]
      exact hempty

theorem mem_ends_plus_set {p : Char → Bool} {s t : Place} (h : t ∈ (plus (.set p)).ends s) :
    ∃ run, s.rest = run ++ t.rest ∧ (∀ c ∈ run, p c = true) ∧ t.groups = s.groups := by
  obtain ⟨u, hu, ht⟩ := List.mem_flatMap.mp h
  obtain ⟨c, hc, hrest, hgroups⟩ := mem_ends_set hu
  obtain ⟨run, hrun, hall, hgroups'⟩ := mem_iterate_set ht
  refine ⟨c :: run, by rw [hrest, hrun, List.cons_append], ?_, hgroups'.trans hgroups⟩
  intro d hd
  rcases List.mem_cons.mp hd with rfl | hd
  · exact hc
  · exact hall d hd

theorem mem_ends_lit {cs : Str} {s t : Place} (h : t ∈ (lit cs).ends s) : t.groups = s.groups := by
  induction cs generalizing s with
  | nil => rw [List.mem_singleton.mp h]
  | cons c cs ih =>
    obtain ⟨u, hu, ht⟩ := List.mem_flatMap.mp h
    obtain ⟨_, _, _, hgroups⟩ := mem_ends_set hu
    exact (ih ht).trans hgroups

/-- A captured run consists of characters of its class. -/
theorem submatch_of_group_plus_set {p : Char → Bool} {n : ℕ} {cs : Str} {s t : Place}
    (h : t ∈ (Regexp.seq (.group n (plus (.set p))) (lit cs)).ends s) : ∀ c ∈ t.submatch n, p c = true := by
  obtain ⟨u, hu, ht⟩ := List.mem_flatMap.mp h
  obtain ⟨v, hv, rfl⟩ := List.mem_map.mp hu
  obtain ⟨run, hrun, hall, -⟩ := mem_ends_plus_set hv
  have hcaptured : t.submatch n = run := by
    unfold Place.submatch
    rw [mem_ends_lit ht]
    simp [Place.capture, hrun]
  rw [hcaptured]
  exact hall

/-- Every match that is found is a match somewhere. -/
theorem mem_findAllSubmatch {r : Regexp} {text : Str} {t : Place} (h : t ∈ r.findAllSubmatch text) :
    ∃ prev rest, t ∈ r.ends ⟨prev, rest, []⟩ := by
  have hfuel : ∀ (n : ℕ) (prev : Option Char) (rest : Str), t ∈ r.findAllFuel n prev rest →
      ∃ prev rest, t ∈ r.ends ⟨prev, rest, []⟩ := by
    intro n
    induction n with
    | zero =>
      intro prev rest hmem
      cases hmem
    | succ n ih =>
      intro prev rest hmem
      cases hstep : r.step prev rest with
      | some u =>
        rw [findAllFuel_some n hstep] at hmem
        rcases List.mem_cons.mp hmem with rfl | hmem
        · exact ⟨prev, rest, List.mem_of_mem_head? (Option.filter_eq_some_iff.mp hstep).1⟩
        · exact ih _ _ hmem
      | none =>
        cases rest with
        | nil =>
          rw [findAllFuel_nil] at hmem
          cases hmem
        | cons c cs =>
          rw [findAllFuel_none n hstep] at hmem
          exact ih _ _ hmem
  exact hfuel _ _ _ h

end Regexp
end Text
