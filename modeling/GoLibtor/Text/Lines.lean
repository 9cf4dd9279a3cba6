import GoLibtor.Text.Strings

/-! Patterns that begin at the start of a line are searched line by line. -/
namespace Text

/-- The text goes on with a new line, or ends. -/
def LineEnds (rest : Str) : Prop := rest = [] ∨ ∃ more, rest = '\n' :: more

/-- What begins a text without a newline of its own begins the first line. -/
theorem prefix_of_line {p line rest : Str} (hp : '\n' ∉ p) (hrest : LineEnds rest)
    (h : p <+: line ++ rest) : p <+: line := by
  rcases List.prefix_or_prefix_of_prefix h (List.prefix_append line rest) with hline | ⟨u, hu⟩
  · exact hline
  · rw [← hu, List.prefix_append_right_inj] at h
    cases u with
    | nil => exact ⟨[], by rw [← hu, List.append_nil, List.append_nil]⟩
    | cons c u =>
      exfalso
      rcases hrest with hrest | ⟨more, hrest⟩
      · rw [hrest] at h
        exact absurd (List.prefix_nil.mp h) (List.cons_ne_nil c u)
      · rw [hrest] at h
        apply hp
        rw [← hu, (List.cons_prefix_cons.mp h).1]
        simp

theorem joinLines_cons (line next : Str) (lines : List Str) :
    joinWith "\n".toList (line :: next :: lines) = line ++ '\n' :: joinWith "\n".toList (next :: lines) := by
  rw [joinWith_cons, joinWith_cons]
  simp

namespace Regexp

variable {r : Regexp}

theorem matchHere_lineStart {prev : Option Char} {text : Str} (hprev : prev = none ∨ prev = some '\n') :
    (Regexp.seq .lineStart r).matchHere ⟨prev, text, []⟩ = r.matchHere ⟨prev, text, []⟩ := by
  unfold matchHere
  rw [ends_seq, ends, if_pos hprev, List.flatMap_singleton]

theorem matchHere_inside {c : Char} {text : Str} (hc : c ≠ '\n') :
    (Regexp.seq .lineStart r).matchHere ⟨some c, text, []⟩ = none := by
  unfold matchHere
  rw [ends_seq, ends, if_neg (by simpa using hc)]
  rfl

/-- Inside a line nothing is found: the search goes on with the next line. -/
theorem find_inside {c : Char} {line rest : Str} (hc : c ≠ '\n') (hline : '\n' ∉ line) :
    (Regexp.seq .lineStart r).find (some c) (line ++ '\n' :: rest) =
      (Regexp.seq .lineStart r).find (some '\n') rest := by
  induction line generalizing c with
  | nil => rw [List.nil_append, find, matchHere_inside hc, Option.none_or]
  | cons d line ih =>
    have hd : d ≠ '\n' := fun h => hline (h ▸ List.mem_cons_self)
    rw [List.cons_append, find, matchHere_inside hc, Option.none_or]
    exact ih hd fun h => hline (List.mem_cons_of_mem d h)

theorem find_inside_last {c : Char} {line : Str} (hc : c ≠ '\n') (hline : '\n' ∉ line) :
    (Regexp.seq .lineStart r).find (some c) line = none := by
  induction line generalizing c with
  | nil => rw [find, matchHere_inside hc]
  | cons d line ih =>
    have hd : d ≠ '\n' := fun h => hline (h ▸ List.mem_cons_self)
    rw [find, matchHere_inside hc, Option.none_or]
    exact ih hd fun h => hline (List.mem_cons_of_mem d h)

/-- A line is matched at its start, or the search goes on with the next one. -/
theorem find_line {prev : Option Char} {line rest : Str} (hprev : prev = none ∨ prev = some '\n')
    (hline : '\n' ∉ line) :
    (Regexp.seq .lineStart r).find prev (line ++ '\n' :: rest) =
      (r.matchHere ⟨prev, line ++ '\n' :: rest, []⟩).or ((Regexp.seq .lineStart r).find (some '\n') rest) := by
  cases line with
  | nil => rw [List.nil_append, find, matchHere_lineStart hprev]
  | cons c line =>
    have hc : c ≠ '\n' := fun h => hline (h ▸ List.mem_cons_self)
    rw [List.cons_append, find, matchHere_lineStart hprev,
      find_inside hc fun h => hline (List.mem_cons_of_mem c h)]

theorem find_last_line {prev : Option Char} {line : Str} (hprev : prev = none ∨ prev = some '\n')
    (hline : '\n' ∉ line) :
    (Regexp.seq .lineStart r).find prev line = r.matchHere ⟨prev, line, []⟩ := by
  cases line with
  | nil => rw [find, matchHere_lineStart hprev]
  | cons c line =>
    have hc : c ≠ '\n' := fun h => hline (h ▸ List.mem_cons_self)
    rw [find, matchHere_lineStart hprev, find_inside_last hc fun h => hline (List.mem_cons_of_mem c h),
      Option.or_none]

/-- A pattern that matches at the start of no line is not found. -/
theorem find_lines_none {prev : Option Char} {lines : List Str} (hprev : prev = none ∨ prev = some '\n')
    (hlines : ∀ line ∈ lines, '\n' ∉ line)
    (hnone : ∀ line ∈ lines, ∀ prev rest, LineEnds rest → r.matchHere ⟨prev, line ++ rest, []⟩ = none)
    (hne : lines ≠ []) :
    (Regexp.seq .lineStart r).find prev (joinWith "\n".toList lines) = none := by
  induction lines generalizing prev with
  | nil => exact absurd rfl hne
  | cons line lines ih =>
    have hhere : ∀ rest, LineEnds rest → r.matchHere ⟨prev, line ++ rest, []⟩ = none :=
      hnone line List.mem_cons_self prev
    have hline : '\n' ∉ line := hlines line List.mem_cons_self
    cases lines with
    | nil =>
      have hlast := hhere [] (Or.inl rfl)
      rw [List.append_nil] at hlast
      rw [joinWith_cons, List.map_nil, List.flatten_nil, List.append_nil, find_last_line hprev hline, hlast]
    | cons next lines =>
      rw [joinLines_cons, find_line hprev hline, hhere _ (Or.inr ⟨_, rfl⟩), Option.none_or]
      apply ih (Or.inr rfl)
      · exact fun l hl => hlines l (List.mem_cons_of_mem line hl)
      · exact fun l hl => hnone l (List.mem_cons_of_mem line hl)
      · exact List.cons_ne_nil next lines

/-- The first line that matches is the one that is found. -/
theorem find_lines_some {P : Place → Prop} {prev : Option Char} {before after : List Str} {line : Str}
    (hprev : prev = none ∨ prev = some '\n') (hlines : ∀ l ∈ before ++ line :: after, '\n' ∉ l)
    (hbefore : ∀ l ∈ before, ∀ prev rest, LineEnds rest → r.matchHere ⟨prev, l ++ rest, []⟩ = none)
    (hfound : ∀ prev rest, LineEnds rest → ∃ t, r.matchHere ⟨prev, line ++ rest, []⟩ = some t ∧ P t) :
    ∃ t, (Regexp.seq .lineStart r).find prev (joinWith "\n".toList (before ++ line :: after)) = some t ∧ P t := by
  induction before generalizing prev with
  | nil =>
    have hline : '\n' ∉ line := hlines line (by simp)
    cases after with
    | nil =>
      obtain ⟨t, ht, hP⟩ := hfound prev [] (Or.inl rfl)
      rw [List.append_nil] at ht
      refine ⟨t, ?_, hP⟩
      rw [List.nil_append, joinWith_cons, List.map_nil, List.flatten_nil, List.append_nil,
        find_last_line hprev hline, ht]
    | cons next after =>
      obtain ⟨t, ht, hP⟩ := hfound prev _ (Or.inr ⟨joinWith "\n".toList (next :: after), rfl⟩)
      refine ⟨t, ?_, hP⟩
      rw [List.nil_append, joinLines_cons, find_line hprev hline, ht, Option.some_or]
  | cons l before ih =>
    have hl : '\n' ∉ l := hlines l (by simp)
    obtain ⟨t, ht, hP⟩ := ih (Or.inr rfl) (fun l' hl' => hlines l' (List.mem_cons_of_mem l hl'))
      fun l' hl' => hbefore l' (List.mem_cons_of_mem l hl')
    refine ⟨t, ?_, hP⟩
    obtain ⟨next, rest, heq⟩ : ∃ next rest, before ++ line :: after = next :: rest := by
      cases before with
      | nil => exact ⟨_, _, rfl⟩
      | cons d before => exact ⟨_, _, rfl⟩
    rw [List.cons_append, heq, joinLines_cons, find_line hprev hl,
      hbefore l List.mem_cons_self prev _ (Or.inr ⟨_, rfl⟩), Option.none_or, ← heq, ht]

end Regexp

end Text
