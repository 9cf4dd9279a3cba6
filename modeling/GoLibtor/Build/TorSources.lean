import GoLibtor.Build.Extract
import GoLibtor.Text.Words
import Mathlib.Data.List.DropRight

/-! Which names the scan of `wrapTor` finds. Its pattern is not anchored, so it takes a name from
the middle of a word, and cuts one off at a character that is not in its alphabet. -/
namespace GoLibtor

open Text Regexp

/-- White space, the quotes and the semicolon. -/
def delimiter (c : Char) : Bool := spaceClass c || "\"'`;".toList.contains c

def outputWords (out : Str) : List Str := (words delimiter '\n' out).map Prod.snd

/-- The path of a word that ends in `.c`, a leading `./` left out. -/
def torPath (w : Str) : Option Str :=
  if hasSuffix w ".c".toList then
    let p := trimPrefix (trimSuffix w ".c".toList) "./".toList
    if p = [] then none else some p
  else none

/-- A path that is a complete word of the output when `.c` follows it. -/
def IsTorPath (out p : Str) : Prop :=
  p ≠ [] ∧ ∃ before w after, out = before ++ w ++ after ∧ (∀ c ∈ w, delimiter c = false) ∧
    (∀ c, before.getLast? = some c → delimiter c = true) ∧
    (∀ c tail, after = c :: tail → delimiter c = true) ∧
    ∃ dir, w = dir ++ ".c".toList ∧ p = trimPrefix dir "./".toList

/-- The path of each word that has one, in the order of the output. -/
def torPaths (out : Str) : List Str := (outputWords out).filterMap torPath

/-- No `.c` in the text stands behind a character of the alphabet of the scan. -/
def NoneBehind (t : Str) : Prop :=
  ∀ u c v, t = u ++ c :: (".c".toList ++ v) → torSourceChar c = false

/-- A word read from left to right: each stretch goes to the first `.c` that stands behind a character
of the alphabet, and such a `.c` is in none of them nor behind the last. -/
structure Reading (w : Str) (stretches : List Str) (tail : Str) : Prop where
  word : w = (stretches.flatMap fun s => s ++ ".c".toList) ++ tail
  reaches : ∀ s ∈ stretches, ∃ c, s.getLast? = some c ∧ torSourceChar c = true
  first : ∀ s ∈ stretches, NoneBehind s
  rest : NoneBehind tail

/-- A name is the run of the alphabet at the end of a stretch. -/
def NameOf (w p : Str) : Prop :=
  ∃ stretches tail, Reading w stretches tail ∧ ∃ s ∈ stretches, p = s.rtakeWhile torSourceChar

/-- The runs of the alphabet of the scan that `.c` follows, the text being read from left to
right: `run` is the run that ends where the text begins, less what belongs to a `.c` before it. -/
def fragments : (run : Str) → Str → List Str
  | _, [] => []
  | run, '.' :: 'c' :: rest =>
    if run = [] then fragments ['c'] rest else run :: fragments [] rest
  | run, c :: rest => if torSourceChar c then fragments (run ++ [c]) rest else fragments [] rest

/-! ### The scan -/

theorem torSourceChar_dot : torSourceChar '.' = false := by decide

/-- A run that is longer by a character of the alphabet. -/
theorem torSourceChar_concat {run : Str} {c : Char} (hrun : ∀ d ∈ run, torSourceChar d = true)
    (hc : torSourceChar c = true) : ∀ d ∈ run ++ [c], torSourceChar d = true :=
  List.forall_mem_append.mpr ⟨hrun, List.forall_mem_singleton.mpr hc⟩

theorem fragments_char {run rest : Str} {c : Char} (hc : torSourceChar c = true) :
    fragments run (c :: rest) = fragments (run ++ [c]) rest := by
  rw [fragments, if_pos hc]
  intro more hfirst _
  rw [hfirst, torSourceChar_dot] at hc
  cases hc

/-- What follows the run of a name. -/
theorem torSource_stuck : Stuck torSourceChar fun t => (lit ".c".toList).ends t := by
  intro t c rest ht hc
  have hnot : ¬ ".c".toList <+: t.rest := by
    rw [ht]
    intro hpre
    have hdot : '.' = c := (List.cons_prefix_cons.mp hpre).1
    rw [← hdot, torSourceChar_dot] at hc
    cases hc
  exact ends_lit_of_not hnot

theorem torSource_ends (prev : Option Char) {run rest : Str} (hne : run ≠ [])
    (hrun : ∀ c ∈ run, torSourceChar c = true) (hrest : ∀ c, rest.head? = some c → torSourceChar c = false) :
    torSourcePattern.ends ⟨prev, run ++ rest, []⟩ =
      (lit ".c".toList).ends ⟨run.getLast?.or prev, rest, [(1, run)]⟩ := by
  have htake : (run ++ rest).takeWhile torSourceChar = run := by
    rw [List.takeWhile_append_of_pos hrun]
    cases rest with
    | nil => simp
    | cons c rest => rw [List.takeWhile_cons_of_neg (by simp [hrest c rfl]), List.append_nil]
  have hdrop : (run ++ rest).dropWhile torSourceChar = rest := by
    rw [List.dropWhile_append_of_pos hrun]
    cases rest with
    | nil => rfl
    | cons c rest => rw [List.dropWhile_cons_of_neg (by simp [hrest c rfl])]
  cases hchars : run with
  | nil => exact absurd hchars hne
  | cons c more =>
    have hc : torSourceChar c = true := hrun c (hchars ▸ List.mem_cons_self)
    have hends := ends_group_plus_set_flatMap torSource_stuck (n := 1)
      (s := ⟨prev, c :: (more ++ rest), []⟩) rfl
    rw [if_pos hc] at hends
    refine hends.trans ?_
    have hskip : Place.skip torSourceChar ⟨prev, c :: (more ++ rest), []⟩ =
        ⟨run.getLast?.or prev, rest, []⟩ := by
      rw [Place.skip, ← List.cons_append, ← hchars, htake, hdrop]
    rw [hskip, Place.capture, ← List.cons_append, ← hchars]
    simp

theorem torSource_none {prev : Option Char} {c : Char} {rest : Str} (hc : torSourceChar c = false) :
    torSourcePattern.matchHere ⟨prev, c :: rest, []⟩ = none := by
  have hends := ends_group_plus_set_flatMap torSource_stuck (n := 1)
    (s := ⟨prev, c :: rest, []⟩) rfl
  rw [hc] at hends
  exact congrArg List.head? hends

/-- A run that no `.c` follows is passed over. -/
theorem findAll_run (prev : Option Char) {run : Str} (rest : Str) (hrun : ∀ c ∈ run, torSourceChar c = true)
    (hrest : ∀ c, rest.head? = some c → torSourceChar c = false) (hnot : ¬ ".c".toList <+: rest) :
    ∃ p, torSourcePattern.findAll prev (run ++ rest) = torSourcePattern.findAll p rest := by
  induction run generalizing prev with
  | nil => exact ⟨prev, rfl⟩
  | cons c run ih =>
    have hnone : torSourcePattern.matchHere ⟨prev, c :: (run ++ rest), []⟩ = none := by
      have hends := torSource_ends prev (List.cons_ne_nil c run) hrun hrest
      rw [ends_lit_of_not hnot] at hends
      exact congrArg List.head? hends
    obtain ⟨p, hp⟩ := ih (some c) fun d hd => hrun d (List.mem_cons_of_mem c hd)
    exact ⟨p, by rw [List.cons_append, findAll_advance hnone, hp]⟩

theorem findAll_fragments (prev : Option Char) {run : Str} (text : Str)
    (hrun : ∀ c ∈ run, torSourceChar c = true) :
    (torSourcePattern.findAll prev (run ++ text)).map (fun m => m.submatch 1) = fragments run text := by
  induction run, text using fragments.induct generalizing prev with
  | case1 run =>
    obtain ⟨p, hp⟩ := findAll_run prev [] hrun (by simp) (by decide)
    rw [hp, findAll_nil, fragments]
    rfl
  | case2 rest ih =>
    rw [fragments, if_pos rfl, ← ih (some '.') (by decide), List.nil_append,
      findAll_advance (torSource_none torSourceChar_dot)]
    rfl
  | case3 run rest hne ih =>
    have hdot : ∀ c, ('.' :: 'c' :: rest).head? = some c → torSourceChar c = false := by
      intro c hc
      rw [← Option.some.inj hc]
      exact torSourceChar_dot
    have hends := torSource_ends prev hne hrun hdot
    rw [ends_lit (show '.' :: 'c' :: rest = ".c".toList ++ rest from rfl)] at hends
    have hmatch := congrArg List.head? hends
    rw [fragments, if_neg hne, findAll_match hmatch (by simp; omega), List.map_cons,
      ← ih _ (by simp)]
    rfl
  | case4 run c rest hdot hc ih =>
    rw [fragments_char hc, ← ih _ (torSourceChar_concat hrun hc), List.append_assoc]
    rfl
  | case5 run c rest hdot hc ih =>
    have hc : torSourceChar c = false := by simpa using hc
    have hnot : ¬ ".c".toList <+: c :: rest := by
      intro ⟨more, hmore⟩
      obtain ⟨hfirst, hrest⟩ := List.cons.inj hmore
      exact hdot more hfirst.symm hrest.symm
    obtain ⟨p, hp⟩ := findAll_run prev (c :: rest) hrun (by
      intro d hd
      rw [← Option.some.inj hd]
      exact hc) hnot
    rw [fragments, if_neg (by simp [hc]), hp, findAll_advance (torSource_none hc), ← ih _ (by simp)]
    · rfl
    · exact hdot

theorem extractTorSources_eq (out : Str) : extractTorSources out = fragments [] out :=
  findAll_fragments none out (fun _ hc => absurd hc List.not_mem_nil)

/-! ### One word after the other -/

theorem torSourceChar_delimiter {c : Char} (h : delimiter c = true) :
    torSourceChar c = false ∧ c ≠ '.' ∧ c ≠ 'c' := by
  have hcases : ((((((c = '\t' ∨ c = '\n') ∨ c = '\x0b') ∨ c = '\x0c') ∨ c = '\r') ∨ c = ' ') ∨
      c ∈ "\"'`;".toList) := by
    unfold delimiter spaceClass at h
    simpa only [Bool.or_eq_true, beq_iff_eq, List.contains_iff_mem] using h
  have hall : ∀ d ∈ '\t' :: '\n' :: '\x0b' :: '\x0c' :: '\r' :: ' ' :: "\"'`;".toList,
      torSourceChar d = false ∧ d ≠ '.' ∧ d ≠ 'c' := by decide
  apply hall
  simp only [List.mem_cons]
  simpa only [or_assoc] using hcases

/-- A delimiter ends a run, and no match goes across it. -/
theorem fragments_append {run w rest : Str} {d : Char} (hd : delimiter d = true) :
    fragments run (w ++ d :: rest) = fragments run w ++ fragments [] rest := by
  obtain ⟨hd, hdot, hc⟩ := torSourceChar_delimiter hd
  have hstop : ∀ run, fragments run (d :: rest) = fragments [] rest := by
    intro run
    rw [fragments, if_neg (by simp [hd])]
    intro more hfirst _
    exact hdot hfirst
  induction run, w using fragments.induct with
  | case1 run => rw [List.nil_append, hstop, fragments, List.nil_append]
  | case2 w ih =>
    rw [List.cons_append, List.cons_append, fragments, if_pos rfl, ih, fragments, if_pos rfl]
  | case3 run w hne ih =>
    rw [List.cons_append, List.cons_append, fragments, if_neg hne, ih, fragments, if_neg hne,
      List.cons_append]
  | case4 run c w hnot hclass ih =>
    rw [List.cons_append, fragments_char hclass, ih, fragments_char hclass]
  | case5 run c w hnot hclass ih =>
    rw [List.cons_append, fragments, if_neg hclass, ih, fragments, if_neg hclass]
    · exact hnot
    · intro more hfirst hmore
      cases w with
      | nil => exact hc (List.cons.inj hmore).1
      | cons e w => exact hnot w hfirst (by rw [(List.cons.inj hmore).1])

/-- The names are those of the words, in their order. -/
theorem fragments_words (sep : Char) (out : Str) :
    fragments [] out = (words delimiter sep out).flatMap fun w => fragments [] w.2 := by
  induction hlength : out.length using Nat.strong_induction_on generalizing sep out with
  | _ n ih =>
    subst hlength
    obtain ⟨w, rest, hsplit, hw, hrest⟩ := exists_word delimiter out
    subst hsplit
    rw [words_append sep hw hrest, List.flatMap_cons]
    cases rest with
    | nil => rw [wordsAfter, List.append_nil, List.flatMap_nil, List.append_nil]
    | cons d rest =>
      have hshorter : rest.length < (w ++ d :: rest).length := by
        rw [List.length_append, List.length_cons]
        omega
      rw [fragments_append (hrest d rest rfl), wordsAfter, ih _ hshorter d rest rfl]

theorem extractTorSources_words (out : Str) :
    extractTorSources out = (outputWords out).flatMap (fragments []) := by
  rw [extractTorSources_eq, fragments_words '\n', outputWords, List.flatMap_map]

/-! ### One word -/

theorem fragments_chars {run text p : Str} (hrun : ∀ c ∈ run, torSourceChar c = true)
    (h : p ∈ fragments run text) : p ≠ [] ∧ ∀ c ∈ p, torSourceChar c = true := by
  induction run, text using fragments.induct with
  | case1 run => cases h
  | case2 rest ih =>
    rw [fragments, if_pos rfl] at h
    exact ih (by decide) h
  | case3 run rest hne ih =>
    rw [fragments, if_neg hne] at h
    rcases List.mem_cons.mp h with h | h
    · rw [h]
      exact ⟨hne, hrun⟩
    · exact ih (by simp) h
  | case4 run c rest hdot hc ih =>
    rw [fragments_char hc] at h
    exact ih (torSourceChar_concat hrun hc) h
  | case5 run c rest hdot hc ih =>
    rw [fragments, if_neg hc] at h
    · exact ih (by simp) h
    · exact hdot

/-- A run is read to its end. -/
theorem fragments_run {run p text : Str} (hp : ∀ c ∈ p, torSourceChar c = true) :
    fragments run (p ++ text) = fragments (run ++ p) text := by
  induction p generalizing run with
  | nil => rw [List.nil_append, List.append_nil]
  | cons c p ih =>
    have hc : torSourceChar c = true := hp c List.mem_cons_self
    rw [List.cons_append, fragments_char hc, ih fun d hd => hp d (List.mem_cons_of_mem c hd),
      List.append_assoc]
    rfl

/-- The word of a path over the alphabet. -/
theorem fragments_path {p : Str} (hne : p ≠ []) (hp : ∀ c ∈ p, torSourceChar c = true) :
    fragments [] (p ++ ".c".toList) = [p] := by
  rw [fragments_run hp, List.nil_append]
  change fragments p ['.', 'c'] = [p]
  rw [fragments, if_neg hne, fragments]

/-- A leading `./` loses its dot only. -/
theorem fragments_dotSlash {p : Str} (hp : ∀ c ∈ p, torSourceChar c = true) :
    fragments [] ("./".toList ++ (p ++ ".c".toList)) = ['/' :: p] := by
  have hslash : ∀ c ∈ '/' :: p, torSourceChar c = true := by
    intro c hc
    rcases List.mem_cons.mp hc with hc | hc
    · rw [hc]
      decide
    · exact hp c hc
  have hdot : fragments [] ('.' :: (('/' :: p) ++ ".c".toList)) = fragments [] (('/' :: p) ++ ".c".toList) := by
    rw [fragments, if_neg (by decide)]
    intro more _ hmore
    exact absurd (List.cons.inj hmore).1 (by decide)
  exact hdot.trans (fragments_path (List.cons_ne_nil '/' p) hslash)

/-- Nothing is found in a word exactly when no `.c` stands behind a character of the alphabet. -/
theorem fragments_eq_nil {run text : Str} (hrun : ∀ c ∈ run, torSourceChar c = true) :
    fragments run text = [] ↔ NoneBehind (run ++ text) := by
  have hdotMem : ∀ {run : Str}, (∀ c ∈ run, torSourceChar c = true) → '.' ∉ run := by
    intro run hrun hmem
    exact absurd (hrun '.' hmem) (by decide)
  induction run, text using fragments.induct with
  | case1 run =>
    rw [fragments]
    constructor
    · intro _ u c v hsplit
      have hmem : '.' ∈ run := by
        rw [List.append_nil] at hsplit
        rw [hsplit]
        exact List.mem_append_right u (List.mem_cons_of_mem c List.mem_cons_self)
      exact absurd hmem (hdotMem hrun)
    · intro _
      rfl
  | case2 rest ih =>
    rw [fragments, if_pos rfl]
    refine (ih (by decide)).trans ?_
    constructor
    · intro h u c v hsplit
      cases u with
      | nil =>
        rw [← (List.cons.inj hsplit).1]
        exact torSourceChar_dot
      | cons d u => exact h u c v (List.cons.inj hsplit).2
    · intro h u c v hsplit
      exact h ('.' :: u) c v (congrArg ('.' :: ·) hsplit)
  | case3 run rest hne ih =>
    rw [fragments, if_neg hne]
    constructor
    · intro h
      cases h
    · intro h
      have hsplit : run ++ '.' :: 'c' :: rest = run.dropLast ++ run.getLast hne :: ('.' :: 'c' :: rest) := by
        conv_lhs => rw [← List.dropLast_append_getLast hne]
        rw [List.append_assoc]
        rfl
      have hlast := h run.dropLast (run.getLast hne) rest hsplit
      rw [hrun _ (List.getLast_mem hne)] at hlast
      cases hlast
  | case4 run c rest hdot hc ih =>
    rw [fragments_char hc]
    refine (ih (torSourceChar_concat hrun hc)).trans ?_
    rw [List.append_assoc]
    rfl
  | case5 run c rest hdot hc ih =>
    have hclass : torSourceChar c = false := by simpa using hc
    rw [fragments, if_neg hc]
    · refine (ih (by simp)).trans ?_
      constructor
      · intro h u e v hsplit
        rcases List.append_eq_append_iff.mp hsplit with ⟨a, -, hrest⟩ | ⟨a, ha, hrest⟩
        · cases a with
          | nil =>
            rw [← (List.cons.inj hrest).1]
            exact hclass
          | cons d a => exact h a e v (List.cons.inj hrest).2
        · -- The character before the `.c` is not in the run, which has no dot.
          match a, ha, hrest with
          | [], _, hrest =>
            rw [(List.cons.inj hrest).1]
            exact hclass
          | [d], _, hrest =>
            obtain ⟨hfirst, hmore⟩ := List.cons.inj (List.cons.inj hrest).2
            exact absurd hmore.symm (hdot v hfirst.symm)
          | d :: f :: a, ha, hrest =>
            have hf : '.' = f := (List.cons.inj (List.cons.inj hrest).2).1
            have hmem : '.' ∈ run := by
              rw [ha, hf]
              simp
            exact absurd hmem (hdotMem hrun)
      · intro h u e v hsplit
        have hrest : rest = u ++ e :: (".c".toList ++ v) := hsplit
        exact h (run ++ c :: u) e v (by rw [hrest, List.append_assoc]; rfl)
    · exact hdot

/-! ### The names of a word -/

/-- Where a character is not in the alphabet, the run at the end does not go past it. -/
theorem rtakeWhile_append_cons {c : Char} (hc : torSourceChar c = false) (run text : Str) :
    (run ++ c :: text).rtakeWhile torSourceChar = text.rtakeWhile torSourceChar := by
  induction text using List.reverseRecOn with
  | nil => rw [List.rtakeWhile_concat_neg _ _ _ (by simp [hc]), List.rtakeWhile_nil]
  | append_singleton text d ih =>
    rw [← List.cons_append, ← List.append_assoc, List.rtakeWhile_concat, List.rtakeWhile_concat, ih]

/-- A stretch in which nothing is found and that ends in the alphabet is read as the run at its end. -/
theorem fragments_stretch {run s : Str} (rest : Str) (hrun : ∀ c ∈ run, torSourceChar c = true)
    (hnone : fragments run s = []) (hend : (run ++ s).rtakeWhile torSourceChar ≠ []) :
    fragments run (s ++ '.' :: 'c' :: rest) =
      (run ++ s).rtakeWhile torSourceChar :: fragments [] rest := by
  induction run, s using fragments.induct with
  | case1 run =>
    rw [List.append_nil] at hend ⊢
    rw [List.rtakeWhile_eq_self_iff.mpr hrun] at hend ⊢
    rw [List.nil_append, fragments, if_neg hend]
  | case2 s ih =>
    rw [fragments, if_pos rfl] at hnone
    rw [rtakeWhile_append_cons torSourceChar_dot] at hend ⊢
    rw [List.cons_append, List.cons_append, fragments, if_pos rfl, ih (by decide) hnone hend]
    rfl
  | case3 run s hne ih =>
    rw [fragments, if_neg hne] at hnone
    cases hnone
  | case4 run c s hdot hc ih =>
    rw [fragments_char hc] at hnone
    rw [← List.singleton_append, ← List.append_assoc] at hend ⊢
    rw [List.append_assoc, List.singleton_append, fragments_char hc,
      ih (torSourceChar_concat hrun hc) hnone hend]
  | case5 run c s hdot hc ih =>
    rw [fragments, if_neg hc] at hnone
    · rw [rtakeWhile_append_cons (by simpa using hc)] at hend ⊢
      rw [List.cons_append, fragments, if_neg hc, ih (by simp) hnone hend]
      · rfl
      · -- The `.c` that is put behind the stretch does not begin with the stretch's last dot.
        intro more hfirst hmore
        cases s with
        | nil => exact absurd (List.cons.inj hmore).1 (by decide)
        | cons d s => exact hdot s hfirst (by rw [(List.cons.inj hmore).1])
    · exact hdot

/-- The first name that is found ends a stretch in which nothing else is found. -/
theorem exists_stretch {run text p : Str} {more : List Str} (hrun : ∀ c ∈ run, torSourceChar c = true)
    (h : fragments run text = p :: more) :
    ∃ s rest, text = s ++ '.' :: 'c' :: rest ∧ fragments run s = [] ∧
      p = (run ++ s).rtakeWhile torSourceChar ∧ more = fragments [] rest := by
  induction run, text using fragments.induct with
  | case1 run => cases h
  | case2 text ih =>
    rw [fragments, if_pos rfl] at h
    obtain ⟨s, rest, rfl, hnone, hp, hmore⟩ := ih (by decide) h
    refine ⟨'.' :: 'c' :: s, rest, rfl, by rw [fragments, if_pos rfl, hnone], ?_, hmore⟩
    rw [hp, rtakeWhile_append_cons torSourceChar_dot]
    rfl
  | case3 run text hne ih =>
    rw [fragments, if_neg hne] at h
    obtain ⟨rfl, rfl⟩ := List.cons.inj h
    refine ⟨[], text, rfl, by rw [fragments], ?_, rfl⟩
    rw [List.append_nil, List.rtakeWhile_eq_self_iff.mpr hrun]
  | case4 run c text hdot hc ih =>
    rw [fragments_char hc] at h
    obtain ⟨s, rest, rfl, hnone, hp, hmore⟩ := ih (torSourceChar_concat hrun hc) h
    refine ⟨c :: s, rest, rfl, by rw [fragments_char hc, hnone], ?_, hmore⟩
    rw [hp, List.append_assoc, List.singleton_append]
  | case5 run c text hdot hc ih =>
    rw [fragments, if_neg hc] at h
    · obtain ⟨s, rest, rfl, hnone, hp, hmore⟩ := ih (by simp) h
      refine ⟨c :: s, rest, rfl, ?_, ?_, hmore⟩
      · rw [fragments, if_neg hc, hnone]
        intro more hfirst hs
        exact hdot (more ++ '.' :: 'c' :: rest) hfirst (by rw [hs]; rfl)
      · rw [hp, rtakeWhile_append_cons (by simpa using hc)]
        rfl
    · exact hdot

theorem rtakeWhile_ne_nil {s : Str} :
    s.rtakeWhile torSourceChar ≠ [] ↔ ∃ c, s.getLast? = some c ∧ torSourceChar c = true := by
  cases s using List.reverseRecOn with
  | nil => simp
  | append_singleton s d =>
    rw [List.rtakeWhile_concat, List.getLast?_concat]
    by_cases hd : torSourceChar d = true <;> simp [hd]

theorem noneBehind_iff {t : Str} : NoneBehind t ↔ fragments [] t = [] := by
  have hnil : ∀ c ∈ ([] : Str), torSourceChar c = true := by simp
  exact (fragments_eq_nil hnil).symm

theorem fragments_of_reading {w : Str} {stretches : List Str} {tail : Str} (h : Reading w stretches tail) :
    fragments [] w = stretches.map (List.rtakeWhile torSourceChar) := by
  induction stretches generalizing w with
  | nil =>
    rw [h.word]
    exact noneBehind_iff.mp h.rest
  | cons s stretches ih =>
    have hrest := ih ⟨rfl, fun u hu => h.reaches u (List.mem_cons_of_mem s hu),
      fun u hu => h.first u (List.mem_cons_of_mem s hu), h.rest⟩
    have hword : w = s ++ '.' :: 'c' :: ((stretches.flatMap fun u => u ++ ".c".toList) ++ tail) := by
      rw [h.word, List.flatMap_cons, List.append_assoc, List.append_assoc]
      rfl
    rw [hword, fragments_stretch _ (by simp) (noneBehind_iff.mp (h.first s List.mem_cons_self))
      (rtakeWhile_ne_nil.mpr (h.reaches s List.mem_cons_self)), hrest]
    rfl

theorem exists_reading (w : Str) : ∃ stretches tail, Reading w stretches tail := by
  induction hnames : fragments [] w generalizing w with
  | nil =>
    exact ⟨[], w, rfl, by simp, by simp, noneBehind_iff.mpr hnames⟩
  | cons p names ih =>
    obtain ⟨s, rest, rfl, hnone, hp, hmore⟩ := exists_stretch (by simp) hnames
    obtain ⟨stretches, tail, hrest⟩ := ih rest hmore.symm
    have hend : s.rtakeWhile torSourceChar ≠ [] := by
      have hmem : p ∈ fragments [] (s ++ '.' :: 'c' :: rest) := hnames ▸ List.mem_cons_self
      rw [List.nil_append] at hp
      exact hp ▸ (fragments_chars (by simp) hmem).1
    refine ⟨s :: stretches, tail, ?_, ?_, ?_, hrest.rest⟩
    · rw [List.flatMap_cons, List.append_assoc, List.append_assoc, ← hrest.word]
      rfl
    · intro u hu
      rcases List.mem_cons.mp hu with rfl | hu
      · exact rtakeWhile_ne_nil.mp hend
      · exact hrest.reaches u hu
    · intro u hu
      rcases List.mem_cons.mp hu with rfl | hu
      · exact noneBehind_iff.mpr hnone
      · exact hrest.first u hu

/-- The names of a word are those that the scan finds in it. -/
theorem mem_fragments_iff {w p : Str} : p ∈ fragments [] w ↔ NameOf w p := by
  constructor
  · intro h
    obtain ⟨stretches, tail, hread⟩ := exists_reading w
    rw [fragments_of_reading hread] at h
    obtain ⟨s, hs, rfl⟩ := List.mem_map.mp h
    exact ⟨stretches, tail, hread, s, hs, rfl⟩
  · rintro ⟨stretches, tail, hread, s, hs, rfl⟩
    rw [fragments_of_reading hread]
    exact List.mem_map_of_mem hs

/-! ### Words that are read as they should be -/

theorem torPath_eq_some {w p : Str} :
    torPath w = some p ↔ p ≠ [] ∧ ∃ dir, w = dir ++ ".c".toList ∧ p = trimPrefix dir "./".toList := by
  have htrim : ∀ dir : Str, trimSuffix (dir ++ ".c".toList) ".c".toList = dir := by
    intro dir
    unfold trimSuffix
    rw [if_pos (hasSuffix_iff.mpr (List.suffix_append dir _)), List.length_append, Nat.add_sub_cancel,
      List.take_left]
  unfold torPath
  constructor
  · intro h
    split at h
    next hsuffix =>
      obtain ⟨dir, hdir⟩ := hasSuffix_iff.mp hsuffix
      rw [← hdir, htrim] at h
      simp only at h
      split at h
      · cases h
      next hne =>
        obtain rfl := Option.some.inj h
        exact ⟨hne, dir, hdir.symm, rfl⟩
    next => cases h
  · intro ⟨hne, dir, hw, hp⟩
    rw [hw, if_pos (hasSuffix_iff.mpr (List.suffix_append dir _)), htrim]
    simp only
    rw [← hp, if_neg hne]

theorem mem_torPaths {out p : Str} : p ∈ torPaths out ↔ IsTorPath out p := by
  unfold torPaths outputWords IsTorPath
  rw [List.mem_filterMap]
  constructor
  · intro ⟨w, hw, hpath⟩
    obtain ⟨⟨sep, v⟩, hmem, rfl⟩ := List.mem_map.mp hw
    obtain ⟨hne, hdir⟩ := torPath_eq_some.mp hpath
    obtain ⟨before, after, hout, hsep, hbefore, hafter⟩ := mem_words_iff.mp ⟨sep, hmem⟩
    exact ⟨hne, before, v, after, hout, hsep, hbefore, hafter, hdir⟩
  · intro ⟨hne, before, w, after, hout, hsep, hbefore, hafter, hdir⟩
    have hmem : ∃ sep, (sep, w) ∈ words _ '\n' out :=
      mem_words_iff.mpr ⟨before, after, hout, hsep, hbefore, hafter⟩
    obtain ⟨sep, hmem⟩ := hmem
    exact ⟨w, List.mem_map_of_mem hmem, torPath_eq_some.mpr ⟨hne, hdir⟩⟩

/-- A word is a path over the alphabet of the scan and `.c`, or it has no path and no `.c` in it stands
behind a character of the alphabet. -/
def CleanWord (w : Str) : Prop :=
  (∃ p, p ≠ [] ∧ (∀ c ∈ p, torSourceChar c = true) ∧ w = p ++ ".c".toList) ∨
    torPath w = none ∧ NoneBehind w

/-- How much text a list of names holds, each name being one longer than its text. -/
def weight (names : List Str) : ℕ := (names.map fun p => p.length + 1).sum

theorem weight_append (xs ys : List Str) : weight (xs ++ ys) = weight xs + weight ys := by
  unfold weight
  rw [List.map_append, List.sum_append]

theorem weight_eq_zero {xs : List Str} (h : weight xs = 0) : xs = [] := by
  cases xs with
  | nil => rfl
  | cons x xs =>
    unfold weight at h
    rw [List.map_cons, List.sum_cons] at h
    omega

theorem trimPrefix_of_chars {p : Str} (hp : ∀ c ∈ p, torSourceChar c = true) :
    trimPrefix p "./".toList = p := by
  unfold trimPrefix
  apply if_neg
  intro hstarts
  obtain ⟨rest, hrest⟩ := hasPrefix_iff.mp hstarts
  have hmem : '.' ∈ p := by
    rw [← hrest]
    exact List.mem_cons_self
  exact absurd (hp '.' hmem) (by decide)

theorem clean_iff (w : Str) : CleanWord w ↔ fragments [] w = (torPath w).toList := by
  constructor
  · intro h
    rcases h with ⟨p, hne, hp, hw⟩ | ⟨hnone, hbehind⟩
    · have hpath : torPath w = some p :=
        torPath_eq_some.mpr ⟨hne, p, hw, (trimPrefix_of_chars hp).symm⟩
      rw [hpath, hw, fragments_path hne hp]
      rfl
    · rw [hnone]
      exact (fragments_eq_nil (by simp)).mpr hbehind
  · intro h
    cases hpath : torPath w with
    | none =>
      rw [hpath] at h
      exact Or.inr ⟨hpath, (fragments_eq_nil (by simp)).mp h⟩
    | some p =>
      rw [hpath] at h
      obtain ⟨hne, dir, hw, hdir⟩ := torPath_eq_some.mp hpath
      obtain ⟨-, hp⟩ := fragments_chars (by simp) (show p ∈ fragments [] w by rw [h]; simp)
      left
      refine ⟨p, hne, hp, ?_⟩
      unfold trimPrefix at hdir
      split at hdir
      next hstarts =>
        obtain ⟨rest, hrest⟩ := hasPrefix_iff.mp hstarts
        rw [← hrest, List.drop_left] at hdir
        rw [hw, ← hrest, ← hdir, List.append_assoc, fragments_dotSlash hp] at h
        have hlonger := congrArg List.length (List.cons.inj h).1
        simp at hlonger
      next => rw [hw, hdir]

/-- A word whose path is over the alphabet is read as something that is not shorter. -/
theorem weight_le {w : Str} (h : ∀ p, torPath w = some p → ∀ c ∈ p, torSourceChar c = true) :
    weight (torPath w).toList ≤ weight (fragments [] w) ∧
      (weight (torPath w).toList = weight (fragments [] w) → fragments [] w = (torPath w).toList) := by
  cases hpath : torPath w with
  | none =>
    refine ⟨Nat.zero_le _, ?_⟩
    intro hweight
    exact weight_eq_zero hweight.symm
  | some p =>
    obtain ⟨hne, dir, hw, hdir⟩ := torPath_eq_some.mp hpath
    have hp := h p hpath
    unfold trimPrefix at hdir
    split at hdir
    next hstarts =>
      obtain ⟨rest, hrest⟩ := hasPrefix_iff.mp hstarts
      rw [← hrest, List.drop_left] at hdir
      rw [hw, ← hrest, ← hdir, List.append_assoc, fragments_dotSlash hp]
      constructor
      · simp [weight]
      · intro hweight
        simp [weight] at hweight
    next =>
      rw [hw, ← hdir, fragments_path hne hp]
      exact ⟨le_rfl, fun _ => rfl⟩

/-- Over all words the names and the paths weigh the same only if they are the same in each word. -/
theorem fragments_of_weight {ws : List Str}
    (hpaths : ∀ w ∈ ws, ∀ p, torPath w = some p → ∀ c ∈ p, torSourceChar c = true) :
    weight (ws.filterMap torPath) ≤ weight (ws.flatMap (fragments [])) ∧
      (weight (ws.filterMap torPath) = weight (ws.flatMap (fragments [])) →
        ∀ w ∈ ws, fragments [] w = (torPath w).toList) := by
  induction ws with
  | nil => simp
  | cons w ws ih =>
    obtain ⟨hle, heq⟩ := weight_le (hpaths w List.mem_cons_self)
    obtain ⟨hrest, hrests⟩ := ih fun v hv => hpaths v (List.mem_cons_of_mem w hv)
    have hcons : (w :: ws).filterMap torPath = (torPath w).toList ++ ws.filterMap torPath := by
      rw [List.filterMap_cons]
      cases torPath w <;> rfl
    rw [hcons, List.flatMap_cons, weight_append, weight_append]
    constructor
    · omega
    · intro hweight v hv
      rcases List.mem_cons.mp hv with hv | hv
      · rw [hv]
        exact heq (by omega)
      · exact hrests (by omega) v hv

/-! ### The output -/

/-- The names of a word that is not clean are paths all the same, and its own path is found elsewhere. -/
def Covered (out w : Str) : Prop :=
  (∀ p, NameOf w p → IsTorPath out p) ∧
    ∀ p, torPath w = some p → ∃ v ∈ outputWords out, NameOf v p

/-- Each word is read as it should be exactly when all of them are clean; as sets the names and the
paths are the same exactly when the words that are not clean are covered. -/
theorem extractTorSources_iff (out : Str) :
    (extractTorSources out = torPaths out ↔ ∀ w ∈ outputWords out, CleanWord w) ∧
      ((∀ p, p ∈ extractTorSources out ↔ IsTorPath out p) ↔
        ∀ w ∈ outputWords out, ¬ CleanWord w → Covered out w) := by
  have hnames : ∀ p, p ∈ extractTorSources out ↔ ∃ w ∈ outputWords out, NameOf w p := by
    intro p
    simp only [extractTorSources_words, List.mem_flatMap, mem_fragments_iff]
  have hpaths : ∀ p, IsTorPath out p ↔ ∃ w ∈ outputWords out, torPath w = some p := by
    intro p
    rw [← mem_torPaths, torPaths, List.mem_filterMap]
  constructor
  · constructor
    · intro h w hw
      have hchars : ∀ v ∈ outputWords out, ∀ p, torPath v = some p → ∀ c ∈ p, torSourceChar c = true := by
        intro v hv p hp
        have hmem : p ∈ extractTorSources out := by
          rw [h, torPaths]
          exact List.mem_filterMap.mpr ⟨v, hv, hp⟩
        obtain ⟨u, _, hu⟩ := (hnames p).mp hmem
        exact (fragments_chars (by simp) (mem_fragments_iff.mpr hu)).2
      rw [clean_iff]
      apply (fragments_of_weight hchars).2 _ w hw
      rw [← extractTorSources_words, h, torPaths]
    · intro h
      rw [extractTorSources_words, torPaths, List.filterMap_eq_flatMap_toList]
      apply List.flatMap_congr
      intro w hw
      exact (clean_iff w).mp (h w hw)
  · constructor
    · intro h w hw _
      constructor
      · intro p hp
        exact (h p).mp ((hnames p).mpr ⟨w, hw, hp⟩)
      · intro p hp
        exact (hnames p).mp ((h p).mpr ((hpaths p).mpr ⟨w, hw, hp⟩))
    · intro h p
      constructor
      · intro hp
        obtain ⟨w, hw, hmem⟩ := (hnames p).mp hp
        by_cases hclean : CleanWord w
        · rw [← mem_fragments_iff, (clean_iff w).mp hclean] at hmem
          exact (hpaths p).mpr ⟨w, hw, by simpa using hmem⟩
        · exact (h w hw hclean).1 p hmem
      · intro hp
        obtain ⟨w, hw, hpath⟩ := (hpaths p).mp hp
        by_cases hclean : CleanWord w
        · have hmem : p ∈ fragments [] w := by
            rw [(clean_iff w).mp hclean, hpath]
            simp
          exact (hnames p).mpr ⟨w, hw, mem_fragments_iff.mp hmem⟩
        · exact (hnames p).mpr ((h w hw hclean).2 p hpath)

def mallocCommand : Str := "gcc -c src/ext/OpenBSD_malloc_Linux.c".toList

/-- An upper-case letter cuts a path off. -/
theorem extractTorSources_cuts :
    IsTorPath mallocCommand "src/ext/OpenBSD_malloc_Linux".toList ∧
      extractTorSources mallocCommand = ["inux".toList] ∧ ¬ IsTorPath mallocCommand "inux".toList := by
  rw [← mem_torPaths, ← mem_torPaths, extractTorSources_eq]
  decide +kernel

end GoLibtor
