import GoLibtor.Build.Extract
import GoLibtor.Text.Occurrences

/-! Which sources `extractOpenSSLSources` finds. A compile command ends in `.c` and begins in `-c`,
so two of them share no word. -/
namespace GoLibtor

open Text Regexp

def Blanks (b : Str) : Prop := b ≠ [] ∧ ∀ c ∈ b, blankClass c = true

def Word (w : Str) : Prop := w ≠ [] ∧ ∀ c ∈ w, blankClass c = false

/-- A text begins with `-c`, `-o`, an object and a source, with white space between them, and the
word of the source ends before `rest`. -/
def CompileCommand (text object source rest : Str) : Prop :=
  ∃ b₁ b₂ b₃, text = "-c".toList ++ (b₁ ++ ("-o".toList ++ (b₂ ++ (object ++ (b₃ ++
      (source ++ (".c".toList ++ rest))))))) ∧ Blanks b₁ ∧ Blanks b₂ ∧ Blanks b₃ ∧ Word object ∧
    (source ≠ [] ∧ ∀ c ∈ source, sourceChar c = true) ∧ ∀ c, rest.head? = some c → blankClass c = true

/-- A source that is compiled into an object of a library. -/
def IsLibrarySource (out s : Str) : Prop :=
  ∃ before text object source rest, out = before ++ text ∧ CompileCommand text object source rest ∧
    libraryObject object = true ∧ s = trimPrefix source "./".toList

/-! ### The words of a command -/

theorem blankClass_sourceChar {c : Char} (h : sourceChar c = true) : blankClass c = false := by
  by_contra hblank
  have hcases : (((c = '\t' ∨ c = '\n') ∨ c = '\x0c') ∨ c = '\r') ∨ c = ' ' := by
    unfold blankClass at hblank
    simpa only [Bool.not_eq_false, Bool.or_eq_true, beq_iff_eq] using hblank
  rcases hcases with (((hc | hc) | hc) | hc) | hc
  all_goals
    rw [hc] at h
    exact absurd h (by decide)

theorem word_source {source : Str} (h : ∀ c ∈ source, sourceChar c = true) :
    Word (source ++ ".c".toList) := by
  refine ⟨by simp, ?_⟩
  intro c hc
  rcases List.mem_append.mp hc with hc | hc
  · exact blankClass_sourceChar (h c hc)
  · have hall : ∀ d ∈ ".c".toList, blankClass d = false := by decide
    exact hall c hc

/-- White space can be told from the word that follows it. -/
theorem blanks_unique {b b' w w' : Str} (hb : Blanks b) (hb' : Blanks b')
    (hw : ∀ c, w.head? = some c → blankClass c = false)
    (hw' : ∀ c, w'.head? = some c → blankClass c = false) (h : b ++ w = b' ++ w') : b = b' ∧ w = w' :=
  run_unique hb.2 hb'.2 hw hw' h

/-- A word can be told from the white space that follows it. -/
theorem word_unique {w w' b b' : Str} (hw : Word w) (hw' : Word w')
    (hb : ∀ c, b.head? = some c → blankClass c = true)
    (hb' : ∀ c, b'.head? = some c → blankClass c = true) (h : w ++ b = w' ++ b') : w = w' ∧ b = b' := by
  have hnot : ∀ {x : Str}, (∀ c ∈ x, blankClass c = false) → ∀ c ∈ x, (!blankClass c) = true := by
    intro x hx c hc
    rw [hx c hc]
    rfl
  have hstop : ∀ {x : Str}, (∀ c, x.head? = some c → blankClass c = true) →
      ∀ c, x.head? = some c → (!blankClass c) = false := by
    intro x hx c hc
    rw [hx c hc]
    rfl
  exact run_unique (hnot hw.2) (hnot hw'.2) (hstop hb) (hstop hb') h

theorem blanks_head {b rest : Str} (hb : Blanks b) : ∀ c, (b ++ rest).head? = some c → blankClass c = true := by
  intro c hc
  cases b with
  | nil => exact absurd rfl hb.1
  | cons d b =>
    obtain rfl : d = c := Option.some.inj hc
    exact hb.2 d List.mem_cons_self

theorem word_head {w rest : Str} (hw : Word w) : ∀ c, (w ++ rest).head? = some c → blankClass c = false := by
  intro c hc
  cases w with
  | nil => exact absurd rfl hw.1
  | cons d w =>
    obtain rfl : d = c := Option.some.inj hc
    exact hw.2 d List.mem_cons_self

theorem word_option (c : Char) (h : blankClass c = false) : Word ['-', c] := by
  refine ⟨List.cons_ne_nil '-' [c], ?_⟩
  intro d hd
  rcases List.mem_cons.mp hd with hd | hd
  · rw [hd]
    decide
  · rw [List.mem_singleton.mp hd]
    exact h

/-- The object and the source of a command are determined by the text. -/
theorem CompileCommand.unique {text object object' source source' rest rest' : Str}
    (h : CompileCommand text object source rest) (h' : CompileCommand text object' source' rest') :
    object = object' ∧ source = source' ∧ rest = rest' := by
  obtain ⟨b₁, b₂, b₃, htext, hb₁, hb₂, hb₃, hobject, hsource, hrest⟩ := h
  obtain ⟨b₁', b₂', b₃', htext', hb₁', hb₂', hb₃', hobject', hsource', hrest'⟩ := h'
  have hoption : Word "-o".toList := word_option 'o' (by decide)
  have hfirst := List.append_cancel_left (htext.symm.trans htext')
  obtain ⟨-, hsecond⟩ := blanks_unique hb₁ hb₁' (word_head hoption) (word_head hoption) hfirst
  obtain ⟨-, hthird⟩ := blanks_unique hb₂ hb₂' (word_head hobject) (word_head hobject')
    (List.append_cancel_left hsecond)
  obtain ⟨hobjects, hfourth⟩ := word_unique hobject hobject' (blanks_head hb₃) (blanks_head hb₃') hthird
  simp only [← List.append_assoc source, ← List.append_assoc source'] at hfourth
  obtain ⟨-, hlast⟩ := blanks_unique hb₃ hb₃' (word_head (word_source hsource.2))
    (word_head (word_source hsource'.2)) hfourth
  obtain ⟨hsources, hrests⟩ :=
    word_unique (word_source hsource.2) (word_source hsource'.2) hrest hrest' hlast
  exact ⟨hobjects, List.append_cancel_right hsources, hrests⟩

/-! ### No command begins inside another one -/

/-- The first two words of a command. -/
def Opens (text : Str) : Prop :=
  ∃ b rest, text = "-c".toList ++ (b ++ ("-o".toList ++ rest)) ∧ Blanks b ∧
    ∀ c, rest.head? = some c → blankClass c = true

theorem CompileCommand.opens {text object source rest : Str} (h : CompileCommand text object source rest) :
    Opens text := by
  obtain ⟨b₁, b₂, b₃, htext, hb₁, hb₂, -⟩ := h
  exact ⟨b₁, _, htext, hb₁, blanks_head hb₂⟩

theorem quiet_blanks {b rest : Str} (hb : ∀ c ∈ b, blankClass c = true) : Quiet Opens b rest := by
  intro v s hsplit hne ⟨b', more, hopens, _⟩
  cases s with
  | nil => exact hne rfl
  | cons c s =>
    have hc : blankClass c = true := hb c (hsplit ▸ List.mem_append_right v List.mem_cons_self)
    obtain rfl : c = '-' := (List.cons.inj hopens).1
    exact absurd hc (by decide)

/-- A command that opens inside a word opens with the end of this word, and `-o` is the next one. -/
theorem quiet_word {w rest : Str} (hw : ∀ c ∈ w, blankClass c = false)
    (hrest : ∀ c, rest.head? = some c → blankClass c = true)
    (h : "-c".toList <:+ w → ∀ b more, Blanks b → (∀ c, more.head? = some c → blankClass c = true) →
      rest ≠ b ++ ("-o".toList ++ more)) : Quiet Opens w rest := by
  intro v s hsplit hne ⟨b, more, hopens, hb, hmore⟩
  have hs : Word s := ⟨hne, fun c hc => hw c (hsplit ▸ List.mem_append_right v hc)⟩
  obtain ⟨hoption, hnext⟩ := word_unique hs (word_option 'c' (by decide)) hrest (blanks_head hb) hopens
  exact h ⟨v, by rw [hsplit, hoption]; rfl⟩ b more hb hmore hnext

/-- Behind the beginning of a command no other one opens before it ends. -/
theorem quiet_command {b₁ b₂ b₃ object source e rest : Str} (hb₁ : Blanks b₁) (hb₂ : Blanks b₂)
    (hb₃ : Blanks b₃) (hobject : Word object) (hsource : source ≠ [] ∧ ∀ c ∈ source, sourceChar c = true)
    (hrest : ∀ c, (e ++ rest).head? = some c → blankClass c = true) (he : ∀ c ∈ e, blankClass c = true) :
    Quiet Opens ("c".toList ++ (b₁ ++ ("-o".toList ++ (b₂ ++ (object ++ (b₃ ++
      ((source ++ ".c".toList) ++ e))))))) rest := by
  have hoption : Word "-o".toList := word_option 'o' (by decide)
  have hword : Word (source ++ ".c".toList) := word_source hsource.2
  have hlast : ∀ {w : Str} {c d : Char}, [c, d] <:+ w ++ ".c".toList → c = '.' := by
    intro w c d ⟨v, hv⟩
    have heq : v ++ [c, d] = w ++ ['.', 'c'] := hv
    exact (List.cons.inj (List.append_inj' heq rfl).2).1
  have hsourceQuiet : Quiet Opens (source ++ ".c".toList) (e ++ rest) := by
    apply quiet_word hword.2 hrest
    intro hsuffix
    exact absurd (hlast hsuffix) (by decide)
  have hobjectQuiet : Quiet Opens object (b₃ ++ ((source ++ ".c".toList) ++ (e ++ rest))) := by
    apply quiet_word hobject.2 (blanks_head hb₃)
    intro _ b more hb hmore heq
    -- The next word is the source and no option.
    obtain ⟨-, hnext⟩ := blanks_unique hb₃ hb (word_head hword) (word_head hoption) heq
    obtain ⟨hshort, -⟩ := word_unique hword hoption hrest hmore hnext
    have hlength := congrArg List.length hshort
    rw [List.length_append] at hlength
    change source.length + 2 = 2 at hlength
    exact hsource.1 (List.length_eq_zero_iff.mp (by omega))
  have hoptionQuiet : Quiet Opens "-o".toList
      (b₂ ++ (object ++ (b₃ ++ ((source ++ ".c".toList) ++ (e ++ rest))))) := by
    apply quiet_word hoption.2 (blanks_head hb₂)
    intro hsuffix
    exact absurd hsuffix (by decide)
  have hfirstQuiet : Quiet Opens "c".toList (b₁ ++ ("-o".toList ++ (b₂ ++ (object ++ (b₃ ++
      ((source ++ ".c".toList) ++ (e ++ rest))))))) := by
    apply quiet_word (by decide) (blanks_head hb₁)
    intro hsuffix
    exact absurd hsuffix (by decide)
  have h₆ := quiet_append hsourceQuiet (quiet_blanks he)
  have h₅ := quiet_append (b := (source ++ ".c".toList) ++ e) (quiet_blanks hb₃.2) h₆
  have h₄ := quiet_append (b := b₃ ++ ((source ++ ".c".toList) ++ e)) (by
    simpa only [List.append_assoc] using hobjectQuiet) h₅
  have h₃ := quiet_append (a := b₂) (quiet_blanks hb₂.2) h₄
  have h₂ := quiet_append (a := "-o".toList) (by
    simpa only [List.append_assoc] using hoptionQuiet) h₃
  have h₁ := quiet_append (a := b₁) (quiet_blanks hb₁.2) h₂
  exact quiet_append (by simpa only [List.append_assoc] using hfirstQuiet) h₁

/-! ### The pattern -/

/-- What a match takes: the command with the white space behind it, if there is any. -/
def Found (text : Str) (found : Str × Str) (rest : Str) : Prop :=
  ∃ e, CompileCommand text found.1 found.2 (e ++ rest) ∧ ∀ c ∈ e, blankClass c = true

theorem mem_ends_lineEnd {s t : Place} :
    t ∈ Regexp.lineEnd.ends s ↔ (s.rest = [] ∨ s.rest.head? = some '\n') ∧ t = s := by
  unfold ends
  split
  next h => simp [h]
  next h => simp [h]

/-- The end of the word of a source. -/
theorem mem_ends_wordEnd {s t : Place} :
    t ∈ (Regexp.alt (.set blankClass) .lineEnd).ends s ↔
      (∃ c, blankClass c = true ∧ s.rest = c :: t.rest ∧ t = s.past c t.rest) ∨
        (s.rest = [] ∨ s.rest.head? = some '\n') ∧ t = s := by
  rw [ends_alt, List.mem_append, mem_ends_lineEnd]
  apply or_congr_left
  constructor
  · intro h
    cases hrest : s.rest with
    | nil =>
      rw [ends_set_nil hrest] at h
      cases h
    | cons c rest =>
      rw [ends_set_cons hrest] at h
      split at h
      next hc =>
        rw [List.mem_singleton.mp h]
        exact ⟨c, hc, rfl, rfl⟩
      next => cases h
  · intro ⟨c, hc, hrest, ht⟩
    rw [ends_set_cons hrest, if_pos hc, List.mem_singleton]
    exact ht

theorem plain_plus_set (p : Char → Bool) : (plus (.set p)).Plain := ⟨trivial, trivial⟩

/-- A match is a command. -/
theorem found_of_mem_ends {prev : Option Char} {text : Str} {t : Place}
    (h : t ∈ opensslSourcePattern.ends ⟨prev, text, []⟩) :
    Found text (t.submatch 1, t.submatch 2) t.rest := by
  obtain ⟨w₁, hw₁, r₁, htext, h₁⟩ := (mem_ends_plain_seq (plain_lit _) _ _).mp h
  obtain ⟨b₁, hb₁, r₂, hr₁, h₂⟩ := (mem_ends_plain_seq (plain_plus_set _) _ _).mp h₁
  obtain ⟨w₂, hw₂, r₃, hr₂, h₃⟩ := (mem_ends_plain_seq (plain_lit _) _ _).mp h₂
  obtain ⟨b₂, hb₂, r₄, hr₃, h₄⟩ := (mem_ends_plain_seq (plain_plus_set _) _ _).mp h₃
  obtain ⟨object, hobject, r₅, hr₄, h₅⟩ := (mem_ends_group_seq (plain_plus_set _) 1 _ _).mp h₄
  obtain ⟨b₃, hb₃, r₆, hr₅, h₆⟩ := (mem_ends_plain_seq (plain_plus_set _) _ _).mp h₅
  obtain ⟨source, hsource, r₇, hr₆, h₇⟩ := (mem_ends_group_seq (plain_plus_set _) 2 _ _).mp h₆
  obtain ⟨w₃, hw₃, r₈, hr₇, h₈⟩ := (mem_ends_plain_seq (plain_lit _) _ _).mp h₇
  rw [mem_language_lit] at hw₁ hw₂ hw₃
  rw [mem_language_plus_set] at hb₁ hb₂ hb₃ hobject hsource
  change text = w₁ ++ r₁ at htext
  change r₁ = b₁ ++ r₂ at hr₁
  change r₂ = w₂ ++ r₃ at hr₂
  change r₃ = b₂ ++ r₄ at hr₃
  change r₄ = object ++ r₅ at hr₄
  change r₅ = b₃ ++ r₆ at hr₅
  change r₆ = source ++ r₇ at hr₆
  change r₇ = w₃ ++ r₈ at hr₇
  have hobject : Word object := ⟨hobject.1, fun c hc => by simpa using hobject.2 c hc⟩
  have hsplit : text = "-c".toList ++ (b₁ ++ ("-o".toList ++ (b₂ ++ (object ++ (b₃ ++
      (source ++ (".c".toList ++ r₈))))))) := by
    rw [htext, hw₁, hr₁, hr₂, hw₂, hr₃, hr₄, hr₅, hr₆, hr₇, hw₃]
  rcases mem_ends_wordEnd.mp h₈ with ⟨c, hc, hrest, ht⟩ | ⟨hend, ht⟩
  · have hrest : r₈ = c :: t.rest := hrest
    rw [ht]
    refine ⟨[c], ⟨b₁, b₂, b₃, ?_, hb₁, hb₂, hb₃, hobject, hsource, ?_⟩, ?_⟩
    · rw [hsplit, hrest]
      rfl
    · intro d hd
      rw [← Option.some.inj hd]
      exact hc
    · intro d hd
      rw [List.mem_singleton.mp hd]
      exact hc
  · rw [ht]
    refine ⟨[], ⟨b₁, b₂, b₃, hsplit, hb₁, hb₂, hb₃, hobject, hsource, ?_⟩, by simp⟩
    intro d hd
    rcases hend with hend | hend
    · rw [List.nil_append, hend] at hd
      cases hd
    · rw [List.nil_append, hend] at hd
      rw [← Option.some.inj hd]
      decide

/-- A command is matched. -/
theorem mem_ends_of_command {text object source rest : Str} (prev : Option Char)
    (h : CompileCommand text object source rest) :
    ∃ t, t ∈ opensslSourcePattern.ends ⟨prev, text, []⟩ := by
  obtain ⟨b₁, b₂, b₃, htext, hb₁, hb₂, hb₃, hobject, hsource, hrest⟩ := h
  have hword : ∀ c ∈ object, (!blankClass c) = true := by
    intro c hc
    rw [hobject.2 c hc]
    rfl
  apply exists_ends_seq (plain_lit _) (mem_language_lit.mpr rfl) htext
  apply exists_ends_seq (plain_plus_set _) (mem_language_plus_set.mpr hb₁) rfl
  apply exists_ends_seq (plain_lit _) (mem_language_lit.mpr rfl) rfl
  apply exists_ends_seq (plain_plus_set _) (mem_language_plus_set.mpr hb₂) rfl
  apply exists_ends_group (plain_plus_set _) 1 (mem_language_plus_set.mpr ⟨hobject.1, hword⟩) rfl
  apply exists_ends_seq (plain_plus_set _) (mem_language_plus_set.mpr hb₃) rfl
  apply exists_ends_group (plain_plus_set _) 2 (mem_language_plus_set.mpr hsource) rfl
  apply exists_ends_seq (plain_lit _) (mem_language_lit.mpr rfl) rfl
  cases rest with
  | nil => exact ⟨_, mem_ends_wordEnd.mpr (Or.inr ⟨Or.inl rfl, rfl⟩)⟩
  | cons c rest => exact ⟨Place.past _ c rest, mem_ends_wordEnd.mpr (Or.inl ⟨c, hrest c rfl, rfl, rfl⟩)⟩

theorem finds_opensslSource :
    Finds opensslSourcePattern (fun m => (m.submatch 1, m.submatch 2)) Found where
  sound := found_of_mem_ends
  complete := by
    intro text found rest prev ⟨e, hcommand, _⟩
    exact mem_ends_of_command prev hcommand
  unique := by
    intro text found found' rest rest' ⟨e, hcommand, _⟩ ⟨e', hcommand', _⟩
    obtain ⟨hobject, hsource, -⟩ := hcommand.unique hcommand'
    exact Prod.ext hobject hsource
  takes := by
    intro text found rest ⟨e, ⟨b₁, b₂, b₃, htext, _⟩, _⟩
    refine ⟨"-c".toList ++ (b₁ ++ ("-o".toList ++ (b₂ ++ (found.1 ++ (b₃ ++
      (found.2 ++ (".c".toList ++ e))))))), by simp, ?_⟩
    rw [htext]
    simp only [List.append_assoc]
  apart := by
    intro text found rest v s found' rest' ⟨e, hcommand, he⟩ hsplit hv hlonger ⟨e', hcommand', _⟩
    obtain ⟨b₁, b₂, b₃, htext, hb₁, hb₂, hb₃, hobject, hsource, hrest⟩ := hcommand
    have hquiet := quiet_command hb₁ hb₂ hb₃ hobject hsource hrest he
    cases v with
    | nil => exact hv rfl
    | cons c v =>
      have htail : v ++ s = ("c".toList ++ (b₁ ++ ("-o".toList ++ (b₂ ++ (found.1 ++ (b₃ ++
          ((found.2 ++ ".c".toList) ++ e))))))) ++ rest := by
        have heq := hsplit.symm.trans htext
        simp only [List.append_assoc]
        exact (List.cons.inj heq).2
      rcases List.append_eq_append_iff.mp htail with ⟨u, htaken, hs⟩ | ⟨u, -, hrest'⟩
      · have hne : u ≠ [] := by
          intro hu
          rw [hs, hu, List.nil_append] at hlonger
          omega
        exact hquiet v u htaken hne (hs ▸ hcommand'.opens)
      · have hlength := congrArg List.length hrest'
        rw [List.length_append] at hlength
        omega

/-! ### The sources -/

/-- The objects keep the names that are looked for when a leading `./` is taken off. -/
theorem contains_trimPrefix {s name : Str} (hdot : name.head? ≠ some '.') (hslash : name.head? ≠ some '/')
    (hname : name ≠ []) : contains (trimPrefix s "./".toList) name = contains s name := by
  unfold trimPrefix
  split
  next hstarts =>
    obtain ⟨rest, hrest⟩ := hasPrefix_iff.mp hstarts
    cases name with
    | nil => exact absurd rfl hname
    | cons c name =>
      have hdot : c ≠ '.' := fun heq => hdot (congrArg some heq)
      have hslash : c ≠ '/' := fun heq => hslash (congrArg some heq)
      rw [← hrest, List.drop_left]
      have hsplit : "./".toList ++ rest = '.' :: '/' :: rest := rfl
      unfold contains
      rw [hsplit, List.tails_cons, List.tails_cons, List.any_cons, List.any_cons]
      simp [List.isPrefixOf, beq_eq_false_iff_ne.mpr hdot, beq_eq_false_iff_ne.mpr hslash]
  next => rfl

theorem libraryObject_trimPrefix (object : Str) :
    libraryObject (trimPrefix object "./".toList) = libraryObject object := by
  unfold libraryObject
  rw [contains_trimPrefix (by decide) (by decide) (by decide),
    contains_trimPrefix (by decide) (by decide) (by decide),
    contains_trimPrefix (by decide) (by decide) (by decide),
    contains_trimPrefix (by decide) (by decide) (by decide)]

/-- The result is the strictly increasing list of exactly the sources of the libraries. -/
theorem extractOpenSSLSources_exact (out : Str) :
    (extractOpenSSLSources out).Pairwise (· < ·) ∧
      ∀ s, s ∈ extractOpenSSLSources out ↔ IsLibrarySource out s := by
  refine ⟨uniqueStrings_strict _, ?_⟩
  intro s
  unfold extractOpenSSLSources findAllSubmatch
  rw [mem_uniqueStrings, List.mem_map]
  have hfound : ∀ found, found ∈ ((opensslSourcePattern.findAll none out).map fun m =>
      (m.submatch 1, m.submatch 2)) ↔ ∃ pre text rest, out = pre ++ text ∧ Found text found rest :=
    fun found => finds_opensslSource.mem_findAll
  constructor
  · intro ⟨m, hm, hs⟩
    obtain ⟨hmem, hlibrary⟩ := List.mem_filter.mp hm
    obtain ⟨before, text, rest, hout, e, hcommand, _⟩ := (hfound _).mp (List.mem_map_of_mem hmem)
    rw [libraryObject_trimPrefix] at hlibrary
    exact ⟨before, text, m.submatch 1, m.submatch 2, e ++ rest, hout, hcommand, hlibrary, hs.symm⟩
  · intro ⟨before, text, object, source, rest, hout, hcommand, hlibrary, hs⟩
    obtain ⟨m, hm, heq⟩ := List.mem_map.mp
      ((hfound (object, source)).mpr ⟨before, text, rest, hout, [], hcommand, by simp⟩)
    obtain ⟨hobject, hsource⟩ := Prod.mk.inj heq
    refine ⟨m, List.mem_filter.mpr ⟨hm, ?_⟩, ?_⟩
    · rw [libraryObject_trimPrefix, hobject]
      exact hlibrary
    · rw [hsource, hs]

end GoLibtor
