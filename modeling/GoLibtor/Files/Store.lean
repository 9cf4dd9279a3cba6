import GoLibtor.Text.Strings

/-! Files by path. A folder is there when a file is somewhere below it, so an empty folder
is not told apart from a missing one. -/
namespace Files

open Text

/-- The parts of a path, from the outermost folder to the name of the file. -/
abbrev Path := List Str

/-- Of several entries for one path the first counts. -/
abbrev Store := List (Path × Str)

def get (fs : Store) (p : Path) : Option Str := fs.lookup p

def put (fs : Store) (p : Path) (content : Str) : Store := (p, content) :: fs

/-- The file or the folder `p`, except for what `keep` holds on to. -/
def removeAll (fs : Store) (p : Path) (keep : Path → Bool) : Store :=
  fs.filter fun e => !p.isPrefixOf e.1 || keep e.1

def remove (fs : Store) (p : Path) : Store := fs.filter fun e => e.1 != p

/-- A file or a folder. -/
def present (fs : Store) (p : Path) : Bool := fs.any fun e => p.isPrefixOf e.1

structure Entry where
  name : Str
  isDir : Bool
  deriving DecidableEq

/-- What is below the folder `dir`, as the rest of each path. -/
def below (fs : Store) (dir : Path) : List Path :=
  (fs.filter fun e => dir.isPrefixOf e.1).map fun e => e.1.drop dir.length

/-- The entries of a folder, sorted by name. -/
def readDir (fs : Store) (dir : Path) : List Entry :=
  let rests := below fs dir
  (sortStrings (rests.filterMap List.head?).dedup).map fun name =>
    ⟨name, rests.any fun r => decide (r.head? = some name ∧ 2 ≤ r.length)⟩

/-- The part of a store under the top folder `top`. -/
def within (top : Option Str) (fs : Store) : Store := fs.filter fun e => e.1.head? == top

/-- The rest of a store. -/
def outside (top : Option Str) (fs : Store) : Store := fs.filter fun e => e.1.head? != top

/-- The part of a store in an area. -/
def part (area : Path → Bool) (fs : Store) : Store := fs.filter fun e => area e.1

/-- `fs` with everything in an area as in `new`. -/
def graft (area : Path → Bool) (fs new : Store) : Store :=
  part area new ++ part (fun p => !area p) fs

/-- One part of a path put on the parts before it, the last of which comes first. -/
def cleanStep (stack : List Str) (part : Str) : List Str :=
  if part = [] ∨ part = ".".toList then stack
  else if part = "..".toList then
    match stack with
    | [] => [part]
    | top :: rest => if top = "..".toList then part :: stack else rest
  else part :: stack

/-- `filepath.Join` of a folder and a slashed name, cleaned. -/
def join (dir : Path) (name : Str) : Path := ((dir ++ splitOn name '/').foldl cleanStep []).reverse

/-- Whether the walk from `dir`, the callback of which removes what is called `name` and then
answers `SkipDir`, removes the file at `dir ++ rest`. For a file of this name `SkipDir` passes
over the entries after it in the same folder. -/
def walkRemoves (fs : Store) (name : Str) (dir : Path) : Path → Bool
  | [] => false
  | part :: rest =>
    if part = name then true
    else if (get fs (dir ++ [name])).isSome ∧ name < part then false
    else walkRemoves fs name (dir ++ [part]) rest

/-- What a walk of this kind leaves, `keep` being what it fails to remove. -/
def removeWalk (fs : Store) (name : Str) (dir : Path) (keep : Path → Bool) : Store :=
  fs.filter fun e => !(dir.isPrefixOf e.1 && walkRemoves fs name dir (e.1.drop dir.length)) || keep e.1

/-! ### The parts of a path -/

theorem mem_foldl_cleanStep {part : Str} {parts stack : List Str} (h : part ∈ parts.foldl cleanStep stack) :
    part ∈ stack ∨ part ∈ parts := by
  induction parts generalizing stack with
  | nil => exact Or.inl h
  | cons next parts ih =>
    have hstep : part ∈ cleanStep stack next → part ∈ stack ∨ part = next := by
      intro hmem
      unfold cleanStep at hmem
      split at hmem
      · exact Or.inl hmem
      · split at hmem
        · cases stack with
          | nil => exact Or.inr (List.mem_singleton.mp hmem)
          | cons top stack =>
            dsimp only at hmem
            split at hmem
            · rcases List.mem_cons.mp hmem with h | h
              · exact Or.inr h
              · exact Or.inl h
            · exact Or.inl (List.mem_cons_of_mem top hmem)
        · rcases List.mem_cons.mp hmem with h | h
          · exact Or.inr h
          · exact Or.inl h
    rcases ih h with hmem | hmem
    · rcases hstep hmem with hold | rfl
      · exact Or.inl hold
      · exact Or.inr List.mem_cons_self
    · exact Or.inr (List.mem_cons_of_mem next hmem)

/-! ### What an operation leaves at a path -/

/-- A store cut down by paths. -/
theorem get_filter (fs : Store) (f : Path → Bool) (p : Path) :
    get (fs.filter fun e => f e.1) p = if f p then get fs p else none := by
  unfold get
  induction fs with
  | nil => split <;> rfl
  | cons e fs ih =>
    obtain ⟨q, c⟩ := e
    rw [List.filter_cons]
    by_cases hpq : p = q
    · subst hpq
      by_cases hf : f p = true
      · simp [hf]
      · rw [if_neg hf, ih, if_neg hf, if_neg hf]
    · have hne : (p == q) = false := beq_eq_false_iff_ne.mpr hpq
      have htail : List.lookup p ((q, c) :: fs) = List.lookup p fs := by
        rw [List.lookup_cons, hne]
      rw [htail]
      split
      · rw [List.lookup_cons, hne]
        exact ih
      · exact ih

theorem get_append (fs fs' : Store) (p : Path) : get (fs ++ fs') p = (get fs p).or (get fs' p) :=
  List.lookup_append

theorem get_removeAll (fs : Store) (dir : Path) (keep : Path → Bool) (p : Path) :
    get (removeAll fs dir keep) p = if dir <+: p ∧ keep p = false then none else get fs p := by
  unfold removeAll
  rw [get_filter fs (fun q => !dir.isPrefixOf q || keep q) p]
  by_cases hdir : dir <+: p
  · cases hkeep : keep p <;> simp [hdir]
  · simp [hdir]

theorem get_remove (fs : Store) (q p : Path) : get (remove fs q) p = if p = q then none else get fs p := by
  unfold remove
  rw [get_filter fs (fun r => r != q) p]
  by_cases h : p = q <;> simp [h]

theorem get_graft (area : Path → Bool) (fs new : Store) (p : Path) :
    get (graft area fs new) p = if area p then get new p else get fs p := by
  unfold graft part
  rw [get_append, get_filter new area, get_filter fs fun q => !area q]
  cases area p <;> simp

/-- A top folder that belongs to the area is as in the new store. -/
theorem within_graft {area : Path → Bool} {top : Option Str} (h : ∀ p, p.head? = top → area p = true)
    (fs new : Store) : within top (graft area fs new) = within top new := by
  unfold graft within part
  rw [List.filter_append, List.filter_filter, List.filter_filter]
  have hnew : (new.filter fun e => e.1.head? == top && area e.1) = new.filter fun e => e.1.head? == top := by
    apply List.filter_congr
    intro e _
    by_cases he : e.1.head? = top
    · simp [he, h _ he]
    · simp [he]
  have hold : (fs.filter fun e => e.1.head? == top && !area e.1) = [] := by
    rw [List.filter_eq_nil_iff]
    intro e _
    by_cases he : e.1.head? = top
    · simp [h _ he]
    · simp [he]
  rw [hnew, hold, List.append_nil]

theorem get_removeWalk (fs : Store) (name : Str) (dir : Path) (keep : Path → Bool) (p : Path) :
    get (removeWalk fs name dir keep) p =
      if (dir.isPrefixOf p && walkRemoves fs name dir (p.drop dir.length)) = true ∧ keep p = false then none
      else get fs p := by
  unfold removeWalk
  rw [get_filter fs (fun q => !(dir.isPrefixOf q && walkRemoves fs name dir (q.drop dir.length)) || keep q)]
  cases dir.isPrefixOf p && walkRemoves fs name dir (p.drop dir.length) <;> cases keep p <;> simp

/-- A walk that removes what is called `name` gets past a path in which nothing is. -/
theorem walkRemoves_of_not_mem (fs : Store) {name : Str} (dir : Path) {rest : Path} (h : name ∉ rest) :
    walkRemoves fs name dir rest = false := by
  induction rest generalizing dir with
  | nil => rfl
  | cons part rest ih =>
    have hne : part ≠ name := fun heq => h (heq ▸ List.mem_cons_self)
    have hrest : name ∉ rest := fun hmem => h (List.mem_cons_of_mem part hmem)
    unfold walkRemoves
    rw [if_neg hne, ih _ hrest, ite_self]

/-! ### Listing a folder -/

/-- No file is a folder as well. -/
def Tree (fs : Store) : Prop := ∀ e ∈ fs, ∀ e' ∈ fs, e.1 <+: e'.1 → e.1 = e'.1

instance (fs : Store) : Decidable (Tree fs) := by
  unfold Tree
  infer_instance

theorem tree_within {fs : Store} (h : Tree fs) (top : Option Str) : Tree (within top fs) :=
  fun e he e' he' => h e (List.mem_filter.mp he).1 e' (List.mem_filter.mp he').1

theorem mem_of_get {fs : Store} {p : Path} (h : get fs p ≠ none) : ∃ e ∈ fs, e.1 = p := by
  obtain ⟨c, hc⟩ := Option.ne_none_iff_exists'.mp h
  obtain ⟨l₁, l₂, rfl, _⟩ := List.lookup_eq_some_iff.mp hc
  exact ⟨(p, c), by simp, rfl⟩

theorem mem_below {fs : Store} {dir r : Path} : r ∈ below fs dir ↔ ∃ e ∈ fs, e.1 = dir ++ r := by
  unfold below
  rw [List.mem_map]
  constructor
  · rintro ⟨e, he, rfl⟩
    obtain ⟨hmem, hbelow⟩ := List.mem_filter.mp he
    obtain ⟨t, ht⟩ := List.isPrefixOf_iff_prefix.mp hbelow
    exact ⟨e, hmem, by rw [← ht, List.drop_left]⟩
  · rintro ⟨e, he, heq⟩
    refine ⟨e, List.mem_filter.mpr ⟨he, ?_⟩, by rw [heq, List.drop_left]⟩
    rw [List.isPrefixOf_iff_prefix, heq]
    exact List.prefix_append dir r

/-- There is one entry for each name below a folder. -/
theorem mem_readDir {fs : Store} {dir : Path} {e : Entry} :
    e ∈ readDir fs dir ↔ (∃ r ∈ below fs dir, r.head? = some e.name) ∧
      e.isDir = (below fs dir).any fun r => decide (r.head? = some e.name ∧ 2 ≤ r.length) := by
  unfold readDir
  dsimp only
  rw [List.mem_map]
  constructor
  · rintro ⟨name, hname, rfl⟩
    rw [mem_sortStrings, List.mem_dedup, List.mem_filterMap] at hname
    exact ⟨hname, rfl⟩
  · rintro ⟨hname, hdir⟩
    refine ⟨e.name, ?_, ?_⟩
    · rw [mem_sortStrings, List.mem_dedup, List.mem_filterMap]
      exact hname
    · rw [← hdir]

/-- What is below a folder of the folder shows as a folder. -/
theorem readDir_folder {fs : Store} {dir : Path} {name : Str} {rest : Path} (hrest : rest ≠ [])
    (h : get fs (dir ++ name :: rest) ≠ none) {e : Entry} :
    e ∈ readDir fs dir ∧ e.name = name ↔ e = ⟨name, true⟩ := by
  have hbelow : name :: rest ∈ below fs dir := mem_below.mpr (mem_of_get h)
  have hany : ((below fs dir).any fun r => decide (r.head? = some name ∧ 2 ≤ r.length)) = true := by
    rw [List.any_eq_true]
    refine ⟨name :: rest, hbelow, decide_eq_true ⟨rfl, ?_⟩⟩
    have hlength : 0 < rest.length := List.length_pos_iff.mpr hrest
    simp only [List.length_cons]
    omega
  rw [mem_readDir]
  constructor
  · rintro ⟨⟨-, hdir⟩, rfl⟩
    rw [hany] at hdir
    rw [← hdir]
  · rintro rfl
    exact ⟨⟨⟨_, hbelow, rfl⟩, hany.symm⟩, rfl⟩

/-- A file of the folder shows as a file. -/
theorem readDir_file {fs : Store} {top : Str} {dir : Path} (hdir : dir.head? = some top)
    (htree : Tree (within (some top) fs)) {name : Str} (h : get fs (dir ++ [name]) ≠ none) {e : Entry} :
    e ∈ readDir fs dir ∧ e.name = name ↔ e = ⟨name, false⟩ := by
  have hbelow : [name] ∈ below fs dir := mem_below.mpr (mem_of_get h)
  have hany : ((below fs dir).any fun r => decide (r.head? = some name ∧ 2 ≤ r.length)) = false := by
    rw [List.any_eq_false]
    intro r hr hlong
    obtain ⟨hhead, hlength⟩ := of_decide_eq_true hlong
    obtain ⟨e₁, he₁, heq₁⟩ := mem_below.mp hbelow
    obtain ⟨e₂, he₂, heq₂⟩ := mem_below.mp hr
    have hbelow : e₁.1 <+: e₂.1 := by
      rw [heq₁, heq₂]
      cases r with
      | nil => cases hhead
      | cons part rest =>
        obtain rfl := Option.some.inj hhead
        exact ⟨rest, by simp⟩
    have htop : ∀ e ∈ fs, ∀ t, e.1 = dir ++ t → e ∈ within (some top) fs := by
      intro e he t ht
      refine List.mem_filter.mpr ⟨he, ?_⟩
      rw [ht, List.head?_append, hdir]
      exact beq_self_eq_true _
    have heq := htree e₁ (htop e₁ he₁ _ heq₁) e₂ (htop e₂ he₂ _ heq₂) hbelow
    rw [heq₁, heq₂, List.append_cancel_left_eq] at heq
    rw [← heq] at hlength
    simp at hlength
  rw [mem_readDir]
  constructor
  · rintro ⟨⟨-, hdir⟩, rfl⟩
    rw [hany] at hdir
    rw [← hdir]
  · rintro rfl
    exact ⟨⟨⟨_, hbelow, rfl⟩, hany.symm⟩, rfl⟩

theorem get_within (top : Option Str) (fs : Store) (p : Path) :
    get (within top fs) p = if p.head? = top then get fs p else none := by
  unfold within
  rw [get_filter fs (fun q => q.head? == top)]
  simp

theorem get_isSome_of_mem {fs : Store} {e : Path × Str} (he : e ∈ fs) : get fs e.1 ≠ none := by
  unfold get
  rw [ne_eq, List.lookup_eq_none_iff]
  intro hall
  have hne := hall e he
  simp at hne

theorem tree_iff {fs : Store} : Tree fs ↔
    ∀ p q, get fs p ≠ none → get fs q ≠ none → p <+: q → p = q := by
  constructor
  · intro h p q hp hq
    obtain ⟨e, he, rfl⟩ := mem_of_get hp
    obtain ⟨e', he', rfl⟩ := mem_of_get hq
    exact h e he e' he'
  · intro h e he e' he'
    exact h e.1 e'.1 (get_isSome_of_mem he) (get_isSome_of_mem he')

/-! ### Writing a list of files -/

/-- The writes of a list, the last one of them last. -/
def puts (fs : Store) (ws : List (Path × Str)) : Store := ws.foldl (fun fs w => put fs w.1 w.2) fs

theorem get_put (fs : Store) (p : Path) (c : Str) (q : Path) :
    get (put fs p c) q = if q = p then some c else get fs q := by
  unfold get put
  rw [List.lookup_cons]
  split
  next h => simp [beq_iff_eq.mp h]
  next h => simp [beq_eq_false_iff_ne.mp h]

theorem puts_append (fs : Store) (ws ws' : List (Path × Str)) :
    puts fs (ws ++ ws') = puts (puts fs ws) ws' := List.foldl_append

theorem puts_cons (fs : Store) (w : Path × Str) (ws : List (Path × Str)) :
    puts fs (w :: ws) = puts (put fs w.1 w.2) ws := rfl

/-- Writes elsewhere change nothing here. -/
theorem get_puts_of_ne {fs : Store} {ws : List (Path × Str)} {p : Path} (h : ∀ w ∈ ws, w.1 ≠ p) :
    get (puts fs ws) p = get fs p := by
  induction ws generalizing fs with
  | nil => rfl
  | cons w ws ih =>
    rw [puts_cons, ih fun v hv => h v (List.mem_cons_of_mem w hv), get_put,
      if_neg (h w List.mem_cons_self).symm]

/-- The last write to a path is the one that counts. -/
theorem get_puts_last {fs : Store} {pre post : List (Path × Str)} {p : Path} {c : Str}
    (h : ∀ w ∈ post, w.1 ≠ p) : get (puts fs (pre ++ (p, c) :: post)) p = some c := by
  rw [puts_append, puts_cons, get_puts_of_ne h, get_put, if_pos rfl]

theorem mem_of_get_puts {fs : Store} {ws : List (Path × Str)} {p : Path} {c : Str}
    (h : get (puts fs ws) p = some c) : (p, c) ∈ ws ∨ get fs p = some c := by
  induction ws generalizing fs with
  | nil => exact Or.inr h
  | cons w ws ih =>
    rcases ih h with hmem | hput
    · exact Or.inl (List.mem_cons_of_mem w hmem)
    · rw [get_put] at hput
      split at hput
      next heq =>
        left
        rw [heq, ← Option.some.inj hput]
        exact List.mem_cons_self
      next => exact Or.inr hput

/-- Writes that agree on a path leave there what they agree on. -/
theorem get_puts_of_mem {fs : Store} {ws : List (Path × Str)} {p : Path} {c : Str}
    (hmem : (p, c) ∈ ws) (hall : ∀ w ∈ ws, w.1 = p → w.2 = c) : get (puts fs ws) p = some c := by
  induction ws generalizing fs with
  | nil => cases hmem
  | cons w ws ih =>
    have hrest : ∀ v ∈ ws, v.1 = p → v.2 = c := fun v hv => hall v (List.mem_cons_of_mem w hv)
    by_cases hws : ∃ v ∈ ws, v.1 = p
    · obtain ⟨v, hv, hvp⟩ := hws
      have hvc : v = (p, c) := Prod.ext hvp (hrest v hv hvp)
      exact ih (hvc ▸ hv) hrest
    · have hne : ∀ v ∈ ws, v.1 ≠ p := fun v hv hvp => hws ⟨v, hv, hvp⟩
      have hw : (p, c) = w := by
        rcases List.mem_cons.mp hmem with h | h
        · exact h
        · exact absurd rfl (hne _ h)
      rw [puts_cons, get_puts_of_ne hne, get_put, ← hw, if_pos rfl]

end Files
