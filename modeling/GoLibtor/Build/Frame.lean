import GoLibtor.Build.Steps

/-! What the parts of the generator leave alone, and the parts of `main` around the libraries. -/
namespace GoLibtor

open Text Files Transition Program

/-! ### Operations and commands elsewhere -/

theorem effect_of_no_change {fs : Store} {op : Op} {d : Option Damage} (h : op.changes = none) :
    op.effect fs d = fs := by
  cases op with
  | writeFile p data => cases h
  | removeAll p => cases h
  | remove p => cases h
  | removeWalk name p => cases h
  | openFile p => cases d <;> rfl
  | readFile p => cases d <;> rfl
  | stat p => cases d <;> rfl
  | readDir p => cases d <;> rfl
  | mkdirAll p => cases d <;> rfl
  | walk p => cases d <;> rfl
  | abs p => cases d <;> rfl

/-- An operation changes nothing that is not at or below its path. -/
theorem get_effect {fs : Store} {op : Op} {d : Option Damage} {q p : Path} (hq : op.changes = some q)
    (h : ¬ q <+: p) : get (op.effect fs d) p = get fs p := by
  have hne : p ≠ q := by
    rintro rfl
    exact h List.prefix_rfl
  cases op with
  | writeFile q' data =>
    obtain rfl := Option.some.inj hq
    cases d with
    | none => exact (get_put _ _ _ _).trans (if_neg hne)
    | some d =>
      change get ((d.data.map (put fs q')).getD fs) p = get fs p
      cases d.data with
      | none => rfl
      | some c => exact (get_put _ _ _ _).trans (if_neg hne)
  | removeAll q' =>
    obtain rfl := Option.some.inj hq
    have hout : ∀ keep, get (Files.removeAll fs q' keep) p = get fs p := by
      intro keep
      rw [get_removeAll, if_neg]
      exact fun hpre => h hpre.1
    cases d with
    | none => exact hout _
    | some d => exact hout _
  | remove q' =>
    obtain rfl := Option.some.inj hq
    cases d with
    | none => exact (get_remove _ _ _).trans (if_neg hne)
    | some d => rfl
  | removeWalk name q' =>
    obtain rfl := Option.some.inj hq
    have hout : ∀ keep, get (Files.removeWalk fs name q' keep) p = get fs p := by
      intro keep
      unfold Files.removeWalk
      rw [get_filter fs (fun r => !(q'.isPrefixOf r && walkRemoves fs name q' (r.drop q'.length)) || keep r)]
      have hpre : q'.isPrefixOf p = false := by
        rw [← Bool.not_eq_true, List.isPrefixOf_iff_prefix]
        exact h
      simp [hpre]
    cases d with
    | none => exact hout _
    | some d => exact hout _
  | openFile p => cases hq
  | readFile p => cases hq
  | stat p => cases hq
  | readDir p => cases hq
  | mkdirAll p => cases hq
  | walk p => cases hq
  | abs p => cases hq

/-- The file `p` is at the end what it was at the beginning. -/
def Keeps {σ : Type} (p : Path) (w : World σ) (_ : List Event) (w' : World σ) : Prop :=
  get w'.files p = get w.files p

theorem keeps_composes {σ : Type} (p : Path) : Composes (Keeps (σ := σ) p) where
  refl := fun _ => rfl
  trans := fun hst htu => htu.trans hst

section Keeps

variable {σ A : Type} {m : Machine σ} {okOp : Op → Prop} {okCommand : Command → Prop} {p : Path}

theorem Uses.keeps {q : Gen σ A} (h : Uses m okOp okCommand q)
    (hop : ∀ op, okOp op → ∀ r, op.changes = some r → ¬ r <+: p)
    (hcommand : ∀ c, okCommand c → c.reaches p = false) : Along (Keeps p) q := by
  refine Built.along (keeps_composes p) ?_ h
  intro T r hr
  cases hr with
  | act op answer hok =>
    intro w
    change get (op.effect w.files (attempt m w op).1) p = get w.files p
    cases hc : op.changes with
    | none => rw [effect_of_no_change hc]
    | some r => exact get_effect hc (hop op hok r hc)
  | command c hok =>
    intro w
    refine (get_graft _ _ _ _).trans (if_neg ?_)
    rw [hcommand c hok]
    exact Bool.false_ne_true

theorem not_prefix_of_head {r : Path} {top : Str} (hr : r.head? = some top) (hne : p.head? ≠ some top) :
    ¬ r <+: p := by
  intro h
  cases r with
  | nil => cases hr
  | cons part rest =>
    obtain ⟨t, ht⟩ := h
    rw [← ht] at hne
    exact hne hr

/-- The function of a library leaves alone what is not a wrapper of its own, outside the target, its
configuration and the staged libevent. -/
theorem Wraps.keeps {lib : Library} {lock : Option LockJson} {q : Gen σ A} (h : Wraps m lib lock q)
    (htarget : p.head? ≠ some linux) (hstaged : p.head? ≠ some "builddeps".toList)
    (hconfig : p.head? ≠ some lib.config) (hwrapper : ∀ gofile, ¬ wrapperPath linux lib gofile <+: p) :
    Along (Keeps p) q := by
  refine Uses.keeps h ?_ ?_
  · rintro op (⟨_, hop⟩ | ⟨gofile, data, rfl⟩) r hr
    · rcases hop r hr with hhead | hhead | hhead
      · exact not_prefix_of_head hhead htarget
      · exact not_prefix_of_head hhead hstaged
      · exact not_prefix_of_head hhead hconfig
    · obtain rfl := Option.some.inj hr
      exact hwrapper gofile
  · exact fun c hc => hc.1.not_reaches htarget fun h => hstaged (staged_head h)

end Keeps

/-! ### The parts of `main` around the libraries -/

/-- What `main` itself changes, apart from the lock. -/
def MainOp (op : Op) : Prop :=
  ∀ p, op.changes = some p → p.head? = some "libtor".toList ∨ p.head? = some linux ∨
    p.head? = some "libtor.go".toList ∨ p.head? = some "README.md".toList

section Main

variable {σ A : Type} (m : Machine σ) (pk : Packages) (o : Options)

/-- `main` itself runs no command but the final build. -/
abbrev Plain (p : Gen σ A) : Prop := Uses m MainOp (fun _ => False) p

variable {m pk o}

theorem mainOp_look {op : Op} (hc : op.changes = none) : MainOp op := by
  intro p hp
  rw [hc] at hp
  cases hp

theorem plain_look {op : Op} (answer : op.Seen → Option Damage → A) (hc : op.changes = none) :
    Plain m (act m op answer) := uses_act answer (mainOp_look hc)

theorem uses_copyBuildFile {okOp : Op → Prop} {okCommand : Command → Prop} {name : String} {dst : Path}
    (hlook : ∀ op, op.changes = none → okOp op) (hwrite : ∀ data, okOp (.writeFile dst data)) :
    Uses m okOp okCommand (copyBuildFile m name dst) :=
  .bind (uses_act _ (hlook _ rfl)) fun _ => .bind (uses_act _ (hwrite _)) fun err => uses_ignore err

theorem uses_writeReadme {okOp : Op → Prop} {okCommand : Command → Prop}
    (hlook : ∀ op, op.changes = none → okOp op)
    (hwrite : ∀ data, okOp (.writeFile ["README.md".toList] data)) (v : Versions) :
    Uses m okOp okCommand (writeReadme m pk v) := by
  refine .bind (uses_act _ (hlook _ rfl)) fun result => ?_
  cases result with
  | notExist => exact .pure _
  | failed err => exact .pure _
  | found =>
    refine .bind (uses_act _ (hlook _ rfl)) fun read => .bind (uses_must read.2) fun _ => ?_
    cases htemplate : pk.template read.1 with
    | none => simpa only [htemplate] using .fail _
    | some execute =>
      simp only
      exact .bind (uses_act _ (hwrite _)) fun err => uses_ignore err

theorem plain_readLock : Plain m (readLock m pk) := by
  refine .bind (plain_look _ rfl) fun result => ?_
  cases result with
  | notExist => exact .pure _
  | failed err => exact .fail _
  | found =>
    refine .bind (plain_look _ rfl) fun read => .bind (uses_must read.2) fun _ => ?_
    cases hdecode : pk.decode read.1 with
    | none => simpa only [hdecode] using .fail _
    | some lock => simpa only [hdecode] using .pure _

theorem plain_chooseLock (currentLock : Option LockJson) :
    Plain m (chooseLock o currentLock) := by
  unfold chooseLock
  split
  · cases currentLock with
    | none => exact .fail _
    | some lock => exact .pure _
  · exact .pure _

theorem plain_chooseTarget : Plain m (chooseTarget o) := by
  unfold chooseTarget
  split
  · exact .pure _
  · exact .fail _

theorem plain_removeWhen {condition : Bool} {p : Path}
    (hp : p.head? = some "libtor".toList ∨ p.head? = some linux) : Plain m (removeWhen m condition p) := by
  unfold removeWhen
  split
  · refine .bind (uses_act _ ?_) fun err => uses_ignore err
    intro q hq
    obtain rfl := Option.some.inj hq
    rcases hp with h | h
    · exact Or.inl h
    · exact Or.inr (Or.inl h)
  · exact .pure _

theorem plain_copyBuildFile {name : String} {dst : Path}
    (hdst : dst.head? = some "libtor".toList ∨ dst.head? = some "libtor.go".toList) :
    Plain m (copyBuildFile m name dst) := by
  refine uses_copyBuildFile (fun _ hc => mainOp_look hc) ?_
  intro data q hq
  obtain rfl := Option.some.inj hq
  rcases hdst with h | h
  · exact Or.inl h
  · exact Or.inr (Or.inr (Or.inl h))

theorem plain_cleanUp : Plain m (cleanUp m o linux) :=
  .bind (plain_look _ rfl) fun _ => .bind (plain_removeWhen (Or.inl rfl)) fun _ =>
    .bind (plain_look _ rfl) fun _ => plain_removeWhen (Or.inr rfl)

theorem plain_prepare : Plain m (prepare m o linux) :=
  .bind plain_cleanUp fun _ => .bind (plain_look _ rfl) fun err => .bind (uses_must err) fun _ =>
    .bind (plain_copyBuildFile (Or.inl rfl)) fun _ => .bind (plain_look _ rfl) fun err => uses_must err

theorem plain_copyEntrypoints : Plain m (copyEntrypoints m) :=
  .bind (plain_copyBuildFile (Or.inr rfl)) fun _ => plain_copyBuildFile (Or.inl rfl)

theorem plain_writeReadme (v : Versions) : Plain m (writeReadme m pk v) := by
  refine uses_writeReadme (fun _ hc => mainOp_look hc) ?_ v
  intro data q hq
  obtain rfl := Option.some.inj hq
  exact Or.inr (Or.inr (Or.inr rfl))

theorem Plain.keeps {p : Path} {q : Gen σ A} (h : Plain m q) (hlibtor : p.head? ≠ some "libtor".toList)
    (htarget : p.head? ≠ some linux) (hgo : p.head? ≠ some "libtor.go".toList)
    (hreadme : p.head? ≠ some "README.md".toList) : Along (Keeps p) q := by
  refine Uses.keeps h ?_ ?_
  · intro op hop r hr
    rcases hop r hr with hhead | hhead | hhead | hhead
    · exact not_prefix_of_head hhead hlibtor
    · exact not_prefix_of_head hhead htarget
    · exact not_prefix_of_head hhead hgo
    · exact not_prefix_of_head hhead hreadme
  · intro c hc
    exact hc.elim

/-- The build of the package leaves the files alone. -/
theorem keeps_build (p : Path) : Along (Keeps p) (build m o) := by
  unfold build
  split
  · refine along_bind (keeps_composes p) (fun _ => rfl) fun _ err _ _ _ => ?_
    cases err with
    | none => exact along_pure (keeps_composes p) _
    | some e => exact along_fail (keeps_composes p) _
  · exact along_pure (keeps_composes p) _

theorem chooseTarget_returns {w w' : World σ} {tgt : Str} {vs : List Event}
    (h : Returns (chooseTarget o) w tgt w' vs) : tgt = linux ∧ w' = w ∧ vs = [] := by
  unfold chooseTarget at h
  split at h
  · exact pure_returns.mp h
  · exact absurd h not_fail_returns

/-! ### All of `main` but the update -/

/-- The lock that the function of a library is given. -/
def Options.lockFor (o : Options) (currentLock lock : Option LockJson) (lib : Library) : Option LockJson :=
  if lib = .tor ∧ o.genLock = true then currentLock else lock

section Along

variable {R : World σ → List Event → World σ → Prop}

theorem along_wrapAll (hR : Composes R) {currentLock lock : Option LockJson}
    (hwrap : ∀ (lib : Library) (T : Type) (q : Gen σ T),
      Wraps m lib (o.lockFor currentLock lock lib) q → Along R q) :
    Along R (wrapAll m pk o linux currentLock lock) := by
  have htor : o.lockFor currentLock lock .tor = if o.genLock then currentLock else lock := by
    unfold Options.lockFor
    simp
  refine along_bind hR (along_mapError (hwrap .zlib _ _ wraps_wrapZlib)) fun _ _ _ _ _ => ?_
  refine along_bind hR (along_mapError (hwrap .libevent _ _ wraps_wrapLibevent)) fun _ _ _ _ _ => ?_
  refine along_bind hR (along_mapError (hwrap .openssl _ _ wraps_wrapOpenSSL)) fun _ _ _ _ _ => ?_
  refine along_bind hR (along_mapError (hwrap .tor _ _ (htor ▸ wraps_wrapTor))) fun _ _ _ _ _ => ?_
  exact along_pure hR _

/-- What holds along the parts of `main` itself and along the functions of the libraries. -/
theorem along_generate (hR : Composes R) (hplain : ∀ (T : Type) (q : Gen σ T), Plain m q → Along R q)
    (hwrap : ∀ (lib : Library) (lock : Option LockJson) (T : Type) (q : Gen σ T),
      Wraps m lib lock q → Along R q) : Along R (generate m pk o) := by
  refine along_bind hR (hplain _ _ plain_readLock) fun _ currentLock _ _ _ => ?_
  refine along_bind hR (hplain _ _ (plain_chooseLock currentLock)) fun _ lock _ _ _ => ?_
  refine along_bind hR (hplain _ _ plain_chooseTarget) fun _ tgt _ _ htgt => ?_
  obtain ⟨rfl, _⟩ := chooseTarget_returns htgt
  refine along_bind hR (hplain _ _ plain_prepare) fun _ _ _ _ _ => ?_
  refine along_bind hR (along_wrapAll hR fun lib T q hq => hwrap lib _ T q hq) fun _ _ _ _ _ => ?_
  exact along_bind hR (hplain _ _ plain_copyEntrypoints) fun _ _ _ _ _ => along_pure hR _

end Along

theorem Plain.along {q : Gen σ A} (h : Plain m q) : Along (Acts (EventOf MainOp fun _ => False)) q :=
  Uses.along h

end Main

end GoLibtor
