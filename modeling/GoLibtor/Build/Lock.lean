import GoLibtor.Build.Upstream

/-! The lock file: what an update writes pins what later runs build. -/
namespace GoLibtor

open Text Files Transition Program

/-- A full commit hash. -/
def FullHash (h : Str) : Prop :=
  h.length = 40 ∧ ∀ c ∈ h, inRange '0' '9' c = true ∨ inRange 'a' 'f' c = true

instance (h : Str) : Decidable (FullHash h) := by
  unfold FullHash
  infer_instance

/-- What is relied on of git, `commits` being the commits that exist upstream. -/
structure Git {σ : Type} (m : Machine σ) (commits : Library → Str → Prop) : Prop where
  full : ∀ lib h, commits lib h → FullHash h
  /-- `rev-parse HEAD` prints a commit of the clone. -/
  head : ∀ lib s fs, (m.exec s fs (revParseCommand linux lib)).ok = true →
    ∃ h, commits lib h ∧ (m.exec s fs (revParseCommand linux lib)).out = h ++ "\n".toList
  /-- After the checkout of a full hash that exists, `rev-parse HEAD` prints it. -/
  checkout : ∀ lib h s fs, commits lib h → (m.exec s fs (checkoutCommand linux lib h)).ok = true →
    (m.exec (m.exec s fs (checkoutCommand linux lib h)).state
      (within (some linux) (m.exec s fs (checkoutCommand linux lib h)).files)
      (revParseCommand linux lib)).out = h ++ "\n".toList

/-- A white space character cannot be part of a full hash, so trimming gives the hash back. -/
theorem FullHash.trim {h : Str} (hh : FullHash h) : trimSpace (h ++ "\n".toList) = h := by
  have hspace : ∀ c ∈ h, isSpace c = false := by
    intro c hc
    have hrange : ('0' ≤ c ∧ c ≤ '9') ∨ ('a' ≤ c ∧ c ≤ 'f') := by
      rcases hh.2 c hc with h | h
      · exact Or.inl (by simpa [inRange] using h)
      · exact Or.inr (by simpa [inRange] using h)
    have hnat : (48 ≤ c.toNat ∧ c.toNat ≤ 57) ∨ (97 ≤ c.toNat ∧ c.toNat ≤ 102) := hrange
    unfold isSpace
    simp only [Bool.or_eq_false_iff, Bool.and_eq_false_iff, decide_eq_false_iff_not, beq_eq_false_iff_ne]
    omega
  have hkeep : ∀ s : Str, (∀ c ∈ s, isSpace c = false) → s.dropWhile isSpace = s := by
    intro s hs
    cases s with
    | nil => rfl
    | cons c cs => rw [List.dropWhile_cons, hs c List.mem_cons_self]; rfl
  have hne : h ≠ [] := by
    rintro rfl
    exact absurd hh.1 (by decide)
  have hfront : (h ++ "\n".toList).dropWhile isSpace = h ++ "\n".toList := by
    cases h with
    | nil => exact absurd rfl hne
    | cons c cs =>
      rw [List.cons_append, List.dropWhile_cons, hspace c List.mem_cons_self]
      rfl
  unfold trimSpace
  rw [hfront, List.reverse_append]
  change (('\n' :: h.reverse).dropWhile isSpace).reverse = h
  rw [List.dropWhile_cons, show isSpace '\n' = true from by decide, if_pos rfl, hkeep, List.reverse_reverse]
  intro c hc
  exact hspace c (List.mem_reverse.mp hc)

theorem git_upstreams {up : Library → Upstream} (hfull : ∀ lib, FullHash (up lib).commit) :
    Git (upstreams up) fun lib h => h = (up lib).commit where
  full := by
    rintro lib h rfl
    exact hfull lib
  head := by
    intro lib s fs _
    have hanswer : ((upstreams up).exec s fs (revParseCommand linux lib)).out =
        (up lib).commit ++ "\n".toList :=
      congrArg Reply.out (exec_library up lib s fs (revParseCommand linux lib).args)
    exact ⟨_, rfl, hanswer⟩
  checkout := by
    rintro lib h s fs rfl _
    exact congrArg Reply.out (exec_library up lib _ _ (revParseCommand linux lib).args)

section

variable {σ : Type} {m : Machine σ} {pk : Packages} {o : Options}

/-- What git prints for the commit. -/
theorem Git.commit {commits : Library → Str → Prop} (hgit : Git m commits) {lib : Library} {url : String}
    {choose : Gen σ Str} {w w' : World σ} {commit : Str} {vs : List Event}
    (h : Returns (checkoutCommit m linux lib url choose) w commit w' vs) : commits lib commit := by
  obtain ⟨_, x, t, _, r, _, _, hr, hok, rfl, _⟩ := checkoutCommit_returns h
  obtain ⟨c, hc, hout⟩ := hgit.head lib _ _ (hr ▸ hok)
  have hprint : r.out = c ++ "\n".toList := by
    rw [hr]
    exact hout
  rw [hprint, (hgit.full lib c hc).trim]
  exact hc

/-- A locked commit that exists is the one that is built from. -/
theorem Git.locked {commits : Library → Str → Prop} (hgit : Git m commits) {lib : Library} {url : String}
    {h : Str} {w w' : World σ} {commit : Str} {vs : List Event} (hh : commits lib h)
    (hret : Returns (checkoutCommit m linux lib url (pure h)) w commit w' vs) : commit = h := by
  obtain ⟨_, x, t, _, r, hchoose, hok, hr, _, rfl, _⟩ := checkoutCommit_returns hret
  obtain ⟨rfl, rfl, _⟩ := pure_returns.mp hchoose
  have hprint : r.out = x ++ "\n".toList := by
    rw [hr, ← hgit.checkout lib x t.machine _ hh hok]
    unfold reply
    rw [part_reaches (c := revParseCommand linux lib) rfl]
    exact congrArg (fun fs => (m.exec _ fs (revParseCommand linux lib)).out)
      (within_after m t (checkoutCommand linux lib x))
  rw [hprint, (hgit.full lib x hh).trim]

/-- With a lock on commits that exist, a library is built from the locked commit. -/
theorem Git.wrap_locked {commits : Library → Str → Prop} (hgit : Git m commits) {lib : Library}
    {lock : LockJson} {w w' : World σ} {a : Str × Str} {vs : List Event}
    (hlock : commits lib (lib.commit lock))
    (h : Returns (lib.wrap m pk o linux (some lock)) w a w' vs) : a.2 = lib.commit lock := by
  obtain ⟨url, latest, t, us, hcheckout, _⟩ := wrap_checkout h
  exact hgit.locked hlock hcheckout

/-- The commit that is built from exists, and `rev-parse` printed it. -/
theorem Git.wrap_commit {commits : Library → Str → Prop} (hgit : Git m commits) {lib : Library}
    {lock : Option LockJson} {w w' : World σ} {a : Str × Str} {vs : List Event}
    (h : Returns (lib.wrap m pk o linux lock) w a w' vs) :
    commits lib a.2 ∧
      ∃ fs, Event.ran (revParseCommand linux lib) (a.2 ++ "\n".toList) true fs ∈ vs := by
  obtain ⟨url, latest, t, us, hcheckout, hsub⟩ := wrap_checkout h
  refine ⟨hgit.commit hcheckout, ?_⟩
  obtain ⟨_, x, t', _, r, _, _, hr, hok, heq, hmem⟩ := checkoutCommit_returns hcheckout
  obtain ⟨c, hc, hout⟩ := hgit.head lib _ _ (hr ▸ hok)
  have hprint : r.out = c ++ "\n".toList := by
    rw [hr]
    exact hout
  rw [hprint, (hgit.full lib c hc).trim] at heq
  rw [hprint, ← heq] at hmem
  exact ⟨r.files, hsub hmem⟩

/-! ### The lock file along a run -/

/-- Nothing but the end of an update touches the lock. -/
theorem generate_keeps_lock : Along (Keeps lockPath) (generate m pk o) := by
  refine along_generate (keeps_composes lockPath) ?_ ?_
  · intro T q hq
    exact Plain.keeps hq (by decide) (by decide) (by decide) (by decide)
  · intro lib lock T q hq
    refine Wraps.keeps hq (by decide) (by decide) ?_ ?_
    · cases lib <;> decide
    · intro gofile
      exact not_prefix_of_head rfl (by decide)

theorem writeReadme_keeps_lock (v : Versions) : Along (Keeps lockPath) (writeReadme m pk v) :=
  Plain.keeps (plain_writeReadme v) (by decide) (by decide) (by decide) (by decide)

theorem writeLock_never_fails {lock : LockJson} {w w' : World σ} {e : Stop} {vs : List Event} :
    (writeLock m pk lock).run w ≠ ⟨.error e, w', vs⟩ := by
  intro h
  cases h

theorem Along.fails {A : Type} {q : Gen σ A} (hq : Along (Keeps lockPath) q) {s t : World σ} {e : Stop}
    {us : List Event} (h : q.run s = ⟨.error e, t, us⟩) :
    get t.files lockPath = get s.files lockPath := by
  have hs : Keeps lockPath s (q.run s).trace (q.run s).state := hq s
  rw [h] at hs
  exact hs

/-- The write of the lock is the last step, and it cannot make the run fail. -/
theorem failed_update_keeps_lock {v : Versions} {w w' : World σ} {e : Stop} {vs : List Event}
    (h : (update m pk o v).run w = ⟨.error e, w', vs⟩) :
    get w'.files lockPath = get w.files lockPath := by
  unfold update at h
  split at h
  · rcases bind_fails h with hreadme | ⟨_, w₁, us₁, vs₁, _, hlock, _⟩
    · exact Along.fails (writeReadme_keeps_lock v) hreadme
    · exact absurd hlock writeLock_never_fails
  · cases h

/-- A run that fails leaves the lock as it was. -/
theorem failed_keeps_lock {w w' : World σ} {e : Stop} {vs : List Event}
    (h : (main m pk o).run w = ⟨.error e, w', vs⟩) : get w'.files lockPath = get w.files lockPath := by
  rcases bind_fails h with hgen | ⟨v, w₁, us₁, vs₁, hgen, htail, _⟩
  · exact Along.fails generate_keeps_lock hgen
  have hw₁ : get w₁.files lockPath = get w.files lockPath := generate_keeps_lock.returns hgen
  rw [← hw₁]
  rcases bind_fails htail with hbuild | ⟨_, w₂, us₂, vs₂, hbuild, hlast, _⟩
  · exact Along.fails (keeps_build lockPath) hbuild
  have hw₂ : get w₂.files lockPath = get w₁.files lockPath := (keeps_build lockPath).returns hbuild
  rw [← hw₂]
  rcases bind_fails hlast with hupdate | ⟨_, w₃, us₃, vs₃, _, hpure, _⟩
  · exact failed_update_keeps_lock hupdate
  · cases hpure

/-- An event other than a write of the lock. -/
def NotLockWrite (e : Event) : Prop := ∀ data d, e ≠ .did (.writeFile lockPath data) d

theorem plain_notLockWrite {A : Type} {q : Gen σ A} (h : Plain m q) : Along (Acts NotLockWrite) q := by
  intro w
  obtain ⟨hfiles, hall⟩ := h.along w
  refine ⟨hfiles, ?_⟩
  rintro e he data d rfl
  rcases hall _ he lockPath rfl with h | h | h | h <;> revert h <;> decide

theorem wraps_notLockWrite {A : Type} {lib : Library} {lock : Option LockJson} {q : Gen σ A}
    (h : Wraps m lib lock q) : Along (Acts NotLockWrite) q := by
  intro w
  obtain ⟨hfiles, hall⟩ := Uses.along h w
  refine ⟨hfiles, ?_⟩
  rintro e he data d rfl
  rcases hall _ he with ⟨_, hop⟩ | ⟨gofile, data', h⟩
  · rcases hop lockPath rfl with h | h | h <;> revert h
    · decide
    · decide
    · cases lib <;> decide
  · cases h

/-- When the write of the lock succeeds, the lock is what the run built from. -/
theorem update_writes_lock {w w' : World σ} {v : Versions} {vs : List Event} (hgen : o.genLock = true)
    (h : Returns (main m pk o) w v w' vs)
    (hwrite : Event.did (.writeFile lockPath (pk.marshal v.lock)) none ∈ vs) :
    get w'.files lockPath = some (pk.marshal v.lock) := by
  obtain ⟨_, _, _, _, _, _, _, w₁, w₂, us₁, us₂, us₃, hgenerate, hbuild, hupdate, rfl⟩ := main_returns h
  unfold update at hupdate
  rw [if_pos hgen] at hupdate
  obtain ⟨_, w₃, vs₁, vs₂, hreadme, hlock, rfl⟩ := bind_returns.mp hupdate
  obtain ⟨err, w₄, ws₁, ws₂, hwritten, hignore, rfl⟩ := bind_returns.mp hlock
  obtain ⟨_, rfl, rfl⟩ := pure_returns.mp hignore
  obtain ⟨d, _, _, rfl, rfl⟩ := act_returns.mp hwritten
  have hnot₁ : ∀ e ∈ us₁, NotLockWrite e :=
    ((along_generate (acts_composes NotLockWrite) (fun _ _ hq => plain_notLockWrite hq)
      fun _ _ _ _ hq => wraps_notLockWrite hq).returns hgenerate).2
  have hnot₂ : ∀ e ∈ us₂, NotLockWrite e := by
    unfold build at hbuild
    split at hbuild
    · obtain ⟨err, t, xs, ys, hgo, hmust, rfl⟩ := bind_returns.mp hbuild
      obtain ⟨_, _, rfl⟩ := must_returns.mp hmust
      cases hgo
      rintro e he data d rfl
      cases List.mem_singleton.mp he
    · obtain ⟨_, _, rfl⟩ := pure_returns.mp hbuild
      simp
  have hnot₃ : ∀ e ∈ vs₁, NotLockWrite e :=
    ((plain_notLockWrite (plain_writeReadme v)).returns hreadme).2
  have hd : d = none := by
    rcases List.mem_append.mp hwrite with hmem | hmem
    · exact absurd rfl (hnot₁ _ hmem _ _)
    rcases List.mem_append.mp hmem with hmem | hmem
    · exact absurd rfl (hnot₂ _ hmem _ _)
    rcases List.mem_append.mp hmem with hmem | hmem
    · exact absurd rfl (hnot₃ _ hmem _ _)
    · rcases List.mem_append.mp hmem with hmem | hmem
      · have heq := List.mem_singleton.mp hmem
        cases d with
        | none => rfl
        | some d => cases heq
      · cases hmem
  rw [hd]
  exact (get_put _ _ _ _).trans (if_pos rfl)

/-! ### What is checked out with a lock -/

/-- The lock that the function of a library is given in a run that begins with the lock. -/
def Options.lockOf (o : Options) (lock : LockJson) (lib : Library) : Option LockJson :=
  o.lockFor (some lock) (if o.genLock then none else some lock) lib

theorem Options.lockOf_later {o : Options} (hgen : o.genLock = false) (lock : LockJson) (lib : Library) :
    o.lockOf lock lib = some lock := by
  unfold Options.lockOf Options.lockFor
  simp [hgen]

theorem Options.lockOf_tor (o : Options) (lock : LockJson) : o.lockOf lock .tor = some lock := by
  unfold Options.lockOf Options.lockFor
  cases o.genLock <;> rfl

/-- A checkout is of what the lock says, where the library has one. -/
def ChecksOut (lockOf : Library → Option LockJson) (e : Event) : Prop :=
  ∀ lib x out ok fs, e = .ran (checkoutCommand linux lib x) out ok fs →
    ∀ l, lockOf lib = some l → x = lib.commit l

theorem plain_no_command {A : Type} {q : Gen σ A} (h : Plain m q) {w : World σ} {c : Command}
    {out : Str} {ok : Bool} {fs : Store} : Event.ran c out ok fs ∉ (q.run w).trace :=
  fun hmem => (h.along w).2 _ hmem

theorem generate_checksOut {w : World σ} {lock : LockJson} {blob : Str}
    (hblob : get w.files lockPath = some blob) (hdecode : pk.decode blob = some lock) :
    ∀ e ∈ ((generate m pk o).run w).trace, ChecksOut (o.lockOf lock) e := by
  rintro e he lib x out ok fs rfl
  rcases mem_trace_bind he with hmem | ⟨r, w₁, _, hread, hmem⟩
  · exact absurd hmem (plain_no_command plain_readLock)
  obtain ⟨lock', rfl, hlock'⟩ := readLock_returns hread hblob
  obtain rfl := Option.some.inj (hlock'.symm.trans hdecode)
  rcases mem_trace_bind hmem with hmem | ⟨r, w₂, _, hchoose, hmem⟩
  · exact absurd hmem (plain_no_command (m := m) (plain_chooseLock _))
  have hr : r = if o.genLock then none else some lock' := by
    have hchosen := chooseLock_returns hchoose
    split at hchosen
    next hgen => rw [hchosen, if_pos hgen]
    next hgen => rw [hchosen.1, if_neg hgen]
  subst hr
  rcases mem_trace_bind hmem with hmem | ⟨tgt, w₃, _, htgt, hmem⟩
  · exact absurd hmem (plain_no_command (m := m) plain_chooseTarget)
  obtain ⟨rfl, _⟩ := chooseTarget_returns htgt
  rcases mem_trace_bind hmem with hmem | ⟨_, w₄, _, _, hmem⟩
  · exact absurd hmem (plain_no_command plain_prepare)
  rcases mem_trace_bind hmem with hmem | ⟨v, w₅, _, _, hmem⟩
  · have hall : Along (Acts (ChecksOut (o.lockOf lock'))) (wrapAll m pk o linux (some lock')
        (if o.genLock then none else some lock')) := by
      refine along_wrapAll (acts_composes _) ?_
      intro l T q hq s
      obtain ⟨hfiles, hevents⟩ := Uses.along hq s
      refine ⟨hfiles, ?_⟩
      rintro e he l' y out' ok' fs' rfl
      obtain ⟨_, hcommand⟩ := hevents _ he
      obtain ⟨rfl, hcommit⟩ := hcommand l' y rfl
      exact hcommit
    exact (hall w₄).2 _ hmem lib x out ok fs rfl
  rcases mem_trace_bind hmem with hmem | ⟨_, w₆, _, _, hmem⟩
  · exact absurd hmem (plain_no_command plain_copyEntrypoints)
  · cases hmem

theorem main_checksOut {w : World σ} {lock : LockJson} {blob : Str}
    (hblob : get w.files lockPath = some blob) (hdecode : pk.decode blob = some lock) :
    ∀ e ∈ ((main m pk o).run w).trace, ChecksOut (o.lockOf lock) e := by
  rintro e he lib x out ok fs rfl
  rcases mem_trace_bind he with hmem | ⟨v, w₁, _, _, hmem⟩
  · exact generate_checksOut hblob hdecode _ hmem lib x out ok fs rfl
  rcases mem_trace_bind hmem with hmem | ⟨_, w₂, _, _, hmem⟩
  · unfold build at hmem
    split at hmem
    · rcases mem_trace_bind hmem with hmem | ⟨err, w₃, _, _, hmem⟩
      · cases List.mem_singleton.mp hmem
      · cases err <;> cases hmem
    · cases hmem
  rcases mem_trace_bind hmem with hmem | ⟨_, w₃, _, _, hmem⟩
  · unfold update at hmem
    split at hmem
    · rcases mem_trace_bind hmem with hmem | ⟨_, w₄, _, _, hmem⟩
      · exact absurd hmem (plain_no_command (plain_writeReadme v))
      · rcases mem_trace_bind hmem with hmem | ⟨_, w₅, _, _, hmem⟩
        · cases List.mem_singleton.mp hmem
        · cases hmem
    · cases hmem
  · cases hmem

end

/-- The lock pins the build. An update whose write of the lock succeeds records the four commits it
built from; a later run without an update checks out these, and its functions return them. An
update keeps Tor at the commit of the lock before it, and a run that fails leaves the lock alone. -/
theorem lock_pins {σ τ : Type} {m : Machine σ} {m' : Machine τ} {pk : Packages}
    {commits commits' : Library → Str → Prop} (hjson : ∀ lock, pk.decode (pk.marshal lock) = some lock)
    (hgit : Git m commits) (hgit' : Git m' commits')
    (hlater : ∀ lib h, commits lib h → commits' lib h) :
    (∀ o w v w₁ vs, o.genLock = true → Returns (main m pk o) w v w₁ vs →
      Event.did (.writeFile lockPath (pk.marshal v.lock)) none ∈ vs →
      (∀ lib : Library, ∃ fs, Event.ran (revParseCommand linux lib) (lib.commit v.lock ++ "\n".toList) true fs ∈ vs) ∧
      ∀ o' (w₂ : World τ), o'.genLock = false → get w₂.files lockPath = get w₁.files lockPath →
        (∀ (lib : Library) x out ok fs, Event.ran (checkoutCommand linux lib x) out ok fs ∈
          ((main m' pk o').run w₂).trace → x = lib.commit v.lock) ∧
        (∀ (lib : Library) s a t us, Returns (lib.wrap m' pk o' linux (some v.lock)) s a t us →
          a.2 = lib.commit v.lock) ∧
        ∀ v' w₃ vs', Returns (main m' pk o') w₂ v' w₃ vs' → v'.lock = v.lock) ∧
    (∀ o w blob lock, o.genLock = true → get w.files lockPath = some blob → pk.decode blob = some lock →
      (∀ x out ok fs, Event.ran (checkoutCommand linux .tor x) out ok fs ∈
        ((main m pk o).run w).trace → x = lock.tor) ∧
      ∀ v w₁ vs, commits .tor lock.tor → Returns (main m pk o) w v w₁ vs → v.lock.tor = lock.tor) ∧
    ∀ o w e w₁ vs, (main m pk o).run w = ⟨.error e, w₁, vs⟩ →
      get w₁.files lockPath = get w.files lockPath := by
  refine ⟨?_, ?_, fun o w e w₁ vs h => failed_keeps_lock h⟩
  · intro o w v w₁ vs hgen hmain hwrite
    obtain ⟨_, _, _, _, _, _, hlibs, _⟩ := main_returns hmain
    have hcommits : ∀ lib : Library, commits lib (lib.commit v.lock) ∧ ∃ fs,
        Event.ran (revParseCommand linux lib) (lib.commit v.lock ++ "\n".toList) true fs ∈ vs := by
      intro lib
      obtain ⟨s, t, us, hlib, hsub⟩ := hlibs lib
      obtain ⟨hcommit, fs, hmem⟩ := hgit.wrap_commit hlib
      rw [v.of_lock lib]
      exact ⟨hcommit, fs, hsub hmem⟩
    refine ⟨fun lib => (hcommits lib).2, ?_⟩
    intro o' w₂ hgen' hlock
    have hblob : get w₂.files lockPath = some (pk.marshal v.lock) :=
      hlock.trans (update_writes_lock hgen hmain hwrite)
    have hwrap : ∀ (lib : Library) s a t us, Returns (lib.wrap m' pk o' linux (some v.lock)) s a t us →
        a.2 = lib.commit v.lock := by
      intro lib s a t us h
      exact hgit'.wrap_locked (hlater lib _ (hcommits lib).1) h
    refine ⟨?_, hwrap, ?_⟩
    · intro lib x out ok fs hmem
      exact main_checksOut hblob (hjson v.lock) _ hmem lib x out ok fs rfl _
        (o'.lockOf_later hgen' v.lock lib)
    · intro v' w₃ vs' hmain'
      obtain ⟨currentLock, lock, _, _, hread, hchosen, hlibs', _⟩ := main_returns hmain'
      obtain ⟨l, rfl, hl⟩ := readLock_returns hread hblob
      obtain rfl := Option.some.inj (hl.symm.trans (hjson v.lock))
      have hnot : ¬ o'.genLock = true := by simp [hgen']
      rw [if_neg hnot] at hchosen
      obtain ⟨rfl, _⟩ := hchosen
      have hsame : ∀ lib : Library, lib.commit v'.lock = lib.commit v.lock := by
        intro lib
        obtain ⟨s, t, us, hlib, _⟩ := hlibs' lib
        have hlockFor : o'.lockFor (some v.lock) (some v.lock) lib = some v.lock := by
          unfold Options.lockFor
          split <;> rfl
        rw [hlockFor] at hlib
        rw [v'.of_lock lib]
        exact hwrap lib s _ t us hlib
      have hz := hsame .zlib
      have he := hsame .libevent
      have ho := hsame .openssl
      have ht := hsame .tor
      simp only [Library.commit] at hz he ho ht
      rcases h' : v'.lock with ⟨a, b, c, d⟩
      rcases h : v.lock with ⟨a', b', c', d'⟩
      rw [h', h] at hz he ho ht
      simp_all
  · intro o w blob lock hgen hblob hdecode
    refine ⟨?_, ?_⟩
    · intro x out ok fs hmem
      exact main_checksOut hblob hdecode _ hmem .tor x out ok fs rfl _ (o.lockOf_tor lock)
    · intro v w₁ vs htor hmain
      obtain ⟨currentLock, chosen, _, _, hread, _, hlibs, _⟩ := main_returns hmain
      obtain ⟨l, rfl, hl⟩ := readLock_returns hread hblob
      obtain rfl := Option.some.inj (hl.symm.trans hdecode)
      obtain ⟨s, t, us, hlib, _⟩ := hlibs .tor
      have hlockFor : o.lockFor (some l) chosen .tor = some l := if_pos ⟨rfl, hgen⟩
      rw [hlockFor] at hlib
      exact hgit.wrap_locked htor hlib

/-- The small example with tags that are added upstream later. -/
def smallLater (lib : Library) : Upstream :=
  { small lib with tag := (small lib).tag ++ "v1.4\nrelease-2.3.0-stable\nopenssl-3.7.0\n".toList }

def smallVersions : Versions :=
  { zlib := ("1.3".toList, (small .zlib).commit), libevent := ("2.2.1".toList, (small .libevent).commit),
    openssl := ("3.6.3".toList, (small .openssl).commit), tor := ("0.4.6".toList, (small .tor).commit) }

def lockWritten (lock : LockJson) : Event → Bool
  | .did (.writeFile p data) none => decide (p = lockPath ∧ data = plain.marshal lock)
  | _ => false

/-- The update of the small example, as it is run from an empty folder. -/
def smallUpdate : Outcome (World Unit) Event Stop Versions :=
  (main (upstreams small) plain (onLinux true)).run ⟨(), []⟩

theorem small_updates :
    Returns (main (upstreams small) plain (onLinux true)) ⟨(), []⟩ smallVersions smallUpdate.state
      smallUpdate.trace ∧
    Event.did (.writeFile lockPath (plain.marshal smallVersions.lock)) none ∈ smallUpdate.trace := by
  have hresult : smallUpdate.result = .ok smallVersions ∧
      smallUpdate.trace.any (lockWritten smallVersions.lock) = true := by
    decide +kernel
  obtain ⟨e, he, hlock⟩ := List.any_eq_true.mp hresult.2
  refine ⟨returns_of_result hresult.1, ?_⟩
  unfold lockWritten at hlock
  split at hlock
  next p data =>
    obtain ⟨rfl, rfl⟩ := of_decide_eq_true hlock
    exact he
  next => cases hlock

/-- An update of the small example pins the run without one after tags were added. -/
theorem lock_pins_small : ∃ v' w' vs',
    Returns (main (upstreams smallLater) plain (onLinux false)) ⟨(), smallUpdate.state.files⟩ v' w' vs' ∧
    v'.lock = smallVersions.lock := by
  have hfull : ∀ lib, FullHash (small lib).commit := by
    intro lib
    cases lib <;> decide
  have hlater : ∃ v', ((main (upstreams smallLater) plain (onLinux false)).run
      ⟨(), smallUpdate.state.files⟩).result = .ok v' := by
    refine ⟨smallVersions, ?_⟩
    decide +kernel
  obtain ⟨v', hv'⟩ := hlater
  have hgit : Git (upstreams smallLater) fun lib h => h = (small lib).commit := git_upstreams hfull
  have hpins := lock_pins plain_json (git_upstreams hfull) hgit (fun lib h hh => hh)
  have hsame : ∀ fs : Store, get (World.mk () fs).files lockPath = get fs lockPath := fun _ => rfl
  obtain ⟨hmain, hwrite⟩ := small_updates
  obtain ⟨_, hrest⟩ := hpins.1 (onLinux true) _ _ _ _ rfl hmain hwrite
  obtain ⟨_, _, hlock⟩ := hrest (onLinux false) _ rfl (hsame _)
  exact ⟨v', _, _, returns_of_result hv', hlock _ _ _ (returns_of_result hv')⟩

end GoLibtor
