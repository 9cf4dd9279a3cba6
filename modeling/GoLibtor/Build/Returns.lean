import GoLibtor.Build.Frame

/-! What is known of a part of the generator that returns. -/
namespace GoLibtor

open Text Files Transition Program

section

variable {σ A : Type} {m : Machine σ} {pk : Packages} {o : Options}

/-! ### Operations and commands -/

theorem act_returns {op : Op} {answer : op.Seen → Option Damage → A} {w w' : World σ} {a : A}
    {vs : List Event} :
    Returns (act m op answer) w a w' vs ↔ ∃ d, d = (attempt m w op).1 ∧ a = answer (op.see w.files) d ∧
      w' = ⟨(attempt m w op).2, op.effect w.files d⟩ ∧ vs = [op.event w.files d] := by
  unfold Returns act
  simp [eq_comm]

theorem check_returns {err : Option Err} {w w' : World σ} {u : Unit} {vs : List Event} :
    Returns (check err) w u w' vs ↔ err = none ∧ w' = w ∧ vs = [] := by
  cases err with
  | none =>
    rw [show (check none : Gen σ Unit) = pure () from rfl, pure_returns]
    simp
  | some e =>
    rw [show (check (some e) : Gen σ Unit) = fail (.returned e) from rfl]
    simp [not_fail_returns]

theorem must_returns {err : Option Err} {w w' : World σ} {u : Unit} {vs : List Event} :
    Returns (must err) w u w' vs ↔ err = none ∧ w' = w ∧ vs = [] := by
  cases err with
  | none =>
    rw [show (must none : Gen σ Unit) = pure () from rfl, pure_returns]
    simp
  | some e =>
    rw [show (must (some e) : Gen σ Unit) = fail (.panic e) from rfl]
    simp [not_fail_returns]

/-- The answer of the machine to a command. -/
def reply (m : Machine σ) (w : World σ) (c : Command) : Reply σ :=
  m.exec w.machine (part c.reaches w.files) c

def after (m : Machine σ) (w : World σ) (c : Command) : World σ :=
  ⟨(reply m w c).state, graft c.reaches w.files (reply m w c).files⟩

/-- The top folder a command is started in is as the command left it. -/
theorem within_after (m : Machine σ) (w : World σ) (c : Command) :
    within c.dir.head? (after m w c).files = within c.dir.head? (reply m w c).files :=
  within_graft (fun _ hp => reaches_top hp) _ _

theorem output_returns {c : Command} {w w' : World σ} {out : Str} {vs : List Event} :
    Returns (output m c) w out w' vs ↔ (reply m w c).ok = true ∧ out = (reply m w c).out ∧
      w' = after m w c ∧ vs = [.ran c (reply m w c).out true (reply m w c).files] := by
  unfold output
  rw [bind_returns]
  constructor
  · intro ⟨r, t, us, us', hrun, hrest, hvs⟩
    obtain ⟨_, t', ws, ws', hcheck, hpure, rfl⟩ := bind_returns.mp hrest
    obtain ⟨herr, rfl, rfl⟩ := check_returns.mp hcheck
    obtain ⟨hout, rfl, rfl⟩ := pure_returns.mp hpure
    cases hrun
    cases hok : (reply m w c).ok with
    | false =>
      change (if (reply m w c).ok = true then none else some (Err.command c)) = none at herr
      rw [hok] at herr
      cases herr
    | true =>
      refine ⟨rfl, hout, rfl, ?_⟩
      change vs = [Event.ran c (reply m w c).out (reply m w c).ok (reply m w c).files] ++ ([] ++ []) at hvs
      rw [hvs, hok]
      rfl
  · intro ⟨hok, hout, hw, hvs⟩
    refine ⟨((reply m w c).out, none), after m w c, vs, [], ?_, ?_, by simp⟩
    · change (⟨.ok ((reply m w c).out, if (reply m w c).ok then none else some (.command c)),
        after m w c, [.ran c (reply m w c).out (reply m w c).ok (reply m w c).files]⟩ :
          Outcome (World σ) Event Stop (Str × Option Err)) = _
      rw [hok, hvs]
      rfl
    · exact bind_returns.mpr ⟨(), after m w c, [], [], check_returns.mpr ⟨rfl, rfl, rfl⟩,
        pure_returns.mpr ⟨hout, hw, rfl⟩, rfl⟩

theorem run_returns {c : Command} {w w' : World σ} {u : Unit} {vs : List Event} :
    Returns (run m c) w u w' vs ↔ (reply m w c).ok = true ∧ w' = after m w c ∧
      vs = [.ran c (reply m w c).out true (reply m w c).files] := by
  have hout : Returns (run m c) w u w' vs ↔ ∃ out, Returns (output m c) w out w' vs := by
    unfold run output
    constructor
    · intro h
      obtain ⟨r, t, us, us', hrun, hcheck, rfl⟩ := bind_returns.mp h
      exact ⟨r.1, bind_returns.mpr ⟨r, t, us, us', hrun,
        bind_returns.mpr ⟨u, w', us', [], hcheck, pure_returns.mpr ⟨rfl, rfl, rfl⟩, by simp⟩, rfl⟩⟩
    · intro ⟨out, h⟩
      obtain ⟨r, t, us, us', hrun, hrest, rfl⟩ := bind_returns.mp h
      obtain ⟨u', t', ws, ws', hcheck, hpure, rfl⟩ := bind_returns.mp hrest
      obtain ⟨_, rfl, rfl⟩ := pure_returns.mp hpure
      exact bind_returns.mpr ⟨r, t, us, ws, hrun, hcheck, by simp⟩
  rw [hout]
  constructor
  · intro ⟨out, h⟩
    obtain ⟨hok, _, hw, hvs⟩ := output_returns.mp h
    exact ⟨hok, hw, hvs⟩
  · intro ⟨hok, hw, hvs⟩
    exact ⟨_, output_returns.mpr ⟨hok, rfl, hw, hvs⟩⟩

/-! ### The functions of the libraries -/

/-- The function of a library. -/
def Library.wrap (m : Machine σ) (pk : Packages) (o : Options) (tgt : Str) (lock : Option LockJson) :
    Library → Gen σ (Str × Str)
  | .zlib => wrapZlib m o tgt lock
  | .libevent => wrapLibevent m pk o tgt lock
  | .openssl => wrapOpenSSL m pk o tgt lock
  | .tor => wrapTor m pk tgt lock

theorem wraps_wrap (lib : Library) (lock : Option LockJson) :
    Wraps m lib lock (lib.wrap m pk o linux lock) := by
  cases lib with
  | zlib => exact wraps_wrapZlib
  | libevent => exact wraps_wrapLibevent
  | openssl => exact wraps_wrapOpenSSL
  | tor => exact wraps_wrapTor

/-- The commit is the one `rev-parse` prints after the checkout. -/
theorem checkoutCommit_returns {lib : Library} {url : String} {choose : Gen σ Str} {w w' : World σ}
    {commit : Str} {vs : List Event}
    (h : Returns (checkoutCommit m linux lib url choose) w commit w' vs) :
    ∃ s x t us r, Returns choose s x t us ∧ (reply m t (checkoutCommand linux lib x)).ok = true ∧
      r = reply m (after m t (checkoutCommand linux lib x)) (revParseCommand linux lib) ∧
      r.ok = true ∧ commit = trimSpace r.out ∧
      Event.ran (revParseCommand linux lib) r.out true r.files ∈ vs := by
  obtain ⟨_, w₁, _, us₁, _, h₁, rfl⟩ := bind_returns.mp h
  obtain ⟨x, w₂, us, us₂, hchoose, h₂, rfl⟩ := bind_returns.mp h₁
  obtain ⟨_, w₃, _, us₃, hrun, h₃, rfl⟩ := bind_returns.mp h₂
  obtain ⟨out, w₄, us₄, us₅, hout, hpure, rfl⟩ := bind_returns.mp h₃
  obtain ⟨hok, rfl, _⟩ := run_returns.mp hrun
  obtain ⟨hok', rfl, rfl, rfl⟩ := output_returns.mp hout
  obtain ⟨rfl, _, _⟩ := pure_returns.mp hpure
  refine ⟨w₁, x, w₂, us, _, hchoose, hok, rfl, hok', rfl, ?_⟩
  refine List.mem_append_right _ (List.mem_append_right _ (List.mem_append_right _ ?_))
  exact List.mem_append_left _ (List.mem_singleton.mpr rfl)

/-- Each of the four functions begins with the checkout and returns its commit. -/
theorem wrap_checkout {lib : Library} {lock : Option LockJson} {w w' : World σ} {a : Str × Str}
    {vs : List Event} (h : Returns (lib.wrap m pk o linux lock) w a w' vs) :
    ∃ url latest t us, Returns (checkoutCommit m linux lib url (match lock with
      | some lock => pure (lib.commit lock)
      | none => latest)) w a.2 t us ∧ us ⊆ vs := by
  have hsub : ∀ xs ys zs : List Event, xs ⊆ (xs ++ ys) ++ zs := by
    intro xs ys zs x hx
    exact List.mem_append_left zs (List.mem_append_left ys hx)
  cases lib with
  | zlib =>
    obtain ⟨⟨strver, commit⟩, w₁, us, us', hcheckout, hrest, rfl⟩ := bind_returns.mp h
    obtain ⟨c, w₂, vs, vs', hcommit, hversion, rfl⟩ := bind_returns.mp hcheckout
    have hc : commit = c := Answers.returns (P := fun r => r.2 = c)
      (answers_bind fun _ => answers_bind fun _ => answers_pure rfl) hversion
    have ha : a.2 = commit := Answers.returns (P := fun r => r.2 = commit)
      (answers_bind fun _ => answers_bind fun _ => answers_bind fun _ => answers_pure rfl) hrest
    exact ⟨_, _, w₂, vs, (ha.trans hc) ▸ hcommit, hsub vs vs' us'⟩
  | libevent =>
    obtain ⟨⟨commit, numver, strver, deps⟩, w₁, us, us', hconfigure, hrest, rfl⟩ := bind_returns.mp h
    obtain ⟨c, w₂, vs, vs', hcommit, htail, rfl⟩ := bind_returns.mp hconfigure
    have hc : commit = c := Answers.returns (P := fun r => r.1 = c)
      (answers_bind fun _ => answers_bind fun _ => answers_bind fun _ => answers_bind fun _ =>
        answers_bind fun _ => answers_bind fun _ => answers_bind fun _ => answers_bind fun _ =>
        answers_pure rfl) htail
    have ha : a.2 = commit := Answers.returns (P := fun r => r.2 = commit)
      (answers_bind fun _ => answers_bind fun _ => answers_bind fun _ => answers_bind fun _ =>
        answers_pure rfl) hrest
    exact ⟨_, _, w₂, vs, (ha.trans hc) ▸ hcommit, hsub vs vs' us'⟩
  | openssl =>
    obtain ⟨⟨commit, date, versionData, deps⟩, w₁, us, us', hconfigure, hrest, rfl⟩ := bind_returns.mp h
    obtain ⟨c, w₂, vs, vs', hcommit, htail, rfl⟩ := bind_returns.mp hconfigure
    have hc : commit = c := Answers.returns (P := fun r => r.1 = c)
      (answers_bind fun _ => answers_bind fun _ => answers_bind fun _ => answers_bind fun _ =>
        answers_bind fun _ => answers_bind fun _ => answers_bind fun _ => answers_pure rfl) htail
    have ha : a.2 = commit := Answers.returns (P := fun r => r.2 = commit)
      (answers_bind fun _ => answers_bind fun _ => answers_bind fun _ => answers_bind fun _ =>
        answers_pure rfl) hrest
    exact ⟨_, _, w₂, vs, (ha.trans hc) ▸ hcommit, hsub vs vs' us'⟩
  | tor =>
    obtain ⟨⟨commit, strver, hasModulePow, deps⟩, w₁, us, us', hconfigure, hrest, rfl⟩ := bind_returns.mp h
    obtain ⟨c, w₂, vs, vs', hcommit, htail, rfl⟩ := bind_returns.mp hconfigure
    have hc : commit = c := Answers.returns (P := fun r => r.1 = c)
      (answers_bind fun _ => answers_bind fun _ => answers_bind fun _ => answers_bind fun _ =>
        answers_bind fun _ => answers_bind fun _ => answers_bind fun _ => answers_pure rfl) htail
    have ha : a.2 = commit := Answers.returns (P := fun r => r.2 = commit)
      (answers_bind fun _ => answers_bind fun _ => answers_bind fun _ => answers_bind fun _ =>
        answers_pure rfl) hrest
    exact ⟨_, _, w₂, vs, (ha.trans hc) ▸ hcommit, hsub vs vs' us'⟩

/-! ### What a run of `main` is made of -/

/-- The lock that is read is the one that is there. -/
theorem readLock_returns {w w' : World σ} {r : Option LockJson} {vs : List Event} {blob : Str}
    (h : Returns (readLock m pk) w r w' vs) (hblob : get w.files lockPath = some blob) :
    ∃ lock, r = some lock ∧ pk.decode blob = some lock := by
  obtain ⟨result, w₁, us, us', hopen, hrest, rfl⟩ := bind_returns.mp h
  obtain ⟨d, _, rfl, rfl, _⟩ := act_returns.mp hopen
  cases d with
  | some d => exact absurd hrest not_fail_returns
  | none =>
    simp only [Op.see, hblob, reduceCtorEq, if_false] at hrest
    obtain ⟨⟨data, err⟩, w₂, vs, vs', hread, hdecode, rfl⟩ := bind_returns.mp hrest
    obtain ⟨d', -, hanswer, -, -⟩ := act_returns.mp hread
    obtain ⟨_, w₃, ws, ws', hmust, hlast, rfl⟩ := bind_returns.mp hdecode
    obtain ⟨rfl, -, -⟩ := must_returns.mp hmust
    obtain ⟨hdata, herr⟩ := Prod.mk.inj hanswer
    cases d' with
    | some d' => cases herr
    | none =>
      have hsame : data = blob := by
        rw [hdata]
        change readData (get w.files lockPath) none = blob
        unfold readData
        rw [hblob]
        rfl
      subst hsame
      cases hlock : pk.decode data with
      | none =>
        simp only [hlock] at hlast
        exact absurd hlast not_fail_returns
      | some lock =>
        simp only [hlock] at hlast
        exact ⟨lock, (pure_returns.mp hlast).1, rfl⟩

def Versions.of (v : Versions) : Library → Str × Str
  | .zlib => v.zlib
  | .libevent => v.libevent
  | .openssl => v.openssl
  | .tor => v.tor

theorem Versions.of_lock (v : Versions) (lib : Library) : lib.commit v.lock = (v.of lib).2 := by
  cases lib <;> rfl

theorem wrapAll_returns {currentLock lock : Option LockJson} {w w' : World σ} {v : Versions}
    {vs : List Event} (h : Returns (wrapAll m pk o linux currentLock lock) w v w' vs) :
    ∃ w₁ w₂ w₃ us₁ us₂ us₃ us₄,
      Returns (Library.zlib.wrap m pk o linux (o.lockFor currentLock lock .zlib)) w v.zlib w₁ us₁ ∧
      Returns (Library.libevent.wrap m pk o linux (o.lockFor currentLock lock .libevent)) w₁ v.libevent
        w₂ us₂ ∧
      Returns (Library.openssl.wrap m pk o linux (o.lockFor currentLock lock .openssl)) w₂ v.openssl
        w₃ us₃ ∧
      Returns (Library.tor.wrap m pk o linux (o.lockFor currentLock lock .tor)) w₃ v.tor w' us₄ ∧
      vs = us₁ ++ (us₂ ++ (us₃ ++ us₄)) := by
  have htor : o.lockFor currentLock lock .tor = if o.genLock then currentLock else lock := by
    unfold Options.lockFor
    simp
  obtain ⟨a, w₁, us₁, vs₁, h₁, k₁, rfl⟩ := bind_returns.mp h
  obtain ⟨b, w₂, us₂, vs₂, h₂, k₂, rfl⟩ := bind_returns.mp k₁
  obtain ⟨c, w₃, us₃, vs₃, h₃, k₃, rfl⟩ := bind_returns.mp k₂
  obtain ⟨d, w₄, us₄, vs₄, h₄, k₄, rfl⟩ := bind_returns.mp k₃
  obtain ⟨rfl, rfl, rfl⟩ := pure_returns.mp k₄
  rw [htor]
  exact ⟨w₁, w₂, w₃, us₁, us₂, us₃, us₄, mapError_returns.mp h₁, mapError_returns.mp h₂,
    mapError_returns.mp h₃, mapError_returns.mp h₄, by simp⟩

theorem wrapAll_each {currentLock lock : Option LockJson} {w w' : World σ} {v : Versions}
    {vs : List Event} (h : Returns (wrapAll m pk o linux currentLock lock) w v w' vs) (lib : Library) :
    ∃ s t us, Returns (lib.wrap m pk o linux (o.lockFor currentLock lock lib)) s (v.of lib) t us ∧
      us ⊆ vs := by
  obtain ⟨w₁, w₂, w₃, us₁, us₂, us₃, us₄, h₁, h₂, h₃, h₄, rfl⟩ := wrapAll_returns h
  cases lib with
  | zlib => exact ⟨_, _, us₁, h₁, fun e he => by simp [he]⟩
  | libevent => exact ⟨_, _, us₂, h₂, fun e he => by simp [he]⟩
  | openssl => exact ⟨_, _, us₃, h₃, fun e he => by simp [he]⟩
  | tor => exact ⟨_, _, us₄, h₄, fun e he => by simp [he]⟩

/-- The lock to build from: that of the last update, unless this is an update. -/
theorem chooseLock_returns {currentLock lock : Option LockJson} {w w' : World σ} {vs : List Event}
    (h : Returns (chooseLock o currentLock) w lock w' vs) :
    if o.genLock = true then lock = none else lock = currentLock ∧ lock ≠ none := by
  unfold chooseLock at h
  cases hgen : o.genLock with
  | true =>
    simp only [hgen, Bool.not_true, Bool.false_eq_true, if_false] at h
    simpa using (pure_returns.mp h).1
  | false =>
    simp only [hgen, Bool.not_false, if_true] at h
    cases currentLock with
    | none => exact absurd h not_fail_returns
    | some l =>
      obtain ⟨rfl, _⟩ := pure_returns.mp h
      simp

theorem chooseLock_quiet {currentLock lock : Option LockJson} {w w' : World σ} {vs : List Event}
    (h : Returns (chooseLock o currentLock) w lock w' vs) : w' = w ∧ vs = [] := by
  unfold chooseLock at h
  split at h
  · cases currentLock with
    | none => exact absurd h not_fail_returns
    | some l => exact (pure_returns.mp h).2
  · exact (pure_returns.mp h).2

/-- The parts of a run up to the end of the libraries that completes. -/
theorem generate_returns {w w' : World σ} {v : Versions} {vs : List Event}
    (h : Returns (generate m pk o) w v w' vs) :
    ∃ currentLock lock w₁ w₂ w₃ us₁ us₂ us₃ us₄, Returns (readLock m pk) w currentLock w₁ us₁ ∧
      (if o.genLock = true then lock = none else lock = currentLock ∧ lock ≠ none) ∧
      Returns (prepare m o linux) w₁ () w₂ us₂ ∧
      Returns (wrapAll m pk o linux currentLock lock) w₂ v w₃ us₃ ∧
      Returns (copyEntrypoints m) w₃ () w' us₄ ∧ vs = us₁ ++ (us₂ ++ (us₃ ++ us₄)) := by
  obtain ⟨currentLock, w₁, us₁, _, hread, h₁, rfl⟩ := bind_returns.mp h
  obtain ⟨lock, _, _, _, hchoose, h₂, rfl⟩ := bind_returns.mp h₁
  have hchosen := chooseLock_returns hchoose
  obtain ⟨rfl, rfl⟩ := chooseLock_quiet hchoose
  obtain ⟨tgt, _, _, _, htarget, h₃, rfl⟩ := bind_returns.mp h₂
  obtain ⟨rfl, rfl, rfl⟩ := chooseTarget_returns htarget
  obtain ⟨_, w₂, us₂, _, hprepare, h₄, rfl⟩ := bind_returns.mp h₃
  obtain ⟨_, w₃, us₃, _, hwrap, h₅, rfl⟩ := bind_returns.mp h₄
  obtain ⟨_, _, us₄, _, hcopy, hpure, rfl⟩ := bind_returns.mp h₅
  obtain ⟨rfl, rfl, rfl⟩ := pure_returns.mp hpure
  exact ⟨currentLock, lock, _, w₂, w₃, us₁, us₂, us₃, us₄, hread, hchosen, hprepare, hwrap, hcopy,
    by simp⟩

/-- A run of `main` that completes: the lock it read, the function of each library with the lock it
was given, and the update at the end. -/
theorem main_returns {w w' : World σ} {v : Versions} {vs : List Event}
    (h : Returns (main m pk o) w v w' vs) :
    ∃ currentLock lock w₀ us₀, Returns (readLock m pk) w currentLock w₀ us₀ ∧
      (if o.genLock = true then lock = none else lock = currentLock ∧ lock ≠ none) ∧
      (∀ lib, ∃ s t us, Returns (lib.wrap m pk o linux (o.lockFor currentLock lock lib)) s (v.of lib) t us ∧
        us ⊆ vs) ∧
      ∃ w₁ w₂ us₁ us₂ us₃, Returns (generate m pk o) w v w₁ us₁ ∧
        Returns (build m o) w₁ () w₂ us₂ ∧ Returns (update m pk o v) w₂ () w' us₃ ∧
        vs = us₁ ++ (us₂ ++ us₃) := by
  obtain ⟨v', w₁, us₁, vs₁, hgen, h₁, rfl⟩ := bind_returns.mp h
  obtain ⟨_, w₂, us₂, vs₂, hbuild, h₂, rfl⟩ := bind_returns.mp h₁
  obtain ⟨_, w₃, us₃, vs₃, hupdate, h₃, rfl⟩ := bind_returns.mp h₂
  obtain ⟨rfl, rfl, rfl⟩ := pure_returns.mp h₃
  obtain ⟨currentLock, lock, t₁, t₂, t₃, xs₁, xs₂, xs₃, xs₄, hread, hchosen, -, hwrap, -, hparts⟩ :=
    generate_returns hgen
  refine ⟨currentLock, lock, t₁, xs₁, hread, hchosen, ?_,
    w₁, w₂, us₁, us₂, us₃, hgen, hbuild, hupdate, by simp⟩
  intro lib
  obtain ⟨s, t, us, hlib, hsub⟩ := wrapAll_each hwrap lib
  refine ⟨s, t, us, hlib, fun e he => ?_⟩
  have hmem : e ∈ xs₃ := hsub he
  simp [hparts, hmem]

end

end GoLibtor
