import GoLibtor.Build.Upstream

/-! What a run of the generator may change, whether it completes or not, and where it stops
when a command fails. -/
namespace GoLibtor

open Text Files Transition Program

section

variable {σ A B : Type} (m : Machine σ) (area : Path → Prop)

/-- Programs that change files in an area only, that keep commands to the target folder, and
that look at the error of every command. -/
inductive Confined : ∀ {T : Type}, Gen σ T → Prop
  | act {T : Type} (op : Op) (answer : op.Seen → Option Damage → T)
      (h : ∀ p, op.changes = some p → area p) : Confined (act m op answer)
  | run (c : Command) (h : InTarget c) : Confined (run m c)
  | output (c : Command) (h : InTarget c) : Confined (output m c)
  | goBuild : Confined (goBuild m >>= must)
  | pure {T : Type} (a : T) : Confined (Pure.pure a)
  | fail {T : Type} (stop : Stop) : Confined (Program.fail stop : Gen σ T)
  | bindOf {T U : Type} {p : Gen σ T} {f : T → Gen σ U} (hp : Confined p)
      (hf : ∀ s a t vs, p.Returns s a t vs → Confined (f a)) : Confined (p >>= f)
  | toPanic {T : Type} {p : Gen σ T} (hp : Confined p) : Confined (p.mapError Stop.toPanic)

variable {m area}

theorem Confined.bind {p : Gen σ A} {f : A → Gen σ B} (hp : Confined m area p)
    (hf : ∀ a, Confined m area (f a)) : Confined m area (p >>= f) :=
  .bindOf hp fun _ a _ _ _ => hf a

theorem Confined.forM {f : A → Gen σ PUnit} {as : List A} (hf : ∀ a, Confined m area (f a)) :
    Confined m area (as.forM f) := by
  induction as with
  | nil => exact .pure PUnit.unit
  | cons a as ih => exact .bind (hf a) fun _ => ih

theorem Confined.foldlM {f : B → A → Gen σ B} (hf : ∀ b a, Confined m area (f b a)) (as : List A)
    (b : B) : Confined m area (as.foldlM f b) := by
  induction as generalizing b with
  | nil => exact .pure b
  | cons a as ih => exact .bind (hf b a) fun b' => ih b'

theorem confined_look {op : Op} (answer : op.Seen → Option Damage → A) (hc : op.changes = none) :
    Confined m area (act m op answer) := by
  refine .act op answer ?_
  intro p hp
  rw [hc] at hp
  cases hp

theorem confined_change {op : Op} {p : Path} (answer : op.Seen → Option Damage → A)
    (hc : op.changes = some p) (hp : area p) : Confined m area (act m op answer) := by
  refine .act op answer ?_
  intro q hq
  obtain rfl := Option.some.inj (hc.symm.trans hq)
  exact hp

theorem confined_run {c : Command} (hdir : c.dir.head? = some linux) (hdest : c.dest = none) :
    Confined m area (run m c) := .run c (inTarget_started hdir hdest)

theorem confined_output {c : Command} (hdir : c.dir.head? = some linux) (hdest : c.dest = none) :
    Confined m area (output m c) := .output c (inTarget_started hdir hdest)

theorem confined_check (err : Option Err) : Confined m area (check err) := by
  cases err with
  | none => exact .pure ()
  | some e => exact .fail (Stop.returned e)

theorem confined_must (err : Option Err) : Confined m area (must err) := by
  cases err with
  | none => exact .pure ()
  | some e => exact .fail (Stop.panic e)

theorem confined_ignore (err : Option Err) : Confined m area (ignore err) := .pure ()

theorem confined_checked (r : Except Err A) : Confined m area (checked r) := by
  cases r with
  | ok a => exact .pure a
  | error e => exact .fail (Stop.returned e)

theorem confined_render {pk : Packages} {data : List (Str × Str)} (blob : Str) :
    Confined m area (render pk data blob) := by
  unfold render
  split
  · exact .fail _
  · split
    · exact .pure _
    · exact .fail _

theorem confined_inject {rendered : Str → Gen σ Str} {src dst : Path} {names : List Str}
    (hrendered : ∀ blob, Confined m area (rendered blob))
    (hdst : ∀ name ∈ names, area (dst ++ [name])) :
    Confined m area (inject m rendered src dst names) := by
  unfold inject
  induction names with
  | nil => exact .pure PUnit.unit
  | cons name names ih =>
    refine .bind ?_ fun _ => ih fun n hn => hdst n (List.mem_cons_of_mem _ hn)
    exact .bind (confined_look _ rfl) fun read => .bind (hrendered read.1) fun text =>
      .bind (confined_change _ rfl (hdst name List.mem_cons_self)) confined_ignore

/-! ### Outside the area -/

/-- What is read of the file `p` is what was there at the beginning, and still is. -/
def Serves {σ : Type} (p : Path) (w : World σ) (vs : List Event) (w' : World σ) : Prop :=
  get w'.files p = get w.files p ∧ ∀ data, Event.read p data true ∈ vs → get w.files p = some data

theorem serves_composes (p : Path) : Composes (Serves (σ := σ) p) where
  refl := fun _ => ⟨rfl, by simp⟩
  trans := by
    intro s t u vs ws ⟨hst, hvs⟩ ⟨htu, hws⟩
    refine ⟨htu.trans hst, ?_⟩
    intro data hdata
    rcases List.mem_append.mp hdata with hdata | hdata
    · exact hvs data hdata
    · rw [← hst]
      exact hws data hdata

/-- Operations and commands that leave the file alone. -/
theorem Uses.serves {okOp : Op → Prop} {okCommand : Command → Prop} {q : Gen σ A}
    (h : Uses m okOp okCommand q) {p : Path}
    (hop : ∀ op, okOp op → ∀ r, op.changes = some r → ¬ r <+: p)
    (hcommand : ∀ c, okCommand c → c.reaches p = false) : Along (Serves p) q := by
  refine Built.along (serves_composes p) ?_ h
  intro T r hr w
  have hkeep : Keeps p w (r.run w).trace (r.run w).state := (Uses.keeps (.step hr) hop hcommand) w
  refine ⟨hkeep, ?_⟩
  intro data hdata
  cases hr with
  | act op answer hok =>
    have hevent : Event.read p data true = op.event w.files (attempt m w op).1 :=
      List.mem_singleton.mp hdata
    cases op with
    | readFile r =>
      change Event.read p data true = .read r (readData (get w.files r) (attempt m w (.readFile r)).1)
        (attempt m w (.readFile r)).1.isNone at hevent
      injection hevent with hpath hread hok
      subst hpath
      have hnone : (attempt m w (.readFile p)).1 = none := Option.isNone_iff_eq_none.mp hok.symm
      have hthere : get w.files p ≠ none := by
        intro hmissing
        simp [attempt, hmissing] at hnone
      obtain ⟨content, hcontent⟩ := Option.ne_none_iff_exists'.mp hthere
      rw [hread, hnone, hcontent]
      rfl
    | _ => cases hevent
  | command c hok => cases List.mem_singleton.mp hdata

theorem Confined.serves {q : Gen σ A} (h : Confined m area q) {p : Path}
    (harea : ∀ r, area r → ¬ r <+: p) (hlinux : p.head? ≠ some linux) (hstaged : ¬ staged <+: p) :
    Along (Serves p) q := by
  have hstep : ∀ {T : Type} {r : Gen σ T}, Uses m (fun op => ∀ p, op.changes = some p → area p)
      InTarget r → Along (Serves p) r := fun hr =>
    hr.serves (fun op hop r hr => harea r (hop r hr)) fun c hc => hc.not_reaches hlinux hstaged
  induction h with
  | act op answer hop => exact hstep (uses_act answer hop)
  | run c hc => exact hstep (uses_run hc)
  | output c hc => exact hstep (uses_output hc)
  | goBuild =>
    have hbuild : Along (Serves p) (GoLibtor.goBuild m) := by
      intro w
      refine ⟨rfl, ?_⟩
      intro data hdata
      cases List.mem_singleton.mp hdata
    exact along_bind (serves_composes p) hbuild fun _ err _ _ _ => hstep (uses_must err)
  | pure a => exact along_pure (serves_composes p) a
  | fail stop => exact along_fail (serves_composes p) stop
  | bindOf _ _ ihp ihf => exact along_bind (serves_composes p) ihp ihf
  | toPanic _ ih => exact along_mapError ih

theorem Confined.keeps {q : Gen σ A} (h : Confined m area q) {p : Path}
    (harea : ∀ r, area r → ¬ r <+: p) (hlinux : p.head? ≠ some linux) (hstaged : ¬ staged <+: p) :
    Along (Keeps p) q :=
  fun w => (h.serves harea hlinux hstaged w).1

/-! ### After a failure -/

/-- The error of a command or of the build that failed. -/
def Event.failure : Event → Option Err
  | .ran c _ false _ => some (.command c)
  | .built false => some .goBuild
  | _ => none

/-- The error that ends a program, but for one that Go itself raises. -/
def Stop.err : Stop → Option Err
  | .returned e => some e
  | .panic e => some e
  | .indexOutOfRange => none

theorem Stop.err_toPanic (stop : Stop) : stop.toPanic.err = stop.err := by
  cases stop <;> rfl

/-- A failure is the last thing that the program does, and it ends with that error. -/
def Stops (p : Gen σ A) : Prop :=
  ∀ w pre e err post, (p.run w).trace = pre ++ e :: post → e.failure = some err →
    post = [] ∧ ∃ stop, (p.run w).result = .error stop ∧ stop.err = some err

theorem stops_of_nil {p : Gen σ A} (h : ∀ w, (p.run w).trace = []) : Stops p := by
  intro w pre e err post htrace
  rw [h w] at htrace
  simp at htrace

theorem stops_bind {p : Gen σ A} {f : A → Gen σ B} (hp : Stops p)
    (hf : ∀ s a t vs, p.Returns s a t vs → Stops (f a)) : Stops (p >>= f) := by
  intro w pre e err post htrace hfail
  rw [run_bind] at htrace ⊢
  rcases hrun : p.run w with ⟨stop | a, t, vs⟩
  · rw [hrun] at htrace
    have htrace' : (p.run w).trace = pre ++ e :: post := by rw [hrun]; exact htrace
    obtain ⟨hpost, stop', hresult, herr⟩ := hp w pre e err post htrace' hfail
    rw [hrun] at hresult
    cases hresult
    exact ⟨hpost, stop, rfl, herr⟩
  · rw [hrun] at htrace
    have hsplit : vs ++ ((f a).run t).trace = pre ++ e :: post := htrace
    rcases List.append_eq_append_iff.mp hsplit with ⟨us, hpre, hrest⟩ | ⟨us, hvs, hrest⟩
    · exact hf w a t vs hrun t us e err post hrest hfail
    · cases us with
      | nil => exact hf w a t vs hrun t [] e err post hrest.symm hfail
      | cons e' us =>
        obtain ⟨rfl, _⟩ := List.cons.inj hrest
        -- The first part failed, and yet it returned.
        have htrace' : (p.run w).trace = pre ++ e :: us := by rw [hrun]; exact hvs
        obtain ⟨_, stop, hresult, _⟩ := hp w pre e err us htrace' hfail
        rw [hrun] at hresult
        cases hresult

theorem stops_toPanic {p : Gen σ A} (hp : Stops p) : Stops (p.mapError Stop.toPanic) := by
  intro w pre e err post htrace hfail
  obtain ⟨hpost, stop, hresult, herr⟩ := hp w pre e err post htrace hfail
  refine ⟨hpost, stop.toPanic, ?_, (Stop.err_toPanic stop).trans herr⟩
  change (p.run w).result.mapError Stop.toPanic = _
  rw [hresult]
  rfl

theorem stops_act (op : Op) (answer : op.Seen → Option Damage → A) : Stops (act m op answer) := by
  intro w pre e err post htrace hfail
  have hquiet : (op.event w.files (attempt m w op).1).failure = none := by cases op <;> rfl
  have hmem : e ∈ [op.event w.files (attempt m w op).1] := by
    change [op.event w.files (attempt m w op).1] = pre ++ e :: post at htrace
    rw [htrace]
    simp
  rw [List.mem_singleton.mp hmem, hquiet] at hfail
  cases hfail

/-- A single event, and the error of it if it is a failure. -/
theorem stops_singleton {p : Gen σ A}
    (h : ∀ w, ∃ e, (p.run w).trace = [e] ∧ ∀ err, e.failure = some err →
      ∃ stop, (p.run w).result = .error stop ∧ stop.err = some err) : Stops p := by
  intro w pre e err post htrace hfail
  obtain ⟨e', hsingle, hresult⟩ := h w
  rw [hsingle] at htrace
  cases pre with
  | nil =>
    obtain ⟨rfl, hpost⟩ := List.cons.inj htrace
    exact ⟨hpost.symm, hresult err hfail⟩
  | cons e'' pre =>
    have hnil := (List.cons.inj htrace).2
    simp at hnil

/-- A command or a build, and then the look at its error. -/
theorem stops_look {p : Gen σ A} {f : A → Gen σ B} (e : World σ → Event) (err : A → Option Err)
    (hp : ∀ w, ∃ a t, p.Returns w a t [e w] ∧ err a = (e w).failure)
    (hquiet : ∀ a w, err a = none → ((f a).run w).trace = [])
    (hstop : ∀ a x, err a = some x → f a = .fail (.returned x) ∨ f a = .fail (.panic x)) :
    Stops (p >>= f) := by
  refine stops_singleton fun w => ?_
  obtain ⟨a, t, hrun, herr⟩ := hp w
  have hrun' : p.run w = ⟨.ok a, t, [e w]⟩ := hrun
  have htrace : ((p >>= f).run w).trace = e w :: ((f a).run t).trace := by
    rw [run_bind, hrun']
    rfl
  have hresult : ((p >>= f).run w).result = ((f a).run t).result := by
    rw [run_bind, hrun']
    rfl
  refine ⟨e w, ?_, fun x hx => ?_⟩
  · rw [htrace]
    cases hx : err a with
    | none => rw [hquiet a t hx]
    | some x => rcases hstop a x hx with h | h <;> rw [h] <;> rfl
  · rw [hresult]
    rcases hstop a x (herr.trans hx) with h | h
    · exact ⟨.returned x, by rw [h]; rfl, rfl⟩
    · exact ⟨.panic x, by rw [h]; rfl, rfl⟩

theorem combinedOutput_event (c : Command) (w : World σ) : ∃ a t,
    (combinedOutput m c).Returns w a t [.ran c (reply m w c).out (reply m w c).ok (reply m w c).files] ∧
      a.2 = (Event.ran c (reply m w c).out (reply m w c).ok (reply m w c).files).failure := by
  refine ⟨_, _, rfl, ?_⟩
  change (if (reply m w c).ok = true then none else some (Err.command c)) = _
  cases (reply m w c).ok <;> rfl

theorem stops_run (c : Command) : Stops (run m c) := by
  refine stops_look _ Prod.snd (combinedOutput_event c) ?_ ?_
  · intro (out, err) w herr
    obtain rfl : err = none := herr
    rfl
  · intro (out, err) x herr
    obtain rfl : err = some x := herr
    exact Or.inl rfl

theorem stops_output (c : Command) : Stops (output m c) := by
  refine stops_look _ Prod.snd (combinedOutput_event c) ?_ ?_
  · intro (out, err) w herr
    obtain rfl : err = none := herr
    rfl
  · intro (out, err) x herr
    obtain rfl : err = some x := herr
    exact Or.inl rfl

theorem stops_goBuild : Stops (goBuild m >>= must) := by
  refine stops_look (fun w => .built (m.goBuild w.machine w.files).1) id ?_ ?_ ?_
  · intro w
    refine ⟨_, _, rfl, ?_⟩
    cases (m.goBuild w.machine w.files).1 <;> rfl
  · rintro a w rfl
    rfl
  · rintro a x rfl
    exact Or.inr rfl

theorem Confined.stops {q : Gen σ A} (h : Confined m area q) : Stops q := by
  induction h with
  | act op answer _ => exact stops_act op answer
  | run c _ => exact stops_run c
  | output c _ => exact stops_output c
  | goBuild => exact stops_goBuild
  | pure a => exact stops_of_nil fun _ => rfl
  | fail stop => exact stops_of_nil fun _ => rfl
  | bindOf _ _ ihp ihf => exact stops_bind ihp ihf
  | toPanic _ ih => exact stops_toPanic ih

end

/-! ### The area of a run -/

/-- The headers that a run renders anew in the folders of libevent and Tor. -/
def renderedHeaders : List Path :=
  ((headers "event-config" allTargets).map fun name =>
    ["libevent_config".toList, "event2".toList, name]) ++
  ((headers "orconfig" allTargets ++ ["micro-revision.i".toList]).map fun name =>
    ["tor_config".toList, name])

/-- The other files and folders that every run may change, with all that is below them. -/
def rebuilt : List Path :=
  [[linux], ["builddeps".toList, "libevent".toList], ["openssl_config".toList],
    ["libtor".toList, "libtor_preamble.go".toList], ["libtor".toList, "libtor.go".toList],
    ["libtor.go".toList]]

/-- What a run writes into the folder of OpenSSL, which it removes first. -/
def opensslConfigured : List Path :=
  ((headers "dso_conf" ["", ".linux"] ++ headers "bn_conf" ["", ".x64", ".x86"]).map fun name =>
    ["openssl_config".toList, "crypto".toList, name]) ++
  ((headers "buildinf" ["", ".x64", ".x86"]).map fun name => ["openssl_config".toList, name]) ++
  ((headers "opensslconf" ["", ".x64", ".x86"] ++
    ["configuration.h".toList, "opensslv.h".toList]).map fun name =>
    ["openssl_config".toList, "openssl".toList, name])

theorem opensslConfigured_head {p : Path} (hp : p ∈ opensslConfigured) :
    p.head? = some "openssl_config".toList := by
  revert p
  decide +kernel

/-- What an update may change besides. -/
def updated : List Path := [["libtor".toList], ["README.md".toList], lockPath]

/-- Where a run writes or removes something. -/
def Area (o : Options) (p : Path) : Prop :=
  (∃ q ∈ rebuilt ++ renderedHeaders, q <+: p) ∨ (∃ lib gofile, p = wrapperPath linux lib gofile) ∨
    (o.genLock = true ∧ p ∈ updated)

/-- What is neither in the area of a run nor below it. -/
def OutOfReach (o : Options) (p : Path) : Prop :=
  (∀ q ∈ rebuilt ++ renderedHeaders, ¬ q <+: p) ∧
    (∀ lib gofile, ¬ wrapperPath linux lib gofile <+: p) ∧
    (o.genLock = true → ∀ q ∈ updated, ¬ q <+: p)

section Area

variable {o : Options} {p q : Path}

theorem OutOfReach.not_below (hp : OutOfReach o p) (hq : Area o q) : ¬ q <+: p := by
  intro hqp
  rcases hq with ⟨r, hr, hrq⟩ | ⟨lib, gofile, rfl⟩ | ⟨hgen, hq⟩
  · exact hp.1 r hr (hrq.trans hqp)
  · exact hp.2.1 lib gofile hqp
  · exact hp.2.2 hgen q hq hqp

theorem OutOfReach.head_ne (hp : OutOfReach o p) : p.head? ≠ some linux := by
  intro hhead
  cases p with
  | nil => cases hhead
  | cons top rest =>
    obtain rfl := Option.some.inj hhead
    exact hp.1 [linux] (by simp [rebuilt]) (List.prefix_append [linux] rest)

theorem OutOfReach.not_staged (hp : OutOfReach o p) : ¬ staged <+: p :=
  hp.1 staged (by simp [rebuilt, staged])

theorem area_rebuilt (hq : q ∈ rebuilt) (hqp : q <+: p) : Area o p :=
  Or.inl ⟨q, List.mem_append_left _ hq, hqp⟩

theorem area_rendered (hp : p ∈ renderedHeaders) : Area o p :=
  Or.inl ⟨p, List.mem_append_right _ hp, List.prefix_rfl⟩

theorem area_linux (hp : p.head? = some linux) : Area o p := by
  cases p with
  | nil => cases hp
  | cons top rest =>
    obtain rfl := Option.some.inj hp
    exact area_rebuilt (q := [linux]) (by simp [rebuilt]) (List.prefix_append [linux] rest)

theorem area_openssl (hp : p.head? = some "openssl_config".toList) : Area o p := by
  cases p with
  | nil => cases hp
  | cons top rest =>
    obtain rfl := Option.some.inj hp
    exact area_rebuilt (q := ["openssl_config".toList]) (by simp [rebuilt]) (List.prefix_append _ rest)

theorem area_wrapper (lib : Library) (gofile : Str) : Area o (wrapperPath linux lib gofile) :=
  Or.inr (Or.inl ⟨lib, gofile, rfl⟩)

end Area

/-! ### The functions of the libraries -/

section Libraries

variable {σ A : Type} {m : Machine σ} {pk : Packages} {o : Options} {lib : Library}
  {lock : Option LockJson}

theorem confined_firstSubmatch (pattern : Regexp) (text : Str) :
    Confined m (Area o) (firstSubmatch pattern text) := by
  unfold firstSubmatch
  split
  · exact .fail Stop.indexOutOfRange
  · exact .pure _

theorem confined_listGitTags {repo : Path} {pattern : Str} (hrepo : repo.head? = some linux) :
    Confined m (Area o) (listGitTags m repo pattern) :=
  .bind (confined_output hrepo rfl) fun out => .pure (sortStrings (fields out))

theorem confined_checkoutCommit {url : String} {choose : Gen σ Str} (hchoose : Confined m (Area o) choose) :
    Confined m (Area o) (checkoutCommit m linux lib url choose) :=
  .bind (confined_run rfl rfl) fun _ => .bind hchoose fun _ => .bind (confined_run rfl rfl) fun _ =>
    .bind (confined_output rfl rfl) fun commit => .pure (trimSpace commit)

/-- The choice between the locked commit and the latest tag. -/
theorem confined_choose {locked : LockJson → Str} {latest : Gen σ Str}
    (hlatest : Confined m (Area o) latest) : Confined m (Area o) (match lock with
      | some lock => pure (locked lock)
      | none => latest) := by
  cases lock with
  | none => exact hlatest
  | some lock => exact .pure _

theorem confined_wipe {keepDir keepFile : Str → Bool} {dir : Path} {files : List Entry}
    (hdir : dir.head? = some linux) : Confined m (Area o) (wipe m keepDir keepFile dir files) := by
  refine .forM fun file => ?_
  have harea : Area o (dir ++ [file.name]) := by
    refine area_linux ?_
    rw [List.head?_append, hdir]
    rfl
  split
  · split
    · exact .pure _
    · exact .bind (confined_change _ rfl harea) confined_ignore
  · split
    · exact .pure _
    · exact .bind (confined_change _ rfl harea) confined_ignore

theorem confined_writeWrappers {onError : Option Err → Gen σ Unit} {wrappers : List Wrapper}
    (herr : ∀ err, Confined m (Area o) (onError err)) :
    Confined m (Area o) (writeWrappers m onError linux lib wrappers) :=
  .forM fun w => .bind (confined_change _ rfl (area_wrapper lib w.gofile)) herr

theorem confined_writePreamble {onError : Option Err → Gen σ Unit}
    (herr : ∀ err, Confined m (Area o) (onError err)) :
    Confined m (Area o) (writePreamble m onError linux lib) :=
  .bind (confined_change _ rfl (area_wrapper lib preambleFile)) herr

/-! #### zlib -/

theorem confined_wrapZlib : Confined m (Area o) (wrapZlib m o linux lock) := by
  have hlatest : Confined m (Area o) (latestZlibTag m o.intSize [linux, "zlib".toList]) :=
    .bind (confined_listGitTags rfl) fun tags => confined_checked _
  have hcheckout : Confined m (Area o) (checkoutZlib m o linux lock) :=
    .bind (confined_checkoutCommit (confined_choose hlatest)) fun commit =>
      .bind (confined_look _ rfl) fun conf => .bind (confined_firstSubmatch _ _) fun strver => .pure _
  have hwipe : Confined m (Area o) (wipeZlib m [linux, "zlib".toList]) :=
    .bind (confined_look _ rfl) fun _ => .bind (confined_checked _) fun files =>
      .bind (confined_wipe rfl) fun _ => .pure files
  exact .bind hcheckout fun _ => .bind hwipe fun _ => .bind (confined_writeWrappers confined_ignore) fun _ =>
    .bind (confined_writePreamble confined_ignore) fun _ => .pure _

/-! #### libevent -/

theorem confined_stageLibevent : Confined m (Area o) (stageLibevent m o [linux, "libevent".toList]) := by
  have hstaged : Area o ["builddeps".toList, "libevent".toList] :=
    area_rebuilt (by simp [rebuilt]) List.prefix_rfl
  exact .bind (confined_look _ rfl) fun path => .bind (confined_checked _) fun libeventPrefix =>
    .bind (confined_change _ rfl hstaged) fun err => .bind (confined_check err) fun _ =>
    .bind (confined_look _ rfl) fun err => .bind (confined_check err) fun _ =>
    .run _ (inTarget_staging rfl)

theorem confined_libeventDeps (out : Str) :
    Confined m (Area o) (libeventDeps m [linux, "libevent".toList] out) := by
  unfold libeventDeps
  dsimp only
  split
  · exact .fail _
  · split
    · refine .bind (confined_look _ rfl) fun result => ?_
      cases result with
      | found =>
        dsimp only
        split
        · exact .pure _
        · exact .pure _
      | notExist => exact .pure _
      | failed err => exact .fail _
    · exact .pure _

theorem confined_configureLibevent : Confined m (Area o) (configureLibevent m o linux lock) := by
  have hlatest : Confined m (Area o) (latestLibeventTag m o.intSize [linux, "libevent".toList]) :=
    .bind (confined_listGitTags rfl) fun tags => confined_checked _
  exact .bind (confined_checkoutCommit (confined_choose hlatest)) fun commit =>
    .bind (confined_run rfl rfl) fun _ => .bind (confined_run rfl rfl) fun _ =>
    .bind confined_stageLibevent fun _ => .bind (confined_look _ rfl) fun conf =>
    .bind (confined_firstSubmatch _ _) fun numver => .bind (confined_firstSubmatch _ _) fun strver =>
    .bind (confined_output rfl rfl) fun out => .bind (confined_libeventDeps out) fun deps => .pure _

theorem confined_wrapLibevent : Confined m (Area o) (wrapLibevent m pk o linux lock) := by
  have hwipe : Confined m (Area o) (wipeLibevent m [linux, "libevent".toList]) :=
    .bind (confined_look _ rfl) fun _ => .bind (confined_checked _) fun _ => confined_wipe rfl
  have hinject : ∀ numver strver, Confined m (Area o) (injectLibevent m pk numver strver) := by
    intro numver strver
    refine .bind (confined_look _ rfl) fun _ => confined_inject confined_render ?_
    intro name hname
    exact area_rendered (List.mem_append_left _ (List.mem_map_of_mem hname))
  exact .bind confined_configureLibevent fun _ => .bind hwipe fun _ =>
    .bind (confined_writeWrappers confined_ignore) fun _ =>
    .bind (confined_writePreamble confined_ignore) fun _ =>
    .bind (hinject _ _) fun _ => .pure _

/-! #### OpenSSL -/

theorem confined_findGenerated (generatedDeps : List Str) (dep : Str) :
    Confined m (Area o) (findGenerated m [linux, "openssl".toList] generatedDeps dep) := by
  refine .bind (confined_look _ rfl) fun source => ?_
  cases source with
  | found => exact .pure _
  | failed err => exact .fail _
  | notExist =>
    refine .bind (confined_look _ rfl) fun generated => ?_
    cases generated with
    | found => exact .pure _
    | failed err => exact .fail _
    | notExist => exact .pure _

theorem confined_opensslDeps (out : Str) :
    Confined m (Area o) (opensslDeps m [linux, "openssl".toList] out) := by
  unfold opensslDeps
  dsimp only
  split
  · exact .fail _
  · refine .bind (.foldlM confined_findGenerated _ _) fun generatedDeps => .bind ?_ fun _ => .pure _
    unfold makeGenerated
    split
    · exact confined_run rfl rfl
    · exact .pure _

theorem confined_configureOpenSSL : Confined m (Area o) (configureOpenSSL m o linux lock) := by
  have hlatest : Confined m (Area o) (latestOpenSSLTag m o.intSize [linux, "openssl".toList]) :=
    .bind (confined_listGitTags rfl) fun tags => confined_checked _
  have hversion : Confined m (Area o) (openSSLVersionData m [linux, "openssl".toList]) :=
    .bind (confined_look _ rfl) fun blob => .bind (confined_check _) fun _ => confined_checked _
  exact .bind (confined_checkoutCommit (confined_choose hlatest)) fun commit =>
    .bind (confined_output rfl rfl) fun date => .bind hversion fun versionData =>
    .bind (confined_checked _) fun opensslTarget => .bind (confined_run rfl rfl) fun _ =>
    .bind (confined_run rfl rfl) fun _ => .bind (confined_output rfl rfl) fun out =>
    .bind (confined_opensslDeps out) fun deps => .pure _

theorem confined_copyHeader {area : Path → Prop} (harea : ∀ p ∈ opensslConfigured, area p) {tgtf : Path}
    {name : Str} (hname : ["openssl_config".toList, "openssl".toList, name] ∈ opensslConfigured) :
    Confined m area (copyHeader m tgtf name) :=
  .bind (confined_look _ rfl) fun read => .bind (confined_check read.2) fun _ =>
    .bind (confined_change _ rfl (harea _ hname)) fun err => confined_check err

theorem confined_injectConfiguration {area : Path → Prop} (harea : ∀ p ∈ opensslConfigured, area p)
    {tgtf : Path} {versionData : Fields} : Confined m area (injectConfiguration m tgtf versionData) := by
  refine .bind (confined_look _ rfl) fun result => ?_
  have hheader : Confined m area (writeOpenSSLVersionHeader m
      ["openssl_config".toList, "openssl".toList, "opensslv.h".toList] versionData) := by
    unfold writeOpenSSLVersionHeader writeFile
    exact confined_change _ rfl (harea _ (by decide +kernel))
  have hold : Confined m area (inject m pure ["config".toList, "openssl".toList]
      ["openssl_config".toList, "openssl".toList] (headers "opensslconf" ["", ".x64", ".x86"])) :=
    confined_inject (fun blob => .pure blob) fun name hname => harea _ (by revert hname name; decide +kernel)
  cases result with
  | found =>
    exact .bind (confined_copyHeader harea (by decide +kernel)) fun _ =>
      .bind (confined_copyHeader harea (by decide +kernel)) fun _ =>
      .bind hheader fun err => confined_check err
  | notExist => exact hold
  | failed err => exact hold

/-- What `injectOpenSSL` does once the folder is removed. -/
theorem confined_fillConfiguration {area : Path → Prop} (harea : ∀ p ∈ opensslConfigured, area p)
    {tgtf : Path} {date : Str} {versionData : Fields} : Confined m area (do
    let _ ← mkdirAll m ["openssl_config".toList, "crypto".toList]
    let _ ← mkdirAll m ["openssl_config".toList, "openssl".toList]
    inject m pure ["config".toList, "openssl".toList] ["openssl_config".toList, "crypto".toList]
      (headers "dso_conf" ["", ".linux"])
    inject m pure ["config".toList, "openssl".toList] ["openssl_config".toList, "crypto".toList]
      (headers "bn_conf" ["", ".x64", ".x86"])
    inject m (render pk [("Date".toList, date)]) ["config".toList, "openssl".toList]
      ["openssl_config".toList] (headers "buildinf" ["", ".x64", ".x86"])
    injectConfiguration m tgtf versionData) := by
  refine .bind (confined_look _ rfl) fun _ => .bind (confined_look _ rfl) fun _ =>
    .bind (confined_inject (fun blob => .pure blob) ?_) fun _ =>
    .bind (confined_inject (fun blob => .pure blob) ?_) fun _ =>
    .bind (confined_inject confined_render ?_) fun _ => confined_injectConfiguration harea
  · exact fun name hname => harea _ (by revert hname name; decide +kernel)
  · exact fun name hname => harea _ (by revert hname name; decide +kernel)
  · exact fun name hname => harea _ (by revert hname name; decide +kernel)

theorem area_opensslConfigured : ∀ p ∈ opensslConfigured, Area o p :=
  fun _ hp => area_openssl (opensslConfigured_head hp)

theorem confined_injectOpenSSL {tgtf : Path} {date : Str} {versionData : Fields} :
    Confined m (Area o) (injectOpenSSL m pk tgtf date versionData) :=
  .bind (confined_change _ rfl (area_openssl rfl)) fun err => .bind (confined_check err) fun _ =>
    confined_fillConfiguration area_opensslConfigured

theorem confined_wrapOpenSSL : Confined m (Area o) (wrapOpenSSL m pk o linux lock) := by
  have hwipe : Confined m (Area o) (wipeOpenSSL m [linux, "openssl".toList]) :=
    .bind (confined_look _ rfl) fun _ => .bind (confined_checked _) fun _ => confined_wipe rfl
  have hwrappers : ∀ wrappers, Confined m (Area o) (writeOpenSSLWrappers m linux wrappers) := by
    intro wrappers
    refine .bind (confined_writeWrappers confined_check) fun _ => ?_
    split
    · exact .fail _
    · exact .pure _
  exact .bind confined_configureOpenSSL fun _ => .bind hwipe fun _ => .bind (hwrappers _) fun _ =>
    .bind (confined_writePreamble confined_check) fun _ => .bind confined_injectOpenSSL fun _ => .pure _

/-! #### Tor -/

theorem confined_configureTor : Confined m (Area o) (configureTor m linux lock) :=
  .bind (confined_checkoutCommit (confined_choose (.pure _))) fun _ => .bind (confined_run rfl rfl) fun _ =>
    .bind (confined_look _ rfl) fun _ => .bind (confined_checked _) fun _ =>
    .bind (confined_run rfl rfl) fun _ => .bind (confined_look _ rfl) fun _ =>
    .bind (confined_firstSubmatch _ _) fun _ => .bind (confined_output rfl rfl) fun _ => .pure _

theorem confined_wipeTor : Confined m (Area o) (wipeTor m [linux, "tor".toList]) :=
  .bind (confined_look _ rfl) fun _ => .bind (confined_checked _) fun _ => .bind (confined_wipe rfl) fun _ =>
    .bind (confined_look _ rfl) fun _ => .bind (confined_checked _) fun _ =>
    .bind (confined_wipe rfl) fun _ => .bind (confined_change _ rfl (area_linux rfl)) fun err =>
    .bind (confined_ignore err) fun _ => .bind (confined_look _ rfl) fun err => confined_check err

theorem confined_wrapTor : Confined m (Area o) (wrapTor m pk linux lock) := by
  have hinject : ∀ strver, Confined m (Area o) (injectTor m pk strver) := by
    intro strver
    refine .bind (confined_look _ rfl) fun _ => .bind (confined_inject confined_render ?_) fun _ =>
      confined_inject (fun blob => .pure blob) ?_
    · intro name hname
      refine area_rendered (List.mem_append_right _ (List.mem_map_of_mem ?_))
      exact List.mem_append_left _ hname
    · intro name hname
      refine area_rendered (List.mem_append_right _ (List.mem_map_of_mem ?_))
      exact List.mem_append_right _ hname
  exact .bind confined_configureTor fun _ => .bind confined_wipeTor fun _ =>
    .bind (confined_writeWrappers confined_ignore) fun _ =>
    .bind (confined_writePreamble confined_ignore) fun _ =>
    .bind (hinject _) fun _ => .pure _

end Libraries

/-! ### The whole run -/

section Main

variable {σ : Type} {m : Machine σ} {pk : Packages} {o : Options}

theorem confined_readLock {area : Path → Prop} : Confined m area (readLock m pk) := by
  refine .bind (confined_look _ rfl) fun result => ?_
  cases result with
  | notExist => exact .pure _
  | failed err => exact .fail _
  | found =>
    refine .bind (confined_look _ rfl) fun read => .bind (confined_must read.2) fun _ => ?_
    cases hdecode : pk.decode read.1 with
    | none => simpa only [hdecode] using .fail _
    | some lock => simpa only [hdecode] using .pure _

theorem confined_chooseLock (currentLock : Option LockJson) :
    Confined m (Area o) (chooseLock o currentLock) := by
  unfold chooseLock
  split
  · cases currentLock with
    | none => exact .fail _
    | some lock => exact .pure _
  · exact .pure _

theorem confined_chooseTarget : Confined m (Area o) (chooseTarget o) := by
  unfold chooseTarget
  split
  · exact .pure _
  · exact .fail _

theorem confined_removeWhen {condition : Bool} {p : Path} (hp : condition = true → Area o p) :
    Confined m (Area o) (removeWhen m condition p) := by
  unfold removeWhen
  split
  next hcondition => exact .bind (confined_change _ rfl (hp hcondition)) confined_ignore
  next => exact .pure _

theorem confined_copyBuildFile {name : String} {dst : Path} (hdst : dst ∈ rebuilt) :
    Confined m (Area o) (copyBuildFile m name dst) :=
  .bind (confined_look _ rfl) fun _ =>
    .bind (confined_change _ rfl (area_rebuilt hdst List.prefix_rfl)) confined_ignore

theorem confined_cleanUp : Confined m (Area o) (cleanUp m o linux) := by
  refine .bind (confined_look _ rfl) fun libtor => .bind (confined_removeWhen ?_) fun _ =>
    .bind (confined_look _ rfl) fun _ => confined_removeWhen fun _ => area_linux rfl
  intro hcondition
  have hgen : o.genLock = true := (Bool.and_eq_true_iff.mp hcondition).2
  exact Or.inr (Or.inr ⟨hgen, List.mem_cons_self⟩)

theorem confined_prepare : Confined m (Area o) (prepare m o linux) :=
  .bind confined_cleanUp fun _ => .bind (confined_look _ rfl) fun err => .bind (confined_must err) fun _ =>
    .bind (confined_copyBuildFile (by simp [rebuilt])) fun _ => .bind (confined_look _ rfl) confined_must

theorem confined_wrapAll {currentLock lock : Option LockJson} :
    Confined m (Area o) (wrapAll m pk o linux currentLock lock) :=
  .bind (.toPanic confined_wrapZlib) fun _ => .bind (.toPanic confined_wrapLibevent) fun _ =>
    .bind (.toPanic confined_wrapOpenSSL) fun _ => .bind (.toPanic confined_wrapTor) fun _ => .pure _

theorem confined_copyEntrypoints : Confined m (Area o) (copyEntrypoints m) :=
  .bind (confined_copyBuildFile (by simp [rebuilt])) fun _ => confined_copyBuildFile (by simp [rebuilt])

theorem confined_generate : Confined m (Area o) (generate m pk o) := by
  refine .bind confined_readLock fun currentLock => .bind (confined_chooseLock currentLock) fun lock =>
    .bindOf confined_chooseTarget fun _ tgt _ _ htgt => ?_
  obtain ⟨rfl, _⟩ := chooseTarget_returns htgt
  exact .bind confined_prepare fun _ => .bind confined_wrapAll fun _ =>
    .bind confined_copyEntrypoints fun _ => .pure _

theorem confined_build : Confined m (Area o) (build m o) := by
  unfold build
  split
  · exact .goBuild
  · exact .pure _

theorem confined_update (v : Versions) : Confined m (Area o) (update m pk o v) := by
  unfold update
  split
  next hgen =>
    have hreadme : Area o ["README.md".toList] := Or.inr (Or.inr ⟨hgen, by simp [updated]⟩)
    have hlock : Area o lockPath := Or.inr (Or.inr ⟨hgen, by simp [updated]⟩)
    refine .bind (.bind (confined_look _ rfl) fun result => ?_) fun _ =>
      .bind (confined_change _ rfl hlock) confined_ignore
    cases result with
    | notExist => exact .pure _
    | failed err => exact .pure _
    | found =>
      refine .bind (confined_look _ rfl) fun read => .bind (confined_must read.2) fun _ => ?_
      cases htemplate : pk.template read.1 with
      | none => simpa only [htemplate] using .fail _
      | some execute =>
        simp only
        exact .bind (confined_change _ rfl hreadme) confined_ignore
  next => exact .pure _

theorem confined_main : Confined m (Area o) (main m pk o) :=
  .bind confined_generate fun versions => .bind confined_build fun _ =>
    .bind (confined_update versions) fun _ => .pure _

/-! ### Where a run ends -/

/-- Nobody is there to look at an error that `main` would return. -/
def Stop.Final : Stop → Prop
  | .returned _ => False
  | _ => True

theorem final_toPanic (stop : Stop) : stop.toPanic.Final := by
  cases stop <;> trivial

theorem final_act {A : Type} (op : Op) (answer : op.Seen → Option Damage → A) :
    Errs Stop.Final (act m op answer) :=
  errs_of_ok fun _ => ⟨_, rfl⟩

theorem final_must (err : Option Err) : Errs Stop.Final (must err : Gen σ Unit) := by
  cases err with
  | none => exact errs_pure ()
  | some e => exact errs_fail trivial

theorem final_readLock : Errs Stop.Final (readLock m pk) := by
  refine errs_bind (final_act _ _) fun result => ?_
  cases result with
  | notExist => exact errs_pure _
  | failed err => exact errs_fail trivial
  | found =>
    refine errs_bind (final_act _ _) fun read => errs_bind (final_must read.2) fun _ => ?_
    cases hdecode : pk.decode read.1 with
    | none => simpa only [hdecode] using errs_fail trivial
    | some lock => simpa only [hdecode] using errs_pure _

theorem final_chooseLock (currentLock : Option LockJson) :
    Errs Stop.Final (chooseLock o currentLock : Gen σ _) := by
  unfold chooseLock
  split
  · cases currentLock with
    | none => exact errs_fail trivial
    | some lock => exact errs_pure _
  · exact errs_pure _

theorem final_chooseTarget : Errs Stop.Final (chooseTarget o : Gen σ _) := by
  unfold chooseTarget
  split
  · exact errs_pure _
  · exact errs_fail trivial

theorem final_removeWhen (condition : Bool) (p : Path) :
    Errs Stop.Final (removeWhen m condition p) := by
  unfold removeWhen
  split
  · exact errs_bind (final_act _ _) fun _ => errs_pure _
  · exact errs_pure _

theorem final_copyBuildFile (name : String) (dst : Path) :
    Errs Stop.Final (copyBuildFile m name dst) :=
  errs_bind (final_act _ _) fun _ => errs_bind (final_act _ _) fun _ => errs_pure _

theorem final_prepare (tgt : Str) : Errs Stop.Final (prepare m o tgt) :=
  errs_bind (errs_bind (final_act _ _) fun _ => errs_bind (final_removeWhen _ _) fun _ =>
    errs_bind (final_act _ _) fun _ => final_removeWhen _ _) fun _ =>
  errs_bind (final_act _ _) fun err => errs_bind (final_must err) fun _ =>
  errs_bind (final_copyBuildFile _ _) fun _ => errs_bind (final_act _ _) final_must

theorem final_wrapAll (tgt : Str) (currentLock lock : Option LockJson) :
    Errs Stop.Final (wrapAll m pk o tgt currentLock lock) :=
  errs_bind (errs_mapError final_toPanic _) fun _ => errs_bind (errs_mapError final_toPanic _) fun _ =>
    errs_bind (errs_mapError final_toPanic _) fun _ => errs_bind (errs_mapError final_toPanic _) fun _ =>
    errs_pure _

theorem final_generate : Errs Stop.Final (generate m pk o) :=
  errs_bind final_readLock fun currentLock => errs_bind (final_chooseLock currentLock) fun lock =>
    errs_bind final_chooseTarget fun tgt => errs_bind (final_prepare tgt) fun _ =>
    errs_bind (final_wrapAll tgt currentLock lock) fun _ =>
    errs_bind (errs_bind (final_copyBuildFile _ _) fun _ => final_copyBuildFile _ _) fun _ => errs_pure _

theorem final_build : Errs Stop.Final (build m o) := by
  unfold build
  split
  · exact errs_bind (errs_of_ok fun _ => ⟨_, rfl⟩) final_must
  · exact errs_pure _

theorem final_update (v : Versions) : Errs Stop.Final (update m pk o v) := by
  unfold update
  split
  · refine errs_bind (errs_bind (final_act _ _) fun result => ?_) fun _ =>
      errs_bind (final_act _ _) fun _ => errs_pure _
    cases result with
    | notExist => exact errs_pure _
    | failed err => exact errs_pure _
    | found =>
      refine errs_bind (final_act _ _) fun read => errs_bind (final_must read.2) fun _ => ?_
      cases htemplate : pk.template read.1 with
      | none => simpa only [htemplate] using errs_fail trivial
      | some execute =>
        simp only
        exact errs_bind (final_act _ _) fun _ => errs_pure _
  · exact errs_pure _

theorem final_main : Errs Stop.Final (main m pk o) :=
  errs_bind final_generate fun versions => errs_bind final_build fun _ =>
    errs_bind (final_update versions) fun _ => errs_pure _

end Main

/-- Whatever the tools answer and wherever a run ends, it leaves every file alone that is out of
its reach, and reads nothing else of it than what was there. -/
theorem out_of_reach_kept {σ : Type} (m : Machine σ) (pk : Packages) (o : Options) (w : World σ)
    {p : Path} (hp : OutOfReach o p) : get ((main m pk o).run w).state.files p = get w.files p ∧
      ∀ data, Event.read p data true ∈ ((main m pk o).run w).trace → get w.files p = some data :=
  confined_main.serves (fun _ hr => hp.not_below hr) hp.head_ne hp.not_staged w

/-- A header written by hand in a folder that others are rendered into. -/
theorem out_of_reach_kept_extra : get ((main (upstreams small) plain (onLinux true)).run
      ⟨(), [(["tor_config".toList, "gotor_extra.h".toList], "#include <endian.h>\n".toList)]⟩).state.files
        ["tor_config".toList, "gotor_extra.h".toList] = some "#include <endian.h>\n".toList := by
  refine (out_of_reach_kept (upstreams small) plain (onLinux true) _
    ⟨by decide +kernel, ?_, ?_⟩).1.trans rfl
  · intro lib gofile
    exact not_prefix_of_head rfl (by decide)
  · intro _
    decide +kernel

/-- A command that fails, like a build that fails, is the last thing that a run does: `main` panics
there, with the error of that command. -/
theorem fail_stop {σ : Type} (m : Machine σ) (pk : Packages) (o : Options) (w : World σ)
    {before after : List Event} {e : Event} {err : Err}
    (htrace : ((main m pk o).run w).trace = before ++ e :: after) (hfail : e.failure = some err) :
    after = [] ∧ ((main m pk o).run w).result = .error (.panic err) := by
  obtain ⟨hafter, stop, hresult, herr⟩ := confined_main.stops w before e err after htrace hfail
  have hfinal : stop.Final := final_main w stop hresult
  refine ⟨hafter, ?_⟩
  rw [hresult]
  cases stop with
  | returned e' => exact hfinal.elim
  | panic e' => rw [Option.some.inj herr]
  | indexOutOfRange => cases herr

/-- The small example without `make`. -/
def withoutMake : Machine Unit :=
  { upstreams small with
    exec := fun s fs c =>
      if c.args.head? = some "make".toList then { out := [], ok := false, files := fs, state := s }
      else (upstreams small).exec s fs c }

theorem fail_stop_make : ∃ before e, ((main withoutMake plain (onLinux true)).run ⟨(), []⟩).trace =
      before ++ [e] ∧
    ((main withoutMake plain (onLinux true)).run ⟨(), []⟩).result =
      .error (.panic (.command { command [linux, "libevent".toList] ["make", "-j1", "install"]
        ["DESTDIR=/go-libtor/builddeps/libevent".toList] with dest := some staged })) := by
  have hany : ((main withoutMake plain (onLinux true)).run ⟨(), []⟩).trace.any (fun e =>
      e.failure = some (.command { command [linux, "libevent".toList] ["make", "-j1", "install"]
        ["DESTDIR=/go-libtor/builddeps/libevent".toList] with dest := some staged })) = true := by
    decide +kernel
  obtain ⟨e, hmem, hfail⟩ := List.any_eq_true.mp hany
  obtain ⟨before, after, htrace⟩ := List.append_of_mem hmem
  obtain ⟨rfl, hresult⟩ :=
    fail_stop withoutMake plain (onLinux true) ⟨(), []⟩ htrace (of_decide_eq_true hfail)
  exact ⟨before, e, htrace, hresult⟩

end GoLibtor
