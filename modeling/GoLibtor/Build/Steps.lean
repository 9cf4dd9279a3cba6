import GoLibtor.Build.Generate
import GoLibtor.Build.GoFiles

/-! The commands and the file operations each part of the generator is made of. Whatever the
machine answers, nothing else is done, and this is what later modules argue from. -/
namespace GoLibtor

open Text Files Transition Program

section

variable {σ A B : Type} (m : Machine σ) (okOp : Op → Prop) (okCommand : Command → Prop)

inductive Step : ∀ T : Type, Gen σ T → Prop
  | act {T : Type} (op : Op) (answer : op.Seen → Option Damage → T) (h : okOp op) :
      Step T (act m op answer)
  | command (c : Command) (h : okCommand c) : Step (Str × Option Err) (combinedOutput m c)

/-- A program that does nothing but operations and commands of these kinds. -/
abbrev Uses (p : Gen σ A) : Prop := Built (Step m okOp okCommand) p

def EventOf : Event → Prop
  | .ran c _ _ _ => okCommand c
  | .built _ => False
  | .read p _ _ => okOp (.readFile p)
  | .listed p _ _ => okOp (.readDir p)
  | .did op _ => okOp op

/-- The files at the end are those at the beginning with every event applied to them, and every
event is of the kind `Q`. -/
def Acts (Q : Event → Prop) (w : World σ) (vs : List Event) (w' : World σ) : Prop :=
  w'.files = vs.foldl Event.effect w.files ∧ ∀ e ∈ vs, Q e

theorem acts_composes (Q : Event → Prop) : Composes (Acts (σ := σ) Q) where
  refl := fun _ => ⟨rfl, by simp⟩
  trans := by
    intro s t u vs ws ⟨hst, hvs⟩ ⟨htu, hws⟩
    refine ⟨by rw [htu, hst, List.foldl_append], ?_⟩
    intro e he
    rcases List.mem_append.mp he with h | h
    · exact hvs e h
    · exact hws e h

theorem event_effect (fs : Store) (op : Op) (d : Option Damage) :
    (op.event fs d).effect fs = op.effect fs d := by
  cases op <;> cases d <;> rfl

theorem eventOf_event {fs : Store} {op : Op} {d : Option Damage} (h : okOp op) :
    EventOf okOp okCommand (op.event fs d) := by
  cases op <;> exact h

variable {m okOp okCommand}

theorem Uses.along {p : Gen σ A} (h : Uses m okOp okCommand p) :
    Along (Acts (EventOf okOp okCommand)) p := by
  refine Built.along (acts_composes _) ?_ h
  intro T q hq
  cases hq with
  | act op answer hop =>
    intro w
    refine ⟨(event_effect _ op _).symm, ?_⟩
    intro e he
    rw [List.mem_singleton.mp he]
    exact eventOf_event okOp okCommand hop
  | command c hc =>
    intro w
    refine ⟨rfl, ?_⟩
    intro e he
    rw [List.mem_singleton.mp he]
    exact hc

theorem Uses.mono {okOp' : Op → Prop} {okCommand' : Command → Prop} {p : Gen σ A}
    (h : Uses m okOp okCommand p) (hop : ∀ op, okOp op → okOp' op)
    (hc : ∀ c, okCommand c → okCommand' c) : Uses m okOp' okCommand' p := by
  refine Built.mono ?_ h
  intro T q hq
  cases hq with
  | act op answer h => exact .act op answer (hop op h)
  | command c h => exact .command c (hc c h)

theorem uses_act {op : Op} (answer : op.Seen → Option Damage → A) (h : okOp op) :
    Uses m okOp okCommand (act m op answer) :=
  .step (.act op answer h)

theorem uses_check (err : Option Err) : Uses m okOp okCommand (check err) := by
  cases err with
  | none => exact .pure ()
  | some e => exact .fail (Stop.returned e)

theorem uses_must (err : Option Err) : Uses m okOp okCommand (must err) := by
  cases err with
  | none => exact .pure ()
  | some e => exact .fail (Stop.panic e)

theorem uses_ignore (err : Option Err) : Uses m okOp okCommand (ignore err) := .pure ()

theorem uses_checked (r : Except Err A) : Uses m okOp okCommand (checked r) := by
  cases r with
  | ok a => exact .pure a
  | error e => exact .fail (Stop.returned e)

theorem uses_run {c : Command} (h : okCommand c) : Uses m okOp okCommand (run m c) :=
  .bind (.step (.command c h)) fun r => uses_check r.2

theorem uses_output {c : Command} (h : okCommand c) : Uses m okOp okCommand (output m c) :=
  .bind (.step (.command c h)) fun r => .bind (uses_check r.2) fun _ => .pure r.1

theorem uses_firstSubmatch (pattern : Regexp) (text : Str) :
    Uses m okOp okCommand (firstSubmatch pattern text) := by
  unfold firstSubmatch
  split
  · exact .fail Stop.indexOutOfRange
  · exact .pure _

theorem uses_listGitTags {repo : Path} {pattern : Str}
    (h : okCommand (command repo ["git", "tag", "--list"] [pattern])) :
    Uses m okOp okCommand (listGitTags m repo pattern) :=
  .bind (uses_output h) fun out => .pure (sortStrings (fields out))

/-- What a chosen checkout may be depends on how it was chosen. -/
theorem uses_checkoutCommit {tgt : Str} {lib : Library} {url : String} {choose : Gen σ Str}
    (hclone : okCommand (command [tgt] ["git", "clone", url] []))
    (hchoose : Uses m okOp okCommand choose)
    (hcheckout : ∀ s x t vs, choose.Returns s x t vs → okCommand (checkoutCommand tgt lib x))
    (hparse : okCommand (revParseCommand tgt lib)) :
    Uses m okOp okCommand (checkoutCommit m tgt lib url choose) := by
  refine .bind (uses_run hclone) fun _ => .bindOf hchoose ?_
  intro s x t vs hx
  exact .bind (uses_run (hcheckout s x t vs hx)) fun _ =>
    .bind (uses_output hparse) fun commit => .pure (trimSpace commit)

theorem uses_wipe {keepDir keepFile : Str → Bool} {dir : Path} {files : List Entry}
    (hall : ∀ name, okOp (.removeAll (dir ++ [name]))) (hone : ∀ name, okOp (.remove (dir ++ [name]))) :
    Uses m okOp okCommand (wipe m keepDir keepFile dir files) := by
  refine .forM ?_
  intro file _
  split
  · split
    · exact .pure _
    · exact .bind (uses_act _ (hall file.name)) fun err => uses_ignore err
  · split
    · exact .pure _
    · exact .bind (uses_act _ (hone file.name)) fun err => uses_ignore err

theorem uses_writeWrappers {onError : Option Err → Gen σ Unit} {tgt : Str} {lib : Library}
    {wrappers : List Wrapper} (herr : ∀ err, Uses m okOp okCommand (onError err))
    (hw : ∀ w ∈ wrappers, ∀ data, okOp (.writeFile (wrapperPath tgt lib w.gofile) data)) :
    Uses m okOp okCommand (writeWrappers m onError tgt lib wrappers) :=
  .forM fun w hmem => .bind (uses_act _ (hw w hmem _)) herr

theorem uses_writePreamble {onError : Option Err → Gen σ Unit} {tgt : Str} {lib : Library}
    (herr : ∀ err, Uses m okOp okCommand (onError err))
    (hw : ∀ data, okOp (.writeFile (wrapperPath tgt lib preambleFile) data)) :
    Uses m okOp okCommand (writePreamble m onError tgt lib) :=
  .bind (uses_act _ (hw _)) herr

theorem uses_render {pk : Packages} {data : List (Str × Str)} (blob : Str) :
    Uses m okOp okCommand (render pk data blob) := by
  unfold render
  split
  · exact .fail _
  · split
    · exact .pure _
    · exact .fail _

theorem uses_inject {rendered : Str → Gen σ Str} {src dst : Path} {names : List Str}
    (hrendered : ∀ blob, Uses m okOp okCommand (rendered blob))
    (hsrc : ∀ name, okOp (.readFile (src ++ [name])))
    (hdst : ∀ name data, okOp (.writeFile (dst ++ [name]) data)) :
    Uses m okOp okCommand (inject m rendered src dst names) :=
  .forM fun name _ => .bind (uses_act _ (hsrc name)) fun read => .bind (hrendered read.1) fun text =>
    .bind (uses_act _ (hdst name text)) uses_ignore

end

/-! ### The kinds of steps of the four libraries -/

def linux : Str := "linux".toList

def Library.commit : Library → LockJson → Str
  | .zlib => LockJson.zlib
  | .libevent => LockJson.libevent
  | .openssl => LockJson.openssl
  | .tor => LockJson.tor

/-- The folder of the configuration headers. -/
def Library.config (lib : Library) : Str := lib.name ++ "_config".toList

def Op.observes : Op → Option Path
  | .openFile p => some p
  | .readFile p => some p
  | .stat p => some p
  | .readDir p => some p
  | .removeWalk _ p => some p
  | _ => none

def Op.changes : Op → Option Path
  | .writeFile p _ => some p
  | .removeAll p => some p
  | .remove p => some p
  | .removeWalk _ p => some p
  | _ => none

def isCSource (name : Str) : Bool := hasSuffix name ".c".toList || hasSuffix name ".c.in".toList

/-- The files of `libtor` that are no C sources, of which the generator never looks at one. -/
def hidden (p : Path) : Bool := p.head? == some "libtor".toList && p.all fun part => !isCSource part

/-- An operation that does not depend on the hidden files. -/
def Op.Blind (op : Op) : Prop := ∀ p, op.observes = some p → ∀ q, hidden q = true → ¬ p <+: q

/-- What the function of a library does to files but for its wrappers: it looks at no hidden file,
and changes its configuration headers and the folders of the build tools. -/
def FolderOp (lib : Library) (op : Op) : Prop :=
  op.Blind ∧ ∀ p, op.changes = some p →
    p.head? = some linux ∨ p.head? = some "builddeps".toList ∨ p.head? = some lib.config

/-- What it does for the configuration headers. -/
def ConfigOp (lib : Library) (op : Op) : Prop :=
  op.Blind ∧ ∀ p, op.changes = some p → p.head? = some lib.config

def WrapOp (lib : Library) (op : Op) : Prop :=
  FolderOp lib op ∨ ∃ gofile data, op = .writeFile (wrapperPath linux lib gofile) data

/-- Where libevent is staged for Tor. -/
def staged : Path := ["builddeps".toList, "libevent".toList]

/-- A command that works in the target folder and on the staged libevent alone. -/
def InTarget (c : Command) : Prop :=
  c.dir.head? = some linux ∧ ∀ d, c.dest = some d → d = staged

/-- The commands of a library: they work in the target folder, and a checkout is of the commit that
is locked. -/
def WrapCommand (lib : Library) (lock : Option LockJson) (c : Command) : Prop :=
  InTarget c ∧ ∀ lib' checkout, c = checkoutCommand linux lib' checkout →
    lib' = lib ∧ ∀ l, lock = some l → checkout = lib.commit l

section Kinds

variable {lib : Library} {lock : Option LockJson}

theorem InTarget.head {c : Command} (hc : InTarget c) {p : Path} (h : c.reaches p = true) :
    p.head? = some linux ∨ staged <+: p := by
  unfold Command.reaches at h
  rw [Bool.or_eq_true, beq_iff_eq, hc.1, Option.any_eq_true] at h
  refine h.imp_right ?_
  intro ⟨d, hd, hpre⟩
  rw [← hc.2 d hd]
  exact List.isPrefixOf_iff_prefix.mp hpre

theorem staged_head {p : Path} (h : staged <+: p) : p.head? = some "builddeps".toList := by
  obtain ⟨rest, rfl⟩ := h
  rfl

theorem InTarget.not_reaches {c : Command} (hc : InTarget c) {p : Path} (htarget : p.head? ≠ some linux)
    (hstaged : ¬ staged <+: p) : c.reaches p = false := by
  rw [← Bool.not_eq_true]
  intro h
  exact (hc.head h).elim htarget hstaged

theorem inTarget_started {c : Command} (hdir : c.dir.head? = some linux) (hdest : c.dest = none) :
    InTarget c := by
  refine ⟨hdir, ?_⟩
  intro d hd
  rw [hdest] at hd
  cases hd

theorem inTarget_staging {dir : Path} {words : List String} {args : List Str} (hdir : dir.head? = some linux) :
    InTarget { command dir words args with dest := some staged } :=
  ⟨hdir, fun _ hd => (Option.some.inj hd).symm⟩

theorem not_prefix_hidden {p q : Path} {top : Str} (hp : p.head? = some top)
    (htop : top ≠ "libtor".toList) (hq : hidden q = true) : ¬ p <+: q := by
  intro h
  unfold hidden at hq
  rw [Bool.and_eq_true, beq_iff_eq] at hq
  cases p with
  | nil => cases hp
  | cons part rest =>
    obtain ⟨t, rfl⟩ := h
    exact htop ((Option.some.inj hp).symm.trans (Option.some.inj hq.1))

theorem blind_of_head {op : Op} {p : Path} {top : Str} (ho : op.observes = some p)
    (hp : p.head? = some top) (htop : top ≠ "libtor".toList) : op.Blind := by
  intro r hr q hq
  obtain rfl := Option.some.inj (ho.symm.trans hr)
  exact not_prefix_hidden hp htop hq

theorem blind_of_none {op : Op} (ho : op.observes = none) : op.Blind := by
  intro q hq
  rw [ho] at hq
  cases hq

theorem folderOp_look {op : Op} (hb : op.Blind) (hc : op.changes = none) : FolderOp lib op := by
  refine ⟨hb, ?_⟩
  intro p hp
  rw [hc] at hp
  cases hp

theorem folderOp_change {op : Op} {p : Path} (hb : op.Blind) (hc : op.changes = some p)
    (hp : p.head? = some linux ∨ p.head? = some "builddeps".toList ∨ p.head? = some lib.config) :
    FolderOp lib op := by
  refine ⟨hb, ?_⟩
  intro q hq
  obtain rfl := Option.some.inj (hc.symm.trans hq)
  exact hp

theorem configOp_look {op : Op} (hb : op.Blind) (hc : op.changes = none) : ConfigOp lib op := by
  refine ⟨hb, ?_⟩
  intro p hp
  rw [hc] at hp
  cases hp

theorem configOp_change {op : Op} {p : Path} (ho : op.observes = none) (hc : op.changes = some p)
    (hp : p.head? = some lib.config) : ConfigOp lib op := by
  refine ⟨blind_of_none ho, ?_⟩
  intro q hq
  obtain rfl := Option.some.inj (hc.symm.trans hq)
  exact hp

theorem library_name_inj {lib lib' : Library} (h : lib.name = lib'.name) : lib = lib' := by
  revert h
  cases lib <;> cases lib' <;> decide

theorem checkoutCommand_inj {lib' : Library} {x y : Str}
    (h : checkoutCommand linux lib x = checkoutCommand linux lib' y) : lib = lib' ∧ x = y := by
  simp only [checkoutCommand, command, Command.mk.injEq, List.cons.injEq, and_true, true_and,
    List.append_cancel_left_eq] at h
  exact ⟨library_name_inj h.1, h.2⟩

theorem wrapCommand_checkout {x : Str} (h : ∀ l, lock = some l → x = lib.commit l) :
    WrapCommand lib lock (checkoutCommand linux lib x) := by
  refine ⟨inTarget_started rfl rfl, ?_⟩
  intro lib' y hy
  obtain ⟨rfl, rfl⟩ := checkoutCommand_inj hy
  exact ⟨rfl, h⟩

theorem wrapCommand_args {c : Command} (hc : InTarget c)
    (h : c.args.take 2 ≠ ["git".toList, "checkout".toList]) : WrapCommand lib lock c := by
  refine ⟨hc, ?_⟩
  rintro lib' x rfl
  exact absurd rfl h

theorem wrapCommand_first {dir : Path} {word : String} {words : List String} {args : List Str}
    (hdir : dir.head? = some linux) (hword : word.toList ≠ "git".toList) :
    WrapCommand lib lock (command dir (word :: words) args) := by
  refine wrapCommand_args (inTarget_started hdir rfl) ?_
  intro h
  exact hword (List.cons.inj h).1

theorem wrapCommand_second {dir : Path} {first word : String} {words : List String} {args : List Str}
    (hdir : dir.head? = some linux) (hword : word.toList ≠ "checkout".toList) :
    WrapCommand lib lock (command dir (first :: word :: words) args) := by
  refine wrapCommand_args (inTarget_started hdir rfl) ?_
  intro h
  exact hword (List.cons.inj (List.cons.inj h).2).1

/-- The parts of a name with an ending that has no slash. -/
theorem splitOn_ending (dep : Str) : ∃ init last, ∀ ending : Str, '/' ∉ ending →
    splitOn (dep ++ ending) '/' = init ++ [last ++ ending] := by
  unfold splitOn
  induction dep with
  | nil =>
    refine ⟨[], [], ?_⟩
    intro ending hslash
    rw [List.nil_append, List.splitOnP_eq_singleton]
    · rfl
    · intro c hc
      refine beq_eq_false_iff_ne.mpr ?_
      rintro rfl
      exact hslash hc
  | cons c cs ih =>
    obtain ⟨init, last, heq⟩ := ih
    by_cases hc : c = '/'
    · refine ⟨[] :: init, last, ?_⟩
      intro ending hslash
      rw [List.cons_append, List.splitOnP_cons_eq_if_modifyHead, heq ending hslash, if_pos (by simp [hc])]
      rfl
    · cases init with
      | nil =>
        refine ⟨[], c :: last, ?_⟩
        intro ending hslash
        rw [List.cons_append, List.splitOnP_cons_eq_if_modifyHead, heq ending hslash, if_neg (by simp [hc])]
        rfl
      | cons part parts =>
        refine ⟨(c :: part) :: parts, last, ?_⟩
        intro ending hslash
        rw [List.cons_append, List.splitOnP_cons_eq_if_modifyHead, heq ending hslash, if_neg (by simp [hc])]
        rfl

/-- The endings of the files that are looked for as sources. -/
def IsEnding (ending : Str) : Prop := ending = ".c".toList ∨ ending = ".c.in".toList

/-- The last part of the path of a source ends as its name does. -/
theorem join_last (dir : Path) (dep : Str) : ∃ folders stem, ∀ ending, IsEnding ending →
    join dir (dep ++ ending) = folders ++ [stem ++ ending] := by
  obtain ⟨init, last, hsplit⟩ := splitOn_ending dep
  refine ⟨((dir ++ init).foldl cleanStep []).reverse, last, ?_⟩
  intro ending hending
  have hslash : '/' ∉ ending := by
    rcases hending with rfl | rfl <;> decide
  have hpush : ∀ stack, cleanStep stack (last ++ ending) = (last ++ ending) :: stack := by
    intro stack
    have hne : ∀ s : Str, s.length ≤ 2 → s.getLast? ≠ some 'c' → last ++ ending ≠ s := by
      intro s hs hlast h
      rcases hending with rfl | rfl
      · apply hlast
        rw [← h, List.getLast?_append]
        rfl
      · have hlength := congrArg List.length h
        rw [List.length_append] at hlength
        have hin : ".c.in".toList.length = 5 := rfl
        omega
    unfold cleanStep
    rw [if_neg, if_neg (hne _ (by decide) (by decide))]
    rintro (h | h)
    · exact hne [] (by decide) (by decide) h
    · exact hne _ (by decide) (by decide) h
  unfold join
  rw [hsplit ending hslash, ← List.append_assoc, List.foldl_append, List.foldl_cons, List.foldl_nil, hpush,
    List.reverse_cons]

/-- A source that is looked for is not hidden, wherever its path leads. -/
theorem join_not_prefix_hidden (dir : Path) (dep : Str) {ending : Str}
    (hending : IsEnding ending) {q : Path} (hq : hidden q = true) : ¬ join dir (dep ++ ending) <+: q := by
  obtain ⟨folders, stem, heq⟩ := join_last dir dep
  intro h
  have hmem : stem ++ ending ∈ q := h.subset (by rw [heq ending hending]; simp)
  have hsource : isCSource (stem ++ ending) = true := by
    have hsuffix : hasSuffix (stem ++ ending) ending = true :=
      List.isSuffixOf_iff_suffix.mpr (List.suffix_append stem ending)
    unfold isCSource
    rw [Bool.or_eq_true]
    rcases hending with rfl | rfl
    · exact Or.inl hsuffix
    · exact Or.inr hsuffix
  unfold hidden at hq
  rw [Bool.and_eq_true, List.all_eq_true] at hq
  have hnot := hq.2 _ hmem
  rw [hsource] at hnot
  cases hnot

end Kinds

/-! ### What the functions of the libraries use -/

section Libraries

variable {σ A : Type} (m : Machine σ) (pk : Packages) (o : Options)

/-- What one library does after its wrappers. -/
abbrev Configures (lib : Library) (p : Gen σ A) : Prop := Uses m (ConfigOp lib) (fun _ => False) p

/-- What one library does before and after its wrappers. -/
abbrev Prepares (lib : Library) (lock : Option LockJson) (p : Gen σ A) : Prop :=
  Uses m (FolderOp lib) (WrapCommand lib lock) p

/-- The operations and commands of one library. -/
abbrev Wraps (lib : Library) (lock : Option LockJson) (p : Gen σ A) : Prop :=
  Uses m (WrapOp lib) (WrapCommand lib lock) p

variable {m pk o} {lib : Library} {lock : Option LockJson}

theorem Prepares.wraps {p : Gen σ A} (h : Prepares m lib lock p) : Wraps m lib lock p :=
  Uses.mono h (fun _ hop => Or.inl hop) fun _ hc => hc

theorem Configures.prepares {p : Gen σ A} (h : Configures m lib p) : Prepares m lib lock p :=
  Uses.mono h (fun _ hop => ⟨hop.1, fun q hq => Or.inr (Or.inr (hop.2 q hq))⟩) fun _ hc => hc.elim

theorem configures_look {op : Op} {p : Path} (answer : op.Seen → Option Damage → A)
    (ho : op.observes = some p) (hc : op.changes = none)
    (hp : p.head? = some linux ∨ p.head? = some "config".toList) : Configures m lib (act m op answer) := by
  refine uses_act answer (configOp_look ?_ hc)
  rcases hp with h | h
  · exact blind_of_head ho h (by decide)
  · exact blind_of_head ho h (by decide)

theorem configures_mkdirAll (p : Path) : Configures m lib (mkdirAll m p) :=
  uses_act _ (configOp_look (blind_of_none rfl) rfl)

theorem prepares_look {op : Op} {p : Path} (answer : op.Seen → Option Damage → A)
    (ho : op.observes = some p) (hc : op.changes = none) (hp : p.head? = some linux) :
    Prepares m lib lock (act m op answer) :=
  Configures.prepares (configures_look answer ho hc (Or.inl hp))

theorem prepares_abs (p : Path) : Prepares m lib lock (abs m p) :=
  uses_act _ (folderOp_look (blind_of_none rfl) rfl)

theorem prepares_checkoutCommit {url : String} {choose : Gen σ Str} (hchoose : Prepares m lib lock choose)
    (hlock : ∀ s x t vs, choose.Returns s x t vs → ∀ l, lock = some l → x = lib.commit l) :
    Prepares m lib lock (checkoutCommit m linux lib url choose) := by
  refine uses_checkoutCommit (wrapCommand_second rfl (by decide)) hchoose ?_
    (wrapCommand_second rfl (by decide))
  intro s x t vs hx
  exact wrapCommand_checkout (hlock s x t vs hx)

/-- The choice between the locked commit and the latest tag. -/
theorem prepares_choose {latest : Gen σ Str} (hlatest : Prepares m lib lock latest) :
    Prepares m lib lock (match lock with
      | some lock => pure (lib.commit lock)
      | none => latest) ∧
    ∀ s x t vs, Returns (match lock with
      | some lock => pure (lib.commit lock)
      | none => latest) s x t vs → ∀ l, lock = some l → x = lib.commit l := by
  cases lock with
  | none =>
    refine ⟨hlatest, ?_⟩
    intro s x t vs _ l hl
    cases hl
  | some lock =>
    refine ⟨.pure _, ?_⟩
    intro s x t vs hx l hl
    obtain rfl := Option.some.inj hl
    exact (pure_returns.mp hx).1

theorem prepares_listGitTags {repo : Path} {pattern : Str} (hrepo : repo.head? = some linux) :
    Prepares m lib lock (listGitTags m repo pattern) :=
  uses_listGitTags (wrapCommand_second hrepo (by decide))

theorem prepares_run_first {dir : Path} {word : String} {words : List String} {args : List Str}
    (hdir : dir.head? = some linux) (hword : word.toList ≠ "git".toList) :
    Prepares m lib lock (run m (command dir (word :: words) args)) :=
  uses_run (wrapCommand_first hdir hword)

theorem prepares_output_first {dir : Path} {word : String} {words : List String} {args : List Str}
    (hdir : dir.head? = some linux) (hword : word.toList ≠ "git".toList) :
    Prepares m lib lock (output m (command dir (word :: words) args)) :=
  uses_output (wrapCommand_first hdir hword)

theorem prepares_wipe {keepDir keepFile : Str → Bool} {dir : Path} {files : List Entry}
    (hdir : dir.head? = some linux) : Prepares m lib lock (wipe m keepDir keepFile dir files) := by
  have hhead : ∀ name : Str, (dir ++ [name]).head? = some linux := by
    intro name
    rw [List.head?_append, hdir]
    rfl
  exact uses_wipe (fun name => folderOp_change (blind_of_none rfl) rfl (Or.inl (hhead name)))
    (fun name => folderOp_change (blind_of_none rfl) rfl (Or.inl (hhead name)))

theorem wraps_writeWrappers {onError : Option Err → Gen σ Unit} {wrappers : List Wrapper}
    (herr : ∀ err, Wraps m lib lock (onError err)) :
    Wraps m lib lock (writeWrappers m onError linux lib wrappers) :=
  uses_writeWrappers herr fun w _ data => Or.inr ⟨w.gofile, data, rfl⟩

theorem wraps_writePreamble {onError : Option Err → Gen σ Unit}
    (herr : ∀ err, Wraps m lib lock (onError err)) :
    Wraps m lib lock (writePreamble m onError linux lib) :=
  uses_writePreamble herr fun data => Or.inr ⟨preambleFile, data, rfl⟩

theorem configures_inject {rendered : Str → Gen σ Str} {src dst : Path} {names : List Str}
    (hrendered : ∀ blob, Configures m lib (rendered blob)) (hsrc : src.head? = some "config".toList)
    (hdst : dst.head? = some lib.config) : Configures m lib (inject m rendered src dst names) := by
  refine uses_inject hrendered ?_ ?_
  · intro name
    have hhead : (src ++ [name]).head? = some "config".toList := by
      rw [List.head?_append, hsrc]
      rfl
    exact configOp_look (blind_of_head rfl hhead (by decide)) rfl
  · intro name data
    refine configOp_change rfl rfl ?_
    rw [List.head?_append, hdst]
    rfl

/-! #### zlib -/

theorem prepares_checkoutZlib : Prepares m .zlib lock (checkoutZlib m o linux lock) := by
  have hlatest : Prepares m .zlib lock (latestZlibTag m o.intSize [linux, "zlib".toList]) :=
    .bind (prepares_listGitTags rfl) fun tags => uses_checked _
  obtain ⟨hchoose, hlock⟩ := prepares_choose hlatest
  exact .bind (prepares_checkoutCommit hchoose hlock) fun commit =>
    .bind (prepares_look _ rfl rfl rfl) fun conf =>
    .bind (uses_firstSubmatch _ _) fun strver => .pure _

theorem prepares_wipeZlib : Prepares m .zlib lock (wipeZlib m [linux, "zlib".toList]) :=
  .bind (prepares_look _ rfl rfl rfl) fun _ => .bind (uses_checked _) fun files =>
    .bind (prepares_wipe rfl) fun _ => .pure files

theorem wraps_wrapZlib : Wraps m .zlib lock (wrapZlib m o linux lock) :=
  .bind prepares_checkoutZlib.wraps fun _ => .bind prepares_wipeZlib.wraps fun _ =>
    .bind (wraps_writeWrappers uses_ignore) fun _ => .bind (wraps_writePreamble uses_ignore) fun _ =>
    .pure _

/-! #### libevent -/

theorem prepares_stageLibevent : Prepares m .libevent lock (stageLibevent m o [linux, "libevent".toList]) :=
  .bind (prepares_abs _) fun path => .bind (uses_checked _) fun libeventPrefix =>
    .bind (uses_act _ (folderOp_change (blind_of_none rfl) rfl (Or.inr (Or.inl rfl)))) fun err =>
    .bind (uses_check _) fun _ => .bind (configures_mkdirAll _).prepares fun err => .bind (uses_check _) fun _ =>
    uses_run (wrapCommand_args (inTarget_staging rfl) fun h => absurd (List.cons.inj h).1 (by decide))

theorem prepares_libeventDeps (out : Str) :
    Prepares m .libevent lock (libeventDeps m [linux, "libevent".toList] out) := by
  unfold libeventDeps
  dsimp only
  split
  · exact .fail _
  · split
    · refine .bind (prepares_look _ rfl rfl rfl) fun result => ?_
      cases result with
      | found =>
        dsimp only
        split
        · exact .pure _
        · exact .pure _
      | notExist => exact .pure _
      | failed err => exact .fail _
    · exact .pure _

theorem prepares_configureLibevent : Prepares m .libevent lock (configureLibevent m o linux lock) := by
  have hlatest : Prepares m .libevent lock (latestLibeventTag m o.intSize [linux, "libevent".toList]) :=
    .bind (prepares_listGitTags rfl) fun tags => uses_checked _
  obtain ⟨hchoose, hlock⟩ := prepares_choose hlatest
  exact .bind (prepares_checkoutCommit hchoose hlock) fun commit =>
    .bind (prepares_run_first rfl (by decide)) fun _ => .bind (prepares_run_first rfl (by decide)) fun _ =>
    .bind prepares_stageLibevent fun _ => .bind (prepares_look _ rfl rfl rfl) fun conf =>
    .bind (uses_firstSubmatch _ _) fun numver => .bind (uses_firstSubmatch _ _) fun strver =>
    .bind (prepares_output_first rfl (by decide)) fun out => .bind (prepares_libeventDeps out) fun deps =>
    .pure _

theorem configures_injectLibevent {numver strver : Str} :
    Configures m .libevent (injectLibevent m pk numver strver) :=
  .bind (configures_mkdirAll _) fun _ => configures_inject uses_render rfl rfl

theorem prepares_wipeLibevent : Prepares m .libevent lock (wipeLibevent m [linux, "libevent".toList]) :=
  .bind (prepares_look _ rfl rfl rfl) fun _ => .bind (uses_checked _) fun _ =>
    prepares_wipe rfl

theorem wraps_wrapLibevent : Wraps m .libevent lock (wrapLibevent m pk o linux lock) :=
  .bind prepares_configureLibevent.wraps fun _ => .bind prepares_wipeLibevent.wraps fun _ =>
    .bind (wraps_writeWrappers uses_ignore) fun _ => .bind (wraps_writePreamble uses_ignore) fun _ =>
    .bind configures_injectLibevent.prepares.wraps fun _ => .pure _

/-! #### OpenSSL -/

theorem prepares_findGenerated (generatedDeps : List Str) (dep : Str) :
    Prepares m .openssl lock (findGenerated m [linux, "openssl".toList] generatedDeps dep) := by
  have hlook : ∀ ending : Str, IsEnding ending →
      Prepares m .openssl lock (stat m (join [linux, "openssl".toList] (dep ++ ending))) := by
    intro ending hending
    refine uses_act _ (folderOp_look ?_ rfl)
    intro p hp q hq
    obtain rfl := Option.some.inj hp
    exact join_not_prefix_hidden _ dep hending hq
  refine .bind (hlook _ (Or.inl rfl)) fun source => ?_
  cases source with
  | found => exact .pure _
  | failed err => exact .fail _
  | notExist =>
    refine .bind (hlook _ (Or.inr rfl)) fun generated => ?_
    cases generated with
    | found => exact .pure _
    | failed err => exact .fail _
    | notExist => exact .pure _

theorem prepares_opensslDeps (out : Str) :
    Prepares m .openssl lock (opensslDeps m [linux, "openssl".toList] out) := by
  unfold opensslDeps
  dsimp only
  split
  · exact .fail _
  · refine .bind (.foldlM prepares_findGenerated _ _) fun generatedDeps => .bind ?_ fun _ => .pure _
    unfold makeGenerated
    split
    · exact prepares_run_first rfl (by decide)
    · exact .pure _

theorem prepares_configureOpenSSL : Prepares m .openssl lock (configureOpenSSL m o linux lock) := by
  have hlatest : Prepares m .openssl lock (latestOpenSSLTag m o.intSize [linux, "openssl".toList]) :=
    .bind (prepares_listGitTags rfl) fun tags => uses_checked _
  obtain ⟨hchoose, hlock⟩ := prepares_choose hlatest
  have hversion : Prepares m .openssl lock (openSSLVersionData m [linux, "openssl".toList]) :=
    .bind (prepares_look _ rfl rfl rfl) fun blob => .bind (uses_check _) fun _ => uses_checked _
  exact .bind (prepares_checkoutCommit hchoose hlock) fun commit =>
    .bind (uses_output (wrapCommand_second rfl (by decide))) fun date => .bind hversion fun versionData =>
    .bind (uses_checked _) fun opensslTarget => .bind (prepares_run_first rfl (by decide)) fun _ =>
    .bind (prepares_run_first rfl (by decide)) fun _ => .bind (prepares_output_first rfl (by decide)) fun out =>
    .bind (prepares_opensslDeps out) fun deps => .pure _

theorem configures_copyHeader {name : Str} :
    Configures m .openssl (copyHeader m [linux, "openssl".toList] name) :=
  .bind (configures_look _ rfl rfl (Or.inl rfl)) fun read => .bind (uses_check read.2) fun _ =>
    .bind (uses_act _ (configOp_change rfl rfl rfl)) fun err => uses_check err

theorem configures_injectConfiguration {versionData : Fields} :
    Configures m .openssl (injectConfiguration m [linux, "openssl".toList] versionData) := by
  refine .bind (configures_look _ rfl rfl (Or.inl rfl)) fun result => ?_
  have hheader : Configures m .openssl (writeOpenSSLVersionHeader m
      ["openssl_config".toList, "openssl".toList, "opensslv.h".toList] versionData) := by
    unfold writeOpenSSLVersionHeader writeFile
    exact uses_act _ (configOp_change rfl rfl rfl)
  have hold : Configures m .openssl (inject m pure ["config".toList, "openssl".toList]
      ["openssl_config".toList, "openssl".toList] (headers "opensslconf" ["", ".x64", ".x86"])) :=
    configures_inject (fun blob => .pure blob) rfl rfl
  cases result with
  | found =>
    exact .bind configures_copyHeader fun _ => .bind configures_copyHeader fun _ =>
      .bind hheader fun err => uses_check err
  | notExist => exact hold
  | failed err => exact hold

theorem configures_injectOpenSSL {date : Str} {versionData : Fields} :
    Configures m .openssl (injectOpenSSL m pk [linux, "openssl".toList] date versionData) :=
  .bind (uses_act _ (configOp_change rfl rfl rfl)) fun err => .bind (uses_check err) fun _ =>
    .bind (configures_mkdirAll _) fun _ => .bind (configures_mkdirAll _) fun _ =>
    .bind (configures_inject (fun blob => .pure blob) rfl rfl) fun _ =>
    .bind (configures_inject (fun blob => .pure blob) rfl rfl) fun _ =>
    .bind (configures_inject uses_render rfl rfl) fun _ => configures_injectConfiguration

theorem prepares_wipeOpenSSL : Prepares m .openssl lock (wipeOpenSSL m [linux, "openssl".toList]) :=
  .bind (prepares_look _ rfl rfl rfl) fun _ => .bind (uses_checked _) fun _ =>
    prepares_wipe rfl

theorem wraps_writeOpenSSLWrappers (wrappers : List Wrapper) :
    Wraps m .openssl lock (writeOpenSSLWrappers m linux wrappers) := by
  refine .bind (wraps_writeWrappers uses_check) fun _ => ?_
  split
  · exact .fail _
  · exact .pure _

theorem wraps_wrapOpenSSL : Wraps m .openssl lock (wrapOpenSSL m pk o linux lock) :=
  .bind prepares_configureOpenSSL.wraps fun _ => .bind prepares_wipeOpenSSL.wraps fun _ =>
    .bind (wraps_writeOpenSSLWrappers _) fun _ => .bind (wraps_writePreamble uses_check) fun _ =>
    .bind configures_injectOpenSSL.prepares.wraps fun _ => .pure _

/-! #### Tor -/

theorem prepares_configureTor : Prepares m .tor lock (configureTor m linux lock) := by
  have hlatest : Prepares m .tor lock (pure "release-0.4.6".toList) := .pure _
  obtain ⟨hchoose, hlock⟩ := prepares_choose hlatest
  exact .bind (prepares_checkoutCommit hchoose hlock) fun commit =>
    .bind (prepares_run_first rfl (by decide)) fun _ => .bind (prepares_abs _) fun path =>
    .bind (uses_checked _) fun libeventPrefix =>
    .bind (uses_run (wrapCommand_args (inTarget_started rfl rfl) (by intro h; cases h))) fun _ =>
    .bind (prepares_look _ rfl rfl rfl) fun orconf => .bind (uses_firstSubmatch _ _) fun strver =>
    .bind (prepares_output_first rfl (by decide)) fun out => .pure _

theorem prepares_wipeTor : Prepares m .tor lock (wipeTor m [linux, "tor".toList]) :=
  .bind (prepares_look _ rfl rfl rfl) fun _ => .bind (uses_checked _) fun _ =>
    .bind (prepares_wipe rfl) fun _ => .bind (prepares_look _ rfl rfl rfl) fun _ =>
    .bind (uses_checked _) fun _ => .bind (prepares_wipe rfl) fun _ =>
    .bind (uses_act _ (folderOp_change (blind_of_head rfl rfl (by decide)) rfl (Or.inl rfl))) fun err =>
    .bind (uses_ignore err) fun _ => .bind (uses_act _ (folderOp_look (blind_of_none rfl) rfl)) fun err =>
    uses_check err

theorem configures_injectTor {strver : Str} : Configures m .tor (injectTor m pk strver) :=
  .bind (configures_mkdirAll _) fun _ => .bind (configures_inject uses_render rfl rfl) fun _ =>
    configures_inject (fun blob => .pure blob) rfl rfl

theorem wraps_wrapTor : Wraps m .tor lock (wrapTor m pk linux lock) :=
  .bind prepares_configureTor.wraps fun _ => .bind prepares_wipeTor.wraps fun _ =>
    .bind (wraps_writeWrappers uses_ignore) fun _ => .bind (wraps_writePreamble uses_ignore) fun _ =>
    .bind configures_injectTor.prepares.wraps fun _ => .pure _

end Libraries

end GoLibtor
