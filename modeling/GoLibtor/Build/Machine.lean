import GoLibtor.Files.Store
import GoLibtor.Transition.Program

/-! What the generator runs on: the files of the repository, and a machine that answers every
command and every file operation as it likes. -/
namespace GoLibtor

open Text Files Transition

structure Command where
  dir : Path
  args : List Str
  /-- What is added to the environment of the generator. -/
  env : List Str := []
  /-- The folder of the repository that `DESTDIR` names. -/
  dest : Option Path := none
  deriving DecidableEq

/-- What a command works on: the top folder it is started in, and where it installs to. That it
neither sees nor changes other files of the repository is an assumption (`Machine.Local`). -/
def Command.reaches (c : Command) (p : Path) : Bool :=
  p.head? == c.dir.head? || c.dest.any fun d => d.isPrefixOf p

/-- The top folder a command is started in is all in its reach. -/
theorem reaches_top {c : Command} {p : Path} (hp : p.head? = c.dir.head?) : c.reaches p = true := by
  unfold Command.reaches
  rw [hp, beq_self_eq_true, Bool.true_or]

/-- A command that installs nothing works on the top folder it is started in. -/
theorem part_reaches {c : Command} (h : c.dest = none) (fs : Store) :
    part c.reaches fs = within c.dir.head? fs := by
  unfold part within Command.reaches
  simp [h]

/-- A command line with fixed words before the ones that vary. -/
def command (dir : Path) (words : List String) (args : List Str) : Command :=
  { dir := dir, args := words.map String.toList ++ args }

inductive Op
  | openFile (p : Path)
  | readFile (p : Path)
  | writeFile (p : Path) (data : Str)
  | removeAll (p : Path)
  | remove (p : Path)
  | stat (p : Path)
  | readDir (p : Path)
  | mkdirAll (p : Path)
  | removeWalk (name : Str) (p : Path)
  | walk (p : Path)
  | abs (p : Path)
  deriving DecidableEq

/-- What an operation that failed did all the same. -/
structure Damage where
  /-- What a failed read returned, or what a failed write left in the file if it touched it. -/
  data : Option Str
  /-- What a failed removal did not get to. -/
  keep : Path → Bool

/-- The answer to a command: what it printed, whether it succeeded, and the files it worked on. -/
structure Reply (σ : Type) where
  out : Str
  ok : Bool
  files : Store
  state : σ

/-- The rest of the world, `σ` being all that the generator does not see of it: other folders,
the upstream repositories, time. -/
structure Machine (σ : Type) where
  exec : σ → Store → Command → Reply σ
  goBuild : σ → Store → Bool × σ
  fault : σ → Op → Option Damage × σ
  /-- The working directory, for `filepath.Abs`. -/
  cwd : Str

structure World (σ : Type) where
  machine : σ
  files : Store

inductive Err
  | new (text : Str)
  | command (c : Command)
  | file (op : Op)
  | goBuild
  | atoi (text : Str)
  | template (text : Str)
  | json (text : Str)
  deriving DecidableEq

inductive Stop
  | returned (err : Err)
  | panic (err : Err)
  /-- The first submatch of a match that is not there. -/
  | indexOutOfRange
  deriving DecidableEq

/-- What the generator did: a command with the files it left in its reach, the build of the Go
package, a read or a listing with what it answered, and any other operation. -/
inductive Event
  | ran (c : Command) (out : Str) (ok : Bool) (files : Store)
  | built (ok : Bool)
  | read (p : Path) (data : Str) (ok : Bool)
  | listed (p : Path) (entries : List Entry) (ok : Bool)
  | did (op : Op) (failed : Option Damage)

/-- What an operation does to the files. -/
def Op.effect (fs : Store) : Op → Option Damage → Store
  | .writeFile p data, none => put fs p data
  | .writeFile p _, some d => (d.data.map (put fs p)).getD fs
  | .removeAll p, d => Files.removeAll fs p ((d.map Damage.keep).getD fun _ => false)
  | .remove p, none => Files.remove fs p
  | .removeWalk name p, d => Files.removeWalk fs name p ((d.map Damage.keep).getD fun _ => false)
  | _, _ => fs

def Event.effect (fs : Store) : Event → Store
  | .ran c _ _ files => graft c.reaches fs files
  | .did op d => op.effect fs d
  | _ => fs

/-- What an operation tells of the files, and so what its answer may depend on. -/
def Op.Seen : Op → Type
  | .openFile _ => Option Str
  | .readFile _ => Option Str
  | .stat _ => Bool
  | .readDir _ => List Entry
  | _ => Unit

def Op.see (fs : Store) : (op : Op) → op.Seen
  | .openFile p => get fs p
  | .readFile p => get fs p
  | .stat p => present fs p
  | .readDir p => Files.readDir fs p
  | .writeFile _ _ => ()
  | .removeAll _ => ()
  | .remove _ => ()
  | .mkdirAll _ => ()
  | .removeWalk _ _ => ()
  | .walk _ => ()
  | .abs _ => ()

/-- What a read answers, also when it fails. -/
def readData (content : Option Str) : Option Damage → Str
  | none => content.getD []
  | some d => d.data.getD []

def Op.event (fs : Store) (failed : Option Damage) : Op → Event
  | .readFile p => .read p (readData (get fs p) failed) failed.isNone
  | .readDir p => .listed p (Files.readDir fs p) failed.isNone
  | op => .did op failed

abbrev Gen (σ : Type) := Program (World σ) Event Stop

section Ops

variable {σ : Type} (m : Machine σ)

/-- A file that is not there cannot be read. -/
def attempt (w : World σ) (op : Op) : Option Damage × σ :=
  match op with
  | .readFile p => if get w.files p = none then (some ⟨none, fun _ => false⟩, (m.fault w.machine op).2)
      else m.fault w.machine op
  | _ => m.fault w.machine op

def act {A : Type} (op : Op) (answer : op.Seen → Option Damage → A) : Gen σ A :=
  ⟨fun w => ⟨.ok (answer (op.see w.files) (attempt m w op).1),
    ⟨(attempt m w op).2, op.effect w.files (attempt m w op).1⟩,
    [op.event w.files (attempt m w op).1]⟩⟩

/-- An error or `nil`. -/
def outcome (op : Op) (failed : Option Damage) : Option Err := failed.map fun _ => .file op

def readFile (p : Path) : Gen σ (Str × Option Err) :=
  act m (.readFile p) fun content d => (readData content d, outcome (.readFile p) d)

def writeFile (p : Path) (data : Str) : Gen σ (Option Err) :=
  act m (.writeFile p data) fun _ d => outcome (.writeFile p data) d

def removeAll (p : Path) : Gen σ (Option Err) := act m (.removeAll p) fun _ d => outcome (.removeAll p) d

def remove (p : Path) : Gen σ (Option Err) := act m (.remove p) fun _ d => outcome (.remove p) d

def mkdirAll (p : Path) : Gen σ (Option Err) := act m (.mkdirAll p) fun _ d => outcome (.mkdirAll p) d

/-- What a walk does to the folders called `name`: it removes each of them. -/
def removeWalk (name : Str) (p : Path) : Gen σ (Option Err) :=
  act m (.removeWalk name p) fun _ d => outcome (.removeWalk name p) d

/-- Whether the walk itself got through, which depends on its listings alone. -/
def walk (p : Path) : Gen σ (Option Err) := act m (.walk p) fun _ d => outcome (.walk p) d

inductive StatResult
  | found
  | notExist
  | failed (err : Err)
  deriving DecidableEq

/-- `os.Open`, as far as it tells whether the file is there. -/
def openFile (p : Path) : Gen σ StatResult :=
  act m (.openFile p) fun (content : Option Str) d =>
    match d with
    | none => if content = none then .notExist else .found
    | some _ => .failed (.file (.openFile p))

def stat (p : Path) : Gen σ StatResult :=
  act m (.stat p) fun (there : Bool) d =>
    match d with
    | none => if there then .found else .notExist
    | some _ => .failed (.file (.stat p))

def readDir (p : Path) : Gen σ (Except Err (List Entry)) :=
  act m (.readDir p) fun (entries : List Entry) d =>
    match d with
    | none => .ok entries
    | some _ => .error (.file (.readDir p))

/-- `filepath.Abs`. -/
def abs (p : Path) : Gen σ (Except Err Str) :=
  act m (.abs p) fun _ d =>
    match d with
    | none => .ok (m.cwd ++ '/' :: joinWith "/".toList p)
    | some _ => .error (.file (.abs p))

/-- `CombinedOutput` or `Run`: what the command printed, and whether it failed. -/
def combinedOutput (c : Command) : Gen σ (Str × Option Err) :=
  ⟨fun w =>
    let r := m.exec w.machine (part c.reaches w.files) c
    ⟨.ok (r.out, if r.ok then none else some (.command c)),
      ⟨r.state, graft c.reaches w.files r.files⟩, [.ran c r.out r.ok r.files]⟩⟩

/-- What is relied on of a command that is given the whole repository: it sees and changes nothing
out of its reach. -/
structure Machine.Local : Prop where
  sees : ∀ s fs gs c, part c.reaches fs = part c.reaches gs →
    (m.exec s fs c).out = (m.exec s gs c).out ∧ (m.exec s fs c).ok = (m.exec s gs c).ok ∧
      (m.exec s fs c).state = (m.exec s gs c).state ∧
      ∀ p, c.reaches p = true → get (m.exec s fs c).files p = get (m.exec s gs c).files p
  changes : ∀ s fs c p, c.reaches p = false → get (m.exec s fs c).files p = get fs p

/-- Such a command does on the whole repository what `combinedOutput` has it do on its part. -/
theorem Machine.Local.combinedOutput {m : Machine σ} (h : m.Local) (c : Command) (w : World σ) :
    ((combinedOutput m c).run w).result = .ok ((m.exec w.machine w.files c).out,
        if (m.exec w.machine w.files c).ok then none else some (.command c)) ∧
      ((combinedOutput m c).run w).state.machine = (m.exec w.machine w.files c).state ∧
      ∀ p, get ((combinedOutput m c).run w).state.files p = get (m.exec w.machine w.files c).files p := by
  have hpart : part c.reaches (part c.reaches w.files) = part c.reaches w.files := by
    unfold part
    rw [List.filter_filter]
    simp
  obtain ⟨hout, hok, hstate, hfiles⟩ := h.sees w.machine _ _ c hpart
  refine ⟨?_, hstate, ?_⟩
  · rw [← hout, ← hok]
    rfl
  · intro p
    refine (get_graft _ _ _ _).trans ?_
    cases hp : c.reaches p with
    | true => rw [if_pos rfl, hfiles p hp]
    | false => rw [if_neg Bool.false_ne_true, h.changes w.machine w.files c p hp]

def goBuild : Gen σ (Option Err) :=
  ⟨fun w =>
    let r := m.goBuild w.machine w.files
    ⟨.ok (if r.1 then none else some .goBuild), ⟨r.2, w.files⟩, [.built r.1]⟩⟩

/-- `if err != nil { return err }`. -/
def check (err : Option Err) : Gen σ Unit :=
  match err with
  | none => pure ()
  | some e => .fail (.returned e)

def checked {A : Type} (r : Except Err A) : Gen σ A :=
  match r with
  | .ok a => pure a
  | .error e => .fail (.returned e)

/-- An error that the code does not look at. -/
def ignore (_ : Option Err) : Gen σ Unit := pure ()

/-- `if err != nil { panic(err) }`. -/
def must (err : Option Err) : Gen σ Unit :=
  match err with
  | none => pure ()
  | some e => .fail (.panic e)

/-- The error a function returned makes its caller panic. -/
def Stop.toPanic : Stop → Stop
  | .returned e => .panic e
  | stop => stop

/-- Run a command that has to succeed. -/
def run (c : Command) : Gen σ Unit := do
  let (_, err) ← combinedOutput m c
  check err

/-- The output of a command that has to succeed. -/
def output (c : Command) : Gen σ Str := do
  let (out, err) ← combinedOutput m c
  check err
  pure out

end Ops

end GoLibtor
