import GoLibtor.Process.Model
import GoLibtor.Process.TorApi

/-! The processes of `libtor/libtor.go` on the memory of their program: the same methods and
the same goroutine as in the model of one process, with the pointers that they hold and the
C code that they call. -/
namespace GoLibtor

open Memory Transition Transition.Program

/-- Where the goroutine of `Start` stands. Its closure holds `charArray` and `len(args)`, and
Tor holds its own `argv` while it runs. -/
inductive Thread where
  | idle
  | spawned (charArray : Ptr) (size : ℤ)
  | running (charArray : Ptr) (size : ℤ) (argv : Ptr)
  | sending (charArray : Ptr) (size : ℤ) (code : ℤ)
  | releasing (charArray : Ptr) (size : ℤ) (code : ℤ)
  | freeing (charArray : Ptr) (size : ℤ) (code : ℤ)
  | finished (code : ℤ)
  deriving DecidableEq, Repr

/-- The struct, its goroutine, the calls of `Wait` made on it, and what
`tor_main_configuration_setup_control_socket` has answered, call by call. -/
structure LiveProcess extends EmbeddedProcess where
  thread : Thread
  waits : List WaitCall
  sockets : List ℤ
  deriving DecidableEq, Repr

def liveProcessNew (ctx : Option Context) (conf : Ptr) (args : List String) : LiveProcess where
  ctx := ctx.getD .background
  conf := conf
  args := args
  done := none
  thread := .idle
  waits := []
  sockets := []

namespace LiveProcess

/-- The body of the loop of `Start`. -/
def setArg (charArray : Ptr) (arg : String × ℕ) : CCode PUnit := do
  let s ← cString arg.1
  setArrayString charArray s (cInt arg.2)

/-- `Start`, where `calloc` says whether there is memory for the array. -/
def start (p : LiveProcess) (calloc : Bool) : CCode (Option GoError × LiveProcess) :=
  if p.done ≠ none then pure (some .alreadyStarted, p)
  else do
    let args := "tor" :: p.args
    let charArray ← makeCharArray calloc (cInt args.length)
    args.zipIdx.forM (setArg charArray)
    let code ← torMainConfigurationSetCommandLine p.conf (cInt args.length) charArray
    if code ≠ 0 then do
      torMainConfigurationFree p.conf
      freeCharArray charArray (cInt args.length)
      pure (some (.setArguments code), p)
    else
      pure (none, { p with done := some [], thread := .spawned charArray (cInt args.length) })

def wait (p : LiveProcess) : LiveProcess :=
  { p with waits := p.waits ++ [if p.done = none then .returned (some .notStarted) else .selecting] }

def waitDone (p : LiveProcess) (i : ℕ) : Option LiveProcess :=
  match p.waits[i]?, p.ctx.err with
  | some .selecting, some e => some { p with waits := p.waits.set i (.returned (some (.context e))) }
  | _, _ => none

def waitReceive (p : LiveProcess) (i : ℕ) : Option LiveProcess :=
  match p.waits[i]?, p.done with
  | some .selecting, some (code :: rest) =>
    some { p with done := some rest, waits := p.waits.set i (.returned (ProcState.exitError code)) }
  | _, _ => none

/-- `EmbeddedControlConn`, where `net.FileConn` answers `fileConn` for the new socket. -/
def embeddedControlConn {Conn : Type} (p : LiveProcess) (ans : SocketAnswers)
    (fileConn : Except String Conn) : CCode (Option (Except GoError Conn) × LiveProcess) := do
  let fd ← torMainConfigurationSetupControlSocket p.conf ans
  pure (ProcState.controlConn fd fileConn, { p with sockets := p.sockets ++ [fd] })

/-- The goroutine's next step; `code` is what `tor_run_main` answers. -/
def goroutineStep (p : LiveProcess) (code : ℤ) : Option (CCode LiveProcess) :=
  match p.thread, p.done with
  | .spawned a n, _ => some do
    let argv ← torRunMainArgv p.conf
    pure { p with thread := .running a n argv }
  | .running a n argv, _ => some do
    torRunMainDone argv
    pure { p with thread := .sending a n code }
  | .sending a n c, some buf =>
    if buf.length < doneCapacity then
      some (pure { p with done := some (buf ++ [c]), thread := .releasing a n c })
    else none
  | .releasing a n c, _ => some do
    torMainConfigurationFree p.conf
    pure { p with thread := .freeing a n c }
  | .freeing a n c, _ => some do
    freeCharArray a n
    pure { p with thread := .finished c }
  | _, _ => none

end LiveProcess

inductive LiveAction where
  | start (calloc : Bool)
  | wait
  | waitDone (i : ℕ)
  | waitReceive (i : ℕ)
  | embeddedControlConn (ans : SocketAnswers) (fileConn : Except String Unit)
  | cancel (e : CtxErr)
  | goroutine (code : ℤ)

/-- The kernel makes a pair of two numbers that stand for nothing. -/
def LiveAction.Possible (d : Descriptors FdObject) : LiveAction → Prop
  | .embeddedControlConn ans _ =>
    match ans.socketpair with
    | none => True
    | some (fd0, fd1) => fd0 ≠ fd1 ∧ d fd0 = none ∧ d fd1 = none
  | _ => True

instance (d : Descriptors FdObject) (a : LiveAction) : Decidable (a.Possible d) := by
  unfold LiveAction.Possible
  split
  · split <;> infer_instance
  · infer_instance

def LiveProcess.step (p : LiveProcess) : LiveAction → Option (CCode LiveProcess)
  | .start calloc => some do
    let r ← p.start calloc
    pure r.2
  | .wait => some (pure p.wait)
  | .waitDone i => (p.waitDone i).map pure
  | .waitReceive i => (p.waitReceive i).map pure
  | .embeddedControlConn ans fileConn => some do
    let r ← p.embeddedControlConn ans fileConn
    pure r.2
  | .cancel e => some (pure { p with ctx := p.ctx.cancel e })
  | .goroutine code => p.goroutineStep code

/-- A Go program: the processes it made, in the order of their `New`, and its memory. -/
structure Host where
  procs : List LiveProcess
  world : TorWorld

def Host.initial : Host := ⟨[], Heap.empty, Descriptors.empty⟩

/-- A call of `New`, a step of the `i`-th process, or whatever else in the program (Tor
included) opens and closes descriptors. -/
inductive HostAction where
  | new (ctx : Option Context) (malloc : Bool) (args : List String)
  | on (i : ℕ) (a : LiveAction)
  | openOther (n : ℕ)
  | closeOther (n : ℕ)

namespace Host

def resume {α : Type} (h : Host) (c : CCode α) (k : α → List LiveProcess) : Except Fault Host :=
  match c.run h.world with
  | ⟨.ok a, w, _⟩ => .ok ⟨k a, w⟩
  | ⟨.error f, _, _⟩ => .error f

/-- What a step leads to; `none` when it is not enabled. -/
def next (h : Host) : HostAction → Option (Except Fault Host)
  | .new ctx malloc args =>
    some (h.resume (torMainConfigurationNew malloc) fun conf =>
      h.procs ++ [liveProcessNew ctx conf args])
  | .on i a =>
    match h.procs[i]? with
    | none => none
    | some p =>
      if a.Possible h.world.fds then
        (p.step a).map fun c => h.resume c fun q => h.procs.set i q
      else none
  | .openOther n =>
    if h.world.fds n = none then
      some (.ok { h with world.fds := h.world.fds.openAt n .other })
    else none
  | .closeOther n => some (.ok { h with world.fds := h.world.fds.close n })

def step (h : Host) (a : HostAction) : Option Host := (h.next a).bind Except.toOption

end Host

def HostReaches (acts : List HostAction) (h : Host) : Prop :=
  Transition.run Host.step Host.initial acts = some h

end GoLibtor
