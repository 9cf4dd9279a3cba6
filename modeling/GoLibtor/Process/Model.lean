import GoLibtor.Transition.Run
import Mathlib.Data.Int.Notation

/-! The embedded Tor process of `libtor/libtor.go`: the Go struct, its three methods,
and the goroutine that `Start` spawns, as labelled steps on one state. -/
namespace GoLibtor

/-- A `tor_main_configuration_t *`. `none` is NULL, `some h` an allocation. -/
abbrev Conf := Option ℕ

inductive CtxErr where
  | canceled
  | deadlineExceeded
  deriving DecidableEq, Repr

/-- `context.Context` as `Wait` sees it. Only a cancellable context is ever done. -/
inductive Context where
  | background
  | cancellable (err : Option CtxErr)
  deriving DecidableEq, Repr

/-- `ctx.Err()`, which is non-nil exactly when `ctx.Done()` is closed. -/
def Context.err : Context → Option CtxErr
  | .background => none
  | .cancellable err => err

/-- The first cancellation decides the error. Later ones change nothing. -/
def Context.cancel (e : CtxErr) : Context → Context
  | .cancellable none => .cancellable (some e)
  | c => c

inductive GoError where
  | alreadyStarted
  | setArguments (code : ℤ)
  | notStarted
  | context (e : CtxErr)
  | torFailed (code : ℤ)
  | controlSocket (cause : String)
  deriving DecidableEq, Repr

inductive CCall where
  | makeCharArray (args : List String)
  | setCommandLine (conf : Conf) (argv : List String)
  | setupControlSocket (conf : Conf)
  | runMain (conf : Conf)
  | runMainReturned (code : ℤ)
  | configurationFree (conf : Conf)
  | freeCharArray (args : List String)
  deriving DecidableEq, Repr

def CCall.conf : CCall → Conf
  | .setCommandLine conf _ | .setupControlSocket conf | .runMain conf
  | .configurationFree conf => conf
  | _ => none

/-- The struct `embeddedProcess`. `done` is nil, or a channel with its buffer. -/
structure EmbeddedProcess where
  ctx : Context
  conf : Conf
  args : List String
  done : Option (List ℤ)
  deriving DecidableEq, Repr

/-- Where the goroutine of `Start` stands. It carries `charArray` in its closure. -/
inductive Goroutine where
  | idle
  | spawned (charArray : List String)
  | running (charArray : List String)
  | sending (charArray : List String) (code : ℤ)
  | releasing (charArray : List String) (code : ℤ)
  | freeing (charArray : List String) (code : ℤ)
  | finished (charArray : List String) (code : ℤ)
  deriving DecidableEq, Repr

/-- A call of `Wait` sits in its `select` or has returned. A nil error is `none`. -/
inductive WaitCall where
  | selecting
  | returned (err : Option GoError)
  deriving DecidableEq, Repr

/-- The struct together with its goroutine, the `Wait` calls made on it, and what has
happened so far: the C calls, the codes of failed `Start`s, and the codes that were
put into `done` and taken out of it. -/
structure ProcState extends EmbeddedProcess where
  goroutine : Goroutine
  waits : List WaitCall
  calls : List CCall
  failed : List ℤ
  sent : List ℤ
  received : List ℤ
  deriving DecidableEq, Repr

/-- `make(chan int, 1)`. -/
def doneCapacity : ℕ := 1

/-- `embeddedCreator.New`. A nil context becomes the background context. -/
def embeddedCreatorNew (ctx : Option Context) (conf : Conf) (args : List String) : ProcState where
  ctx := ctx.getD .background
  conf := conf
  args := args
  done := none
  goroutine := .idle
  waits := []
  calls := []
  failed := []
  sent := []
  received := []

namespace ProcState

def log (p : ProcState) (cs : List CCall) : ProcState :=
  { p with calls := p.calls ++ cs }

/-- `Start`, where `code` is what `tor_main_configuration_set_command_line` answers. -/
def start (p : ProcState) (code : ℤ) : Option GoError × ProcState :=
  if p.done ≠ none then (some .alreadyStarted, p)
  else
    let args := "tor" :: p.args
    let p := p.log [.makeCharArray args, .setCommandLine p.conf args]
    if code ≠ 0 then
      let p := p.log [.configurationFree p.conf, .freeCharArray args]
      (some (.setArguments code), { p with failed := p.failed ++ [code] })
    else (none, { p with done := some [], goroutine := .spawned args })

/-- The entry of `Wait`, up to its `select`. -/
def wait (p : ProcState) : ProcState :=
  { p with waits := p.waits ++ [if p.done = none then .returned (some .notStarted) else .selecting] }

def exitError (code : ℤ) : Option GoError :=
  if code = 0 then none else some (.torFailed code)

/-- The case `<-e.ctx.Done()` of the `i`-th `Wait`. -/
def waitDone (p : ProcState) (i : ℕ) : Option ProcState :=
  match p.waits[i]?, p.ctx.err with
  | some .selecting, some e => some { p with waits := p.waits.set i (.returned (some (.context e))) }
  | _, _ => none

/-- The case `code := <-e.done` of the `i`-th `Wait`. -/
def waitReceive (p : ProcState) (i : ℕ) : Option ProcState :=
  match p.waits[i]?, p.done with
  | some .selecting, some (code :: rest) =>
    some { p with
      done := some rest
      received := p.received ++ [code]
      waits := p.waits.set i (.returned (exitError code)) }
  | _, _ => none

/-- What `EmbeddedControlConn` makes of the socket `fd`, where `net.FileConn` answers `fileConn`
for a file. A negative number is no file: `os.NewFile` is nil, and on nil `net.FileConn` panics,
which is `none` here. -/
def controlConn {Conn : Type} (fd : ℤ) (fileConn : Except String Conn) :
    Option (Except GoError Conn) :=
  if fd < 0 then none else some (fileConn.mapError .controlSocket)

/-- `EmbeddedControlConn`, where `tor_main_configuration_setup_control_socket` answers `fd`. -/
def embeddedControlConn {Conn : Type} (p : ProcState) (fd : ℤ) (fileConn : Except String Conn) :
    Option (Except GoError Conn) × ProcState :=
  (controlConn fd fileConn, p.log [.setupControlSocket p.conf])

/-- The goroutine's next step; `code` is what `tor_run_main` answers. The two deferred
calls run in the reverse of the order in which they were deferred. -/
def goroutineStep (p : ProcState) (code : ℤ) : Option ProcState :=
  match p.goroutine, p.done with
  | .spawned a, _ => some { p.log [.runMain p.conf] with goroutine := .running a }
  | .running a, _ => some { p.log [.runMainReturned code] with goroutine := .sending a code }
  | .sending a c, some buf =>
    if buf.length < doneCapacity then
      some { p with done := some (buf ++ [c]), sent := p.sent ++ [c], goroutine := .releasing a c }
    else none
  | .releasing a c, _ => some { p.log [.configurationFree p.conf] with goroutine := .freeing a c }
  | .freeing a c, _ => some { p.log [.freeCharArray a] with goroutine := .finished a c }
  | _, _ => none

end ProcState

/-- One step of a process: a call by its owner, a case of a waiting `select`, the
cancellation of its context, or the next step of its goroutine. -/
inductive Action where
  | start (code : ℤ)
  | wait
  | waitDone (i : ℕ)
  | waitReceive (i : ℕ)
  | embeddedControlConn (fd : ℤ) (fileConn : Except String Unit)
  | cancel (e : CtxErr)
  | goroutine (code : ℤ)

def ProcState.step (p : ProcState) : Action → Option ProcState
  | .start code => some (p.start code).2
  | .wait => some p.wait
  | .waitDone i => p.waitDone i
  | .waitReceive i => p.waitReceive i
  | .embeddedControlConn fd fileConn => some (p.embeddedControlConn fd fileConn).2
  | .cancel e => some { p with ctx := p.ctx.cancel e }
  | .goroutine code => p.goroutineStep code

def Reaches (ctx : Option Context) (conf : Conf) (args : List String) (acts : List Action)
    (p : ProcState) : Prop :=
  Transition.run ProcState.step (embeddedCreatorNew ctx conf args) acts = some p

end GoLibtor
