/-
The D-Bus object (src/DaemonBus.cpp), on top of the daemon of Main.lean:
the handlers that answer with data, `RunDiagnostics` and the property
`CurrentState`. `Start` and `Halt` are the methods of Main.lean.

# The worker

One thread takes the messages off the bus and runs one handler at a time.
So no method is taken up while a handler is inside, and `stop`, which
joins the thread, waits for it. `method_diagnostics` reads the resident
size, the counter, the clock and the state, in this order, and the other
threads run in between (`WorkerPc`). `prop_current_state` has one shared
access.

What `/proc/self/status` and the clock say is the environment's choice.
`sm_weak.lock()` succeeds: `main` holds the manager until after the join.

# What is added to the source

`called` and `loaded` are the numbers of frames processed when the call
is taken up and when the counter is read, and `replies` lists what the
handlers returned. No step reads them.
-/
import EdgeIpc.Daemon.Main

namespace EdgeIpc.Daemon

/-- `DaemonBus::Impl`, as far as the handlers read it; the clock in
nanoseconds. -/
structure Impl where
  processedCount : BitVec 64 := 0#64
  startTime : Int
  deriving DecidableEq, Repr

/-- The reply `"(ttst)"`. -/
structure Diagnostics where
  rss : BitVec 64
  cnt : BitVec 64
  stateStr : String
  uptime : BitVec 64
  deriving DecidableEq, Repr

/-- What a handler returned. -/
inductive Reply where
  | diagnostics (d : Diagnostics) (called loaded : Nat)
  | currentState (s : String)
  deriving DecidableEq, Repr

/-- Where the worker stands in `method_diagnostics`. -/
inductive WorkerPc where
  | idle
  | rss (called : Nat)
  | cnt (called : Nat) (rss : BitVec 64)
  | uptime (called loaded : Nat) (rss cnt : BitVec 64)
  | stateStr (called loaded : Nat) (rss cnt uptime : BitVec 64)
  deriving DecidableEq, Repr

/-- The daemon with its bus object. -/
structure DaemonBus (K : Type) where
  daemon : EdgeDaemon K
  impl : Impl
  worker : WorkerPc := .idle
  replies : List Reply := []

/-- One move: of the daemon, a call of `RunDiagnostics` taken up, the
worker inside it (with what the system says), a read of the property. -/
inductive BusAct (K : Type) where
  | daemon (a : DaemonAct K)
  | runDiagnostics
  | worker (rssKb : BitVec 64) (now : Int)
  | getCurrentState
  deriving DecidableEq, Repr

namespace DaemonBus

variable {K : Type}

/-- The worker runs, and is in no handler. -/
def workerFree (s : DaemonBus K) : Bool :=
  match s.daemon.main, s.worker, s.daemon.sm.pc busTid with
  | .done, _, _ => false
  | _, .idle, .idle => true
  | _, _, _ => false

/-- The moves of the daemon that a worker inside `method_diagnostics`
holds up: its own, and the join. -/
def heldUp (s : DaemonBus K) (a : DaemonAct K) : Bool :=
  match s.worker with
  | .idle => false
  | _ =>
      match a with
      | .method _ | .bus _ => true
      | .main =>
          match s.daemon.main with
          | .stopBus => true
          | _ => false
      | _ => false

/-- `duration_cast<seconds>(now - start_time)`, as `uint64_t`. -/
def uptime (impl : Impl) (now : Int) : BitVec 64 :=
  BitVec.ofInt 64 ((now - impl.startTime).tdiv 1000000000)

/-- `method_diagnostics`, one access at a time. -/
def methodDiagnostics (rssKb : BitVec 64) (now : Int) (s : DaemonBus K) :
    Option (DaemonBus K) :=
  match s.worker with
  | .idle => none
  | .rss called => some { s with worker := .cnt called rssKb }
  | .cnt called rss =>
      some { s with
        worker := .uptime called s.daemon.processed.length rss
          s.impl.processedCount }
  | .uptime called loaded rss cnt =>
      some { s with
        worker := .stateStr called loaded rss cnt (uptime s.impl now) }
  | .stateStr called loaded rss cnt uptime =>
      let stateStr := stateToString s.daemon.sm.state
      some { s with
        worker := .idle
        replies := s.replies
          ++ [.diagnostics ⟨rss, cnt, stateStr, uptime⟩ called loaded] }

/-- `prop_current_state`. -/
def propCurrentState (s : DaemonBus K) : DaemonBus K :=
  { s with
    replies := s.replies
      ++ [.currentState (stateToString s.daemon.sm.state)] }

variable [Zero K] [Add K] [Sub K] [Div K] [NatCast K] [LT K] [DecidableLT K]
  [OfScientific K]

/-- The transition function of the daemon with its bus. -/
def step (movedFrom : TelemetryFrame K → TelemetryFrame K)
    (a : BusAct K) (s : DaemonBus K) : Option (DaemonBus K) :=
  match a with
  | .daemon a =>
      if s.heldUp a then none
      else (s.daemon.step movedFrom a).map fun daemon => { s with daemon }
  | .runDiagnostics =>
      if s.workerFree then
        some { s with worker := .rss s.daemon.processed.length }
      else none
  | .worker rssKb now => s.methodDiagnostics rssKb now
  | .getCurrentState =>
      if s.workerFree then some s.propCurrentState else none

/-- The bus object when the producer thread starts. -/
def init (blank : TelemetryFrame K) (startTime : Int) : DaemonBus K where
  daemon := .init blank
  impl := { startTime }

end DaemonBus

end EdgeIpc.Daemon
