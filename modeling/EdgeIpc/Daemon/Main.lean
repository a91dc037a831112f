/-
The daemon (src/main.cpp): the producer thread that feeds the ring, the
main loop that drains it, processes the samples and raises faults, the
D-Bus worker that starts and halts the state machine, and the way out.

# The system

The parts are those of StateManager.lean, TelemetryReceiver.lean and
DataProcessor.lean, and their steps are the steps here: a thread that is
inside `push`, `pop`, `fault`, `start`, `halt` or `shutdown` takes that
operation's next shared access. In between stands the threads' own code
(`ProducerPc`, `MainPc`). Sleeps, the watchdog and the log lines are left
out, and so is the start-up before the producer thread runs: both
callbacks are installed and nobody has called anything.

What `source->read()` returns is the environment's choice, and so is when
the signal comes and which bus methods are called.

# What is added to the source

`processed` lists the frames handed to `process`. No step reads it.
-/
import EdgeIpc.Daemon.DataProcessor
import EdgeIpc.Daemon.StateManager

namespace EdgeIpc.Daemon

/-- The thread of `main`, as the state manager sees it. -/
def mainTid : Tid := 0

/-- The worker thread of the bus. -/
def busTid : Tid := 1

/-- Where the producer thread stands. -/
inductive ProducerPc where
  | check
  | read
  | pushing
  | done
  deriving DecidableEq, Repr

/-- Where `main` stands. -/
inductive MainPc (K : Type) where
  | check
  | pop
  | popping
  | process (frame : TelemetryFrame K)
  | faulting
  | stopProducer
  | join
  | shutdown
  | shuttingDown
  | clearStateCb
  | clearAlarmCb
  | stopBus
  | done
  deriving DecidableEq, Repr

/-- The bus methods that change the state. -/
inductive BusMethod where
  | start
  | halt
  deriving DecidableEq, Repr

/-- The state manager's operation behind a method. -/
def BusMethod.call {K : Type} : BusMethod → Call K
  | .start => .start
  | .halt => .halt

/-- The state shared by the three threads, and where each stands. -/
structure EdgeDaemon (K : Type) where
  sm : StateManager K
  rx : TelemetryReceiver K
  proc : DataProcessor K
  quit : Bool := false
  producerStop : Bool := false
  producer : ProducerPc := .check
  main : MainPc K := .check
  processed : List (TelemetryFrame K) := []

/-- One move of the daemon: the signal, the producer (with what the
source returns), `main`, a bus method called, the bus worker. -/
inductive DaemonAct (K : Type) where
  | signal
  | producer (frame : Option (TelemetryFrame K))
  | main
  | method (m : BusMethod)
  | bus (spurious : Bool)
  deriving DecidableEq, Repr

namespace EdgeDaemon

variable {K : Type}

-- ========================================================== the producer

/-- The producer's loop: stop flag, read, push. -/
def producerStep (movedFrom : TelemetryFrame K → TelemetryFrame K)
    (frame : Option (TelemetryFrame K)) (s : EdgeDaemon K) :
    Option (EdgeDaemon K) :=
  match s.producer with
  | .check =>
      some { s with producer := if s.producerStop then .done else .read }
  | .read =>
      match frame with
      | none => some { s with producer := .check }
      | some f =>
          (s.rx.step movedFrom (.push f)).map fun rx =>
            { s with rx, producer := .pushing }
  | .pushing =>
      (s.rx.step movedFrom .producer).map fun rx =>
        { s with
          rx
          producer := match rx.producer with
            | .idle => .check
            | _ => .pushing }
  | .done => none

-- =============================================================== the main

/-- Where `main` goes after an access of `pop`: on inside it, or to the
frame it returned, or out of the inner loop. -/
def afterPop (before after : TelemetryReceiver K) : MainPc K :=
  match after.consumer with
  | .idle =>
      match before.consumer with
      | .storeHead _ out => .process out
      | _ => .check
  | _ => .popping

/-- Where `main` goes after an access of a call of the state manager. -/
def afterCall (sm : StateManager K) (inside out : MainPc K) : MainPc K :=
  match sm.pc mainTid with
  | .idle => out
  | _ => inside

variable [Zero K] [Add K] [Sub K] [Div K] [NatCast K] [LT K] [DecidableLT K]
  [OfScientific K]

/-- `process` and, on an alarm, the call of `fault`. -/
def processFrame (s : EdgeDaemon K) (frame : TelemetryFrame K) :
    Option (EdgeDaemon K) :=
  let (proc, metric) := s.proc.process frame
  let s := { s with proc, processed := s.processed ++ [frame] }
  if metric.alarmFlag then
    (s.sm.step (.call mainTid
        (.fault ⟨metric.sensorId, metric.filteredValue, 80.0⟩))).map fun sm =>
      { s with sm, main := .faulting }
  else some { s with main := .pop }

/-- `main`: the two loops, then the way out. -/
def mainStep (movedFrom : TelemetryFrame K → TelemetryFrame K)
    (s : EdgeDaemon K) : Option (EdgeDaemon K) :=
  match s.main with
  | .check =>
      some { s with main := if s.quit then .stopProducer else .pop }
  | .pop =>
      (s.rx.step movedFrom .pop).map fun rx => { s with rx, main := .popping }
  | .popping =>
      (s.rx.step movedFrom .consumer).map fun rx =>
        { s with rx, main := afterPop s.rx rx }
  | .process frame => s.processFrame frame
  | .faulting =>
      (s.sm.step (.step mainTid false)).map fun sm =>
        { s with sm, main := afterCall sm .faulting .pop }
  | .stopProducer => some { s with producerStop := true, main := .join }
  | .join =>
      match s.producer with
      | .done => some { s with main := .shutdown }
      | _ => none
  | .shutdown =>
      (s.sm.step (.call mainTid .shutdown)).map fun sm =>
        { s with sm, main := .shuttingDown }
  | .shuttingDown =>
      (s.sm.step (.step mainTid false)).map fun sm =>
        { s with sm, main := afterCall sm .shuttingDown .clearStateCb }
  | .clearStateCb =>
      (s.sm.step (.setStateChangedCallback false)).map fun sm =>
        { s with sm, main := .clearAlarmCb }
  | .clearAlarmCb =>
      (s.sm.step (.setAlarmCallback false)).map fun sm =>
        { s with sm, main := .stopBus }
  | .stopBus =>
      -- `bus->stop()` joins the worker, which first finishes its call
      match s.sm.pc busTid with
      | .idle => some { s with main := .done }
      | _ => none
  | .done => none

-- ============================================================= the system

/-- The transition function of the daemon. -/
def step (movedFrom : TelemetryFrame K → TelemetryFrame K)
    (a : DaemonAct K) (s : EdgeDaemon K) : Option (EdgeDaemon K) :=
  match a with
  | .signal => some { s with quit := true }
  | .producer frame => s.producerStep movedFrom frame
  | .main => s.mainStep movedFrom
  | .method m =>
      match s.main with
      | .done => none
      | _ =>
          (s.sm.step (.call busTid m.call)).map fun sm =>
            { s with sm }
  | .bus spurious =>
      (s.sm.step (.step busTid spurious)).map fun sm => { s with sm }

/-- The daemon when its producer thread starts: `proc(10, 80.0, 20.0, 3)`
and both callbacks installed. -/
def init (blank : TelemetryFrame K) : EdgeDaemon K :=
  { sm := { stateChangedCb := true, alarmCb := true }
    rx := .init blank
    proc := .new 10 80.0 20.0 3 }

end EdgeDaemon

end EdgeIpc.Daemon
