/-
A worker node (secure_distributed_node/src/TelemetryNode.cpp): `Start`
and `Stop`, the producer thread's loop, and the two service calls.

# The system

The parts are those of the daemon and of StreamQueue.lean, and their
steps are the steps here: a thread inside `fsm_->start()`,
`receiver_->push` and so on takes that operation's next shared access. In
between stands the node's own code, one shared access a step: the control
thread that calls `Start` and `Stop` (`ControlPc`), the producer thread
(`ProducerPc`) and any number of `GetNodeStatus` and `StreamTelemetry`
calls. `Start` and `Stop` are called one after the other, from one thread.

What `src.read()` returns, the clock, the arrival of calls and a spurious
failure of the weak compare-exchange are the environment's choices. The
gRPC server is whether it exists: building it succeeds, draining it ends.
`last_raw_` and `alarm_active_` are written and never read, so they are
left out, and the callbacks that write them only stand installed.

# What is added to the source

`processed` lists the frames handed to `process`, `starts` the calls of
`Start` that ended, with what the node looked like before and after,
`entry` what it looked like when the current one was made, `statuses` the
answers given. No step reads them.
-/
import EdgeIpc.Daemon.DataProcessor
import EdgeIpc.Daemon.StateManager
import EdgeIpc.Sdn.StreamQueue
import Mathlib.Algebra.Field.Defs
import Mathlib.Algebra.Group.Nat.Defs
import Mathlib.Data.Rat.Cast.OfScientific
import Mathlib.Order.Defs.LinearOrder

namespace EdgeIpc.Sdn

open Daemon

-- ============================================================== the types

/-- `struct ProcessedSnapshot`. -/
structure ProcessedSnapshot (K : Type) where
  nodeId : String
  rawValue : K
  filteredValue : K
  alarmActive : Bool
  fsmState : String
  timestampMs : Int
  deriving DecidableEq, Repr

/-- The answer of `GetNodeStatus`. -/
structure NodeStatus (K : Type) where
  nodeId : String
  fsmState : String
  processedCount : Nat
  lastValue : K
  deriving DecidableEq, Repr

/-- The thread that calls `Start` and `Stop`, as the state manager sees
it. -/
def controlTid : Tid := 0

/-- The thread of `ProducerLoop`. -/
def producerTid : Tid := 1

/-- Where the control thread stands. -/
inductive ControlPc where
  | idle
  | startExchange
  | startFsm
  | inStart
  | spawn
  | build
  | stopExchange
  | stopServer
  | join
  | stopFsm
  | inShutdown
  deriving DecidableEq, Repr

/-- Where the producer thread stands; `absent` when `producer_thread_` is
not joinable. -/
inductive ProducerPc (K : Type) where
  | absent
  | check
  | read
  | pushing
  | pop
  | popping
  | process (frame : TelemetryFrame K)
  | store (frame : TelemetryFrame K) (metric : ProcessedMetric K)
  | loadState (frame : TelemetryFrame K) (metric : ProcessedMetric K)
  | faulting (frame : TelemetryFrame K) (metric : ProcessedMetric K)
  | count (frame : TelemetryFrame K) (metric : ProcessedMetric K)
  | snapState (frame : TelemetryFrame K) (metric : ProcessedMetric K)
  | push (snap : ProcessedSnapshot K)
  | finished

/-- Where a `GetNodeStatus` call stands. -/
inductive StatusPc where
  | absent
  | readState
  | readCount (fsmState : String)
  | readValue (fsmState : String) (processedCount : Nat)
  deriving DecidableEq, Repr

/-- What `producer_thread_` is: not joinable, in `ProducerLoop`, or
joinable with the loop left. -/
inductive ThreadState where
  | none | looping | finished
  deriving DecidableEq, Repr

/-- What `Start` and `Stop` change: `running_`, the producer thread,
whether the server exists, the FSM's state. -/
structure NodeView where
  running : Bool
  thread : ThreadState
  server : Bool
  fsm : DaemonState
  deriving DecidableEq, Repr

/-- A call of `Start` that has ended. -/
structure StartRecord where
  threw : Bool
  before : NodeView
  after : NodeView
  deriving DecidableEq, Repr

/-- The node and the threads inside it. -/
structure TelemetryNode (K : Type) where
  nodeId : String
  fsm : StateManager K
  receiver : TelemetryReceiver K
  processor : DataProcessor K
  stream : StreamQueue (ProcessedSnapshot K) := .init
  running : Bool := false
  processedCount : Nat := 0
  lastFiltered : K
  server : Bool := false
  control : ControlPc := .idle
  producer : ProducerPc K := .absent
  calls : Nat → StatusPc := fun _ => .absent
  processed : List (TelemetryFrame K) := []
  entry : NodeView := ⟨false, .none, false, .idle⟩
  starts : List StartRecord := []
  statuses : List (NodeStatus K) := []

/-- One move: `Start` or `Stop` called, the control thread, the producer
thread (with what the source and the clock say), a step of the stream's
calls, a `GetNodeStatus` call made, such a call's next step. -/
inductive NodeAct (K : Type) where
  | start
  | stop
  | control (spurious : Bool)
  | producer (frame : Option (TelemetryFrame K)) (nowMs : Int)
  | stream (a : StreamAct (ProcessedSnapshot K))
  | getNodeStatus (c : Nat)
  | status (c : Nat)

namespace TelemetryNode

variable {K : Type}

-- ====================================================== `Start` and `Stop`

def thread : ProducerPc K → ThreadState
  | .absent => .none
  | .finished => .finished
  | _ => .looping

def view (s : TelemetryNode K) : NodeView :=
  ⟨s.running, thread s.producer, s.server, s.fsm.state⟩

/-- `Start` ends, by returning or by letting an exception through. -/
def endStart (s : TelemetryNode K) (threw : Bool) : TelemetryNode K :=
  { s with
    control := .idle
    starts := s.starts ++ [⟨threw, s.entry, s.view⟩] }

/-- Whether the next access of a call of `fsm_->start()` throws: the two
checks at the head of its loop. -/
def throws : Pc K → Bool
  | .startLoop .running => true
  | .startLoop .shutdown => true
  | _ => false

/-- An access of `fsm_->start()`: on inside it, out by an exception, or
on to the producer thread. -/
def startFsm (s : TelemetryNode K) (spurious : Bool) :
    Option (TelemetryNode K) :=
  (s.fsm.step (.step controlTid spurious)).map fun fsm =>
    match fsm.pc controlTid with
    | .idle =>
        if throws (s.fsm.pc controlTid) then
          ({ s with fsm } : TelemetryNode K).endStart true
        else { s with fsm, control := .spawn }
    | _ => { s with fsm }

/-- The control thread: `Start` and `Stop`, access by access. -/
def controlStep (spurious : Bool) (s : TelemetryNode K) :
    Option (TelemetryNode K) :=
  match s.control with
  | .idle => none
  | .startExchange =>
      if s.running then some (s.endStart false)
      else some { s with running := true, control := .startFsm }
  | .startFsm =>
      (s.fsm.step (.call controlTid .start)).map fun fsm =>
        { s with fsm, control := .inStart }
  | .inStart => s.startFsm spurious
  | .spawn =>
      match s.producer with
      | .absent => some { s with producer := .check, control := .build }
      -- assigning over a joinable thread ends the program
      | _ => none
  | .build => some (({ s with server := true }).endStart false)
  | .stopExchange =>
      some { s with
        running := false
        control := if s.running then .stopServer else .idle }
  | .stopServer => some { s with server := false, control := .join }
  | .join =>
      match s.producer with
      | .absent => some { s with control := .stopFsm }
      | .finished => some { s with producer := .absent, control := .stopFsm }
      | _ => none
  | .stopFsm =>
      (s.fsm.step (.call controlTid .shutdown)).map fun fsm =>
        { s with fsm, control := .inShutdown }
  | .inShutdown =>
      (s.fsm.step (.step controlTid false)).map fun fsm =>
        { s with
          fsm
          control := match fsm.pc controlTid with
            | .idle => .idle
            | _ => .inShutdown }

-- ======================================================= `GetNodeStatus`

/-- `GetNodeStatus`: the three loads, then the answer. -/
def statusStep (c : Nat) (s : TelemetryNode K) : Option (TelemetryNode K) :=
  let goto (p : StatusPc) := fun d => if d = c then p else s.calls d
  match s.calls c with
  | .absent => none
  | .readState =>
      some { s with calls := goto (.readCount (stateToString s.fsm.state)) }
  | .readCount st =>
      some { s with calls := goto (.readValue st s.processedCount) }
  | .readValue st n =>
      some { s with
        calls := goto .absent
        statuses := s.statuses ++ [⟨s.nodeId, st, n, s.lastFiltered⟩] }

-- =========================================================== the producer

/-- Where the producer goes after an access of `pop`: on inside it, or to
the frame it returned, or out of the inner loop. -/
def afterPop (before after : TelemetryReceiver K) : ProducerPc K :=
  match after.consumer with
  | .idle =>
      match before.consumer with
      | .storeHead _ out => .process out
      | _ => .check
  | _ => .popping

/-- The snapshot of a frame and its metric, in a given state. -/
def snapshot (s : TelemetryNode K) (frame : TelemetryFrame K)
    (metric : ProcessedMetric K) (nowMs : Int) : ProcessedSnapshot K :=
  { nodeId := s.nodeId
    rawValue := frame.value
    filteredValue := metric.filteredValue
    alarmActive := metric.alarmFlag
    fsmState := stateToString s.fsm.state
    timestampMs := nowMs }

variable [Field K] [LinearOrder K]

/-- `processor_->process(frame)`. -/
def processFrame (s : TelemetryNode K) (frame : TelemetryFrame K) :
    TelemetryNode K :=
  let (processor, metric) := s.processor.process frame
  { s with
    processor
    processed := s.processed ++ [frame]
    producer := .store frame metric }

/-- `ProducerLoop`. -/
def producerStep (movedFrom : TelemetryFrame K → TelemetryFrame K)
    (frame : Option (TelemetryFrame K)) (nowMs : Int)
    (s : TelemetryNode K) : Option (TelemetryNode K) :=
  match s.producer with
  | .absent => none
  | .check =>
      some { s with producer := if s.running then .read else .finished }
  | .read =>
      match frame with
      | none => some { s with producer := .pop }
      | some f =>
          (s.receiver.step movedFrom (.push f)).map fun receiver =>
            { s with receiver, producer := .pushing }
  | .pushing =>
      (s.receiver.step movedFrom .producer).map fun receiver =>
        { s with
          receiver
          producer := match receiver.producer with
            | .idle => .pop
            | _ => .pushing }
  | .pop =>
      (s.receiver.step movedFrom .pop).map fun receiver =>
        { s with receiver, producer := .popping }
  | .popping =>
      (s.receiver.step movedFrom .consumer).map fun receiver =>
        { s with receiver, producer := afterPop s.receiver receiver }
  | .process f => some (s.processFrame f)
  | .store f metric =>
      some { s with
        lastFiltered := metric.filteredValue
        producer :=
          if metric.alarmFlag then .loadState f metric else .count f metric }
  | .loadState f metric =>
      if s.fsm.state = .running then
        (s.fsm.step (.call producerTid
            (.fault ⟨metric.sensorId, f.value, 80.0⟩))).map fun fsm =>
          { s with fsm, producer := .faulting f metric }
      else some { s with producer := .count f metric }
  | .faulting f metric =>
      (s.fsm.step (.step producerTid false)).map fun fsm =>
        { s with
          fsm
          producer := match fsm.pc producerTid with
            | .idle => .count f metric
            | _ => .faulting f metric }
  | .count f metric =>
      some { s with
        processedCount := (s.processedCount + 1) % 2 ^ 64
        producer := .snapState f metric }
  | .snapState f metric =>
      some { s with producer := .push (s.snapshot f metric nowMs) }
  | .push snap =>
      (s.stream.step (.push snap)).map fun stream =>
        { s with stream, producer := .pop }
  | .finished => none

-- ============================================================= the system

/-- The transition function of the node. -/
def step (movedFrom : TelemetryFrame K → TelemetryFrame K)
    (a : NodeAct K) (s : TelemetryNode K) : Option (TelemetryNode K) :=
  match a with
  | .start =>
      match s.control with
      | .idle => some { s with control := .startExchange, entry := s.view }
      | _ => none
  | .stop =>
      match s.control with
      | .idle => some { s with control := .stopExchange }
      | _ => none
  | .control spurious => s.controlStep spurious
  | .producer frame nowMs => s.producerStep movedFrom frame nowMs
  | .stream a =>
      match a with
      | .push _ => none
      | a => (s.stream.step a).map fun stream => { s with stream }
  | .getNodeStatus c =>
      match s.calls c with
      | .absent =>
          some { s with
            calls := fun d => if d = c then .readState else s.calls d }
      | _ => none
  | .status c => s.statusStep c

/-- The constructor: `DataProcessor()` with its default arguments, both
callbacks installed. -/
def init (nodeId : String) (blank : TelemetryFrame K) : TelemetryNode K :=
  { nodeId
    fsm := { stateChangedCb := true, alarmCb := true }
    receiver := .init blank
    processor := .new 10 80.0 20.0 3
    lastFiltered := 0 }

end TelemetryNode

end EdgeIpc.Sdn
