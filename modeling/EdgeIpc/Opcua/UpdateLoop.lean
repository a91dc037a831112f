/-
The update loop of the OPC UA server
(opcua_edge_server/src/update_loop.c): the thread that samples the nine
simulated sensors at every expiry of a timer and puts the values where
the read callbacks find them.

# The memory

`g_running`, `g_tick_count` and `g_node_values` are atomic and most
accesses to them relaxed, so a load need not return the newest value.
They are locations of Coherent.lean: a load returns any value from the
thread's position on, and how far it reaches back is the environment's
choice. `pthread_create` and `pthread_join` are the only edges between
the threads. `g_seeds` belongs to the update thread.

# The system

`update_loop_start` and `update_loop_stop` are called by one thread, in
turn: the program of server_main.c and the tests. A second start without
a stop would put two threads on the same seeds, and a stop without a
thread would join nothing; neither is a move here. Any number of threads
call `data_source_get` (the read callbacks make the same load) and
`update_loop_tick_count`.

What the timer says, whether it can be made and whether the thread can be
created is the environment's choice. The priority of the thread and the
message on an overrun are left out, and so is `data_source_set` by
another thread than the update thread: the server has no such call, but
test_update_loop.cpp makes one.

# What is added to the source

`rounds` has the tick of every round begun, since the process started;
`elapsed` the expirations read since the last start; `reads` what was
read, by whom, and at which position of the node's location. No step
reads them.
-/
import EdgeIpc.Lib.Coherent
import EdgeIpc.Opcua.TelemetrySim
import Mathlib.Algebra.Group.Nat.Defs

namespace EdgeIpc.Opcua

open Lib

-- ============================================================== the types

/-- `client 0` is the thread that starts and stops the loop. -/
inductive Thread where
  | client (n : Nat)
  | update
deriving DecidableEq, Repr

/-- The atomic locations. -/
inductive Loc where
  | running
  | tickCount
  | node (idx : CncNodeIdx)
deriving DecidableEq, Repr

/-- What they hold. -/
abbrev Loc.Val : Loc → Type
  | .running => Bool
  | .tickCount => Nat
  | .node _ => Float32Bits

/-- Where the thread stands that starts and stops the loop. -/
inductive ControlPc where
  | idle
  | startTicks
  | create
  | join
deriving DecidableEq, Repr

/-- Where the update thread stands; `absent` when there is none to join.
In `sets` the nodes named are still to be set, then the tick count. -/
inductive ThreadPc where
  | absent
  | boot
  | check (tick : Nat)
  | read (tick : Nat)
  | sets (todo : List CncNodeIdx) (tick : Nat)
  | finished
deriving DecidableEq, Repr

/-- A value read from a node. -/
structure NodeRead where
  client : Nat
  idx : CncNodeIdx
  position : Nat
  value : Float32Bits
deriving DecidableEq, Repr

structure UpdateLoop where
  mem : Memory Thread Loc.Val
  seeds : CncNodeIdx → UInt32
  control : ControlPc := .idle
  thread : ThreadPc := .absent
  rounds : List Nat := []
  elapsed : List Nat := []
  reads : List NodeRead := []

/-- One move: the loop started or stopped, the next access of that call,
the update thread (whether the timer could be made, how far its load
reaches back, what the timer says), a node or the tick count read. -/
inductive LoopAct where
  | start
  | stop
  | control (created : Bool)
  | thread (opened : Bool) (back : Nat) (exp : Option Nat)
  | get (client : Nat) (idx : CncNodeIdx) (back : Nat)
  | tickCount (client : Nat) (back : Nat)
deriving DecidableEq, Repr

-- ============================================================= the sensors

/-- `g_seeds`, as initialised. -/
def gSeeds : CncNodeIdx → UInt32
  | .spindleTemp => 0xDEAD
  | .spindleTorque => 0xBEEF
  | .spindleSpeed => 0xCAFE
  | .vibrationX => 0xBABE
  | .vibrationY => 0xFACE
  | .vibrationZ => 0xD00D
  | .axisX => 0xF00D
  | .axisY => 0xACE1
  | .axisZ => 0xB00B

/-- The order of the sets in `update_all_nodes`. -/
def updateOrder : List CncNodeIdx :=
  [.spindleTemp, .spindleTorque, .spindleSpeed, .vibrationX, .vibrationY,
    .vibrationZ, .axisX, .axisY, .axisZ]

section

variable {D : Type} [Add D] [Sub D] [Mul D] [Div D] [Neg D]
  [OfScientific D] (L : Libm D)

/-- What `update_all_nodes` sets a node to, and the seed left behind; the
axis positions take none. -/
def Libm.sample (idx : CncNodeIdx) (t : D) (seed : UInt32) :
    Float32Bits × UInt32 :=
  match idx with
  | .spindleTemp => L.telemetryTemperature t seed
  | .spindleTorque => L.telemetryTorque t seed
  | .spindleSpeed => L.telemetrySpindleSpeed t seed
  | .vibrationX => L.telemetryVibration t 0 seed
  | .vibrationY => L.telemetryVibration t 1 seed
  | .vibrationZ => L.telemetryVibration t 2 seed
  | .axisX => (L.telemetryAxisPosition t 0, seed)
  | .axisY => (L.telemetryAxisPosition t 1, seed)
  | .axisZ => (L.telemetryAxisPosition t 2, seed)

/-- `(double)tick * 0.001`. -/
def Libm.seconds (tick : Nat) : D := L.ofNat tick * 0.001

namespace UpdateLoop

-- ======================================================= the update thread

/-- One `data_source_set` of `update_all_nodes`. -/
def setNode (s : UpdateLoop) (idx : CncNodeIdx) (tick : Nat) : UpdateLoop :=
  let (val, seed) := L.sample idx (L.seconds tick) (s.seeds idx)
  { s with
    mem := s.mem.store .update (.node idx) val
    seeds := fun i => if i = idx then seed else s.seeds i }

/-- What the loop does about `g_running`. -/
def afterCheck (tick : Nat) : Bool → ThreadPc
  | true => .read tick
  | false => .finished

/-- `update_thread`. -/
def threadStep (opened : Bool) (back : Nat) (exp : Option Nat)
    (s : UpdateLoop) : Option UpdateLoop :=
  match s.thread with
  | .absent => none
  | .boot => some { s with thread := if opened then .check 0 else .finished }
  | .check tick =>
      (s.mem.load .update .running back).map fun (g, mem) =>
        { s with mem, thread := afterCheck tick g }
  | .read tick =>
      match exp with
      -- nothing to read from the timer yet
      | none => some { s with thread := .check tick }
      | some n =>
          let tick := (tick + n) % 2 ^ 64
          some { s with
            thread := .sets updateOrder tick
            rounds := s.rounds ++ [tick]
            elapsed := s.elapsed ++ [n] }
  | .sets (idx :: todo) tick =>
      some { s.setNode L idx tick with thread := .sets todo tick }
  | .sets [] tick =>
      some { s with
        mem := s.mem.store .update .tickCount tick
        thread := .check tick }
  | .finished => none

-- ========================================================= starts and stops

/-- The rest of `update_loop_start` and `update_loop_stop`. -/
def controlStep (created : Bool) (s : UpdateLoop) : Option UpdateLoop :=
  match s.control with
  | .idle => none
  | .startTicks =>
      some { s with
        mem := s.mem.store (.client 0) .tickCount (0 : Nat)
        elapsed := []
        control := .create }
  | .create =>
      if created then
        some { s with
          mem := s.mem.sync (.client 0) .update
          thread := .boot
          control := .idle }
      else some { s with control := .idle }
  | .join =>
      match s.thread with
      | .finished =>
          some { s with
            mem := s.mem.sync .update (.client 0)
            thread := .absent
            control := .idle }
      | _ => none

-- ================================================================ the reads

/-- `data_source_get`. -/
def dataSourceGet (s : UpdateLoop) (client : Nat) (idx : CncNodeIdx)
    (back : Nat) : Option (Float32Bits × UpdateLoop) :=
  (s.mem.load (.client client) (.node idx) back).map fun (v, mem) =>
    (v, { s with
      mem
      reads := s.reads
        ++ [⟨client, idx, mem.view (.client client) (.node idx), v⟩] })

/-- `update_loop_tick_count`. -/
def updateLoopTickCount (s : UpdateLoop) (client : Nat) (back : Nat) :
    Option (Nat × UpdateLoop) :=
  (s.mem.load (.client client) .tickCount back).map fun (n, mem) =>
    (n, { s with mem })

-- ============================================================== the system

/-- The transition function of the loop and its users. -/
def step (a : LoopAct) (s : UpdateLoop) : Option UpdateLoop :=
  match a with
  | .start =>
      match s.control, s.thread with
      | .idle, .absent =>
          some { s with
            mem := s.mem.store (.client 0) .running true
            control := .startTicks }
      | _, _ => none
  | .stop =>
      match s.control, s.thread with
      | .idle, .absent => none
      | .idle, _ =>
          some { s with
            mem := s.mem.store (.client 0) .running false
            control := .join }
      | _, _ => none
  | .control created => s.controlStep created
  | .thread opened back exp => s.threadStep L opened back exp
  | .get client idx back => (s.dataSourceGet client idx back).map Prod.snd
  | .tickCount client back => (s.updateLoopTickCount client back).map Prod.snd

/-- The statics, as the loader leaves them. -/
def zero : (l : Loc) → l.Val
  | .running => false
  | .tickCount => (0 : Nat)
  | .node _ => 0#32

def init : UpdateLoop := { mem := .start zero, seeds := gSeeds }

end UpdateLoop

end

end EdgeIpc.Opcua
