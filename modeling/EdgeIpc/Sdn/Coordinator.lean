/-
The coordinator (secure_distributed_node: TelemetryCoordinator.cpp and
the `/health` handler of main_coordinator.cpp): one poller a worker, and
a request that assembles its report from several critical sections.

# The steps

A poller's update runs under `mu_`, so it is one step; what the worker
answered, or that it did not, is the environment's choice. `LatestStatuses`,
each `IsReachable` and `AllNodesRunning` take the lock for themselves, so
each is one step of the handler, with the pollers' updates in between.
Requests only read, so one at a time stands for all.

`std::map` and the JSON object are maps in key order (`Lib.assign`): the
handler goes over the workers in the order of their ids, and
`j["all_running"]` is an assignment like the others.

# What is added to the source

`instants` lists what the workers' entries were at each moment of the
request, from its first critical section on. No step reads it.
-/
import EdgeIpc.Lib.Assoc
import EdgeIpc.Sdn.TelemetryNode

namespace EdgeIpc.Sdn

open Lib

/-- `struct WorkerConn`, as far as it is read. -/
structure WorkerConn (K : Type) where
  nodeId : String
  lastStatus : NodeStatus K
  reachable : Bool := false
  deriving DecidableEq, Repr

/-- A value of the report: a worker's object, or the flag. -/
inductive HealthValue (K : Type) where
  | worker (fsmState : String) (lastValue : K) (reachable : Bool)
  | flag (b : Bool)
  deriving DecidableEq, Repr

/-- The JSON object of the report. -/
abbrev Report (K : Type) := List (String × HealthValue K)

/-- Where a request stands: before `LatestStatuses`, before the next
`IsReachable` (or `AllNodesRunning`, when no entry is left), or
answered. -/
inductive HealthPc (K : Type) where
  | idle
  | statuses
  | entries (todo : List (String × NodeStatus K)) (j : Report K)
  | done (j : Report K)
  deriving DecidableEq, Repr

structure Coordinator (K : Type) where
  workers : List (WorkerConn K)
  request : HealthPc K := .idle
  instants : List (List (WorkerConn K)) := []

/-- One move: a poller's update with the answer it got, a request
arriving, its next critical section. -/
inductive CoordAct (K : Type) where
  | poll (idx : Nat) (resp : Option (NodeStatus K))
  | get
  | health
  deriving DecidableEq, Repr

variable {K : Type}

-- ========================================================= the operations

/-- The locked part of `PollWorker`. -/
def WorkerConn.update (w : WorkerConn K) :
    Option (NodeStatus K) → WorkerConn K
  | some resp => { w with lastStatus := resp, reachable := true }
  | none => { w with reachable := false }

/-- `LatestStatuses()`. -/
def latestStatuses (ws : List (WorkerConn K)) :
    List (String × NodeStatus K) :=
  assignAll WorkerConn.nodeId WorkerConn.lastStatus ws []

/-- `IsReachable(node_id)`: the first worker of that id. -/
def isReachable (ws : List (WorkerConn K)) (nodeId : String) : Bool :=
  match ws.find? fun w => w.nodeId = nodeId with
  | some w => w.reachable
  | none => false

/-- `AllNodesRunning()`. -/
def allNodesRunning (ws : List (WorkerConn K)) : Bool :=
  (ws.all fun w => w.reachable && w.lastStatus.fsmState = "RUNNING")
    && !ws.isEmpty

/-- The object of one worker in the report. -/
def healthEntry (ws : List (WorkerConn K))
    (e : String × NodeStatus K) : HealthValue K :=
  .worker e.2.fsmState e.2.lastValue (isReachable ws e.1)

-- ============================================================= the system

namespace Coordinator

/-- Whether the request has read anything yet. -/
def InProgress : HealthPc K → Prop
  | .entries _ _ => True
  | _ => False

instance (p : HealthPc K) : Decidable (InProgress p) :=
  match p with
  | .entries _ _ => .isTrue trivial
  | .idle => .isFalse id
  | .statuses => .isFalse id
  | .done _ => .isFalse id

/-- The handler's next critical section. -/
def healthStep (s : Coordinator K) : Option (Coordinator K) :=
  match s.request with
  | .statuses =>
      some { s with
        request := .entries (latestStatuses s.workers) []
        instants := [s.workers] }
  | .entries (e :: todo) j =>
      some { s with
        request := .entries todo
          (assign e.1 (healthEntry s.workers e) j) }
  | .entries [] j =>
      some { s with
        request := .done (assign "all_running"
          (.flag (allNodesRunning s.workers)) j) }
  | _ => none

/-- The transition function of the coordinator. -/
def step (a : CoordAct K) (s : Coordinator K) : Option (Coordinator K) :=
  match a with
  | .poll idx resp =>
      if idx < s.workers.length then
        let workers := s.workers.modify idx fun w => w.update resp
        some { s with
          workers
          instants :=
            if InProgress s.request then s.instants ++ [workers]
            else s.instants }
      else none
  | .get =>
      match s.request with
      | .idle => some { s with request := .statuses, instants := [] }
      | .done _ => some { s with request := .statuses, instants := [] }
      | _ => none
  | .health => s.healthStep

/-- No worker polled yet: `last_status` is the default message. -/
def init [Zero K] (ids : List String) : Coordinator K :=
  { workers := ids.map fun id => { nodeId := id, lastStatus := ⟨"", "", 0, 0⟩ } }

end Coordinator

end EdgeIpc.Sdn
