/-
The coordinator process and its workers (secure_distributed_node:
main_coordinator.cpp, `Start`, `Stop` and `PollWorker` of
TelemetryCoordinator.cpp, and the worker processes they call).

# The system

The workers are those of TelemetryNode.lean and the coordinator's report
is that of Coordinator.lean, and their steps are the steps here. What is
added is what lies between: the polling threads, the `GetNodeStatus`
calls on their way, and the main thread that starts the pollers, waits
for the signal and stops them.

A `Link` is a worker with its poller and the calls made to it. A call has
a number of its own, so an answer goes to the call it answers. A request
may never arrive (`deliver` is not taken), and the deadline of three
seconds may pass at any moment of the call (`expire`); the worker then
still serves it, and nobody takes the answer. Other clients call too
(`other`). A worker whose server does not exist takes no call.

The signal, the deadlines, what arrives and when, and everything the
workers leave to their environment are the environment's choices. Each
worker has an endpoint of its own. The sleeps are left out, and so is the
destructor's second `Stop`, which returns at its exchange.

# What is added to the source

`shown` lists what has been assigned to a worker's `last_status`. No step
reads it.
-/
import EdgeIpc.Sdn.Coordinator

namespace EdgeIpc.Sdn

open Daemon

-- ============================================================== the types

/-- Where the thread of `PollWorker` stands. -/
inductive PollPc (K : Type) where
  | absent
  | check
  | call
  | await (c : Nat)
  | update (resp : Option (NodeStatus K))
  | finished
  deriving DecidableEq, Repr

/-- Where a call of `GetNodeStatus` stands between the processes. -/
inductive CallPc (K : Type) where
  | unmade
  | sent
  | served
  | answered (st : NodeStatus K)
  deriving DecidableEq, Repr

/-- Where the coordinator's main thread stands. -/
inductive MainPc where
  | start
  | spawn (i : Nat)
  | serve
  | stopServer
  | exchange
  | join (i : Nat)
  | done
  deriving DecidableEq, Repr

/-- A worker, its poller and the calls made to it. -/
structure Link (K : Type) where
  node : TelemetryNode K
  poller : PollPc K := .absent
  calls : Nat → CallPc K := fun _ => .unmade
  next : Nat := 0
  shown : List (NodeStatus K) := []

/-- One move on a link: the poller, a request arriving, another client's
call, a step of the worker, an answer arriving at the poller, the
deadline of its call. -/
inductive LinkAct (K : Type) where
  | poll
  | deliver (c : Nat)
  | other
  | work (a : NodeAct K)
  | receive
  | expire

/-- The coordinator process and its links. -/
structure Cluster (K : Type) where
  coord : Coordinator K
  links : Nat → Link K
  running : Bool := false
  quit : Bool := false
  main : MainPc := .start

/-- One move: the main thread, the signal, a `/health` request arriving,
its next critical section, a move on a link. -/
inductive ClusterAct (K : Type) where
  | main
  | signal
  | get
  | health
  | link (idx : Nat) (a : LinkAct K)

variable {K : Type}

-- =============================================================== the links

namespace Link

/-- Call `c` comes to a new point. -/
def setCall (l : Link K) (c : Nat) (p : CallPc K) : Link K :=
  { l with calls := fun d => if d = c then p else l.calls d }

/-- `PollWorker`. The locked part also writes the coordinator's entry
(`Cluster.linkStep`). -/
def pollStep (running : Bool) (l : Link K) : Option (Link K) :=
  match l.poller with
  | .absent => none
  | .check => some { l with poller := if running then .call else .finished }
  | .call =>
      some ({ l with poller := .await l.next, next := l.next + 1 }.setCall
        l.next .sent)
  | .await _ => none
  | .update resp =>
      some { l with poller := .check, shown := l.shown ++ resp.toList }
  | .finished => none

/-- The worker has taken a step for call `c`; if it was the last, the
answer is on its way. -/
def answer (l : Link K) (c : Nat) (node : TelemetryNode K) : Link K :=
  match node.calls c, node.statuses.getLast? with
  | .absent, some st => ({ l with node }).setCall c (.answered st)
  | _, _ => { l with node }

variable [Field K] [LinearOrder K]

/-- A call arrives at the worker. -/
def arrive (movedFrom : TelemetryFrame K → TelemetryFrame K) (c : Nat)
    (l : Link K) : Option (Link K) :=
  if l.node.server then
    (l.node.step movedFrom (.getNodeStatus c)).map fun node =>
      ({ l with node }).setCall c .served
  else none

/-- A step of the worker. -/
def workStep (movedFrom : TelemetryFrame K → TelemetryFrame K)
    (a : NodeAct K) (l : Link K) : Option (Link K) :=
  match a with
  | .getNodeStatus _ => none
  | .status c => (l.node.step movedFrom (.status c)).map (l.answer c)
  | a => (l.node.step movedFrom a).map fun node => { l with node }

def step (movedFrom : TelemetryFrame K → TelemetryFrame K)
    (running : Bool) (a : LinkAct K) (l : Link K) : Option (Link K) :=
  match a with
  | .poll => l.pollStep running
  | .deliver c =>
      match l.calls c with
      | .sent => l.arrive movedFrom c
      | _ => none
  | .other => ({ l with next := l.next + 1 }).arrive movedFrom l.next
  | .work a => l.workStep movedFrom a
  | .receive =>
      match l.poller with
      | .await c =>
          match l.calls c with
          | .answered st => some { l with poller := .update (some st) }
          | _ => none
      | _ => none
  | .expire =>
      match l.poller with
      | .await _ => some { l with poller := .update none }
      | _ => none

end Link

-- ============================================================= the cluster

namespace Cluster

/-- Link `idx` changes; the others stay. -/
def setLink (s : Cluster K) (idx : Nat) (l : Link K) : Cluster K :=
  { s with links := fun j => if j = idx then l else s.links j }

/-- `threads_[i]` comes to a new point. -/
def setPoller (s : Cluster K) (i : Nat) (p : PollPc K) : Cluster K :=
  s.setLink i { s.links i with poller := p }

/-- The main thread of the coordinator: `Start`, the wait for the signal,
`svr.stop()` with the join of the server's thread, `Stop`. -/
def mainStep (s : Cluster K) : Option (Cluster K) :=
  match s.main with
  | .start => some { s with running := true, main := .spawn 0 }
  | .spawn i =>
      if i < s.coord.workers.length then
        some ({ s with main := .spawn (i + 1) }.setPoller i .check)
      else some { s with main := .serve }
  | .serve =>
      if s.quit then some { s with main := .stopServer } else some s
  | .stopServer =>
      -- the server's thread returns when no request is under way
      match s.coord.request with
      | .idle => some { s with main := .exchange }
      | .done _ => some { s with main := .exchange }
      | _ => none
  | .exchange =>
      some { s with
        running := false
        main := if s.running then .join 0 else .done }
  | .join i =>
      if i < s.coord.workers.length then
        match (s.links i).poller with
        | .absent => some { s with main := .join (i + 1) }
        | .finished =>
            some ({ s with main := .join (i + 1) }.setPoller i .absent)
        | _ => none
      else some { s with main := .done }
  | .done => none

/-- The locked part of `PollWorker` writes the entry of worker `idx`. -/
def writeEntry (idx : Nat) (a : LinkAct K) (p : PollPc K)
    (coord : Coordinator K) : Option (Coordinator K) :=
  match a, p with
  | .poll, .update resp => coord.step (.poll idx resp)
  | _, _ => some coord

variable [Field K] [LinearOrder K]

/-- A move on a link, and with a poller's update that of the coordinator's
entry. -/
def linkStep (movedFrom : TelemetryFrame K → TelemetryFrame K) (idx : Nat)
    (a : LinkAct K) (s : Cluster K) : Option (Cluster K) := do
  let link ← (s.links idx).step movedFrom s.running a
  let coord ← writeEntry idx a (s.links idx).poller s.coord
  some (({ s with coord }).setLink idx link)

/-- The transition function of the cluster. -/
def step (movedFrom : TelemetryFrame K → TelemetryFrame K)
    (a : ClusterAct K) (s : Cluster K) : Option (Cluster K) :=
  match a with
  | .main => s.mainStep
  | .signal => some { s with quit := true }
  | .get =>
      match s.main with
      | .serve => (s.coord.step .get).map fun coord => { s with coord }
      | _ => none
  | .health => (s.coord.step .health).map fun coord => { s with coord }
  | .link idx a => s.linkStep movedFrom idx a

/-- The coordinator configured with `ids`, before `Start`; the process at
the `i`-th endpoint is `names i`. -/
def init (ids : List String) (names : Nat → String)
    (blank : TelemetryFrame K) : Cluster K :=
  { coord := .init ids
    links := fun i => { node := .init (names i) blank } }

end Cluster

end EdgeIpc.Sdn
