/-
The daemon's state machine (include/StateManager.h,
src/StateManager.cpp, include/DaemonState.h), as a system of threads
over one atomic.

# The steps

Every operation is a small program over `state_`: `start` is a load and
a `compare_exchange_weak` loop, `halt` a load and then an unconditional
exchange, `fault` one `compare_exchange_strong`, `shutdown` one exchange.
A thread's control point (`Pc`) stands before its next access to shared
data, and one `Act.step` performs that access together with the local
code up to the next one. So the accesses of different threads interleave
in every order, and nothing else does.

A weak compare-exchange may fail although the values agree: the flag of
`Act.step` makes it do so. A failed one loads the current value into
`prev`, spurious or not.

# The callbacks

After its write an operation copies `state_changed_cb_` under `cb_mu_`
(one step) and invokes the copy (another step); `fault` then does the
same with `alarm_cb_`. A callback is modelled by whether one is
installed; invoking it records an `Event`.

# What is added to the source

`events` is the record of what the calls did, and `shutdowns` counts the
writes of SHUTDOWN; `haltExchange` remembers that count as it was at the
call's load. No step reads the three.
-/

namespace EdgeIpc.Daemon

-- ============================================================== the types

/-- `enum class DaemonState`. -/
inductive DaemonState where
  | idle | running | fault | shutdown
  deriving DecidableEq, Repr

/-- `stateToString`. -/
def stateToString : DaemonState → String
  | .idle => "IDLE"
  | .running => "RUNNING"
  | .fault => "FAULT"
  | .shutdown => "SHUTDOWN"

abbrev Tid := Nat

/-- The arguments of `fault`, passed on to the alarm callback. -/
structure Alarm (R : Type) where
  sensorId : String
  value : R
  threshold : R
  deriving DecidableEq, Repr

/-- The four public operations. -/
inductive Op where
  | start | halt | fault | shutdown
  deriving DecidableEq, Repr

/-- A call of one of them. -/
inductive Call (R : Type) where
  | start
  | halt
  | fault (a : Alarm R)
  | shutdown
  deriving DecidableEq, Repr

/-- Where a thread stands: before which shared access of which call. -/
inductive Pc (R : Type) where
  | idle
  | startLoad
  | startLoop (prev : DaemonState)
  | haltLoad
  | haltExchange (seen : Nat)
  | faultCas (a : Alarm R)
  | shutdownExchange
  | copyStateCb (next prev : DaemonState) (alarm : Option (Alarm R))
  | callStateCb (next prev : DaemonState) (cb : Bool)
      (alarm : Option (Alarm R))
  | copyAlarmCb (a : Alarm R)
  | callAlarmCb (a : Alarm R) (cb : Bool)
  deriving DecidableEq, Repr

/-- What a call did that others can see. -/
inductive Event (R : Type) where
  | wrote (t : Tid) (op : Op) (prev next : DaemonState)
  | stateChanged (t : Tid) (next prev : DaemonState)
  | alarmRaised (t : Tid) (a : Alarm R)
  | returned (t : Tid)
  | threw (t : Tid) (what : String)
  deriving DecidableEq, Repr

/-- The object and the threads inside its operations. -/
structure StateManager (R : Type) where
  state : DaemonState := .idle
  stateChangedCb : Bool := false
  alarmCb : Bool := false
  pc : Tid → Pc R := fun _ => .idle
  shutdowns : Nat := 0
  events : List (Event R) := []

/-- One move of the system. -/
inductive Act (R : Type) where
  | call (t : Tid) (c : Call R)
  | step (t : Tid) (spurious : Bool)
  | setStateChangedCallback (installed : Bool)
  | setAlarmCallback (installed : Bool)
  deriving DecidableEq, Repr

variable {R : Type}

-- ======================================================== state updates

namespace StateManager

/-- Thread `t` moves to a control point. -/
def goto (s : StateManager R) (t : Tid) (p : Pc R) : StateManager R :=
  { s with pc := fun u => if u = t then p else s.pc u }

def record (s : StateManager R) (e : Event R) : StateManager R :=
  { s with events := s.events ++ [e] }

/-- A successful write of `state_` by an operation of thread `t`. -/
def writeState (s : StateManager R) (t : Tid) (op : Op)
    (next : DaemonState) : StateManager R :=
  { s with
    state := next
    shutdowns := if next = .shutdown then s.shutdowns + 1 else s.shutdowns
    events := s.events ++ [.wrote t op s.state next] }

/-- The call returns. -/
def leave (s : StateManager R) (t : Tid) : StateManager R :=
  (s.record (.returned t)).goto t .idle

/-- The call throws `std::logic_error(what)`. -/
def throwLogic (s : StateManager R) (t : Tid) (what : String) :
    StateManager R :=
  (s.record (.threw t what)).goto t .idle

/-- `transition(next)`: the exchange; the old value goes to the
callback. -/
def transition (s : StateManager R) (t : Tid) (op : Op)
    (next : DaemonState) : StateManager R :=
  (s.writeState t op next).goto t (.copyStateCb next s.state none)

/-- The loop body of `start`: the two checks on `prev`, then the weak
compare-exchange. -/
def startLoop (s : StateManager R) (t : Tid) (prev : DaemonState)
    (spurious : Bool) : StateManager R :=
  if prev = .running then
    s.throwLogic t "start() called from RUNNING state"
  else if prev = .shutdown then
    s.throwLogic t "start() called from SHUTDOWN state"
  else if s.state = prev ∧ spurious = false then
    (s.writeState t .start .running).goto t
      (.copyStateCb .running prev none)
  else
    s.goto t (.startLoop s.state)

/-- `halt`'s load: a no-op from SHUTDOWN. -/
def haltLoad (s : StateManager R) (t : Tid) : StateManager R :=
  if s.state = .shutdown then s.leave t
  else s.goto t (.haltExchange s.shutdowns)

/-- `fault`'s strong compare-exchange from RUNNING to FAULT. -/
def faultCas (s : StateManager R) (t : Tid) (a : Alarm R) :
    StateManager R :=
  if s.state = .running then
    (s.writeState t .fault .fault).goto t
      (.copyStateCb .fault .running (some a))
  else s.leave t

/-- Invoke the copied state callback, if any; `fault` goes on to the
alarm callback. -/
def callStateCb (s : StateManager R) (t : Tid) (next prev : DaemonState)
    (cb : Bool) (alarm : Option (Alarm R)) : StateManager R :=
  let s := if cb then s.record (.stateChanged t next prev) else s
  match alarm with
  | none => s.leave t
  | some a => s.goto t (.copyAlarmCb a)

/-- Invoke the copied alarm callback, if any. -/
def callAlarmCb (s : StateManager R) (t : Tid) (a : Alarm R) (cb : Bool) :
    StateManager R :=
  (if cb then s.record (.alarmRaised t a) else s).leave t

-- ============================================================ the system

/-- Where a call starts. -/
def entry : Call R → Pc R
  | .start => .startLoad
  | .halt => .haltLoad
  | .fault a => .faultCas a
  | .shutdown => .shutdownExchange

/-- Thread `t`'s next shared access; `none` when it is in no call. -/
def threadStep (s : StateManager R) (t : Tid) (spurious : Bool) :
    Option (StateManager R) :=
  match s.pc t with
  | .idle => none
  | .startLoad => some (s.goto t (.startLoop s.state))
  | .startLoop prev => some (s.startLoop t prev spurious)
  | .haltLoad => some (s.haltLoad t)
  | .haltExchange _ => some (s.transition t .halt .idle)
  | .faultCas a => some (s.faultCas t a)
  | .shutdownExchange => some (s.transition t .shutdown .shutdown)
  | .copyStateCb next prev alarm =>
      some (s.goto t (.callStateCb next prev s.stateChangedCb alarm))
  | .callStateCb next prev cb alarm =>
      some (s.callStateCb t next prev cb alarm)
  | .copyAlarmCb a => some (s.goto t (.callAlarmCb a s.alarmCb))
  | .callAlarmCb a cb => some (s.callAlarmCb t a cb)

/-- The transition function of the whole system. -/
def step (a : Act R) (s : StateManager R) : Option (StateManager R) :=
  match a with
  | .call t c =>
      match s.pc t with
      | .idle => some (s.goto t (entry c))
      | _ => none
  | .step t spurious => s.threadStep t spurious
  | .setStateChangedCallback installed =>
      some { s with stateChangedCb := installed }
  | .setAlarmCallback installed => some { s with alarmCb := installed }

/-- A fresh manager: IDLE, no callback, no call in progress. -/
def init : StateManager R := {}

end StateManager

end EdgeIpc.Daemon
