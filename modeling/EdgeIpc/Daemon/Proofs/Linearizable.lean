/-
The state manager is a linearizable state machine, but for a late halt.

# The sequential machine

`machine` is what include/StateManager.h says of the four operations, one
call after the other. It leaves one choice: a `halt` in SHUTDOWN is the
no-op it should be, or, if it is late, writes IDLE. That is the `halt`
which saw another state before a shutdown and exchanges after it.

# Where the calls take effect

`start` takes effect with its successful compare-exchange, or with the
load or the failed compare-exchange that sees RUNNING or SHUTDOWN: from
there on it is bound to throw. `halt` takes effect with the load that sees
SHUTDOWN, or with its exchange; `fault` with its compare-exchange,
`shutdown` with its exchange. So where a thread stands says whether its
call has taken effect and what it will answer (`status`), and an access
is matched by the actions of the atomic object that take it from there to
where the thread stands next (`Matched`).
-/
import EdgeIpc.Daemon.Proofs.Moves
import EdgeIpc.Lib.Atomic

namespace EdgeIpc.Daemon

open Lib

variable {R : Type}

-- ============================================================= the machine

/-- What a call ends with: it has returned, with the change it has made,
if any, or it has thrown. -/
inductive Answer where
  | returned (change : Option (DaemonState × DaemonState))
  | threw (what : String)
  deriving DecidableEq, Repr

/-- The four operations, each in one go. -/
def operation : Call R → DaemonState → DaemonState × Answer
  | .start, .running => (.running, .threw "start() called from RUNNING state")
  | .start, .shutdown =>
      (.shutdown, .threw "start() called from SHUTDOWN state")
  | .start, prev => (.running, .returned (some (.running, prev)))
  | .halt, .shutdown => (.shutdown, .returned none)
  | .halt, prev => (.idle, .returned (some (.idle, prev)))
  | .fault _, .running => (.fault, .returned (some (.fault, .running)))
  | .fault _, prev => (prev, .returned none)
  | .shutdown, prev => (.shutdown, .returned (some (.shutdown, prev)))

/-- The sequential machine: `true` is the late halt. -/
def machine : SeqSpec DaemonState (Call R) Bool Answer where
  apply
    | c, false, st => some (operation c st)
    | .halt, true, .shutdown => some (.idle, .returned (some (.idle, .shutdown)))
    | _, true, _ => none

theorem apply_now (c : Call R) (st : DaemonState) :
    machine.apply c false st = some (operation c st) := by
  cases c <;> rfl

/-- A late halt among the actions. -/
def lateHalt : AtomicAct Tid (Call R) Bool → Option Tid
  | .effect t true => some t
  | _ => none

/-- The write of a late halt among the events. -/
def lateWrite : Event R → Option Tid
  | .wrote t .halt .shutdown .idle => some t
  | _ => none

namespace StateManager

-- ============================================================= the history

/-- The change a call has made by the time it returns, from where it
returns. -/
def changeOf : Pc R → Option (DaemonState × DaemonState)
  | .callStateCb next prev _ _ => some (next, prev)
  | .callAlarmCb _ _ => some (.fault, .running)
  | _ => none

/-- The answer an event gives to the call of a thread that stood at
`p`. -/
def answered (p : Pc R) : Event R → Option (HistEvent Tid (Call R) Answer)
  | .returned t => some (.answered t (.returned (changeOf p)))
  | .threw t what => some (.answered t (.threw what))
  | _ => none

/-- What can be seen of a step: the call, or the answers among the events
it records. -/
def visible (s : StateManager R) (a : Act R) :
    List (HistEvent Tid (Call R) Answer) :=
  match a with
  | .call t c => [.invoked t c]
  | .step t spurious =>
      match s.threadStep t spurious with
      | some s' =>
          (s'.events.drop s.events.length).filterMap (answered (s.pc t))
      | none => []
  | _ => []

/-- The calls and answers of a run. -/
def history (as : List (Act R)) (s : StateManager R) :
    List (HistEvent Tid (Call R) Answer) :=
  collect step visible as s

-- ============================================================= the mapping

/-- Whether the call of a thread at this point has taken effect, and with
which answer. -/
def status : Pc R → Status (Call R) Answer
  | .idle => .idle
  | .startLoad => .pending .start
  | .startLoop prev =>
      match (operation (.start : Call R) prev).2 with
      | .threw what => .done (.threw what)
      | .returned _ => .pending .start
  | .haltLoad => .pending .halt
  | .haltExchange _ => .pending .halt
  | .faultCas a => .pending (.fault a)
  | .shutdownExchange => .pending .shutdown
  | .copyStateCb next prev none => .done (.returned (some (next, prev)))
  | .callStateCb next prev _ none => .done (.returned (some (next, prev)))
  -- with an alarm still to raise: a `fault`
  | .copyStateCb _ _ (some _) => .done (.returned (some (.fault, .running)))
  | .callStateCb _ _ _ (some _) => .done (.returned (some (.fault, .running)))
  | .copyAlarmCb _ => .done (.returned (some (.fault, .running)))
  | .callAlarmCb _ _ => .done (.returned (some (.fault, .running)))

/-- The atomic object a state stands for. -/
def atomic (s : StateManager R) : Atomic Tid DaemonState (Call R) Answer where
  value := s.state
  status t := status (s.pc t)

variable {s s' : StateManager R} {t : Tid}

theorem atomic_goto (s : StateManager R) (t : Tid) (p : Pc R) :
    (s.goto t p).atomic = s.atomic.put t (status p) := by
  unfold atomic goto Atomic.put
  simp only [Atomic.mk.injEq, true_and]
  funext u
  split <;> rfl

/-- The thread moves, and the value may change. -/
theorem Moves.atomic {p : Pc R} {es : List (Event R)} {next : DaemonState}
    (hm : Moves s t p es next s') :
    s'.atomic
      = ({ s.atomic with value := next } : Atomic _ _ _ _).put t (status p) := by
  unfold StateManager.atomic Atomic.put
  rw [Atomic.mk.injEq]
  refine ⟨hm.state, funext fun u => ?_⟩
  by_cases hu : u = t
  · rw [if_pos hu, hu, hm.self]
  · rw [if_neg hu, hm.others u hu]

/-- A thread that stays where it is, as far as its call goes. -/
theorem put_status {p : Pc R} (h : status p = status (s.pc t)) :
    s.atomic.put t (status p) = s.atomic := by
  unfold StateManager.atomic Atomic.put
  simp only [Atomic.mk.injEq, true_and]
  funext u
  by_cases hu : u = t
  · rw [if_pos hu, h, hu]
  · rw [if_neg hu]

-- =============================================================== the steps

/-- Actions of the atomic object that match a step. -/
structure Matched (s : StateManager R) (a : Act R) (s' : StateManager R)
    (bs : List (AtomicAct Tid (Call R) Bool)) : Prop where
  run : exec (Atomic.step machine) bs s.atomic = some s'.atomic
  history : Atomic.history machine bs s.atomic = visible s a
  late : s'.events.filterMap lateWrite
    = s.events.filterMap lateWrite ++ bs.filterMap lateHalt

theorem visible_step {spurious : Bool} {es : List (Event R)}
    (h : s.threadStep t spurious = some s')
    (he : s'.events = s.events ++ es) :
    visible s (.step t spurious) = es.filterMap (answered (s.pc t)) := by
  simp only [visible, h]
  rw [he, List.drop_left]

theorem matched_call {c : Call R} (h : step (.call t c) s = some s') :
    Matched s (.call t c) s' [.invoke t c] := by
  obtain ⟨hpc, rfl⟩ := call_enters h
  have hidle : s.atomic.status t = .idle := by
    show status (s.pc t) = _
    rw [hpc]
    rfl
  have hentry : status (entry c) = .pending c := by cases c <;> rfl
  refine ⟨?_, ?_, ?_⟩
  · rw [exec_cons_of (Atomic.step_invoke hidle), atomic_goto, hentry]
    rfl
  · simp only [Atomic.history, collect, Atomic.step_invoke hidle,
      Atomic.emits, visible, List.append_nil]
  · simp [goto, lateHalt]

/-- The thread's access is not seen by the atomic object. -/
theorem matched_silent {spurious : Bool} {p : Pc R} {es : List (Event R)}
    (h : s.threadStep t spurious = some s')
    (hm : Moves s t p es s.state s') (hp : status p = status (s.pc t))
    (hes : es.filterMap (answered (s.pc t)) = [])
    (hlate : es.filterMap lateWrite = []) :
    Matched s (.step t spurious) s' [] := by
  refine ⟨?_, ?_, ?_⟩
  · rw [hm.atomic]
    exact congrArg some (put_status hp).symm
  · rw [visible_step h hm.events, hes]
    rfl
  · rw [hm.events, List.filterMap_append, hlate]
    rfl

/-- The call takes effect. -/
theorem matched_effect (late : Bool) {spurious : Bool} {p : Pc R}
    {es : List (Event R)} {next : DaemonState} {c : Call R} {a : Answer}
    (h : s.threadStep t spurious = some s') (hm : Moves s t p es next s')
    (hpc : status (s.pc t) = .pending c)
    (happly : machine.apply c late s.state = some (next, a))
    (hp : status p = .done a)
    (hes : es.filterMap (answered (s.pc t)) = [])
    (hlate : es.filterMap lateWrite = if late then [t] else []) :
    Matched s (.step t spurious) s' [.effect t late] := by
  have hstep := Atomic.step_effect (o := s.atomic) hpc happly
  refine ⟨?_, ?_, ?_⟩
  · rw [exec_cons_of hstep, hm.atomic, hp]
    rfl
  · rw [visible_step h hm.events, hes]
    simp only [Atomic.history, collect, hstep, Atomic.emits, List.append_nil]
  · rw [hm.events, List.filterMap_append, hlate]
    cases late <;> rfl

/-- The call ends with its answer. -/
theorem matched_answer {spurious : Bool} {es : List (Event R)} {a : Answer}
    (h : s.threadStep t spurious = some s')
    (hm : Moves s t .idle es s.state s') (hpc : status (s.pc t) = .done a)
    (hes : es.filterMap (answered (s.pc t)) = [.answered t a])
    (hlate : es.filterMap lateWrite = []) :
    Matched s (.step t spurious) s' [.answer t] := by
  have hdone : s.atomic.status t = .done a := hpc
  have hstep := Atomic.step_answer machine hdone
  refine ⟨?_, ?_, ?_⟩
  · rw [exec_cons_of hstep, hm.atomic]
    rfl
  · rw [visible_step h hm.events, hes]
    simp only [Atomic.history, collect, hstep, Atomic.emits, hdone,
      List.append_nil]
  · rw [hm.events, List.filterMap_append, hlate]
    rfl

/-- The call takes effect without one, and ends. -/
theorem matched_noop {spurious : Bool} {es : List (Event R)} {c : Call R}
    (h : s.threadStep t spurious = some s')
    (hm : Moves s t .idle es s.state s')
    (hpc : status (s.pc t) = .pending c)
    (happly : operation c s.state = (s.state, .returned none))
    (hes : es.filterMap (answered (s.pc t))
      = [.answered t (.returned none)])
    (hlate : es.filterMap lateWrite = []) :
    Matched s (.step t spurious) s' [.effect t false, .answer t] := by
  have heffect := Atomic.step_effect (o := s.atomic) hpc
    ((apply_now c s.state).trans (congrArg some happly))
  have hanswer := Atomic.step_answer (machine : SeqSpec _ (Call R) _ _)
    (Atomic.put_self { s.atomic with value := s.state } t
      (.done (.returned none)))
  refine ⟨?_, ?_, ?_⟩
  · rw [exec_cons_of heffect, exec_cons_of hanswer, Atomic.put_put, hm.atomic]
    rfl
  · rw [visible_step h hm.events, hes]
    simp only [Atomic.history, collect, heffect, hanswer, Atomic.emits,
      Atomic.put_self, List.append_nil, List.nil_append]
  · rw [hm.events, List.filterMap_append, hlate]
    rfl

/-- `start` looks at the state: if it sees RUNNING or SHUTDOWN, that is
where it takes effect. -/
theorem matched_look {spurious : Bool}
    (h : s.threadStep t spurious = some s')
    (hm : Moves s t (.startLoop s.state) [] s.state s')
    (hpc : status (s.pc t) = .pending .start) :
    ∃ bs, Matched s (.step t spurious) s' bs := by
  cases hst : s.state with
  | idle =>
      refine ⟨_, matched_silent h hm ?_ rfl rfl⟩
      rw [hpc, hst]
      rfl
  | fault =>
      refine ⟨_, matched_silent h hm ?_ rfl rfl⟩
      rw [hpc, hst]
      rfl
  | running =>
      have happly : machine.apply (.start : Call R) false s.state
          = some (s.state, .threw "start() called from RUNNING state") := by
        rw [hst]
        rfl
      refine ⟨_, matched_effect false h hm hpc happly ?_ rfl rfl⟩
      rw [hst]
      rfl
  | shutdown =>
      have happly : machine.apply (.start : Call R) false s.state
          = some (s.state, .threw "start() called from SHUTDOWN state") := by
        rw [hst]
        rfl
      refine ⟨_, matched_effect false h hm hpc happly ?_ rfl rfl⟩
      rw [hst]
      rfl

/-- A write is where its call takes effect. -/
theorem matched_write {spurious : Bool} {op : Op} {next : DaemonState}
    (h : s.threadStep t spurious = some s') (hw : WriteBy s t op next)
    (hm : Moves s t (.copyStateCb next s.state (alarmOf (s.pc t)))
      [.wrote t op s.state next] next s') :
    ∃ bs, Matched s (.step t spurious) s' bs := by
  cases hw with
  | start hpc hr hs =>
      have hpend : status (s.pc t) = .pending .start := by
        rw [hpc]
        cases hst : s.state with
        | idle => rfl
        | fault => rfl
        | running => exact absurd hst hr
        | shutdown => exact absurd hst hs
      have happly : machine.apply (.start : Call R) false s.state
          = some (.running, .returned (some (.running, s.state))) := by
        cases hst : s.state with
        | idle => rfl
        | fault => rfl
        | running => exact absurd hst hr
        | shutdown => exact absurd hst hs
      refine ⟨_, matched_effect false h hm hpend happly ?_ rfl rfl⟩
      rw [hpc]
      rfl
  | halt n hpc =>
      have hpend : status (s.pc t) = .pending .halt := by
        rw [hpc]
        rfl
      have hdone : status (.copyStateCb .idle s.state (alarmOf (s.pc t)))
          = .done (.returned (some (.idle, s.state))) := by
        rw [hpc]
        rfl
      by_cases hst : s.state = .shutdown
      · -- the shutdown came after the load
        have happly : machine.apply (.halt : Call R) true s.state
            = some (.idle, .returned (some (.idle, s.state))) := by
          rw [hst]
          rfl
        refine ⟨_, matched_effect true h hm hpend happly hdone rfl ?_⟩
        rw [hst]
        rfl
      · have happly : machine.apply (.halt : Call R) false s.state
            = some (.idle, .returned (some (.idle, s.state))) := by
          revert hst
          cases s.state <;> simp [apply_now, operation]
        refine ⟨_, matched_effect false h hm hpend happly hdone rfl ?_⟩
        revert hst
        cases s.state <;> simp [lateWrite]
  | fault a hpc hr =>
      have hpend : status (s.pc t) = .pending (.fault a) := by
        rw [hpc]
        rfl
      have happly : machine.apply (.fault a) false s.state
          = some (.fault, .returned (some (.fault, .running))) := by
        rw [hr]
        rfl
      refine ⟨_, matched_effect false h hm hpend happly ?_ rfl rfl⟩
      rw [hpc]
      rfl
  | shutdown hpc =>
      have hpend : status (s.pc t) = .pending .shutdown := by
        rw [hpc]
        rfl
      have happly : machine.apply (.shutdown : Call R) false s.state
          = some (.shutdown, .returned (some (.shutdown, s.state))) := rfl
      refine ⟨_, matched_effect false h hm hpend happly ?_ rfl rfl⟩
      rw [hpc]
      rfl

/-- `start` throws what it was bound to throw. -/
theorem matched_refuse {spurious : Bool} {prev : DaemonState} {what : String}
    (h : s.threadStep t spurious = some s')
    (hpc : s.pc t = .startLoop prev)
    (hwhat : (operation (.start : Call R) prev).2 = .threw what) :
    Matched s (.step t spurious) s' [.answer t] := by
  have hm : Moves s t .idle [.threw t what] s.state s' := by
    simp only [threadStep, hpc, startLoop] at h
    cases prev with
    | idle => cases hwhat
    | fault => cases hwhat
    | running =>
        injection hwhat with hwhat
        injection h with h
        rw [← h, ← hwhat]
        exact moves_goto (.refuse _ _ hpc (.inl rfl))
    | shutdown =>
        injection hwhat with hwhat
        injection h with h
        rw [← h, ← hwhat]
        exact moves_goto (.refuse _ _ hpc (.inr rfl))
  have hdone : status (s.pc t) = .done (.threw what) := by
    rw [hpc]
    simp only [status, hwhat]
  exact matched_answer h hm hdone rfl rfl

/-- Every access of a thread is matched. -/
theorem matched_threadStep {spurious : Bool}
    (h : s.threadStep t spurious = some s') :
    ∃ bs, Matched s (.step t spurious) s' bs := by
  obtain ⟨p, es, next, hm⟩ := threadStep_moves h
  cases hm.move with
  | look hl =>
      generalize hq : s.pc t = q at hl
      cases hl with
      | load => exact matched_look h hm (by rw [hq]; rfl)
      | retry prev hr hs =>
          refine matched_look h hm ?_
          rw [hq]
          cases prev with
          | idle => rfl
          | fault => rfl
          | running => exact absurd rfl hr
          | shutdown => exact absurd rfl hs
      | pass seen => exact ⟨_, matched_silent h hm (by rw [hq]; rfl) rfl rfl⟩
  | refuse what prev hpc hprev =>
      rcases hprev with rfl | rfl
      · exact ⟨_, matched_refuse h hpc rfl⟩
      · exact ⟨_, matched_refuse h hpc rfl⟩
  | ignore hpc =>
      rcases hpc with ⟨hpc, hst⟩ | ⟨a, hpc, hst⟩
      · refine ⟨_, matched_noop (c := .halt) h hm ?_ ?_ ?_ rfl⟩
        · rw [hpc]
          rfl
        · rw [hst]
          rfl
        · rw [hpc]
          rfl
      · refine ⟨_, matched_noop (c := .fault a) h hm ?_ ?_ ?_ rfl⟩
        · rw [hpc]
          rfl
        · revert hst
          cases s.state <;> simp [operation]
        · rw [hpc]
          rfl
  | write hw => exact matched_write h hw hm
  | copyState next prev alarm hpc =>
      refine ⟨_, matched_silent h hm ?_ rfl rfl⟩
      rw [hpc]
      cases alarm <;> rfl
  | callState next prev cb hpc =>
      refine ⟨_, matched_answer h hm (by rw [hpc]; rfl) ?_ ?_⟩
      · rw [hpc]
        cases cb <;> rfl
      · cases cb <;> rfl
  | callStateAlarm next prev cb a hpc =>
      refine ⟨_, matched_silent h hm (by rw [hpc]; rfl) ?_ ?_⟩
      · cases cb <;> rfl
      · cases cb <;> rfl
  | copyAlarm a hpc =>
      exact ⟨_, matched_silent h hm (by rw [hpc]; rfl) rfl rfl⟩
  | callAlarm a cb hpc =>
      refine ⟨_, matched_answer h hm (by rw [hpc]; rfl) ?_ ?_⟩
      · rw [hpc]
        cases cb <;> rfl
      · cases cb <;> rfl

/-- So is every step of the system. -/
theorem matched_step {a : Act R} (h : step a s = some s') :
    ∃ bs, Matched s a s' bs := by
  cases a with
  | call t c => exact ⟨_, matched_call h⟩
  | step t spurious => exact matched_threadStep h
  | setStateChangedCallback b =>
      injection h with h
      subst h
      exact ⟨[], rfl, rfl, (List.append_nil _).symm⟩
  | setAlarmCallback b =>
      injection h with h
      subst h
      exact ⟨[], rfl, rfl, (List.append_nil _).symm⟩

/-- A run of the atomic object with history `l` that ends where the
manager is. -/
def Linearized (l : List (HistEvent Tid (Call R) Answer))
    (s : StateManager R) : Prop :=
  ∃ bs, exec (Atomic.step machine) bs (Atomic.init .idle) = some s.atomic
    ∧ Atomic.history machine bs (Atomic.init .idle) = l
    ∧ bs.filterMap lateHalt = s.events.filterMap lateWrite

theorem linearized_step {l : List (HistEvent Tid (Call R) Answer)}
    {a : Act R} (hl : Linearized l s) (h : step a s = some s') :
    Linearized (l ++ visible s a) s' := by
  obtain ⟨bs, hexec, hhist, hlate⟩ := hl
  obtain ⟨bs', hm⟩ := matched_step h
  refine ⟨bs ++ bs', exec_append hexec hm.run, ?_, ?_⟩
  · rw [← hhist, ← hm.history]
    exact collect_append _ hexec
  · rw [List.filterMap_append, hlate, hm.late]

-- ============================================================= the theorem

/-- Linearizability. For any number of threads, any interleaving of their
accesses, spurious failures and changes of the callbacks included: the
calls and answers of a run are those of a run of the atomic object, which
ends with the state the manager is in. Its effects, in their order, are a
run of the sequential machine, one call after the other. The late halts
among them are the writes of IDLE over SHUTDOWN; if there was none, the
machine is the one the header describes. -/
theorem linearizable {as : List (Act R)}
    (h : exec step as init = some s) :
    ∃ bs o, exec (Atomic.step machine) bs (Atomic.init .idle) = some o
      ∧ o.value = s.state
      ∧ Atomic.history machine bs (Atomic.init .idle) = history as init
      ∧ exec (Atomic.seqStep machine)
          (Atomic.effects machine bs (Atomic.init .idle)) .idle
        = some s.state
      ∧ bs.filterMap lateHalt = s.events.filterMap lateWrite := by
  have hinit : Linearized [] (init : StateManager R) := ⟨[], rfl, rfl, rfl⟩
  obtain ⟨bs, hexec, hhist, hlate⟩ :=
    exec_collect Linearized linearized_step hinit h
  exact ⟨bs, s.atomic, hexec, rfl, hhist, Atomic.exec_effects hexec, hlate⟩

/-- A start; a halt that loads RUNNING; a shutdown; a second start, which
sees SHUTDOWN; and then the halt's exchange and the throw. -/
def lateRun : List (Act Nat) :=
  [.call 0 .start, .step 0 false, .step 0 false, .call 1 .halt, .step 1 false,
    .call 2 .shutdown, .step 2 false, .call 3 .start, .step 3 false,
    .step 1 false, .step 3 false]

/-- The manager is IDLE, by the one late halt, and the second start has
thrown. -/
theorem lateRun_linearizable :
    ∃ (s : StateManager Nat) (bs : List (AtomicAct Tid (Call Nat) Bool))
      (o : Atomic Tid DaemonState (Call Nat) Answer),
      exec step lateRun init = some s ∧ s.state = .idle
      ∧ exec (Atomic.step machine) bs (Atomic.init .idle) = some o
      ∧ o.value = .idle
      ∧ Atomic.history machine bs (Atomic.init .idle)
        = [.invoked 0 .start, .invoked 1 .halt, .invoked 2 .shutdown,
          .invoked 3 .start,
          .answered 3 (.threw "start() called from SHUTDOWN state")]
      ∧ bs.filterMap lateHalt = [1] := by
  have hrun : exec step lateRun (init : StateManager Nat) = some _ := rfl
  obtain ⟨bs, o, hexec, hvalue, hhist, -, hlate⟩ := linearizable hrun
  exact ⟨_, bs, o, hrun, rfl, hexec, hvalue, hhist, hlate⟩

end StateManager

end EdgeIpc.Daemon
