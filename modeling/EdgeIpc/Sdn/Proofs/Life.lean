/-
The life of a node under any sequence of `Start` and `Stop`, and when
`Start` keeps its promise.

# The phases

`Life` lists the phases of a node: off, in the calls of `Start`, live, in
the calls of `Stop`. The producer thread exists exactly while the node is
live or stopping, and only then does its part of the tally (`At`) matter.
The control thread enters the FSM before the thread is made and after it
is joined, so each call it makes is alone there (`Starting`, `Closing`).

Two phases more are the defect. `Stop` leaves the FSM in SHUTDOWN, from
which `start()` throws; `Start` has set `running_` by then and lets the
exception through, so the node is left with `running_` set and no thread
(`wedged`), and the next `Start` returns as if it ran. The flag of `Life`
says whether these phases are admitted: they are entered only by that
exception.
-/
import EdgeIpc.Sdn.Proofs.Producer
import EdgeIpc.Sdn.Proofs.Stream
import Mathlib.Algebra.Field.Rat
import Mathlib.Algebra.Order.Ring.Unbundled.Rat

namespace EdgeIpc.Sdn.TelemetryNode

open Lib Daemon StateManager

-- ====================================================== control points

/-- In no call, or at the first access of one. -/
def Resting : ControlPc → Prop
  | .idle => True
  | .startExchange => True
  | .stopExchange => True
  | _ => False

/-- The same, or about to build the server. -/
def Serving : ControlPc → Prop
  | .build => True
  | p => Resting p

/-- In `Stop`, before the producer thread is joined. -/
def Draining : ControlPc → Prop
  | .stopServer => True
  | .join => True
  | _ => False

theorem Resting.cases {p : ControlPc} (h : Resting p) :
    p = .idle ∨ p = .startExchange ∨ p = .stopExchange := by
  cases p <;> simp [Resting] at h ⊢

theorem Serving.cases {p : ControlPc} (h : Serving p) :
    p = .build ∨ Resting p := by
  cases p <;> simp [Serving, Resting] at h ⊢

theorem Draining.cases {p : ControlPc} (h : Draining p) :
    p = .stopServer ∨ p = .join := by
  cases p <;> simp [Draining] at h ⊢

variable {K : Type} {s s' : TelemetryNode K}
  {movedFrom : TelemetryFrame K → TelemetryFrame K}

/-- What the phases are told by. -/
structure Core (K : Type) where
  control : ControlPc
  running : Bool
  producer : ProducerPc K
  pc : Pc K
  entry : NodeView
  tally : Tally K

def core (s : TelemetryNode K) : Core K :=
  ⟨s.control, s.running, s.producer, s.fsm.pc controlTid, s.entry, s.tally⟩

variable {c : Core K}

/-- Nobody is in a call of the FSM, which is in state `st`. -/
structure Rests (c : Core K) (st : DaemonState) : Prop where
  control : c.pc = .idle
  producer : c.tally.pc = .idle
  state : c.tally.state = st

/-- The state `Start` finds: IDLE before anything was processed, or
SHUTDOWN. -/
def Origin (t : Tally K) (old : DaemonState) : Prop :=
  (old = .idle ∧ t.processed = [] ∧ t.pushed = [] ∧ t.count = 0)
    ∨ old = .shutdown

/-- A `start` from such a state never sees FAULT. -/
theorem Starting.not_fault {old st : DaemonState} {p : Pc K} {t : Tally K}
    (hst : Starting old p st) (ho : Origin t old) : st ≠ .fault := by
  have hold : old ≠ .fault := by
    rcases ho with ⟨rfl, -⟩ | rfl <;> intro h <;> cases h
  cases p with
  | startLoad =>
      rw [show st = old from hst]
      exact hold
  | startLoop prev =>
      rw [hst.2]
      exact hold
  | copyStateCb next prev alarm =>
      rw [hst.2.2.2]
      intro h
      cases h
  | callStateCb next prev cb alarm =>
      rw [hst.2.2.2]
      intro h
      cases h
  | _ => cases hst

-- ============================================== the accesses of the FSM

/-- The accesses of the control thread, one by one. -/
inductive ControlArm (s : TelemetryNode K) (spurious : Bool) :
    TelemetryNode K → Prop
  | running (hc : s.control = .startExchange) (hrun : s.running = true) :
      ControlArm s spurious (s.endStart false)
  | starts (hc : s.control = .startExchange) :
      ControlArm s spurious
        { s with running := true, control := .startFsm }
  | callsStart (hc : s.control = .startFsm) (fsm : StateManager K)
      (h : s.fsm.step (.call controlTid .start) = some fsm) :
      ControlArm s spurious { s with fsm, control := .inStart }
  | inStart (hc : s.control = .inStart) (s' : TelemetryNode K)
      (h : s.startFsm spurious = some s') : ControlArm s spurious s'
  | spawns (hc : s.control = .spawn) (hp : s.producer = .absent) :
      ControlArm s spurious { s with producer := .check, control := .build }
  | builds (hc : s.control = .build) :
      ControlArm s spurious
        (({ s with server := true } : TelemetryNode K).endStart false)
  | stops (hc : s.control = .stopExchange) :
      ControlArm s spurious
        { s with
          running := false
          control := if s.running then .stopServer else .idle }
  | stopsServer (hc : s.control = .stopServer) :
      ControlArm s spurious { s with server := false, control := .join }
  | joins (hc : s.control = .join)
      (hp : s.producer = .absent ∨ s.producer = .finished) :
      ControlArm s spurious { s with producer := .absent, control := .stopFsm }
  | callsShutdown (hc : s.control = .stopFsm) (fsm : StateManager K)
      (h : s.fsm.step (.call controlTid .shutdown) = some fsm) :
      ControlArm s spurious { s with fsm, control := .inShutdown }
  | inShutdown (hc : s.control = .inShutdown) (fsm : StateManager K)
      (p : ControlPc) (h : s.fsm.step (.step controlTid false) = some fsm) :
      ControlArm s spurious { s with fsm, control := p }

theorem controlStep_arm {spurious : Bool}
    (h : s.controlStep spurious = some s') : ControlArm s spurious s' := by
  unfold controlStep at h
  split at h
  next => cases h
  next hc =>
    split at h
    next hrun =>
      injection h with h
      exact h ▸ .running hc hrun
    next =>
      injection h with h
      exact h ▸ .starts hc
  next hc =>
    obtain ⟨fsm, hfsm, rfl⟩ := Option.map_eq_some_iff.mp h
    exact .callsStart hc fsm hfsm
  next hc => exact .inStart hc s' h
  next hc =>
    split at h
    next hp =>
      injection h with h
      exact h ▸ .spawns hc hp
    next => cases h
  next hc =>
    injection h with h
    exact h ▸ .builds hc
  next hc =>
    injection h with h
    exact h ▸ .stops hc
  next hc =>
    injection h with h
    exact h ▸ .stopsServer hc
  next hc =>
    split at h
    next hp =>
      injection h with h
      rw [← h, hp]
      exact .joins hc (.inl hp)
    next hp =>
      injection h with h
      exact h ▸ .joins hc (.inr hp)
    next => cases h
  next hc =>
    obtain ⟨fsm, hfsm, rfl⟩ := Option.map_eq_some_iff.mp h
    exact .callsShutdown hc fsm hfsm
  next hc =>
    obtain ⟨fsm, hfsm, rfl⟩ := Option.map_eq_some_iff.mp h
    exact .inShutdown hc fsm _ hfsm

/-- What the control thread leaves alone, and when it writes the FSM's
state. -/
structure Governs (s s' : TelemetryNode K) : Prop where
  nodeId : s'.nodeId = s.nodeId
  receiver : s'.receiver = s.receiver
  processor : s'.processor = s.processor
  stream : s'.stream = s.stream
  count : s'.processedCount = s.processedCount
  processed : s'.processed = s.processed
  hand : inHand s'.producer = inHand s.producer
  fsm : s'.fsm.state = s.fsm.state
    ∨ (s.control = .inStart ∧ ∃ spurious, s.startFsm spurious = some s')
    ∨ (s.control = .inShutdown
      ∧ s.fsm.step (.step controlTid false) = some s'.fsm)

theorem controlStep_governs {spurious : Bool}
    (h : s.controlStep spurious = some s') : Governs s s' := by
  cases controlStep_arm h with
  | running => exact ⟨rfl, rfl, rfl, rfl, rfl, rfl, rfl, .inl rfl⟩
  | starts => exact ⟨rfl, rfl, rfl, rfl, rfl, rfl, rfl, .inl rfl⟩
  | callsStart hc fsm hfsm =>
      obtain ⟨-, rfl⟩ := call_enters hfsm
      exact ⟨rfl, rfl, rfl, rfl, rfl, rfl, rfl, .inl rfl⟩
  | inStart hc s' hstart =>
      have hex : ∃ spurious, s.startFsm spurious = some s' := ⟨_, hstart⟩
      obtain ⟨fsm, -, rfl⟩ := Option.map_eq_some_iff.mp hstart
      refine ⟨?_, ?_, ?_, ?_, ?_, ?_, ?_, .inr (.inl ⟨hc, hex⟩)⟩ <;>
        split <;> first | rfl | (split <;> rfl)
  | spawns hc hp =>
      exact ⟨rfl, rfl, rfl, rfl, rfl, rfl, by rw [hp]; rfl, .inl rfl⟩
  | builds => exact ⟨rfl, rfl, rfl, rfl, rfl, rfl, rfl, .inl rfl⟩
  | stops => exact ⟨rfl, rfl, rfl, rfl, rfl, rfl, rfl, .inl rfl⟩
  | stopsServer => exact ⟨rfl, rfl, rfl, rfl, rfl, rfl, rfl, .inl rfl⟩
  | joins hc hp =>
      have hhand : inHand (.absent : ProducerPc K) = inHand s.producer := by
        rcases hp with hp | hp
        · rw [hp]
        · rw [hp]
          rfl
      exact ⟨rfl, rfl, rfl, rfl, rfl, rfl, hhand, .inl rfl⟩
  | callsShutdown hc fsm hfsm =>
      obtain ⟨-, rfl⟩ := call_enters hfsm
      exact ⟨rfl, rfl, rfl, rfl, rfl, rfl, rfl, .inl rfl⟩
  | inShutdown hc fsm p hfsm =>
      exact ⟨rfl, rfl, rfl, rfl, rfl, rfl, rfl, .inr (.inr ⟨hc, hfsm⟩)⟩

/-- An access of `fsm_->start()` inside `Start`: it goes on, or it throws
having found SHUTDOWN, or it returns in RUNNING. -/
theorem startFsm_cases {old : DaemonState} {spurious : Bool}
    (hst : Starting old (s.fsm.pc controlTid) s.fsm.state)
    (ho : Origin s.tally old) (h : s.startFsm spurious = some s') :
    ∃ fsm : StateManager K, fsm.pc producerTid = s.fsm.pc producerTid
      ∧ ((Starting old (fsm.pc controlTid) fsm.state
          ∧ (s.fsm.pc controlTid = .startLoop old → old ≠ .shutdown)
          ∧ s' = { s with fsm })
        ∨ (old = .shutdown ∧ s.fsm.pc controlTid = .startLoop .shutdown
          ∧ fsm.pc controlTid = .idle ∧ fsm.state = .shutdown
          ∧ s' = ({ s with fsm } : TelemetryNode K).endStart true)
        ∨ (old = .idle ∧ fsm.pc controlTid = .idle ∧ fsm.state = .running
          ∧ s' = { s with fsm, control := .spawn })) := by
  obtain ⟨fsm, hfsm, rfl⟩ := Option.map_eq_some_iff.mp h
  obtain ⟨p, es, next, hm⟩ := threadStep_moves hfsm
  refine ⟨fsm, hm.others _ (by decide), ?_⟩
  rcases move_starting hm.move hst with ⟨hgo, hloop⟩ | hthrow | hret
  · have hgo' : Starting old (fsm.pc controlTid) fsm.state := by
      rw [hm.self, hm.state]
      exact hgo
    refine .inl ⟨hgo', fun hpc => (hloop hpc).2, ?_⟩
    split
    next hidle =>
      rw [hidle] at hgo'
      cases hgo'
    next => rfl
  · obtain ⟨rfl, rfl, hpc, hold⟩ := hthrow
    have hshut : next = .shutdown := by
      rcases ho with ⟨rfl, -⟩ | rfl
      · exact hold.elim (fun h => by cases h) id
      · rfl
    subst hshut
    refine .inr (.inl ⟨rfl, hpc, hm.self, hm.state, ?_⟩)
    rw [hm.self, hpc]
    rfl
  · obtain ⟨rfl, rfl, -, hshut, hloop⟩ := hret
    have hold : old = .idle := by
      rcases ho with ⟨rfl, -⟩ | rfl
      · rfl
      · exact absurd rfl hshut
    refine .inr (.inr ⟨hold, hm.self, hm.state, ?_⟩)
    have hno : throws (s.fsm.pc controlTid) = false := by
      unfold throws
      split
      next hpc => exact absurd hpc (hloop _)
      next hpc => exact absurd hpc (hloop _)
      next => rfl
    rw [hm.self, hno]
    rfl

/-- An access of `fsm_->shutdown()` inside `Stop`. -/
theorem inShutdown_cases {fsm : StateManager K}
    (hst : Closing (s.fsm.pc controlTid) s.fsm.state)
    (h : s.fsm.step (.step controlTid false) = some fsm) :
    fsm.pc producerTid = s.fsm.pc producerTid ∧ fsm.state = .shutdown
      ∧ ((Closing (fsm.pc controlTid) fsm.state
          ∧ fsm.pc controlTid ≠ .idle)
        ∨ fsm.pc controlTid = .idle) := by
  obtain ⟨p, es, next, hm⟩ := threadStep_moves h
  obtain ⟨hend, hshut⟩ := move_shutting hm.move hst
  refine ⟨hm.others _ (by decide), hm.state.trans hshut, ?_⟩
  rw [hm.self, hm.state]
  rcases hend with hgo | hret
  · refine .inl ⟨hgo, fun hidle => ?_⟩
    rw [hidle] at hgo
    cases hgo
  · exact .inr hret

-- ============================================================== the phases

variable [Field K] [LinearOrder K]

/-- The phases of a node. -/
inductive Life (wedged : Bool) (c : Core K) : Prop
  | off (old : DaemonState) (hc : Resting c.control)
      (hrun : c.running = false) (hp : c.producer = .absent)
      (hfsm : Rests c old) (ho : Origin c.tally old)
      (hentry : c.control = .startExchange → c.entry.running = false)
  | starting (old : DaemonState) (hc : c.control = .startFsm)
      (hrun : c.running = true) (hp : c.producer = .absent)
      (hfsm : Rests c old) (ho : Origin c.tally old)
      (hentry : c.entry.running = false)
  | inStart (old : DaemonState) (hc : c.control = .inStart)
      (hrun : c.running = true) (hp : c.producer = .absent)
      (hpc : c.tally.pc = .idle) (hst : Starting old c.pc c.tally.state)
      (ho : Origin c.tally old) (hentry : c.entry.running = false)
  | spawning (hc : c.control = .spawn) (hrun : c.running = true)
      (hp : c.producer = .absent) (hfsm : Rests c .running)
      (ho : Origin c.tally .idle)
  | live (hc : Serving c.control) (hrun : c.running = true)
      (hp : thread c.producer = .looping) (hpc : c.pc = .idle)
      (hat : At c.tally c.producer)
  | stopping (hc : Draining c.control) (hrun : c.running = false)
      (hpc : c.pc = .idle) (hat : At c.tally c.producer)
  | closing (st : DaemonState) (hc : c.control = .stopFsm)
      (hrun : c.running = false) (hp : c.producer = .absent)
      (hfsm : Rests c st)
  | inShutdown (hc : c.control = .inShutdown) (hrun : c.running = false)
      (hp : c.producer = .absent) (hpc : c.tally.pc = .idle)
      (hst : Closing c.pc c.tally.state)
  | wedged (hw : wedged = true) (hc : Resting c.control)
      (hrun : c.running = true) (hp : c.producer = .absent)
      (hfsm : Rests c .shutdown)
  | unwinding (hw : wedged = true) (hc : Draining c.control)
      (hrun : c.running = false) (hp : c.producer = .absent)
      (hfsm : Rests c .shutdown)

theorem life_init (w : Bool) (nodeId : String) (blank : TelemetryFrame K) :
    Life w (init nodeId blank).core :=
  .off .idle trivial rfl rfl ⟨rfl, rfl, rfl⟩ (.inl ⟨rfl, rfl, rfl, rfl⟩)
    (fun h => by cases h)

/-- Inside `fsm_->start()`. -/
theorem Life.of_inStart {w : Bool} (hi : Life w c)
    (hctl : c.control = .inStart) :
    ∃ old, c.running = true ∧ Starting old c.pc c.tally.state
      ∧ Origin c.tally old ∧ c.entry.running = false := by
  cases hi with
  | inStart old hc hrun hp hpc hst ho hentry =>
      exact ⟨old, hrun, hst, ho, hentry⟩
  | off old hc => rw [hctl] at hc; cases hc
  | starting old hc => rw [hctl] at hc; cases hc
  | spawning hc => rw [hctl] at hc; cases hc
  | live hc => rw [hctl] at hc; cases hc
  | stopping hc => rw [hctl] at hc; cases hc
  | closing st hc => rw [hctl] at hc; cases hc
  | inShutdown hc => rw [hctl] at hc; cases hc
  | wedged hw hc => rw [hctl] at hc; cases hc
  | unwinding hw hc => rw [hctl] at hc; cases hc

/-- Inside `fsm_->shutdown()`. -/
theorem Life.of_inShutdown {w : Bool} (hi : Life w c)
    (hctl : c.control = .inShutdown) : Closing c.pc c.tally.state := by
  cases hi with
  | inShutdown hc hrun hp hpc hst => exact hst
  | off old hc => rw [hctl] at hc; cases hc
  | starting old hc => rw [hctl] at hc; cases hc
  | inStart old hc => rw [hctl] at hc; cases hc
  | spawning hc => rw [hctl] at hc; cases hc
  | live hc => rw [hctl] at hc; cases hc
  | stopping hc => rw [hctl] at hc; cases hc
  | closing st hc => rw [hctl] at hc; cases hc
  | wedged hw hc => rw [hctl] at hc; cases hc
  | unwinding hw hc => rw [hctl] at hc; cases hc

/-- While the producer thread exists. -/
theorem Life.of_thread {w : Bool} (hi : Life w c)
    (hthread : c.producer ≠ .absent) : At c.tally c.producer := by
  cases hi with
  | live hc hrun hp hpc hat => exact hat
  | stopping hc hrun hpc hat => exact hat
  | off old hc hrun hp => exact absurd hp hthread
  | starting old hc hrun hp => exact absurd hp hthread
  | inStart old hc hrun hp => exact absurd hp hthread
  | spawning hc hrun hp => exact absurd hp hthread
  | closing st hc hrun hp => exact absurd hp hthread
  | inShutdown hc hrun hp => exact absurd hp hthread
  | wedged hw hc hrun hp => exact absurd hp hthread
  | unwinding hw hc hrun hp => exact absurd hp hthread

/-- Where `Start` finds the node running or has made it run. -/
theorem Life.of_serving (hi : Life false c)
    (hctl : (c.control = .startExchange ∧ c.running = true)
      ∨ c.control = .build) :
    c.running = true ∧ thread c.producer = .looping
      ∧ At c.tally c.producer := by
  cases hi with
  | live hc hrun hp hpc hat => exact ⟨hrun, hp, hat⟩
  | off old hc hrun =>
      rcases hctl with ⟨-, hset⟩ | hctl
      · cases hrun.symm.trans hset
      · rw [hctl] at hc
        cases hc
  | stopping hc hrun =>
      rcases hctl with ⟨-, hset⟩ | hctl
      · cases hrun.symm.trans hset
      · rw [hctl] at hc
        cases hc
  | starting old hc => rw [hc] at hctl; simp at hctl
  | inStart old hc => rw [hc] at hctl; simp at hctl
  | spawning hc => rw [hc] at hctl; simp at hctl
  | closing st hc => rw [hc] at hctl; simp at hctl
  | inShutdown hc => rw [hc] at hctl; simp at hctl
  | wedged hw => cases hw
  | unwinding hw => cases hw

-- ====================================================== the calls are made

/-- A call is made: `Start` or `Stop`, the first remembering the view. -/
theorem life_call {w : Bool} {p : ControlPc} {entry : NodeView}
    (hi : Life w s.core) (hidle : s.control = .idle) (hp : Resting p)
    (hentry : p = .startExchange → entry.running = s.running) :
    Life w ({ s with control := p, entry } : TelemetryNode K).core := by
  have hserve : Serving p := by
    cases p <;> first | exact hp | trivial
  have hnot : ¬ Draining s.control := by
    rw [hidle]
    exact id
  cases hi with
  | off old hc hrun hpr hfsm ho _ =>
      exact .off old hp hrun hpr ⟨hfsm.1, hfsm.2, hfsm.3⟩ ho
        fun h => (hentry h).trans hrun
  | live hc hrun hpr hpc hat => exact .live hserve hrun hpr hpc hat
  | wedged hw hc hrun hpr hfsm =>
      exact .wedged hw hp hrun hpr ⟨hfsm.1, hfsm.2, hfsm.3⟩
  | starting old hc => cases hc.symm.trans hidle
  | inStart old hc => cases hc.symm.trans hidle
  | spawning hc => cases hc.symm.trans hidle
  | stopping hc => exact absurd hc hnot
  | closing st hc => cases hc.symm.trans hidle
  | inShutdown hc => cases hc.symm.trans hidle
  | unwinding hw hc => exact absurd hc hnot

-- ===================================================== the control thread

/-- The condition: no `Start` comes to the loop of `fsm_->start()` with
the FSM in SHUTDOWN. -/
def NotRestarted (s : TelemetryNode K) (a : NodeAct K)
    (_ : TelemetryNode K) : Prop :=
  ∀ spurious prev, a = .control spurious → s.control = .inStart →
    s.fsm.pc controlTid = .startLoop prev → s.fsm.state ≠ .shutdown

/-- From off: `Start` sets `running_`, `Stop` finds it unset. -/
theorem control_off {w spurious : Bool} {old : DaemonState}
    (hc : Resting s.control) (hrun : s.running = false)
    (hp : s.producer = .absent) (hfsm : Rests s.core old)
    (ho : Origin s.tally old)
    (hentry : s.control = .startExchange → s.entry.running = false)
    (h : s.controlStep spurious = some s') : Life w s'.core := by
  rcases hc.cases with hctl | hctl | hctl <;>
    simp only [controlStep, hctl, hrun] at h
  · cases h
  · injection h with h
    subst h
    exact .starting old rfl rfl hp ⟨hfsm.1, hfsm.2, hfsm.3⟩ ho (hentry hctl)
  · injection h with h
    subst h
    exact .off old trivial rfl hp ⟨hfsm.1, hfsm.2, hfsm.3⟩ ho
      fun h => by cases h

/-- From wedged: `Start` returns as if the node ran, `Stop` goes through
its motions. -/
theorem control_wedged {spurious : Bool} (hc : Resting s.control)
    (hrun : s.running = true) (hp : s.producer = .absent)
    (hfsm : Rests s.core .shutdown)
    (h : s.controlStep spurious = some s') : Life true s'.core := by
  rcases hc.cases with hctl | hctl | hctl <;>
    simp only [controlStep, hctl, hrun] at h
  · cases h
  · injection h with h
    subst h
    exact .wedged rfl trivial hrun hp ⟨hfsm.1, hfsm.2, hfsm.3⟩
  · injection h with h
    subst h
    exact .unwinding rfl trivial rfl hp ⟨hfsm.1, hfsm.2, hfsm.3⟩

/-- From live: `Start` finds the node running, `Stop` begins. -/
theorem control_live {w spurious : Bool} (hc : Serving s.control)
    (hrun : s.running = true) (hp : thread s.producer = .looping)
    (hpc : s.fsm.pc controlTid = .idle) (hat : At s.tally s.producer)
    (h : s.controlStep spurious = some s') : Life w s'.core := by
  rcases hc.cases with hctl | hc
  · simp only [controlStep, hctl] at h
    injection h with h
    subst h
    exact .live trivial hrun hp hpc hat
  · rcases hc.cases with hctl | hctl | hctl <;>
      simp only [controlStep, hctl, hrun] at h
    · cases h
    · injection h with h
      subst h
      exact .live trivial hrun hp hpc hat
    · injection h with h
      subst h
      exact .stopping trivial rfl hpc hat

/-- `Stop` drops the server and joins the thread. -/
theorem control_stopping {w spurious : Bool} (hc : Draining s.control)
    (hrun : s.running = false) (hpc : s.fsm.pc controlTid = .idle)
    (hat : At s.tally s.producer)
    (h : s.controlStep spurious = some s') : Life w s'.core := by
  rcases hc.cases with hctl | hctl <;> simp only [controlStep, hctl] at h
  · injection h with h
    subst h
    exact .stopping trivial hrun hpc hat
  · split at h
    next hp =>
      rw [hp] at hat
      cases hat
    next hp =>
      rw [hp] at hat
      injection h with h
      subst h
      exact .closing s.fsm.state rfl hrun rfl ⟨hpc, hat.pc, rfl⟩
    next => cases h

/-- The same where there is no thread to join. -/
theorem control_unwinding {spurious : Bool} (hc : Draining s.control)
    (hrun : s.running = false) (hp : s.producer = .absent)
    (hfsm : Rests s.core .shutdown)
    (h : s.controlStep spurious = some s') : Life true s'.core := by
  rcases hc.cases with hctl | hctl <;> simp only [controlStep, hctl, hp] at h
  · injection h with h
    subst h
    exact .unwinding rfl trivial hrun rfl ⟨hfsm.1, hfsm.2, hfsm.3⟩
  · injection h with h
    subst h
    exact .closing _ rfl hrun rfl ⟨hfsm.1, hfsm.2, hfsm.3⟩

/-- The calls of `Start`. The exception is the one way into the wedged
phase, and the condition rules it out. -/
theorem control_inStart {w spurious : Bool} {old : DaemonState}
    (hc : s.control = .inStart) (hrun : s.running = true)
    (hp : s.producer = .absent) (hpc : s.fsm.pc producerTid = .idle)
    (hst : Starting old (s.fsm.pc controlTid) s.fsm.state)
    (ho : Origin s.tally old) (hentry : s.entry.running = false)
    (hok : w = true ∨ NotRestarted s (.control spurious) s')
    (h : s.controlStep spurious = some s') : Life w s'.core := by
  simp only [controlStep, hc] at h
  obtain ⟨fsm, hother, hgo | hthrow | hret⟩ := startFsm_cases hst ho h
  · obtain ⟨hgo, -, rfl⟩ := hgo
    exact .inStart old hc hrun hp (hother.trans hpc) hgo ho hentry
  · obtain ⟨rfl, hloop, hidle, hshut, rfl⟩ := hthrow
    have hold : s.fsm.state = .shutdown := by
      rw [hloop] at hst
      exact hst.2
    rcases hok with hw | hok
    · exact .wedged hw trivial hrun hp ⟨hidle, hother.trans hpc, hshut⟩
    · exact absurd hold (hok spurious .shutdown rfl hc hloop)
  · obtain ⟨rfl, hidle, hrunning, rfl⟩ := hret
    exact .spawning rfl hrun hp ⟨hidle, hother.trans hpc, hrunning⟩ ho

/-- The thread is made: nothing is processed yet and the FSM is in
RUNNING. -/
theorem control_spawn {w spurious : Bool} (hc : s.control = .spawn)
    (hrun : s.running = true) (hp : s.producer = .absent)
    (hfsm : Rests s.core .running) (ho : Origin s.tally .idle)
    (h : s.controlStep spurious = some s') : Life w s'.core := by
  simp only [controlStep, hc, hp] at h
  injection h with h
  subst h
  rcases ho with ⟨-, hdone, hpushed, hcount⟩ | hno
  · refine .live trivial hrun rfl hfsm.1 ⟨?_, ?_, .inr ⟨hfsm.3, ?_⟩, hfsm.2⟩
    · show s.tally.pushed.length = s.tally.processed.length
      rw [hdone, hpushed]
      rfl
    · show s.tally.count = s.tally.processed.length % 2 ^ 64
      rw [hdone, hcount]
      rfl
    · show ¬ Faulted s.tally.processed
      rw [hdone]
      exact not_faulted_nil
  · cases hno

/-- Every step of the control thread. -/
theorem life_control {w spurious : Bool} (hi : Life w s.core)
    (hok : w = true ∨ NotRestarted s (.control spurious) s')
    (h : s.controlStep spurious = some s') : Life w s'.core := by
  have hne : producerTid ≠ controlTid := by decide
  cases hi with
  | off old hc hrun hp hfsm ho hentry =>
      exact control_off hc hrun hp hfsm ho hentry h
  | starting old hc hrun hp hfsm ho hentry =>
      change s.control = .startFsm at hc
      simp only [controlStep, hc] at h
      obtain ⟨fsm, hfsm', rfl⟩ := Option.map_eq_some_iff.mp h
      obtain ⟨-, rfl⟩ := call_enters hfsm'
      refine .inStart old rfl hrun hp ?_ ?_ ho hentry
      · exact (goto_pc_ne s.fsm .startLoad hne).trans hfsm.producer
      · show Starting old ((s.fsm.goto controlTid _).pc controlTid)
          s.fsm.state
        rw [goto_pc_self]
        exact hfsm.state
  | inStart old hc hrun hp hpc hst ho hentry =>
      exact control_inStart hc hrun hp hpc hst ho hentry hok h
  | spawning hc hrun hp hfsm ho => exact control_spawn hc hrun hp hfsm ho h
  | live hc hrun hp hpc hat => exact control_live hc hrun hp hpc hat h
  | stopping hc hrun hpc hat => exact control_stopping hc hrun hpc hat h
  | closing st hc hrun hp hfsm =>
      change s.control = .stopFsm at hc
      simp only [controlStep, hc] at h
      obtain ⟨fsm, hfsm', rfl⟩ := Option.map_eq_some_iff.mp h
      obtain ⟨-, rfl⟩ := call_enters hfsm'
      refine .inShutdown rfl hrun hp ?_ ?_
      · exact (goto_pc_ne s.fsm .shutdownExchange hne).trans hfsm.producer
      · show Closing ((s.fsm.goto controlTid _).pc controlTid) s.fsm.state
        rw [goto_pc_self]
        trivial
  | inShutdown hc hrun hp hpc hst =>
      change s.control = .inShutdown at hc
      simp only [controlStep, hc] at h
      obtain ⟨fsm, hfsm, rfl⟩ := Option.map_eq_some_iff.mp h
      obtain ⟨hother, hshut, ⟨hgo, hbusy⟩ | hidle⟩ :=
        inShutdown_cases hst hfsm
      · refine .inShutdown ?_ hrun hp (hother.trans hpc) hgo
        dsimp only [core]
        split
        next hidle => exact absurd hidle hbusy
        next => rfl
      · refine .off .shutdown ?_ hrun hp
          ⟨hidle, hother.trans hpc, hshut⟩ (.inr rfl) ?_ <;>
          simp only [core, hidle]
        · trivial
        · intro hc
          cases hc
  | wedged hw hc hrun hp hfsm =>
      subst hw
      exact control_wedged hc hrun hp hfsm h
  | unwinding hw hc hrun hp hfsm =>
      subst hw
      exact control_unwinding hc hrun hp hfsm h

-- ============================================================== every step

/-- The phases under the producer's steps. -/
theorem life_producer {w : Bool} {blank : TelemetryFrame K}
    {frame : Option (TelemetryFrame K)} {now : Int} (hi : Life w s.core)
    (hsamp : Sampled movedFrom blank s)
    (h : s.producerStep movedFrom frame now = some s') :
    Life w s'.core := by
  have ha := producerStep_aside h
  have habsent := producerStep_exists h
  cases hi with
  | live hc hrun hp hpc hat =>
      refine .live ?_ (ha.running.trans hrun) (ha.thread hrun hp)
        (ha.pc.trans hpc) (at_producer hsamp hat h)
      show Serving s'.control
      rw [ha.control]
      exact hc
  | stopping hc hrun hpc hat =>
      refine .stopping ?_ (ha.running.trans hrun) (ha.pc.trans hpc)
        (at_producer hsamp hat h)
      show Draining s'.control
      rw [ha.control]
      exact hc
  | off old hc hrun hp => exact absurd hp habsent
  | starting old hc hrun hp => exact absurd hp habsent
  | inStart old hc hrun hp => exact absurd hp habsent
  | spawning hc hrun hp => exact absurd hp habsent
  | closing st hc hrun hp => exact absurd hp habsent
  | inShutdown hc hrun hp => exact absurd hp habsent
  | wedged hw hc hrun hp => exact absurd hp habsent
  | unwinding hw hc hrun hp => exact absurd hp habsent

/-- The steps that are neither the control thread's nor the producer's:
they leave everything the phases and the samples are told by. -/
structure Bystands (s s' : TelemetryNode K) : Prop where
  core : s'.core = s.core
  view : s'.view = s.view
  starts : s'.starts = s.starts
  receiver : s'.receiver = s.receiver
  processor : s'.processor = s.processor

omit [Field K] [LinearOrder K] in
theorem statusStep_bystands {c : Nat} (h : s.statusStep c = some s') :
    Bystands s s' := by
  simp only [statusStep] at h
  split at h
  next => cases h
  all_goals
    injection h with h
    subst h
    exact ⟨rfl, rfl, rfl, rfl, rfl⟩

/-- A step of the node is a call of `Start` or `Stop`, a step of one of
its two threads, or that of a bystander. -/
theorem step_cases {a : NodeAct K} (h : step movedFrom a s = some s') :
    (s.control = .idle ∧ a = .start
      ∧ s' = { s with control := .startExchange, entry := s.view })
    ∨ (s.control = .idle ∧ a = .stop
      ∧ s' = { s with control := .stopExchange })
    ∨ (∃ spurious, a = .control spurious
      ∧ s.controlStep spurious = some s')
    ∨ (∃ frame now, a = .producer frame now
      ∧ s.producerStep movedFrom frame now = some s')
    ∨ Bystands s s' := by
  cases a with
  | start =>
      simp only [step] at h
      split at h
      next hidle =>
        injection h with h
        exact .inl ⟨hidle, rfl, h.symm⟩
      next => cases h
  | stop =>
      simp only [step] at h
      split at h
      next hidle =>
        injection h with h
        exact .inr (.inl ⟨hidle, rfl, h.symm⟩)
      next => cases h
  | control spurious => exact .inr (.inr (.inl ⟨spurious, rfl, h⟩))
  | producer frame now => exact .inr (.inr (.inr (.inl ⟨frame, now, rfl, h⟩)))
  | stream a =>
      refine .inr (.inr (.inr (.inr ?_)))
      simp only [step] at h
      split at h
      next => cases h
      next hpush =>
        obtain ⟨stream, hstream, rfl⟩ := Option.map_eq_some_iff.mp h
        have hsame := StreamQueue.pushed_of_not_push hpush hstream
        refine ⟨?_, rfl, rfl, rfl, rfl⟩
        simp only [core, tally, hsame]
  | getNodeStatus c =>
      refine .inr (.inr (.inr (.inr ?_)))
      simp only [step] at h
      split at h
      next =>
        injection h with h
        subst h
        exact ⟨rfl, rfl, rfl, rfl, rfl⟩
      next => cases h
  | status c =>
      exact .inr (.inr (.inr (.inr (statusStep_bystands h))))

/-- The phases and the samples, together. -/
structure NodeInv (movedFrom : TelemetryFrame K → TelemetryFrame K)
    (blank : TelemetryFrame K) (w : Bool) (s : TelemetryNode K) : Prop where
  sampled : Sampled movedFrom blank s
  life : Life w s.core

theorem nodeInv_init (w : Bool) (nodeId : String)
    (blank : TelemetryFrame K) :
    NodeInv movedFrom blank w (init nodeId blank) :=
  ⟨⟨.init, rfl, processorInv_new 10 80.0 20.0 3⟩, life_init w nodeId blank⟩

/-- The invariant, under any step if the wedged phases are admitted, and
under the condition if they are not. -/
theorem nodeInv_step {blank : TelemetryFrame K} {w : Bool} {a : NodeAct K}
    (hi : NodeInv movedFrom blank w s) (h : step movedFrom a s = some s')
    (hok : w = true ∨ NotRestarted s a s') :
    NodeInv movedFrom blank w s' := by
  obtain ⟨hsamp, hlife⟩ := hi
  rcases step_cases h with ⟨hidle, -, rfl⟩ | ⟨hidle, -, rfl⟩
    | ⟨spurious, rfl, hc⟩ | ⟨frame, now, -, hp⟩ | hby
  · exact ⟨⟨hsamp.1, hsamp.2, hsamp.3⟩,
      life_call hlife hidle trivial fun _ => rfl⟩
  · refine ⟨⟨hsamp.1, hsamp.2, hsamp.3⟩, ?_⟩
    exact life_call hlife hidle trivial fun hc => by cases hc
  · have hg := controlStep_governs hc
    refine ⟨hsamp.frame ?_ ?_ hg.processor hg.processed hg.hand,
      life_control hlife hok hc⟩
    · rw [hg.receiver]
      exact hsamp.ring
    · rw [hg.receiver]
  · exact ⟨sampled_producer hsamp hp, life_producer hlife hsamp hp⟩
  · have hprod : s'.producer = s.producer := congrArg Core.producer hby.core
    have hdone : s'.processed = s.processed :=
      congrArg (fun c => c.tally.processed) hby.core
    refine ⟨hsamp.frame (hby.receiver ▸ hsamp.ring)
      (congrArg TelemetryReceiver.popped hby.receiver) hby.processor hdone
      (congrArg inHand hprod), ?_⟩
    rw [hby.core]
    exact hlife

-- ======================================================= `Start`'s promise

omit [Field K] [LinearOrder K] in
/-- The node runs: the flag, the thread and the FSM agree. -/
def Live (v : NodeView) : Prop :=
  v.running = true ∧ v.thread = .looping ∧ v.fsm ≠ .shutdown

instance (v : NodeView) : Decidable (Live v) :=
  inferInstanceAs (Decidable (_ ∧ _ ∧ _))

/-- Every `Start` that returned left the node live, and every one that
threw left it as it was. -/
def LifecycleOk (s : TelemetryNode K) : Prop :=
  ∀ r ∈ s.starts, (r.threw = false → Live r.after)
    ∧ (r.threw = true → r.after = r.before)

/-- A live node looks live, with its server or without. -/
theorem live_view (server : Bool) (hrun : s.running = true)
    (hp : thread s.producer = .looping) (hat : At s.tally s.producer) :
    Live ⟨s.running, thread s.producer, server, s.fsm.state⟩ := by
  refine ⟨hrun, hp, ?_⟩
  show s.tally.state ≠ .shutdown
  rcases hat.state with hst | hst <;> rw [hst] <;> intro h <;> cases h

omit [Field K] [LinearOrder K] in
/-- Where a `Start` ends and is recorded: at the exchange if the flag was
set, behind the server, or in `fsm_->start()`. -/
theorem controlStep_starts {spurious : Bool}
    (h : s.controlStep spurious = some s') :
    s'.starts = s.starts
    ∨ (((s.control = .startExchange ∧ s.running = true)
        ∨ s.control = .build)
      ∧ ∃ server, s'.starts = s.starts
        ++ [⟨false, s.entry,
          ⟨s.running, thread s.producer, server, s.fsm.state⟩⟩])
    ∨ (s.control = .inStart ∧ s.startFsm spurious = some s') := by
  cases controlStep_arm h with
  | running hc hrun => exact .inr (.inl ⟨.inl ⟨hc, hrun⟩, _, rfl⟩)
  | builds hc => exact .inr (.inl ⟨.inr hc, _, rfl⟩)
  | inStart hc s' hstart => exact .inr (.inr ⟨hc, hstart⟩)
  | _ => exact .inl rfl

/-- The records of `Start`, in a node that is not wedged: one that
returned left it live, and only a start from SHUTDOWN throws. -/
theorem starts_control {spurious : Bool} (hi : Life false s.core)
    (h : s.controlStep spurious = some s') :
    s'.starts = s.starts
    ∨ (∃ r, s'.starts = s.starts ++ [r] ∧ r.threw = false ∧ Live r.after)
    ∨ ¬ NotRestarted s (.control spurious) s' := by
  rcases controlStep_starts h with hsame | ⟨hctl, server, hs⟩ | ⟨hctl, hstart⟩
  · exact .inl hsame
  · obtain ⟨hrun, hp, hat⟩ := hi.of_serving hctl
    exact .inr (.inl ⟨_, hs, rfl, live_view server hrun hp hat⟩)
  · obtain ⟨old, -, hst, ho, -⟩ := hi.of_inStart hctl
    change Starting old (s.fsm.pc controlTid) s.fsm.state at hst
    obtain ⟨fsm, -, hgo | hthrow | hret⟩ := startFsm_cases hst ho hstart
    · obtain ⟨-, -, rfl⟩ := hgo
      exact .inl rfl
    · obtain ⟨rfl, hloop, -⟩ := hthrow
      refine .inr (.inr fun hok => hok spurious _ rfl hctl hloop ?_)
      rw [hloop] at hst
      exact hst.2
    · obtain ⟨-, -, -, rfl⟩ := hret
      exact .inl rfl

/-- Records are made by the control thread only. -/
theorem starts_step {blank : TelemetryFrame K} {a : NodeAct K}
    (hi : NodeInv movedFrom blank false s)
    (h : step movedFrom a s = some s') :
    s'.starts = s.starts
    ∨ (∃ r, s'.starts = s.starts ++ [r] ∧ r.threw = false ∧ Live r.after)
    ∨ ¬ NotRestarted s a s' := by
  rcases step_cases h with ⟨-, -, rfl⟩ | ⟨-, -, rfl⟩
    | ⟨spurious, rfl, hc⟩ | ⟨frame, now, -, hp⟩ | hby
  · exact .inl rfl
  · exact .inl rfl
  · exact starts_control hi.life hc
  · exact .inl (producerStep_aside hp).starts
  · exact .inl hby.starts

/-- A step at the loop of `fsm_->start()` in SHUTDOWN is the exception,
and its record breaks the law. -/
theorem notRestarted_of_lifecycleOk {blank : TelemetryFrame K}
    {a : NodeAct K} (hi : NodeInv movedFrom blank false s)
    (h : step movedFrom a s = some s') (hok : LifecycleOk s') :
    NotRestarted s a s' := by
  rintro spurious prev rfl hctl hloop hshut
  obtain ⟨old, hrun, hst, ho, hentry⟩ := hi.life.of_inStart hctl
  change s.running = true at hrun
  change s.entry.running = false at hentry
  change Starting old (s.fsm.pc controlTid) s.fsm.state at hst
  obtain rfl : old = .shutdown := by
    rw [hloop] at hst
    exact hst.2.symm.trans hshut
  have hpc : s.fsm.pc controlTid = .startLoop .shutdown := by
    rw [hloop] at hst ⊢
    rw [hst.1]
  simp only [step, controlStep, hctl] at h
  obtain ⟨fsm, -, hgo | hthrow | hret⟩ := startFsm_cases hst ho h
  · exact hgo.2.1 hpc rfl
  · obtain ⟨-, -, -, -, rfl⟩ := hthrow
    have hlast := hok ⟨true, s.entry, _⟩
      (List.mem_append_right _ (List.mem_singleton_self _))
    have heq := congrArg NodeView.running (hlast.2 rfl)
    change s.running = s.entry.running at heq
    rw [hrun, hentry] at heq
    cases heq
  · cases hret.1

theorem lifecycleOk_step {blank : TelemetryFrame K} {a : NodeAct K}
    (hi : NodeInv movedFrom blank false s ∧ LifecycleOk s)
    (h : step movedFrom a s = some s') (hok : NotRestarted s a s') :
    NodeInv movedFrom blank false s' ∧ LifecycleOk s' := by
  refine ⟨nodeInv_step hi.1 h (.inr hok), ?_⟩
  intro q hq
  rcases starts_step hi.1 h with hsame | ⟨r, hs, hret, hlive⟩ | hthrow
  · rw [hsame] at hq
    exact hi.2 q hq
  · rw [hs] at hq
    rcases List.mem_append.mp hq with hq | hq
    · exact hi.2 q hq
    · obtain rfl := List.mem_singleton.mp hq
      refine ⟨fun _ => hlive, fun hthrew => ?_⟩
      rw [hret] at hthrew
      cases hthrew
  · exact absurd hok hthrow

/-- Along every run, for any interleaving of `Start` and `Stop` with the
producer and the service calls: every `Start` keeps its promise at every
point of the run iff none of them comes to the loop of `fsm_->start()`
with the FSM in SHUTDOWN. -/
theorem start_keeps_promise_iff (nodeId : String) (blank : TelemetryFrame K)
    (as : List (NodeAct K)) :
    AllStates (step movedFrom) LifecycleOk as (init nodeId blank)
      ↔ AllSteps (step movedFrom) NotRestarted as (init nodeId blank) := by
  have hinit : NodeInv movedFrom blank false (init nodeId blank) :=
    nodeInv_init false nodeId blank
  constructor
  · intro h
    refine AllSteps.mono (NodeInv movedFrom blank false) ?_ hinit h.ends
    intro s s' a hi hs hok
    have hnot := notRestarted_of_lifecycleOk hi hs hok.2
    exact ⟨hnot, nodeInv_step hi hs (.inr hnot)⟩
  · exact allStates_of_allSteps lifecycleOk_step And.right
      ⟨hinit, fun r hr => by cases hr⟩

/-- The next `n` accesses of the control thread. -/
def controls (n : Nat) : List (NodeAct ℚ) :=
  List.replicate n (.control false)

/-- One whole life and two more calls of `Start`: the control thread
starts and stops the node, the second `Start` throws, the third
returns. -/
def restarts : List (NodeAct ℚ) :=
  [[.start], controls 8, [.stop], controls 2, [.producer none 0],
    controls 5, [.start], controls 4, [.start], controls 1].flatten

/-- How the three calls of `Start` end. -/
def restartRecords : List StartRecord :=
  [⟨false, ⟨false, .none, false, .idle⟩, ⟨true, .looping, true, .running⟩⟩,
   ⟨true, ⟨false, .none, false, .shutdown⟩,
    ⟨true, .none, false, .shutdown⟩⟩,
   ⟨false, ⟨true, .none, false, .shutdown⟩,
    ⟨true, .none, false, .shutdown⟩⟩]

/-- After a `Stop`, `Start` throws and leaves `running_` set, and the
next one returns although there is no thread and the FSM is in
SHUTDOWN. -/
theorem restart_breaks_promise :
    ∃ s, exec (step id) restarts (init "worker1" ⟨"", 0, 0⟩) = some s
      ∧ s.starts = restartRecords ∧ ¬ LifecycleOk s := by
  have hrun : (exec (step id) restarts (init "worker1" ⟨"", 0, 0⟩)).map
      starts = some restartRecords := by
    decide +kernel
  obtain ⟨s, hs, hstarts⟩ := Option.map_eq_some_iff.mp hrun
  have hbroken : ¬ ∀ r ∈ restartRecords, (r.threw = false → Live r.after)
      ∧ (r.threw = true → r.after = r.before) := by
    decide
  refine ⟨s, hs, hstarts, fun hok => hbroken ?_⟩
  rw [← hstarts]
  exact hok

end EdgeIpc.Sdn.TelemetryNode
