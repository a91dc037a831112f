/-
Frames that the ring has accepted get processed, under every schedule
that gives `main` its turns.

# The argument

`main` alone drains the ring: each of its steps inside the loops lowers
`loopRank`, the frames still to pop and its place on the way round, or
finds the ring empty and returns to `while (!g_quit)` (`inner_step`). No
other thread can put it back (`loopRank_spared`). A call of `fault` on
the way ends because each access brings it nearer to its end
(`callLeft_lt`).

The moves of `main` and of the producer thread are taken apart once
(`MainGoes`, `ProducerArm`).
-/
import EdgeIpc.Daemon.Proofs.Delivery
import EdgeIpc.Lib.Fair

namespace EdgeIpc.Daemon

open Lib

namespace StateManager

variable {R : Type} {s s' : StateManager R} {t : Tid}

-- ================================================================== calls

/-- How many accesses a call has left at most, if its compare-exchange
does not fail for no reason and nobody else writes `state_`. -/
def callLeft (st : DaemonState) : Pc R → Nat
  | .idle => 0
  | .callAlarmCb _ _ => 1
  | .copyAlarmCb _ => 2
  | .callStateCb _ _ _ none => 1
  | .callStateCb _ _ _ (some _) => 3
  | .copyStateCb _ _ none => 2
  | .copyStateCb _ _ (some _) => 4
  | .faultCas _ => 5
  | .shutdownExchange => 3
  | .haltExchange _ => 3
  | .haltLoad => 4
  | .startLoop prev => if prev = st then 3 else 4
  | .startLoad => 4

theorem callLeft_idle (st : DaemonState) : callLeft st (.idle : Pc R) = 0 :=
  rfl

/-- A thread inside a call can always go on. -/
theorem threadStep_of_busy (h : s.pc t ≠ .idle) (spurious : Bool) :
    ∃ s', s.threadStep t spurious = some s' := by
  unfold threadStep
  split
  next hpc => exact absurd hpc h
  all_goals exact ⟨_, rfl⟩

/-- Every access brings a call nearer to its end. -/
theorem callLeft_lt (h : s.threadStep t false = some s') :
    callLeft s'.state (s'.pc t) < callLeft s.state (s.pc t) := by
  simp only [threadStep] at h
  cases hpc : s.pc t <;> rw [hpc] at h <;> cases h
  case startLoad => simp [goto, callLeft]
  case startLoop prev =>
      have hpos : 0 < callLeft s.state (.startLoop prev : Pc R) := by
        simp only [callLeft]
        split <;> omega
      unfold startLoop
      split
      · simpa [throwLogic, record, goto, callLeft_idle] using hpos
      split
      · simpa [throwLogic, record, goto, callLeft_idle] using hpos
      split
      next heq => simp [writeState, goto, callLeft, heq.1]
      next hne =>
        have hst : prev ≠ s.state := fun heq => hne ⟨heq.symm, rfl⟩
        simp [goto, callLeft, hst]
  case haltLoad =>
      unfold haltLoad
      split <;> simp [leave, record, goto, callLeft]
  case haltExchange => simp [transition, writeState, goto, callLeft]
  case faultCas a =>
      unfold faultCas
      split <;> simp [leave, record, writeState, goto, callLeft]
  case shutdownExchange => simp [transition, writeState, goto, callLeft]
  case copyStateCb next prev alarm => cases alarm <;> simp [goto, callLeft]
  case callStateCb next prev cb alarm =>
      cases alarm <;> cases cb <;>
        simp [callStateCb, leave, record, goto, callLeft]
  case copyAlarmCb => simp [goto, callLeft]
  case callAlarmCb a cb =>
      cases cb <;> simp [callAlarmCb, leave, record, goto, callLeft]

end StateManager

namespace EdgeDaemon

open StateManager TelemetryReceiver

variable {K : Type} {s s' : EdgeDaemon K}
  {movedFrom : TelemetryFrame K → TelemetryFrame K}

-- ====================================================== the control points

/-- The threads are inside `push` and `pop` exactly when they say so. -/
structure Aligned (s : EdgeDaemon K) : Prop where
  push : s.rx.producer = .idle ↔ s.producer ≠ .pushing
  pop : s.rx.consumer = .idle ↔ s.main ≠ .popping

/-- Inside `while (rx.pop(frame))`. -/
def Inner : MainPc K → Prop
  | .pop => True
  | .popping => True
  | .process _ => True
  | .faulting => True
  | _ => False

/-- What only `main` changes. -/
structure Spared (s s' : EdgeDaemon K) : Prop where
  main : s'.main = s.main
  consumer : s'.rx.consumer = s.rx.consumer
  popped : s'.rx.popped = s.rx.popped
  processed : s'.processed = s.processed
  stop : s'.producerStop = s.producerStop
  pc : s'.sm.pc mainTid = s.sm.pc mainTid

/-- A move of the producer thread, and what `push` is doing then. -/
inductive ProducerArm (s : EdgeDaemon K) (frame : Option (TelemetryFrame K)) :
    EdgeDaemon K → Prop
  | check (hp : s.producer = .check) :
      ProducerArm s frame
        { s with producer := if s.producerStop then .done else .read }
  | nothing (hp : s.producer = .read) (hf : frame = none) :
      ProducerArm s frame { s with producer := .check }
  | push {f : TelemetryFrame K} (hp : s.producer = .read)
      (hf : frame = some f) (hidle : s.rx.producer = .idle) :
      ProducerArm s frame
        { s with
          rx := { s.rx with producer := .loadHead f s.rx.tail }
          producer := .pushing }
  | access {rx : TelemetryReceiver K} (hp : s.producer = .pushing)
      (hrx : s.rx.pushStep = some rx) :
      ProducerArm s frame
        { s with
          rx
          producer := match rx.producer with
            | .idle => .check
            | _ => .pushing }

theorem producerStep_arm {frame : Option (TelemetryFrame K)}
    (h : s.producerStep movedFrom frame = some s') :
    ProducerArm s frame s' := by
  unfold producerStep at h
  split at h
  next hp => exact Option.some.inj h ▸ .check hp
  next hp =>
    split at h
    next => exact Option.some.inj h ▸ .nothing hp rfl
    next f =>
      obtain ⟨rx, hrx, rfl⟩ := Option.map_eq_some_iff.mp h
      cases step_move hrx with
      | push hidle => exact .push hp rfl hidle
  next hp =>
    obtain ⟨rx, hrx, rfl⟩ := Option.map_eq_some_iff.mp h
    exact .access hp hrx
  next => cases h

/-- `push` does not touch what belongs to `pop`. -/
theorem pushStep_spares {r r' : TelemetryReceiver K}
    (h : r.pushStep = some r') :
    r'.consumer = r.consumer ∧ r'.popped = r.popped := by
  have hm : RingMove id r .producer r' := step_move h
  cases hm <;> exact ⟨rfl, rfl⟩

/-- `pop` does not touch what belongs to `push`. -/
theorem popStep_spares {r r' : TelemetryReceiver K}
    (h : r.popStep movedFrom = some r') :
    r'.producer = r.producer ∧ r'.pushed = r.pushed := by
  have hm : RingMove movedFrom r .consumer r' := step_move h
  cases hm <;> exact ⟨rfl, rfl⟩

theorem producerStep_spares {frame : Option (TelemetryFrame K)}
    (h : s.producerStep movedFrom frame = some s') : Spared s s' := by
  cases producerStep_arm h with
  | check => exact ⟨rfl, rfl, rfl, rfl, rfl, rfl⟩
  | nothing => exact ⟨rfl, rfl, rfl, rfl, rfl, rfl⟩
  | push => exact ⟨rfl, rfl, rfl, rfl, rfl, rfl⟩
  | access hp hrx =>
      obtain ⟨hc, hpop⟩ := pushStep_spares hrx
      exact ⟨rfl, hc, hpop, rfl, rfl, rfl⟩

theorem aligned_producer {frame : Option (TelemetryFrame K)}
    (ha : Aligned s) (h : s.producerStep movedFrom frame = some s') :
    Aligned s' := by
  have hsp := producerStep_spares h
  refine ⟨?_, ?_⟩
  · cases producerStep_arm h with
    | check hp =>
        have hidle := ha.push.mpr (by rw [hp]; decide)
        refine iff_of_true hidle ?_
        dsimp only
        split <;> decide
    | nothing hp =>
        exact iff_of_true (ha.push.mpr (by rw [hp]; decide)) nofun
    | push => exact iff_of_false (by simp) (by simp)
    | @access rx hp hrx =>
        dsimp only
        split
        next hidle => exact iff_of_true hidle (by decide)
        next hbusy => exact iff_of_false hbusy (by simp)
  · rw [hsp.consumer, hsp.main]
    exact ha.pop

theorem aligned_init [Zero K] [OfScientific K] (blank : TelemetryFrame K) :
    Aligned (init blank) :=
  ⟨iff_of_true rfl nofun, iff_of_true rfl nofun⟩

theorem afterCall_cases (sm : StateManager K) (inside out : MainPc K) :
    afterCall sm inside out = inside ∨ afterCall sm inside out = out := by
  unfold afterCall
  split
  · exact .inr rfl
  · exact .inl rfl

/-- An access of the bus worker leaves the main thread where it is. -/
theorem threadStep_bus_pc {sm : StateManager K} {b : Bool}
    (h : s.sm.threadStep busTid b = some sm) :
    sm.pc mainTid = s.sm.pc mainTid := by
  obtain ⟨p, es, next, hm⟩ := threadStep_moves h
  exact hm.others mainTid (by decide)

-- ================================================================= the loops

/-- What is left of a `pop`. -/
def popLeft : PopPc K → Nat
  | .idle => 0
  | .loadTail _ => 3
  | .readSlot _ => 2
  | .storeHead _ _ => 1

/-- Where `main` is on the way round its loops. -/
def loopLeft (s : EdgeDaemon K) : Nat :=
  match s.main with
  | .check => 11
  | .process _ => 10
  | .faulting => 4 + callLeft s.sm.state (s.sm.pc mainTid)
  | .pop => 4
  | .popping => popLeft s.rx.consumer
  | _ => 0

/-- The frames to pop until there are `n`, and the place in the loops: a
round takes less than 16 steps. -/
def loopRank (n : Nat) (s : EdgeDaemon K) : Nat :=
  16 * (n - s.rx.popped.length) + loopLeft s

/-- Outside `start`, nobody else's write matters. -/
theorem callLeft_state {p : Pc K} (h : ∀ prev, p ≠ .startLoop prev)
    (st st' : DaemonState) : callLeft st p = callLeft st' p := by
  cases p with
  | startLoop prev => exact absurd rfl (h prev)
  | copyStateCb next prev alarm => cases alarm <;> rfl
  | callStateCb next prev cb alarm => cases alarm <;> rfl
  | _ => rfl

/-- A step of `main` inside the loops: it has found the ring empty, or it
is further on its way round. -/
inductive LoopStep (n : Nat) (s s' : EdgeDaemon K) : Prop
  | back (hold : s.main = .popping) (hnew : s'.main = .check)
      (hempty : s.rx.pushed.length = s.rx.popped.length)
  | on (hnew : Inner s'.main) (hrank : loopRank n s' < loopRank n s)

theorem loopStep_fault {n : Nat} {sm : StateManager K}
    (hm : s.main = .faulting)
    (hsm : s.sm.threadStep mainTid false = some sm) :
    LoopStep n s { s with sm, main := afterCall sm .faulting .pop } := by
  have hlt := callLeft_lt hsm
  by_cases hpc : sm.pc mainTid = .idle
  · rw [afterCall_of_idle hpc]
    refine .on trivial ?_
    simp only [loopRank, loopLeft, hm]
    omega
  · rw [afterCall_of_busy hpc]
    refine .on trivial ?_
    simp only [loopRank, loopLeft, hm]
    omega

-- ============================================================== main's moves

section Moves

variable [Add K] [Sub K] [Div K] [NatCast K] [LT K] [DecidableLT K]
  [OfScientific K]

/-- The moves of `main`, one by one. -/
inductive MainGoes (movedFrom : TelemetryFrame K → TelemetryFrame K)
    (s : EdgeDaemon K) : EdgeDaemon K → Prop
  | check (hm : s.main = .check) :
      MainGoes movedFrom s
        { s with main := if s.quit then .stopProducer else .pop }
  | pop (hm : s.main = .pop) (hidle : s.rx.consumer = .idle) :
      MainGoes movedFrom s
        { s with
          rx := { s.rx with consumer := .loadTail s.rx.head }
          main := .popping }
  | popping {rx : TelemetryReceiver K} (hm : s.main = .popping)
      (hrx : s.rx.popStep movedFrom = some rx) :
      MainGoes movedFrom s { s with rx, main := afterPop s.rx rx }
  | process {f : TelemetryFrame K} {next : EdgeDaemon K}
      (hm : s.main = .process f) (hframe : s.processFrame f = some next) :
      MainGoes movedFrom s next
  | fault {sm : StateManager K} (hm : s.main = .faulting)
      (hsm : s.sm.threadStep mainTid false = some sm) :
      MainGoes movedFrom s { s with sm, main := afterCall sm .faulting .pop }
  | stopProducer (hm : s.main = .stopProducer) :
      MainGoes movedFrom s { s with producerStop := true, main := .join }
  | join (hm : s.main = .join) (hp : s.producer = .done) :
      MainGoes movedFrom s { s with main := .shutdown }
  | shutdown (hm : s.main = .shutdown) (hidle : s.sm.pc mainTid = .idle) :
      MainGoes movedFrom s
        { s with
          sm := s.sm.goto mainTid .shutdownExchange
          main := .shuttingDown }
  | close {sm : StateManager K} (hm : s.main = .shuttingDown)
      (hsm : s.sm.threadStep mainTid false = some sm) :
      MainGoes movedFrom s
        { s with sm, main := afterCall sm .shuttingDown .clearStateCb }
  | clearStateCb (hm : s.main = .clearStateCb) :
      MainGoes movedFrom s
        { s with
          sm := { s.sm with stateChangedCb := false }
          main := .clearAlarmCb }
  | clearAlarmCb (hm : s.main = .clearAlarmCb) :
      MainGoes movedFrom s
        { s with sm := { s.sm with alarmCb := false }, main := .stopBus }
  | stopBus (hm : s.main = .stopBus) (hb : s.sm.pc busTid = .idle) :
      MainGoes movedFrom s { s with main := .done }

theorem mainStep_goes (h : s.mainStep movedFrom = some s') :
    MainGoes movedFrom s s' := by
  unfold mainStep at h
  split at h
  next hm => exact Option.some.inj h ▸ .check hm
  next hm =>
    obtain ⟨rx, hrx, rfl⟩ := Option.map_eq_some_iff.mp h
    cases step_move hrx with
    | pop hidle => exact .pop hm hidle
  next hm =>
    obtain ⟨rx, hrx, rfl⟩ := Option.map_eq_some_iff.mp h
    exact .popping hm hrx
  next f hm => exact .process hm h
  next hm =>
    obtain ⟨sm, hsm, rfl⟩ := Option.map_eq_some_iff.mp h
    exact .fault hm hsm
  next hm => exact Option.some.inj h ▸ .stopProducer hm
  next hm =>
    split at h
    next hp => exact Option.some.inj h ▸ .join hm hp
    next => cases h
  next hm =>
    obtain ⟨sm, hsm, rfl⟩ := Option.map_eq_some_iff.mp h
    simp only [StateManager.step] at hsm
    split at hsm
    next hidle => exact Option.some.inj hsm ▸ .shutdown hm hidle
    next => cases hsm
  next hm =>
    obtain ⟨sm, hsm, rfl⟩ := Option.map_eq_some_iff.mp h
    exact .close hm hsm
  next hm => exact Option.some.inj h ▸ .clearStateCb hm
  next hm => exact Option.some.inj h ▸ .clearAlarmCb hm
  next hm =>
    split at h
    next hb => exact Option.some.inj h ▸ .stopBus hm hb
    next => cases h
  next => cases h

/-- What `main` does inside `processFrame`. -/
theorem processFrame_goes {f : TelemetryFrame K}
    (h : s.processFrame f = some s') :
    s'.rx = s.rx ∧ s'.producer = s.producer ∧ s'.quit = s.quit
      ∧ s'.producerStop = s.producerStop
      ∧ (s'.main = .faulting ∨ s'.main = .pop) := by
  unfold processFrame at h
  dsimp only at h
  split at h
  · obtain ⟨sm, -, rfl⟩ := Option.map_eq_some_iff.mp h
    exact ⟨rfl, rfl, rfl, rfl, .inl rfl⟩
  · obtain rfl := Option.some.inj h
    exact ⟨rfl, rfl, rfl, rfl, .inr rfl⟩

theorem aligned_main (ha : Aligned s)
    (h : s.mainStep movedFrom = some s') : Aligned s' := by
  -- a move past `pop`, from a point outside it to another
  have haside : ∀ {t : EdgeDaemon K}, t.rx = s.rx → t.producer = s.producer →
      s.main ≠ .popping → t.main ≠ .popping → Aligned t := by
    intro t hrx hp hold hnew
    refine ⟨?_, iff_of_true ?_ hnew⟩
    · rw [hrx, hp]
      exact ha.push
    · rw [hrx]
      exact ha.pop.mpr hold
  cases mainStep_goes h with
  | check hm =>
      refine haside rfl rfl (by simp [hm]) ?_
      dsimp only
      split <;> simp
  | pop hm hidle => exact ⟨ha.push, iff_of_false nofun (by simp)⟩
  | @popping rx hm hrx =>
      refine ⟨?_, ?_⟩
      · rw [(popStep_spares hrx).1]
        exact ha.push
      · show rx.consumer = .idle ↔ afterPop s.rx rx ≠ .popping
        unfold afterPop
        cases hc : rx.consumer with
        | idle =>
            refine iff_of_true rfl ?_
            dsimp only
            split <;> simp
        | loadTail => exact iff_of_false nofun (by simp)
        | readSlot => exact iff_of_false nofun (by simp)
        | storeHead => exact iff_of_false nofun (by simp)
  | process hm hframe =>
      obtain ⟨hrx, hp, -, -, hmain⟩ := processFrame_goes hframe
      refine haside hrx hp (by simp [hm]) ?_
      rcases hmain with hmain | hmain <;> simp [hmain]
  | @fault sm hm hsm =>
      refine haside rfl rfl (by simp [hm]) ?_
      rcases afterCall_cases sm .faulting .pop with hc | hc <;> simp [hc]
  | stopProducer hm => exact haside rfl rfl (by simp [hm]) nofun
  | join hm => exact haside rfl rfl (by simp [hm]) nofun
  | shutdown hm => exact haside rfl rfl (by simp [hm]) nofun
  | @close sm hm hsm =>
      refine haside rfl rfl (by simp [hm]) ?_
      rcases afterCall_cases sm .shuttingDown .clearStateCb with hc | hc <;>
        simp [hc]
  | clearStateCb hm => exact haside rfl rfl (by simp [hm]) nofun
  | clearAlarmCb hm => exact haside rfl rfl (by simp [hm]) nofun
  | stopBus hm => exact haside rfl rfl (by simp [hm]) nofun

/-- What a move of another thread than `main` does. -/
theorem step_cases {a : DaemonAct K} (h : step movedFrom a s = some s') :
    (a = .main ∧ s.mainStep movedFrom = some s')
    ∨ (∃ f, a = .producer f ∧ s.producerStep movedFrom f = some s')
    ∨ (a = .signal ∧ s' = { s with quit := true })
    ∨ (∃ m sm, a = .method m ∧ s.main ≠ .done
      ∧ sm = s.sm.goto busTid (entry m.call) ∧ s' = { s with sm })
    ∨ ∃ b sm, a = .bus b ∧ s.sm.threadStep busTid b = some sm
      ∧ s' = { s with sm } := by
  cases a with
  | signal => exact .inr (.inr (.inl ⟨rfl, (Option.some.inj h).symm⟩))
  | producer f => exact .inr (.inl ⟨f, rfl, h⟩)
  | main => exact .inl ⟨rfl, h⟩
  | method m =>
      simp only [step] at h
      split at h
      next => cases h
      next hne =>
        obtain ⟨sm, hsm, rfl⟩ := Option.map_eq_some_iff.mp h
        exact .inr (.inr (.inr (.inl ⟨m, sm, rfl, hne, call_aside hsm, rfl⟩)))
  | bus b =>
      obtain ⟨sm, hsm, rfl⟩ := Option.map_eq_some_iff.mp h
      exact .inr (.inr (.inr (.inr ⟨b, sm, rfl, hsm, rfl⟩)))

theorem spared_of_step {a : DaemonAct K} (hne : a ≠ .main)
    (h : step movedFrom a s = some s') : Spared s s' := by
  rcases step_cases h with ⟨ha, -⟩ | ⟨f, -, hp⟩ | ⟨-, rfl⟩
    | ⟨m, sm, -, -, rfl, rfl⟩ | ⟨b, sm, -, hb, rfl⟩
  · exact absurd ha hne
  · exact producerStep_spares hp
  · exact ⟨rfl, rfl, rfl, rfl, rfl, rfl⟩
  · exact ⟨rfl, rfl, rfl, rfl, rfl, goto_pc_ne _ _ (by decide)⟩
  · exact ⟨rfl, rfl, rfl, rfl, rfl, threadStep_bus_pc hb⟩

theorem aligned_step {a : DaemonAct K} (ha : Aligned s)
    (h : step movedFrom a s = some s') : Aligned s' := by
  rcases step_cases h with ⟨-, hm⟩ | ⟨f, -, hp⟩ | ⟨-, rfl⟩
    | ⟨m, sm, -, -, rfl, rfl⟩ | ⟨b, sm, -, -, rfl⟩
  · exact aligned_main ha hm
  · exact aligned_producer ha hp
  · exact ⟨ha.push, ha.pop⟩
  · exact ⟨ha.push, ha.pop⟩
  · exact ⟨ha.push, ha.pop⟩

/-- `g_quit` is set by the signal and by nothing else. -/
theorem quit_of_step {a : DaemonAct K} (ha : a ≠ .signal)
    (h : step movedFrom a s = some s') : s'.quit = s.quit := by
  rcases step_cases h with ⟨-, hm⟩ | ⟨f, -, hp⟩ | ⟨hs, -⟩
    | ⟨m, sm, -, -, -, rfl⟩ | ⟨b, sm, -, -, rfl⟩
  · cases mainStep_goes hm with
    | process _ hframe => exact (processFrame_goes hframe).2.2.1
    | _ => rfl
  · cases producerStep_arm hp <;> rfl
  · exact absurd hs ha
  · rfl
  · rfl

/-- Pushed frames stay pushed. -/
theorem pushed_pre {a : DaemonAct K} (h : step movedFrom a s = some s') :
    s.rx.pushed <+: s'.rx.pushed := by
  rcases ring_of_step h with ⟨hrx, -⟩ | ⟨b, hb, -⟩
  · rw [hrx]
  · have hm := step_move hb
    generalize s'.rx = rx at hm
    cases hm with
    | store => exact List.prefix_append _ _
    | _ => exact List.prefix_rfl

/-- From inside the inner loop `main` goes on there or back to its head. -/
theorem inner_main (hin : Inner s.main)
    (h : s.mainStep movedFrom = some s') :
    s'.main = .check ∨ Inner s'.main := by
  cases mainStep_goes h with
  | pop => exact .inr trivial
  | @popping rx =>
      dsimp only [afterPop]
      split
      · split
        · exact .inr trivial
        · exact .inl rfl
      · exact .inr trivial
  | process _ hframe =>
      obtain ⟨-, -, -, -, hmain | hmain⟩ := processFrame_goes hframe
      · exact .inr (by rw [hmain]; trivial)
      · exact .inr (by rw [hmain]; trivial)
  | @fault sm =>
      refine .inr ?_
      rcases afterCall_cases sm .faulting .pop with hc | hc <;>
        (dsimp only; rw [hc]; trivial)
  | check hm | stopProducer hm | join hm | shutdown hm | close hm
  | clearStateCb hm | clearAlarmCb hm | stopBus hm =>
      rw [hm] at hin
      cases hin

/-- Without the signal `main` stays in its loops. -/
theorem loops_main (hl : s.main = .check ∨ Inner s.main)
    (hq : s.quit = false) (h : s.mainStep movedFrom = some s') :
    s'.main = .check ∨ Inner s'.main := by
  rcases hl with hm | hin
  · simp only [mainStep, hm] at h
    obtain rfl := Option.some.inj h
    simp [hq, Inner]
  · exact inner_main hin h

end Moves

-- =========================================================== round the loops

variable [Zero K] [Add K] [Sub K] [Div K] [NatCast K] [LT K] [OfScientific K]

/-- `main` is never inside a `start`. -/
theorem MainCall.not_starting (hc : MainCall s) (prev : DaemonState) :
    s.sm.pc mainTid ≠ .startLoop prev := by
  intro hpc
  cases hc with
  | between os _ hp => rw [hpc] at hp; cases hp
  | faulting fs f os _ _ _ hp => rw [hpc] at hp; cases hp
  | closing os _ hp => rw [hpc] at hp; cases hp
  | closed os st _ hp => rw [hpc] at hp; cases hp

variable [DecidableLT K]

theorem callLeft_spared (hi : DaemonInv s) (h : Spared s s') :
    callLeft s'.sm.state (s'.sm.pc mainTid)
      = callLeft s.sm.state (s.sm.pc mainTid) := by
  rw [h.pc]
  exact callLeft_state hi.call.not_starting _ _

/-- Nobody else moves `main` round its loops. -/
theorem loopRank_spared (n : Nat) (hi : DaemonInv s) (h : Spared s s') :
    loopRank n s' = loopRank n s := by
  simp only [loopRank, loopLeft, h.popped, h.main, h.consumer,
    callLeft_spared hi h]

theorem loopStep_popping {n : Nat} {rx : TelemetryReceiver K}
    (hi : DaemonInv s) (hm : s.main = .popping)
    (hn : ∀ h out, s.rx.consumer = .storeHead h out →
      s.rx.popped.length < n)
    (hrx : s.rx.popStep movedFrom = some rx) :
    LoopStep n s { s with rx, main := afterPop s.rx rx } := by
  have hmove : RingMove movedFrom s.rx .consumer rx := step_move hrx
  have hc := hi.sampled.ring.consumer
  cases hmove with
  | miss hpc hempty =>
      rw [hpc] at hc
      have hz := unpopped_of_empty hi.sampled.ring (hc.symm.trans hempty)
      have hle := hi.sampled.ring.le
      unfold unpopped at hz
      refine .back hm ?_ (by omega)
      simp [afterPop, hpc]
  | find hpc hframe =>
      refine .on trivial ?_
      simp [loopRank, loopLeft, hm, afterPop, popLeft, hpc]
  | read hpc =>
      refine .on trivial ?_
      simp [loopRank, loopLeft, hm, afterPop, popLeft, hpc]
  | @release h out hpc =>
      have hlt := hn h out hpc
      have hnew : afterPop s.rx
          { s.rx with
            head := (h + 1) % capacity
            consumer := .idle
            popped := s.rx.popped ++ [out] } = .process out := by
        simp [afterPop, hpc]
      rw [hnew]
      refine .on trivial ?_
      simp only [loopRank, loopLeft, hm, popLeft, hpc, List.length_append,
        List.length_singleton]
      omega

theorem loopStep_process {n : Nat} {f : TelemetryFrame K}
    (hi : DaemonInv s) (hm : s.main = .process f)
    (h : s.processFrame f = some s') : LoopStep n s s' := by
  obtain ⟨-, hrx, -, hend⟩ := processFrame_cases hi.sampled h
  rcases hend with ⟨-, hmain, -, hsm⟩ | ⟨-, hmain, -⟩
  · refine .on (by rw [hmain]; trivial) ?_
    simp [loopRank, loopLeft, hm, hmain, hrx, hsm, goto_pc_self, callLeft]
  · refine .on (by rw [hmain]; trivial) ?_
    simp [loopRank, loopLeft, hm, hmain, hrx]

/-- Inside the inner loop `main` can always go on, and does. -/
theorem inner_step (movedFrom : TelemetryFrame K → TelemetryFrame K)
    (n : Nat) (hi : DaemonInv s) (ha : Aligned s) (hin : Inner s.main)
    (hn : ∀ h out, s.rx.consumer = .storeHead h out →
      s.rx.popped.length < n) :
    ∃ s', step movedFrom .main s = some s' ∧ LoopStep n s s' := by
  simp only [step, mainStep]
  cases hm : s.main with
  | pop =>
      have hidle := ha.pop.mpr (by simp [hm])
      simp only [TelemetryReceiver.step, hidle]
      refine ⟨_, rfl, .on trivial ?_⟩
      simp [loopRank, loopLeft, hm, popLeft]
  | popping =>
      have hbusy : s.rx.consumer ≠ .idle := fun hc => ha.pop.mp hc hm
      have hrx : ∃ rx, s.rx.popStep movedFrom = some rx := by
        unfold popStep
        cases hc : s.rx.consumer with
        | idle => exact absurd hc hbusy
        | loadTail => dsimp only; split <;> exact ⟨_, rfl⟩
        | readSlot => exact ⟨_, rfl⟩
        | storeHead => exact ⟨_, rfl⟩
      obtain ⟨rx, hrx⟩ := hrx
      simp only [TelemetryReceiver.step, hrx]
      exact ⟨_, rfl, loopStep_popping hi hm hn hrx⟩
  | process f =>
      have hidle := hi.call.idle (by rw [hm]; trivial)
      have hframe : ∃ s', s.processFrame f = some s' := by
        simp only [processFrame, StateManager.step, hidle]
        split <;> exact ⟨_, rfl⟩
      obtain ⟨s', hs'⟩ := hframe
      exact ⟨s', hs', loopStep_process hi hm hs'⟩
  | faulting =>
      obtain ⟨sm, hsm⟩ := threadStep_of_busy (hi.call.busy (.inl hm)) false
      simp only [StateManager.step, hsm]
      exact ⟨_, rfl, loopStep_fault hm hsm⟩
  | _ => rw [hm] at hin; cases hin

-- ====================================================== frames get processed

/-- What holds as long as the signal has not come: `main` is in its
loops. -/
structure Running (n : Nat) (s : EdgeDaemon K) : Prop where
  inv : DaemonInv s
  aligned : Aligned s
  loops : s.main = .check ∨ Inner s.main
  quit : s.quit = false
  pushed : n ≤ s.rx.pushed.length

theorem running_step {n : Nat} {a : DaemonAct K} (hr : Running n s)
    (ha : a ≠ .signal) (h : step movedFrom a s = some s') :
    Running n s' := by
  refine ⟨daemonInv_step hr.inv h, aligned_step hr.aligned h, ?_,
    (quit_of_step ha h).trans hr.quit,
    hr.pushed.trans (pushed_pre h).length_le⟩
  by_cases hm : a = .main
  · subst hm
    exact loops_main hr.loops hr.quit h
  · rw [(spared_of_step hm h).main]
    exact hr.loops

/-- While there is a frame to come, a step of `main` is progress. -/
theorem running_main (movedFrom : TelemetryFrame K → TelemetryFrame K)
    {n : Nat} (hr : Running n s)
    (hlt : s.processed.length < n) :
    ∃ s', step movedFrom .main s = some s' ∧ Inner s'.main
      ∧ loopRank n s' < loopRank n s := by
  have hpopped := hr.inv.sampled.popped
  rcases hr.loops with hm | hin
  · refine ⟨_, by simp only [step, mainStep, hm]; rfl, ?_, ?_⟩
    · simp [hr.quit, Inner]
    · simp [loopRank, loopLeft, hm, hr.quit]
  · -- nothing is in hand while the ring is being read
    have hhand : s.main = .popping → s.rx.popped.length < n := by
      intro hm
      rw [hpopped, hm]
      simpa [inHand] using hlt
    have hat : ∀ h out, s.rx.consumer = .storeHead h out →
        s.rx.popped.length < n := by
      intro h out hc
      by_cases hm : s.main = .popping
      · exact hhand hm
      · rw [hr.aligned.pop.mpr hm] at hc
        cases hc
    obtain ⟨s', hs', hstep⟩ :=
      inner_step movedFrom n hr.inv hr.aligned hin hat
    cases hstep with
    | back hold _ hempty =>
        have hp := hr.pushed
        have hlt' := hhand hold
        omega
    | on hnew hrank => exact ⟨s', hs', hnew, hrank⟩

/-- `main`'s turns are the progress. -/
theorem running_help {n : Nat} {a : DaemonAct K} (hr : Running n s)
    (hlt : ¬ n ≤ s.processed.length) (_ : a ≠ .signal) (ha : a = .main) :
    ∃ s', step movedFrom a s = some s'
      ∧ (n ≤ s'.processed.length ∨ loopRank n s' < loopRank n s) := by
  subst ha
  obtain ⟨s', hs', -, hrank⟩ :=
    running_main movedFrom hr (Nat.lt_of_not_le hlt)
  exact ⟨s', hs', .inr hrank⟩

/-- No other turn undoes it. -/
theorem running_keep {n : Nat} {a : DaemonAct K} (hr : Running n s)
    (hlt : ¬ n ≤ s.processed.length) (ha : a ≠ .signal)
    (h : step movedFrom a s = some s') :
    n ≤ s'.processed.length ∨ loopRank n s' < loopRank n s
      ∨ (loopRank n s' = loopRank n s ∧ () = ()) := by
  by_cases hm : a = .main
  · obtain ⟨t, ht, hend⟩ := running_help hr hlt ha hm
    obtain rfl := Option.some.inj (h.symm.trans ht)
    exact hend.imp id .inl
  · have hsame := loopRank_spared n hr.inv (spared_of_step hm h)
    exact .inr (.inr ⟨hsame, rfl⟩)

/-- The processed frames are a prefix of the accepted ones. -/
theorem processed_pre {blank : TelemetryFrame K}
    (hr : Reachable (step movedFrom) (init blank) s) :
    s.processed <+: s.rx.pushed := by
  refine List.IsPrefix.trans ?_ (popped_pre hr)
  rw [(daemonInv_reachable hr).sampled.popped]
  exact List.prefix_append _ _

theorem running_trace (movedFrom : TelemetryFrame K → TelemetryFrame K)
    (blank : TelemetryFrame K) {sched : Nat → DaemonAct K}
    (hsig : ∀ n, sched n ≠ .signal) (n : Nat) :
    Running 0 (trace (step movedFrom) sched (init blank) n) := by
  have hinit : Running 0 (trace (step movedFrom) sched (init blank) 0) :=
    ⟨daemonInv_init blank, aligned_init blank, .inl rfl, rfl, Nat.zero_le _⟩
  exact trace_keeps_of (Running 0) (fun a => a ≠ .signal)
    (fun m _ => hsig m) running_step hinit (Nat.zero_le n)

/-- Frames the ring accepts do not wait forever. Whatever the producer,
the bus and the source do, if `main` keeps getting its turns and the
signal never comes: all frames pushed so far have at some later point
been handed to `process`, in order. -/
theorem accepted_processed (blank : TelemetryFrame K)
    {sched : Nat → DaemonAct K} (hmain : Recurs sched (· = .main))
    (hsig : ∀ n, sched n ≠ .signal) (n : Nat) :
    ∃ m, n ≤ m
      ∧ (trace (step movedFrom) sched (init blank) n).rx.pushed
        <+: (trace (step movedFrom) sched (init blank) m).processed := by
  have hrun := running_trace movedFrom blank hsig n
  have hreach := trace_reachable (step movedFrom) sched (init blank)
  generalize hlen :
    (trace (step movedFrom) sched (init blank) n).rx.pushed.length = len
  have hstart : Running len (trace (step movedFrom) sched (init blank) n) :=
    ⟨hrun.inv, hrun.aligned, hrun.loops, hrun.quit, hlen.ge⟩
  obtain ⟨m, hm, hgoal⟩ := reaches_of_helpful (Running len)
    (fun s => len ≤ s.processed.length) (fun a => a ≠ .signal)
    (fun (_ : Unit) a => a = .main) (loopRank len) (fun _ => ())
    (fun _ => hmain) (fun m _ => hsig m)
    (fun hr _ ha h => .inr (running_step hr ha h)) running_keep running_help
    hstart
  refine ⟨m, hm, ?_⟩
  have hpre := trace_keeps
    (fun s => (trace (step movedFrom) sched (init blank) n).rx.pushed
      <+: s.rx.pushed)
    (fun hs h => hs.trans (pushed_pre h)) List.prefix_rfl hm
  have hdone := processed_pre (hreach m)
  exact List.prefix_of_prefix_length_le hpre hdone (hlen.trans_le hgoal)

/-- A source that always has a frame, and `main` in turn. -/
def busySource (f : TelemetryFrame ℚ) (n : Nat) : DaemonAct ℚ :=
  match n % 2 with
  | 0 => .producer (some f)
  | _ => .main

/-- The frame such a daemon accepts first gets processed. -/
theorem accepted_processed_busy :
    ∃ m, [⟨"sensor0", 42, 7⟩] <+: (trace (step id)
      (busySource ⟨"sensor0", 42, 7⟩) (init ⟨"", 0, 0⟩) m).processed := by
  have hturn : ∀ n, busySource ⟨"sensor0", 42, 7⟩ (2 * n + 1) = .main := by
    intro n
    simp [busySource]
  have hsig : ∀ n, busySource ⟨"sensor0", 42, 7⟩ n ≠ .signal := by
    intro n
    simp only [busySource]
    split <;> nofun
  have hpushed : (trace (step id) (busySource ⟨"sensor0", 42, 7⟩)
      (init ⟨"", 0, 0⟩) 9).rx.pushed = [⟨"sensor0", 42, 7⟩] := by
    decide +kernel
  obtain ⟨m, -, hm⟩ := accepted_processed ⟨"", 0, 0⟩
    (fun n => ⟨2 * n + 1, by omega, hturn n⟩) hsig 9
  exact ⟨m, hpushed ▸ hm⟩

end EdgeDaemon

end EdgeIpc.Daemon
