/-
When the daemon faults, and what its alarms say.

`fault_on_three_outside` puts the main loop's invariant
(Proofs/MainLoop.lean) into the terms of the ring: RUNNING turns to FAULT
only under the main loop's hands, on a frame that ends three popped
frames out of band; such a frame always gets its compare-exchange; and
the main thread's log is, frame by frame, what `Handled` lists, so a
frame whose compare-exchange won has raised exactly one alarm.

The alarm itself carries what the filter returned and the literal 80,
whichever side of the band the samples left. So it is evidence of what
raised it exactly when the filter's running sum over the samples popped,
divided by its count, is above 80 (`alarms_evident_iff`); three samples
below 20 are the plain counterexample (`low_samples_not_evident`).

No law of the sample arithmetic is used: it may be that of `double`,
whose sums round and whose `nan` is in no band and out of none.
-/
import EdgeIpc.Daemon.Proofs.MainLoop
import EdgeIpc.Lib.Nan
import Mathlib.Algebra.Order.Field.Basic
import Mathlib.Tactic.NormNum.GCD
import Mathlib.Tactic.NormNum.OfScientific

namespace EdgeIpc.Daemon

open Lib StateManager ThresholdDetector

namespace EdgeDaemon

variable {K : Type} {s s' : EdgeDaemon K}
  {movedFrom : TelemetryFrame K → TelemetryFrame K}

-- ================================================================== an alarm

/-- Before the access that emits the alarm. -/
def atAlarm : Pc K → Bool
  | .callAlarmCb _ _ => true
  | _ => false

/-- The step takes the access that emits an alarm. -/
def emits (s : EdgeDaemon K) : DaemonAct K → Bool
  | .main => atAlarm (s.sm.pc mainTid)
  | _ => false

theorem atAlarm_eq_true {p : Pc K} :
    atAlarm p = true ↔ ∃ al cb, p = .callAlarmCb al cb := by
  cases p <;> simp [atAlarm]

section Alarm

variable [Zero K] [Add K] [Sub K] [Div K] [NatCast K] [LT K] [OfScientific K]

/-- The alarm's value lies beyond its threshold, on the side that the
threshold bounds. -/
def Evident (a : Alarm K) : Prop :=
  (a.threshold = 80.0 ∧ a.threshold < a.value)
    ∨ (a.threshold = 20.0 ∧ a.value < a.threshold)

/-- The alarm of a frame is evidence exactly when the filter returned
more than 80 for it. -/
theorem evident_alarmFor (hband : (80.0 : K) ≠ 20.0)
    (fs : List (TelemetryFrame K)) (f : TelemetryFrame K) :
    Evident (alarmFor fs f)
      ↔ ∃ avg ∈ (MovingAverageFilter.feed 10 (samples (fs ++ [f]))).2,
          80.0 < avg := by
  rw [samples_snoc, MovingAverageFilter.feed_snoc]
  constructor
  · rintro (⟨-, hlt⟩ | ⟨heq, -⟩)
    · exact ⟨_, rfl, hlt⟩
    · exact absurd heq hband
  · rintro ⟨avg, havg, hlt⟩
    obtain rfl := Option.some.inj havg
    exact .inl ⟨rfl, hlt⟩

end Alarm

variable [Add K] [Sub K] [Div K] [NatCast K] [LT K] [DecidableLT K]
  [OfScientific K]

/-- No other access of `main` than the last of a `fault` call emits an
alarm. -/
theorem main_quiet (h : step movedFrom .main s = some s')
    (hquiet : atAlarm (s.sm.pc mainTid) = false) (t : Nat) (al : Alarm K)
    (hmem : Event.alarmRaised t al ∈ s'.sm.events) :
    Event.alarmRaised t al ∈ s.sm.events := by
  cases mainStep_moves h with
  | aside _ _ hev => exact hev ▸ hmem
  | access p es next _ hm =>
      rcases hm.move.alarmRaised with hno | ⟨b, hpc, -⟩
      · rw [hm.events] at hmem
        exact (List.mem_append.mp hmem).resolve_right (hno t al)
      · rw [hpc] at hquiet
        cases hquiet

variable [Zero K]

-- ======================================================= entering FAULT

/-- Inside `fault` nothing is in hand: the frames popped are the frames
processed. -/
theorem DaemonInv.faulting (hi : DaemonInv s) (hm : s.main = .faulting) :
    ∃ fs f, s.rx.popped = fs ++ [f] ∧ Alarming (fs ++ [f])
      ∧ FaultPoint (alarmFor fs f) (s.sm.pc mainTid) := by
  have hpop := hi.sampled.popped
  rw [hm] at hpop
  cases hi.call with
  | between os hm' => rw [hm] at hm'; cases hm'
  | closing os hm' => rw [hm] at hm'; cases hm'
  | closed os prev hm' => rw [hm] at hm'; cases hm'
  | faulting fs f os _ hfs hal hp =>
      refine ⟨fs, f, ?_, hal, hp⟩
      rw [hpop, hfs]
      exact List.append_nil _

/-- A thread of control inside `fault`'s accesses is `main`'s, and `main`
is in its `fault` call. -/
theorem DaemonInv.main_of_point (hi : DaemonInv s)
    (hidle : s.sm.pc mainTid ≠ .idle)
    (hclose : ¬ ClosePoint (s.sm.pc mainTid)) : s.main = .faulting := by
  cases hi.call with
  | between os _ hp => exact absurd hp hidle
  | faulting fs f os hm => exact hm
  | closing os _ hp => exact absurd hp hclose
  | closed os prev _ hp => exact absurd hp hidle

/-- Only `main`, inside its `fault` call, takes the daemon from RUNNING to
FAULT. -/
theorem fault_by_main {a : DaemonAct K} (hi : DaemonInv s)
    (h : step movedFrom a s = some s') (hr : s.sm.state = .running)
    (hf : s'.sm.state = .fault) : a = .main ∧ s.main = .faulting := by
  have hne : s.sm.state ≠ .fault := by rw [hr]; nofun
  have hsame : s'.sm.state ≠ s.sm.state := by rw [hr, hf]; nofun
  cases a with
  | signal =>
      injection h with h
      subst h
      exact absurd rfl hsame
  | producer frame =>
      obtain ⟨hsm, -, -⟩ := producerStep_aside h
      exact absurd (by rw [hsm]) hsame
  | main =>
      cases mainStep_moves h with
      | aside hstate => exact absurd hstate hsame
      | access p es next hmain hm =>
          rw [hm.state] at hf
          subst hf
          obtain ⟨b, hpc⟩ := hm.move.to_fault hne
          refine ⟨rfl, hi.main_of_point ?_ ?_⟩
          · rw [hpc]
            nofun
          · rw [hpc]
            exact id
  | method m =>
      simp only [step] at h
      split at h
      next => cases h
      next =>
        obtain ⟨sm, hsm, rfl⟩ := Option.map_eq_some_iff.mp h
        obtain rfl := call_aside hsm
        exact absurd rfl hsame
  | bus spurious =>
      obtain ⟨sm, hsm, rfl⟩ := Option.map_eq_some_iff.mp h
      obtain ⟨p, es, next, hm⟩ := threadStep_moves hsm
      obtain rfl := hm.state.symm.trans hf
      -- the bus worker never stands at a compare-exchange of `fault`
      obtain ⟨b, hpc⟩ := hm.move.to_fault hne
      have hpoint := hi.bus.point
      rw [hpc] at hpoint
      cases hpoint

/-- A frame that ends three out of band gets its compare-exchange. -/
theorem process_faults (hi : DaemonInv s) {f : TelemetryFrame K}
    (hm : s.main = .process f) (hal : Alarming s.rx.popped) :
    ∃ s' a, step movedFrom .main s = some s' ∧ s'.main = .faulting
      ∧ s'.sm.pc mainTid = .faultCas a := by
  have hpop := hi.sampled.popped
  rw [hm] at hpop
  have hidle := hi.call.idle (by rw [hm]; trivial)
  have hrun : ∃ s', s.processFrame f = some s' := by
    unfold processFrame
    dsimp only
    split
    · simp only [StateManager.step, hidle, Option.map_some]
      exact ⟨_, rfl⟩
    · exact ⟨_, rfl⟩
  obtain ⟨s', hs'⟩ := hrun
  have hstep : step movedFrom .main s = some s' := by
    simp only [step, mainStep, hm, hs']
  obtain ⟨-, -, -, ⟨-, hmain, -, hsm⟩ | ⟨hcalm, -⟩⟩ :=
    processFrame_cases hi.sampled hs'
  · refine ⟨s', alarmFor s.processed f, hstep, hmain, ?_⟩
    rw [hsm, goto_pc_self]
  · rw [hpop] at hal
    exact absurd hal hcalm

/-- The compare-exchange from RUNNING succeeds. -/
theorem faultCas_faults (hi : DaemonInv s) {a : Alarm K}
    (hpc : s.sm.pc mainTid = .faultCas a) (hr : s.sm.state = .running) :
    ∃ s', step movedFrom .main s = some s' ∧ s'.sm.state = .fault := by
  have hm : s.main = .faulting := by
    refine hi.main_of_point ?_ ?_
    · rw [hpc]
      nofun
    · rw [hpc]
      exact id
  simp only [step, mainStep, hm, StateManager.step, threadStep, hpc,
    Option.map_some]
  refine ⟨_, rfl, ?_⟩
  unfold StateManager.faultCas
  rw [if_pos hr]
  rfl

-- ================================================================ the law

/-- Fault exactly on three out of band. In every reachable state of the
daemon: (a) a step from RUNNING to FAULT is `main`'s, inside its `fault`
call, and the last three frames popped are above 80 or below 20; (b) when
`main` has such a frame in hand its next step is the call of `fault`; (c)
a compare-exchange of that call that finds RUNNING leaves FAULT; (d)
whenever `main` is between two calls, its log is one entry for each such
frame, either ignored or a winning fault with exactly one alarm; (e) no
other thread raises an alarm. The samples need only be comparable: a `nan`
is neither above 80 nor below 20 and ends a run. -/
theorem fault_on_three_outside {blank : TelemetryFrame K}
    (hr : Reachable (step movedFrom) (init blank) s) :
    (∀ a s', step movedFrom a s = some s' → s.sm.state = .running →
      s'.sm.state = .fault → a = .main ∧ s.main = .faulting
        ∧ Streak (fun x : K => 80.0 < x ∨ x < 20.0) 3 (samples s.rx.popped))
    ∧ (∀ f, s.main = .process f →
      Streak (fun x : K => 80.0 < x ∨ x < 20.0) 3 (samples s.rx.popped) →
      ∃ s' a, step movedFrom .main s = some s' ∧ s'.main = .faulting
        ∧ s'.sm.pc mainTid = .faultCas a)
    ∧ (∀ a, s.sm.pc mainTid = .faultCas a → s.sm.state = .running →
      ∃ s', step movedFrom .main s = some s' ∧ s'.sm.state = .fault)
    ∧ (InLoop s.main → ∃ os, Handled s.processed os
      ∧ threadLog mainTid s.sm.events = os.flatMap (Outcome.log mainTid))
    ∧ (∀ t a, Event.alarmRaised t a ∈ s.sm.events → t = mainTid) := by
  have hi := daemonInv_reachable hr
  refine ⟨?_, ?_, fun a => faultCas_faults hi, ?_, hi.bus.alarms⟩
  · intro a s' h hrun hf
    obtain ⟨ha, hm⟩ := fault_by_main hi h hrun hf
    obtain ⟨fs, f, hpop, hal, -⟩ := hi.faulting hm
    rw [hpop]
    exact ⟨ha, hm, hal⟩
  · intro f hm hstreak
    exact process_faults hi hm hstreak
  · intro hloop
    cases hi.call with
    | between os _ _ _ hos hl => exact ⟨os, hos, hl⟩
    | faulting fs f os hm => rw [hm] at hloop; cases hloop
    | closing os hm => rw [hm] at hloop; cases hloop
    | closed os prev hm => exact absurd hm (not_closed_of_inLoop hloop)

-- ============================================================ the evidence

/-- Every alarm emitted so far is evidence. -/
def AlarmsEvident (s : EdgeDaemon K) : Prop :=
  ∀ t a, Event.alarmRaised t a ∈ s.sm.events → Evident a

/-- When the step emits an alarm, what a fresh filter fed with the samples
popped so far returns for the last of them is above 80. -/
def HighAverage (s : EdgeDaemon K) (a : DaemonAct K) (_ : EdgeDaemon K) :
    Prop :=
  s.emits a = true →
    ∃ avg ∈ (MovingAverageFilter.feed 10 (samples s.rx.popped)).2, 80.0 < avg

instance (s : EdgeDaemon K) (a : DaemonAct K) (s' : EdgeDaemon K) :
    Decidable (HighAverage s a s') :=
  inferInstanceAs (Decidable (_ → _))

/-- The access of `main` that emits an alarm is the last of a `fault` call,
and the alarm is that of the last frame popped. -/
theorem main_emits (hi : DaemonInv s) (h : step movedFrom .main s = some s')
    (hemit : atAlarm (s.sm.pc mainTid) = true) :
    ∃ fs f, s.rx.popped = fs ++ [f]
      ∧ ∀ t al, Event.alarmRaised t al ∈ s'.sm.events ↔
        Event.alarmRaised t al ∈ s.sm.events
          ∨ t = mainTid ∧ al = alarmFor fs f := by
  obtain ⟨al, cb, hpc⟩ := atAlarm_eq_true.mp hemit
  have hmain : s.main = .faulting := by
    refine hi.main_of_point ?_ ?_
    · rw [hpc]
      intro hidle
      cases hidle
    · rw [hpc]
      exact id
  obtain ⟨fs, f, hpop, -, hp⟩ := hi.faulting hmain
  rw [hpc] at hp
  obtain ⟨rfl, rfl⟩ := hp
  refine ⟨fs, f, hpop, fun t al => ?_⟩
  simp only [step, mainStep, hmain, StateManager.step, threadStep, hpc,
    Option.map_some, Option.some.injEq] at h
  subst h
  simp [callAlarmCb, StateManager.leave, record, goto]

/-- A step emits no alarm, or it is `main`'s last access in a `fault`
call and emits the alarm of the last frame popped. -/
theorem alarms_step {a : DaemonAct K} (hi : DaemonInv s)
    (h : step movedFrom a s = some s') :
    (∀ t al, Event.alarmRaised t al ∈ s'.sm.events →
        Event.alarmRaised t al ∈ s.sm.events)
      ∧ s.emits a = false
    ∨ s.emits a = true ∧ ∃ fs f, s.rx.popped = fs ++ [f]
      ∧ ∀ t al, Event.alarmRaised t al ∈ s'.sm.events ↔
        Event.alarmRaised t al ∈ s.sm.events
          ∨ t = mainTid ∧ al = alarmFor fs f := by
  cases a with
  | signal =>
      injection h with h
      subst h
      exact .inl ⟨fun _ _ hm => hm, rfl⟩
  | producer frame =>
      obtain ⟨hsm, -, -⟩ := producerStep_aside h
      rw [hsm]
      exact .inl ⟨fun _ _ hm => hm, rfl⟩
  | method m =>
      simp only [step] at h
      split at h
      next => cases h
      next =>
        obtain ⟨sm, hsm, rfl⟩ := Option.map_eq_some_iff.mp h
        obtain rfl := call_aside hsm
        exact .inl ⟨fun _ _ hm => hm, rfl⟩
  | bus spurious =>
      obtain ⟨sm, hsm, rfl⟩ := Option.map_eq_some_iff.mp h
      obtain ⟨p, es, next, hm⟩ := threadStep_moves hsm
      obtain ⟨-, hno⟩ := move_bus hm.move hi.bus.point
      refine .inl ⟨fun t al hmem => ?_, rfl⟩
      rw [hm.events] at hmem
      exact (List.mem_append.mp hmem).resolve_right (hno t al)
  | main =>
      cases hemit : atAlarm (s.sm.pc mainTid) with
      | true => exact .inr ⟨hemit, main_emits hi h hemit⟩
      | false => exact .inl ⟨main_quiet h hemit, hemit⟩

/-- What is emitted while the average is above 80 is evidence. -/
theorem evident_step {a : DaemonAct K} (hband : (80.0 : K) ≠ 20.0)
    (hi : DaemonInv s) (hev : AlarmsEvident s)
    (h : step movedFrom a s = some s') (hok : HighAverage s a s') :
    AlarmsEvident s' := by
  intro t al hmem
  rcases alarms_step hi h with ⟨hold, -⟩ | ⟨hemit, fs, f, hpop, hnew⟩
  · exact hev t al (hold t al hmem)
  · rcases (hnew t al).mp hmem with hold | ⟨-, rfl⟩
    · exact hev t al hold
    · rw [evident_alarmFor hband, ← hpop]
      exact hok hemit

/-- Alarms carry the evidence that raised them exactly along the runs in
which, whenever an alarm is emitted, the filter's own running sum over the
samples popped so far, divided by its count, is above 80. No law of the
arithmetic is used but that 80 is not 20: the sum may round, and samples
may be `nan`. -/
theorem alarms_evident_iff (hband : (80.0 : K) ≠ 20.0)
    (blank : TelemetryFrame K) (as : List (DaemonAct K)) :
    AllStates (step movedFrom) AlarmsEvident as (init blank)
      ↔ AllSteps (step movedFrom) HighAverage as (init blank) := by
  constructor
  · intro h
    refine AllSteps.mono DaemonInv ?_ (daemonInv_init blank) h.ends
    intro s s' a hi hs hev
    refine ⟨?_, daemonInv_step hi hs⟩
    intro hemit
    rcases alarms_step hi hs with ⟨-, hno⟩ | ⟨-, fs, f, hpop, hmem⟩
    · rw [hno] at hemit
      cases hemit
    · rw [hpop, ← evident_alarmFor hband]
      exact hev.2 mainTid _ ((hmem _ _).mpr (.inr ⟨rfl, rfl⟩))
  · exact allStates_of_allSteps
      (fun (hi : DaemonInv _ ∧ AlarmsEvident _) hs hok =>
        ⟨daemonInv_step hi.1 hs, evident_step hband hi.1 hi.2 hs hok⟩)
      (fun hi => hi.2) ⟨daemonInv_init blank, nofun⟩

-- ============================================================ three samples

/-- The bus starts the daemon. -/
def started {K : Type} : List (DaemonAct K) :=
  [.method .start, .bus false, .bus false, .bus false, .bus false]

/-- The producer reads one sample and pushes it. -/
def feed {K : Type} (value : K) : List (DaemonAct K) :=
  [.producer none, .producer (some ⟨"sensor0", value, 0⟩), .producer none,
    .producer none, .producer none]

/-- Three samples go through the ring of a started daemon, the third
ending in a `fault` call. -/
def threeSamples (value : ℚ) : List (DaemonAct ℚ) :=
  started ++ feed value ++ feed value ++ feed value
    ++ List.replicate 21 .main

/-- Three samples of 10 raise an alarm that says 10 is above 80. -/
theorem low_samples_not_evident :
    ∃ s, exec (step id) (threeSamples 10) (init ⟨"", 0, 0⟩) = some s
      ∧ Event.alarmRaised mainTid ⟨"sensor0", 10, 80⟩ ∈ s.sm.events
      ∧ ¬ AllStates (step id) AlarmsEvident (threeSamples 10)
        (init ⟨"", 0, 0⟩) := by
  have hrun : (exec (step id) (threeSamples 10) (init ⟨"", 0, 0⟩)).map
      (fun s => s.sm.events.filter isAlarm)
        = some [.alarmRaised mainTid ⟨"sensor0", 10, 80⟩] := by
    decide +kernel
  obtain ⟨s, hs, hal⟩ := Option.map_eq_some_iff.mp hrun
  have hmem : Event.alarmRaised mainTid ⟨"sensor0", 10, 80⟩
      ∈ s.sm.events := by
    have hin : Event.alarmRaised mainTid ⟨"sensor0", 10, 80⟩
        ∈ s.sm.events.filter isAlarm := by
      rw [hal]
      exact List.mem_singleton_self _
    exact (List.mem_filter.mp hin).1
  refine ⟨s, hs, hmem, fun hall => ?_⟩
  rcases hall.last hs mainTid _ hmem with ⟨-, hlt⟩ | ⟨heq, -⟩
  · norm_num at hlt
  · norm_num at heq

/-- Three samples of 90 raise an alarm that is evidence. -/
theorem alarms_evident_iff_high :
    AllStates (step id) AlarmsEvident (threeSamples 90)
      (init ⟨"", 0, 0⟩) :=
  (alarms_evident_iff (by norm_num) ⟨"", 0, 0⟩ (threeSamples 90)).mpr
    (by decide +kernel)

/-- A `nan` between samples of 90; `main` is about to take the
compare-exchange of the `fault` call for the last of them. -/
def acrossNan : List (DaemonAct (WithNan ℚ)) :=
  started ++ [.num 90, .nan, .num 90, .num 90, .num 90].flatMap feed
    ++ List.replicate 26 .main

/-- The law of the faults there: the daemon was still RUNNING, so the
`nan` has ended the first run; the next step faults, on three samples of
90; and then the main thread's log answers for the five frames. -/
theorem fault_on_three_outside_high :
    (∃ s s', exec (step id) acrossNan (init ⟨"", .num 0, 0⟩) = some s
      ∧ step id .main s = some s' ∧ s.sm.state = .running
      ∧ s'.sm.state = .fault
      ∧ Streak (fun x : WithNan ℚ => 80.0 < x ∨ x < 20.0) 3
        (samples s.rx.popped))
    ∧ ∃ s, exec (step id) (acrossNan ++ List.replicate 5 .main)
        (init ⟨"", .num 0, 0⟩) = some s
      ∧ s.processed.length = 5
      ∧ ∃ os, Handled s.processed os
        ∧ threadLog mainTid s.sm.events
          = os.flatMap (Outcome.log mainTid) := by
  have hcas : (exec (step id) acrossNan (init ⟨"", .num 0, 0⟩)).map
      (fun s => (s.sm.state, (step id .main s).map (·.sm.state)))
        = some (.running, some .fault) := by
    decide +kernel
  have hend : (exec (step id) (acrossNan ++ List.replicate 5 .main)
      (init ⟨"", .num 0, 0⟩)).map (fun s => (s.main, s.processed.length))
        = some (.pop, 5) := by
    decide +kernel
  constructor
  · obtain ⟨s, hs, hst⟩ := Option.map_eq_some_iff.mp hcas
    obtain ⟨hrun, hnext⟩ := Prod.mk.inj hst
    obtain ⟨s', hs', hfault⟩ := Option.map_eq_some_iff.mp hnext
    have hlaw := (fault_on_three_outside (reachable_of_exec hs)).1
    exact ⟨s, s', hs, hs', hrun, hfault, (hlaw .main s' hs' hrun hfault).2.2⟩
  · obtain ⟨s, hs, hat⟩ := Option.map_eq_some_iff.mp hend
    obtain ⟨hmain, hlen⟩ := Prod.mk.inj hat
    have hlaw := (fault_on_three_outside (reachable_of_exec hs)).2.2.2.1
    exact ⟨s, hs, hlen, hlaw (by rw [hmain]; trivial)⟩

end EdgeDaemon

end EdgeIpc.Daemon
