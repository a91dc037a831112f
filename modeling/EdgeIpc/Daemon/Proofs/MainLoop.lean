/-
What the main loop knows, in every reachable state of the daemon.

# The invariant

Three things move together. The frames handed to `process` are the frames
popped, one of them possibly still in hand (`Sampled`), and the processor
stands where that history puts it. The main thread's own events are the
outcomes of the `fault` calls that history asked for, frame by frame:
`Handled` lists them, one call for each frame that ends a run of three
out of band, none for the others; `MainCall` says which call is in
progress and how far. The bus worker never stands inside a `fault`
(`BusPoint`), so it raises no alarm.

Each part has one step lemma per thread; `main`'s go by the arms of its
step (`MainArm`). The other thread's moves are frames: they leave the
mover's log alone (`Moves.threadLog`).
-/
import EdgeIpc.Daemon.Main
import EdgeIpc.Daemon.Proofs.Calls
import EdgeIpc.Daemon.Proofs.Processor
import EdgeIpc.Daemon.Proofs.Receiver

namespace EdgeIpc.Daemon

open Lib StateManager ThresholdDetector

namespace EdgeDaemon

variable {K : Type} {s s' : EdgeDaemon K}
  {movedFrom : TelemetryFrame K → TelemetryFrame K}

-- ====================================================== main's control points

/-- The frame `main` has popped and not yet processed. -/
def inHand : MainPc K → List (TelemetryFrame K)
  | .process f => [f]
  | _ => []

/-- In the loops or on the way out, before `shutdown` is called. -/
def InLoop : MainPc K → Prop
  | .check => True
  | .pop => True
  | .popping => True
  | .process _ => True
  | .stopProducer => True
  | .join => True
  | .shutdown => True
  | _ => False

/-- After `shutdown` has returned. -/
def Closed : MainPc K → Prop
  | .clearStateCb => True
  | .clearAlarmCb => True
  | .stopBus => True
  | .done => True
  | _ => False

theorem not_closed_of_inLoop {m : MainPc K} (h : InLoop m) :
    ¬ Closed m := by
  cases m <;> simp [InLoop, Closed] at h ⊢

theorem inHand_closed {m : MainPc K} (h : Closed m) : inHand m = [] := by
  cases m <;> first | rfl | cases h

theorem inLoop_afterPop (r r' : TelemetryReceiver K) :
    InLoop (afterPop r r') := by
  unfold afterPop
  split
  · split <;> trivial
  · trivial

/-- After an access of `pop`, what `main` has in hand is what the access
handed out. -/
theorem popped_afterPop {r r' : TelemetryReceiver K}
    (h : TelemetryReceiver.step movedFrom .consumer r = some r') :
    r'.popped = r.popped ++ inHand (afterPop r r') := by
  have hhand : inHand (afterPop r r') = r.handedOut r' := by
    unfold afterPop TelemetryReceiver.handedOut
    cases r'.consumer with
    | idle => cases r.consumer <;> rfl
    | _ => rfl
  rw [hhand]
  exact TelemetryReceiver.popped_handedOut h

theorem inHand_afterCall (sm : StateManager K) {inside out : MainPc K}
    (hin : inHand inside = []) (hout : inHand out = []) :
    inHand (afterCall sm inside out) = [] := by
  unfold afterCall
  split
  · exact hout
  · exact hin

theorem afterCall_of_idle {sm : StateManager K} {inside out : MainPc K}
    (h : sm.pc mainTid = .idle) : afterCall sm inside out = out := by
  unfold afterCall
  rw [h]

theorem afterCall_of_busy {sm : StateManager K} {inside out : MainPc K}
    (h : sm.pc mainTid ≠ .idle) : afterCall sm inside out = inside := by
  unfold afterCall
  split
  next hidle => exact absurd hidle h
  next => rfl

-- ================================================= the other threads' moves

/-- A call only moves the caller. -/
theorem call_aside {sm : StateManager K} {c : Call K} {t : Tid}
    (h : s.sm.step (.call t c) = some sm) :
    sm = s.sm.goto t (entry c) := by
  simp only [StateManager.step] at h
  split at h
  next =>
    injection h with h
    exact h.symm
  next => cases h

/-- The producer never touches the state manager or `main`. -/
theorem producerStep_aside {frame : Option (TelemetryFrame K)}
    (h : s.producerStep movedFrom frame = some s') :
    s'.sm = s.sm ∧ s'.main = s.main ∧ s'.processed = s.processed := by
  unfold producerStep at h
  split at h
  next => injection h with h; subst h; exact ⟨rfl, rfl, rfl⟩
  next =>
    split at h
    next => injection h with h; subst h; exact ⟨rfl, rfl, rfl⟩
    next =>
      obtain ⟨rx, -, rfl⟩ := Option.map_eq_some_iff.mp h
      exact ⟨rfl, rfl, rfl⟩
  next =>
    obtain ⟨rx, -, rfl⟩ := Option.map_eq_some_iff.mp h
    exact ⟨rfl, rfl, rfl⟩
  next => cases h

/-- What a step of `main` does to the state manager: at most it moves the
main thread or the callbacks, unless `main` is inside a call, which then
takes its next access. -/
inductive MainMoves (s s' : EdgeDaemon K) : Prop
  | aside (hstate : s'.sm.state = s.sm.state)
      (hpc : ∀ t, t ≠ mainTid → s'.sm.pc t = s.sm.pc t)
      (hev : s'.sm.events = s.sm.events)
  | access (p : Pc K) (es : List (Event K)) (next : DaemonState)
      (hmain : s.main = .faulting ∨ s.main = .shuttingDown)
      (hm : Moves s.sm mainTid p es next s'.sm)

/-- Where the bus worker stands, and whose alarms there are. -/
structure BusInv (s : EdgeDaemon K) : Prop where
  point : BusPoint (s.sm.pc busTid)
  alarms : ∀ t a, Event.alarmRaised t a ∈ s.sm.events → t = mainTid

theorem BusInv.main (hb : BusInv s) (h : MainMoves s s') : BusInv s' := by
  have hne : busTid ≠ mainTid := by decide
  cases h with
  | aside hstate hpc hev =>
      exact ⟨hpc busTid hne ▸ hb.point, hev ▸ hb.alarms⟩
  | access p es next hmain hm =>
      refine ⟨hm.others busTid hne ▸ hb.point, fun t a hmem => ?_⟩
      rw [hm.events] at hmem
      rcases List.mem_append.mp hmem with hold | hnew
      · exact hb.alarms t a hold
      · exact hm.move.tid _ hnew

/-- The bus worker's own access. -/
theorem BusInv.access {p : Pc K} {es : List (Event K)}
    {next : DaemonState} (hb : BusInv s)
    (hm : Moves s.sm busTid p es next s'.sm) : BusInv s' := by
  obtain ⟨hp, hno⟩ := move_bus hm.move hb.point
  refine ⟨hm.self ▸ hp, fun t a hmem => ?_⟩
  rw [hm.events] at hmem
  rcases List.mem_append.mp hmem with hold | hnew
  · exact hb.alarms t a hold
  · exact absurd hnew (hno t a)

-- ====================================================== the arms of the step

section Arms

variable [Add K] [Sub K] [Div K] [NatCast K] [LT K] [DecidableLT K]
  [OfScientific K]

/-- The arms of `mainStep`, those that do the same kept together. -/
inductive MainArm (movedFrom : TelemetryFrame K → TelemetryFrame K)
    (s : EdgeDaemon K) : EdgeDaemon K → Prop
  /-- in the loops or on the way out, nothing popped -/
  | around {m : MainPc K} {stop : Bool} (hold : InLoop s.main)
      (hhand : inHand s.main = []) (hnew : InLoop m) (hhand' : inHand m = []) :
      MainArm movedFrom s { s with producerStop := stop, main := m }
  /-- `pop` is called or takes an access of the ring -/
  | pop {rx : TelemetryReceiver K} {m : MainPc K} {a : RxAct K}
      (hold : InLoop s.main) (hhand : inHand s.main = []) (hnew : InLoop m)
      (hring : s.rx.step movedFrom a = some rx)
      (hpop : rx.popped = s.rx.popped ++ inHand m) :
      MainArm movedFrom s { s with rx, main := m }
  | process {f : TelemetryFrame K} {next : EdgeDaemon K}
      (hm : s.main = .process f) (hframe : s.processFrame f = some next) :
      MainArm movedFrom s next
  /-- an access inside `fault` -/
  | fault {sm : StateManager K} (hm : s.main = .faulting)
      (hsm : s.sm.step (.step mainTid false) = some sm) :
      MainArm movedFrom s { s with sm, main := afterCall sm .faulting .pop }
  | shutdown {sm : StateManager K} (hm : s.main = .shutdown)
      (hsm : s.sm.step (.call mainTid .shutdown) = some sm) :
      MainArm movedFrom s { s with sm, main := .shuttingDown }
  /-- an access inside `shutdown` -/
  | close {sm : StateManager K} (hm : s.main = .shuttingDown)
      (hsm : s.sm.step (.step mainTid false) = some sm) :
      MainArm movedFrom s
        { s with sm, main := afterCall sm .shuttingDown .clearStateCb }
  /-- a callback is taken away, or the bus worker joined -/
  | clear {sm : StateManager K} {m : MainPc K} (hold : Closed s.main)
      (hnew : Closed m) (hstate : sm.state = s.sm.state)
      (hpc : sm.pc = s.sm.pc) (hev : sm.events = s.sm.events) :
      MainArm movedFrom s { s with sm, main := m }

theorem mainStep_arm (h : s.mainStep movedFrom = some s') :
    MainArm movedFrom s s' := by
  unfold mainStep at h
  split at h
  next hm =>
    injection h with h
    subst h
    refine .around (by rw [hm]; trivial) (by rw [hm]; rfl) ?_ ?_
    · split <;> trivial
    · split <;> rfl
  next hm =>
    obtain ⟨rx, hrx, rfl⟩ := Option.map_eq_some_iff.mp h
    exact .pop (by rw [hm]; trivial) (by rw [hm]; rfl) trivial hrx
      ((TelemetryReceiver.popped_pop hrx).trans (List.append_nil _).symm)
  next hm =>
    obtain ⟨rx, hrx, rfl⟩ := Option.map_eq_some_iff.mp h
    exact .pop (by rw [hm]; trivial) (by rw [hm]; rfl) (inLoop_afterPop _ _)
      hrx (popped_afterPop hrx)
  next f hm => exact .process hm h
  next hm =>
    obtain ⟨sm, hsm, rfl⟩ := Option.map_eq_some_iff.mp h
    exact .fault hm hsm
  next hm =>
    injection h with h
    subst h
    exact .around (by rw [hm]; trivial) (by rw [hm]; rfl) trivial rfl
  next hm =>
    split at h
    next =>
      injection h with h
      subst h
      exact .around (by rw [hm]; trivial) (by rw [hm]; rfl) trivial rfl
    next => cases h
  next hm =>
    obtain ⟨sm, hsm, rfl⟩ := Option.map_eq_some_iff.mp h
    exact .shutdown hm hsm
  next hm =>
    obtain ⟨sm, hsm, rfl⟩ := Option.map_eq_some_iff.mp h
    exact .close hm hsm
  next hm =>
    obtain ⟨sm, hsm, rfl⟩ := Option.map_eq_some_iff.mp h
    injection hsm with hsm
    subst hsm
    exact .clear (by rw [hm]; trivial) trivial rfl rfl rfl
  next hm =>
    obtain ⟨sm, hsm, rfl⟩ := Option.map_eq_some_iff.mp h
    injection hsm with hsm
    subst hsm
    exact .clear (by rw [hm]; trivial) trivial rfl rfl rfl
  next hm =>
    split at h
    next =>
      injection h with h
      subst h
      exact .clear (by rw [hm]; trivial) trivial rfl rfl rfl
    next => cases h
  next => cases h

theorem mainStep_moves (h : s.mainStep movedFrom = some s') :
    MainMoves s s' := by
  cases mainStep_arm h with
  | around => exact .aside rfl (fun _ _ => rfl) rfl
  | pop => exact .aside rfl (fun _ _ => rfl) rfl
  | process _ hframe =>
      unfold processFrame at hframe
      dsimp only at hframe
      split at hframe
      next =>
        obtain ⟨sm, hsm, rfl⟩ := Option.map_eq_some_iff.mp hframe
        obtain rfl := call_aside hsm
        exact .aside rfl (goto_others _ _ _) rfl
      next =>
        injection hframe with hframe
        subst hframe
        exact .aside rfl (fun _ _ => rfl) rfl
  | fault hm hsm =>
      obtain ⟨p, es, next, hmv⟩ := threadStep_moves hsm
      exact .access p es next (.inl hm) hmv
  | shutdown _ hsm =>
      obtain rfl := call_aside hsm
      exact .aside rfl (goto_others _ _ _) rfl
  | close hm hsm =>
      obtain ⟨p, es, next, hmv⟩ := threadStep_moves hsm
      exact .access p es next (.inr hm) hmv
  | clear _ _ hstate hpc hev =>
      exact .aside hstate (fun t _ => congrFun hpc t) hev

end Arms

-- ==================================================== what a history asks for

variable [Zero K] [Add K] [Sub K] [Div K] [NatCast K] [LT K] [OfScientific K]

/-- The alarm `main` raises for frame `f` after the frames `fs`. -/
def alarmFor (fs : List (TelemetryFrame K)) (f : TelemetryFrame K) :
    Alarm K :=
  ⟨f.sensorId, ((MovingAverageFilter.feed 10 (samples fs)).1.apply f.value).2,
    80.0⟩

/-- The outcomes of the `fault` calls a history asks for: one for every
frame that ends a run of three out of band, which either lost its
compare-exchange or won it and raised that frame's alarm. -/
inductive Handled : List (TelemetryFrame K) → List (Outcome K) → Prop
  | nil : Handled [] []
  | calm {fs : List (TelemetryFrame K)} {os : List (Outcome K)}
      (f : TelemetryFrame K) (h : Handled fs os)
      (hcalm : ¬ Alarming (fs ++ [f])) : Handled (fs ++ [f]) os
  | lost {fs : List (TelemetryFrame K)} {os : List (Outcome K)}
      (f : TelemetryFrame K) (h : Handled fs os)
      (halarm : Alarming (fs ++ [f])) : Handled (fs ++ [f]) (os ++ [.ignored])
  | won {fs : List (TelemetryFrame K)} {os : List (Outcome K)}
      (f : TelemetryFrame K) (h : Handled fs os)
      (halarm : Alarming (fs ++ [f])) :
      Handled (fs ++ [f]) (os ++ [.faulted (alarmFor fs f)])

-- ============================================================ main's calls

/-- The main thread's log: what the frames processed so far asked for,
and the call in progress. -/
inductive MainCall (s : EdgeDaemon K) : Prop
  | between (os : List (Outcome K)) (hmain : InLoop s.main)
      (hpc : s.sm.pc mainTid = .idle) (hins : Installed s.sm)
      (hos : Handled s.processed os)
      (hlog : threadLog mainTid s.sm.events
        = os.flatMap (Outcome.log mainTid))
  | faulting (fs : List (TelemetryFrame K)) (f : TelemetryFrame K)
      (os : List (Outcome K)) (hmain : s.main = .faulting)
      (hfs : s.processed = fs ++ [f]) (halarm : Alarming (fs ++ [f]))
      (hpc : FaultPoint (alarmFor fs f) (s.sm.pc mainTid))
      (hins : Installed s.sm) (hos : Handled fs os)
      (hlog : threadLog mainTid s.sm.events
        = os.flatMap (Outcome.log mainTid)
          ++ inProgress mainTid (s.sm.pc mainTid))
  | closing (os : List (Outcome K)) (hmain : s.main = .shuttingDown)
      (hpc : ClosePoint (s.sm.pc mainTid)) (hins : Installed s.sm)
      (hos : Handled s.processed os)
      (hlog : threadLog mainTid s.sm.events
        = os.flatMap (Outcome.log mainTid)
          ++ inProgress mainTid (s.sm.pc mainTid))
  | closed (os : List (Outcome K)) (prev : DaemonState)
      (hmain : Closed s.main) (hpc : s.sm.pc mainTid = .idle)
      (hos : Handled s.processed os)
      (hlog : threadLog mainTid s.sm.events
        = os.flatMap (Outcome.log mainTid)
          ++ Outcome.log mainTid
            (.changed .shutdown prev .shutdown nofun : Outcome K))

/-- Moves that leave the main thread, its log and the callbacks alone. -/
theorem MainCall.frame (hc : MainCall s) (hmain : s'.main = s.main)
    (hproc : s'.processed = s.processed)
    (hpc : s'.sm.pc mainTid = s.sm.pc mainTid)
    (hins : Installed s.sm → Installed s'.sm)
    (hlog : threadLog mainTid s'.sm.events
      = threadLog mainTid s.sm.events) : MainCall s' := by
  cases hc with
  | between os hm hp hi hos hl =>
      exact .between os (hmain ▸ hm) (hpc.trans hp) (hins hi) (hproc ▸ hos)
        (hlog.trans hl)
  | faulting fs f os hm hfs hal hp hi hos hl =>
      refine .faulting fs f os (hmain.trans hm) (hproc.trans hfs) hal
        (hpc ▸ hp) (hins hi) hos ?_
      rw [hlog, hpc, hl]
  | closing os hm hp hi hos hl =>
      refine .closing os (hmain.trans hm) (hpc ▸ hp) (hins hi) (hproc ▸ hos)
        ?_
      rw [hlog, hpc, hl]
  | closed os prev hm hp hos hl =>
      exact .closed os prev (hmain ▸ hm) (hpc.trans hp) (hproc ▸ hos)
        (hlog.trans hl)

/-- `main` goes on between two calls. -/
theorem MainCall.advance (hc : MainCall s) {m : MainPc K}
    {rx : TelemetryReceiver K} {stop : Bool} (hold : InLoop s.main)
    (hnew : InLoop m) :
    MainCall { s with rx, producerStop := stop, main := m } := by
  cases hc with
  | between os _ hp hi hos hl => exact .between os hnew hp hi hos hl
  | faulting fs f os hm => rw [hm] at hold; cases hold
  | closing os hm => rw [hm] at hold; cases hold
  | closed os prev hm => exact absurd hm (not_closed_of_inLoop hold)

/-- Between its calls `main` is inside none. -/
theorem MainCall.idle (hc : MainCall s) (hm : InLoop s.main) :
    s.sm.pc mainTid = .idle := by
  cases hc with
  | between os _ hp => exact hp
  | faulting fs f os hm' => rw [hm'] at hm; cases hm
  | closing os hm' => rw [hm'] at hm; cases hm
  | closed os prev hm' => exact absurd hm' (not_closed_of_inLoop hm)

/-- At its two calls it is inside one. -/
theorem MainCall.busy (hc : MainCall s)
    (hm : s.main = .faulting ∨ s.main = .shuttingDown) :
    s.sm.pc mainTid ≠ .idle := by
  intro hidle
  cases hc with
  | between os hm' => rcases hm with hm | hm <;> rw [hm] at hm' <;> cases hm'
  | faulting fs f os _ _ _ hp => rw [hidle] at hp; cases hp
  | closing os _ hp => rw [hidle] at hp; cases hp
  | closed os prev hm' =>
      rcases hm with hm | hm <;> rw [hm] at hm' <;> cases hm'

/-- A move inside `fault`. -/
theorem mainCall_faulting {sm : StateManager K} (hc : MainCall s)
    (hm : s.main = .faulting)
    (h : s.sm.step (.step mainTid false) = some sm) :
    MainCall { s with sm, main := afterCall sm .faulting .pop } := by
  obtain ⟨p, es, next, hmv⟩ := threadStep_moves h
  cases hc with
  | between os hm' => rw [hm] at hm'; cases hm'
  | closing os hm' => rw [hm] at hm'; cases hm'
  | closed os prev hm' => rw [hm] at hm'; cases hm'
  | faulting fs f os _ hfs hal hp hi hos hl =>
      have hlog : threadLog mainTid sm.events
          = os.flatMap (Outcome.log mainTid)
            ++ (inProgress mainTid (s.sm.pc mainTid) ++ es) := by
        rw [hmv.threadLog, if_pos rfl, hl, List.append_assoc]
      -- a call that has ended joins the outcomes
      have hend : ∀ o : Outcome K, p = .idle →
          inProgress mainTid (s.sm.pc mainTid) ++ es = o.log mainTid →
          Handled (fs ++ [f]) (os ++ [o]) →
          MainCall { s with sm, main := afterCall sm .faulting .pop } := by
        intro o hidle ho hdone
        have hpc : sm.pc mainTid = .idle := hmv.self.trans hidle
        refine .between (os ++ [o]) ?_ hpc (hmv.installed hi) (hfs ▸ hdone) ?_
        · show InLoop (afterCall sm .faulting .pop)
          rw [afterCall_of_idle hpc]
          trivial
        · rw [hlog, ho, List.flatMap_append]
          simp
      rcases move_faulting hmv.move hi hp with
        ⟨hp', hgo⟩ | ⟨hidle, ho⟩ | ⟨hidle, ho⟩
      · have hpc : sm.pc mainTid ≠ .idle := by
          rw [hmv.self]
          rintro rfl
          cases hp'
        refine .faulting fs f os (afterCall_of_busy hpc) hfs hal ?_
          (hmv.installed hi) hos ?_
        · show FaultPoint _ (sm.pc mainTid)
          rw [hmv.self]
          exact hp'
        · show threadLog mainTid sm.events = _
          rw [hlog, hgo, ← hmv.self]
      · exact hend .ignored hidle ho (.lost f hos hal)
      · exact hend _ hidle ho (.won f hos hal)

/-- A move inside `shutdown`. -/
theorem mainCall_closing {sm : StateManager K} (hc : MainCall s)
    (hm : s.main = .shuttingDown)
    (h : s.sm.step (.step mainTid false) = some sm) :
    MainCall
      { s with sm, main := afterCall sm .shuttingDown .clearStateCb } := by
  obtain ⟨p, es, next, hmv⟩ := threadStep_moves h
  cases hc with
  | between os hm' => rw [hm] at hm'; cases hm'
  | faulting fs f os hm' => rw [hm] at hm'; cases hm'
  | closed os prev hm' => rw [hm] at hm'; cases hm'
  | closing os _ hp hi hos hl =>
      have hlog : threadLog mainTid sm.events
          = os.flatMap (Outcome.log mainTid)
            ++ (inProgress mainTid (s.sm.pc mainTid) ++ es) := by
        rw [hmv.threadLog, if_pos rfl, hl, List.append_assoc]
      rcases move_closing hmv.move hi hp with
        ⟨hp', hgo⟩ | ⟨hidle, prev, ho⟩
      · have hpc : sm.pc mainTid ≠ .idle := by
          rw [hmv.self]
          rintro rfl
          cases hp'
        refine .closing os (afterCall_of_busy hpc) ?_ (hmv.installed hi) hos ?_
        · show ClosePoint (sm.pc mainTid)
          rw [hmv.self]
          exact hp'
        · show threadLog mainTid sm.events = _
          rw [hlog, hgo, ← hmv.self]
      · have hpc : sm.pc mainTid = .idle := hmv.self.trans hidle
        refine .closed os prev ?_ hpc hos ?_
        · show Closed (afterCall sm .shuttingDown .clearStateCb)
          rw [afterCall_of_idle hpc]
          trivial
        · rw [hlog, ho]

/-- `shutdown` is called. -/
theorem mainCall_shutdown {sm : StateManager K} (hc : MainCall s)
    (hm : s.main = .shutdown)
    (h : s.sm.step (.call mainTid .shutdown) = some sm) :
    MainCall { s with sm, main := .shuttingDown } := by
  cases hc with
  | faulting fs f os hm' => rw [hm] at hm'; cases hm'
  | closing os hm' => rw [hm] at hm'; cases hm'
  | closed os prev hm' => rw [hm] at hm'; cases hm'
  | between os _ hp hi hos hl =>
      simp only [StateManager.step, hp, Option.some.injEq] at h
      subst h
      refine .closing os rfl ?_ hi hos ?_
      · show ClosePoint ((s.sm.goto mainTid _).pc mainTid)
        rw [goto_pc_self]
        trivial
      · show threadLog mainTid s.sm.events
          = _ ++ inProgress mainTid ((s.sm.goto mainTid _).pc mainTid)
        rw [goto_pc_self, hl]
        exact (List.append_nil _).symm

/-- The callbacks are taken away. -/
theorem mainCall_clear {sm : StateManager K} {m : MainPc K}
    (hc : MainCall s) (hold : Closed s.main) (hnew : Closed m)
    (hpc : sm.pc = s.sm.pc) (hev : sm.events = s.sm.events) :
    MainCall { s with sm, main := m } := by
  cases hc with
  | between os hm' => exact absurd hold (not_closed_of_inLoop hm')
  | faulting fs f os hm' => rw [hm'] at hold; cases hold
  | closing os hm' => rw [hm'] at hold; cases hold
  | closed os prev _ hp hos hl =>
      refine .closed os prev hnew ?_ hos ?_
      · show sm.pc mainTid = .idle
        rw [hpc]
        exact hp
      · show threadLog mainTid sm.events = _
        rw [hev]
        exact hl

variable [DecidableLT K]

-- ============================================================= the samples

/-- The processed frames are the popped ones, and the processor is where
they put it. -/
structure Sampled (s : EdgeDaemon K) : Prop where
  ring : TelemetryReceiver.RingInv s.rx
  popped : s.rx.popped = s.processed ++ inHand s.main
  proc : ProcessorInv s.proc 10 80.0 20.0 3 (samples s.processed)

/-- `processFrame` either calls `fault` for the frame just added, and
then that frame ends a run of three out of band, or goes on. -/
theorem processFrame_cases {f : TelemetryFrame K} (hi : Sampled s)
    (h : s.processFrame f = some s') :
    ProcessorInv s'.proc 10 80.0 20.0 3 (samples (s.processed ++ [f]))
      ∧ s'.rx = s.rx ∧ s'.processed = s.processed ++ [f]
      ∧ ((Alarming (s.processed ++ [f]) ∧ s'.main = .faulting
          ∧ s.sm.pc mainTid = .idle
          ∧ s'.sm = s.sm.goto mainTid (.faultCas (alarmFor s.processed f)))
        ∨ (¬ Alarming (s.processed ++ [f]) ∧ s'.main = .pop
          ∧ s'.sm = s.sm)) := by
  obtain ⟨hproc, hid, hval, hflag⟩ :=
    process_spec (by decide) hi.proc f
  rw [← samples_snoc] at hproc hflag
  unfold processFrame at h
  dsimp only at h
  split at h
  next hal =>
    obtain ⟨sm, hsm, rfl⟩ := Option.map_eq_some_iff.mp h
    refine ⟨hproc, rfl, rfl, .inl ⟨hflag.mp hal, rfl, ?_⟩⟩
    rw [hid, hval] at hsm
    simp only [StateManager.step] at hsm
    split at hsm
    next hidle =>
      injection hsm with hsm
      exact ⟨hidle, hsm.symm⟩
    next => cases hsm
  next hal =>
    injection h with h
    subst h
    exact ⟨hproc, rfl, rfl, .inr ⟨fun hc => hal (hflag.mpr hc), rfl, rfl⟩⟩

-- ===================================================== the samples, step by step

/-- Moves that pop and process nothing. -/
theorem Sampled.frame (hi : Sampled s)
    (hring : TelemetryReceiver.RingInv s'.rx)
    (hpop : s'.rx.popped = s.rx.popped) (hproc : s'.proc = s.proc)
    (hdone : s'.processed = s.processed)
    (hhand : inHand s'.main = inHand s.main) : Sampled s' := by
  refine ⟨hring, ?_, ?_⟩
  · rw [hpop, hdone, hhand]
    exact hi.popped
  · rw [hproc, hdone]
    exact hi.proc

theorem sampled_producer {frame : Option (TelemetryFrame K)}
    (hi : Sampled s) (h : s.producerStep movedFrom frame = some s') :
    Sampled s' := by
  unfold producerStep at h
  split at h
  next =>
    injection h with h
    subst h
    exact hi.frame hi.ring rfl rfl rfl rfl
  next =>
    split at h
    next =>
      injection h with h
      subst h
      exact hi.frame hi.ring rfl rfl rfl rfl
    next f =>
      obtain ⟨rx, hrx, rfl⟩ := Option.map_eq_some_iff.mp h
      exact hi.frame (TelemetryReceiver.ringInv_step hi.ring hrx)
        (TelemetryReceiver.popped_push hrx) rfl rfl rfl
  next =>
    obtain ⟨rx, hrx, rfl⟩ := Option.map_eq_some_iff.mp h
    exact hi.frame (TelemetryReceiver.ringInv_step hi.ring hrx)
      (TelemetryReceiver.popped_producer hrx) rfl rfl rfl
  next => cases h

/-- A move of `main` that only goes on to a point with no frame in hand,
from such a point, whatever it does to the state manager. -/
theorem Sampled.advance (hi : Sampled s) {m : MainPc K}
    {sm : StateManager K} {stop : Bool} (hold : inHand s.main = [])
    (hnew : inHand m = []) :
    Sampled { s with sm, producerStop := stop, main := m } :=
  hi.frame hi.ring rfl rfl rfl (hnew.trans hold.symm)

theorem sampled_main (hi : Sampled s)
    (h : s.mainStep movedFrom = some s') : Sampled s' := by
  have hpopped := hi.popped
  cases mainStep_arm h with
  | around _ hhand _ hhand' => exact hi.advance hhand hhand'
  | pop _ hhand _ hring hpop =>
      refine ⟨TelemetryReceiver.ringInv_step hi.ring hring, ?_, hi.proc⟩
      rw [hhand, List.append_nil] at hpopped
      rw [← hpopped]
      exact hpop
  | process hm hframe =>
      obtain ⟨hproc, hrx, hdone, hend⟩ := processFrame_cases hi hframe
      have hhand : inHand s'.main = [] := by
        rcases hend with ⟨-, hmain, -⟩ | ⟨-, hmain, -⟩ <;> rw [hmain] <;> rfl
      refine ⟨hrx ▸ hi.ring, ?_, hdone ▸ hproc⟩
      rw [hrx, hpopped, hm, hdone, hhand, List.append_nil]
      rfl
  | fault hm =>
      exact hi.advance (by rw [hm]; rfl) (inHand_afterCall _ rfl rfl)
  | shutdown hm => exact hi.advance (by rw [hm]; rfl) rfl
  | close hm =>
      exact hi.advance (by rw [hm]; rfl) (inHand_afterCall _ rfl rfl)
  | clear hold hnew =>
      exact hi.advance (inHand_closed hold) (inHand_closed hnew)

-- ================================================ main's calls, step by step

/-- A frame is processed: it ends a run of three out of band and `fault`
is called, or it asks for nothing. -/
theorem mainCall_process {f : TelemetryFrame K} (hi : Sampled s)
    (hc : MainCall s) (hm : s.main = .process f)
    (h : s.processFrame f = some s') : MainCall s' := by
  obtain ⟨-, -, hdone, hend⟩ := processFrame_cases hi h
  cases hc with
  | faulting fs g os hm' => rw [hm] at hm'; cases hm'
  | closing os hm' => rw [hm] at hm'; cases hm'
  | closed os prev hm' => rw [hm] at hm'; cases hm'
  | between os _ hp hins hos hl =>
      rcases hend with ⟨hal, hmain, -, hsm⟩ | ⟨hcalm, hmain, hsm⟩
      · have hpc : s'.sm.pc mainTid
            = .faultCas (alarmFor s.processed f) := by
          rw [hsm, goto_pc_self]
        refine .faulting s.processed f os hmain hdone hal ?_ ?_ hos ?_
        · rw [hpc]
          rfl
        · rw [hsm]
          exact hins
        · rw [hpc, hsm]
          exact hl.trans (List.append_nil _).symm
      · refine .between os ?_ (hsm ▸ hp) (hsm ▸ hins) ?_ (hsm ▸ hl)
        · rw [hmain]
          trivial
        · rw [hdone]
          exact .calm f hos hcalm

theorem mainCall_main (hi : Sampled s) (hc : MainCall s)
    (h : s.mainStep movedFrom = some s') : MainCall s' := by
  cases mainStep_arm h with
  | around hold _ hnew => exact hc.advance hold hnew
  | pop hold _ hnew => exact hc.advance hold hnew
  | process hm hframe => exact mainCall_process hi hc hm hframe
  | fault hm hsm => exact mainCall_faulting hc hm hsm
  | shutdown hm hsm => exact mainCall_shutdown hc hm hsm
  | close hm hsm => exact mainCall_closing hc hm hsm
  | clear hold hnew _ hpc hev => exact mainCall_clear hc hold hnew hpc hev

-- ============================================================ the invariant

/-- The invariant of the daemon. -/
structure DaemonInv (s : EdgeDaemon K) : Prop where
  sampled : Sampled s
  call : MainCall s
  bus : BusInv s

theorem daemonInv_init (blank : TelemetryFrame K) :
    DaemonInv (init blank) := by
  refine ⟨⟨TelemetryReceiver.ringInv_init blank, rfl, ?_⟩, ?_, trivial,
    nofun⟩
  · exact processorInv_new 10 80.0 20.0 3
  · exact .between [] trivial rfl ⟨rfl, rfl⟩ .nil rfl

/-- A method called, or an access of the bus worker: `main` does not
notice. -/
theorem daemonInv_bus {a : DaemonAct K} (hi : DaemonInv s)
    (ha : (∃ m, a = .method m) ∨ ∃ spurious, a = .bus spurious)
    (h : step movedFrom a s = some s') : DaemonInv s' := by
  have hne : mainTid ≠ busTid := by decide
  rcases ha with ⟨m, rfl⟩ | ⟨spurious, rfl⟩
  · have hcall : ∃ sm, s.sm.step (.call busTid m.call) = some sm
        ∧ { s with sm } = s' := by
      simp only [step] at h
      split at h
      next => cases h
      next => exact Option.map_eq_some_iff.mp h
    obtain ⟨sm, hsm, rfl⟩ := hcall
    obtain rfl := call_aside hsm
    refine ⟨hi.sampled.frame hi.sampled.ring rfl rfl rfl rfl,
      hi.call.frame rfl rfl (goto_pc_ne _ _ hne) id rfl, ?_,
      hi.bus.alarms⟩
    show BusPoint ((s.sm.goto busTid _).pc busTid)
    rw [goto_pc_self]
    cases m <;> trivial
  · obtain ⟨sm, hsm, rfl⟩ := Option.map_eq_some_iff.mp h
    obtain ⟨p, es, next, hm⟩ := threadStep_moves hsm
    refine ⟨hi.sampled.frame hi.sampled.ring rfl rfl rfl rfl,
      hi.call.frame rfl rfl (hm.others mainTid hne) hm.installed ?_,
      hi.bus.access hm⟩
    show threadLog mainTid sm.events = _
    rw [hm.threadLog, if_neg hne, List.append_nil]

/-- Every step of the daemon keeps the invariant. -/
theorem daemonInv_step {a : DaemonAct K} (hi : DaemonInv s)
    (h : step movedFrom a s = some s') : DaemonInv s' := by
  cases a with
  | signal =>
      injection h with h
      subst h
      exact ⟨hi.sampled.frame hi.sampled.ring rfl rfl rfl rfl,
        hi.call.frame rfl rfl rfl id rfl, hi.bus.point, hi.bus.alarms⟩
  | producer frame =>
      obtain ⟨hsm, hmain, hdone⟩ := producerStep_aside h
      refine ⟨sampled_producer hi.sampled h,
        hi.call.frame hmain hdone (by rw [hsm]) (by rw [hsm]; exact id)
          (by rw [hsm]), ?_, ?_⟩
      · rw [hsm]
        exact hi.bus.point
      · rw [hsm]
        exact hi.bus.alarms
  | main =>
      exact ⟨sampled_main hi.sampled h, mainCall_main hi.sampled hi.call h,
        hi.bus.main (mainStep_moves h)⟩
  | method m => exact daemonInv_bus hi (.inl ⟨m, rfl⟩) h
  | bus spurious => exact daemonInv_bus hi (.inr ⟨spurious, rfl⟩) h

theorem daemonInv_reachable {blank : TelemetryFrame K}
    (hr : Reachable (step movedFrom) (init blank) s) : DaemonInv s :=
  hr.invariant (daemonInv_init blank) daemonInv_step

end EdgeDaemon

end EdgeIpc.Daemon
