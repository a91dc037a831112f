/-
The way out of the daemon (src/main.cpp, after the signal), under
schedules that give every thread its turns.

# When `main` leaves its loops

`g_quit` is looked at in `while (!g_quit)` and nowhere else: while frames
keep coming in time, the inner `while (rx.pop(frame))` goes on, signal or
not. So the daemon exits exactly if `main` looks at `g_quit` after the
signal (`SeesQuit`, `exits_iff_sees_quit`). If the signal comes while
`main` is in the inner loop, that takes a `pop` that finds the ring empty;
if it comes during the sleep or before the first look, it does not. In
either case a source that dries up is enough.

# What is left then

`exitRank` counts it. `main` waits twice, in `producer.join()` and in
`bus->stop()`; meanwhile the producer thread and the worker of the bus
are the helpers, and what they have left stands in the rank. The bus may
be asked to start or halt the machine until then, so it has to be quiet
in the end, and the compare-exchange of its `start`, a weak one, must in
the end not fail spuriously (`Undisturbed`).
-/
import EdgeIpc.Daemon.Proofs.Progress
import Mathlib.Data.List.GetD

namespace EdgeIpc.Daemon.EdgeDaemon

open Lib StateManager TelemetryReceiver

variable {K : Type} {s s' : EdgeDaemon K}
  {movedFrom : TelemetryFrame K → TelemetryFrame K}

-- ====================================================== the control points

/-- After `producer.join()`. -/
def Joined : MainPc K → Prop
  | .shutdown => True
  | .shuttingDown => True
  | .clearStateCb => True
  | .clearAlarmCb => True
  | .stopBus => True
  | .done => True
  | _ => False

/-- After the loop on `g_quit`. -/
def Out (m : MainPc K) : Prop :=
  m = .stopProducer ∨ m = .join ∨ Joined m

/-- The process is about to return from `main`: the producer thread is
joined and the worker of the bus in no call. -/
def Exited (s : EdgeDaemon K) : Prop :=
  s.main = .done ∧ s.producer = .done ∧ s.sm.pc busTid = .idle

/-- What holds on the way out: the stop flag is set before the join, the
producer has left after it, and at the end the bus is idle. -/
structure Leaving (s : EdgeDaemon K) : Prop where
  stop : s.main = .join → s.producerStop = true
  joined : Joined s.main → s.producer = .done
  bus : s.main = .done → s.sm.pc busTid = .idle

theorem out_cases (m : MainPc K) : m = .check ∨ Inner m ∨ Out m := by
  cases m <;> simp [Inner, Out, Joined]

theorem joined_afterCall (sm : StateManager K) :
    Joined (afterCall sm .shuttingDown .clearStateCb) := by
  rcases afterCall_cases sm .shuttingDown .clearStateCb with hc | hc <;>
    rw [hc] <;> trivial

/-- A producer thread that has left makes no move. -/
theorem producer_done {frame : Option (TelemetryFrame K)}
    (hp : s.producer = .done) : s.producerStep movedFrom frame = none := by
  simp only [producerStep, hp]

theorem leaving_init [Zero K] [OfScientific K] (blank : TelemetryFrame K) :
    Leaving (init blank) :=
  ⟨nofun, nofun, nofun⟩

/-- Going round the loops says nothing about the way out. -/
theorem leaving_inner (h : s.main = .check ∨ Inner s.main) : Leaving s := by
  rcases h with h | h
  · exact ⟨by simp [h], by simp [h, Joined], by simp [h]⟩
  · cases hm : s.main <;> simp [hm, Inner] at h <;>
      exact ⟨by simp [hm], by simp [hm, Joined], by simp [hm]⟩

/-- After the join it is enough that the producer has left, short of the
end. -/
theorem leaving_joined (hp : s.producer = .done) (hj : s.main ≠ .join)
    (hd : s.main ≠ .done) : Leaving s :=
  ⟨fun h => absurd h hj, fun _ => hp, fun h => absurd h hd⟩

-- ================================================================== the rank

/-- What is left of a `push`. -/
def pushLeft : PushPc K → Nat
  | .idle => 0
  | .loadHead _ _ => 3
  | .writeSlot _ _ _ => 2
  | .storeTail _ _ => 1
  | .bumpDropped _ => 1

/-- What the producer thread has left once its stop flag is set. -/
def producerLeft (s : EdgeDaemon K) : Nat :=
  match s.producer with
  | .done => 0
  | .check => 1
  | .pushing => 1 + pushLeft s.rx.producer
  | .read => 5

/-- What is left of the way out. -/
def exitRank (s : EdgeDaemon K) : Nat :=
  match s.main with
  | .check => 21
  | .stopProducer => 20
  | .join => 13 + producerLeft s
  | .shutdown => 12
  | .shuttingDown => 8 + callLeft s.sm.state (s.sm.pc mainTid)
  | .clearStateCb => 7
  | .clearAlarmCb => 6
  | .stopBus => 1 + callLeft s.sm.state (s.sm.pc busTid)
  | _ => 0

/-- The threads of the daemon. -/
inductive Thread where
  | main | producer | bus
  deriving DecidableEq, Repr

/-- A thread's turns. -/
def turn : Thread → DaemonAct K → Prop
  | .main, a => a = .main
  | .producer, a => ∃ frame, a = .producer frame
  | .bus, a => a = .bus false

/-- Whom the way out waits for. -/
def helper (s : EdgeDaemon K) : Thread :=
  match s.main with
  | .join => if s.producer = .done then .main else .producer
  | .stopBus =>
      match s.sm.pc busTid with
      | .idle => .main
      | _ => .bus
  | _ => .main

/-- Neither a bus method nor a spurious failure. -/
def Undisturbed (a : DaemonAct K) : Prop :=
  (∀ m, a ≠ .method m) ∧ a ≠ .bus true

theorem producerLeft_le (s : EdgeDaemon K) : producerLeft s ≤ 5 := by
  unfold producerLeft
  split
  · omega
  · omega
  · cases s.rx.producer <;> simp [pushLeft]
  · omega

theorem callLeft_bus {p : Pc K} (st : DaemonState) (hp : BusPoint p) :
    callLeft st p ≤ 4 := by
  cases p with
  | startLoop prev => simp only [callLeft]; split <;> omega
  | copyStateCb next prev alarm => cases alarm <;> simp [callLeft]
  | callStateCb next prev cb alarm => cases alarm <;> simp [callLeft]
  | faultCas a => cases hp
  | _ => simp [callLeft]

/-- With its stop flag set, the producer thread comes to its end. -/
theorem producerLeft_lt {frame : Option (TelemetryFrame K)}
    (hstop : s.producerStop = true)
    (h : s.producerStep movedFrom frame = some s') :
    producerLeft s' < producerLeft s := by
  cases producerStep_arm h with
  | check hp => simp [producerLeft, hp, hstop]
  | nothing hp => simp [producerLeft, hp]
  | push hp => simp [producerLeft, hp, pushLeft]
  | @access rx hp hrx =>
      have hm : RingMove movedFrom s.rx .producer rx := step_move hrx
      cases hm with
      | refuse hpc => simp [producerLeft, hp, hpc, pushLeft]
      | accept hpc => simp [producerLeft, hp, hpc, pushLeft]
      | count hpc => simp [producerLeft, hp, hpc, pushLeft]
      | write hpc => simp [producerLeft, hp, hpc, pushLeft]
      | store hpc => simp [producerLeft, hp, hpc, pushLeft]

/-- Until it has left, it can always go on. -/
theorem producer_goes (movedFrom : TelemetryFrame K → TelemetryFrame K)
    (ha : Aligned s) (hp : s.producer ≠ .done)
    (frame : Option (TelemetryFrame K)) :
    ∃ s', s.producerStep movedFrom frame = some s' := by
  unfold producerStep
  cases hpc : s.producer with
  | done => exact absurd hpc hp
  | check => exact ⟨_, rfl⟩
  | read =>
      cases frame with
      | none => exact ⟨_, rfl⟩
      | some f =>
          have hidle := ha.push.mpr (by rw [hpc]; decide)
          simp only [TelemetryReceiver.step, hidle]
          exact ⟨_, rfl⟩
  | pushing =>
      have hbusy : s.rx.producer ≠ .idle := fun hc => ha.push.mp hc hpc
      have hrx : ∃ rx, s.rx.pushStep = some rx := by
        unfold pushStep
        cases hc : s.rx.producer with
        | idle => exact absurd hc hbusy
        | loadHead => dsimp only; split <;> exact ⟨_, rfl⟩
        | bumpDropped => exact ⟨_, rfl⟩
        | writeSlot => exact ⟨_, rfl⟩
        | storeTail => exact ⟨_, rfl⟩
      obtain ⟨rx, hrx⟩ := hrx
      simp only [TelemetryReceiver.step, hrx]
      exact ⟨_, rfl⟩

/-- The source hands out nothing. -/
def Dry (a : DaemonAct K) : Prop := ∀ f, a ≠ .producer (some f)

/-- What is not handed to `push` is not accepted. -/
theorem total_move {r r' : TelemetryReceiver K} {b : RxAct K}
    (hin : handedIn b = []) (hm : RingMove movedFrom r b r') :
    r'.pushed.length + (inPush r'.producer).length
      ≤ r.pushed.length + (inPush r.producer).length := by
  cases hm with
  | push => cases hin
  | refuse hpc | accept hpc | count hpc | write hpc | store hpc =>
      simp [hpc, inPush]
  | pop | miss | find | read | release => exact Nat.le_refl _

-- =============================================================== the way out

variable [Add K] [Sub K] [Div K] [NatCast K] [LT K] [DecidableLT K]
  [OfScientific K]

theorem leaving_main (hl : Leaving s) (h : s.mainStep movedFrom = some s') :
    Leaving s' := by
  have hjoined : Joined s.main → s.producer = .done := hl.joined
  cases mainStep_goes h with
  | check hm =>
      cases hq : s.quit with
      | false => exact leaving_inner (.inr (by simp [Inner]))
      | true => exact ⟨by simp, by simp [Joined], by simp⟩
  | pop hm | popping hm | process hm | fault hm =>
      exact leaving_inner (inner_main (by rw [hm]; trivial) h)
  | stopProducer hm => exact ⟨fun _ => rfl, by simp [Joined], by simp⟩
  | join hm hp => exact leaving_joined hp (by simp) (by simp)
  | shutdown hm | clearStateCb hm | clearAlarmCb hm =>
      rw [hm] at hjoined
      exact leaving_joined (hjoined trivial) (by simp) (by simp)
  | @close sm hm hsm =>
      rw [hm] at hjoined
      rcases afterCall_cases sm .shuttingDown .clearStateCb with hc | hc
      · exact leaving_joined (hjoined trivial) (by simp [hc]) (by simp [hc])
      · exact leaving_joined (hjoined trivial) (by simp [hc]) (by simp [hc])
  | stopBus hm hb =>
      rw [hm] at hjoined
      exact ⟨by simp, fun _ => hjoined trivial, fun _ => hb⟩

theorem leaving_step {a : DaemonAct K} (hl : Leaving s)
    (h : step movedFrom a s = some s') : Leaving s' := by
  rcases step_cases h with ⟨-, hm⟩ | ⟨f, -, hp⟩ | ⟨-, rfl⟩
    | ⟨m, sm, -, hne, rfl, rfl⟩ | ⟨b, sm, -, hb, rfl⟩
  · exact leaving_main hl hm
  · have hsp := producerStep_spares hp
    refine ⟨?_, ?_, ?_⟩
    · rw [hsp.main, hsp.stop]
      exact hl.stop
    · rw [hsp.main]
      intro hj
      rw [producer_done (hl.joined hj)] at hp
      cases hp
    · rw [hsp.main, (producerStep_aside hp).1]
      exact hl.bus
  · exact ⟨hl.stop, hl.joined, hl.bus⟩
  · exact ⟨hl.stop, hl.joined, fun hd => absurd hd hne⟩
  · refine ⟨hl.stop, hl.joined, fun hd => ?_⟩
    simp [threadStep, hl.bus hd] at hb

/-- The loops are left at a look at `g_quit` that finds it set. -/
theorem out_of_step {a : DaemonAct K} (h : step movedFrom a s = some s')
    (hout : Out s'.main) :
    Out s.main ∨ (s.quit = true ∧ s.main = .check) := by
  by_cases ha : a = .main
  · subst ha
    rcases out_cases s.main with hm | hin | ho
    · refine .inr ⟨?_, hm⟩
      by_contra hq
      rw [Bool.not_eq_true] at hq
      rcases loops_main (.inl hm) hq h with hc | hc <;>
        cases hm' : s'.main <;> simp_all [Out, Joined, Inner]
    · rcases inner_main hin h with hc | hc <;>
        cases hm' : s'.main <;> simp_all [Out, Joined, Inner]
    · exact .inl ho
  · rw [(spared_of_step ha h).main] at hout
    exact .inl hout

variable [Zero K]

/-- What holds from `main`'s last look at `g_quit` on. -/
structure WayOut (s : EdgeDaemon K) : Prop where
  inv : DaemonInv s
  aligned : Aligned s
  leaving : Leaving s
  quit : s.quit = true
  main : s.main = .check ∨ Out s.main

/-- `main` does not turn back. -/
theorem out_main (hw : WayOut s) (h : s.mainStep movedFrom = some s') :
    Out s'.main := by
  have hout : s.main ≠ .check → Out s.main := fun hne =>
    hw.main.resolve_left hne
  cases mainStep_goes h with
  | check => exact .inl (by simp [hw.quit])
  | pop hm | popping hm | process hm | fault hm =>
      have hc := hout (by simp [hm])
      rw [hm] at hc
      simp [Out, Joined] at hc
  | stopProducer => exact .inr (.inl rfl)
  | join | shutdown | clearStateCb | clearAlarmCb | stopBus =>
      exact .inr (.inr trivial)
  | close => exact .inr (.inr (joined_afterCall _))

theorem wayOut_step {a : DaemonAct K} (hw : WayOut s)
    (h : step movedFrom a s = some s') : WayOut s' := by
  refine ⟨daemonInv_step hw.inv h, aligned_step hw.aligned h,
    leaving_step hw.leaving h, ?_, ?_⟩
  · by_cases ha : a = .signal
    · subst ha
      obtain rfl := Option.some.inj h
      rfl
    · rw [quit_of_step ha h]
      exact hw.quit
  · by_cases ha : a = .main
    · subst ha
      exact .inr (out_main hw h)
    · rw [(spared_of_step ha h).main]
      exact hw.main

/-- Every step of `main` shortens the way. -/
theorem exitRank_main (hw : WayOut s) (h : s.mainStep movedFrom = some s') :
    exitRank s' < exitRank s := by
  have hinner : ∀ m, s.main = m → Inner m → False := by
    rintro m hm hi
    rcases hw.main with hc | hc
    · rw [hm] at hc
      rw [hc] at hi
      cases hi
    · rw [hm] at hc
      cases m <;> simp [Inner, Out, Joined] at hi hc
  cases mainStep_goes h with
  | check hm => simp [exitRank, hm, hw.quit]
  | pop hm => exact (hinner _ hm trivial).elim
  | popping hm => exact (hinner _ hm trivial).elim
  | process hm => exact (hinner _ hm trivial).elim
  | fault hm => exact (hinner _ hm trivial).elim
  | stopProducer hm =>
      have hle := producerLeft_le
        { s with producerStop := true, main := .join }
      simp only [exitRank, hm]
      omega
  | join hm => simp only [exitRank, hm]; omega
  | shutdown hm => simp [exitRank, hm, goto_pc_self, callLeft]
  | @close sm hm hsm =>
      have hlt := callLeft_lt hsm
      by_cases hpc : sm.pc mainTid = .idle
      · rw [afterCall_of_idle hpc]
        simp only [exitRank, hm]
        omega
      · rw [afterCall_of_busy hpc]
        simp only [exitRank, hm]
        omega
  | clearStateCb hm => simp [exitRank, hm]
  | clearAlarmCb hm =>
      have hle := callLeft_bus s.sm.state hw.inv.bus.point
      simp only [exitRank, hm]
      omega
  | stopBus hm => simp [exitRank, hm]

/-- What a step of another thread does to the way out: it shortens the
wait it is waited for in, and otherwise changes nothing. -/
theorem exitRank_other {a : DaemonAct K} (hw : WayOut s)
    (hok : Undisturbed a) (ha : a ≠ .main)
    (h : step movedFrom a s = some s') :
    exitRank s' < exitRank s
      ∨ (exitRank s' = exitRank s ∧ helper s' = helper s) := by
  have hsp := spared_of_step ha h
  -- away from the two waits the rank is about `main` alone
  have hsame : s.main ≠ .join → s.main ≠ .stopBus →
      exitRank s' = exitRank s ∧ helper s' = helper s := by
    intro hj hb
    have hcall := callLeft_spared hw.inv hsp
    cases hm : s.main <;> simp_all [exitRank, helper, hsp.main]
  by_cases hj : s.main = .join
  · rcases step_cases h with ⟨hm, -⟩ | ⟨f, -, hp⟩ | ⟨-, rfl⟩
      | ⟨m, sm, hm, -⟩ | ⟨b, sm, -, -, rfl⟩
    · exact absurd hm ha
    · left
      have hlt := producerLeft_lt (hw.leaving.stop hj) hp
      simp only [exitRank, hsp.main, hj]
      omega
    · exact .inr ⟨rfl, rfl⟩
    · exact absurd hm (hok.1 m)
    · right
      simp only [exitRank, helper, hj, producerLeft]
      exact ⟨trivial, trivial⟩
  by_cases hb : s.main = .stopBus
  · rcases step_cases h with ⟨hm, -⟩ | ⟨f, -, hp⟩ | ⟨-, rfl⟩
      | ⟨m, sm, hm, -⟩ | ⟨b, sm, rfl, hsm, rfl⟩
    · exact absurd hm ha
    · right
      have hsm := (producerStep_aside hp).1
      simp only [exitRank, helper, hsp.main, hb, hsm]
      exact ⟨trivial, trivial⟩
    · exact .inr ⟨rfl, rfl⟩
    · exact absurd hm (hok.1 m)
    · left
      cases b with
      | true => exact absurd rfl hok.2
      | false =>
          have hlt := callLeft_lt hsm
          simp only [exitRank, hb]
          omega
  · exact .inr (hsame hj hb)

/-- Whoever is waited for can take its turn, and shortens the way. -/
theorem exit_help {a : DaemonAct K} (hw : WayOut s) (hne : ¬ Exited s)
    (hok : Undisturbed a) (ha : turn (helper s) a) :
    ∃ s', step movedFrom a s = some s'
      ∧ (Exited s' ∨ exitRank s' < exitRank s) := by
  have hgo : ∀ {t}, s.mainStep movedFrom = some t →
      ∃ s', step movedFrom .main s = some s'
        ∧ (Exited s' ∨ exitRank s' < exitRank s) :=
    fun h => ⟨_, h, .inr (exitRank_main hw h)⟩
  cases hm : s.main with
  | check =>
      obtain rfl : a = .main := by simpa [helper, hm, turn] using ha
      exact hgo (by simp only [mainStep, hm]; rfl)
  | stopProducer =>
      obtain rfl : a = .main := by simpa [helper, hm, turn] using ha
      exact hgo (by simp only [mainStep, hm]; rfl)
  | join =>
      by_cases hp : s.producer = .done
      · obtain rfl : a = .main := by simpa [helper, hm, hp, turn] using ha
        exact hgo (by simp only [mainStep, hm, hp]; rfl)
      · obtain ⟨frame, rfl⟩ : ∃ frame, a = .producer frame := by
          simpa [helper, hm, hp, turn] using ha
        obtain ⟨t, ht⟩ := producer_goes movedFrom hw.aligned hp frame
        refine ⟨t, ht, ?_⟩
        have hlt := producerLeft_lt (hw.leaving.stop hm) ht
        right
        simp only [exitRank, (producerStep_spares ht).main, hm]
        omega
  | shutdown =>
      obtain rfl : a = .main := by simpa [helper, hm, turn] using ha
      have hpc := hw.inv.call.idle (by rw [hm]; trivial)
      exact hgo (by simp only [mainStep, hm, StateManager.step, hpc]; rfl)
  | shuttingDown =>
      obtain rfl : a = .main := by simpa [helper, hm, turn] using ha
      have hbusy := hw.inv.call.busy (.inr hm)
      obtain ⟨sm, hsm⟩ := threadStep_of_busy hbusy false
      exact hgo (by simp only [mainStep, hm, StateManager.step, hsm]; rfl)
  | clearStateCb =>
      obtain rfl : a = .main := by simpa [helper, hm, turn] using ha
      exact hgo (by simp only [mainStep, hm, StateManager.step]; rfl)
  | clearAlarmCb =>
      obtain rfl : a = .main := by simpa [helper, hm, turn] using ha
      exact hgo (by simp only [mainStep, hm, StateManager.step]; rfl)
  | stopBus =>
      by_cases hb : s.sm.pc busTid = .idle
      · obtain rfl : a = .main := by simpa [helper, hm, hb, turn] using ha
        exact hgo (by simp only [mainStep, hm, hb]; rfl)
      · have hhelper : helper s = .bus := by
          simp only [helper, hm]
        rw [hhelper] at ha
        obtain rfl : a = .bus false := ha
        obtain ⟨sm, hsm⟩ := threadStep_of_busy hb false
        refine ⟨{ s with sm }, ?_, ?_⟩
        · simp only [step, StateManager.step, hsm]
          rfl
        · have hlt := callLeft_lt hsm
          right
          simp only [exitRank, hm]
          omega
  | done =>
      exact absurd ⟨hm, hw.leaving.joined (by rw [hm]; trivial),
        hw.leaving.bus hm⟩ hne
  | _ => have hc := hw.main; simp [hm, Out, Joined] at hc

theorem exit_keep {a : DaemonAct K} (hw : WayOut s) (_ : ¬ Exited s)
    (hok : Undisturbed a) (h : step movedFrom a s = some s') :
    Exited s' ∨ exitRank s' < exitRank s
      ∨ (exitRank s' = exitRank s ∧ helper s' = helper s) := by
  by_cases ha : a = .main
  · subst ha
    exact .inr (.inl (exitRank_main hw h))
  · exact .inr (exitRank_other hw hok ha h)

-- ==================================================== out of the inner loop

/-- What holds once the source has dried up: at most `n` frames will ever
have been accepted. -/
structure Drying (n : Nat) (s : EdgeDaemon K) : Prop where
  inv : DaemonInv s
  aligned : Aligned s
  total : s.rx.pushed.length + (inPush s.rx.producer).length ≤ n

theorem drying_step {n : Nat} {a : DaemonAct K} (hd : Drying n s)
    (ha : Dry a) (h : step movedFrom a s = some s') : Drying n s' := by
  refine ⟨daemonInv_step hd.inv h, aligned_step hd.aligned h, ?_⟩
  have htaken : s.taken a = [] := by
    cases a with
    | producer frame =>
        cases frame with
        | none => rfl
        | some f => exact absurd rfl (ha f)
    | _ => rfl
  refine Nat.le_trans ?_ hd.total
  rcases ring_of_step h with ⟨hrx, -⟩ | ⟨b, hb, hin⟩
  · rw [hrx]
  · exact total_move (hin.symm.trans htaken) (step_move hb)

theorem drying_help {n : Nat} {a : DaemonAct K} (hd : Drying n s)
    (hin : ¬ ¬ Inner s.main) (_ : Dry a) (ha : a = .main) :
    ∃ s', step movedFrom a s = some s'
      ∧ (¬ Inner s'.main ∨ loopRank n s' < loopRank n s) := by
  subst ha
  have hat : ∀ h out, s.rx.consumer = .storeHead h out →
      s.rx.popped.length < n := by
    intro h out hc
    have hcons := hd.inv.sampled.ring.consumer
    rw [hc] at hcons
    obtain ⟨hlt, -⟩ := List.getElem?_eq_some_iff.mp hcons.2
    have htotal := hd.total
    omega
  obtain ⟨s', hs', hstep⟩ :=
    inner_step movedFrom n hd.inv hd.aligned (not_not.mp hin) hat
  cases hstep with
  | back _ hnew => exact ⟨s', hs', .inl (by rw [hnew]; exact id)⟩
  | on _ hrank => exact ⟨s', hs', .inr hrank⟩

theorem drying_keep {n : Nat} {a : DaemonAct K} (hd : Drying n s)
    (hin : ¬ ¬ Inner s.main) (ha : Dry a)
    (h : step movedFrom a s = some s') :
    ¬ Inner s'.main ∨ loopRank n s' < loopRank n s
      ∨ (loopRank n s' = loopRank n s ∧ () = ()) := by
  by_cases hm : a = .main
  · obtain ⟨t, ht, hend⟩ := drying_help hd hin ha hm
    obtain rfl := Option.some.inj (h.symm.trans ht)
    exact hend.imp id .inl
  · have hsame := loopRank_spared n hd.inv (spared_of_step hm h)
    exact .inr (.inr ⟨hsame, rfl⟩)

-- ============================================================ the theorem

section Schedules

variable (movedFrom : TelemetryFrame K → TelemetryFrame K)
  (blank : TelemetryFrame K) {sched : Nat → DaemonAct K}

theorem aligned_trace (n : Nat) :
    Aligned (trace (step movedFrom) sched (init blank) n) :=
  (trace_reachable _ sched _ n).invariant (aligned_init blank) aligned_step

theorem leaving_trace (n : Nat) :
    Leaving (trace (step movedFrom) sched (init blank) n) :=
  (trace_reachable _ sched _ n).invariant (leaving_init blank) leaving_step

/-- Once the signal has come, `g_quit` stays set. -/
theorem quit_trace {n : Nat} (h : sched n = .signal) {m : Nat}
    (hm : n + 1 ≤ m) :
    (trace (step movedFrom) sched (init blank) m).quit = true := by
  have htaken : step movedFrom (sched n)
      (trace (step movedFrom) sched (init blank) n)
      = some { trace (step movedFrom) sched (init blank) n with
        quit := true } := by
    rw [h]
    rfl
  have hset : (trace (step movedFrom) sched (init blank) (n + 1)).quit
      = true := by
    rw [trace_succ_of htaken]
  refine trace_keeps (fun s : EdgeDaemon K => s.quit = true) ?_ hset hm
  intro a s s' hq hs
  by_cases ha : a = .signal
  · subst ha
    obtain rfl := Option.some.inj hs
    rfl
  · exact (quit_of_step ha hs).trans hq

/-- Somewhere `main` looks at `g_quit` and finds it set. -/
def SeesQuit (sched : Nat → DaemonAct K) : Prop :=
  ∃ n, (trace (step movedFrom) sched (init blank) n).quit = true
    ∧ (trace (step movedFrom) sched (init blank) n).main = .check

/-- The loops are left by such a look and by nothing else. -/
theorem seesQuit_of_out {n : Nat}
    (h : Out (trace (step movedFrom) sched (init blank) n).main) :
    SeesQuit movedFrom blank sched := by
  induction n with
  | zero => simp [trace, init, Out, Joined] at h
  | succ n ih =>
      rcases trace_succ (step movedFrom) sched (init blank) n with hs | hs
      · rcases out_of_step hs h with ho | hc
        · exact ih ho
        · exact ⟨n, hc⟩
      · rw [hs] at h
        exact ih h

/-- A source that dries up lets `main` look at `g_quit` again. -/
theorem seesQuit_of_dry (hmain : Recurs sched (· = .main))
    (hsig : ∃ n, sched n = .signal) (hdry : Settles sched Dry) :
    SeesQuit movedFrom blank sched := by
  obtain ⟨k, hk⟩ := hsig
  obtain ⟨d, hd⟩ := hdry
  have hreach := trace_reachable (step movedFrom) sched (init blank)
  -- from here on the signal has come and the source is dry
  obtain ⟨n, hkn, hdn⟩ : ∃ n, k + 1 ≤ n ∧ d ≤ n :=
    ⟨max (k + 1) d, le_max_left _ _, le_max_right _ _⟩
  have hstart : Drying _ (trace (step movedFrom) sched (init blank) n) :=
    ⟨daemonInv_reachable (hreach n), aligned_trace movedFrom blank n,
      Nat.le_refl _⟩
  obtain ⟨m, hm, hout⟩ := reaches_of_helpful (Drying _)
    (fun s => ¬ Inner s.main) Dry (fun (_ : Unit) a => a = .main)
    (loopRank _) (fun _ => ()) (fun _ => hmain)
    (fun i hi => hd i (hdn.trans hi))
    (fun hdry _ ha h => .inr (drying_step hdry ha h)) drying_keep drying_help
    hstart
  rcases out_cases (trace (step movedFrom) sched (init blank) m).main with
    hc | hin | ho
  · exact ⟨m, quit_trace movedFrom blank hk (hkn.trans hm), hc⟩
  · exact absurd hin hout
  · exact seesQuit_of_out movedFrom blank ho

/-- From a look at `g_quit` that finds it set, the daemon gets out. -/
theorem exits_of_seesQuit (hmain : Recurs sched (· = .main))
    (hproducer : Recurs sched fun a => ∃ frame, a = .producer frame)
    (hbus : Recurs sched (· = .bus false))
    (hquiet : Settles sched Undisturbed)
    (h : SeesQuit movedFrom blank sched) :
    ∃ m, Exited (trace (step movedFrom) sched (init blank) m) := by
  obtain ⟨n, hq, hc⟩ := h
  obtain ⟨q, hquiet⟩ := hquiet
  have hreach := trace_reachable (step movedFrom) sched (init blank)
  have hwn : WayOut (trace (step movedFrom) sched (init blank) n) :=
    ⟨daemonInv_reachable (hreach n), aligned_trace movedFrom blank n,
      leaving_trace movedFrom blank n, hq, .inl hc⟩
  have hw := trace_keeps WayOut wayOut_step hwn (le_max_left n q)
  have hfair : ∀ i, Recurs sched (turn i) := by
    intro i
    cases i with
    | main => exact hmain
    | producer => exact hproducer
    | bus => exact hbus
  obtain ⟨m, -, hm⟩ := reaches_of_helpful WayOut Exited Undisturbed turn
    exitRank helper hfair
    (fun i hi => hquiet i ((le_max_right n q).trans hi))
    (fun hw _ _ h => .inr (wayOut_step hw h)) exit_keep exit_help hw
  exact ⟨m, hm⟩

/-- When the daemon exits. Let `main`, the producer thread and the worker
of the bus keep getting their turns, and from some point on let no bus
method be called and no compare-exchange of the bus's `start` fail
spuriously. Then the daemon exits, its threads at rest, exactly if `main`
looks at `g_quit` after the signal; and this happens if the signal comes
and the source dries up. -/
theorem exits_iff_sees_quit (hmain : Recurs sched (· = .main))
    (hproducer : Recurs sched fun a => ∃ frame, a = .producer frame)
    (hbus : Recurs sched (· = .bus false))
    (hquiet : Settles sched Undisturbed) :
    ((∃ n, Exited (trace (step movedFrom) sched (init blank) n))
      ↔ SeesQuit movedFrom blank sched)
    ∧ ((∃ n, sched n = .signal) → Settles sched Dry →
      ∃ n, Exited (trace (step movedFrom) sched (init blank) n)) := by
  have hexits : SeesQuit movedFrom blank sched →
      ∃ n, Exited (trace (step movedFrom) sched (init blank) n) :=
    exits_of_seesQuit movedFrom blank hmain hproducer hbus hquiet
  refine ⟨⟨?_, hexits⟩, ?_⟩
  · rintro ⟨n, hdone, -⟩
    have hout : Out (trace (step movedFrom) sched (init blank) n).main := by
      rw [hdone]
      exact .inr (.inr trivial)
    exact seesQuit_of_out movedFrom blank hout
  · intro hsig hdry
    exact hexits (seesQuit_of_dry movedFrom blank hmain hsig hdry)

end Schedules

/-- The producer reads one frame and pushes it. -/
def pushOne (f : TelemetryFrame ℚ) : List (DaemonAct ℚ) :=
  [.producer none, .producer (some f), .producer none, .producer none,
    .producer none]

/-- `main` enters the inner loop, two frames are pushed, and the signal
comes. -/
def beforeSignal : List (DaemonAct ℚ) :=
  .main :: pushOne ⟨"sensor0", 50, 1⟩ ++ pushOne ⟨"sensor0", 60, 2⟩
    ++ [.signal]

/-- Then the three threads in turn, the source empty. -/
def twoThenDry (n : Nat) : DaemonAct ℚ :=
  beforeSignal.getD n (match n % 3 with
    | 0 => .main
    | 1 => .producer none
    | _ => .bus false)

/-- From the signal on, who has the turn. -/
theorem twoThenDry_after {n : Nat} (h : 12 ≤ n) :
    twoThenDry n = match n % 3 with
      | 0 => .main
      | 1 => .producer none
      | _ => .bus false :=
  List.getD_eq_default _ _ h

/-- After the signal nothing disturbs and the source is dry. -/
theorem twoThenDry_quiet {n : Nat} (h : 12 ≤ n) :
    Undisturbed (twoThenDry n) ∧ Dry (twoThenDry n) := by
  rw [twoThenDry_after h]
  split
  · exact ⟨⟨nofun, nofun⟩, nofun⟩
  · exact ⟨⟨nofun, nofun⟩, nofun⟩
  · exact ⟨⟨nofun, nofun⟩, nofun⟩

/-- Everybody keeps getting turns. -/
theorem twoThenDry_turn (n : Nat) :
    twoThenDry (3 * n + 12) = .main
      ∧ twoThenDry (3 * n + 13) = .producer none
      ∧ twoThenDry (3 * n + 14) = .bus false := by
  have hmain : (3 * n + 12) % 3 = 0 := by omega
  have hproducer : (3 * n + 13) % 3 = 1 := by omega
  have hbus : (3 * n + 14) % 3 = 2 := by omega
  rw [twoThenDry_after (by omega), twoThenDry_after (by omega),
    twoThenDry_after (by omega), hmain, hproducer, hbus]
  exact ⟨rfl, rfl, rfl⟩

/-- The signal finds `main` before a `pop` with two frames in the ring;
`main` still looks at `g_quit`, and the daemon exits. -/
theorem exits_two_then_dry :
    (fun s : EdgeDaemon ℚ => (s.quit, s.main, s.rx.pushed.length, s.rx.popped))
        (trace (step id) twoThenDry (init ⟨"", 0, 0⟩) 12)
      = (true, .pop, 2, [])
    ∧ SeesQuit id ⟨"", 0, 0⟩ twoThenDry
    ∧ ∃ n, Exited (trace (step id) twoThenDry (init ⟨"", 0, 0⟩) n) := by
  have hlaw := exits_iff_sees_quit id ⟨"", 0, 0⟩
    (fun n => ⟨3 * n + 12, by omega, (twoThenDry_turn n).1⟩)
    (fun n => ⟨3 * n + 13, by omega, none, (twoThenDry_turn n).2.1⟩)
    (fun n => ⟨3 * n + 14, by omega, (twoThenDry_turn n).2.2⟩)
    ⟨12, fun n hn => (twoThenDry_quiet hn).1⟩
  have hexit := hlaw.2 ⟨11, rfl⟩ ⟨12, fun n hn => (twoThenDry_quiet hn).2⟩
  exact ⟨by decide +kernel, hlaw.1.mp hexit, hexit⟩

end EdgeIpc.Daemon.EdgeDaemon
