/-
Is SHUTDOWN final? Not along every schedule: `halt` checks for SHUTDOWN
at its load and exchanges unconditionally afterwards, so a `shutdown`
that lands between the two is overwritten with IDLE
(`halt_overwrites_shutdown`). This file says exactly which runs keep it.

# The condition

A halting thread's exchange is stale when some `shutdown` has written
since that call's load. `NoStaleHalt` asks of a step that it is no such
exchange, and `shutdown_final_iff` is the equivalence over runs: along
any schedule, from a fresh manager, SHUTDOWN once entered is never left
iff no step of the schedule is a stale exchange.

# The argument

A step either leaves `state_` alone or is one of the four writes
(`step_cases`). Only two of the writes can leave SHUTDOWN in principle,
and `start`'s cannot: its compare-exchange succeeds against a value it
has checked. So everything rests on what a thread about to exchange
knows, which is `HaltInv`: the count it saw is at most the current one,
and if it is the current one then `state_` is not SHUTDOWN. That holds
along all runs. The converse needs the run to have been final so far:
then a positive count of SHUTDOWN writes means `state_` is SHUTDOWN now
(`KeptInv`), and a stale exchange would leave it.
-/
import EdgeIpc.Daemon.StateManager
import EdgeIpc.Lib.Run

namespace EdgeIpc.Daemon

open Lib

namespace StateManager

variable {R : Type} {s s' : StateManager R}

-- ===================================================== control points

theorem goto_pc_self (s : StateManager R) (t : Tid) (p : Pc R) :
    (s.goto t p).pc t = p := if_pos rfl

theorem goto_pc_ne (s : StateManager R) {t u : Tid} (p : Pc R)
    (h : u ≠ t) : (s.goto t p).pc u = s.pc u := if_neg h

/-- A thread that moved anywhere but to `halt`'s exchange leaves the
set of threads about to exchange no larger. -/
theorem halting_of_goto {t u : Tid} {p : Pc R} {n : Nat}
    (hp : ∀ m, p ≠ .haltExchange m)
    (h : (s.goto t p).pc u = .haltExchange n) :
    s.pc u = .haltExchange n := by
  by_cases hu : u = t
  · subst hu
    rw [goto_pc_self] at h
    exact absurd h (hp n)
  · rwa [goto_pc_ne _ _ hu] at h

-- ======================================================= what a step does

/-- The four ways `state_` is written, each with what the source has
checked by then. -/
inductive WriteBy (s : StateManager R) (t : Tid) :
    Op → DaemonState → Prop
  | start (hpc : s.pc t = .startLoop s.state) (hr : s.state ≠ .running)
      (hs : s.state ≠ .shutdown) : WriteBy s t .start .running
  | halt (n : Nat) (hpc : s.pc t = .haltExchange n) :
      WriteBy s t .halt .idle
  | fault (a : Alarm R) (hpc : s.pc t = .faultCas a)
      (hr : s.state = .running) : WriteBy s t .fault .fault
  | shutdown (hpc : s.pc t = .shutdownExchange) :
      WriteBy s t .shutdown .shutdown

/-- A step that writes nothing: a thread may have come to stand before
`halt`'s exchange, having just seen that `state_` is not SHUTDOWN. -/
structure QuietStep (s s' : StateManager R) : Prop where
  state : s'.state = s.state
  shutdowns : s'.shutdowns = s.shutdowns
  halting : ∀ u n, s'.pc u = .haltExchange n →
    s.pc u = .haltExchange n ∨ (n = s.shutdowns ∧ s.state ≠ .shutdown)

/-- A step that writes `next`. -/
structure WriteStep (s : StateManager R) (t : Tid) (op : Op)
    (next : DaemonState) (s' : StateManager R) : Prop where
  cause : WriteBy s t op next
  state : s'.state = next
  shutdowns : s'.shutdowns
    = if next = .shutdown then s.shutdowns + 1 else s.shutdowns
  halting : ∀ u n, s'.pc u = .haltExchange n → s.pc u = .haltExchange n

/-- A move to a control point that is not `halt`'s exchange, with the
events changed at will, writes nothing. -/
theorem quietStep_goto {t : Tid} {p : Pc R} {es : List (Event R)}
    (hp : ∀ m, p ≠ .haltExchange m) :
    QuietStep s (({ s with events := es } : StateManager R).goto t p) :=
  ⟨rfl, rfl, fun _ _ h => .inl (halting_of_goto hp h)⟩

/-- A write followed by the move to the callback copy. -/
theorem writeStep_goto {t : Tid} {op : Op} {next prev : DaemonState}
    {alarm : Option (Alarm R)} (hc : WriteBy s t op next) :
    WriteStep s t op next
      ((s.writeState t op next).goto t (.copyStateCb next prev alarm)) := by
  refine ⟨hc, rfl, rfl, fun u n h => ?_⟩
  have hp : ∀ m, Pc.copyStateCb next prev alarm ≠ .haltExchange m := nofun
  exact halting_of_goto (s := s.writeState t op next) hp h

/-- `transition` writes. -/
theorem transition_write {t : Tid} {op : Op} {next : DaemonState}
    (hc : WriteBy s t op next) :
    WriteStep s t op next (s.transition t op next) :=
  writeStep_goto hc

/-- The loop body of `start` writes RUNNING over a state it has checked,
or writes nothing. -/
theorem startLoop_cases {t : Tid} {prev : DaemonState} (spurious : Bool)
    (hpc : s.pc t = .startLoop prev) :
    QuietStep s (s.startLoop t prev spurious)
      ∨ WriteStep s t .start .running (s.startLoop t prev spurious) := by
  unfold startLoop
  split
  next => exact .inl (quietStep_goto nofun)
  next hr =>
    split
    next => exact .inl (quietStep_goto nofun)
    next hs =>
      split
      next hcas =>
        obtain ⟨rfl, -⟩ := hcas
        exact .inr (writeStep_goto (.start hpc hr hs))
      next => exact .inl (quietStep_goto nofun)

/-- `halt`'s load writes nothing, and goes on only from a state that is
not SHUTDOWN. -/
theorem haltLoad_quiet (s : StateManager R) (t : Tid) :
    QuietStep s (s.haltLoad t) := by
  unfold haltLoad
  split
  next => exact quietStep_goto nofun
  next hs =>
    refine ⟨rfl, rfl, fun u n h => ?_⟩
    by_cases hu : u = t
    · subst hu
      rw [goto_pc_self] at h
      injection h with h
      exact .inr ⟨h.symm, hs⟩
    · rw [goto_pc_ne _ _ hu] at h
      exact .inl h

theorem faultCas_cases {t : Tid} {a : Alarm R}
    (hpc : s.pc t = .faultCas a) :
    QuietStep s (s.faultCas t a)
      ∨ WriteStep s t .fault .fault (s.faultCas t a) := by
  unfold faultCas
  split
  next hr => exact .inr (writeStep_goto (.fault a hpc hr))
  next => exact .inl (quietStep_goto nofun)

theorem callStateCb_quiet (s : StateManager R) (t : Tid)
    (next prev : DaemonState) (cb : Bool) (alarm : Option (Alarm R)) :
    QuietStep s (s.callStateCb t next prev cb alarm) := by
  unfold callStateCb
  cases cb <;> cases alarm <;> exact quietStep_goto nofun

theorem callAlarmCb_quiet (s : StateManager R) (t : Tid) (a : Alarm R)
    (cb : Bool) : QuietStep s (s.callAlarmCb t a cb) := by
  unfold callAlarmCb
  cases cb <;> exact quietStep_goto nofun

/-- A thread's step either writes nothing or is one of the four
writes. -/
theorem threadStep_cases {t : Tid} {spurious : Bool}
    (h : s.threadStep t spurious = some s') :
    QuietStep s s' ∨ ∃ op next, WriteStep s t op next s' := by
  unfold threadStep at h
  split at h
  next => cases h
  next hpc =>
    injection h with h
    exact .inl (h ▸ quietStep_goto nofun)
  next prev hpc =>
    injection h with h
    rcases startLoop_cases spurious hpc with hq | hw
    · exact .inl (h ▸ hq)
    · exact .inr ⟨_, _, h ▸ hw⟩
  next =>
    injection h with h
    exact .inl (h ▸ haltLoad_quiet s t)
  next n hpc =>
    injection h with h
    exact .inr ⟨_, _, h ▸ transition_write (.halt n hpc)⟩
  next a hpc =>
    injection h with h
    rcases faultCas_cases hpc with hq | hw
    · exact .inl (h ▸ hq)
    · exact .inr ⟨_, _, h ▸ hw⟩
  next hpc =>
    injection h with h
    exact .inr ⟨_, _, h ▸ transition_write (.shutdown hpc)⟩
  next =>
    injection h with h
    exact .inl (h ▸ quietStep_goto nofun)
  next =>
    injection h with h
    exact .inl (h ▸ callStateCb_quiet s t _ _ _ _)
  next =>
    injection h with h
    exact .inl (h ▸ quietStep_goto nofun)
  next =>
    injection h with h
    exact .inl (h ▸ callAlarmCb_quiet s t _ _)

/-- A step of the system either writes nothing or is one of the four
writes, performed by the thread that stepped. -/
theorem step_cases {a : Act R} (h : step a s = some s') :
    QuietStep s s' ∨ ∃ t spurious op next,
      a = .step t spurious ∧ WriteStep s t op next s' := by
  cases a with
  | call t c =>
      simp only [step] at h
      split at h
      next =>
        injection h with h
        refine .inl (h ▸ quietStep_goto ?_)
        cases c <;> exact nofun
      next => cases h
  | step t spurious =>
      rcases threadStep_cases h with hq | ⟨op, next, hw⟩
      · exact .inl hq
      · exact .inr ⟨t, spurious, op, next, rfl, hw⟩
  | setStateChangedCallback b =>
      injection h with h
      exact .inl (h ▸ ⟨rfl, rfl, fun _ _ hp => .inl hp⟩)
  | setAlarmCallback b =>
      injection h with h
      exact .inl (h ▸ ⟨rfl, rfl, fun _ _ hp => .inl hp⟩)

-- ========================================================= the invariants

/-- What a thread before `halt`'s exchange still knows: no `shutdown`
was uncounted at its load, and if none wrote since then `state_` is not
SHUTDOWN. -/
def HaltInv (s : StateManager R) : Prop :=
  ∀ u n, s.pc u = .haltExchange n →
    n ≤ s.shutdowns ∧ (n = s.shutdowns → s.state ≠ .shutdown)

/-- SHUTDOWN has not been left so far: a write of it still stands. -/
def KeptInv (s : StateManager R) : Prop :=
  0 < s.shutdowns → s.state = .shutdown

theorem haltInv_step {a : Act R} (hi : HaltInv s)
    (h : step a s = some s') : HaltInv s' := by
  intro u n hpc
  rcases step_cases h with hq | ⟨t, -, op, next, -, hw⟩
  · rw [hq.state, hq.shutdowns]
    rcases hq.halting u n hpc with hold | ⟨rfl, hns⟩
    · exact hi u n hold
    · exact ⟨Nat.le_refl _, fun _ => hns⟩
  · obtain ⟨hle, -⟩ := hi u n (hw.halting u n hpc)
    rw [hw.state, hw.shutdowns]
    by_cases hs : next = .shutdown
    · -- the count has just passed what the thread saw
      rw [if_pos hs]
      exact ⟨by omega, fun heq => by omega⟩
    · rw [if_neg hs]
      exact ⟨hle, fun _ => hs⟩

theorem keptInv_step {a : Act R} (hk : KeptInv s)
    (h : step a s = some s')
    (hkeep : s.state = .shutdown → s'.state = .shutdown) :
    KeptInv s' := by
  intro hpos
  rcases step_cases h with hq | ⟨t, -, op, next, -, hw⟩
  · rw [hq.shutdowns] at hpos
    exact hkeep (hk hpos)
  · by_cases hs : next = .shutdown
    · rw [hw.state, hs]
    · rw [hw.shutdowns, if_neg hs] at hpos
      exact hkeep (hk hpos)

-- ======================================================== finality of runs

/-- The step is not a stale exchange: when a thread performs `halt`'s
exchange, no `shutdown` has written since that call's load. -/
def NoStaleHalt (s : StateManager R) (a : Act R)
    (_ : StateManager R) : Prop :=
  ∀ t spurious n, a = .step t spurious → s.pc t = .haltExchange n →
    s.shutdowns = n

/-- A step that is no stale exchange does not leave SHUTDOWN. -/
theorem keeps_shutdown {a : Act R} (hi : HaltInv s)
    (h : step a s = some s') (hok : NoStaleHalt s a s')
    (hs : s.state = .shutdown) : s'.state = .shutdown := by
  rcases step_cases h with hq | ⟨t, spurious, op, next, ha, hw⟩
  · rw [hq.state, hs]
  · rw [hw.state]
    cases hw.cause with
    | start hpc hr hns => exact absurd hs hns
    | halt n hpc =>
        have hfresh := hok t spurious n ha hpc
        exact absurd hs ((hi t n hpc).2 hfresh.symm)
    | fault a' hpc hr =>
        rw [hs] at hr
        cases hr
    | shutdown hpc => rfl

/-- A stale exchange leaves SHUTDOWN, in a run that had not left it. -/
theorem noStaleHalt_of_keeps {a : Act R} (hi : HaltInv s)
    (hk : KeptInv s) (h : step a s = some s')
    (hkeep : s.state = .shutdown → s'.state = .shutdown) :
    NoStaleHalt s a s' := by
  intro t spurious n ha hpc
  subst ha
  obtain ⟨hle, -⟩ := hi t n hpc
  by_cases hfresh : s.shutdowns = n
  · exact hfresh
  have hs : s.state = .shutdown := hk (by omega)
  -- the exchange itself: `state_` becomes IDLE
  have hs' : s'.state = .idle := by
    simp only [step, threadStep, hpc, Option.some.injEq] at h
    rw [← h]
    rfl
  have hcon := hkeep hs
  rw [hs'] at hcon
  cases hcon

/-- SHUTDOWN is final exactly along the runs without a stale exchange:
for any number of threads and any schedule of their atomic steps, once
`state_` is SHUTDOWN it stays SHUTDOWN iff no `halt` performs its
exchange after a `shutdown` that wrote since that `halt`'s load. -/
theorem shutdown_final_iff (as : List (Act R)) :
    Stable step (fun s : StateManager R => s.state = .shutdown) as init
      ↔ AllSteps step NoStaleHalt as (init : StateManager R) := by
  rw [stable_iff_allSteps]
  have hinit : HaltInv (init : StateManager R) := nofun
  constructor
  · refine AllSteps.mono (fun s => HaltInv s ∧ KeptInv s) ?_
      ⟨hinit, nofun⟩
    rintro s s' a ⟨hi, hk⟩ h hkeep
    exact ⟨noStaleHalt_of_keeps hi hk h hkeep, haltInv_step hi h,
      keptInv_step hk h hkeep⟩
  · refine AllSteps.mono HaltInv ?_ hinit
    intro s s' a hi h hok
    exact ⟨keeps_shutdown hi h hok, haltInv_step hi h⟩

/-- `halt` in one thread, `shutdown` in another, its exchange between
`halt`'s load and `halt`'s exchange. -/
def haltRace : List (Act R) :=
  [.call 0 .halt, .step 0 false, .call 1 .shutdown, .step 1 false,
    .step 0 false]

/-- The race overwrites SHUTDOWN with IDLE. -/
theorem halt_overwrites_shutdown :
    ∃ s₁ s₂ : StateManager Nat,
      exec step (haltRace.take 4) init = some s₁
        ∧ exec step (haltRace.drop 4) s₁ = some s₂
        ∧ s₁.state = .shutdown ∧ s₂.state = .idle
        ∧ ¬ Stable step
          (fun s : StateManager Nat => s.state = .shutdown) haltRace init := by
  refine ⟨_, _, rfl, rfl, rfl, rfl, fun h => ?_⟩
  have hcon := h (haltRace.take 4) (haltRace.drop 4) [] rfl _ _ rfl rfl rfl
  cases hcon

end StateManager

end EdgeIpc.Daemon
