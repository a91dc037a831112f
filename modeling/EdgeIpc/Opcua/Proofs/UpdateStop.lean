/-
`update_loop_stop` returns, under schedules that give both threads their
turns.

The timer is made non-blocking, so the update thread comes back to its
look at `g_running` whatever the timer says. While a stop is waiting the
newest value there is false (`Lowered`), and once the store has become
visible to the thread the look is its last. Until then a relaxed load may
miss it; that it does not do so forever is an assumption on the schedule
(`Visible`).
-/
import EdgeIpc.Lib.Fair
import EdgeIpc.Opcua.Proofs.UpdateLoop

namespace EdgeIpc.Opcua.UpdateLoop

open Lib

variable {D : Type} [Add D] [Sub D] [Mul D] [Div D] [Neg D]
  [OfScientific D] {L : Libm D} {s s' : UpdateLoop}

-- ============================================================ the invariant

/-- While a stop is waiting, `g_running` is false. -/
def Lowered (s : UpdateLoop) : Prop :=
  s.control = .join → (s.mem.hist .running).getLast? = some false

theorem lowered_move (hl : Lowered s) (hm : LoopMove L s s') :
    Lowered s' := by
  have hstore : ∀ (t : Thread) {l : Loc} (v : l.Val), Loc.running ≠ l →
      (s.mem.store t l v).hist .running = s.mem.hist .running :=
    fun t _ v hne => Memory.hist_store_ne s.mem t v hne
  cases hm with
  | start | ticks | create | refused | join => exact by simp [Lowered]
  | stop => exact fun _ => Memory.getLast_store _ _ _ _
  | boot | noTimer | early | begin => exact hl
  | set | count =>
      intro hc
      rw [← hl hc]
      exact congrArg _ (hstore _ _ (by simp))
  | check _ hg | get hg | tickCount hg =>
      intro hc
      rw [← hl hc]
      exact congrArg _ (congrFun (Memory.hist_load hg) _)

-- ================================================================= the rank

/-- A stop that is waiting. -/
structure Stopping (L : Libm D) (s : UpdateLoop) : Prop where
  inv : LoopInv L s
  lowered : Lowered s
  join : s.control = .join

/-- There is no update thread, and none is being made. -/
def Stopped (s : UpdateLoop) : Prop :=
  s.control = .idle ∧ s.thread = .absent

/-- What the update thread has left. -/
def stopRank (s : UpdateLoop) : Nat :=
  match s.thread with
  | .absent => 0
  | .finished => 1
  | .check _ => 2
  | .sets todo _ => 3 + todo.length
  | .read _ => 13
  | .boot => 14

/-- Whom the stop waits for: the controlling thread itself, once the
update thread has left its loop. -/
inductive Waits where
  | control | update
deriving DecidableEq, Repr

def helper (s : UpdateLoop) : Waits :=
  match s.thread with
  | .finished => .control
  | _ => .update

def turn : Waits → LoopAct → Prop
  | .control, a => ∃ created, a = .control created
  | .update, a => ∃ opened exp, a = .thread opened 0 exp

/-- No load of the update thread misses the newest value. -/
def Visible (a : LoopAct) : Prop :=
  ∀ opened back exp, a = .thread opened back exp → back = 0

/-- A look at `g_running` that does not miss it is the last. -/
theorem check_lowered (hs : Stopping L s) (tick : Nat) {g : Bool}
    {mem : Memory Thread Loc.Val}
    (hg : s.mem.load .update .running 0 = some (g, mem)) :
    afterCheck tick g = .finished := by
  obtain ⟨-, hget, -⟩ := Memory.load_some hg
  have hlast := hs.lowered hs.join
  rw [List.getLast?_eq_getElem?] at hlast
  have heq := hget.symm.trans hlast
  obtain rfl := Option.some.inj heq
  rfl

/-- The update thread, while it is being stopped. -/
theorem stopping_thread {opened : Bool} {exp : Option Nat}
    (hs : Stopping L s) (ht : s.thread ≠ .finished) :
    ∃ s', s.threadStep L opened 0 exp = some s'
      ∧ stopRank s' < stopRank s := by
  have hpresent := hs.inv.placed.stopping hs.join
  unfold threadStep
  cases hp : s.thread with
  | absent => exact absurd hp hpresent
  | finished => exact absurd hp ht
  | boot =>
      refine ⟨_, rfl, ?_⟩
      cases opened <;> simp [stopRank, hp]
  | check tick =>
      obtain ⟨g, mem, hg⟩ :=
        Memory.exists_load hs.inv.seen.valid .update .running
      have hlast := check_lowered hs tick hg
      simp only [hg, Option.map_some, hlast]
      exact ⟨_, rfl, by simp [stopRank, hp]⟩
  | read tick =>
      cases exp with
      | none => exact ⟨_, rfl, by simp [stopRank, hp]⟩
      | some n => exact ⟨_, rfl, by simp [stopRank, hp, updateOrder]⟩
  | sets todo tick =>
      cases todo with
      | nil => exact ⟨_, rfl, by simp [stopRank, hp]⟩
      | cons idx rest => exact ⟨_, rfl, by simp [stopRank, hp]⟩

theorem stopping_help {a : LoopAct} (hs : Stopping L s) (_ : ¬ Stopped s)
    (_ : Visible a) (ha : turn (helper s) a) :
    ∃ s', step L a s = some s' ∧ (Stopped s' ∨ stopRank s' < stopRank s) := by
  by_cases ht : s.thread = .finished
  · rw [helper, ht] at ha
    obtain ⟨created, rfl⟩ := ha
    simp only [step, controlStep, hs.join, ht]
    exact ⟨_, rfl, .inl ⟨rfl, rfl⟩⟩
  · have hhelper : helper s = .update := by
      unfold helper
      split
      next hp => exact absurd hp ht
      next => rfl
    rw [hhelper] at ha
    obtain ⟨opened, exp, rfl⟩ := ha
    obtain ⟨s', hs', hrank⟩ := stopping_thread hs ht
    exact ⟨s', hs', .inr hrank⟩

/-- A stop waits until the update thread is joined. -/
theorem join_move (hjoin : s.control = .join) (hm : LoopMove L s s') :
    Stopped s' ∨ s'.control = .join := by
  cases hm with
  | join => exact .inl ⟨rfl, rfl⟩
  | start hc | stop hc | ticks hc | create hc | refused hc =>
      rw [hjoin] at hc
      cases hc
  | boot | noTimer | check | early | begin | set | count | get | tickCount =>
      exact .inr hjoin

theorem stopping_step {a : LoopAct} (hs : Stopping L s)
    (h : step L a s = some s') : Stopped s' ∨ Stopping L s' := by
  have hm := step_move h
  refine (join_move hs.join hm).imp_right fun hjoin => ?_
  exact ⟨loopInv_step hs.inv h, lowered_move hs.lowered hm, hjoin⟩

/-- No step takes a waiting stop further from its end. -/
theorem stopping_keep {a : LoopAct} (hs : Stopping L s) (_ : ¬ Stopped s)
    (hv : Visible a) (h : step L a s = some s') :
    Stopped s' ∨ stopRank s' < stopRank s
      ∨ (stopRank s' = stopRank s ∧ helper s' = helper s) := by
  cases a with
  | start => simp [step, hs.join] at h
  | stop => simp [step, hs.join] at h
  | control created =>
      simp only [step, controlStep, hs.join] at h
      split at h
      next =>
        obtain rfl := Option.some.inj h
        exact .inl ⟨rfl, rfl⟩
      next => cases h
  | thread opened back exp =>
      obtain rfl := hv opened back exp rfl
      have ht : s.thread ≠ .finished := by
        intro hp
        simp [step, threadStep, hp] at h
      obtain ⟨t, ht', hrank⟩ := stopping_thread hs ht
      obtain rfl := Option.some.inj (h.symm.trans ht')
      exact .inr (.inl hrank)
  | get client idx back =>
      obtain ⟨⟨v, t⟩, hget, rfl⟩ := Option.map_eq_some_iff.mp h
      obtain ⟨⟨w, mem⟩, -, heq⟩ := Option.map_eq_some_iff.mp hget
      injection heq with _ ht
      subst ht
      exact .inr (.inr ⟨rfl, rfl⟩)
  | tickCount client back =>
      obtain ⟨⟨v, t⟩, hget, rfl⟩ := Option.map_eq_some_iff.mp h
      obtain ⟨⟨w, mem⟩, -, heq⟩ := Option.map_eq_some_iff.mp hget
      injection heq with _ ht
      subst ht
      exact .inr (.inr ⟨rfl, rfl⟩)

-- ============================================================== the theorem

theorem lowered_reachable (hr : Reachable (step L) init s) : Lowered s := by
  have hinit : Lowered init := by simp [Lowered, init]
  exact hr.invariant hinit fun hl h => lowered_move (L := L) hl (step_move h)

/-- A stop returns. If the controlling and the update thread keep getting
their turns and stores of `g_running` become visible in the end, then
every stop that has been called joins the update thread, whatever the
timer says and the readers do. -/
theorem stop_returns {sched : Nat → LoopAct}
    (hcontrol : Recurs sched fun a => ∃ created, a = .control created)
    (hupdate : Recurs sched fun a => ∃ opened exp, a = .thread opened 0 exp)
    (hvisible : Settles sched Visible) {n : Nat}
    (hjoin : (trace (step L) sched init n).control = .join) :
    ∃ m, n ≤ m ∧ Stopped (trace (step L) sched init m) := by
  obtain ⟨q, hq⟩ := hvisible
  have hstart : Stopping L (trace (step L) sched init n) := by
    have hr := trace_reachable (step L) sched init n
    exact ⟨loopInv_reachable hr, lowered_reachable hr, hjoin⟩
  -- before the store is visible, the stop may be over, or it waits on
  have hwait : ∀ k, n ≤ k → (∃ m, n ≤ m
      ∧ Stopped (trace (step L) sched init m))
      ∨ Stopping L (trace (step L) sched init k) := by
    intro k hk
    induction k, hk using Nat.le_induction with
    | base => exact .inr hstart
    | succ k hk ih =>
        rcases ih with hdone | hs
        · exact .inl hdone
        rcases trace_succ (step L) sched init k with h | h
        · rcases stopping_step hs h with hdone | hs'
          · exact .inl ⟨k + 1, by omega, hdone⟩
          · exact .inr hs'
        · rw [h]
          exact .inr hs
  have hfair : ∀ i, Recurs sched (turn i) := by
    intro i
    cases i with
    | control => exact hcontrol
    | update => exact hupdate
  rcases hwait (max n q) (le_max_left n q) with hdone | hs
  · exact hdone
  · obtain ⟨m, hm, hdone⟩ := reaches_of_helpful (Stopping L) Stopped Visible
      turn stopRank helper hfair
      (fun i hi => hq i ((le_max_right n q).trans hi))
      (fun hs _ _ h => stopping_step hs h) stopping_keep stopping_help hs
    exact ⟨m, (le_max_left n q).trans hm, hdone⟩

/-- A start, and a stop as soon as the thread is made; then both threads
in turn, the timer expiring every time it is read. -/
def startStop : Nat → LoopAct
  | 0 => .start
  | 1 => .control true
  | 2 => .control true
  | 3 => .stop
  | n + 4 =>
      match n % 2 with
      | 0 => .thread true 0 (some 1)
      | _ => .control true

/-- The stop returns. -/
theorem stop_returns_startStop :
    ∃ m, 4 ≤ m ∧ Stopped (trace (step toyLibm) startStop init m) := by
  have hupdate : ∀ n, startStop (2 * n + 4) = .thread true 0 (some 1) := by
    intro n
    simp [startStop]
  have hcontrol : ∀ n, startStop (2 * n + 1 + 4) = .control true := by
    intro n
    simp [startStop]
  have hvisible : ∀ n, 0 ≤ n → Visible (startStop n) := by
    intro n _ opened back exp h
    unfold startStop at h
    split at h
    all_goals first | cases h | skip
    split at h
    · cases h
      rfl
    · cases h
  refine stop_returns ?_ ?_ ⟨0, hvisible⟩ ?_
  · exact fun n => ⟨2 * n + 1 + 4, by omega, true, hcontrol n⟩
  · exact fun n => ⟨2 * n + 4, by omega, true, some 1, hupdate n⟩
  · decide +kernel

end EdgeIpc.Opcua.UpdateLoop
