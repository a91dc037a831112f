/-
What `RunDiagnostics` says of the frames processed.

The counter of the bus object is read by `method_diagnostics` and written
by nobody: the frames are counted nowhere in `main`. So along every run
the counter is 0, whatever the main loop has done (`CountInv`), and a
reply is right exactly if no frame had been processed by then
(`diagnostics_count_iff`), whether "by then" is when the call is taken up
or when the counter is read. Apart from the replies the bus object adds
no behaviour to the daemon (`reachable_daemon`).
-/
import EdgeIpc.Daemon.DaemonBus
import EdgeIpc.Lib.Run
import Mathlib.Data.Rat.Cast.OfScientific

namespace EdgeIpc.Daemon.DaemonBus

open Lib

variable {K : Type} {s s' : DaemonBus K}

-- =========================================================== one handler

/-- The counter the worker has read, if any, is 0. -/
def NoneCounted : WorkerPc → Prop
  | .uptime _ _ _ cnt | .stateStr _ _ _ cnt _ => cnt = 0#64
  | _ => True

/-- The counter of a reply is 0. -/
def SaysNone : Reply → Prop
  | .diagnostics d _ _ => d.cnt = 0#64
  | .currentState _ => True

/-- Nobody has counted anything. -/
structure CountInv (s : DaemonBus K) : Prop where
  impl : s.impl.processedCount = 0#64
  worker : NoneCounted s.worker
  replies : ∀ r ∈ s.replies, SaysNone r

/-- One reply more. -/
theorem CountInv.reply (h : CountInv s) {r : Reply} (hr : SaysNone r)
    {w : WorkerPc} (hw : NoneCounted w) :
    CountInv { s with worker := w, replies := s.replies ++ [r] } := by
  refine ⟨h.impl, hw, ?_⟩
  rw [List.forall_mem_append, List.forall_mem_singleton]
  exact ⟨h.replies, hr⟩

/-- The handler leaves the daemon and the counter as they are, and passes
on what it read. -/
theorem methodDiagnostics_spec {rssKb : BitVec 64} {now : Int}
    (hs : s.methodDiagnostics rssKb now = some s') :
    s'.daemon = s.daemon ∧ (CountInv s → CountInv s') := by
  unfold methodDiagnostics at hs
  split at hs
  next => cases hs
  next =>
      injection hs with hs
      subst hs
      exact ⟨rfl, fun h => ⟨h.impl, trivial, h.replies⟩⟩
  next =>
      injection hs with hs
      subst hs
      exact ⟨rfl, fun h => ⟨h.impl, h.impl, h.replies⟩⟩
  next hw =>
      injection hs with hs
      subst hs
      refine ⟨rfl, fun h => ⟨h.impl, ?_, h.replies⟩⟩
      have hcnt := h.worker
      rw [hw] at hcnt
      exact hcnt
  next hw =>
      injection hs with hs
      subst hs
      refine ⟨rfl, fun h => h.reply ?_ trivial⟩
      have hcnt := h.worker
      rw [hw] at hcnt
      exact hcnt

-- ================================================================ one step

variable [Add K] [Sub K] [Div K] [NatCast K] [LT K] [DecidableLT K]
  [OfScientific K]
variable {movedFrom : TelemetryFrame K → TelemetryFrame K}

/-- A step is a step of the daemon or leaves it as it is; neither
counts. -/
theorem step_spec {a : BusAct K} (hs : step movedFrom a s = some s') :
    (s'.daemon = s.daemon
      ∨ ∃ a, s.daemon.step movedFrom a = some s'.daemon)
    ∧ (CountInv s → CountInv s') := by
  cases a with
  | daemon a =>
      simp only [step] at hs
      split at hs
      next => cases hs
      next =>
          obtain ⟨daemon, hstep, hs⟩ := Option.map_eq_some_iff.mp hs
          subst hs
          exact ⟨.inr ⟨a, hstep⟩, fun h => ⟨h.impl, h.worker, h.replies⟩⟩
  | runDiagnostics =>
      simp only [step] at hs
      split at hs
      next =>
          injection hs with hs
          subst hs
          exact ⟨.inl rfl, fun h => ⟨h.impl, trivial, h.replies⟩⟩
      next => cases hs
  | worker rssKb now =>
      obtain ⟨hd, hi⟩ := methodDiagnostics_spec hs
      exact ⟨.inl hd, hi⟩
  | getCurrentState =>
      simp only [step] at hs
      split at hs
      next =>
          injection hs with hs
          subst hs
          exact ⟨.inl rfl, fun h =>
            h.reply (r := .currentState _) trivial h.worker⟩
      next => cases hs

-- ============================================================== whole runs

variable [Zero K] {blank : TelemetryFrame K} {startTime : Int}

/-- Whatever is true of the daemon on its own is true of it here. -/
theorem reachable_daemon
    (hr : Reachable (step movedFrom) (init blank startTime) s) :
    Reachable (EdgeDaemon.step movedFrom) (.init blank) s.daemon := by
  induction hr with
  | init => exact .init
  | step _ _ hs ih =>
      rcases (step_spec hs).1 with hd | ⟨a, ha⟩
      · rw [hd]
        exact ih
      · exact .step a ih ha

theorem countInv_reachable
    (hr : Reachable (step movedFrom) (init blank startTime) s) : CountInv s :=
  hr.invariant ⟨rfl, trivial, nofun⟩ fun h hs => (step_spec hs).2 h

/-- When does `RunDiagnostics` return the number of frames processed? In
every run of the daemon with its bus, for every reply: if it is compared
with the number when the call was taken up, exactly if that was none; and
likewise if it is compared with the number when the counter was read. -/
theorem diagnostics_count_iff
    (hr : Reachable (step movedFrom) (init blank startTime) s)
    {d : Diagnostics} {called loaded : Nat}
    (hd : Reply.diagnostics d called loaded ∈ s.replies) :
    (d.cnt.toNat = called ↔ called = 0)
      ∧ (d.cnt.toNat = loaded ↔ loaded = 0) := by
  have hcnt : d.cnt = 0#64 := (countInv_reachable hr).replies _ hd
  rw [hcnt]
  exact ⟨eq_comm, eq_comm⟩

-- ============================================================== one sample

/-- The producer reads one sample and pushes it; `main` pops and
processes it. -/
def oneSample : List (BusAct ℚ) :=
  [.daemon (.producer none), .daemon (.producer (some ⟨"sensor0", 50, 0⟩)),
    .daemon (.producer none), .daemon (.producer none),
    .daemon (.producer none)] ++ List.replicate 6 (.daemon .main)

/-- One call of `RunDiagnostics`, two seconds after the start. -/
def oneCall : List (BusAct ℚ) :=
  [.runDiagnostics, .worker 4096#64 2500000000, .worker 0#64 2500000000,
    .worker 0#64 2500000000, .worker 0#64 2500000000]

/-- What the call returns, with nothing processed and with one frame
processed: the same. -/
def oneReply (processed : Nat) : Reply :=
  .diagnostics ⟨4096#64, 0#64, "IDLE", 2#64⟩ processed processed

/-- Before the first frame the reply is right. -/
theorem diagnostics_count_first :
    ∃ s, exec (step id) oneCall (init ⟨"", 0, 0⟩ 500000000) = some s
      ∧ oneReply 0 ∈ s.replies ∧ (0#64).toNat = 0 := by
  have hrun : (exec (step id) oneCall (init ⟨"", 0, 0⟩ 500000000)).map
      DaemonBus.replies = some [oneReply 0] := by
    decide +kernel
  obtain ⟨s, hs, hreplies⟩ := Option.map_eq_some_iff.mp hrun
  have hmem : oneReply 0 ∈ s.replies := by
    rw [hreplies]
    exact List.mem_singleton_self _
  exact ⟨s, hs, hmem,
    (diagnostics_count_iff (reachable_of_exec hs) hmem).1.mpr rfl⟩

/-- One frame has been processed, and the reply says none. -/
theorem diagnostics_miss_frame :
    (exec (step id) (oneSample ++ oneCall) (init ⟨"", 0, 0⟩ 500000000)).map
        (fun s => (s.replies, s.daemon.processed.length))
      = some ([oneReply 1], 1) := by
  decide +kernel

end EdgeIpc.Daemon.DaemonBus
