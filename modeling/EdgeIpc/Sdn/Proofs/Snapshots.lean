/-
The snapshot law of the producer loop, over whole runs: what each
snapshot pushed says is determined by the frames processed, whatever the
node's other threads and calls do, and FAULT is left only by `Stop`.

The law for the snapshots pushed (`Snapshots`) is kept by every step of
the node: the producer's steps are in Proofs/Producer.lean, the others do
not touch the tally. The FSM's part of a snapshot is turned from "some
frame so far ended a run of three out of band" into "some snapshot so far
carries the alarm" (`faulted_iff_alarm`).
-/
import EdgeIpc.Sdn.Proofs.Life

namespace EdgeIpc.Sdn.TelemetryNode

open Lib Daemon StateManager

variable {K : Type} [Field K] [LinearOrder K] {s s' : TelemetryNode K}
  {movedFrom : TelemetryFrame K → TelemetryFrame K}
  {blank : TelemetryFrame K} {nodeId : String}

-- ========================================================= step by step

/-- The node's invariant and the law for what was pushed. -/
structure SnapInv (movedFrom : TelemetryFrame K → TelemetryFrame K)
    (blank : TelemetryFrame K) (nodeId : String) (s : TelemetryNode K) :
    Prop where
  node : NodeInv movedFrom blank true s
  nodeId : s.nodeId = nodeId
  snapshots : Snapshots s.tally

theorem snapInv_step {a : NodeAct K} (hi : SnapInv movedFrom blank nodeId s)
    (h : step movedFrom a s = some s') :
    SnapInv movedFrom blank nodeId s' := by
  have hnode := nodeInv_step hi.node h (.inl rfl)
  rcases step_cases h with ⟨-, -, rfl⟩ | ⟨-, -, rfl⟩
    | ⟨spurious, rfl, hc⟩ | ⟨frame, now, -, hp⟩ | hby
  · exact ⟨hnode, hi.nodeId, hi.snapshots⟩
  · exact ⟨hnode, hi.nodeId, hi.snapshots⟩
  · have hg := controlStep_governs hc
    refine ⟨hnode, hg.nodeId.trans hi.nodeId, hi.snapshots.mono hg.nodeId
      (congrArg StreamQueue.pushed hg.stream) ?_⟩
    show s.processed <+: s'.processed
    rw [hg.processed]
  · exact ⟨hnode, (producerStep_aside hp).nodeId.trans hi.nodeId,
      snapshots_producer hi.snapshots
        (hi.node.life.of_thread (producerStep_exists hp)) hp⟩
  · have htally : s'.tally = s.tally := congrArg Core.tally hby.core
    refine ⟨hnode, (congrArg Tally.nodeId htally).trans hi.nodeId, ?_⟩
    rw [htally]
    exact hi.snapshots

theorem snapInv_reachable
    (hr : Reachable (step movedFrom) (init nodeId blank) s) :
    SnapInv movedFrom blank nodeId s :=
  hr.invariant
    ⟨nodeInv_init true nodeId blank, rfl, fun i e he => by cases he⟩
    snapInv_step

/-- A step that pushes a snapshot leaves the count at the number of
snapshots pushed. -/
theorem count_of_push {a : NodeAct K} (hi : NodeInv movedFrom blank true s)
    (h : step movedFrom a s = some s')
    (hpush : s'.stream.pushed ≠ s.stream.pushed) :
    s'.processedCount = s'.stream.pushed.length % 2 ^ 64 := by
  rcases step_cases h with ⟨-, -, rfl⟩ | ⟨-, -, rfl⟩
    | ⟨spurious, rfl, hc⟩ | ⟨frame, now, -, hp⟩ | hby
  · exact absurd rfl hpush
  · exact absurd rfl hpush
  · have hg := controlStep_governs hc
    exact absurd (congrArg StreamQueue.pushed hg.stream) hpush
  · rcases (producerStep_aside hp).pushed with ⟨hsame, -⟩ | ⟨snap, -, hpop, -⟩
    · exact absurd hsame hpush
    · have hat := at_producer hi.sampled
        (hi.life.of_thread (producerStep_exists hp)) hp
      rw [hpop] at hat
      have hcount := hat.count
      rw [← hat.pushed] at hcount
      exact hcount
  · exact absurd (congrArg (fun c => c.tally.pushed) hby.core) hpush

/-- FAULT is left only by the `shutdown()` inside `Stop`. -/
theorem fault_until_stop {a : NodeAct K}
    (hi : NodeInv movedFrom blank true s) (h : step movedFrom a s = some s')
    (hst : s.fsm.state = .fault) :
    s'.fsm.state = .fault
      ∨ (s.control = .inShutdown ∧ s'.fsm.state = .shutdown) := by
  rcases step_cases h with ⟨-, -, rfl⟩ | ⟨-, -, rfl⟩
    | ⟨spurious, rfl, hc⟩ | ⟨frame, now, -, hp⟩ | hby
  · exact .inl hst
  · exact .inl hst
  · rcases (controlStep_governs hc).fsm with hsame | ⟨hctl, -⟩ | ⟨hctl, hshut⟩
    · exact .inl (hsame.trans hst)
    · obtain ⟨old, -, hstart, ho, -⟩ := hi.life.of_inStart hctl
      exact absurd hst (Starting.not_fault hstart ho)
    · have hclose := hi.life.of_inShutdown hctl
      obtain ⟨-, hdown, -⟩ := inShutdown_cases hclose hshut
      exact .inr ⟨hctl, hdown⟩
  · rcases (producerStep_aside hp).fsm with hsame | ⟨f, m, p, es, n, hf, hm⟩
    · exact .inl (hsame.trans hst)
    · have hat := hi.life.of_thread (producerStep_exists hp)
      change At s.tally s.producer at hat
      rw [hf] at hat
      obtain ⟨fs, -, -, -, hraise, -⟩ := hat
      exact .inl (hm.state.trans (move_raising_fault hm.move hraise hst))
  · exact .inl ((congrArg (fun c => c.tally.state) hby.core).trans hst)

-- ============================================================ the alarms

/-- Some frame up to the `i`-th ended a run out of band iff some snapshot
up to the `i`-th carries the alarm. -/
theorem faulted_iff_alarm {t : Tally K} (hs : Snapshots t) {i : Nat}
    {fs : List (TelemetryFrame K)} {f : TelemetryFrame K}
    (hi : i < t.pushed.length) (hpre : fs ++ [f] <+: t.processed)
    (hlen : fs.length = i) :
    Faulted (fs ++ [f]) ↔ ∃ (j : Nat) (e : Nat × ProcessedSnapshot K),
      j ≤ i ∧ t.pushed[j]? = some e ∧ e.2.alarmActive = true := by
  have hlen' : (fs ++ [f]).length = i + 1 := by
    rw [List.length_append, hlen]
    rfl
  constructor
  · rintro ⟨gs, hgs, hal⟩
    have hthree : 3 ≤ gs.length := by
      have hle := hal.1
      rwa [samples, List.length_map] at hle
    have hle := hgs.length_le
    obtain ⟨e, he⟩ : ∃ e, t.pushed[gs.length - 1]? = some e :=
      ⟨_, List.getElem?_eq_getElem (by omega)⟩
    obtain ⟨fs', f', hpre', hl', hsnap⟩ := hs _ e he
    have hsame : fs' ++ [f'] = gs := by
      have hl : (fs' ++ [f']).length = gs.length := by
        rw [List.length_append, List.length_singleton]
        omega
      exact (List.prefix_of_prefix_length_le hpre' (hgs.trans hpre)
        hl.le).eq_of_length hl
    refine ⟨_, e, by omega, he, hsnap.alarm.mpr ?_⟩
    rw [hsame]
    exact hal
  · rintro ⟨j, e, hj, he, hal⟩
    obtain ⟨fs', f', hpre', hl', hsnap⟩ := hs j e he
    refine ⟨fs' ++ [f'], List.prefix_of_prefix_length_le hpre' hpre ?_,
      hsnap.alarm.mp hal⟩
    rw [hlen', List.length_append, List.length_singleton]
    omega

-- ============================================================== the claim

variable [IsStrictOrderedRing K]

/-- The snapshot law, in every reachable state of a node: the frames
processed are the frames the loop pushed into its ring, in order; the
`i`-th snapshot pushed carries the `i`-th frame's value, the mean of the
last ten samples up to it, an alarm iff the last three up to it are
outside [20, 80], and "FAULT" or "RUNNING" according to whether some
snapshot up to it carries the alarm; a step that pushes a snapshot leaves
the count (64 bits) at the number pushed; and FAULT is left only by the
`shutdown()` inside `Stop`. -/
theorem snapshot_law
    (hr : Reachable (step movedFrom) (init nodeId blank) s) :
    s.processed <+: s.receiver.pushed
    ∧ (∀ (i : Nat) (e : Nat × ProcessedSnapshot K),
      s.stream.pushed[i]? = some e →
      ∃ fs f, fs ++ [f] <+: s.processed ∧ fs.length = i
        ∧ e.2.nodeId = nodeId ∧ e.2.rawValue = f.value
        ∧ e.2.filteredValue = mean 10 (samples (fs ++ [f]))
        ∧ (e.2.alarmActive = true
          ↔ Streak (fun x : K => 80 < x ∨ x < 20) 3 (samples (fs ++ [f])))
        ∧ ((e.2.fsmState = "FAULT" ∧ ∃ j e', j ≤ i
              ∧ s.stream.pushed[j]? = some e' ∧ e'.2.alarmActive = true)
          ∨ (e.2.fsmState = "RUNNING" ∧ ∀ j e', j ≤ i →
              s.stream.pushed[j]? = some e' → e'.2.alarmActive = false)))
    ∧ ∀ a s', step movedFrom a s = some s' →
      (s'.stream.pushed ≠ s.stream.pushed →
        s'.processedCount = s'.stream.pushed.length % 2 ^ 64)
      ∧ (s.fsm.state = .fault → s'.fsm.state = .fault
        ∨ (s.control = .inShutdown ∧ s'.fsm.state = .shutdown)) := by
  have hi := snapInv_reachable hr
  refine ⟨?_, ?_, fun a s' h =>
    ⟨count_of_push hi.node h, fault_until_stop hi.node h⟩⟩
  · have hpopped := TelemetryReceiver.popped_prefix_pushed hi.node.sampled.ring
    rw [hi.node.sampled.popped] at hpopped
    exact (List.prefix_append _ _).trans hpopped
  · intro i e he
    obtain ⟨fs, f, hpre, hlen, hsnap⟩ := hi.snapshots i e he
    obtain ⟨hlt, -⟩ := List.getElem?_eq_some_iff.mp he
    have hiff := faulted_iff_alarm hi.snapshots hlt hpre hlen
    refine ⟨fs, f, hpre, hlen, hsnap.nodeId.trans hi.nodeId, hsnap.raw,
      hsnap.filtered, hsnap.alarm.trans (alarming_iff _), ?_⟩
    rcases hsnap.state with ⟨hst, hf⟩ | ⟨hst, hf⟩
    · exact .inl ⟨hst, hiff.mp hf⟩
    · refine .inr ⟨hst, fun j e' hj he' => ?_⟩
      refine Bool.eq_false_iff.mpr fun hal => hf (hiff.mpr ?_)
      exact ⟨j, e', hj, he', hal⟩

/-- The producer's steps for one sample, with `extra` steps of `fault`,
up to the end of the inner loop. -/
def oneSample (v : ℚ) (extra : Nat) : List (NodeAct ℚ) :=
  [.producer none 0, .producer (some ⟨"worker1_sensor", v, 0⟩) 0]
    ++ List.replicate (14 + extra) (.producer none 0)

/-- `Start`, then three samples above the band. -/
def threeHigh : List (NodeAct ℚ) :=
  [[.start], controls 8, oneSample 90 0, oneSample 100 0,
    oneSample 95 6].flatten

/-- The law for the third snapshot: it says the mean of three frames, the
alarm they raise, and FAULT. -/
theorem snapshot_law_three_high :
    ∃ s fs f, exec (step id) threeHigh (init "worker1" ⟨"", 0, 0⟩) = some s
      ∧ s.stream.pushed[2]?
        = some (2, ⟨"worker1", 95, 95, true, "FAULT", 0⟩)
      ∧ fs ++ [f] <+: s.processed ∧ fs.length = 2 ∧ f.value = 95
      ∧ mean 10 (samples (fs ++ [f])) = 95
      ∧ Streak (fun x : ℚ => 80 < x ∨ x < 20) 3 (samples (fs ++ [f]))
      ∧ ∃ j e, j ≤ 2 ∧ s.stream.pushed[j]? = some e
        ∧ e.2.alarmActive = true := by
  have hrun : (exec (step id) threeHigh (init "worker1" ⟨"", 0, 0⟩)).map
      (fun s => s.stream.pushed[2]?)
        = some (some (2, ⟨"worker1", 95, 95, true, "FAULT", 0⟩)) := by
    decide +kernel
  obtain ⟨s, hs, hthird⟩ := Option.map_eq_some_iff.mp hrun
  obtain ⟨fs, f, hpre, hlen, -, hraw, hmean, halarm, hstate⟩ :=
    (snapshot_law (reachable_of_exec hs)).2.1 2 _ hthird
  rcases hstate with ⟨-, hfault⟩ | ⟨hrunning, -⟩
  · exact ⟨s, fs, f, hs, hthird, hpre, hlen, hraw.symm, hmean.symm,
      halarm.mp rfl, hfault⟩
  · exact absurd hrunning (by decide)

end EdgeIpc.Sdn.TelemetryNode
