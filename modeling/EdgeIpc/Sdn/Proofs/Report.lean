/-
From the frames to the `/health` answer: every object of every report is
traced back to the frames its worker processed, through the worker's
answer, the poller and the handler's several critical sections.

A report need not be the picture of one moment (Proofs/Health.lean), but
each object in it takes its state and value from one answer. The handler
copies the entries in its first section, and what a copy holds was shown
(`Shows`) and stays so, since what has been shown only grows.
-/
import EdgeIpc.Sdn.Proofs.Polling

namespace EdgeIpc.Sdn.Cluster

open Lib Daemon TelemetryNode

variable {K : Type} [Field K] [LinearOrder K]
  {movedFrom : TelemetryFrame K → TelemetryFrame K}
  {blank : TelemetryFrame K} {s s' : Cluster K} {ids : List String}
  {names : Nat → String}

-- ========================================================= what was shown

/-- `st` is an answer shown of worker `id`, or the default message. -/
def Shows (ids : List String) (s : Cluster K) (id : String)
    (st : NodeStatus K) : Prop :=
  ∃ j, ids[j]? = some id ∧ (st = lastShown [] ∨ st ∈ (s.links j).shown)

/-- What has been shown stays shown. -/
def Keeps (s s' : Cluster K) : Prop :=
  ∀ j, (s.links j).shown <+: (s'.links j).shown

omit [LinearOrder K] in
theorem Shows.keeps {id : String} {st : NodeStatus K}
    (h : Shows ids s id st) (hk : Keeps s s') : Shows ids s' id st := by
  obtain ⟨j, hid, hst⟩ := h
  exact ⟨j, hid, hst.imp_right fun hmem => (hk j).subset hmem⟩

theorem keeps_step {a : ClusterAct K} (h : step movedFrom a s = some s') :
    Keeps s s' := by
  intro j
  cases a with
  | main => rw [(mainStep_oversees h).shown]
  | signal => rw [← Option.some.inj h]
  | get =>
      simp only [step] at h
      split at h
      next =>
        obtain ⟨coord, -, rfl⟩ := Option.map_eq_some_iff.mp h
        exact List.prefix_refl _
      next => cases h
  | health =>
      obtain ⟨coord, -, rfl⟩ := Option.map_eq_some_iff.mp h
      exact List.prefix_refl _
  | link idx a =>
      obtain ⟨link, -, hm⟩ := linkStep_move h
      by_cases hj : j = idx
      · subst hj
        cases hm with
        | update resp coord hcoord hshown =>
            rw [setLink_self, hshown]
            exact List.prefix_append _ _
        | quiet hshown => rw [setLink_self, hshown]
      · cases hm with
        | update => rw [setLink_ne _ _ hj]
        | quiet => rw [setLink_ne _ _ hj]

-- ============================================================= the request

/-- Every worker's object in `j` shows the state and the value of one
answer. -/
def Objects (ids : List String) (s : Cluster K) (j : Report K) : Prop :=
  ∀ id st v r, (id, HealthValue.worker st v r) ∈ j →
    ∃ a, Shows ids s id a ∧ a.fsmState = st ∧ a.lastValue = v

/-- How far a request has come. -/
def RequestAt (ids : List String) (s : Cluster K) : HealthPc K → Prop
  | .entries todo j => (∀ e ∈ todo, Shows ids s e.1 e.2) ∧ Objects ids s j
  | .done j => Objects ids s j
  | _ => True

omit [LinearOrder K] in
theorem RequestAt.keeps {p : HealthPc K} (h : RequestAt ids s p)
    (hk : Keeps s s') : RequestAt ids s' p := by
  have hobjects : ∀ j, Objects ids s j → Objects ids s' j := by
    intro j hj id st v r hmem
    obtain ⟨a, ha, hfields⟩ := hj id st v r hmem
    exact ⟨a, ha.keeps hk, hfields⟩
  cases p with
  | entries todo j =>
      exact ⟨fun e he => (h.1 e he).keeps hk, hobjects j h.2⟩
  | done j => exact hobjects j h
  | _ => trivial

/-- The copies of the first section. -/
theorem shows_latest (hi : ClusterInv movedFrom blank ids names s)
    {e : String × NodeStatus K} (he : e ∈ latestStatuses s.coord.workers) :
    Shows ids s e.1 e.2 := by
  obtain ⟨w, hw, rfl⟩ := Coordinator.mem_latestStatuses he
  obtain ⟨j, hj⟩ := List.mem_iff_getElem?.mp hw
  refine ⟨j, ?_, ?_⟩
  · rw [← hi.ids, List.getElem?_map, hj]
    rfl
  · show w.lastStatus = _ ∨ _
    rw [hi.entries j w hj]
    cases hlast : (s.links j).shown.getLast? with
    | none =>
        left
        rw [List.getLast?_eq_none_iff.mp hlast]
    | some st =>
        right
        rw [lastShown, hlast]
        exact List.mem_of_getLast? hlast

omit [LinearOrder K] in
/-- One more key in the report. -/
theorem Objects.assign {j : Report K} {id : String} {x : HealthValue K}
    (h : Objects ids s j)
    (hx : ∀ st v r, x = .worker st v r →
      ∃ a, Shows ids s id a ∧ a.fsmState = st ∧ a.lastValue = v) :
    Objects ids s (Lib.assign id x j) := by
  intro id' st v r hmem
  rcases mem_assign hmem with heq | hold
  · obtain ⟨rfl, hval⟩ := Prod.mk.inj heq
    exact hx st v r hval.symm
  · exact h id' st v r hold

/-- The handler's next critical section. -/
theorem requestAt_health {coord : Coordinator K}
    (hi : ClusterInv movedFrom blank ids names s)
    (hreq : RequestAt ids s s.coord.request)
    (h : s.coord.healthStep = some coord) :
    RequestAt ids { s with coord } coord.request := by
  unfold Coordinator.healthStep at h
  split at h
  next =>
    rw [← Option.some.inj h]
    refine ⟨fun e he => shows_latest hi he, ?_⟩
    intro id st v r hmem
    cases hmem
  next e todo j hp =>
    rw [hp] at hreq
    obtain ⟨htodo, hobjects⟩ := hreq
    obtain ⟨hhead, htail⟩ := List.forall_mem_cons.mp htodo
    rw [← Option.some.inj h]
    refine ⟨htail, hobjects.assign ?_⟩
    intro st v r hx
    obtain ⟨hst, hv, -⟩ := HealthValue.worker.inj hx
    exact ⟨e.2, hhead, hst, hv⟩
  next j hp =>
    rw [hp] at hreq
    rw [← Option.some.inj h]
    refine hreq.2.assign ?_
    intro st v r hx
    cases hx
  next => cases h

-- ============================================================ whole runs

/-- The cluster's invariant and the request's. -/
structure ReportInv (movedFrom : TelemetryFrame K → TelemetryFrame K)
    (blank : TelemetryFrame K) (ids : List String) (names : Nat → String)
    (s : Cluster K) : Prop where
  cluster : ClusterInv movedFrom blank ids names s
  request : RequestAt ids s s.coord.request

omit [Field K] [LinearOrder K] in
/-- A poller's update leaves the request where it is. -/
theorem poll_request {idx : Nat} {resp : Option (NodeStatus K)}
    {c c' : Coordinator K} (h : c.step (.poll idx resp) = some c') :
    c'.request = c.request := by
  simp only [Coordinator.step] at h
  split at h
  next => rw [← Option.some.inj h]
  next => cases h

theorem reportInv_step {a : ClusterAct K}
    (hi : ReportInv movedFrom blank ids names s)
    (h : step movedFrom a s = some s') :
    ReportInv movedFrom blank ids names s' := by
  have hcluster := clusterInv_step hi.cluster h
  have hkeep := hi.request.keeps (keeps_step h)
  cases a with
  | main =>
      refine ⟨hcluster, ?_⟩
      rw [(mainStep_oversees h).coord]
      exact hkeep
  | signal =>
      rw [← Option.some.inj h] at hcluster hkeep ⊢
      exact ⟨hcluster, hkeep⟩
  | get =>
      refine ⟨hcluster, ?_⟩
      simp only [step] at h
      split at h
      next =>
        obtain ⟨coord, hcoord, rfl⟩ := Option.map_eq_some_iff.mp h
        simp only [Coordinator.step] at hcoord
        split at hcoord
        next =>
          rw [← Option.some.inj hcoord]
          trivial
        next =>
          rw [← Option.some.inj hcoord]
          trivial
        next => cases hcoord
      next => cases h
  | health =>
      obtain ⟨coord, hcoord, rfl⟩ := Option.map_eq_some_iff.mp h
      exact ⟨hcluster, requestAt_health hi.cluster hi.request hcoord⟩
  | link idx a =>
      refine ⟨hcluster, ?_⟩
      obtain ⟨link, -, hm⟩ := linkStep_move h
      cases hm with
      | update resp coord hcoord =>
          have hreq : coord.request = s.coord.request := poll_request hcoord
          show RequestAt ids _ coord.request
          rw [hreq]
          exact hkeep
      | quiet => exact hkeep

theorem reportInv_reachable
    (hr : Reachable (step movedFrom) (init ids names blank) s) :
    ReportInv movedFrom blank ids names s :=
  hr.invariant ⟨clusterInv_init, trivial⟩ reportInv_step

/-- An answer shown is the mean after some of the frames. -/
theorem frames_of_shows (hi : ClusterInv movedFrom blank ids names s)
    {id : String} {st : NodeStatus K} (h : Shows ids s id st) :
    ∃ j n, ids[j]? = some id ∧ n ≤ (s.links j).node.processed.length
      ∧ st.lastValue
        = mean 10 (samples ((s.links j).node.processed.take n))
      ∧ (st.fsmState = "FAULT"
        → Faulted ((s.links j).node.processed.take n)) := by
  obtain ⟨j, hid, rfl | hmem⟩ := h
  · refine ⟨j, 0, hid, Nat.zero_le _, ?_, ?_⟩
    · rw [List.take_zero, mean_nil]
      rfl
    · intro hst
      change "" = "FAULT" at hst
      exact absurd hst (by decide)
  · obtain ⟨marks, hfits, -, -⟩ := (hi.links j).got.polled
    obtain ⟨i, hi, rfl⟩ := List.getElem_of_mem hmem
    have htells := (List.forall₂_iff_get.mp hfits).2 i hi
      (hfits.length_eq ▸ hi)
    exact ⟨j, _, hid, htells.2.known, htells.2.value, htells.2.fault⟩

/-- End to end, in every reachable state of the coordinator and its
workers: a worker's object in a `/health` answer shows the mean of the
last ten samples after some number of the frames that worker processed,
and shows FAULT only if a frame among them ended a run of three out of
band. -/
theorem health_from_frames
    (hr : Reachable (step movedFrom) (init ids names blank) s)
    {report : Report K} (hdone : s.coord.request = .done report)
    {id st : String} {v : K} {r : Bool}
    (hmem : (id, HealthValue.worker st v r) ∈ report) :
    ∃ j n, ids[j]? = some id ∧ n ≤ (s.links j).node.processed.length
      ∧ v = mean 10 (samples ((s.links j).node.processed.take n))
      ∧ (st = "FAULT" → Faulted ((s.links j).node.processed.take n)) := by
  have hi := reportInv_reachable hr
  have hreq := hi.request
  rw [hdone] at hreq
  obtain ⟨a, ha, rfl, rfl⟩ := hreq id st v r hmem
  exact frames_of_shows hi.cluster ha

/-- After the run of `lateAnswer`, a request. -/
def lateReport : List (ClusterAct ℚ) :=
  lateAnswer
    ++ [.main, .main, .get, .health, .health, .health, .health]

/-- The first worker's object shows the mean of the frames 90 and 50. -/
theorem health_from_frames_late :
    ∃ s, exec (step id) lateReport
        (init ["worker1", "worker2"] workerName ⟨"", 0, 0⟩) = some s
      ∧ ∃ report, s.coord.request = .done report
        ∧ ("worker1", HealthValue.worker "RUNNING" 70 true) ∈ report
        ∧ ∃ j n, ["worker1", "worker2"][j]? = some "worker1"
          ∧ n ≤ (s.links j).node.processed.length
          ∧ (70 : ℚ) = mean 10
            (samples ((s.links j).node.processed.take n)) := by
  have hrun : (exec (step id) lateReport
      (init ["worker1", "worker2"] workerName ⟨"", 0, 0⟩)).map
      (fun s => s.coord.request) = some (.done
        [("all_running", .flag false),
          ("worker1", .worker "RUNNING" 70 true),
          ("worker2", .worker "" 0 false)]) := by
    decide +kernel
  obtain ⟨s, hs, hreq⟩ := Option.map_eq_some_iff.mp hrun
  have hmem : ("worker1", HealthValue.worker "RUNNING" (70 : ℚ) true)
      ∈ [("all_running", .flag false), ("worker1", .worker "RUNNING" 70 true),
        ("worker2", .worker "" 0 false)] := by
    decide +kernel
  obtain ⟨j, n, hj, hn, hv, -⟩ :=
    health_from_frames (reachable_of_exec hs) hreq hmem
  exact ⟨s, hs, _, hreq, hmem, j, n, hj, hn, hv⟩

end EdgeIpc.Sdn.Cluster
