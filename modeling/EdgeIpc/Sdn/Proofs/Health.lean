/-
When a `/health` report is consistent. `health` is the report computed in
one state; the handler's is put together from as many critical sections
as there are workers, and two more.

What the later sections read of a worker is little: its id, its
`fsm_state` and its reachability (`readLater`); `last_value` is read in
the first section only. As long as no update in the middle of a request
changes those, each section reads what the first instant of the request
held, and the report is that instant's (`HealthInv`). An update that does
change one can fall between `IsReachable` and `AllNodesRunning`, and the
report is no state's.

The report says `all_running` of what it shows only if it shows all it
counts: with no worker there is nothing to show and the flag is false,
and a worker called "all_running" loses its object to the flag.
-/
import EdgeIpc.Lib.Run
import EdgeIpc.Sdn.Coordinator
import Mathlib.Algebra.Field.Rat
import Mathlib.Data.List.Nodup

namespace EdgeIpc.Sdn.Coordinator

open Lib

variable {K : Type} {s s' : Coordinator K} {ws ws' : List (WorkerConn K)}

-- ============================================================= the report

/-- The report computed in one state. -/
def health (ws : List (WorkerConn K)) : Report K :=
  assign "all_running" (.flag (allNodesRunning ws))
    (assignAll Prod.fst (healthEntry ws) (latestStatuses ws) [])

/-- The flag says whether every worker shown is reachable and RUNNING. -/
def FlagTruthful (j : Report K) : Prop :=
  j.lookup "all_running" = some (.flag true)
    ↔ ∀ id st v r, j.lookup id = some (.worker st v r) →
      r = true ∧ st = "RUNNING"

/-- There is a worker, and the flag's key is no worker's. -/
def Proper (ids : List String) : Prop := ids ≠ [] ∧ "all_running" ∉ ids

theorem lookup_flag (ws : List (WorkerConn K)) :
    (health ws).lookup "all_running" = some (.flag (allNodesRunning ws)) := by
  unfold health
  rw [lookup_assign, if_pos rfl]

/-- With distinct ids the first worker of an id is the one. -/
theorem isReachable_of_mem {w : WorkerConn K}
    (hd : (ws.map WorkerConn.nodeId).Nodup) (hw : w ∈ ws) :
    isReachable ws w.nodeId = w.reachable := by
  unfold isReachable
  split
  next w' hfind =>
    have hid := List.find?_some hfind
    rw [decide_eq_true_iff] at hid
    rw [List.inj_on_of_nodup_map hd (List.mem_of_find?_eq_some hfind) hw hid]
  next hfind =>
    have hnone := List.find?_eq_none.mp hfind w hw
    exact absurd (decide_eq_true rfl) hnone

theorem mem_latestStatuses {e : String × NodeStatus K}
    (h : e ∈ latestStatuses ws) :
    ∃ w ∈ ws, e = (w.nodeId, w.lastStatus) := by
  rcases mem_assignAll h with hw | hnil
  · exact hw
  · cases hnil

/-- Each worker's status is among the latest. -/
theorem status_mem {w : WorkerConn K}
    (hd : (ws.map WorkerConn.nodeId).Nodup) (hw : w ∈ ws) :
    (w.nodeId, w.lastStatus) ∈ latestStatuses ws := by
  rcases lookup_assignAll WorkerConn.nodeId WorkerConn.lastStatus ws []
    w.nodeId with ⟨w', hw', hid, hl⟩ | ⟨hno, -⟩
  · rw [List.inj_on_of_nodup_map hd hw' hw hid] at hl
    exact mem_of_lookup hl
  · exact absurd rfl (hno w hw)

/-- The objects of the report are the workers', one each. -/
theorem lookup_objects (hd : (ws.map WorkerConn.nodeId).Nodup)
    (id : String) :
    (∃ w ∈ ws, w.nodeId = id
      ∧ (assignAll Prod.fst (healthEntry ws) (latestStatuses ws) []).lookup id
        = some (.worker w.lastStatus.fsmState w.lastStatus.lastValue
          w.reachable))
    ∨ ((∀ w ∈ ws, w.nodeId ≠ id)
      ∧ (assignAll Prod.fst (healthEntry ws) (latestStatuses ws) []).lookup id
        = none) := by
  rcases lookup_assignAll Prod.fst (healthEntry ws) (latestStatuses ws) [] id
    with ⟨e, he, hid, hl⟩ | ⟨hno, hl⟩
  · obtain ⟨w, hw, rfl⟩ := mem_latestStatuses he
    refine .inl ⟨w, hw, hid, hl.trans ?_⟩
    unfold healthEntry
    rw [isReachable_of_mem hd hw]
  · exact .inr ⟨fun w hw => hno _ (status_mem hd hw), hl⟩

/-- The flag of a report computed in one state is truthful. -/
theorem flagTruthful_health (hd : (ws.map WorkerConn.nodeId).Nodup)
    (hp : Proper (ws.map WorkerConn.nodeId)) : FlagTruthful (health ws) := by
  have hflag : allNodesRunning ws = true
      ↔ ∀ w ∈ ws, w.reachable = true ∧ w.lastStatus.fsmState = "RUNNING" := by
    have hne : ws ≠ [] := fun h => hp.1 (by rw [h]; rfl)
    simp [allNodesRunning, hne]
  have hlook : ∀ id, id ≠ "all_running" → (health ws).lookup id
      = (assignAll Prod.fst (healthEntry ws)
        (latestStatuses ws) []).lookup id := by
    intro id hid
    unfold health
    rw [lookup_assign, if_neg hid]
  unfold FlagTruthful
  rw [lookup_flag, Option.some.injEq, HealthValue.flag.injEq, hflag]
  constructor
  · intro hall id st v r hid
    have hname : id ≠ "all_running" := by
      rintro rfl
      rw [lookup_flag] at hid
      cases hid
    rw [hlook id hname] at hid
    rcases lookup_objects hd id with ⟨w, hw, -, hl⟩ | ⟨-, hl⟩
    · rw [hl] at hid
      cases hid
      exact hall w hw
    · rw [hl] at hid
      cases hid
  · intro hall w hw
    have hmem : w.nodeId ∈ ws.map WorkerConn.nodeId := List.mem_map_of_mem hw
    have hname : w.nodeId ≠ "all_running" := fun h => hp.2 (h ▸ hmem)
    rcases lookup_objects hd w.nodeId with ⟨w', hw', hid, hl⟩ | ⟨hno, -⟩
    · rw [List.inj_on_of_nodup_map hd hw' hw hid] at hl
      exact hall w.nodeId _ _ _ ((hlook _ hname).trans hl)
    · exact absurd rfl (hno w hw)

-- ======================================================= what is read later

/-- What `IsReachable` and `AllNodesRunning` read of a worker. -/
def readLater (w : WorkerConn K) : String × String × Bool :=
  (w.nodeId, w.lastStatus.fsmState, w.reachable)

theorem isReachable_congr (h : ws.map readLater = ws'.map readLater)
    (id : String) : isReachable ws id = isReachable ws' id := by
  induction ws generalizing ws' with
  | nil =>
      rw [List.map_eq_nil_iff.mp h.symm]
  | cons w ws ih =>
      cases ws' with
      | nil => cases h
      | cons w' ws' =>
          obtain ⟨hw, hws⟩ := List.cons_eq_cons.mp h
          obtain ⟨hid, -, hr⟩ : w.nodeId = w'.nodeId ∧ _
            ∧ w.reachable = w'.reachable := by
            simpa [readLater] using hw
          have hrest := ih hws
          unfold isReachable at hrest ⊢
          rw [List.find?_cons, List.find?_cons, hid]
          cases decide (w'.nodeId = id) with
          | true => exact hr
          | false => exact hrest

theorem allNodesRunning_congr (h : ws.map readLater = ws'.map readLater) :
    allNodesRunning ws = allNodesRunning ws' := by
  have hall : ∀ us : List (WorkerConn K), allNodesRunning us
      = ((us.map readLater).all (fun e => e.2.2 && e.2.1 = "RUNNING")
        && !(us.map readLater).isEmpty) := by
    intro us
    unfold allNodesRunning
    rw [List.all_map, List.isEmpty_map]
    rfl
  rw [hall ws, hall ws', h]

theorem nodeIds_of_readLater (h : ws.map readLater = ws'.map readLater) :
    ws.map WorkerConn.nodeId = ws'.map WorkerConn.nodeId := by
  have hids := congrArg (List.map Prod.fst) h
  simpa [readLater, Function.comp_def] using hids

-- ============================================================ the requests

/-- The answered report is that of one instant of its request, and its
flag is truthful. -/
def Consistent (s : Coordinator K) : Prop :=
  ∀ j, s.request = .done j →
    (∃ ws ∈ s.instants, j = health ws) ∧ FlagTruthful j

/-- The condition: no update during a request changes the `fsm_state` or
the reachability of its worker, and no request is made while there is no
worker or one with the flag's key for its id. -/
def Undisturbed (s : Coordinator K) (a : CoordAct K) (_ : Coordinator K) :
    Prop :=
  match a with
  | .poll idx resp => InProgress s.request →
      (s.workers.modify idx fun w => w.update resp).map readLater
        = s.workers.map readLater
  | .get => Proper (s.workers.map WorkerConn.nodeId)
  | .health => True

instance (s : Coordinator K) (a : CoordAct K) (s' : Coordinator K) :
    Decidable (Undisturbed s a s') :=
  match a with
  | .poll _ _ => inferInstanceAs (Decidable (_ → _))
  | .get => inferInstanceAs (Decidable (_ ∧ _))
  | .health => .isTrue trivial

/-- How far a request has come: what it has put together is what the
report of one instant puts together, and to the sections still to come
the workers look as they did then. -/
def Progress (s : Coordinator K) : HealthPc K → Prop
  | .idle => True
  | .statuses => Proper (s.workers.map WorkerConn.nodeId)
  | .entries todo j => ∃ ws ∈ s.instants,
      Proper (ws.map WorkerConn.nodeId)
      ∧ ws.map readLater = s.workers.map readLater
      ∧ ∃ got, latestStatuses ws = got ++ todo
        ∧ j = assignAll Prod.fst (healthEntry ws) got []
  | .done j => ∃ ws ∈ s.instants, (ws.map WorkerConn.nodeId).Nodup
      ∧ Proper (ws.map WorkerConn.nodeId) ∧ j = health ws

structure HealthInv (s : Coordinator K) : Prop where
  distinct : (s.workers.map WorkerConn.nodeId).Nodup
  progress : Progress s s.request

theorem update_nodeId (w : WorkerConn K) (resp : Option (NodeStatus K)) :
    (w.update resp).nodeId = w.nodeId := by
  cases resp <;> rfl

theorem nodeIds_modify (idx : Nat) (resp : Option (NodeStatus K)) :
    (ws.modify idx fun w => w.update resp).map WorkerConn.nodeId
      = ws.map WorkerConn.nodeId := by
  induction ws generalizing idx with
  | nil => rw [List.modify_nil]
  | cons w ws ih =>
      cases idx with
      | zero =>
          rw [List.modify_zero_cons, List.map_cons, List.map_cons,
            update_nodeId]
      | succ idx =>
          rw [List.modify_succ_cons, List.map_cons, List.map_cons, ih]

/-- A poller's update. -/
theorem healthInv_poll {idx : Nat} {resp : Option (NodeStatus K)}
    (hi : HealthInv s) (h : step (.poll idx resp) s = some s')
    (hok : Undisturbed s (.poll idx resp) s') : HealthInv s' := by
  obtain ⟨hdistinct, hprog⟩ := hi
  simp only [step] at h
  split at h
  next =>
    injection h with h
    subst h
    refine ⟨?_, ?_⟩
    · rw [nodeIds_modify]
      exact hdistinct
    · dsimp only
      cases hreq : s.request with
      | idle => trivial
      | statuses =>
          rw [hreq] at hprog
          show Proper ((s.workers.modify idx _).map WorkerConn.nodeId)
          rw [nodeIds_modify]
          exact hprog
      | entries todo j =>
          rw [hreq] at hprog
          obtain ⟨ws, hws, hproper, hlater, hgot⟩ := hprog
          have hin : InProgress s.request := by
            rw [hreq]
            trivial
          refine ⟨ws, ?_, hproper, hlater.trans (hok hin).symm, hgot⟩
          dsimp only
          rw [if_pos (hreq ▸ hin)]
          exact List.mem_append_left _ hws
      | done j =>
          rw [hreq] at hprog
          obtain ⟨ws, hws, hrest⟩ := hprog
          have hout : ¬ InProgress (HealthPc.done j) := id
          refine ⟨ws, ?_, hrest⟩
          dsimp only
          rw [if_neg hout]
          exact hws
  next => cases h

/-- The handler's critical sections. -/
theorem healthInv_health (hi : HealthInv s)
    (h : s.healthStep = some s') : HealthInv s' := by
  obtain ⟨hdistinct, hprog⟩ := hi
  unfold healthStep at h
  split at h
  next hreq =>
    rw [hreq] at hprog
    injection h with h
    subst h
    exact ⟨hdistinct, s.workers, List.mem_singleton_self _, hprog, rfl, [],
      rfl, rfl⟩
  next e todo j hreq =>
    rw [hreq] at hprog
    obtain ⟨ws, hws, hproper, hlater, got, hgot, rfl⟩ := hprog
    injection h with h
    subst h
    refine ⟨hdistinct, ws, hws, hproper, hlater, got ++ [e], ?_, ?_⟩
    · rw [hgot, List.append_assoc]
      rfl
    · rw [assignAll_append]
      unfold healthEntry
      rw [← isReachable_congr hlater]
      rfl
  next j hreq =>
    rw [hreq] at hprog
    obtain ⟨ws, hws, hproper, hlater, got, hgot, rfl⟩ := hprog
    injection h with h
    subst h
    refine ⟨hdistinct, ws, hws, ?_, hproper, ?_⟩
    · rw [nodeIds_of_readLater hlater]
      exact hdistinct
    · rw [List.append_nil] at hgot
      unfold health
      rw [hgot, allNodesRunning_congr hlater]
  next => cases h

theorem healthInv_step {a : CoordAct K} (hi : HealthInv s)
    (h : step a s = some s') (hok : Undisturbed s a s') : HealthInv s' := by
  cases a with
  | poll idx resp => exact healthInv_poll hi h hok
  | get =>
      simp only [step] at h
      split at h
      next =>
        injection h with h
        subst h
        exact ⟨hi.distinct, hok⟩
      next =>
        injection h with h
        subst h
        exact ⟨hi.distinct, hok⟩
      next => cases h
  | health => exact healthInv_health hi h

theorem HealthInv.consistent (hi : HealthInv s) : Consistent s := by
  intro j hj
  have hprog := hi.progress
  rw [hj] at hprog
  obtain ⟨ws, hws, hdistinct, hproper, rfl⟩ := hprog
  exact ⟨⟨ws, hws, rfl⟩, flagTruthful_health hdistinct hproper⟩

-- ============================================================== the claim

/-- Along every run, for every list of workers with distinct ids and any
interleaving of the pollers' updates with requests: if no update during a
request changes a worker's `fsm_state` or reachability, and requests are
made while there are workers, none of them called "all_running", then at
every point of the run the report answered is that of one instant of its
request, and its flag is true iff every worker it shows is reachable and
RUNNING. -/
theorem report_consistent [Zero K] {ids : List String} (hids : ids.Nodup)
    (as : List (CoordAct K))
    (h : AllSteps step Undisturbed as (init ids)) :
    AllStates step Consistent as (init ids : Coordinator K) := by
  refine allStates_of_allSteps healthInv_step HealthInv.consistent ?_ h
  refine ⟨?_, trivial⟩
  have hmap : ((init ids : Coordinator K).workers.map WorkerConn.nodeId)
      = ids := by
    simp [init, Function.comp_def]
  rw [hmap]
  exact hids

/-- A worker answers RUNNING, and a request comes. -/
def quietRequest : List (CoordAct ℚ) :=
  [.poll 0 (some ⟨"worker1", "RUNNING", 1, 50⟩), .get, .health, .health,
    .poll 0 (some ⟨"worker1", "RUNNING", 2, 55⟩), .health]

/-- An update with another count and value disturbs nothing. -/
theorem report_consistent_quiet :
    AllStates step Consistent quietRequest (init ["worker1"])
      ∧ (exec step quietRequest (init ["worker1"])).map request
        = some (.done [("all_running", .flag true),
            ("worker1", .worker "RUNNING" 50 true)]) :=
  ⟨report_consistent (by decide) quietRequest (by decide +kernel),
    by decide +kernel⟩

/-- The same with the worker lost just before `AllNodesRunning`. -/
def tornRequest : List (CoordAct ℚ) :=
  [.poll 0 (some ⟨"worker1", "RUNNING", 1, 50⟩), .get, .health, .health,
    .poll 0 none, .health]

/-- The report shows its one worker reachable and RUNNING, and says that
not all are: it is the report of no instant of the request. -/
theorem torn_report :
    ∃ s, exec step tornRequest (init ["worker1"]) = some s
      ∧ s.request = .done [("all_running", .flag false),
          ("worker1", .worker "RUNNING" 50 true)]
      ∧ ¬ Consistent s := by
  have hrun : (exec step tornRequest (init ["worker1"])).map
      (fun s => (s.request, s.instants.map health))
      = some (.done [("all_running", .flag false),
          ("worker1", .worker "RUNNING" 50 true)],
        [[("all_running", .flag true),
          ("worker1", .worker "RUNNING" 50 true)],
         [("all_running", .flag false),
          ("worker1", .worker "RUNNING" 50 false)]]) := by
    decide +kernel
  obtain ⟨s, hs, hobs⟩ := Option.map_eq_some_iff.mp hrun
  obtain ⟨hreq, hinst⟩ := Prod.mk.inj hobs
  refine ⟨s, hs, hreq, fun hc => ?_⟩
  obtain ⟨⟨ws, hws, heq⟩, -⟩ := hc _ hreq
  have hmem : health ws ∈ s.instants.map health := List.mem_map_of_mem hws
  rw [hinst, ← heq] at hmem
  revert hmem
  decide +kernel

end EdgeIpc.Sdn.Coordinator
