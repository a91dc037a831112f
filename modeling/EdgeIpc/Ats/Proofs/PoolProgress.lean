/-
How far the pool gets: what brings its users to a standstill, and that
nothing else does.

# Lost permits

A reconnect that fails takes its permit with it. Counted along a run, the
permits there, the permits out and the reconnects that failed make
`poolSize` (`permits_account`), so the `poolSize`-th failure is the last
event of the pool's life: from then on no thread gets past the semaphore,
whatever happens. Before it every thread can still be served.

# Standstill

A thread inside a call has at most six steps before it, and each step it
takes is one of them (`ThreadMove.fewer`). So without new calls the
threads come to rest, after no more than six steps each, and a thread at
rest inside a call waits for a permit that nobody holds: they have all
been lost.
-/
import EdgeIpc.Ats.Proofs.Store
import Mathlib.Algebra.Order.BigOperators.Group.Finset

namespace EdgeIpc.Ats.DbPool

open Lib

variable {n : Nat} {s s' : DbPool n} {t : Fin n} {answer : Answer}

-- ======================================================== a thread's moves

/-- The moves of a thread inside a call, with the rows they commit. -/
inductive ThreadMove : InsertPc → List Insert → InsertPc → Prop
  | permit (q : Insert) : ThreadMove (.semAcquire q) [] (.locked q)
  | lend (q : Insert) (l : Loan) : ThreadMove (.locked q) [] (.beginWork q l)
  | leak (q : Insert) : ThreadMove (.locked q) [] (.returned .thrown)
  | begun (q : Insert) (l : Loan) :
      ThreadMove (.beginWork q l) [] (.execInsert q l)
  | beginFailed (q : Insert) (l : Loan) :
      ThreadMove (.beginWork q l) [] (.release l .thrown)
  | taken (q : Insert) (l : Loan) :
      ThreadMove (.execInsert q l) [] (.commit q l)
  | execFailed (q : Insert) (l : Loan) :
      ThreadMove (.execInsert q l) [] (.release l .thrown)
  | committed (q : Insert) (l : Loan) :
      ThreadMove (.commit q l) [q] (.release l .ok)
  | inDoubt (q : Insert) (l : Loan) :
      ThreadMove (.commit q l) [q] (.release l .thrown)
  | refused (q : Insert) (l : Loan) :
      ThreadMove (.commit q l) [] (.release l .thrown)
  | released (l : Loan) (r : CallResult) :
      ThreadMove (.release l r) [] (.returned r)

/-- One of these moves, and nothing else of what the threads see of one
another but the semaphore. -/
structure MoveStep (t : Fin n) (s s' : DbPool n) : Prop where
  move : ∃ new, s'.rows = s.rows ++ new ∧ ThreadMove (s.pc t) new (s'.pc t)
  others : ∀ u, u ≠ t → s'.pc u = s.pc u

theorem moveStep_goto {p : DbPool n} {pc : InsertPc} {new : List Insert}
    (hrows : p.rows = s.rows ++ new) (hpc : p.pc = s.pc)
    (hm : ThreadMove (s.pc t) new pc) : MoveStep t s (p.goto t pc) := by
  refine ⟨⟨new, hrows, ?_⟩, fun u hu => ?_⟩
  · show ThreadMove (s.pc t) new (Lib.move p.pc t pc t)
    rw [move_self]
    exact hm
  · show Lib.move p.pc t pc u = s.pc u
    rw [move_ne _ _ hu, hpc]

theorem moveStep_statement {p : DbPool n} {l : Loan} {next : InsertPc}
    {new : List Insert} (hrows : p.rows = s.rows ++ new) (hpc : p.pc = s.pc)
    (hok : answer = .ok → ThreadMove (s.pc t) new next)
    (hfail : answer ≠ .ok → ThreadMove (s.pc t) new (.release l .thrown)) :
    MoveStep t s (p.statement t l next answer) := by
  refine moveStep_goto hrows hpc ?_
  split
  next h => exact hok h
  next h => exact hfail h

theorem moveStep_acquireBody {q : Insert} (hpc : s.pc t = .locked q) :
    MoveStep t s (s.acquireBody t q answer) := by
  by_cases hopen : s.isOpen s.next = true ∨ answer = .ok
  · obtain ⟨o, ho⟩ := ensureOpen_some (i := s.next)
      (s := { s with next := (s.next + 1) % poolSize, lent := s.lent + 1 })
      hopen
    unfold acquireBody
    simp only [ho]
    exact moveStep_goto (List.append_nil _).symm rfl (hpc ▸ .lend q _)
  · obtain ⟨hclosed, hrefused⟩ := not_or.mp hopen
    have ho := ensureOpen_none (i := s.next)
      (s := { s with next := (s.next + 1) % poolSize, lent := s.lent + 1 })
      (Bool.not_eq_true _ ▸ hclosed) hrefused
    unfold acquireBody
    simp only [ho]
    exact moveStep_goto (List.append_nil _).symm rfl (hpc ▸ .leak q)

theorem moveStep_commitWork {q : Insert} {l : Loan}
    (hpc : s.pc t = .commit q l) :
    MoveStep t s (s.commitWork t q l answer) := by
  unfold commitWork
  cases answer with
  | ok =>
      have hm : ThreadMove (s.pc t) [q] (.release l .ok) :=
        hpc ▸ .committed q l
      exact moveStep_statement rfl rfl (fun _ => hm) (fun h => absurd rfl h)
  | thrown =>
      exact moveStep_statement (List.append_nil _).symm rfl nofun
        (fun _ => hpc ▸ .refused q l)
  | inDoubt =>
      have hm : ThreadMove (s.pc t) [q] (.release l .thrown) :=
        hpc ▸ .inDoubt q l
      exact moveStep_statement rfl rfl nofun (fun _ => hm)

theorem moveStep_of_threadStep (hs : s.threadStep t answer = some s') :
    MoveStep t s s' := by
  unfold threadStep at hs
  split at hs
  next => cases hs
  next => cases hs
  next q hpc =>
      split at hs
      next => cases hs
      next =>
          injection hs with hs
          rw [← hs]
          exact moveStep_goto (List.append_nil _).symm rfl (hpc ▸ .permit q)
  next q hpc =>
      injection hs with hs
      exact hs ▸ moveStep_acquireBody hpc
  next q l hpc =>
      injection hs with hs
      exact hs ▸ moveStep_statement (List.append_nil _).symm rfl
        (fun _ => hpc ▸ .begun q l) (fun _ => hpc ▸ .beginFailed q l)
  next q l hpc =>
      injection hs with hs
      exact hs ▸ moveStep_statement (List.append_nil _).symm rfl
        (fun _ => hpc ▸ .taken q l) (fun _ => hpc ▸ .execFailed q l)
  next q l hpc =>
      injection hs with hs
      exact hs ▸ moveStep_commitWork hpc
  next l r hpc =>
      injection hs with hs
      rw [← hs]
      exact moveStep_goto (List.append_nil _).symm rfl (hpc ▸ .released l r)

theorem ThreadMove.fewer {pc pc' : InsertPc} {new : List Insert}
    (h : ThreadMove pc new pc') : movesLeft pc' < movesLeft pc := by
  cases h <;> simp only [movesLeft] <;> omega

-- ============================================================ lost permits

/-- The action is a reconnect that fails. -/
def failsReconnect (s : DbPool n) : PoolAct n → Bool
  | .step t answer =>
      match s.pc t with
      | .locked _ => !s.isOpen s.next && decide (answer ≠ .ok)
      | _ => false
  | _ => false

/-- A token for each reconnect that fails, -/
def lostPermit (s : DbPool n) (a : PoolAct n) : List Unit :=
  if failsReconnect s a then [()] else []

/-- and their number along a run. -/
def failedReconnects (as : List (PoolAct n)) (s : DbPool n) : Nat :=
  (collect step lostPermit as s).length

theorem permits_acquireBody {q : Insert} (hpc : s.pc t = .locked q) :
    (s.acquireBody t q answer).sem + (s.acquireBody t q answer).inFlight
        + (if failsReconnect s (.step t answer) then 1 else 0)
      = s.sem + s.inFlight := by
  by_cases hopen : s.isOpen s.next = true ∨ answer = .ok
  · have hnot : failsReconnect s (.step t answer) = false := by
      simp only [failsReconnect, hpc]
      rcases hopen with hopen | rfl
      · simp [hopen]
      · simp
    rw [hnot, (acquireBody_lends hpc hopen).permits]
    rfl
  · obtain ⟨hclosed, hrefused⟩ := not_or.mp hopen
    have hclosed : s.isOpen s.next = false := Bool.not_eq_true _ ▸ hclosed
    have hfails : failsReconnect s (.step t answer) = true := by
      simp [failsReconnect, hpc, hclosed, hrefused]
    rw [hfails]
    exact (acquireBody_leaks hpc hclosed hrefused).permits

/-- A failed reconnect loses a permit, and nothing else does. -/
theorem permits_step {a : PoolAct n} (h : step a s = some s') :
    s'.sem + s'.inFlight + (if failsReconnect s a then 1 else 0)
      = s.sem + s.inFlight := by
  by_cases hbody : ∃ t answer q, a = .step t answer ∧ s.pc t = .locked q
  · obtain ⟨t, answer, q, rfl, hpc⟩ := hbody
    rw [eq_acquireBody h hpc]
    exact permits_acquireBody hpc
  · have hnot : failsReconnect s a = false := by
      unfold failsReconnect
      split
      next t answer =>
        split
        next q hpc => exact absurd ⟨t, answer, q, rfl, hpc⟩ hbody
        next => rfl
      next => rfl
    rcases step_cases h with hk | ⟨t, answer, q, ha, hpc, -⟩
    · rw [hnot, hk.permits]
      rfl
    · exact absurd ⟨t, answer, q, ha, hpc⟩ hbody

/-- The account of a run. -/
theorem permits_account {as : List (PoolAct n)}
    (h : exec step as init = some s) :
    s.sem + s.inFlight + failedReconnects as init = poolSize := by
  let Inv (l : List Unit) (s : DbPool n) : Prop :=
    s.sem + s.inFlight + l.length = poolSize
  have hkeep : ∀ {l : List Unit} {s s' : DbPool n} {a : PoolAct n},
      Inv l s → step a s = some s' → Inv (l ++ lostPermit s a) s' := by
    intro l s s' a hi hs
    have hone := permits_step hs
    have hlost : (lostPermit s a).length
        = if failsReconnect s a then 1 else 0 := by
      unfold lostPermit
      split <;> rfl
    simp only [Inv, List.length_append, hlost] at hi ⊢
    omega
  have hinit : Inv [] (init : DbPool n) := sum_init
  exact exec_collect Inv hkeep hinit h

/-- Without permits it stays that way. -/
theorem none_served {bs : List (PoolAct n)} (hnone : s.sem + s.inFlight = 0)
    (h : exec step bs s = some s') (t : Fin n) :
    (s'.pc t).hasPermit = false := by
  have hzero : s'.sem + s'.inFlight = 0 := by
    have hkeep : ∀ {s s' : DbPool n} {a : PoolAct n},
        s.sem + s.inFlight = 0 → True → step a s = some s' →
        s'.sem + s'.inFlight = 0 := by
      intro s s' a hi _ hs
      have hone := permits_step hs
      omega
    exact exec_invariant hkeep (fun _ _ => trivial) hnone h
  by_contra ht
  have hpos : 0 < s'.inFlight := count_pos_iff.mpr ⟨t, by simpa using ht⟩
  omega

-- ============================================================ being served

theorem inCall_of_hasPermit {pc : InsertPc} (h : pc.hasPermit = true) :
    pc.inCall = true := by
  revert h
  cases pc <;> simp [InsertPc.hasPermit, InsertPc.inCall, InsertPc.loan?]

theorem failsReconnect_ok (s : DbPool n) (t : Fin n) :
    failsReconnect s (.step t .ok) = false := by
  simp only [failsReconnect]
  cases s.pc t <;> simp

/-- A thread with a permit can bring it back while the others stand
still. -/
theorem gives_back {u : Fin n} (hu : (s.pc u).hasPermit = true) :
    ∃ as s', exec step as s = some s' ∧ s'.sem ≠ 0
      ∧ ∀ t, t ≠ u → s'.pc t = s.pc t := by
  induction hm : movesLeft (s.pc u) using Nat.strongRecOn generalizing s with
  | ind k ih =>
      have hwaits : ∀ q, s.pc u = .semAcquire q → s.sem ≠ 0 := by
        intro q hq
        rw [hq] at hu
        cases hu
      obtain ⟨s₁, hs⟩ :=
        threadStep_enabled .ok (inCall_of_hasPermit hu) hwaits
      have hstep : step (.step u .ok) s = some s₁ := hs
      obtain ⟨⟨new, -, hmove⟩, hothers⟩ := moveStep_of_threadStep hs
      by_cases hu₁ : (s₁.pc u).hasPermit = true
      · obtain ⟨as, s', hrun, hsem, hrest⟩ := ih _ (hm ▸ hmove.fewer) hu₁ rfl
        refine ⟨.step u .ok :: as, s', (exec_cons_of hstep).trans hrun, hsem,
          fun t ht => ?_⟩
        rw [hrest t ht, hothers t ht]
      · -- one borrower less, and nothing lost: one permit more
        refine ⟨[.step u .ok], s₁, exec_cons_of hstep, ?_, hothers⟩
        have hsum := permits_step hstep
        have hcount : s₁.inFlight + _ = s.inFlight + _ :=
          count_exchange InsertPc.hasPermit hothers
        simp only [failsReconnect_ok, hu, hu₁, Bool.false_eq_true, if_true,
          if_false] at hsum hcount
        omega

/-- A free permit can be had. -/
theorem takes_permit (hsem : s.sem ≠ 0) (t : Fin n) :
    ∃ as s', exec step as s = some s' ∧ (s'.pc t).hasPermit = true := by
  have hacquire : ∀ (p : DbPool n) (q : Insert), p.sem ≠ 0 →
      p.pc t = .semAcquire q →
      ∃ s', step (.step t .ok) p = some s' ∧ (s'.pc t).hasPermit = true := by
    intro p q hp hpc
    refine ⟨({ p with sem := p.sem - 1 } : DbPool n).goto t (.locked q), ?_, ?_⟩
    · simp only [step, threadStep, hpc]
      exact if_neg hp
    · show (move p.pc t (.locked q) t).hasPermit = true
      rw [move_self]
      rfl
  by_cases hperm : (s.pc t).hasPermit = true
  · exact ⟨[], s, rfl, hperm⟩
  by_cases hin : (s.pc t).inCall = true
  · have hwaits : ∃ q, s.pc t = .semAcquire q := by
      revert hin hperm
      cases s.pc t <;> simp [InsertPc.hasPermit, InsertPc.inCall,
        InsertPc.loan?]
    obtain ⟨q, hq⟩ := hwaits
    obtain ⟨s', hs, hgot⟩ := hacquire s q hsem hq
    exact ⟨[.step t .ok], s', exec_cons_of hs, hgot⟩
  · have hidle : (s.pc t).inCall = false := Bool.not_eq_true _ ▸ hin
    let q := insertAuthLog "unknown" "AUTH_FAIL_SIG" ""
    obtain ⟨s', hs, hgot⟩ := hacquire (s.goto t (.semAcquire q)) q hsem
      (move_self _ _ _)
    refine ⟨[.call t q, .step t .ok], s', ?_, hgot⟩
    have hcall : step (.call t q) s = some (s.goto t (.semAcquire q)) := by
      simp only [step, hidle, Bool.false_eq_true, if_false]
    rw [exec_cons_of hcall, exec_cons_of hs]
    rfl

/-- As long as a permit is left somewhere, every thread can get one. -/
theorem can_be_served (hsome : s.sem + s.inFlight ≠ 0) (t : Fin n) :
    ∃ as s', exec step as s = some s' ∧ (s'.pc t).hasPermit = true := by
  by_cases hsem : s.sem = 0
  · obtain ⟨u, hu⟩ := count_pos_iff.mp (show 0 < s.inFlight by omega)
    obtain ⟨as, s₁, hrun, hsem₁, -⟩ := gives_back hu
    obtain ⟨bs, s', hrun', hgot⟩ := takes_permit hsem₁ t
    exact ⟨as ++ bs, s', exec_append hrun hrun', hgot⟩
  · exact takes_permit hsem t

-- ============================================================== standstill

/-- Steps the threads can take without new calls. -/
def stepsLeft (s : DbPool n) : Nat := ∑ t, movesLeft (s.pc t)

theorem stepsLeft_le (s : DbPool n) : stepsLeft s ≤ 6 * n := by
  have hle : ∀ t ∈ Finset.univ, movesLeft (s.pc t) ≤ 6 := by
    intro t _
    cases s.pc t <;> simp [movesLeft]
  have hsum := Finset.sum_le_card_nsmul Finset.univ _ 6 hle
  simpa [stepsLeft, Nat.mul_comm] using hsum

theorem stepsLeft_lt (hs : s.threadStep t answer = some s') :
    stepsLeft s' < stepsLeft s := by
  obtain ⟨⟨new, -, hmove⟩, hothers⟩ := moveStep_of_threadStep hs
  refine Finset.sum_lt_sum (fun u _ => ?_) ⟨t, Finset.mem_univ t, hmove.fewer⟩
  by_cases hu : u = t
  · rw [hu]
    exact Nat.le_of_lt hmove.fewer
  · rw [hothers u hu]

/-- A schedule of thread steps. -/
def turns (ts : List (Fin n × Answer)) : List (PoolAct n) :=
  ts.map fun x => .step x.1 x.2

theorem turns_length : ∀ {ts : List (Fin n × Answer)} {s s' : DbPool n},
    exec step (turns ts) s = some s' → ts.length + stepsLeft s' ≤ stepsLeft s
  | [], s, s', h => by
      simp only [turns, List.map_nil, exec, Option.some.injEq] at h
      rw [h]
      exact Nat.le_of_eq (Nat.zero_add _)
  | x :: ts, s, s', h => by
      obtain ⟨s₁, hs, hrest⟩ := exec_cons_some h
      have hlt : stepsLeft s₁ < stepsLeft s := stepsLeft_lt hs
      have hle := turns_length hrest
      rw [List.length_cons]
      omega

/-- Threads at rest inside a call wait for permits that are gone. -/
theorem rest_of_stuck (hstuck : ∀ t answer, step (.step t answer) s = none)
    (hsome : s.sem + s.inFlight ≠ 0) (t : Fin n) :
    (s.pc t).inCall = false := by
  have hblocked : ∀ u, (s.pc u).inCall = true →
      s.sem = 0 ∧ (s.pc u).hasPermit = false := by
    intro u hin
    by_contra hgo
    obtain ⟨s', hs⟩ : ∃ s', s.threadStep u .ok = some s' := by
      refine threadStep_enabled .ok hin fun q hq hsem => hgo ⟨hsem, ?_⟩
      rw [hq]
      rfl
    have hnone := hstuck u .ok
    rw [show step (.step u .ok) s = some s' from hs] at hnone
    cases hnone
  by_contra hin
  have hsem := (hblocked t (by simpa using hin)).1
  obtain ⟨u, hu⟩ := count_pos_iff.mp (show 0 < s.inFlight by omega)
  have hnot := (hblocked u (inCall_of_hasPermit hu)).2
  rw [hu] at hnot
  cases hnot

-- ============================================================= the theorem

/-- When the pool is dead. For any number of threads and any schedule,
with any statements refused and any connections lost: at most `poolSize`
reconnects fail. As long as fewer have, every thread can still be served
in some continuation; after the last, no thread ever is, in any. And
without new calls the threads come to rest, after at most six steps each,
with every call over unless all permits have been lost. -/
theorem pool_dead_iff (as : List (PoolAct n))
    (hrun : exec step as init = some s) :
    failedReconnects as init ≤ poolSize
      ∧ (∀ t, failedReconnects as init = poolSize
        ↔ ∀ bs s', exec step bs s = some s' → (s'.pc t).hasPermit = false)
      ∧ ∀ ts s', exec step (turns ts) s = some s' →
        ts.length ≤ 6 * n
          ∧ ((∀ t answer, step (.step t answer) s' = none) →
            failedReconnects (as ++ turns ts) init < poolSize →
            ∀ t, (s'.pc t).inCall = false) := by
  have haccount := permits_account hrun
  refine ⟨by omega, fun t => ⟨fun hall bs s' h => ?_, fun hnever => ?_⟩,
    fun ts s' h => ⟨?_, fun hstuck hsome => ?_⟩⟩
  · exact none_served (by omega) h t
  · by_contra hfew
    have hsome : s.sem + s.inFlight ≠ 0 := by omega
    obtain ⟨bs, s', h, hgot⟩ := can_be_served hsome t
    rw [hnever bs s' h] at hgot
    cases hgot
  · have hle := turns_length h
    have hmax := stepsLeft_le s
    omega
  · have haccount' := permits_account (exec_append hrun h)
    exact rest_of_stuck hstuck (by omega)

/-- Every connection is lost in turn, and the database refuses thread `t`
to open it again. -/
def allLost (t : Fin 1) : List (PoolAct 1) :=
  (List.range poolSize).flatMap fun i =>
    [.lose i, .call t (insertTelemetry 1 0 0 "sensor"), .step t .ok,
      .step t .thrown]

/-- Nobody is in a call, and the next call will not get a connection. -/
theorem allLost_dead :
    ∃ s s' : DbPool 1, exec step (allLost 0) init = some s
      ∧ (∀ t, (s.pc t).inCall = false)
      ∧ failedReconnects (allLost 0) init = poolSize
      ∧ exec step [.lose 0, .call 0 (insertTelemetry 1 0 0 "sensor")] s
        = some s'
      ∧ (s'.pc 0).hasPermit = false := by
  refine ⟨_, _, rfl, by decide, rfl, rfl, ?_⟩
  exact ((pool_dead_iff (allLost 0) rfl).2.1 0).mp rfl
    [.lose 0, .call 0 (insertTelemetry 1 0 0 "sensor")] _ rfl

end EdgeIpc.Ats.DbPool
