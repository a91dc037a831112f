/-
Which readings can be stored.

A reading goes through the client's encoder, the frame codec, the
session's decoder and a repository call, and comes out with the
identifier it had (Client.lean, Framing.lean); the last stage is a column
of a narrower type. A call whose row the database takes commits it,
whatever the other threads do, and a call whose row it does not take
throws (`call_outcome`). The row of a reading is taken exactly if the
identifier is below `2 ^ 31` (`reading_stored_iff`).
-/
import EdgeIpc.Ats.Proofs.Client
import EdgeIpc.Ats.Proofs.Pool
import EdgeIpc.Ats.Store

namespace EdgeIpc.Ats

open Lib

-- ============================================================== the column

theorem PgInt.ofInt?_val {z : Int} {x : PgInt} (h : PgInt.ofInt? z = some x) :
    x.val = z := by
  unfold PgInt.ofInt? at h
  split at h
  next =>
      injection h with h
      exact h ▸ rfl
  next => cases h

theorem PgInt.ofInt?_isSome {v : BitVec 32} :
    (PgInt.ofInt? v.toNat).isSome = true ↔ v.toNat < 2 ^ 31 := by
  unfold PgInt.ofInt?
  split
  next h =>
      simp only [Option.isSome_some, true_iff]
      omega
  next h =>
      simp only [Option.isSome_none, Bool.false_eq_true, false_iff]
      omega

namespace Postgres

variable {pg : Postgres} {row : TelemetryRow}

/-- The row made is the row sent. -/
theorem insertRow_fields {stored : StoredTelemetry}
    (h : pg.insertRow row = some stored) :
    stored.sensorId.val = row.sensorId.toNat ∧ stored.value = row.value
      ∧ stored.clientSubject = row.clientSubject := by
  unfold insertRow at h
  simp only [Option.bind_eq_bind, Option.bind_eq_some_iff] at h
  obtain ⟨id, hid, ts, -, h⟩ := h
  split at h
  next =>
      injection h with h
      subst h
      exact ⟨PgInt.ofInt?_val hid, rfl, rfl⟩
  next => cases h

/-- Timestamp and value accepted, it is the identifier that decides. -/
theorem accepts_telemetry_iff
    (hts : (pg.toTimestamp row.timestampUs).isSome = true)
    (hvalue : pg.acceptsValue row.value = true) :
    pg.accepts (.telemetry row) = true ↔ row.sensorId.toNat < 2 ^ 31 := by
  obtain ⟨ts, hts⟩ := Option.isSome_iff_exists.mp hts
  rw [← PgInt.ofInt?_isSome]
  show (pg.insertRow row).isSome = true ↔ _
  unfold insertRow
  rw [hts, hvalue]
  cases PgInt.ofInt? row.sensorId.toNat with
  | none => rfl
  | some id => rfl

theorem answer_locked (q : Insert) : pg.answer (.locked q) = .ok := rfl

theorem answer_beginWork (q : Insert) (l : Loan) :
    pg.answer (.beginWork q l) = .ok := rfl

theorem answer_execInsert (q : Insert) (l : Loan) :
    pg.answer (.execInsert q l)
      = if pg.accepts q then .ok else .thrown := rfl

theorem answer_commit (q : Insert) (l : Loan) :
    pg.answer (.commit q l) = .ok := rfl

end Postgres

-- ================================================================ one step

namespace DbPool

variable {n : Nat} {pg : Postgres} {s s' : DbPool n} {t : Fin n} {q : Insert}

/-- The moves of a thread on a database that is up, with the rows they
commit. -/
inductive UpMove (pg : Postgres) : InsertPc → List Insert → InsertPc → Prop
  | permit (q : Insert) : UpMove pg (.semAcquire q) [] (.locked q)
  | lend (q : Insert) (l : Loan) : UpMove pg (.locked q) [] (.beginWork q l)
  | begun (q : Insert) (l : Loan) :
      UpMove pg (.beginWork q l) [] (.execInsert q l)
  | taken (q : Insert) (l : Loan) (ha : pg.accepts q = true) :
      UpMove pg (.execInsert q l) [] (.commit q l)
  | refused (q : Insert) (l : Loan) (ha : pg.accepts q = false) :
      UpMove pg (.execInsert q l) [] (.release l .thrown)
  | committed (q : Insert) (l : Loan) :
      UpMove pg (.commit q l) [q] (.release l .ok)
  | released (l : Loan) (r : CallResult) :
      UpMove pg (.release l r) [] (.returned r)

/-- One of these moves, and nothing else of what matters here. -/
structure UpStep (pg : Postgres) (t : Fin n) (s s' : DbPool n) : Prop where
  move : ∃ new, s'.rows = s.rows ++ new ∧ UpMove pg (s.pc t) new (s'.pc t)
  others : ∀ u, u ≠ t → s'.pc u = s.pc u

/-- A thread goes to its next control point. -/
theorem upStep_goto {p : DbPool n} {pc : InsertPc} {new : List Insert}
    (hrows : p.rows = s.rows ++ new) (hpc : p.pc = s.pc)
    (hm : UpMove pg (s.pc t) new pc) : UpStep pg t s (p.goto t pc) := by
  refine ⟨⟨new, hrows, ?_⟩, fun u hu => ?_⟩
  · show UpMove pg (s.pc t) new (Lib.move p.pc t pc t)
    rw [move_self]
    exact hm
  · show Lib.move p.pc t pc u = s.pc u
    rw [move_ne _ _ hu, hpc]

theorem upStep_of_threadStep
    (hs : s.threadStep t (pg.answer (s.pc t)) = some s') :
    UpStep pg t s s' := by
  unfold threadStep at hs
  split at hs
  next => cases hs
  next => cases hs
  next q hpc =>
      split at hs
      next => cases hs
      next =>
          injection hs with hs
          rw [← hs]
          exact upStep_goto (List.append_nil _).symm rfl (hpc ▸ .permit q)
  next q hpc =>
      -- a connection found closed is opened again
      obtain ⟨o, ho⟩ := ensureOpen_some (i := s.next)
        (s := { s with next := (s.next + 1) % poolSize, lent := s.lent + 1 })
        (.inr (rfl : Answer.ok = .ok))
      injection hs with hs
      rw [hpc, Postgres.answer_locked, acquireBody] at hs
      simp only [ho] at hs
      rw [← hs]
      exact upStep_goto (List.append_nil _).symm rfl (hpc ▸ .lend q _)
  next q l hpc =>
      injection hs with hs
      rw [hpc, Postgres.answer_beginWork, statement, if_pos rfl] at hs
      rw [← hs]
      exact upStep_goto (List.append_nil _).symm rfl (hpc ▸ .begun q l)
  next q l hpc =>
      injection hs with hs
      rw [hpc, Postgres.answer_execInsert, statement] at hs
      rw [← hs]
      refine upStep_goto (List.append_nil _).symm rfl (hpc ▸ ?_)
      cases ha : pg.accepts q with
      | true => exact .taken q l ha
      | false => exact .refused q l ha
  next q l hpc =>
      injection hs with hs
      rw [hpc, Postgres.answer_commit, commitWork, statement,
        if_neg (by decide), if_pos rfl] at hs
      rw [← hs]
      exact upStep_goto rfl rfl (hpc ▸ .committed q l)
  next l r hpc =>
      injection hs with hs
      rw [← hs]
      exact upStep_goto (List.append_nil _).symm rfl (hpc ▸ .released l r)

-- ================================================================ one call

/-- Where the call of `q` can stand, given what has been committed since
it was entered. -/
def Underway (pg : Postgres) (q : Insert) (new : List Insert) :
    InsertPc → Prop
  | .idle => False
  | .semAcquire q' | .locked q' | .beginWork q' _ | .execInsert q' _ => q' = q
  | .commit q' _ => q' = q ∧ pg.accepts q = true
  | .release _ r | .returned r =>
      (r = .ok ↔ pg.accepts q = true) ∧ (r = .ok → q ∈ new)

/-- More commits do no harm. -/
theorem Underway.append {new : List Insert} {pc : InsertPc}
    (h : Underway pg q new pc) (extra : List Insert) :
    Underway pg q (new ++ extra) pc := by
  cases pc with
  | idle => exact h
  | semAcquire | locked | beginWork | execInsert | commit => exact h
  | release | returned =>
      exact ⟨h.1, fun ha => List.mem_append_left _ (h.2 ha)⟩

theorem Underway.move {new extra : List Insert} {pc pc' : InsertPc}
    (h : Underway pg q new pc) (hm : UpMove pg pc extra pc') :
    Underway pg q (new ++ extra) pc' := by
  cases hm with
  | permit | lend | begun => exact h
  | taken q' l ha =>
      have hq : q' = q := h
      subst hq
      exact ⟨rfl, ha⟩
  | refused q' l ha =>
      have hq : q' = q := h
      subst hq
      refine ⟨⟨nofun, fun h => ?_⟩, nofun⟩
      rw [ha] at h
      cases h
  | committed q' l =>
      obtain ⟨rfl, ha⟩ := h
      exact ⟨⟨fun _ => ha, fun _ => rfl⟩, fun _ => by simp⟩
  | released l r =>
      have hover : Underway pg q new (.returned r) := h
      exact hover.append []

/-- The call of `q` by `t`, seen from the rows when it was entered. -/
def CallInv (pg : Postgres) (t : Fin n) (q : Insert) (base : List Insert)
    (s : DbPool n) : Prop :=
  ∃ new, s.rows = base ++ new ∧ Underway pg q new (s.pc t)

variable {base : List Insert}

/-- A step of any thread, unless it is another call of `t`. -/
theorem callInv_step {a : StoreAct n} (h : CallInv pg t q base s)
    (hcall : ∀ q', a ≠ .call t q') (hs : pg.step a s = some s') :
    CallInv pg t q base s' := by
  obtain ⟨new, hrows, hat⟩ := h
  cases a with
  | call u q' =>
      have hu : t ≠ u := fun htu => hcall q' (htu ▸ rfl)
      simp only [Postgres.step, step] at hs
      split at hs
      next => cases hs
      next =>
          injection hs with hs
          have hpc : (s.goto u (.semAcquire q')).pc t = s.pc t :=
            move_ne _ _ hu
          refine ⟨new, hs ▸ hrows, ?_⟩
          rw [← hs, hpc]
          exact hat
  | step u =>
      obtain ⟨⟨extra, hextra, hm⟩, hothers⟩ := upStep_of_threadStep hs
      refine ⟨new ++ extra, by rw [hextra, hrows, List.append_assoc], ?_⟩
      by_cases hu : t = u
      · subst hu
        exact hat.move hm
      · rw [hothers t hu]
        exact hat.append extra

/-- A thread's repository call from its entry to its return, among the
other threads' steps. -/
structure CallRun (pg : Postgres) (t : Fin n) (q : Insert) (p p' : DbPool n)
    (r : CallResult) : Prop where
  run : ∃ as, exec pg.step (.call t q :: as) p = some p'
    ∧ ∀ q', StoreAct.call t q' ∉ as
  returned : p'.pc t = .returned r

variable {p p' : DbPool n} {r : CallResult}

theorem enter_some (hidle : (p.pc t).inCall = false) :
    pg.step (.call t q) p = some (p.goto t (.semAcquire q)) := by
  simp only [Postgres.step, step, hidle, Bool.false_eq_true, if_false]

/-- A call returns or throws by what the database thinks of its row, and
if it returns the row is committed. -/
theorem call_outcome (h : CallRun pg t q p p' r) :
    (r = .ok ↔ pg.accepts q = true)
      ∧ ∃ new, p'.rows = p.rows ++ new ∧ (r = .ok → q ∈ new) := by
  obtain ⟨⟨as, hrun, has⟩, hret⟩ := h
  obtain ⟨p₁, henter, hrest⟩ := exec_cons_some hrun
  have hinit : CallInv pg t q p.rows p₁ := by
    simp only [Postgres.step, step] at henter
    split at henter
    next => cases henter
    next =>
        injection henter with henter
        have hpc : (p.goto t (.semAcquire q)).pc t = .semAcquire q :=
          move_self _ _ _
        refine ⟨[], ?_, ?_⟩
        · rw [← henter, List.append_nil]
          rfl
        · rw [← henter, hpc]
          rfl
  have hothers : ∀ a ∈ as, ∀ q', a ≠ .call t q' := by
    rintro a ha q' rfl
    exact has q' ha
  have hend : CallInv pg t q p.rows p' :=
    exec_invariant callInv_step hothers hinit hrest
  obtain ⟨new, hrows, hat⟩ := hend
  rw [hret] at hat
  exact ⟨hat.1, new, hrows, hat.2⟩

-- ================================================================ progress

/-- Moves a call still has before it. -/
def movesLeft : InsertPc → Nat
  | .idle | .returned _ => 0
  | .release _ _ => 1
  | .commit _ _ => 2
  | .execInsert _ _ => 3
  | .beginWork _ _ => 4
  | .locked _ => 5
  | .semAcquire _ => 6

theorem UpMove.fewer {pc pc' : InsertPc} {new : List Insert}
    (h : UpMove pg pc new pc') : movesLeft pc' < movesLeft pc := by
  cases h <;> simp only [movesLeft] <;> omega

/-- A call can move on, unless it waits for a permit. -/
theorem threadStep_enabled (answer : Answer) (hin : (s.pc t).inCall = true)
    (hsem : ∀ q, s.pc t = .semAcquire q → s.sem ≠ 0) :
    ∃ s', s.threadStep t answer = some s' := by
  unfold threadStep
  cases hpc : s.pc t with
  | idle | returned =>
      rw [hpc] at hin
      cases hin
  | semAcquire q => exact ⟨_, if_neg (hsem q hpc)⟩
  | locked | beginWork | execInsert | commit | release => exact ⟨_, rfl⟩

/-- The call is over. -/
def Over (t : Fin n) (s : DbPool n) : Prop := ∃ r, s.pc t = .returned r

/-- The call has begun, and does not wait for a permit. -/
def Running (t : Fin n) (s : DbPool n) : Prop :=
  s.pc t ≠ .idle ∧ ∀ q, s.pc t = .semAcquire q → s.sem ≠ 0

theorem running_step (h : Running t s) (hover : ¬ Over t s) :
    ∃ s', pg.step (.step t) s = some s' ∧ Running t s'
      ∧ movesLeft (s'.pc t) < movesLeft (s.pc t) := by
  have hin : (s.pc t).inCall = true := by
    cases hpc : s.pc t with
    | idle => exact absurd hpc h.1
    | returned r => exact absurd ⟨r, hpc⟩ hover
    | semAcquire | locked | beginWork | execInsert | commit | release => rfl
  obtain ⟨s', hs⟩ := threadStep_enabled (pg.answer (s.pc t)) hin h.2
  obtain ⟨⟨new, -, hm⟩, -⟩ := upStep_of_threadStep hs
  refine ⟨s', hs, ?_, hm.fewer⟩
  generalize s.pc t = pc at hm
  generalize hpc' : s'.pc t = pc' at hm
  unfold Running
  rw [hpc']
  cases hm <;> exact ⟨nofun, nofun⟩

/-- A call that finds a permit comes to its end. -/
theorem call_returns (pg : Postgres) (q : Insert)
    (hidle : (p.pc t).inCall = false) (hsem : p.sem ≠ 0) :
    ∃ p' r, CallRun pg t q p p' r := by
  have hpc : (p.goto t (.semAcquire q)).pc t = .semAcquire q :=
    move_self _ _ _
  have hinit : Running t (p.goto t (.semAcquire q)) := by
    refine ⟨?_, fun _ _ => hsem⟩
    rw [hpc]
    exact nofun
  have hends : ∃ k p', exec pg.step ((List.range k).map fun _ => StoreAct.step t)
      (p.goto t (.semAcquire q)) = some p' ∧ Over t p' :=
    ends_of_measure (Running t) (Over t) (fun a => a = StoreAct.step t)
      (fun s => movesLeft (s.pc t))
      (fun hr hover ha => by
        subst ha
        exact running_step hr hover)
      (fun _ => StoreAct.step t) (fun _ => rfl) hinit
  obtain ⟨k, p', hrun, r, hret⟩ := hends
  refine ⟨p', r, ⟨_, (exec_cons_of (enter_some hidle)).trans hrun, ?_⟩, hret⟩
  intro q' hmem
  obtain ⟨i, -, heq⟩ := List.mem_map.mp hmem
  cases heq

end DbPool

-- ============================================================= the reading

/-- Between `p` and `p'` a row with the reading has been committed, its
identifier the one sent. -/
def Commits {n : Nat} (pg : Postgres) (sf : SensorFrame) (subject : String)
    (p p' : DbPool n) : Prop :=
  ∃ new, pg.telemetryTable p'.rows = pg.telemetryTable p.rows ++ new
    ∧ ∃ stored ∈ new, stored.sensorId.val = sf.sensorId.toNat
      ∧ stored.value = sf.value ∧ stored.clientSubject = subject

/-- The session decodes what the client encoded. -/
theorem run_reading {cfg : SessionCfg} {s : Session} {sf : SensorFrame}
    {subject : String} {payload bytes rest : List Byte}
    (hser : sf.serialize = some payload)
    (hframe : (telemetryFrame payload).serialize = some bytes)
    (hpc : s.pc = .readTelemetry subject) (hin : s.inbox = bytes ++ rest)
    (io : Option SysError) (db : DbOutcome) :
    ∃ s', s.run cfg io db = some s'
      ∧ s'.pc = .insertTelemetry subject (sf.row subject) := by
  rw [sensorFrame_serialize, Option.some.injEq] at hser
  subst hser
  have hlen : 12 + (telemetryFrame sf.bytes).payload.length < 2 ^ 32 := by
    simp [telemetryFrame]
  rw [serialize_eq_wire hlen, Option.some.injEq] at hframe
  subst hframe
  have hrun : s.run cfg io db
      = s.read cfg (Session.onTelemetryFrame subject) := by
    unfold Session.run
    rw [hpc]
  refine ⟨_, hrun.trans (Session.read_ok
    (readFrameOn_ok_iff.mpr ⟨hlen, hin⟩)), ?_⟩
  show Session.onTelemetryFrame subject (telemetryFrame sf.bytes) = _
  unfold Session.onTelemetryFrame
  simp only [telemetryFrame, telemetryRow?_bytes]
  rfl

/-- A call that has committed the reading's row has stored it. -/
theorem commits_of_mem {n : Nat} {pg : Postgres} {sf : SensorFrame}
    {subject : String} {p p' : DbPool n} {new : List Insert}
    (ha : pg.accepts (.telemetry (sf.row subject)) = true)
    (hrows : p'.rows = p.rows ++ new)
    (hmem : .telemetry (sf.row subject) ∈ new) :
    Commits pg sf subject p p' := by
  obtain ⟨stored, hstored⟩ := Option.isSome_iff_exists.mp ha
  obtain ⟨hid, hvalue, hsubject⟩ := Postgres.insertRow_fields hstored
  refine ⟨pg.telemetryTable new, ?_, stored, ?_, hid, hvalue, hsubject⟩
  · rw [hrows]
    exact List.filterMap_append
  · exact List.mem_filterMap.mpr ⟨_, hmem, hstored⟩

/-- Which readings can be stored? For every reading whose timestamp and
value the database takes, encoded, framed and sent in an authenticated
session: the session decodes it and calls `insert_telemetry`; the call
comes to its end, if it finds a permit; and each call that comes to its
end, among whatever other calls, has committed a row with the identifier
sent exactly if the identifier is below `2 ^ 31`. -/
theorem reading_stored_iff (pg : Postgres) (cfg : SessionCfg)
    (io : Option SysError) (db : DbOutcome) (s : Session) (sf : SensorFrame)
    {subject : String} {payload bytes rest : List Byte}
    (hser : sf.serialize = some payload)
    (hframe : (telemetryFrame payload).serialize = some bytes)
    (hpc : s.pc = .readTelemetry subject) (hin : s.inbox = bytes ++ rest)
    (hts : (pg.toTimestamp sf.timestampUs).isSome = true)
    (hvalue : pg.acceptsValue sf.value = true) :
    ∃ s' row, s.run cfg io db = some s'
      ∧ s'.pc = .insertTelemetry subject row
      ∧ ∀ {n : Nat} (t : Fin n) (p : DbPool n), (p.pc t).inCall = false →
        (p.sem ≠ 0 → ∃ p' r, DbPool.CallRun pg t (.telemetry row) p p' r)
        ∧ ∀ p' r, DbPool.CallRun pg t (.telemetry row) p p' r →
          (Commits pg sf subject p p' ↔ sf.sensorId.toNat < 2 ^ 31) := by
  obtain ⟨s', hrun, hpc'⟩ := run_reading hser hframe hpc hin io db
  refine ⟨s', sf.row subject, hrun, hpc', fun t p hidle => ⟨?_, ?_⟩⟩
  · exact DbPool.call_returns pg _ hidle
  · intro p' r hcall
    have haccepts : pg.accepts (.telemetry (sf.row subject)) = true
        ↔ sf.sensorId.toNat < 2 ^ 31 :=
      Postgres.accepts_telemetry_iff hts hvalue
    obtain ⟨hok, new, hrows, hmem⟩ := DbPool.call_outcome hcall
    constructor
    · -- the column holds no other identifier
      rintro ⟨-, -, stored, -, hid, -, -⟩
      have hrange := stored.sensorId.inRange
      omega
    · intro hlt
      have ha := haccepts.mpr hlt
      exact commits_of_mem ha hrows (hmem (hok.mpr ha))

/-- A database that takes every timestamp and every value. -/
def lenient : Postgres where
  toTimestamp := fun us => some us.toNat
  acceptsValue := fun _ => true
  acceptsAuthLog := fun _ => true

/-- A session about to read the reading of a sensor. -/
def pendingReading (sensorId : BitVec 32) : Session where
  pc := .readTelemetry "sensor-1"
  inbox := (telemetryFrame (SensorFrame.bytes { sensorId })).wire

def plainCfg : SessionCfg where
  server := .tcp
  validate := fun _ => { ok := true, subject := "sensor-1" }
  peerIp := "127.0.0.1"

/-- Identifier 1, on a fresh pool. -/
theorem reading_stored_one :
    ∃ p', Commits lenient { sensorId := 1#32 } "sensor-1"
      (DbPool.init : DbPool 1) p' := by
  obtain ⟨-, row, -, -, hcalls⟩ := reading_stored_iff lenient plainCfg none
    .ok (pendingReading 1#32) { sensorId := 1#32 } (sensorFrame_serialize _)
    (serialize_eq_wire (by decide)) rfl (List.append_nil _).symm rfl rfl
  obtain ⟨hreturns, hstores⟩ := hcalls (0 : Fin 1) DbPool.init rfl
  obtain ⟨p', r, hcall⟩ := hreturns (by decide)
  exact ⟨p', (hstores p' r hcall).mpr (by decide)⟩

/-- Identifier 2147483648, the first the column does not take: decoded as
it was sent, refused by the database, and nothing stored. -/
theorem reading_refused_high :
    let row := SensorFrame.row "sensor-1" { sensorId := 0x80000000#32 }
    ((pendingReading 0x80000000#32).run plainCfg none .ok).map Session.pc
        = some (.insertTelemetry "sensor-1" row)
      ∧ (exec lenient.step
          (.call 0 (.telemetry row) :: List.replicate 5 (.step 0))
          (DbPool.init : DbPool 1)).map
            (fun p => (p.pc 0, lenient.telemetryTable p.rows))
        = some (.returned .thrown, []) := by
  decide +kernel

end EdgeIpc.Ats
