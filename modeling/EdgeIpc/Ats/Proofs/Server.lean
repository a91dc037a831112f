/-
What holds of the telemetry server across all its connections: each one
runs as if it were alone, and together the rows of the database are what
their sessions say they stored.

# The view of one connection

A step of the server is one connection's. What concerns a connection, its
`ConnView`, is its coroutine, where its repository call stands and the rows
its calls have committed; a step changes the view of the connection that
makes it, in one of five ways (`ViewMove`), and no other connection's
(`step_view`). So an invariant of a view is shown on the five moves and
holds of every connection at every moment (`view_invariant`).

# The law

The invariant is that the rows a connection's calls have committed are
those its session's record says are committed, and the row of a call that
has committed and not yet returned (`ViewInv`). Since the session is a
reachable one, what is known of single sessions is known of the rows
(`audit_trail`).
-/
import EdgeIpc.Ats.Proofs.PoolProgress
import EdgeIpc.Ats.Proofs.SessionSafety
import EdgeIpc.Ats.Server

namespace EdgeIpc.Ats

open Lib

-- =========================================================== the sessions

/-- The rows a session's record says are in the database, in order. -/
def committed (es : List Effect) : List Insert :=
  es.filterMap fun
    | .insertAuthLog row db =>
        if db.committed then some (.authLog row) else none
    | .insertTelemetry row db =>
        if db.committed then some (.telemetry row) else none
    | _ => none

theorem committed_append (es es' : List Effect) :
    committed (es ++ es') = committed es ++ committed es' :=
  List.filterMap_append

theorem OnlyLogs.committed {es : List Effect} (h : OnlyLogs es) :
    committed es = [] :=
  h.filterMap_eq_nil fun _ => rfl

/-- Log lines commit nothing. -/
theorem committed_logs (es : List Effect) {logs : List Effect}
    (hl : OnlyLogs logs) : committed (es ++ logs) = committed es := by
  rw [committed_append, hl.committed, List.append_nil]

namespace Session

variable {cfg : SessionCfg} {s s' : Session}

theorem committed_throwSystem (cfg : SessionCfg) (e : SysError)
    (s : Session) :
    committed (s.throwSystem cfg e).effects = committed s.effects := by
  obtain ⟨logs, hl, heq⟩ := throwSystem_eq cfg e s
  rw [heq]
  exact committed_logs _ hl

theorem committed_throwStd (cfg : SessionCfg) (what : String)
    (s : Session) :
    committed (s.throwStd cfg what).effects = committed s.effects := by
  obtain ⟨logs, hl, heq⟩ := throwStd_eq cfg what s
  rw [heq]
  exact committed_logs _ hl

theorem committed_read {k : Frame → SessionPc}
    (h : s.read cfg k = some s') :
    committed s'.effects = committed s.effects := by
  unfold read at h
  split at h
  next =>
    injection h with h
    rw [← h]
  next =>
    obtain ⟨e, -, h⟩ := Option.map_eq_some_iff.mp h
    rw [← h, committed_throwSystem]
  next =>
    injection h with h
    rw [← h, committed_throwStd]
  next =>
    injection h with h
    rw [← h]

theorem committed_write (cfg : SessionCfg) (f : Frame)
    (io : Option SysError) (next : SessionPc) (s : Session) :
    committed (s.write cfg f io next).effects = committed s.effects := by
  unfold write
  split
  next => rfl
  next bytes =>
    have hnew : committed (s.effects ++ [Effect.write f io])
        = committed s.effects := by
      rw [committed_append]
      exact List.append_nil _
    cases io with
    | none => exact hnew
    | some e =>
        dsimp only
        rw [committed_throwSystem]
        exact hnew

theorem committed_call (cfg : SessionCfg) (e : Effect) (db : DbOutcome)
    (next : SessionPc) (s : Session) :
    committed (s.call cfg e db next).effects
      = committed s.effects ++ committed [e] := by
  unfold call
  cases db with
  | ok => exact committed_append _ _
  | threw what stored =>
      dsimp only
      rw [committed_throwStd, committed_append]

/-- Between its repository calls a session commits nothing, -/
theorem committed_quiet {io : Option SysError} {db : DbOutcome}
    (hq : cfg.insert? s.pc = none) (h : s.run cfg io db = some s') :
    committed s'.effects = committed s.effects := by
  unfold run at h
  split at h
  next =>
    split at h <;> injection h with h
    · rw [← h]
    · rw [← h, committed_throwSystem]
  next => exact committed_read h
  next token hpc =>
    rw [hpc] at hq
    cases hq
  next =>
    injection h with h
    rw [← h, committed_write]
  next =>
    injection h with h
    rw [← h, committed_write]
  next => exact committed_read h
  next subject row hpc =>
    rw [hpc] at hq
    cases hq
  next =>
    injection h with h
    rw [← h, committed_write]
  next => cases h
  next => cases h

/-- and a call commits its row, if the database did. -/
theorem committed_insert {io : Option SysError} {db : DbOutcome}
    {q : Insert} (hq : cfg.insert? s.pc = some q)
    (h : s.run cfg io db = some s') :
    committed s'.effects
      = committed s.effects ++ if db.committed then [q] else [] := by
  cases hpc : s.pc with
  | insertAuth token =>
      simp only [run, hpc, Option.some.injEq] at h
      simp only [hpc, SessionCfg.insert?, Option.some.injEq] at hq
      rw [← h, committed_call, ← hq]
      cases hdb : db.committed <;> simp [committed, hdb]
  | insertTelemetry subject row =>
      simp only [run, hpc, Option.some.injEq] at h
      simp only [hpc, SessionCfg.insert?, Option.some.injEq] at hq
      rw [← h, committed_call, ← hq]
      cases hdb : db.committed <;> simp [committed, hdb]
  | handshake | readAuth | writeError | writeAuthAck | readTelemetry
  | writeAck | done | undefined =>
      rw [hpc] at hq
      cases hq

theorem committed_feed {bs : List Byte} {e : Option SysError}
    (h : s.feed bs e = some s') :
    committed s'.effects = committed s.effects ∧ s'.pc = s.pc := by
  unfold feed at h
  split at h
  next => cases h
  next =>
    injection h with h
    rw [← h]
    exact ⟨rfl, rfl⟩

end Session

-- ============================================================ the ledgers

/-- The rows a session can leave behind: none, the row of its AUTH frame,
or that of an accepted one and, in order, the readings of the TELEMETRY
frames that follow it. -/
inductive Ledger (cfg : SessionCfg) : List Frame → List Insert → Prop
  | none (fs : List Frame) : Ledger cfg fs []
  | auth {f : Frame} (fs : List Frame) (hf : f.msgType = .auth) :
      Ledger cfg (f :: fs) [.authLog (cfg.authRow f.payload)]
  | telemetry {f : Frame} {subject : String} {ts : List Frame}
      (rest : List Frame) (ha : Accepted cfg f subject)
      (hts : ∀ t ∈ ts, t.msgType = .telemetry) :
      Ledger cfg (f :: (ts ++ rest)) (.authLog (cfg.authRow f.payload)
        :: (ts.filterMap fun t => telemetryRow? t.payload subject).map
          .telemetry)

theorem committed_store (subject : String) (t : Frame) :
    committed (storeTrace subject t)
      = (telemetryRow? t.payload subject).toList.map .telemetry := by
  unfold storeTrace
  cases telemetryRow? t.payload subject <;> rfl

theorem committed_round (subject : String) (t : Frame)
    (io : Option SysError) :
    committed (roundTrace subject t io)
      = (telemetryRow? t.payload subject).toList.map .telemetry := by
  unfold roundTrace
  rw [committed_append, committed_store]
  exact List.append_nil _

section Ledgers

variable {cfg : SessionCfg} {subject : String} {fs : List Frame}
  {es : List Effect}

/-- The rounds of a session leave the rows of all their frames. -/
theorem Rounds.ledger (h : Rounds cfg subject fs es) :
    ∃ f ts, fs = f :: ts ∧ Accepted cfg f subject
      ∧ (∀ t ∈ ts, t.msgType = .telemetry)
      ∧ committed es = .authLog (cfg.authRow f.payload)
        :: (ts.filterMap fun t => telemetryRow? t.payload subject).map
          .telemetry := by
  induction h with
  | @auth f ha => exact ⟨f, [], rfl, ha, nofun, rfl⟩
  | @round fs es t h ht ih =>
      obtain ⟨f, ts, rfl, ha, hts, hes⟩ := ih
      refine ⟨f, ts ++ [t], rfl, ha, ?_, ?_⟩
      · simpa [or_imp, forall_and, ht] using hts
      · rw [committed_append, hes, committed_round]
        simp [List.filterMap_cons]
        cases telemetryRow? t.payload subject <;> rfl

/-- Rounds, then frames of which nothing has been stored. -/
theorem Rounds.ledger_rest (h : Rounds cfg subject fs es)
    (rest : List Frame) (es' : List Effect) (hes' : committed es' = []) :
    Ledger cfg (fs ++ rest) (committed (es ++ es')) := by
  obtain ⟨f, ts, rfl, ha, hts, hes⟩ := h.ledger
  rw [committed_append, hes', List.append_nil, hes, List.cons_append]
  exact .telemetry rest ha hts

/-- Rounds, then a frame that has been stored. -/
theorem Rounds.ledger_stored (h : Rounds cfg subject fs es) {t : Frame}
    (ht : t.msgType = .telemetry) (es' : List Effect)
    (hes' : committed es'
      = (telemetryRow? t.payload subject).toList.map .telemetry) :
    Ledger cfg (fs ++ [t]) (committed (es ++ es')) := by
  have hround := (Rounds.round h ht).ledger_rest [] [] rfl
  rwa [List.append_nil, List.append_nil, committed_append, committed_round,
    ← hes', ← committed_append] at hround

theorem Shape.ledger {pc : SessionPc} (h : Shape cfg pc fs es) :
    Ledger cfg fs (committed es) := by
  cases h with
  | readAuth | wrongType | insertAuth | authOutOfBounds => exact .none _
  | rejected hf => exact .auth [] hf
  | accepted ha => exact .auth [] ha.auth
  | @loop subject fs es h => simpa using h.ledger_rest [] [] rfl
  | @storing subject fs es t row h ht hrow =>
      simpa using h.ledger_rest [t] [] rfl
  | acking h ht => exact h.ledger_stored ht _ (committed_store _ _)
  | noAuth hl =>
      rw [hl.committed]
      exact .none _
  | @refused f io logs hf hl =>
      rw [show committed (_ :: logs) = _ from committed_logs [_] hl]
      exact .none _
  | @authThrew f what stored logs hf hl =>
      rw [show committed (_ :: logs) = _ from committed_logs [_] hl]
      cases stored with
      | true => exact .auth [] hf
      | false => exact .none _
  | @turnedAway f io logs hf hv hl =>
      rw [show committed (_ :: _ :: logs) = _ from committed_logs [_, _] hl]
      exact .auth [] hf
  | @authAckLost f subject e logs ha hl =>
      rw [show committed (_ :: _ :: logs) = _ from committed_logs [_, _] hl]
      exact .auth [] ha.auth
  | cut h hl => simpa using h.ledger_rest [] _ hl.committed
  | @goodbye subject fs es t h ht => simpa using h.ledger_rest [t] [] rfl
  | @storeThrew subject fs es logs t row what stored h ht hrow hl =>
      have hlast : committed (.insertTelemetry row (.threw what stored) :: logs)
          = if stored then [.telemetry row] else [] :=
        (committed_logs [_] hl).trans (by cases stored <;> rfl)
      cases stored with
      | true =>
          refine h.ledger_stored ht _ (hlast.trans ?_)
          rw [hrow]
          rfl
      | false => exact h.ledger_rest [t] _ hlast
  | ackLost h ht hl =>
      refine h.ledger_stored ht _ ?_
      rw [committed_logs _ hl, committed_round]
  | loopOutOfBounds h => simpa using h.ledger_rest [] [] rfl

end Ledgers

namespace Session

variable {cfg : SessionCfg} {s s' : Session}

/-- A session past its handshake, before it or turned away at it. -/
def Started (cfg : SessionCfg) (s : Session) : Prop :=
  SessionInv cfg s ∨ s = TlsServer.handleTlsSession
    ∨ (s.pc = .done ∧ s.frames = [] ∧ committed s.effects = [])

theorem started_step {a : SessionAct} (hi : Started cfg s)
    (h : step cfg a s = some s') : Started cfg s' := by
  have hdone : ∀ {bs : List Byte} {e : Option SysError},
      s.feed bs e = some s' → s.pc = .done ∧ s.frames = []
        ∧ committed s.effects = [] →
      s'.pc = .done ∧ s'.frames = [] ∧ committed s'.effects = [] := by
    intro bs e h hd
    unfold feed at h
    split at h
    next => cases h
    next =>
      injection h with h
      exact h ▸ hd
  rcases hi with hi | rfl | hd
  · exact .inl (sessionInv_step hi h)
  · cases a with
    | arrive | close => cases h
    | run io db =>
        cases io with
        | none =>
            injection h with h
            exact .inl (h ▸ sessionInv_init)
        | some e =>
            injection h with h
            rw [← h]
            exact .inr (.inr ⟨rfl, rfl, committed_throwSystem _ _ _⟩)
  · cases a with
    | arrive bs => exact .inr (.inr (hdone h hd))
    | close e => exact .inr (.inr (hdone h hd))
    | run io db =>
        simp only [step, run, hd.1] at h
        cases h

theorem started_reachable
    (hr : Reachable (step cfg) cfg.server.handler s) : Started cfg s := by
  refine hr.invariant ?_ started_step
  cases cfg.server with
  | tcp => exact .inl sessionInv_init
  | tls => exact .inr (.inl rfl)

/-- The ledger of a session, and the frames it is written from. -/
theorem Started.ledger (h : Started cfg s) :
    Ledger cfg s.frames (committed s.effects)
      ∧ wires s.frames <+: s.received := by
  rcases h with hi | rfl | ⟨-, hframes, hnone⟩
  · exact ⟨hi.shape.ledger, hi.stream ▸ List.prefix_append _ _⟩
  · exact ⟨.none _, List.nil_prefix⟩
  · rw [hframes, hnone]
    exact ⟨.none _, List.nil_prefix⟩

/-- A repository call can always come out, and reads no frame. -/
theorem run_insert {q : Insert} (hq : cfg.insert? s.pc = some q)
    (db : DbOutcome) :
    ∃ s', s.run cfg none db = some s' ∧ s'.frames = s.frames
      ∧ s'.received = s.received := by
  have hcall : ∀ (e : Effect) (next : SessionPc),
      (s.call cfg e db next).frames = s.frames
        ∧ (s.call cfg e db next).received = s.received := by
    intro e next
    cases db <;> exact ⟨rfl, rfl⟩
  cases hpc : s.pc with
  | insertAuth token =>
      refine ⟨s.call cfg (.insertAuthLog (cfg.authRow token) db) db
        (onVerdict (cfg.validate token)), ?_, hcall _ _⟩
      simp only [run, hpc]
  | insertTelemetry subject row =>
      refine ⟨s.call cfg (.insertTelemetry row db) db (.writeAck subject), ?_,
        hcall _ _⟩
      simp only [run, hpc]
  | handshake | readAuth | writeError | writeAuthAck | readTelemetry
  | writeAck | done | undefined =>
      rw [hpc] at hq
      cases hq

end Session

-- =============================================================== the views

/-- What concerns one connection. -/
structure ConnView where
  conn : Option Conn
  pc : InsertPc
  rows : List Insert

/-- The rows committed by the calls of connection `i`. -/
def ownRows {n : Nat} (rows : List Insert) (committers : List (Fin n))
    (i : Fin n) : List Insert :=
  (rows.zip committers).filterMap fun x =>
    if x.2 = i then some x.1 else none

theorem ownRows_append {n : Nat} {rows : List Insert}
    {committers : List (Fin n)} (h : committers.length = rows.length)
    (q : Insert) (i j : Fin n) :
    ownRows (rows ++ [q]) (committers ++ [i]) j
      = ownRows rows committers j ++ if i = j then [q] else [] := by
  unfold ownRows
  rw [List.zip_append h.symm, List.filterMap_append]
  congr 1
  by_cases hij : i = j <;> simp [hij]

/-- A connection's rows up to one of them. -/
theorem ownRows_split {n : Nat} {rows : List Insert}
    {committers : List (Fin n)} {m : Nat} {q : Insert} {i : Fin n}
    (hrow : rows[m]? = some q) (hi : committers[m]? = some i) :
    ∃ post, ownRows rows committers i
      = ownRows (rows.take m) (committers.take m) i ++ q :: post := by
  have hzip : (rows.zip committers)[m]? = some (q, i) :=
    List.getElem?_zip_eq_some.mpr ⟨hrow, hi⟩
  obtain ⟨hlt, hget⟩ := List.getElem?_eq_some_iff.mp hzip
  have htake : (rows.take m).zip (committers.take m)
      = (rows.zip committers).take m := List.take_zipWith.symm
  have hsplit : rows.zip committers
      = (rows.take m).zip (committers.take m)
        ++ (q, i) :: (rows.zip committers).drop (m + 1) := by
    rw [htake, ← hget, ← List.drop_eq_getElem_cons hlt,
      List.take_append_drop]
  unfold ownRows
  rw [hsplit, List.filterMap_append, List.filterMap_cons]
  simp only [if_true]
  exact ⟨_, rfl⟩

theorem mem_ownRows {n : Nat} {rows : List Insert}
    {committers : List (Fin n)} {q : Insert} {i : Fin n}
    (h : q ∈ ownRows rows committers i) :
    ∃ m : Nat, rows[m]? = some q ∧ committers[m]? = some i := by
  obtain ⟨⟨q', j⟩, hmem, hq⟩ := List.mem_filterMap.mp h
  obtain ⟨m, hm⟩ := List.mem_iff_getElem?.mp hmem
  dsimp only at hq
  split at hq
  next hj =>
    injection hq with hq
    rw [← hq, ← hj]
    exact ⟨m, List.getElem?_zip_eq_some.mp hm⟩
  next => cases hq

/-- A connection's first row was committed before its other rows. -/
theorem first_before {n : Nat} {rows : List Insert}
    {committers : List (Fin n)} {m : Nat} {q first : Insert}
    {rest : List Insert} {i : Fin n} (hrow : rows[m]? = some q)
    (hi : committers[m]? = some i)
    (hrows : ownRows rows committers i = first :: rest) (hne : first ≠ q) :
    ∃ m', m' < m ∧ committers[m']? = some i ∧ rows[m']? = some first := by
  obtain ⟨post, hown⟩ := ownRows_split hrow hi
  have hearlier : first ∈ ownRows (rows.take m) (committers.take m) i := by
    rw [hown] at hrows
    cases hpre : ownRows (rows.take m) (committers.take m) i with
    | nil =>
        rw [hpre] at hrows
        injection hrows with hq
        exact absurd hq.symm hne
    | cons q' pre =>
        rw [hpre] at hrows
        injection hrows with hq
        exact hq ▸ List.mem_cons_self
  obtain ⟨m', hrow', hi'⟩ := mem_ownRows hearlier
  have hm' : m' < m := by
    have hlen := (List.getElem?_eq_some_iff.mp hrow').1
    rw [List.length_take] at hlen
    omega
  rw [List.getElem?_take_of_lt hm'] at hrow' hi'
  exact ⟨m', hm', hi', hrow'⟩

namespace TelemetryServer

variable {n : Nat} {cfg : ServerCfg n} {s s' : TelemetryServer n}

def view (s : TelemetryServer n) (i : Fin n) : ConnView where
  conn := s.conn i
  pc := s.pool.pc i
  rows := ownRows s.pool.rows s.committers i

/-- The five ways a step changes the view of the connection that makes
it. -/
inductive ViewMove (cfg : SessionCfg) : ConnView → ConnView → Prop
  | accept (pc : InsertPc) (rows : List Insert) :
      ViewMove cfg ⟨none, pc, rows⟩
        ⟨some { session := cfg.server.handler }, pc, rows⟩
  | session {c : Conn} {a : SessionAct} {session : Session} (pc : InsertPc)
      (rows : List Insert) (h : c.session.step cfg a = some session)
      (hcommit : committed session.effects = committed c.session.effects)
      (hcalls : cfg.insert? c.session.pc = none
        ∨ session.pc = c.session.pc) :
      ViewMove cfg ⟨some c, pc, rows⟩ ⟨some { c with session }, pc, rows⟩
  | call {c : Conn} {q : Insert} {pc : InsertPc} (rows : List Insert)
      (hq : cfg.insert? c.session.pc = some q) (hc : c.calling = false)
      (hpc : pc.inCall = false) :
      ViewMove cfg ⟨some c, pc, rows⟩
        ⟨some { c with calling := true, stored := false }, .semAcquire q,
          rows⟩
  | db {c : Conn} {pc pc' : InsertPc} {new : List Insert}
      (rows : List Insert) (hm : DbPool.ThreadMove pc new pc') :
      ViewMove cfg ⟨some c, pc, rows⟩
        ⟨some { c with stored := if new = [] then c.stored else true }, pc',
          rows ++ new⟩
  | resume {c : Conn} {r : CallResult} {what : String} {session : Session}
      (rows : List Insert) (hc : c.calling = true)
      (h : c.session.step cfg (.run none (r.outcome what c.stored))
        = some session) :
      ViewMove cfg ⟨some c, .returned r, rows⟩
        ⟨some { c with session, calling := false }, .returned r, rows⟩

/-- Every row has its committer. -/
def Lined (s : TelemetryServer n) : Prop :=
  s.committers.length = s.pool.rows.length

theorem view_setConn_ne {p : DbPool n} {l : List (Fin n)} {i j : Fin n}
    {c : Conn} (hj : j ≠ i) (hpc : p.pc j = s.pool.pc j)
    (hrows : ownRows p.rows l j = ownRows s.pool.rows s.committers j) :
    (({ s with pool := p, committers := l }).setConn i c).view j
      = s.view j := by
  unfold view setConn
  simp only [if_neg hj, hpc, hrows]

theorem view_setConn {i : Fin n} {c : Conn} :
    (s.setConn i c).view i = { s.view i with conn := some c } := by
  unfold view setConn
  simp only [if_true]

/-- One connection's step, if anybody's. -/
structure StepView (cfg : ServerCfg n) (s s' : TelemetryServer n) : Prop where
  lined : Lined s'
  move : (∀ j, s'.view j = s.view j)
    ∨ ∃ i, ViewMove (cfg.session i) (s.view i) (s'.view i)
      ∧ ∀ j, j ≠ i → s'.view j = s.view j

/-- A step that leaves the pool as it is. -/
theorem stepView_setConn {i : Fin n} {c : Conn} (hl : Lined s)
    (hm : ViewMove (cfg.session i) (s.view i)
      { s.view i with conn := some c }) :
    StepView cfg s (s.setConn i c) := by
  refine ⟨hl, .inr ⟨i, ?_, fun j hj => ?_⟩⟩
  · rw [view_setConn]
    exact hm
  · exact view_setConn_ne hj rfl rfl

theorem peerStep_view {i : Fin n} {a : SessionAct} (hl : Lined s)
    (ha : ∀ io db, a ≠ .run io db) (h : s.peerStep cfg i a = some s') :
    StepView cfg s s' := by
  simp only [peerStep, Option.bind_eq_bind, Option.bind_eq_some_iff,
    Option.some.injEq] at h
  obtain ⟨c, hc, session, hs, rfl⟩ := h
  refine stepView_setConn hl ?_
  have hfeed : committed session.effects = committed c.session.effects
      ∧ session.pc = c.session.pc := by
    cases a with
    | arrive bs => exact Session.committed_feed hs
    | close e => exact Session.committed_feed hs
    | run io db => exact absurd rfl (ha io db)
  have hview : s.view i = ⟨some c, s.pool.pc i, (s.view i).rows⟩ := by
    simp only [view, hc]
  rw [hview]
  exact .session _ _ hs hfeed.1 (.inr hfeed.2)

theorem runStep_view {i : Fin n} {io : Option SysError} (hl : Lined s)
    (h : s.runStep cfg i io = some s') : StepView cfg s s' := by
  simp only [runStep, Option.bind_eq_bind, Option.bind_eq_some_iff] at h
  obtain ⟨c, hc, h⟩ := h
  split at h
  next => cases h
  next hq =>
    obtain ⟨session, hs, h⟩ := Option.bind_eq_some_iff.mp h
    injection h with h
    rw [← h]
    refine stepView_setConn hl ?_
    have hview : s.view i = ⟨some c, s.pool.pc i, (s.view i).rows⟩ := by
      simp only [view, hc]
    rw [hview]
    exact .session _ _ hs (Session.committed_quiet hq hs) (.inl hq)

theorem callStep_view {i : Fin n} (hl : Lined s)
    (h : s.callStep cfg i = some s') : StepView cfg s s' := by
  simp only [callStep, Option.bind_eq_bind, Option.bind_eq_some_iff] at h
  obtain ⟨c, hc, q, hq, h⟩ := h
  split at h
  next => cases h
  next hcalling =>
    obtain ⟨pool, hp, h⟩ := Option.bind_eq_some_iff.mp h
    injection h with h
    simp only [DbPool.step] at hp
    split at hp
    next => cases hp
    next hin =>
      injection hp with hp
      subst hp h
      refine ⟨hl, .inr ⟨i, ?_, fun j hj => ?_⟩⟩
      · have hview : s.view i = ⟨some c, s.pool.pc i, (s.view i).rows⟩ := by
          simp only [view, hc]
        have hpc : (s.pool.goto i (.semAcquire q)).pc i = .semAcquire q :=
          move_self _ _ _
        rw [view_setConn, hview]
        simp only [view, hpc]
        exact .call _ hq (Bool.not_eq_true _ ▸ hcalling)
          (Bool.not_eq_true _ ▸ hin)
      · exact view_setConn_ne hj (move_ne _ _ hj) rfl

/-- A move of a repository call commits one row or none. -/
theorem rows_of_move {pc pc' : InsertPc} {new : List Insert}
    (h : DbPool.ThreadMove pc new pc') : new = [] ∨ ∃ q, new = [q] := by
  cases h with
  | committed q | inDoubt q => exact .inr ⟨q, rfl⟩
  | permit | lend | leak | begun | beginFailed | taken | execFailed | refused
  | released => exact .inl rfl

theorem dbStep_view {i : Fin n} {answer : Answer} (hl : Lined s)
    (h : s.dbStep i answer = some s') : StepView cfg s s' := by
  simp only [dbStep, Option.bind_eq_bind, Option.bind_eq_some_iff,
    Option.some.injEq] at h
  obtain ⟨c, hc, pool, hp, rfl⟩ := h
  obtain ⟨⟨new, hnew, hm⟩, hothers⟩ := DbPool.moveStep_of_threadStep hp
  have hview : s.view i = ⟨some c, s.pool.pc i, (s.view i).rows⟩ := by
    simp only [view, hc]
  have hmove : ViewMove (cfg.session i) (s.view i) ⟨some { c with
      stored := if new = [] then c.stored else true }, pool.pc i,
      (s.view i).rows ++ new⟩ := by
    rw [hview]
    exact .db _ hm
  rcases rows_of_move hm with rfl | ⟨q, rfl⟩
  · have hrows : pool.rows = s.pool.rows := by rw [hnew, List.append_nil]
    have hcommits : ¬ s.pool.rows.length < pool.rows.length := by
      rw [hrows]
      exact Nat.lt_irrefl _
    simp only [if_neg hcommits]
    refine ⟨hl.trans (congrArg _ hrows.symm), .inr ⟨i, ?_, fun j hj => ?_⟩⟩
    · rw [view_setConn]
      simp only [view, hrows, List.append_nil] at hmove ⊢
      exact hmove
    · exact view_setConn_ne hj (hothers j hj) (by rw [hrows])
  · have hcommits : s.pool.rows.length < pool.rows.length := by
      rw [hnew, List.length_append]
      exact Nat.lt_succ_self _
    have hown : ∀ j, ownRows pool.rows (s.committers ++ [i]) j
        = ownRows s.pool.rows s.committers j ++ if i = j then [q] else [] :=
      fun j => hnew ▸ ownRows_append hl q i j
    simp only [if_pos hcommits]
    refine ⟨?_, .inr ⟨i, ?_, fun j hj => ?_⟩⟩
    · show (s.committers ++ [i]).length = pool.rows.length
      rw [hnew, List.length_append, List.length_append, hl]
      rfl
    · rw [view_setConn]
      simp only [view, hown, if_true] at hmove ⊢
      exact hmove
    · refine view_setConn_ne hj (hothers j hj) ?_
      rw [hown, if_neg (Ne.symm hj), List.append_nil]

theorem resumeStep_view {i : Fin n} {what : String} (hl : Lined s)
    (h : s.resumeStep cfg i what = some s') : StepView cfg s s' := by
  simp only [resumeStep, Option.bind_eq_bind, Option.bind_eq_some_iff] at h
  obtain ⟨c, hc, h⟩ := h
  split at h
  next hcalling =>
    split at h
    next r hpc =>
      obtain ⟨session, hs, h⟩ := Option.bind_eq_some_iff.mp h
      injection h with h
      rw [← h]
      refine stepView_setConn hl ?_
      have hview : s.view i = ⟨some c, .returned r, (s.view i).rows⟩ := by
        simp only [view, hc, hpc]
      rw [hview]
      exact .resume _ hcalling hs
    next => cases h
  next => cases h

/-- The step lemma of the views. -/
theorem step_view {a : TelemetryAct n} (hl : Lined s)
    (h : step cfg a s = some s') : StepView cfg s s' := by
  cases a with
  | accept i =>
      simp only [step] at h
      split at h
      next hc =>
        injection h with h
        rw [← h]
        refine stepView_setConn hl ?_
        have hview : s.view i = ⟨none, s.pool.pc i, (s.view i).rows⟩ := by
          simp only [view, hc]
        rw [hview]
        exact .accept _ _
      next => cases h
  | arrive i bs => exact peerStep_view (a := .arrive bs) hl nofun h
  | close i e => exact peerStep_view (a := .close e) hl nofun h
  | run i io => exact runStep_view hl h
  | call i => exact callStep_view hl h
  | db i answer => exact dbStep_view hl h
  | resume i what => exact resumeStep_view hl h
  | lose slot =>
      injection h with h
      rw [← h]
      exact ⟨hl, .inl fun j => rfl⟩

/-- The invariant rule for views: what a connection has before it is
accepted, and each of its moves keeps, it always has. -/
theorem view_invariant {Inv : Fin n → ConnView → Prop}
    (hinit : ∀ i, Inv i ⟨none, .idle, []⟩)
    (hmove : ∀ {i : Fin n} {v v' : ConnView}, Inv i v →
      ViewMove (cfg.session i) v v' → Inv i v')
    (hr : Reachable (step cfg) init s) : Lined s ∧ ∀ i, Inv i (s.view i) := by
  induction hr with
  | init => exact ⟨rfl, hinit⟩
  | step a _ hs ih =>
      obtain ⟨hl, hi⟩ := ih
      obtain ⟨hl', hsame | ⟨i, hm, hothers⟩⟩ := step_view hl hs
      · exact ⟨hl', fun j => hsame j ▸ hi j⟩
      · refine ⟨hl', fun j => ?_⟩
        by_cases hj : j = i
        · rw [hj]
          exact hmove (hi i) hm
        · rw [hothers j hj]
          exact hi j

-- =========================================================== the invariant

/-- Where the call of `q` can stand, given whether its row has been
committed. -/
def CallAt (q : Insert) (stored : Bool) : InsertPc → Prop
  | .idle => False
  | .semAcquire q' | .locked q' | .beginWork q' _ | .execInsert q' _
  | .commit q' _ => q' = q ∧ stored = false
  | .release _ r | .returned r => r = .ok → stored = true

/-- The row of the call in progress, if it has been committed. -/
def pendingRow (q : Insert) (stored : Bool) : List Insert :=
  if stored then [q] else []

/-- A move of the call, with the rows it commits. -/
theorem CallAt.move {q : Insert} {stored : Bool} {pc pc' : InsertPc}
    {new : List Insert} (h : CallAt q stored pc)
    (hm : DbPool.ThreadMove pc new pc') :
    CallAt q (if new = [] then stored else true) pc'
      ∧ pendingRow q stored ++ new
        = pendingRow q (if new = [] then stored else true) := by
  cases hm with
  | permit | lend | begun | taken =>
      exact ⟨h, List.append_nil _⟩
  | leak | beginFailed | execFailed | refused =>
      exact ⟨nofun, List.append_nil _⟩
  | committed q' l | inDoubt q' l =>
      obtain ⟨rfl, rfl⟩ := h
      exact ⟨fun _ => rfl, rfl⟩
  | released l r => exact ⟨h, List.append_nil _⟩

/-- What holds of an accepted connection: its session is one that could
have run alone, and the rows its calls committed are those of its record
and of the call in progress. -/
def ConnInv (cfg : SessionCfg) (c : Conn) (pc : InsertPc)
    (rows : List Insert) : Prop :=
  Reachable (Session.step cfg) cfg.server.handler c.session
    ∧ if c.calling then ∃ q, cfg.insert? c.session.pc = some q
        ∧ CallAt q c.stored pc
        ∧ rows = committed c.session.effects ++ pendingRow q c.stored
      else pc.inCall = false ∧ rows = committed c.session.effects

def ViewInv (cfg : SessionCfg) (v : ConnView) : Prop :=
  match v.conn with
  | none => v.pc = .idle ∧ v.rows = []
  | some c => ConnInv cfg c v.pc v.rows

theorem outcome_committed {r : CallResult} {stored : Bool} {what : String}
    (h : r = .ok → stored = true) :
    (r.outcome what stored).committed = stored := by
  cases r with
  | ok => exact (h rfl).symm
  | thrown => rfl

theorem viewInv_move {cfg : SessionCfg} {v v' : ConnView} (hi : ViewInv cfg v)
    (hm : ViewMove cfg v v') : ViewInv cfg v' := by
  cases hm with
  | accept pc rows =>
      obtain ⟨rfl, rfl⟩ := hi
      refine ⟨.init, ?_⟩
      rw [if_neg Bool.false_ne_true]
      refine ⟨rfl, ?_⟩
      cases cfg.server <;> rfl
  | @session c a session pc rows h hcommit hcalls =>
      obtain ⟨hr, hrest⟩ := hi
      refine ⟨.step a hr h, ?_⟩
      dsimp only
      rw [hcommit]
      split at hrest
      next hcalling =>
        obtain ⟨q, hq, hrest⟩ := hrest
        rw [if_pos hcalling]
        -- a coroutine inside a call stays where it is
        rcases hcalls with hnone | hpc
        · rw [hnone] at hq
          cases hq
        · exact ⟨q, hpc ▸ hq, hrest⟩
      next hcalling =>
        rw [if_neg hcalling]
        exact hrest
  | call rows hq hc hpc =>
      obtain ⟨hr, hrest⟩ := hi
      rw [if_neg (by rw [hc]; exact Bool.false_ne_true)] at hrest
      refine ⟨hr, ?_⟩
      rw [if_pos rfl]
      exact ⟨_, hq, ⟨rfl, rfl⟩, hrest.2.trans (List.append_nil _).symm⟩
  | @db c pc pc' new rows hm =>
      obtain ⟨hr, hrest⟩ := hi
      refine ⟨hr, ?_⟩
      dsimp only
      split at hrest
      next hcalling =>
        obtain ⟨q, hq, hat, hrows⟩ := hrest
        obtain ⟨hat', hpending⟩ := hat.move hm
        rw [if_pos hcalling]
        refine ⟨q, hq, hat', ?_⟩
        rw [← hpending, ← List.append_assoc]
        exact congrArg (· ++ new) hrows
      next =>
        -- no call, no move
        have hin := hrest.1
        cases hm <;> cases hin
  | @resume c r what session rows hc h =>
      obtain ⟨hr, hrest⟩ := hi
      rw [if_pos hc] at hrest
      obtain ⟨q, hq, hat, hrows⟩ := hrest
      refine ⟨.step _ hr h, ?_⟩
      rw [if_neg Bool.false_ne_true]
      have hrun : c.session.run cfg none (r.outcome what c.stored)
          = some session := h
      refine ⟨rfl, hrows.trans ?_⟩
      rw [Session.committed_insert hq hrun, outcome_committed hat]
      rfl

/-- Every connection at every moment. -/
theorem viewInv_reachable (hr : Reachable (step cfg) init s) :
    Lined s ∧ ∀ i, ViewInv (cfg.session i) (s.view i) :=
  view_invariant (fun _ => ⟨rfl, rfl⟩) viewInv_move hr

/-- The rows of an accepted connection are a ledger of the frames its
peer has sent. -/
theorem ConnInv.ledger {cfg : SessionCfg} {c : Conn} {pc : InsertPc}
    {rows : List Insert} (h : ConnInv cfg c pc rows) :
    Ledger cfg c.session.frames rows
      ∧ wires c.session.frames <+: c.session.received := by
  obtain ⟨hr, hrest⟩ := h
  split at hrest
  next =>
    obtain ⟨q, hq, -, hrows⟩ := hrest
    -- let the call come out with what it has done so far
    obtain ⟨s', hs, hframes, hreceived⟩ :=
      Session.run_insert hq (.threw "" c.stored)
    have hr' : Reachable (Session.step cfg) cfg.server.handler s' :=
      .step (.run none (.threw "" c.stored)) hr hs
    have hledger := (Session.started_reachable hr').ledger
    rw [Session.committed_insert hq hs, hframes, hreceived] at hledger
    rw [hrows]
    exact hledger
  next =>
    rw [hrest.2]
    exact (Session.started_reachable hr).ledger

-- ============================================================ the theorems

/-- Each connection is served as if it were alone. In every state the
server can get into, with any number of connections on one pool, any
interleaving, any failures of the sockets, of the database and of its
connections: the session of each connection is one that could have come
about without the others; every row of the database has been committed
for one connection; and the rows committed for a connection are, in
order, those its session's record says are committed, and after them that
of its call in progress if it has committed already. -/
theorem sessions_isolated (hr : Reachable (step cfg) init s) :
    s.committers.length = s.pool.rows.length
      ∧ ∀ i, (s.conn i = none → ownRows s.pool.rows s.committers i = [])
        ∧ ∀ c, s.conn i = some c →
          Reachable (Session.step (cfg.session i)) cfg.server.handler
              c.session
            ∧ ownRows s.pool.rows s.committers i
              = committed c.session.effects
                ++ if c.calling && c.stored then
                  ((cfg.session i).insert? c.session.pc).toList else [] := by
  obtain ⟨hl, hviews⟩ := viewInv_reachable hr
  refine ⟨hl, fun i => ⟨fun hnone => ?_, fun c hc => ?_⟩⟩
  · have hi := hviews i
    simp only [ViewInv, view, hnone] at hi
    exact hi.2
  · have hi := hviews i
    simp only [ViewInv, view, hc] at hi
    obtain ⟨hreach, hrest⟩ := hi
    refine ⟨hreach, ?_⟩
    split at hrest
    next hcalling =>
      obtain ⟨q, hq, -, hrows⟩ := hrest
      rw [hrows, hq, hcalling]
      rfl
    next hcalling => simp [hrest.2, hcalling]

/-- Two connections, every token taken. -/
def twoPeers : ServerCfg 2 where
  server := .tcp
  validate := fun _ => openDoor
  peerIp := fun i => if i.val = 0 then "10.0.0.1" else "10.0.0.2"

/-- A connection's repository call, from its entry to its return. -/
def wholeInsert (i : Fin 2) : List (TelemetryAct 2) :=
  .call i :: (List.replicate 6 (.db i .ok) ++ [.resume i ""])

/-- Peer `i` authenticates and sends a reading; meanwhile peer `j`
connects, authenticates, and its row is stored in between. -/
def twoSessions (i j : Fin 2) : List (TelemetryAct 2) :=
  [.accept i, .accept j,
    .arrive i (Frame.wire ⟨.auth, [0x65#8]⟩
      ++ Frame.wire ⟨.telemetry, List.replicate 20 0x00#8⟩),
    .arrive j (Frame.wire ⟨.auth, [0x79#8]⟩), .run i none, .run j none]
    ++ wholeInsert i ++ [.run i none] ++ wholeInsert j ++ [.run i none]
    ++ wholeInsert i

/-- What the two have stored. -/
theorem twoSessions_rows :
    (exec (step twoPeers) (twoSessions 0 1) init).map
        (fun s => (s.pool.rows, s.committers))
      = some ([.authLog ⟨"sensor", "AUTH_OK", "10.0.0.1"⟩,
          .authLog ⟨"sensor", "AUTH_OK", "10.0.0.2"⟩,
          .telemetry ⟨0, 0, 0, "sensor"⟩], [0, 1, 0]) := by
  decide +kernel

/-- Whether connection `i` is in a call, and what its session's record
says is committed. -/
def recordOf (i : Fin n) (s : TelemetryServer n) :
    Option (Bool × List Insert) :=
  (s.conn i).map fun c => (c.calling, committed c.session.effects)

/-- The rows of each of the two connections, read off the records of
their sessions. -/
theorem sessions_isolated_two :
    ∃ s, exec (step twoPeers) (twoSessions 0 1) init = some s
      ∧ s.committers.length = s.pool.rows.length
      ∧ ownRows s.pool.rows s.committers 0
        = [.authLog ⟨"sensor", "AUTH_OK", "10.0.0.1"⟩,
          .telemetry ⟨0, 0, 0, "sensor"⟩]
      ∧ ownRows s.pool.rows s.committers 1
        = [.authLog ⟨"sensor", "AUTH_OK", "10.0.0.2"⟩] := by
  have hrun : (exec (step twoPeers) (twoSessions 0 1) init).map
      (fun s => (recordOf 0 s, recordOf 1 s)) = some
        (some (false, [.authLog ⟨"sensor", "AUTH_OK", "10.0.0.1"⟩,
          .telemetry ⟨0, 0, 0, "sensor"⟩]),
        some (false, [.authLog ⟨"sensor", "AUTH_OK", "10.0.0.2"⟩])) := by
    decide +kernel
  obtain ⟨s, hs, hrecords⟩ := Option.map_eq_some_iff.mp hrun
  obtain ⟨hzero, hone⟩ := Prod.mk.inj hrecords
  obtain ⟨hlen, hown⟩ := sessions_isolated (reachable_of_exec hs)
  -- a connection out of its calls has the rows its record says
  have hrows : ∀ i rows, recordOf i s = some (false, rows) →
      ownRows s.pool.rows s.committers i = rows := by
    intro i rows hrec
    obtain ⟨c, hc, hrec⟩ := Option.map_eq_some_iff.mp hrec
    obtain ⟨hidle, hdone⟩ := Prod.mk.inj hrec
    rw [((hown i).2 c hc).2, hdone, hidle]
    exact List.append_nil _
  exact ⟨s, hs, hlen, hrows 0 _ hzero, hrows 1 _ hone⟩

/-- A ledger with a reading in it begins with the row of the accepted
AUTH frame. -/
theorem ledger_reading {cfg : SessionCfg} {fs : List Frame}
    {rows : List Insert} (h : Ledger cfg fs rows) {row : TelemetryRow}
    (hrow : .telemetry row ∈ rows) :
    ∃ f more t rest, fs = f :: more ∧ Accepted cfg f row.clientSubject
      ∧ t ∈ more ∧ t.msgType = .telemetry
      ∧ telemetryRow? t.payload row.clientSubject = some row
      ∧ rows = .authLog (cfg.authRow f.payload) :: rest := by
  cases h with
  | none => cases hrow
  | auth => simp at hrow
  | @telemetry f subject ts rest ha hts =>
      have hmem : row ∈ ts.filterMap fun t => telemetryRow? t.payload subject := by
        simpa using hrow
      obtain ⟨t, ht, hrow⟩ := List.mem_filterMap.mp hmem
      have hsubject := telemetryRow?_subject hrow
      subst hsubject
      exact ⟨f, _, t, _, rfl, ha, List.mem_append_left _ ht, hts t ht, hrow,
        rfl⟩

/-- The row of an accepted token, under the repository's validator. -/
theorem authRow_accepted {cfg : SessionCfg} {env : Option String}
    {jwt : String → String → Nat → List Byte → Except String String}
    (hv : cfg.validate = JwtValidator.validate env jwt) {f : Frame}
    {subject : String} (ha : Accepted cfg f subject) :
    cfg.authRow f.payload = ⟨subject, "AUTH_OK", cfg.peerIp⟩ := by
  have hne : subject ≠ "" := by
    have hok := ha.ok
    rw [hv] at hok
    rw [← ha.subject, hv]
    exact JwtValidator.subject_ne_empty hok
  simp only [SessionCfg.authRow, ha.ok, if_true, ha.subject, if_neg hne]

/-- The audit trail. In every state the server can get into, with the
repository's validator, whose answers may differ from one connection to
the next because tokens expire: every row of the table `telemetry` has been
committed for one connection, whose peer first sent an AUTH frame with a
token that validates for exactly the row's subject and later a TELEMETRY
frame that holds the row; and an AUTH_OK row of that subject, with that
connection's address, was committed for it before. -/
theorem audit_trail {env : Option String}
    {jwt : Fin n → String → String → Nat → List Byte → Except String String}
    (hv : ∀ i, cfg.validate i = JwtValidator.validate env (jwt i))
    (hr : Reachable (step cfg) init s) {m : Nat} {row : TelemetryRow}
    (hrow : s.pool.rows[m]? = some (.telemetry row)) :
    ∃ i c auth more t m', s.committers[m]? = some i ∧ s.conn i = some c
      ∧ wires (auth :: more) <+: c.session.received
      ∧ auth.msgType = .auth
      ∧ (JwtValidator.validate env (jwt i) auth.payload).ok = true
      ∧ (JwtValidator.validate env (jwt i) auth.payload).subject
        = row.clientSubject
      ∧ t ∈ more ∧ t.msgType = .telemetry
      ∧ telemetryRow? t.payload row.clientSubject = some row
      ∧ m' < m ∧ s.committers[m']? = some i
      ∧ s.pool.rows[m']?
        = some (.authLog ⟨row.clientSubject, "AUTH_OK", cfg.peerIp i⟩) := by
  obtain ⟨hl, hviews⟩ := viewInv_reachable hr
  have hm : m < s.committers.length := by
    rw [hl]
    exact (List.getElem?_eq_some_iff.mp hrow).1
  obtain ⟨i, hi⟩ : ∃ i, s.committers[m]? = some i :=
    ⟨_, List.getElem?_eq_getElem hm⟩
  obtain ⟨post, hown⟩ := ownRows_split hrow hi
  have hinv := hviews i
  simp only [ViewInv, view] at hinv
  split at hinv
  next => simp [hinv.2] at hown
  next c hc =>
    obtain ⟨hledger, hsent⟩ := hinv.ledger
    have hmem : .telemetry row ∈ ownRows s.pool.rows s.committers i := by
      simp [hown]
    obtain ⟨f, more, t, rest, hframes, ha, ht, htype, hdecoded, hrows⟩ :=
      ledger_reading hledger hmem
    rw [hframes] at hsent
    rw [authRow_accepted (hv i) ha] at hrows
    obtain ⟨m', hm', hi', hrow'⟩ := first_before hrow hi hrows nofun
    exact ⟨i, c, f, more, t, m', hi, hc, hsent, ha.auth, hv i ▸ ha.ok,
      hv i ▸ ha.subject, ht, htype, hdecoded, hm', hi', hrow'⟩

/-- The reading of the first peer of `twoSessions`. -/
theorem audit_trail_two :
    ∃ s i m', exec (step twoPeers) (twoSessions 0 1) init = some s
      ∧ s.pool.rows[2]? = some (.telemetry ⟨0, 0, 0, "sensor"⟩)
      ∧ m' < 2 ∧ s.committers[2]? = some i ∧ s.committers[m']? = some i
      ∧ s.pool.rows[m']?
        = some (.authLog ⟨"sensor", "AUTH_OK", twoPeers.peerIp i⟩) := by
  obtain ⟨s, hs, hend⟩ := Option.map_eq_some_iff.mp twoSessions_rows
  have hrow : s.pool.rows[2]? = some (.telemetry ⟨0, 0, 0, "sensor"⟩) := by
    rw [(Prod.mk.inj hend).1]
    rfl
  have hv : ∀ i, twoPeers.validate i
      = JwtValidator.validate (some "secret") fun _ _ _ _ => .ok "sensor" :=
    fun _ => rfl
  obtain ⟨i, c, auth, more, t, m', hi, -, -, -, -, -, -, -, -, hm', hi', hrow'⟩ :=
    audit_trail hv (reachable_of_exec hs) hrow
  exact ⟨s, i, m', hs, hrow, hm', hi, hi', hrow'⟩

end TelemetryServer

end EdgeIpc.Ats
