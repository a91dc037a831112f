/-
What a session does depends on the bytes its peer sent, not on how they
came: in which portions, and how early or late with respect to the
session's own steps.

A step of the session that is enabled stays enabled, and does the same,
when more of the stream has arrived already (`run_fed`): a frame that was
whole is whole, and what was malformed is malformed. So in any run the
arrivals can be moved to the front and put together into one
(`front_loaded`), and two runs with the same bytes, the same end of
stream and the same answers are then the same run.
-/
import EdgeIpc.Ats.Proofs.SessionSafety
import EdgeIpc.Ats.Server

namespace EdgeIpc.Ats.Session

open Lib

variable {cfg : SessionCfg} {s s' : Session}

-- ============================================================ the arrivals

/-- The session with more of the stream arrived. -/
def fed (bs : List Byte) (e : Option SysError) (s : Session) : Session :=
  { s with
    inbox := s.inbox ++ bs
    received := s.received ++ bs
    closed := e }

theorem feed_eq {bs : List Byte} {e : Option SysError}
    (h : s.feed bs e = some s') : s.closed = none ∧ s' = s.fed bs e := by
  unfold feed at h
  split at h
  next => cases h
  next hopen =>
    injection h with h
    refine ⟨?_, h.symm⟩
    simpa using (not_or.mp hopen).2

theorem fed_fed (bs bs' : List Byte) (e e' : Option SysError)
    (s : Session) : (s.fed bs e).fed bs' e' = s.fed (bs ++ bs') e' := by
  simp only [fed, List.append_assoc]

theorem fed_nil (h : s.closed = none) : s.fed [] none = s := by
  cases s
  simp only [fed, List.append_nil]
  cases h
  rfl

-- ===================================================== a step and arrivals

section Commute

variable (bs : List Byte) (e : Option SysError)

theorem read_fed {k : Frame → SessionPc} (hopen : s.closed = none)
    (h : s.read cfg k = some s') :
    (s.fed bs e).read cfg k = some (s'.fed bs e) := by
  unfold read at h ⊢
  rw [Endpoint.readFrame_eq] at h ⊢
  have hinbox : (s.fed bs e).inbox = s.inbox ++ bs := rfl
  rw [hinbox]
  cases hr : readFrameOn s.inbox with
  | ok x =>
      obtain ⟨hsize, hin⟩ := readFrameOn_ok_iff.mp hr
      have hmore : readFrameOn (s.inbox ++ bs) = .ok (x.1, x.2 ++ bs) := by
        refine readFrameOn_ok_iff.mpr ⟨hsize, ?_⟩
        rw [hin, List.append_assoc]
      rw [hr] at h
      injection h with h
      rw [hmore, ← h]
      rfl
  | error err =>
      rw [hr] at h
      cases err with
      | eof =>
          rw [hopen] at h
          cases h
      | invalidArgument what =>
          rw [readFrameOn_append_error hr nofun]
          injection h with h
          rw [← h]
          rfl
      | outOfBounds =>
          rw [readFrameOn_append_error hr nofun]
          injection h with h
          rw [← h]
          rfl

theorem write_fed (cfg : SessionCfg) (f : Frame) (io : Option SysError)
    (next : SessionPc) (s : Session) :
    (s.fed bs e).write cfg f io next = (s.write cfg f io next).fed bs e := by
  unfold write
  split
  next => rfl
  next => cases io <;> rfl

theorem call_fed (cfg : SessionCfg) (eff : Effect) (db : DbOutcome)
    (next : SessionPc) (s : Session) :
    (s.fed bs e).call cfg eff db next = (s.call cfg eff db next).fed bs e := by
  cases db <;> rfl

/-- What the session can do it can do with more of the stream there. -/
theorem run_fed {io : Option SysError} {db : DbOutcome}
    (hopen : s.closed = none) (h : s.run cfg io db = some s') :
    (s.fed bs e).run cfg io db = some (s'.fed bs e) := by
  have hpc : (s.fed bs e).pc = s.pc := rfl
  unfold run at h ⊢
  rw [hpc]
  cases hs : s.pc with
  | handshake =>
      rw [hs] at h
      cases io <;> injection h with h <;> rw [← h] <;> rfl
  | readAuth =>
      rw [hs] at h
      exact read_fed bs e hopen h
  | insertAuth token =>
      rw [hs] at h
      injection h with h
      rw [← h]
      exact congrArg some (call_fed bs e ..)
  | writeError =>
      rw [hs] at h
      injection h with h
      rw [← h]
      exact congrArg some (write_fed bs e ..)
  | writeAuthAck subject =>
      rw [hs] at h
      injection h with h
      rw [← h]
      exact congrArg some (write_fed bs e ..)
  | readTelemetry subject =>
      rw [hs] at h
      exact read_fed bs e hopen h
  | insertTelemetry subject row =>
      rw [hs] at h
      injection h with h
      rw [← h]
      exact congrArg some (call_fed bs e ..)
  | writeAck subject =>
      rw [hs] at h
      injection h with h
      rw [← h]
      exact congrArg some (write_fed bs e ..)
  | done | undefined =>
      rw [hs] at h
      cases h

end Commute

-- ======================================================== the normal form

theorem read_stream {k : Frame → SessionPc} (h : s.read cfg k = some s') :
    s'.received = s.received ∧ s'.closed = s.closed := by
  unfold read at h
  split at h
  next =>
    injection h with h
    rw [← h]
    exact ⟨rfl, rfl⟩
  next =>
    obtain ⟨e, -, h⟩ := Option.map_eq_some_iff.mp h
    rw [← h]
    exact ⟨rfl, rfl⟩
  next =>
    injection h with h
    rw [← h]
    exact ⟨rfl, rfl⟩
  next =>
    injection h with h
    rw [← h]
    exact ⟨rfl, rfl⟩

theorem write_stream (cfg : SessionCfg) (f : Frame) (io : Option SysError)
    (next : SessionPc) (s : Session) :
    (s.write cfg f io next).received = s.received
      ∧ (s.write cfg f io next).closed = s.closed := by
  unfold write
  split
  next => exact ⟨rfl, rfl⟩
  next => cases io <;> exact ⟨rfl, rfl⟩

theorem call_stream (cfg : SessionCfg) (e : Effect) (db : DbOutcome)
    (next : SessionPc) (s : Session) :
    (s.call cfg e db next).received = s.received
      ∧ (s.call cfg e db next).closed = s.closed := by
  cases db <;> exact ⟨rfl, rfl⟩

/-- The stream is the peer's: the session takes from what has arrived,
and that is all. -/
theorem run_stream {io : Option SysError} {db : DbOutcome}
    (h : s.run cfg io db = some s') :
    s'.received = s.received ∧ s'.closed = s.closed := by
  unfold run at h
  split at h
  next => cases io <;> injection h with h <;> rw [← h] <;> exact ⟨rfl, rfl⟩
  next => exact read_stream h
  next =>
    injection h with h
    exact h ▸ call_stream ..
  next =>
    injection h with h
    exact h ▸ write_stream ..
  next =>
    injection h with h
    exact h ▸ write_stream ..
  next => exact read_stream h
  next =>
    injection h with h
    exact h ▸ call_stream ..
  next =>
    injection h with h
    exact h ▸ write_stream ..
  next => cases h
  next => cases h

/-- An action of the session, not of its peer. -/
def isRun : SessionAct → Bool
  | .run _ _ => true
  | _ => false

/-- On a stream that has ended there are no other actions. -/
theorem exec_closed {e : SysError} :
    ∀ {as : List SessionAct} {s s' : Session}, s.closed = some e →
      exec (step cfg) as s = some s' →
      as.filter isRun = as ∧ s'.received = s.received
        ∧ s'.closed = s.closed
  | [], s, s', _, h => by
      simp only [exec, Option.some.injEq] at h
      exact h ▸ ⟨rfl, rfl, rfl⟩
  | a :: as, s, s', hc, h => by
      obtain ⟨s₁, hs, hrest⟩ := exec_cons_some h
      cases a with
      | arrive bs =>
          rw [(feed_eq hs).1] at hc
          cases hc
      | close e' =>
          rw [(feed_eq hs).1] at hc
          cases hc
      | run io db =>
          obtain ⟨hr₁, hc₁⟩ := run_stream hs
          obtain ⟨hruns, hr, hc'⟩ := exec_closed (hc₁.trans hc) hrest
          exact ⟨congrArg (_ :: ·) hruns, hr.trans hr₁, hc'.trans hc₁⟩

/-- Everything that arrives in a run can have arrived before it. -/
theorem front_loaded :
    ∀ {as : List SessionAct} {s s' : Session}, s.closed = none →
      exec (step cfg) as s = some s' →
      ∃ bs, s'.received = s.received ++ bs
        ∧ exec (step cfg) (as.filter isRun) (s.fed bs s'.closed) = some s'
  | [], s, s', hc, h => by
      simp only [exec, Option.some.injEq] at h
      subst h
      refine ⟨[], (List.append_nil _).symm, ?_⟩
      rw [hc, fed_nil hc]
      rfl
  | a :: as, s, s', hc, h => by
      obtain ⟨s₁, hs, hrest⟩ := exec_cons_some h
      cases a with
      | arrive bs =>
          obtain ⟨-, rfl⟩ := feed_eq hs
          obtain ⟨more, hr, hruns⟩ := front_loaded rfl hrest
          refine ⟨bs ++ more, hr.trans (List.append_assoc ..), ?_⟩
          rw [fed_fed] at hruns
          exact hruns
      | close e =>
          obtain ⟨-, rfl⟩ := feed_eq hs
          obtain ⟨hall, hr, hc'⟩ := exec_closed rfl hrest
          refine ⟨[], hr, ?_⟩
          show exec (step cfg) (as.filter isRun) _ = some s'
          rw [hall, hc']
          exact hrest
      | run io db =>
          obtain ⟨hr₁, hc₁⟩ := run_stream hs
          obtain ⟨bs, hr, hruns⟩ := front_loaded (hc₁.trans hc) hrest
          refine ⟨bs, hr₁ ▸ hr, ?_⟩
          have hfirst : step cfg (.run io db) (s.fed bs s'.closed)
              = some (s₁.fed bs s'.closed) := run_fed bs _ hc hs
          exact (exec_cons_of hfirst).trans hruns

-- ============================================================= the theorem

/-- Chunking is irrelevant. Take two runs of a session of either server,
of any length, in which the peer's bytes arrive in any portions and at
any times. If by their ends the same bytes have arrived, the streams have
ended alike or not at all, and the session's own steps met the same
answers of the socket and the database in the same order, then the two
end in the same state: the same frames read, the same bytes written, the
same repository calls and log lines. -/
theorem chunking_irrelevant {as bs : List SessionAct} {s t : Session}
    (hs : exec (step cfg) as cfg.server.handler = some s)
    (ht : exec (step cfg) bs cfg.server.handler = some t)
    (hbytes : s.received = t.received) (hend : s.closed = t.closed)
    (hanswers : as.filter isRun = bs.filter isRun) : s = t := by
  have hopen : cfg.server.handler.closed = none := by
    cases cfg.server <;> rfl
  obtain ⟨xs, hxs, hruns⟩ := front_loaded hopen hs
  obtain ⟨ys, hys, hruns'⟩ := front_loaded hopen ht
  have hsame : xs = ys := by
    rw [hxs, hys] at hbytes
    exact List.append_cancel_left hbytes
  rw [hsame, hend, hanswers, hruns'] at hruns
  injection hruns with hruns
  exact hruns.symm

/-- A handshake, and then the AUTH frame byte by byte and a reading, with
the session at work in between. -/
def dribble (payload : List Byte) : List SessionAct :=
  .run none .ok :: ((Frame.wire ⟨.auth, [0x65#8, 0x79#8]⟩).map fun b =>
      SessionAct.arrive [b])
    ++ [.run none .ok, .run none .ok,
      .arrive (Frame.wire ⟨.telemetry, payload⟩)]
    ++ List.replicate 4 (.run none .ok)

/-- It comes to the same as when everything arrives at once. -/
theorem dribble_eq_oneReading :
    ∃ s t, exec (step ⟨.tls, openDoor, "127.0.0.1"⟩)
        (.run none .ok :: oneReading (List.replicate 20 0x00#8) 6)
        TlsServer.handleTlsSession = some s
      ∧ exec (step ⟨.tls, openDoor, "127.0.0.1"⟩)
        (dribble (List.replicate 20 0x00#8)) TlsServer.handleTlsSession
          = some t
      ∧ s = t := by
  have hs : (exec (step ⟨.tls, openDoor, "127.0.0.1"⟩)
      (.run none .ok :: oneReading (List.replicate 20 0x00#8) 6)
      TlsServer.handleTlsSession).map (fun s => (s.received, s.closed))
      = some (Frame.wire ⟨.auth, [0x65#8, 0x79#8]⟩
        ++ Frame.wire ⟨.telemetry, List.replicate 20 0x00#8⟩, none) := by
    decide +kernel
  have ht : (exec (step ⟨.tls, openDoor, "127.0.0.1"⟩)
      (dribble (List.replicate 20 0x00#8))
      TlsServer.handleTlsSession).map (fun s => (s.received, s.closed))
      = some (Frame.wire ⟨.auth, [0x65#8, 0x79#8]⟩
        ++ Frame.wire ⟨.telemetry, List.replicate 20 0x00#8⟩, none) := by
    decide +kernel
  obtain ⟨s, hs, heq⟩ := Option.map_eq_some_iff.mp hs
  obtain ⟨t, ht, heq'⟩ := Option.map_eq_some_iff.mp ht
  obtain ⟨hbytes, hend⟩ := Prod.mk.inj (heq.trans heq'.symm)
  exact ⟨s, t, hs, ht, chunking_irrelevant hs ht hbytes hend (by decide)⟩

end EdgeIpc.Ats.Session
