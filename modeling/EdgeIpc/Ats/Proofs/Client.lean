/-
What each side of a link does on its own: the 20 bytes of a reading and
the row they are stored as, and how a client's and a session's calls run
against an input that may still be arriving.

# Whole frames only

A frame of which bytes are still on their way makes the read wait
(`read_waits`), so a side that moves has the whole frame in its inbox
(`read_arriving`). The two sides' lemmas are stated alike, and carry the
same names in their own namespaces.
-/
import EdgeIpc.Ats.Client
import EdgeIpc.Ats.Proofs.SessionAcks

namespace EdgeIpc.Ats

open Lib

-- ============================================================ the reading

/-- The 20 bytes of a reading. -/
def SensorFrame.bytes (sf : SensorFrame) : List Byte :=
  toHost 4 sf.sensorId.toNat ++ toHost 8 sf.timestampUs.toNat
    ++ toHost 8 sf.value.toNat

/-- The row a reading is to be stored as. -/
def SensorFrame.row (subject : String) (sf : SensorFrame) : TelemetryRow :=
  { sensorId := sf.sensorId
    timestampUs := sf.timestampUs
    value := sf.value
    clientSubject := subject }

@[simp]
theorem toHost_length (n v : Nat) : (toHost n v).length = n := by
  simp [toHost]

/-- A field stored and loaded on hosts of the same byte order. -/
theorem ofHost_toHost {w n : Nat} (hw : 256 ^ n = 2 ^ w) (v : BitVec w) :
    BitVec.ofNat w (ofHost (toHost n v.toNat)) = v := by
  have hlt : v.toNat < 256 ^ n := hw ▸ v.isLt
  rw [ofHost, toHost, List.reverse_reverse, ofBigEndian_bigEndian,
    Nat.mod_eq_of_lt hlt, BitVec.ofNat_toNat, BitVec.setWidth_eq]

@[simp]
theorem bytes_length (sf : SensorFrame) : sf.bytes.length = 20 := by
  simp [SensorFrame.bytes]

/-- The three stores fill the buffer. -/
theorem sensorFrame_serialize (sf : SensorFrame) :
    sf.serialize = some sf.bytes := by
  have hbuf : List.replicate (4 + 8 + 8) (0#8 : Byte)
      = [] ++ (List.replicate 4 0#8 ++ (List.replicate 8 0#8
        ++ List.replicate 8 0#8)) := rfl
  unfold SensorFrame.serialize
  simp only [hbuf, Option.bind_eq_bind]
  rw [emit_append (by rfl) (by simp), Option.bind_some,
    emit_append (by simp) (by simp), Option.bind_some,
    ← List.append_nil (_ ++ List.replicate 8 0#8),
    write_append (by simp) (by simp)]
  simp [SensorFrame.bytes]

/-- The server's decoder mirrors the client's encoder. -/
theorem telemetryRow?_bytes (subject : String) (sf : SensorFrame) :
    telemetryRow? sf.bytes subject = some (sf.row subject) := by
  have h₁ : slice ([] ++ toHost 4 sf.sensorId.toNat
      ++ (toHost 8 sf.timestampUs.toNat ++ toHost 8 sf.value.toNat)) 0 4
      = toHost 4 sf.sensorId.toNat :=
    slice_append rfl (toHost_length ..)
  have h₂ : slice sf.bytes 4 8 = toHost 8 sf.timestampUs.toNat :=
    slice_append (toHost_length ..) (toHost_length ..)
  have h₃ : slice (toHost 4 sf.sensorId.toNat
      ++ toHost 8 sf.timestampUs.toNat ++ toHost 8 sf.value.toNat ++ []) 12 8
      = toHost 8 sf.value.toNat :=
    slice_append (by simp) (toHost_length ..)
  rw [List.nil_append, ← List.append_assoc] at h₁
  rw [List.append_nil] at h₃
  unfold telemetryRow?
  rw [if_pos (by rw [bytes_length]), SensorFrame.bytes, h₁, h₃]
  rw [SensorFrame.bytes] at h₂
  rw [h₂, ofHost_toHost (by rfl), ofHost_toHost (by rfl),
    ofHost_toHost (by rfl)]
  rfl

-- =========================================================== one side each

namespace Client

variable {cfg : ClientCfg} {c c' : Client} {k : Frame → Client → Client}

theorem read_waits (he : readFrameOn c.inbox = .error .eof)
    (hopen : c.closed = none) : c.read k = none := by
  unfold read TelemetryClient.readFramePlain
  rw [he]
  show c.closed.map _ = none
  rw [hopen]
  rfl

theorem read_wire {f : Frame} (hw : 12 + f.payload.length < 2 ^ 32)
    (hin : c.inbox = f.wire) :
    c.read k = some (k f { c with inbox := [] }) := by
  have hr : readFrameOn c.inbox = .ok (f, []) :=
    readFrameOn_ok_iff.mpr ⟨hw, by rw [hin, List.append_nil]⟩
  unfold read TelemetryClient.readFramePlain
  rw [hr]

/-- A client that reads a frame under way has it all. -/
theorem read_arriving {f : Frame} {down : List Byte}
    (hw : 12 + f.payload.length < 2 ^ 32) (hin : c.inbox ++ down = f.wire)
    (hopen : down ≠ [] → c.closed = none) (h : c.read k = some c') :
    down = [] ∧ c' = k f { c with inbox := [] } := by
  rcases readFrameOn_arriving hw hin with ⟨hnil, -⟩ | ⟨hne, heof⟩
  · rw [hnil, List.append_nil] at hin
    rw [read_wire hw hin] at h
    injection h with h
    exact ⟨hnil, h.symm⟩
  · rw [read_waits heof (hopen hne)] at h
    cases h

theorem write_some {f : Frame} {bytes : List Byte}
    (hf : f.serialize = some bytes) (g : Client → Client) :
    c.write f none g = g { c with outbox := c.outbox ++ bytes } := by
  unfold write TelemetryClient.writeFramePlain
  rw [hf]

theorem write_none {f : Frame} (hf : f.serialize = none)
    (g : Client → Client) :
    c.write f none g = { c with pc := .undefined } := by
  unfold write TelemetryClient.writeFramePlain
  rw [hf]

/-- The next reading goes out whole. -/
theorem run_writeTelemetry {sf : SensorFrame} {todo : List SensorFrame}
    (hpc : c.pc = .writeTelemetry sf todo) :
    c.run cfg none = some { c with
      pc := .readAck todo
      outbox := c.outbox ++ (telemetryFrame sf.bytes).wire
      sent := c.sent ++ [sf] } := by
  have hser : (telemetryFrame sf.bytes).serialize
      = some (telemetryFrame sf.bytes).wire :=
    serialize_eq_wire (by simp [telemetryFrame])
  unfold run
  rw [hpc]
  simp only [sensorFrame_serialize, write_some hser]

theorem run_finished (h : c.finished = true) : c.run cfg none = none := by
  unfold finished at h
  unfold run
  split at h
  next hpc => rw [hpc]
  next hpc => rw [hpc]
  next => cases h

theorem read_keeps_closed (hk : ∀ f c, (k f c).closed = c.closed)
    (h : c.read k = some c') : c'.closed = c.closed := by
  unfold read at h
  split at h
  next f rest _ =>
    injection h with h
    exact h ▸ hk f { c with inbox := rest }
  next =>
    obtain ⟨e, -, rfl⟩ := Option.map_eq_some_iff.mp h
    rfl
  next =>
    injection h with h
    exact h ▸ rfl
  next =>
    injection h with h
    exact h ▸ rfl

/-- The end of the stream is the other side's doing. -/
theorem run_keeps_closed (h : c.run cfg none = some c') :
    c'.closed = c.closed := by
  have hwrite (f : Frame) (g : Client → Client)
      (hg : ∀ c, (g c).closed = c.closed) :
      (c.write f none g).closed = c.closed := by
    unfold write
    split
    next => rfl
    next => exact hg _
  unfold run at h
  cases hpc : c.pc with
  | writeAuth =>
      rw [hpc] at h
      injection h with h
      exact h ▸ hwrite _ _ fun _ => rfl
  | readAuthAck =>
      rw [hpc] at h
      refine read_keeps_closed (fun f c => ?_) h
      unfold onAuthAck
      split <;> rfl
  | writeTelemetry sf todo =>
      simp only [hpc, sensorFrame_serialize] at h
      rw [Option.some.injEq] at h
      exact h ▸ hwrite _ _ fun _ => rfl
  | readAck todo =>
      rw [hpc] at h
      exact read_keeps_closed (k := onAck todo) (fun _ _ => rfl) h
  | done | threw | undefined =>
      rw [hpc] at h
      cases h

end Client

namespace Session

variable {cfg : SessionCfg} {s s' : Session} {k : Frame → SessionPc}

theorem read_waits (he : readFrameOn s.inbox = .error .eof)
    (hopen : s.closed = none) : s.read cfg k = none := by
  unfold read
  rw [Endpoint.readFrame_eq, he]
  show s.closed.map _ = none
  rw [hopen]
  rfl

theorem read_ok {f : Frame} {rest : List Byte}
    (hr : readFrameOn s.inbox = .ok (f, rest)) :
    s.read cfg k = some { s with
      pc := k f, inbox := rest, frames := s.frames ++ [f] } := by
  unfold read
  rw [Endpoint.readFrame_eq, hr]

/-- A session that reads a frame under way has it all. -/
theorem read_arriving {f : Frame} {up : List Byte}
    (hw : 12 + f.payload.length < 2 ^ 32) (hin : s.inbox ++ up = f.wire)
    (hopen : s.closed = none) (h : s.read cfg k = some s') :
    up = [] ∧ s' = { s with
      pc := k f, inbox := [], frames := s.frames ++ [f] } := by
  rcases readFrameOn_arriving hw hin with ⟨hnil, hr⟩ | ⟨-, heof⟩
  · rw [read_ok hr] at h
    injection h with h
    exact ⟨hnil, h.symm⟩
  · rw [read_waits heof hopen] at h
    cases h

/-- A frame without payload, written onto a reliable channel. -/
theorem write_ok {f : Frame} (hf : f.payload = []) (next : SessionPc) :
    s.write cfg f none next = { s with
      pc := next
      outbox := s.outbox ++ f.wire
      effects := s.effects ++ [.write f none] } := by
  unfold write
  rw [writeFrame_empty cfg.server hf]

theorem run_keeps_closed {io : Option SysError} {db : DbOutcome}
    (h : s.run cfg io db = some s') : s'.closed = s.closed := by
  have hwrite (f : Frame) (next : SessionPc) (hf : f.payload = []) :
      (s.write cfg f io next).closed = s.closed := by
    rcases write_eq cfg hf io next s with ⟨-, heq⟩ | ⟨e, logs, -, -, heq⟩
    · rw [heq]
    · rw [heq]
  have hcall (e : Effect) (next : SessionPc) :
      (s.call cfg e db next).closed = s.closed := by
    rcases call_eq cfg e db next s with ⟨-, heq⟩ | ⟨_, _, _, -, -, heq⟩
    · rw [heq]
    · rw [heq]
  unfold run at h
  cases hpc : s.pc with
  | handshake =>
      rw [hpc] at h
      cases io <;> cases h <;> rfl
  | readAuth | readTelemetry =>
      rw [hpc] at h
      cases read_cases h with
      | frame | fail | outOfBounds => rfl
  | insertAuth | insertTelemetry =>
      rw [hpc] at h
      injection h with h
      exact h ▸ hcall _ _
  | writeError | writeAuthAck | writeAck =>
      rw [hpc] at h
      injection h with h
      exact h ▸ hwrite _ _ rfl
  | done | undefined =>
      rw [hpc] at h
      cases h

end Session

end EdgeIpc.Ats
