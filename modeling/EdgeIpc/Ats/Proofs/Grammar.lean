/-
What `deserialize` accepts against what the protocol documents
(`docs/PROTOCOL-SPEC.md`).

`Grammar` states the documented layout in its own terms: offsets, numbers
read from bytes, the CCITT polynomial. Of its six conditions `deserialize`
checks five (`deserialize_eq_ok`). It casts the type byte without looking
at it, so it agrees with the grammar exactly on the buffers that fail
another check or carry one of the four types.
-/
import EdgeIpc.Ats.Proofs.Crc

namespace EdgeIpc.Ats

open Lib

-- ============================================================ the grammar

/-- The four message types of the protocol. -/
def MsgType.Documented (t : MsgType) : Prop :=
  t.code = 0x01#8 ∨ t.code = 0x02#8 ∨ t.code = 0x03#8 ∨ t.code = 0x04#8

/-- Bytes 6..9, read big-endian. -/
def lengthField (buf : List Byte) : Nat := ofBigEndian (slice buf 6 4)

/-- The documented layout, but for the message type. -/
structure WellFormed (buf : List Byte) : Prop where
  header : 12 ≤ buf.length
  magic : slice buf 0 4 = [0x4E#8, 0x45#8, 0x58#8, 0x54#8]
  version : slice buf 4 1 = [0x01#8]
  fits : 12 + lengthField buf ≤ buf.length
  checksum : bitPoly (BitVec.ofNat 16 (ofBigEndian (slice buf 10 2)))
    = ccitt (slice buf 12 (lengthField buf))

/-- The frame a buffer holds, by the documented layout. -/
structure Grammar (buf : List Byte) (f : Frame) : Prop where
  wellFormed : WellFormed buf
  documented : f.msgType.Documented
  msgType : f.msgType.code = buf.getD 5 0#8
  payload : f.payload = slice buf 12 (lengthField buf)

-- ============================================================ acceptance

theorem lengthField_eq {buf : List Byte} (h : 12 ≤ buf.length) :
    (payloadLen buf).toNat = lengthField buf := by
  have hlt := ofBigEndian_lt (slice buf 6 4)
  rw [slice_length (by omega)] at hlt
  rw [payloadLen, BitVec.toNat_ofNat, lengthField]
  omega

/-- What `deserialize` returns, and when. -/
theorem deserialize_eq_ok {buf : List Byte} {f : Frame} :
    Frame.deserialize buf = .ok f
      ↔ WellFormed buf ∧ f.msgType.code = buf.getD 5 0#8
        ∧ f.payload = slice buf 12 (lengthField buf) := by
  constructor
  · intro h
    obtain ⟨hfit, hmagic, hversion, hcrc, rfl⟩ := deserialize_ok_checks h
    have hlen := lengthField_eq (by omega : 12 ≤ buf.length)
    rw [hlen] at hfit hcrc ⊢
    refine ⟨⟨by omega, hmagic, hversion, hfit, ?_⟩, rfl, rfl⟩
    rw [← bitPoly_crc16, hcrc]
    rfl
  · rintro ⟨hw, hcode, hpay⟩
    have hlen := lengthField_eq hw.header
    have hcrc : crc16 (slice buf 12 (lengthField buf)) = checksum buf := by
      apply bitPoly_inj
      rw [bitPoly_crc16, ← hw.checksum]
      rfl
    have hmagic : slice buf 0 4 = magic := hw.magic
    have hversion : slice buf 4 1 = [version] := hw.version
    unfold Frame.deserialize
    rw [if_neg (by have := hw.header; omega),
      if_neg (not_not.mpr hmagic), if_neg (not_not.mpr hversion)]
    simp only [hlen]
    rw [if_neg (by have := hw.fits; omega), if_neg (not_not.mpr hcrc),
      ← hcode, ← hpay]

/-- `deserialize` on a buffer is the documented grammar: it returns the
frame the buffer holds, and throws where it holds none. -/
def FollowsGrammar (buf : List Byte) : Prop :=
  (∀ f, Frame.deserialize buf = .ok f ↔ Grammar buf f)
    ∧ ((¬ ∃ f, Grammar buf f) →
      ∃ what, Frame.deserialize buf = .error what)

/-- `deserialize` follows the grammar exactly on the buffers that are
not well-formed in the other respects or carry a documented type. -/
theorem followsGrammar_iff (buf : List Byte) :
    FollowsGrammar buf
      ↔ (WellFormed buf → MsgType.Documented ⟨buf.getD 5 0#8⟩) := by
  constructor
  · intro h hw
    have hok : Frame.deserialize buf
        = .ok ⟨⟨buf.getD 5 0#8⟩, slice buf 12 (lengthField buf)⟩ :=
      deserialize_eq_ok.mpr ⟨hw, rfl, rfl⟩
    exact ((h.1 _).mp hok).documented
  · intro h
    have hiff : ∀ f, Frame.deserialize buf = .ok f ↔ Grammar buf f := by
      intro f
      rw [deserialize_eq_ok]
      constructor
      · rintro ⟨hw, hcode, hpay⟩
        refine ⟨hw, ?_, hcode, hpay⟩
        have hdoc := h hw
        rwa [← hcode] at hdoc
      · intro hg
        exact ⟨hg.wellFormed, hg.msgType, hg.payload⟩
    refine ⟨hiff, fun hnone => ?_⟩
    cases hd : Frame.deserialize buf with
    | ok f => exact absurd ⟨f, (hiff f).mp hd⟩ hnone
    | error what => exact ⟨what, rfl⟩

/-- An empty frame of type 5. -/
def unknownType : List Byte :=
  [0x4E#8, 0x45#8, 0x58#8, 0x54#8, 0x01#8, 0x05#8, 0x00#8, 0x00#8, 0x00#8,
    0x00#8, 0xFF#8, 0xFF#8]

/-- It is no documented frame, and `deserialize` returns it. -/
theorem unknownType_accepted :
    ¬ FollowsGrammar unknownType
      ∧ (¬ ∃ f, Grammar unknownType f)
      ∧ Frame.deserialize unknownType = .ok ⟨⟨0x05#8⟩, []⟩ := by
  have hok : Frame.deserialize unknownType = .ok ⟨⟨0x05#8⟩, []⟩ := by decide
  have hnone : ¬ ∃ f, Grammar unknownType f := by
    rintro ⟨f, hg⟩
    have hcode : f.msgType.code = 0x05#8 := hg.msgType
    have hdoc := hg.documented
    unfold MsgType.Documented at hdoc
    rw [hcode] at hdoc
    revert hdoc
    decide
  exact ⟨fun h => hnone ⟨_, (h.1 _).mp hok⟩, hnone, hok⟩

end EdgeIpc.Ats
