/-
The frame checksum: `crc16` is the remainder of a division by the CCITT
polynomial, and with it `deserialize` notices every short burst of errors
in a payload.

The register of `crc16` is the one of Lib/Crc.lean, sixteen bits wide,
with taps `0x1021`: the source widens to 32 bits to shift and narrows
again, which changes nothing (`crcBit_eq`). It starts from all ones, so
the message is divided as if sixteen ones stood in front of it.

A corrupted payload still has its length and its header, so nothing but
the checksum stands between it and being accepted.
-/
import EdgeIpc.Ats.Proofs.Codec
import EdgeIpc.Lib.Crc

namespace EdgeIpc.Ats

open Lib Polynomial

-- ============================================================ the register

/-- The taps: `0x1021`, the polynomial without its leading term. -/
def ccittTaps : BitVec 16 := 0x1021#16

theorem crcBit_eq (crc : BitVec 16) :
    crcBit crc = shiftBit ccittTaps crc := by
  have hmsb : crc &&& 0x8000#16 ≠ 0#16 ↔ crc.msb = true := by
    rw [show 0x8000#16 = BitVec.twoPow 16 15 from rfl, BitVec.and_twoPow,
      BitVec.msb_eq_getLsbD_last]
    cases crc.getLsbD 15 <;> decide
  have hshift : (crc.setWidth 32 <<< 1).setWidth 16 = crc <<< 1 := by
    apply BitVec.eq_of_getLsbD_eq
    intro i hi
    simp only [BitVec.getLsbD_setWidth, BitVec.getLsbD_shiftLeft]
    have h32 : i < 32 := by omega
    have hpred : i - 1 < 32 := by omega
    simp only [hi, h32, hpred, decide_true, Bool.true_and]
  unfold crcBit shiftBit
  simp only [hmsb, BitVec.setWidth_xor, hshift]
  rfl

theorem crcByte_eq (crc : BitVec 16) (b : Byte) :
    crcByte crc b = absorb ccittTaps crc b := by
  rw [crcByte, funext crcBit_eq]
  rfl

theorem crc16_eq (data : List Byte) :
    crc16 data = data.foldl (absorb ccittTaps) 0xFFFF#16 := by
  rw [crc16, funext fun crc => funext (crcByte_eq crc)]

-- ========================================================== the polynomial

/-- The CRC-16/CCITT of a message. -/
noncomputable def ccitt (data : List Byte) : (ZMod 2)[X] :=
  (msgPoly data * X ^ 16
      + (∑ i ∈ Finset.range 16, X ^ i) * X ^ (8 * data.length))
    %ₘ (X ^ 16 + X ^ 12 + X ^ 5 + 1)

theorem tapPoly_ccitt :
    tapPoly ccittTaps = X ^ 16 + X ^ 12 + X ^ 5 + 1 := by
  have hbits : bitPoly ccittTaps = X ^ 12 + X ^ 5 + 1 := by
    have hset : (Finset.range 16).filter (fun i => ccittTaps.getLsbD i)
        = {12, 5, 0} := by decide
    rw [bitPoly, ← Finset.sum_filter, hset]
    simp [add_assoc]
  rw [tapPoly, hbits]
  ring

theorem bitPoly_ones : bitPoly 0xFFFF#16 = ∑ i ∈ Finset.range 16, X ^ i := by
  refine Finset.sum_congr rfl fun i hi => ?_
  have hbit : (BitVec.allOnes 16).getLsbD i = true := by
    rw [BitVec.getLsbD_allOnes]
    exact decide_eq_true (Finset.mem_range.mp hi)
  exact if_pos hbit

theorem bitPoly_crc16 (data : List Byte) :
    bitPoly (crc16 data) = ccitt data := by
  rw [crc16_eq, bitPoly_absorbAll (by decide), bitPoly_ones, tapPoly_ccitt]
  rfl

/-- `crc16` is the CCITT polynomial remainder: of the message times
`X ^ 16`, with sixteen ones added in front. -/
theorem crc16_remainder (data : List Byte) :
    bitPoly (crc16 data)
      = (msgPoly data * X ^ 16
          + (∑ i ∈ Finset.range 16, X ^ i) * X ^ (8 * data.length))
        %ₘ (X ^ 16 + X ^ 12 + X ^ 5 + 1) :=
  bitPoly_crc16 data

/-- The documented test vector, `crc16("123456789")`. -/
example : crc16 [0x31#8, 0x32#8, 0x33#8, 0x34#8, 0x35#8, 0x36#8, 0x37#8,
    0x38#8, 0x39#8] = 0x29B1#16 := by decide +kernel

-- ================================================================== bursts

/-- `crc16` tells a payload from every other one that differs from it in
a burst of at most sixteen bits. -/
theorem crc16_burst {data e : List Byte} (hlen : e.length = data.length)
    {start : Nat} (hset : ∃ j, msgBit e j = true)
    (hburst : ∀ j, msgBit e j = true → start ≤ j ∧ j < start + 16) :
    crc16 (xorAll data e) ≠ crc16 data := by
  rw [crc16_eq, crc16_eq]
  exact absorbAll_burst (by decide) (by decide) _ hlen hset hburst

/-- A frame on the wire with the error pattern `e` on its payload. -/
def corruptPayload (bytes e : List Byte) : List Byte :=
  bytes.take 12 ++ xorAll (bytes.drop 12) e

/-- Burst detection: for a frame within the size bound and a non-zero
error pattern on its payload whose set bits, counted from the most
significant bit of the first byte, lie within sixteen consecutive
positions, `deserialize` of the corrupted frame throws. -/
theorem burst_detected {f : Frame} (h : 12 + f.payload.length < 2 ^ 32)
    {e : List Byte} (hlen : e.length = f.payload.length)
    (hset : ∃ j, msgBit e j = true) (start : Nat)
    (hburst : ∀ j, msgBit e j = true → start ≤ j ∧ j < start + 16) :
    ∃ bytes, f.serialize = some bytes
      ∧ Frame.deserialize (corruptPayload bytes e)
        = .error "CRC mismatch" := by
  refine ⟨f.wire, serialize_eq_wire h, ?_⟩
  have hcorrupt : corruptPayload f.wire e = f.header ++ xorAll f.payload e := by
    rw [corruptPayload, Frame.wire, List.take_left' (header_length f),
      List.drop_left' (header_length f)]
  have hxor := xorAll_length hlen
  -- header and length are as they were: only the checksum can tell
  rw [hcorrupt, deserialize_header _ (by omega), if_neg (by omega), ← hxor,
    List.take_length, if_pos (crc16_burst hlen hset hburst)]

/-- A burst that begins in one byte and ends two bytes later. -/
theorem burst_detected_three_bytes :
    ∃ bytes, Frame.serialize ⟨.telemetry, [0xAB#8, 0xCD#8, 0x00#8]⟩
        = some bytes
      ∧ Frame.deserialize (corruptPayload bytes [0x01#8, 0xFF#8, 0x80#8])
        = .error "CRC mismatch" := by
  refine burst_detected (by decide) rfl ⟨7, by decide⟩ 7 fun j hj => ?_
  have hall : ∀ j < 24, msgBit [0x01#8, 0xFF#8, 0x80#8] j = true →
      7 ≤ j ∧ j < 7 + 16 := by decide
  exact hall j (lt_of_msgBit hj) hj

end EdgeIpc.Ats
