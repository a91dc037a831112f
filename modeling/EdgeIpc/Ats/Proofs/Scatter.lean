/-
Errors scattered over a frame's payload and its checksum.

The payload followed by its checksum is a codeword: the remainder the
receiver computes and the one it was sent agree exactly if the error, with
the checksum's own bits behind those of the payload, is a multiple of the
CCITT polynomial (`checksum_agrees_dvd`). That polynomial has a root at
one, so no odd number of flipped bits is such a multiple, and `X` has order
32767 modulo it (`orderOf_ccitt`), so no two bits are within that length.
-/
import Mathlib.Tactic.NormNum.Prime
import EdgeIpc.Ats.Proofs.Crc
import EdgeIpc.Lib.CrcWeight

namespace EdgeIpc.Ats

open Lib Polynomial

-- ========================================================== the polynomial

theorem eval_ccitt : (tapPoly ccittTaps).eval 1 = 0 := by
  rw [tapPoly_ccitt]
  simp only [eval_add, eval_pow, eval_X, eval_one, one_pow]
  decide

/-- The order of `X` modulo the CCITT polynomial. -/
theorem orderOf_ccitt :
    orderOf (AdjoinRoot.root (tapPoly ccittTaps)) = 32767 := by
  refine orderOf_root (by decide) 15 (by decide) (by decide)
    (by decide +kernel) fun p hp hdvd => ?_
  have hfactor : (32767 : Nat) = 7 * (31 * 151) := by norm_num
  rw [hfactor, hp.dvd_mul, hp.dvd_mul,
    Nat.prime_dvd_prime_iff_eq hp (by norm_num),
    Nat.prime_dvd_prime_iff_eq hp (by norm_num),
    Nat.prime_dvd_prime_iff_eq hp (by norm_num)] at hdvd
  rcases hdvd with rfl | rfl | rfl
  · decide +kernel
  · decide +kernel
  · decide +kernel

/-- No odd number of bits, and no two within the order, is a multiple. -/
theorem ccitt_not_dvd {e : List Byte}
    (h : Odd (weight e) ∨ weight e = 2 ∧ 8 * e.length ≤ 32767) :
    ¬ tapPoly ccittTaps ∣ msgPoly e := by
  rcases h with hodd | ⟨htwo, hbits⟩
  · exact not_dvd_of_odd eval_ccitt hodd
  · refine not_dvd_of_two (by decide) (by decide) htwo ?_
    rw [orderOf_ccitt]
    exact hbits

-- ============================================================ the codeword

/-- Two checksum bytes hold the register's bits. -/
theorem bitPoly_ofBigEndian {chk : List Byte} (h : chk.length = 2) :
    bitPoly (BitVec.ofNat 16 (ofBigEndian chk)) = msgPoly chk := by
  obtain ⟨a, b, rfl⟩ := List.length_eq_two.mp h
  have happend : BitVec.ofNat 16 (ofBigEndian [a, b]) = a ++ b := by
    apply BitVec.eq_of_toNat_eq
    rw [BitVec.toNat_append, BitVec.toNat_ofNat,
      ← Nat.shiftLeft_add_eq_or_of_lt b.isLt, Nat.shiftLeft_eq]
    have ha := a.isLt
    have hb := b.isLt
    simp only [ofBigEndian, List.foldl_cons, List.foldl_nil]
    omega
  rw [happend, bitPoly_append, ← List.singleton_append, msgPoly_append,
    msgPoly_singleton, msgPoly_singleton]
  rfl

/-- A corrupted payload matches its corrupted checksum only where the
polynomial divides the error. -/
theorem checksum_agrees_dvd {data err chkErr : List Byte}
    (hlen : err.length = data.length) (hchk : chkErr.length = 2)
    (h : crc16 (xorAll data err) = BitVec.ofNat 16
      (ofBigEndian (xorAll (bigEndian 2 (crc16 data).toNat) chkErr))) :
    tapPoly ccittTaps ∣ msgPoly (err ++ chkErr) := by
  have hsent : bitPoly (crc16 data)
      = msgPoly (bigEndian 2 (crc16 data).toNat) := by
    rw [← bitPoly_ofBigEndian (bigEndian_length ..), ofBigEndian_checksum]
  have hlen2 : chkErr.length = (bigEndian 2 (crc16 data).toNat).length := by
    rw [hchk, bigEndian_length]
  have hpoly := congrArg bitPoly h
  rw [bitPoly_ofBigEndian (by rw [xorAll_length hlen2, bigEndian_length]),
    msgPoly_xorAll hlen2, ← hsent, crc16_eq, crc16_eq,
    absorbAll_xorAll (by decide) _ _ hlen, add_right_inj] at hpoly
  rw [msgPoly_append, hchk, ← hpoly, ← CharTwo.sub_eq_add, ← neg_sub, dvd_neg]
  exact dvd_modByMonic_sub _ _

-- ============================================================== the frames

/-- A frame on the wire with the error pattern `e` on its checksum and
its payload. -/
def corruptChecked (bytes e : List Byte) : List Byte :=
  bytes.take 10 ++ xorAll (bytes.drop 10) e

/-- The error falls on the checksum first, then on the payload. -/
theorem corruptChecked_wire (f : Frame) {chkErr : List Byte}
    (hchk : chkErr.length = 2) (err : List Byte) :
    corruptChecked f.wire (chkErr ++ err)
      = magic ++ [version] ++ [f.msgType.code]
        ++ bigEndian 4 f.payload.length
        ++ xorAll (bigEndian 2 (crc16 f.payload).toNat) chkErr
        ++ xorAll f.payload err := by
  have hfront : (magic ++ [version] ++ [f.msgType.code]
      ++ bigEndian 4 f.payload.length).length = 10 := by simp [magic]
  have hfield : chkErr.length
      = (bigEndian 2 (crc16 f.payload).toNat).length := by
    rw [hchk, bigEndian_length]
  rw [corruptChecked, Frame.wire, Frame.header,
    List.append_assoc _ _ f.payload, List.take_left' hfront,
    List.drop_left' hfront, xorAll_append hfield, ← List.append_assoc]

/-- Scattered errors: for a frame within the size bound, `deserialize`
throws if any odd number of bits of its checksum and its payload are
flipped, and if any two are, where these are at most 32767 bits. -/
theorem scatter_detected {f : Frame} (h : 12 + f.payload.length < 2 ^ 32)
    {e : List Byte} (hlen : e.length = 2 + f.payload.length)
    (hflips : Odd (weight e)
      ∨ weight e = 2 ∧ 8 * f.payload.length + 16 ≤ 32767) :
    ∃ bytes, f.serialize = some bytes
      ∧ Frame.deserialize (corruptChecked bytes e)
        = .error "CRC mismatch" := by
  refine ⟨f.wire, serialize_eq_wire h, ?_⟩
  obtain ⟨chkErr, err, rfl, hchk⟩ : ∃ chkErr err, e = chkErr ++ err
      ∧ chkErr.length = 2 := by
    refine ⟨e.take 2, e.drop 2, (List.take_append_drop 2 e).symm, ?_⟩
    rw [List.length_take]
    omega
  have herr : err.length = f.payload.length := by
    rw [List.length_append] at hlen
    omega
  have hfield : (xorAll (bigEndian 2 (crc16 f.payload).toNat) chkErr).length
      = 2 := by
    rw [xorAll_length (by rw [hchk, bigEndian_length]), bigEndian_length]
  have hxor := xorAll_length herr
  -- magic, version and length are as they were
  rw [corruptChecked_wire f hchk, deserialize_fields _ (by omega) hfield,
    if_neg (by omega), ← hxor, List.take_length, if_pos]
  intro hagree
  have hdvd := checksum_agrees_dvd herr hchk hagree
  refine ccitt_not_dvd ?_ hdvd
  rw [weight_append, add_comm, ← weight_append, List.length_append]
  exact hflips.imp_right fun htwo => ⟨htwo.1, by omega⟩

/-- Three bits flipped, one of them in the checksum; and two bits. -/
theorem scatter_detected_bits :
    (∃ bytes, Frame.serialize ⟨.telemetry, [0xAB#8, 0xCD#8]⟩ = some bytes
      ∧ Frame.deserialize
          (corruptChecked bytes [0x80#8, 0x00#8, 0x01#8, 0x10#8])
        = .error "CRC mismatch")
    ∧ ∃ bytes, Frame.serialize ⟨.telemetry, [0xAB#8, 0xCD#8]⟩ = some bytes
      ∧ Frame.deserialize
          (corruptChecked bytes [0x00#8, 0x01#8, 0x00#8, 0x10#8])
        = .error "CRC mismatch" :=
  ⟨scatter_detected (by decide) rfl (.inl (by decide)),
    scatter_detected (by decide) rfl (.inr (by decide))⟩

end EdgeIpc.Ats
