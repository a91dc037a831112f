/-
The frame codec: what `serialize` emits, what `deserialize` accepts, and
that the two are inverse.

# The wire image

`Frame.wire` is the frame as the protocol lays it out: header, then
payload. It is the abstract side of both functions: `serialize` produces
it whenever the 32-bit buffer size does not wrap (`serialize_eq_wire`),
and `deserialize` returns `f` exactly on the buffers that begin with
`f.wire` (`deserialize_eq_ok_iff`). The codec laws are corollaries of
the two, and so is everything the stream and session layers say about
frames: none of them looks at a header offset again.

The bound differs between the two sides: `deserialize` widens the length
before it adds 12, `serialize` adds in 32 bits. So acceptance needs the
payload to have a 32-bit length only, emission needs `12 + size` to have
one.

# Payloads beyond the length field

`serialize` narrows the length to 32 bits and copies that many bytes,
under a checksum over all of them. `Frame.image` is what it then emits
(`serialize_eq_some_iff`): the wire image where the length fits the
field, and otherwise bytes that still end where their header says.
-/
import EdgeIpc.Ats.Frame

namespace EdgeIpc.Ats

open Lib

-- ========================================================= the wire image

/-- The 12 header bytes of a frame. -/
def Frame.header (f : Frame) : List Byte :=
  magic ++ [version] ++ [f.msgType.code] ++ bigEndian 4 f.payload.length
    ++ bigEndian 2 (crc16 f.payload).toNat

/-- The frame on the wire. -/
def Frame.wire (f : Frame) : List Byte := f.header ++ f.payload

/-- The length field of an emitted frame. -/
def Frame.plen (f : Frame) : Nat := f.payload.length % 2 ^ 32

/-- The frame as `serialize` emits it: the length narrowed to its field,
the payload cut to it, the checksum over the whole payload. -/
def Frame.image (f : Frame) : List Byte :=
  magic ++ [version] ++ [f.msgType.code] ++ bigEndian 4 f.plen
    ++ bigEndian 2 (crc16 f.payload).toNat ++ f.payload.take f.plen

theorem plen_eq {f : Frame} (h : f.payload.length < 2 ^ 32) :
    f.plen = f.payload.length := Nat.mod_eq_of_lt h

theorem image_eq_wire {f : Frame} (h : f.payload.length < 2 ^ 32) :
    f.image = f.wire := by
  rw [Frame.image, plen_eq h, List.take_length]
  rfl

@[simp]
theorem image_length (f : Frame) : f.image.length = 12 + f.plen := by
  have hle : f.plen ≤ f.payload.length := Nat.mod_le ..
  simp only [Frame.image, magic, List.length_append, List.length_cons,
    List.length_nil, bigEndian_length, List.length_take]
  omega

@[simp]
theorem header_length (f : Frame) : f.header.length = 12 := by
  simp [Frame.header, magic]

@[simp]
theorem wire_length (f : Frame) :
    f.wire.length = 12 + f.payload.length := by
  simp [Frame.wire]

-- ============================================================== emission

/-- One store of the running cursor: the window behind the front is
replaced and joins the front. -/
theorem emit_append {front mid back bs : List Byte} {off : Nat}
    (hoff : front.length = off) (hmid : mid.length = bs.length) :
    emit bs (front ++ (mid ++ back), off)
      = some ((front ++ bs) ++ back, off + bs.length) := by
  unfold emit
  rw [← List.append_assoc, write_append hoff hmid]
  rfl

/-- A zeroed buffer, cut where the next store ends. -/
private theorem zeros_split (k n : Nat) :
    List.replicate (k + n) (0#8 : Byte)
      = List.replicate k 0#8 ++ List.replicate n 0#8 :=
  (List.replicate_append_replicate ..).symm

/-- A store that succeeds lies inside the buffer and keeps its length. -/
theorem emit_inside {bs : List Byte} {cur cur' : List Byte × Nat}
    (h : emit bs cur = some cur') :
    cur'.1.length = cur.1.length ∧ cur'.2 = cur.2 + bs.length
      ∧ cur'.2 ≤ cur.1.length := by
  obtain ⟨buf, hw, rfl⟩ := Option.map_eq_some_iff.mp h
  unfold write at hw
  split at hw
  next hin =>
    injection hw with hw
    subst hw
    refine ⟨?_, rfl, hin⟩
    simp only [List.length_append, List.length_take, List.length_drop]
    omega
  next => cases hw

/-- The buffer size, as the 32-bit addition gives it. -/
theorem bufSize_mod (f : Frame) :
    (12#32 + BitVec.ofNat 32 f.payload.length).toNat
      = (12 + f.plen) % 2 ^ 32 := by
  rw [BitVec.toNat_add, BitVec.toNat_ofNat, BitVec.toNat_ofNat]
  rfl

/-- Where the buffer size does not wrap, `serialize` emits the image. -/
theorem serialize_eq_image {f : Frame} (h : 12 + f.plen < 2 ^ 32) :
    f.serialize = some f.image := by
  have hplen : (BitVec.ofNat 32 f.payload.length).toNat = f.plen :=
    BitVec.toNat_ofNat ..
  have hbuf : List.replicate (12 + f.plen) (0#8 : Byte)
      = [] ++ (List.replicate 4 0#8 ++ (List.replicate 1 0#8
        ++ (List.replicate 1 0#8 ++ (List.replicate 4 0#8
        ++ (List.replicate 2 0#8
        ++ List.replicate f.plen 0#8))))) := by
    rw [List.nil_append, ← zeros_split, ← zeros_split, ← zeros_split,
      ← zeros_split, ← zeros_split]
    congr 1
    omega
  -- the five header stores, each moving the cursor to the next window
  unfold Frame.serialize
  simp only [bufSize_mod, Nat.mod_eq_of_lt h, hplen, hbuf,
    Option.bind_eq_bind]
  rw [emit_append (by rfl) (by rfl), Option.bind_some,
    emit_append (by rfl) (by rfl), Option.bind_some,
    emit_append (by rfl) (by rfl), Option.bind_some,
    emit_append (by rfl) (by simp), Option.bind_some,
    emit_append (by simp [magic]) (by simp), Option.bind_some]
  generalize hhead : (((([] ++ magic) ++ [version]) ++ [f.msgType.code])
      ++ bigEndian 4 f.plen) ++ bigEndian 2 (crc16 f.payload).toNat = head
  have himage : f.image = head ++ f.payload.take f.plen := by
    rw [← hhead]
    simp [Frame.image]
  have hlen : head.length = 12 := by
    rw [← hhead]
    simp [magic]
  have hoff : 0 + magic.length + [version].length
      + [f.msgType.code].length + (bigEndian 4 f.plen).length
      + (bigEndian 2 (crc16 f.payload).toNat).length = 12 := by
    simp [magic]
  rw [hoff]
  split
  next =>
    have hle : f.plen ≤ f.payload.length := Nat.mod_le ..
    have hmid : (List.replicate f.plen (0#8 : Byte)).length
        = (f.payload.take f.plen).length := by
      simp [hle]
    have hw : write (head ++ List.replicate f.plen 0#8 ++ []) 12
        (f.payload.take f.plen) = some (head ++ f.payload.take f.plen ++ []) :=
      write_append hlen hmid
    simpa [himage] using hw
  next hp =>
    have hzero : f.plen = 0 := by omega
    simp [himage, hzero]

/-- What `serialize` emits, and when: where the buffer size wraps, the
header does not fit the buffer. -/
theorem serialize_eq_some_iff {f : Frame} {bytes : List Byte} :
    f.serialize = some bytes ↔ 12 + f.plen < 2 ^ 32 ∧ bytes = f.image := by
  by_cases hw : 12 + f.plen < 2 ^ 32
  · rw [serialize_eq_image hw, Option.some.injEq]
    exact ⟨fun h => ⟨hw, h.symm⟩, fun h => h.2.symm⟩
  · refine ⟨fun h => ?_, fun h => absurd h.1 hw⟩
    have hlt : f.plen < 2 ^ 32 := Nat.mod_lt _ (by decide)
    have hbuf : (12 + f.plen) % 2 ^ 32 < 12 := by omega
    unfold Frame.serialize at h
    simp only [Option.bind_eq_bind, Option.bind_eq_some_iff] at h
    obtain ⟨c₁, h₁, c₂, h₂, c₃, h₃, c₄, h₄, c₅, h₅, -⟩ := h
    -- the five stores reach offset 12
    have e₁ := emit_inside h₁
    have e₂ := emit_inside h₂
    have e₃ := emit_inside h₃
    have e₄ := emit_inside h₄
    have e₅ := emit_inside h₅
    simp only [List.length_replicate, bufSize_mod, bigEndian_length, magic,
      List.length_cons, List.length_nil] at e₁ e₂ e₃ e₄ e₅
    omega

/-- `serialize` emits the wire image of a frame within the bound. -/
theorem serialize_eq_wire {f : Frame}
    (h : 12 + f.payload.length < 2 ^ 32) : f.serialize = some f.wire := by
  have hlen : f.payload.length < 2 ^ 32 := by omega
  rw [serialize_eq_image (by rw [plen_eq hlen]; exact h),
    image_eq_wire hlen]

-- ============================================================ acceptance

/-- The length field of a buffer that begins with an emitted frame. -/
theorem payloadLen_image (f : Frame) (rest : List Byte) :
    (payloadLen (f.image ++ rest)).toNat = f.plen := by
  have hslice : slice (f.image ++ rest) 6 4 = bigEndian 4 f.plen := by
    simp [slice, Frame.image, magic, bigEndian]
  have hlt : f.plen < 2 ^ 32 := Nat.mod_lt _ (by decide)
  rw [payloadLen, hslice, ofBigEndian_bigEndian, BitVec.toNat_ofNat]
  omega

/-- The header fields, read off a buffer that begins with a wire image
whose length fits the length field. -/
theorem payloadLen_wire {f : Frame} (rest : List Byte)
    (h : f.payload.length < 2 ^ 32) :
    (payloadLen (f.wire ++ rest)).toNat = f.payload.length := by
  rw [← image_eq_wire h, payloadLen_image, plen_eq h]

/-- Behind good magic and version, `deserialize` asks for as many bytes
as the length field says and for their checksum to be that of the next
field, whatever this holds. -/
theorem deserialize_fields (type : MsgType) {n : Nat} (hn : n < 2 ^ 32)
    {chk : List Byte} (hchk : chk.length = 2) (tail : List Byte) :
    Frame.deserialize (magic ++ [version] ++ [type.code] ++ bigEndian 4 n
        ++ chk ++ tail)
      = if tail.length < n then .error "buffer too short for payload"
        else if crc16 (tail.take n) ≠ BitVec.ofNat 16 (ofBigEndian chk) then
          .error "CRC mismatch"
        else .ok ⟨type, tail.take n⟩ := by
  generalize hbuf : magic ++ [version] ++ [type.code] ++ bigEndian 4 n
    ++ chk ++ tail = buf
  have hhead : (magic ++ [version] ++ [type.code] ++ bigEndian 4 n).length
      = 10 := by simp [magic]
  have hmagic : slice buf 0 4 = magic := by
    rw [← hbuf]
    simp [slice, magic]
  have hversion : slice buf 4 1 = [version] := by
    rw [← hbuf]
    simp [slice, magic]
  have hcode : buf.getD 5 0#8 = type.code := by
    rw [← hbuf]
    simp [magic]
  have hplen : (payloadLen buf).toNat = n := by
    have hslice : slice buf 6 4 = bigEndian 4 n := by
      rw [← hbuf]
      simp [slice, magic, bigEndian]
    rw [payloadLen, hslice, ofBigEndian_bigEndian, BitVec.toNat_ofNat]
    omega
  have hchecksum : checksum buf = BitVec.ofNat 16 (ofBigEndian chk) := by
    rw [checksum, ← hbuf, slice_append hhead hchk]
  have hfront : (magic ++ [version] ++ [type.code] ++ bigEndian 4 n
      ++ chk).length = 12 := by
    rw [List.length_append, hhead, hchk]
  have hpayload : slice buf 12 n = tail.take n := by
    rw [← hbuf, slice, List.drop_left' hfront]
  have hlen : buf.length = 12 + tail.length := by
    rw [← hbuf, List.length_append, hfront]
  unfold Frame.deserialize
  rw [if_neg (by omega), if_neg (by simp [hmagic]),
    if_neg (by simp [hversion])]
  simp only [hplen, hpayload, hchecksum, hcode, hlen, Nat.add_lt_add_iff_left]

/-- The checksum field of a frame, read back. -/
theorem ofBigEndian_checksum (crc : BitVec 16) :
    BitVec.ofNat 16 (ofBigEndian (bigEndian 2 crc.toNat)) = crc := by
  rw [ofBigEndian_bigEndian]
  apply BitVec.eq_of_toNat_eq
  rw [BitVec.toNat_ofNat]
  have := crc.isLt
  omega

/-- Behind a frame's header, `deserialize` asks for as many bytes as its
payload has, and for their checksum to be that of its payload. -/
theorem deserialize_header {f : Frame} (tail : List Byte)
    (h : f.payload.length < 2 ^ 32) :
    Frame.deserialize (f.header ++ tail)
      = if tail.length < f.payload.length then
          .error "buffer too short for payload"
        else if crc16 (tail.take f.payload.length) ≠ crc16 f.payload then
          .error "CRC mismatch"
        else .ok ⟨f.msgType, tail.take f.payload.length⟩ := by
  rw [Frame.header, deserialize_fields _ h (bigEndian_length ..),
    ofBigEndian_checksum]

/-- `deserialize` returns the frame a buffer begins with. -/
theorem deserialize_wire {f : Frame} (rest : List Byte)
    (h : f.payload.length < 2 ^ 32) :
    Frame.deserialize (f.wire ++ rest) = .ok f := by
  rw [Frame.wire, List.append_assoc, deserialize_header _ h, if_neg (by simp),
    List.take_left, if_neg (by simp)]

/-- What the checks of `deserialize` have established when it returns. -/
theorem deserialize_ok_checks {buf : List Byte} {f : Frame}
    (h : Frame.deserialize buf = .ok f) :
    12 + (payloadLen buf).toNat ≤ buf.length
      ∧ slice buf 0 4 = magic ∧ slice buf 4 1 = [version]
      ∧ crc16 (slice buf 12 (payloadLen buf).toNat) = checksum buf
      ∧ f = { msgType := ⟨buf.getD 5 0#8⟩
              payload := slice buf 12 (payloadLen buf).toNat } := by
  unfold Frame.deserialize at h
  split at h
  case isTrue => cases h
  case isFalse hlen =>
    split at h
    case isTrue => cases h
    case isFalse hmagic =>
      split at h
      case isTrue => cases h
      case isFalse hversion =>
        dsimp only at h
        split at h
        case isTrue => cases h
        case isFalse hfit =>
          split at h
          case isTrue => cases h
          case isFalse hcrc =>
            injection h with h
            simp only [ne_eq, Decidable.not_not] at hmagic hversion hcrc
            exact ⟨by omega, hmagic, hversion, hcrc, h.symm⟩

/-- The first 12 bytes of a long enough buffer, by field. -/
private theorem take_twelve {buf : List Byte} (h : 12 ≤ buf.length) :
    buf.take 12 = slice buf 0 4 ++ slice buf 4 1 ++ [buf.getD 5 0#8]
      ++ slice buf 6 4 ++ slice buf 10 2 := by
  match buf, h with
  | _ :: _ :: _ :: _ :: _ :: _ :: _ :: _ :: _ :: _ :: _ :: _ :: _, _ =>
      simp [slice]

/-- `deserialize` returns `f` exactly on the buffers that begin with
`f`'s wire image, for a payload whose length fits the length field. -/
theorem deserialize_eq_ok_iff {buf : List Byte} {f : Frame} :
    Frame.deserialize buf = .ok f
      ↔ f.payload.length < 2 ^ 32 ∧ ∃ rest, buf = f.wire ++ rest := by
  constructor
  · intro h
    obtain ⟨hfit, hmagic, hversion, hcrc, hf⟩ := deserialize_ok_checks h
    have hpay : f.payload = slice buf 12 (payloadLen buf).toNat := by
      rw [hf]
    have hlen : f.payload.length = (payloadLen buf).toNat := by
      rw [hpay, slice_length hfit]
    have hplen : (payloadLen buf).toNat = ofBigEndian (slice buf 6 4) := by
      have hlt := ofBigEndian_lt (slice buf 6 4)
      rw [slice_length (by omega)] at hlt
      rw [payloadLen, BitVec.toNat_ofNat]
      omega
    have hchk : (checksum buf).toNat = ofBigEndian (slice buf 10 2) := by
      have hlt := ofBigEndian_lt (slice buf 10 2)
      rw [slice_length (by omega)] at hlt
      rw [checksum, BitVec.toNat_ofNat]
      omega
    -- the two numeric fields, re-encoded, are the bytes they came from
    have hlenBytes : bigEndian 4 f.payload.length = slice buf 6 4 := by
      have hb := bigEndian_ofBigEndian (slice buf 6 4)
      rw [slice_length (by omega)] at hb
      rw [hlen, hplen, hb]
    have hchkBytes : bigEndian 2 (crc16 f.payload).toNat
        = slice buf 10 2 := by
      have hb := bigEndian_ofBigEndian (slice buf 10 2)
      rw [slice_length (by omega)] at hb
      rw [hpay, hcrc, hchk, hb]
    have hhead : f.header = buf.take 12 := by
      rw [take_twelve (by omega), Frame.header, hlenBytes, hchkBytes,
        hmagic, hversion, hf]
    refine ⟨hlen ▸ (payloadLen buf).isLt, buf.drop (12 + f.payload.length), ?_⟩
    rw [Frame.wire, hhead, hpay, slice_length hfit, slice,
      List.append_assoc, ← List.drop_drop, List.take_append_drop,
      List.take_append_drop]
  · rintro ⟨hlt, rest, rfl⟩
    exact deserialize_wire rest hlt

-- ======================================================== the codec laws

/-- Frame codec inverse laws: decoding an encoded frame, whatever bytes
follow it, gives the frame back; and every frame decoded from a buffer
re-encodes to the bytes of that buffer it was decoded from. -/
theorem frame_codec_inverse :
    (∀ (f : Frame) (rest : List Byte), 12 + f.payload.length < 2 ^ 32 →
      ∃ bytes, f.serialize = some bytes
        ∧ Frame.deserialize (bytes ++ rest) = .ok f)
    ∧ (∀ (buf : List Byte) (f : Frame),
      Frame.deserialize buf = .ok f → 12 + f.payload.length < 2 ^ 32 →
      f.serialize = some (buf.take (12 + f.payload.length))) := by
  constructor
  · intro f rest h
    exact ⟨f.wire, serialize_eq_wire h, deserialize_wire rest (by omega)⟩
  · intro buf f hd h
    obtain ⟨-, rest, rfl⟩ := deserialize_eq_ok_iff.mp hd
    rw [serialize_eq_wire h, ← wire_length, List.take_left]

/-- Both laws at a two-byte TELEMETRY frame followed by one byte. -/
theorem frame_codec_inverse_two_bytes :
    (∃ bytes, Frame.serialize ⟨.telemetry, [0xAB#8, 0xCD#8]⟩ = some bytes
      ∧ Frame.deserialize (bytes ++ [0x00#8])
        = .ok ⟨.telemetry, [0xAB#8, 0xCD#8]⟩)
    ∧ Frame.serialize ⟨.telemetry, [0xAB#8, 0xCD#8]⟩
      = some ((Frame.wire ⟨.telemetry, [0xAB#8, 0xCD#8]⟩ ++ [0x00#8]).take 14) :=
  ⟨frame_codec_inverse.1 _ _ (by decide),
    frame_codec_inverse.2 _ _ (deserialize_wire _ (by decide)) (by decide)⟩

end EdgeIpc.Ats
