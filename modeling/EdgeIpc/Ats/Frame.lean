/-
The ATS binary frame (async_telemetry_server, FrameProtocol.h and
FrameProtocol.cpp): the 12-byte header, the CRC-16 over the payload,
`serialize` and `deserialize`.

# Machine integers

Bytes are `BitVec 8`, the CRC register is `BitVec 16`, the length field
is `BitVec 32`. `payload.size()` is a `size_t` that `serialize` narrows
to 32 bits, and the buffer size `12 + plen` is a 32-bit addition: both
are kept as the source computes them, so a payload near `2 ^ 32` bytes
gets a buffer too short for it and the stores run over its end
(`serialize` is `none` there: the C++ behaviour is undefined).

# Byte order

`htonl`/`htons` followed by a `memcpy` stores the most significant byte
first on every host, so the pair is one big-endian store (`bigEndian`,
Lib/Buffer.lean), and `memcpy` followed by `ntohl`/`ntohs` is one
big-endian load.
-/
import EdgeIpc.Lib.Buffer

namespace EdgeIpc.Ats

open Lib

abbrev Byte := BitVec 8

-- ============================================================== the types

/-- `enum class MsgType : uint8_t`: the underlying type is fixed, so
every byte is a value, and `deserialize` casts any byte to it. -/
structure MsgType where
  code : Byte
  deriving DecidableEq, Repr

namespace MsgType

def auth : MsgType := ⟨0x01#8⟩
def telemetry : MsgType := ⟨0x02#8⟩
def ack : MsgType := ⟨0x03#8⟩
def error : MsgType := ⟨0x04#8⟩

end MsgType

/-- `struct Frame`: a default-constructed frame is AUTH with no
payload. -/
structure Frame where
  msgType : MsgType := .auth
  payload : List Byte := []
  deriving DecidableEq, Repr

/-- `MAGIC`, the ASCII text "NEXT". -/
def magic : List Byte := [0x4E#8, 0x45#8, 0x58#8, 0x54#8]

/-- `VERSION`. -/
def version : Byte := 0x01#8

-- ================================================================ the CRC

/-- One bit of the register: shift left in 32 bits, xor the polynomial
in when the top bit was set, narrow back to 16. -/
def crcBit (crc : BitVec 16) : BitVec 16 :=
  if crc &&& 0x8000#16 ≠ 0#16 then
    ((crc.setWidth 32 <<< 1) ^^^ 0x1021#32).setWidth 16
  else
    (crc.setWidth 32 <<< 1).setWidth 16

/-- One byte: xor it into the high half, then eight bit steps. -/
def crcByte (crc : BitVec 16) (b : Byte) : BitVec 16 :=
  Nat.iterate crcBit 8 (crc ^^^ (b.setWidth 16 <<< 8))

/-- CRC-16/CCITT: polynomial 0x1021, initial value 0xFFFF, no final xor,
no reflection. -/
def crc16 (data : List Byte) : BitVec 16 :=
  data.foldl crcByte 0xFFFF#16

-- ========================================================== serialization

/-- `buf[off++] = …` and `memcpy(buf.data() + off, …); off += n`: a store
at the running cursor, which then moves past it. -/
def emit (bs : List Byte) (cur : List Byte × Nat) :
    Option (List Byte × Nat) :=
  (write cur.1 cur.2 bs).map fun buf => (buf, cur.2 + bs.length)

/-- `Frame::serialize`. `none` is a store outside the buffer. -/
def Frame.serialize (f : Frame) : Option (List Byte) := do
  let plen := BitVec.ofNat 32 f.payload.length
  let chk := crc16 f.payload
  let cur := (List.replicate (12#32 + plen).toNat 0#8, 0)
  let cur ← emit magic cur
  let cur ← emit [version] cur
  let cur ← emit [f.msgType.code] cur
  let cur ← emit (bigEndian 4 plen.toNat) cur
  let cur ← emit (bigEndian 2 chk.toNat) cur
  if 0 < plen.toNat then
    write cur.1 cur.2 (f.payload.take plen.toNat)
  else
    some cur.1

/-- `payload_len` of a header or a whole frame: bytes 6..9. -/
def payloadLen (buf : List Byte) : BitVec 32 :=
  BitVec.ofNat 32 (ofBigEndian (slice buf 6 4))

/-- `checksum` of a header or a whole frame: bytes 10..11. -/
def checksum (buf : List Byte) : BitVec 16 :=
  BitVec.ofNat 16 (ofBigEndian (slice buf 10 2))

/-- `Frame::deserialize`. The error is the text of the
`std::invalid_argument` thrown. The length check widens before it adds,
so it is a check over the unbounded naturals. -/
def Frame.deserialize (buf : List Byte) : Except String Frame :=
  if buf.length < 12 then
    .error "buffer too small"
  else if slice buf 0 4 ≠ magic then
    .error "bad magic"
  else if slice buf 4 1 ≠ [version] then
    .error "unsupported version"
  else
    let plen := (payloadLen buf).toNat
    if buf.length < 12 + plen then
      .error "buffer too short for payload"
    else
      let payload := slice buf 12 plen
      if crc16 payload ≠ checksum buf then
        .error "CRC mismatch"
      else
        .ok { msgType := ⟨buf.getD 5 0#8⟩, payload := payload }

end EdgeIpc.Ats
