/-
Frames on a stream: what one call of a frame reader does on every
stream, when its buffer is long enough, and that repeated reads recover
the frames that were written.

# One read, four outcomes

For a stream `s` with a whole header, everything is decided by the
length field `plen` of that header: `12 + plen` wraps in 32 bits
(`readFrameOn_wrap`, the stores leave the buffer), or the stream ends
before the payload does (`readFrameOn_eof`), or the first `12 + plen`
bytes are decoded (`readFrameOn_full`). With `deserialize_eq_ok_iff`
these give the one fact later modules use (`readFrameOn_ok_iff`): a read
returns `f` and leaves `rest` exactly when the stream is `f`'s wire image
followed by `rest`, and `12 + size` does not wrap.
-/
import EdgeIpc.Ats.Proofs.Codec
import EdgeIpc.Ats.Wire

namespace EdgeIpc.Ats

open Lib

-- ======================================================== the one reader

theorem Endpoint.readFrame_eq (r : Endpoint) :
    r.readFrame = readFrameOn := by
  cases r <;> rfl

theorem Endpoint.writeFrame_eq (w : Endpoint) :
    w.writeFrame = Frame.serialize := by
  cases w <;> rfl

theorem Endpoint.frameBuf_eq (r : Endpoint) :
    r.frameBuf = Ats.frameBuf := by
  cases r <;> rfl

/-- The length field is inside the header. -/
theorem payloadLen_take (s : List Byte) :
    payloadLen (s.take 12) = payloadLen s := by
  simp [payloadLen, slice, List.drop_take, List.take_take]

-- ============================================================= the buffer

theorem frameBuf_length (hdr : List Byte) :
    (frameBuf hdr).length = (12 + (payloadLen hdr).toNat) % 2 ^ 32 := by
  simp [frameBuf, BitVec.toNat_add]

/-- Without a wrap the two stores assemble header and payload. -/
theorem memcpy_frameBuf {hdr : List Byte} (hlen : hdr.length = 12)
    (hw : 12 + (payloadLen hdr).toNat < 2 ^ 32) :
    memcpy (frameBuf hdr) 0 hdr
      = .ok (hdr ++ List.replicate (payloadLen hdr).toNat 0#8) := by
  have hsize : (12#32 + payloadLen hdr).toNat
      = hdr.length + (payloadLen hdr).toNat := by
    rw [BitVec.toNat_add, hlen]
    exact Nat.mod_eq_of_lt hw
  have hsplit : frameBuf hdr = [] ++ List.replicate hdr.length 0#8
      ++ List.replicate (payloadLen hdr).toNat 0#8 := by
    rw [List.nil_append, List.replicate_append_replicate, frameBuf, hsize]
  rw [memcpy, hsplit, write_append (by rfl) (by simp)]
  rfl

theorem memcpy_body {hdr zeros body : List Byte} (hlen : hdr.length = 12)
    (hbody : zeros.length = body.length) :
    memcpy (hdr ++ zeros) 12 body = .ok (hdr ++ body) := by
  have h : write (hdr ++ zeros ++ []) 12 body = some (hdr ++ body ++ []) :=
    write_append hlen hbody
  rw [List.append_nil, List.append_nil] at h
  rw [memcpy, h]

/-- With a wrap the header does not fit. -/
theorem memcpy_frameBuf_wrap {hdr : List Byte} (hlen : hdr.length = 12)
    (hw : 2 ^ 32 ≤ 12 + (payloadLen hdr).toNat) :
    memcpy (frameBuf hdr) 0 hdr = .error .outOfBounds := by
  have hlt := (payloadLen hdr).isLt
  have hnone : write (frameBuf hdr) 0 hdr = none := by
    unfold write
    rw [if_neg (by rw [frameBuf_length, hlen]; omega)]
  rw [memcpy, hnone]

-- ======================================================== the four outcomes

theorem asyncRead_ok {n : Nat} {s : List Byte} (h : n ≤ s.length) :
    asyncRead n s = .ok (s.take n, s.drop n) := if_pos h

theorem asyncRead_eof {n : Nat} {s : List Byte} (h : s.length < n) :
    asyncRead n s = .error .eof := if_neg (by omega)

/-- No whole header: end of stream. -/
theorem readFrameOn_short {s : List Byte} (h : s.length < 12) :
    readFrameOn s = .error .eof := by
  rw [readFrameOn, asyncRead_eof h]
  rfl

/-- The buffer size wraps: the header copy leaves the buffer. -/
theorem readFrameOn_wrap {s : List Byte} (h : 12 ≤ s.length)
    (hw : 2 ^ 32 ≤ 12 + (payloadLen s).toNat) :
    readFrameOn s = .error .outOfBounds := by
  rw [← payloadLen_take] at hw
  have hlen : (s.take 12).length = 12 := by simpa
  have hcopy := memcpy_frameBuf_wrap hlen hw
  rw [readFrameOn, asyncRead_ok h]
  show ((memcpy (frameBuf (s.take 12)) 0 (s.take 12)) >>= _) = _
  rw [hcopy]
  rfl

/-- The stream ends inside the payload: end of stream. -/
theorem readFrameOn_eof {s : List Byte} (h : 12 ≤ s.length)
    (hw : 12 + (payloadLen s).toNat < 2 ^ 32)
    (hs : s.length < 12 + (payloadLen s).toNat) :
    readFrameOn s = .error .eof := by
  rw [← payloadLen_take] at hw hs
  have hlen : (s.take 12).length = 12 := by simpa
  have hcopy := memcpy_frameBuf hlen hw
  rw [readFrameOn, asyncRead_ok h]
  show ((memcpy (frameBuf (s.take 12)) 0 (s.take 12)) >>= _) = _
  rw [hcopy]
  show (if 0 < (payloadLen (s.take 12)).toNat then _ else _) = _
  rw [if_pos (by omega), asyncRead_eof (by rw [List.length_drop]; omega)]
  rfl

/-- Header and payload are there: the first `12 + plen` bytes are
decoded and the rest is left. -/
theorem readFrameOn_full {s : List Byte}
    (hw : 12 + (payloadLen s).toNat < 2 ^ 32)
    (hs : 12 + (payloadLen s).toNat ≤ s.length) :
    readFrameOn s
      = finishFrame (s.take (12 + (payloadLen s).toNat))
          (s.drop (12 + (payloadLen s).toNat)) := by
  have hw' : 12 + (payloadLen (s.take 12)).toNat < 2 ^ 32 := by
    rwa [payloadLen_take]
  have hlen : (s.take 12).length = 12 := by
    rw [List.length_take]
    omega
  rw [readFrameOn, asyncRead_ok (by omega)]
  show ((memcpy (frameBuf (s.take 12)) 0 (s.take 12)) >>= _) = _
  rw [memcpy_frameBuf hlen hw']
  show (if 0 < (payloadLen (s.take 12)).toNat then _ else _) = _
  rw [payloadLen_take]
  have htake : s.take (12 + (payloadLen s).toNat)
      = s.take 12 ++ (s.drop 12).take (payloadLen s).toNat :=
    List.take_add
  split
  next hpos =>
    rw [asyncRead_ok (by rw [List.length_drop]; omega)]
    show ((memcpy _ 12 _) >>= _) = _
    rw [memcpy_body hlen (by
      rw [List.length_replicate, List.length_take, List.length_drop]
      omega)]
    show finishFrame _ _ = _
    rw [htake, List.drop_drop]
  next hzero =>
    have h0 : (payloadLen s).toNat = 0 := by omega
    rw [h0]
    simp

/-- A read returns `f` and leaves `rest` exactly on the wire image of
`f` followed by `rest`. -/
theorem readFrameOn_ok_iff {s rest : List Byte} {f : Frame} :
    readFrameOn s = .ok (f, rest)
      ↔ 12 + f.payload.length < 2 ^ 32 ∧ s = f.wire ++ rest := by
  constructor
  · intro h
    by_cases h12 : s.length < 12
    · rw [readFrameOn_short h12] at h
      cases h
    by_cases hw : 2 ^ 32 ≤ 12 + (payloadLen s).toNat
    · rw [readFrameOn_wrap (by omega) hw] at h
      cases h
    by_cases hs : s.length < 12 + (payloadLen s).toNat
    · rw [readFrameOn_eof (by omega) (by omega) hs] at h
      cases h
    rw [readFrameOn_full (by omega) (by omega), finishFrame] at h
    split at h
    next g hd =>
      simp only [Except.ok.injEq, Prod.mk.injEq] at h
      obtain ⟨rfl, hrest⟩ := h
      obtain ⟨hlt, tail, htail⟩ := deserialize_eq_ok_iff.mp hd
      have hsplit : s = g.wire ++ (tail ++ rest) := by
        rw [← List.append_assoc, ← htail, ← hrest, List.take_append_drop]
      -- the length field is `g`'s own, so nothing is left after `g`
      have hplen : (payloadLen s).toNat = g.payload.length := by
        rw [hsplit, payloadLen_wire _ hlt]
      have hnil : tail = [] := by
        have hl := congrArg List.length htail
        rw [List.length_take, List.length_append, wire_length] at hl
        apply List.eq_nil_of_length_eq_zero
        omega
      subst hnil
      exact ⟨by omega, by simpa using hsplit⟩
    next => cases h
  · rintro ⟨hw, rfl⟩
    have hplen := payloadLen_wire (f := f) rest (by omega)
    rw [readFrameOn_full (by omega) (by simp [hplen]), hplen,
      ← wire_length, List.take_left, List.drop_left, finishFrame]
    have hd := deserialize_wire (f := f) [] (by omega)
    rw [List.append_nil] at hd
    rw [hd]

/-- A stream that ends inside an emitted frame, or right before it, is
end of stream for the reader. -/
theorem readFrameOn_image_cut {s more : List Byte} {f : Frame}
    (hw : 12 + f.plen < 2 ^ 32) (hcut : f.image = s ++ more)
    (hmore : more ≠ []) : readFrameOn s = .error .eof := by
  by_cases h12 : s.length < 12
  · exact readFrameOn_short h12
  -- the header is whole, so it still carries `f`'s length
  have hplen : (payloadLen s).toNat = f.plen := by
    have h := payloadLen_image f []
    rw [List.append_nil, hcut, ← payloadLen_take,
      List.take_append_of_le_length (by omega), payloadLen_take] at h
    exact h
  have hlen := congrArg List.length hcut
  rw [image_length, List.length_append] at hlen
  have hpos : 0 < more.length := List.length_pos_iff.mpr hmore
  exact readFrameOn_eof (by omega) (by omega) (by omega)

/-- An emitted frame is read off whole: it is decoded, and nothing is
left of it. -/
theorem readFrameOn_image {f : Frame} (hw : 12 + f.plen < 2 ^ 32) :
    readFrameOn f.image = finishFrame f.image [] := by
  have hplen : 12 + (payloadLen f.image).toNat = f.image.length := by
    have h := payloadLen_image f []
    rw [List.append_nil] at h
    rw [h, image_length]
  rw [readFrameOn_full (by rw [hplen, image_length]; exact hw) (by omega),
    hplen, List.take_length, List.drop_length]

theorem readFrameOn_cut {s more : List Byte} {f : Frame}
    (hw : 12 + f.payload.length < 2 ^ 32) (hcut : f.wire = s ++ more)
    (hmore : more ≠ []) : readFrameOn s = .error .eof := by
  have hlen : f.payload.length < 2 ^ 32 := by omega
  rw [← image_eq_wire hlen] at hcut
  exact readFrameOn_image_cut (by rw [plen_eq hlen]; exact hw) hcut hmore

/-- A frame arriving: the reader has it once it is there whole, and
waits until then. -/
theorem readFrameOn_arriving {s more : List Byte} {f : Frame}
    (hw : 12 + f.payload.length < 2 ^ 32) (h : s ++ more = f.wire) :
    (more = [] ∧ readFrameOn s = .ok (f, []))
      ∨ (more ≠ [] ∧ readFrameOn s = .error .eof) := by
  by_cases hmore : more = []
  · refine .inl ⟨hmore, readFrameOn_ok_iff.mpr ⟨hw, ?_⟩⟩
    rw [List.append_nil, ← h, hmore, List.append_nil]
  · exact .inr ⟨hmore, readFrameOn_cut hw h.symm hmore⟩

/-- Framing is decided by a prefix: a failure that is not the end of the
stream stays that failure whatever arrives behind. -/
theorem readFrameOn_append_error {s : List Byte} {e : ReadError}
    (h : readFrameOn s = .error e) (he : e ≠ .eof) (more : List Byte) :
    readFrameOn (s ++ more) = .error e := by
  by_cases h12 : s.length < 12
  · rw [readFrameOn_short h12] at h
    injection h with h
    exact absurd h.symm he
  have hplen : payloadLen (s ++ more) = payloadLen s := by
    rw [← payloadLen_take, List.take_append_of_le_length (by omega),
      payloadLen_take]
  by_cases hw : 2 ^ 32 ≤ 12 + (payloadLen s).toNat
  · rw [readFrameOn_wrap (by omega) hw] at h
    rw [readFrameOn_wrap (by rw [List.length_append]; omega) (hplen ▸ hw), h]
  by_cases hs : s.length < 12 + (payloadLen s).toNat
  · rw [readFrameOn_eof (by omega) (by omega) hs] at h
    injection h with h
    exact absurd h.symm he
  -- header and payload are there already
  rw [readFrameOn_full (by omega) (by omega), finishFrame] at h
  rw [readFrameOn_full (hplen ▸ by omega)
    (by rw [hplen, List.length_append]; omega), hplen,
    List.take_append_of_le_length (by omega), finishFrame]
  split at h
  next => cases h
  next what hd => exact h

-- =========================================================== buffer safety

/-- What the reader's memory accesses need: a buffer of length exactly
`12 + payload_len`, into which the header copy and then the read of
`payload_len` bytes at offset 12 both fit. -/
def BufferFits (r : Endpoint) (hdr : List Byte) : Prop :=
  (r.frameBuf hdr).length = 12 + (payloadLen hdr).toNat
    ∧ ∃ full, memcpy (r.frameBuf hdr) 0 hdr = .ok full
      ∧ ∀ body : List Byte, body.length = (payloadLen hdr).toNat →
        ∃ full', memcpy full 12 body = .ok full'

/-- The buffer of every reader is long enough exactly for the headers
whose `12 + payload_len` does not wrap in 32 bits. -/
theorem bufferFits_iff (r : Endpoint) (hdr : List Byte)
    (hlen : hdr.length = 12) :
    BufferFits r hdr ↔ (payloadLen hdr).toNat < 2 ^ 32 - 12 := by
  have hlt := (payloadLen hdr).isLt
  unfold BufferFits
  rw [r.frameBuf_eq]
  constructor
  · rintro ⟨hsize, -⟩
    rw [frameBuf_length] at hsize
    omega
  · intro hw
    have hcopy := memcpy_frameBuf hlen (by omega)
    refine ⟨?_, _, hcopy, fun body hbody => ⟨_, memcpy_body hlen ?_⟩⟩
    · rw [frameBuf_length]
      omega
    · rw [List.length_replicate, hbody]

/-- A header announcing two payload bytes meets the condition. -/
theorem bufferFits_iff_two :
    BufferFits .tcpServer (Frame.header ⟨.telemetry, [0xAB#8, 0xCD#8]⟩) :=
  (bufferFits_iff .tcpServer _ (by decide)).mpr (by decide)

/-- The all-ones length field in an otherwise well-formed header. -/
def wrapHeader : List Byte :=
  magic ++ [version] ++ [MsgType.auth.code]
    ++ [0xFF#8, 0xFF#8, 0xFF#8, 0xFF#8] ++ [0xFF#8, 0xFF#8]

/-- At `payload_len = 2^32 - 1` the buffer has 11 bytes and the header
copy leaves it, in all three readers. -/
theorem wrapHeader_not_bufferFits :
    wrapHeader.length = 12 ∧ (payloadLen wrapHeader).toNat = 2 ^ 32 - 1
      ∧ ∀ r : Endpoint, (r.frameBuf wrapHeader).length = 11
        ∧ ¬ BufferFits r wrapHeader := by
  have hlen : wrapHeader.length = 12 := by decide
  have hplen : (payloadLen wrapHeader).toNat = 2 ^ 32 - 1 := by decide
  refine ⟨hlen, hplen, fun r => ⟨?_, fun hfits => ?_⟩⟩
  · rw [r.frameBuf_eq, frameBuf_length, hplen]
    rfl
  · have hsize := hfits.1
    rw [r.frameBuf_eq, frameBuf_length, hplen] at hsize
    omega

-- ========================================================= stream framing

/-- The bytes of a list of frames, back to back. -/
def wires (fs : List Frame) : List Byte := (fs.map Frame.wire).flatten

theorem writeFrames_eq (w : Endpoint) {fs : List Frame}
    (h : ∀ f ∈ fs, 12 + f.payload.length < 2 ^ 32) :
    w.writeFrames fs = some (wires fs) := by
  induction fs with
  | nil => rfl
  | cons f fs ih =>
      have hf := serialize_eq_wire (h f (List.mem_cons_self ..))
      have hrest := ih fun g hg => h g (List.mem_cons_of_mem _ hg)
      rw [Endpoint.writeFrames, w.writeFrame_eq, hf, hrest]
      rfl

/-- Reading past the frames of a stream continues with what follows
them. -/
theorem readFrames_wires (r : Endpoint) {fs : List Frame} (n : Nat)
    (s : List Byte) (h : ∀ f ∈ fs, 12 + f.payload.length < 2 ^ 32) :
    r.readFrames (fs.length + n) (wires fs ++ s)
      = (fs ++ (r.readFrames n s).1, (r.readFrames n s).2) := by
  induction fs with
  | nil => simp [wires]
  | cons f fs ih =>
      have hf := h f (List.mem_cons_self ..)
      have hrest := ih fun g hg => h g (List.mem_cons_of_mem _ hg)
      have hread : r.readFrame (wires (f :: fs) ++ s)
          = .ok (f, wires fs ++ s) := by
        rw [r.readFrame_eq]
        refine readFrameOn_ok_iff.mpr ⟨hf, ?_⟩
        simp [wires]
      rw [List.length_cons, Nat.add_right_comm, Endpoint.readFrames, hread]
      simp only [hrest, List.cons_append]

/-- Stream framing, for every writer and every reader of the protocol:
repeated reads on a stream of written frames return the frames in order
and leave the tail; a stream cut strictly inside a frame gives the whole
frames before the cut and then end of stream; and a frame is returned
only off its own complete bytes. -/
theorem stream_framing (w r : Endpoint) (fs : List Frame)
    (h : ∀ f ∈ fs, 12 + f.payload.length < 2 ^ 32) :
    ∃ bytes, w.writeFrames fs = some bytes
      ∧ (∀ tail, r.readFrames fs.length (bytes ++ tail) = (fs, tail, none))
      ∧ (∀ f out cut more n, 12 + f.payload.length < 2 ^ 32 →
        w.writeFrame f = some out → out = cut ++ more → more ≠ [] →
        r.readFrames (fs.length + (n + 1)) (bytes ++ cut)
          = (fs, cut, some .eof))
      ∧ (∀ s f rest, r.readFrame s = .ok (f, rest) →
        ∃ out, w.writeFrame f = some out ∧ s = out ++ rest) := by
  refine ⟨wires fs, writeFrames_eq w h, ?_, ?_, ?_⟩
  · intro tail
    have hread := readFrames_wires r 0 tail h
    simpa [Endpoint.readFrames] using hread
  · intro f out cut more n hf hout hcut hmore
    rw [w.writeFrame_eq, serialize_eq_wire hf] at hout
    injection hout with hout
    have heof := readFrameOn_cut hf (hout.trans hcut) hmore
    rw [readFrames_wires r (n + 1) cut h, Endpoint.readFrames,
      r.readFrame_eq, heof]
    simp
  · intro s f rest hread
    rw [r.readFrame_eq] at hread
    obtain ⟨hf, hs⟩ := readFrameOn_ok_iff.mp hread
    refine ⟨f.wire, ?_, hs⟩
    rw [w.writeFrame_eq, serialize_eq_wire hf]

/-- An AUTH and a TELEMETRY frame written by the client and read by the
server, once followed by the first byte of the next frame, once by that
frame cut inside its payload. -/
theorem stream_framing_cut :
    let fs : List Frame :=
      [⟨.auth, [0x61#8, 0x62#8]⟩, ⟨.telemetry, [0x01#8, 0x02#8, 0x03#8]⟩]
    let next : Frame := ⟨.auth, [0x63#8, 0x64#8]⟩
    ∃ bytes, Endpoint.client.writeFrames fs = some bytes
      ∧ Endpoint.tcpServer.readFrames 2 (bytes ++ [0x4E#8])
        = (fs, [0x4E#8], none)
      ∧ Endpoint.tcpServer.readFrames 3 (bytes ++ next.wire.take 13)
        = (fs, next.wire.take 13, some .eof) := by
  intro fs next
  obtain ⟨bytes, hw, hr, hcut, -⟩ :=
    stream_framing .client .tcpServer fs (by simp [fs])
  have hnext : Endpoint.client.writeFrame next = some next.wire := by
    rw [Endpoint.writeFrame_eq, serialize_eq_wire (by decide)]
  refine ⟨bytes, hw, hr _, ?_⟩
  exact hcut next next.wire (next.wire.take 13) (next.wire.drop 13) 0
    (by decide) hnext (List.take_append_drop 13 _).symm (by decide)

end EdgeIpc.Ats
