/-
Frames over a byte stream: the three frame readers and the frame writers
of the server and the client (TcpServer.cpp, TlsServer.cpp,
TelemetryClient.cpp).

# The stream

`asio::async_read` of `n` bytes completes with exactly `n` bytes or
fails, however the transport chunks them. A connection is therefore the
list of bytes not yet read, and a read that asks for more than there are
is `eof`: at the end of a closed stream that is the error the source
catches, on a stream still open it is where the coroutine waits.

# The buffer

A reader allocates `full(12 + plen)`, copies the 12 header bytes into it
and reads `plen` bytes behind them. `12 + plen` is a `uint32_t` addition
and is widened to `size_t` only afterwards; `frameBuf` keeps that. When
it wraps the buffer is shorter than the header and the copy runs over
its end: `outOfBounds`, undefined behaviour in C++.

The three readers are the same text over three stream types, so they are
one function with three names.
-/
import EdgeIpc.Ats.Frame

namespace EdgeIpc.Ats

open Lib

-- ============================================================= the stream

/-- How a frame read can fail: the stream ends first
(`boost::system::system_error`, `asio::error::eof`), the bytes are no
frame (`std::invalid_argument` from `deserialize`), or a store leaves
the buffer. -/
inductive ReadError where
  | eof
  | invalidArgument (what : String)
  | outOfBounds
  deriving DecidableEq, Repr

/-- `asio::async_read` of exactly `n` bytes. -/
def asyncRead (n : Nat) (s : List Byte) :
    Except ReadError (List Byte × List Byte) :=
  if n ≤ s.length then .ok (s.take n, s.drop n) else .error .eof

/-- A store into a heap buffer, unchecked in the source. -/
def memcpy (buf : List Byte) (off : Nat) (bs : List Byte) :
    Except ReadError (List Byte) :=
  match write buf off bs with
  | some buf' => .ok buf'
  | none => .error .outOfBounds

-- ============================================================ the readers

/-- `std::vector<std::byte> full(12 + plen)` for the header `hdr`. -/
def frameBuf (hdr : List Byte) : List Byte :=
  List.replicate (12#32 + payloadLen hdr).toNat 0#8

/-- `co_return Frame::deserialize(full)`. -/
def finishFrame (full rest : List Byte) :
    Except ReadError (Frame × List Byte) :=
  match Frame.deserialize full with
  | .ok f => .ok (f, rest)
  | .error what => .error (.invalidArgument what)

/-- The body the three readers share: header, buffer, payload, decode. -/
def readFrameOn (s : List Byte) : Except ReadError (Frame × List Byte) := do
  let (hdr, s) ← asyncRead 12 s
  let plen := (payloadLen hdr).toNat
  let full ← memcpy (frameBuf hdr) 0 hdr
  if 0 < plen then
    let (body, s) ← asyncRead plen s
    let full ← memcpy full 12 body
    finishFrame full s
  else
    finishFrame full s

/-- `TcpServer::read_frame`. -/
def TcpServer.readFrame := readFrameOn

/-- `TlsServer::read_frame_tls`, on the decrypted stream. -/
def TlsServer.readFrameTls := readFrameOn

/-- `read_frame_plain` of the client. -/
def TelemetryClient.readFramePlain := readFrameOn

-- ============================================================ the writers

/-- `TcpServer::write_frame`: what `async_write` is handed. -/
def TcpServer.writeFrame := Frame.serialize

/-- `TlsServer::write_frame_tls`. -/
def TlsServer.writeFrameTls := Frame.serialize

/-- `write_frame_plain` of the client. -/
def TelemetryClient.writeFramePlain := Frame.serialize

-- ========================================================== the endpoints

/-- The three pieces of code that speak the protocol. -/
inductive Endpoint where
  | tcpServer | tlsServer | client
  deriving DecidableEq, Repr

/-- The endpoint's frame reader. -/
def Endpoint.readFrame :
    Endpoint → List Byte → Except ReadError (Frame × List Byte)
  | .tcpServer => TcpServer.readFrame
  | .tlsServer => TlsServer.readFrameTls
  | .client => TelemetryClient.readFramePlain

/-- The buffer that reader allocates for a header. -/
def Endpoint.frameBuf : Endpoint → List Byte → List Byte
  | .tcpServer | .tlsServer | .client => Ats.frameBuf

/-- The endpoint's frame writer. -/
def Endpoint.writeFrame : Endpoint → Frame → Option (List Byte)
  | .tcpServer => TcpServer.writeFrame
  | .tlsServer => TlsServer.writeFrameTls
  | .client => TelemetryClient.writeFramePlain

-- ========================================================== whole streams

/-- Call the reader up to `n` times, stopping at the first failure: the
frames read, the bytes still unread, and the failure if there was
one. -/
def Endpoint.readFrames (r : Endpoint) :
    Nat → List Byte → List Frame × List Byte × Option ReadError
  | 0, s => ([], s, none)
  | n + 1, s =>
      match r.readFrame s with
      | .error e => ([], s, some e)
      | .ok (f, s') =>
          let (fs, rest, e) := r.readFrames n s'
          (f :: fs, rest, e)

/-- Write frames one after the other onto one stream. -/
def Endpoint.writeFrames (w : Endpoint) : List Frame → Option (List Byte)
  | [] => some []
  | f :: fs => do
      let bytes ← w.writeFrame f
      let rest ← w.writeFrames fs
      some (bytes ++ rest)

end EdgeIpc.Ats
