/-
The telemetry client, `run_client` (`src/TelemetryClient.cpp`) with
`SensorFrame::serialize` (`include/SensorFrame.h`), and the connection
that joins it to one server session.

# The coroutine

As in the session, the control points are the socket operations and
`run` goes from one to the next. The client sends its token, waits for
the answer, and then sends its readings one at a time, waiting for a
frame after each. Only the type of the first answer is looked at. The
source makes its readings in the loop, 60 of them from a clock and a
noise source; here they are given with the client, in any number. An
exception leaves `run_client` and is rethrown in `main`: `threw`.

`sent` (the readings handed to the socket) and `acks` (the frames the
loop has consumed) are not in the source.

# The connection

A `Link` is the client, the session, and the bytes under way in the two
directions. What a side writes is appended to its channel; delivery
takes any number of bytes off the front of a channel, so every chunking
and every interleaving is a schedule. A side that has returned closes
its socket, and the other end sees that once the bytes before it have
been delivered.
-/
import EdgeIpc.Ats.Session

namespace EdgeIpc.Ats

open Lib

-- ============================================================ the reading

/-- `struct SensorFrame`; `value` is the bit pattern of the `double`. -/
structure SensorFrame where
  sensorId : BitVec 32 := 0#32
  timestampUs : BitVec 64 := 0#64
  value : BitVec 64 := 0#64
deriving Repr, DecidableEq

/-- A `memcpy` out of an integer of a little-endian host. -/
def toHost (n v : Nat) : List Byte := (bigEndian n v).reverse

/-- `SensorFrame::serialize`. `none` is a store outside the buffer. -/
def SensorFrame.serialize (sf : SensorFrame) : Option (List Byte) := do
  let cur := (List.replicate (4 + 8 + 8) 0#8, 0)
  let cur ← emit (toHost 4 sf.sensorId.toNat) cur
  let cur ← emit (toHost 8 sf.timestampUs.toNat) cur
  write cur.1 cur.2 (toHost 8 sf.value.toNat)

-- ============================================================= the client

/-- What a client is run with. -/
structure ClientCfg where
  token : List Byte
  readings : List SensorFrame

/-- What leaves `run_client`. -/
inductive Thrown where
  | system (e : SysError)
  | std (what : String)
deriving Repr, DecidableEq

/-- Where the coroutine stands; `todo` are the readings of the loop's
later rounds. -/
inductive ClientPc where
  | writeAuth
  | readAuthAck
  | writeTelemetry (sf : SensorFrame) (todo : List SensorFrame)
  | readAck (todo : List SensorFrame)
  | done
  | threw (e : Thrown)
  | undefined
deriving Repr, DecidableEq

structure Client where
  pc : ClientPc
  /-- bytes arrived and not yet read -/
  inbox : List Byte := []
  /-- how the stream ended, once it has -/
  closed : Option SysError := none
  /-- bytes written -/
  outbox : List Byte := []
  sent : List SensorFrame := []
  acks : Nat := 0
deriving Repr, DecidableEq

/-- `auth.msg_type = MsgType::AUTH; auth.payload.assign(...)` -/
def authFrame (token : List Byte) : Frame :=
  { msgType := .auth, payload := token }

/-- `tel.msg_type = MsgType::TELEMETRY; tel.payload = sf_bytes;` -/
def telemetryFrame (bytes : List Byte) : Frame :=
  { msgType := .telemetry, payload := bytes }

namespace Client

/-- `co_await read_frame_plain(socket)`, continued with `k`. -/
def read (k : Frame → Client → Client) (c : Client) : Option Client :=
  match TelemetryClient.readFramePlain c.inbox with
  | .ok (f, rest) => some (k f { c with inbox := rest })
  | .error .eof => c.closed.map fun e => { c with pc := .threw (.system e) }
  | .error (.invalidArgument what) =>
      some { c with pc := .threw (.std what) }
  | .error .outOfBounds => some { c with pc := .undefined }

/-- `co_await write_frame_plain(socket, f)`, continued with `k`. -/
def write (f : Frame) (io : Option SysError) (k : Client → Client)
    (c : Client) : Client :=
  match TelemetryClient.writeFramePlain f with
  | none => { c with pc := .undefined }
  | some bytes =>
      match io with
      | none => k { c with outbox := c.outbox ++ bytes }
      | some e => { c with pc := .threw (.system e) }

/-- The head of the loop: the next reading, or the end. -/
def next : List SensorFrame → ClientPc
  | [] => .done
  | sf :: todo => .writeTelemetry sf todo

/-- After the answer to AUTH. -/
def onAuthAck (cfg : ClientCfg) (ack : Frame) (c : Client) : Client :=
  if ack.msgType ≠ .ack then
    { c with pc := .threw (.std "AUTH rejected by server") }
  else { c with pc := next cfg.readings }

/-- After the answer to a reading, which is dropped unseen. -/
def onAck (todo : List SensorFrame) (_ack : Frame) (c : Client) : Client :=
  { c with pc := next todo, acks := c.acks + 1 }

/-- From one control point to the next. -/
def run (cfg : ClientCfg) (io : Option SysError) (c : Client) :
    Option Client :=
  match c.pc with
  | .writeAuth =>
      some (c.write (authFrame cfg.token) io fun c =>
        { c with pc := .readAuthAck })
  | .readAuthAck => c.read (onAuthAck cfg)
  | .writeTelemetry sf todo =>
      match sf.serialize with
      | none => some { c with pc := .undefined }
      | some bytes =>
          some (c.write (telemetryFrame bytes) io fun c =>
            { c with pc := .readAck todo, sent := c.sent ++ [sf] })
  | .readAck todo => c.read (onAck todo)
  | .done | .threw _ | .undefined => none

/-- The server's side of the stream: bytes arrive until it ends. -/
def feed (c : Client) (bs : List Byte) (e : Option SysError) :
    Option Client :=
  if c.closed.isSome then none
  else some { c with inbox := c.inbox ++ bs, closed := e }

/-- The coroutine has returned or thrown, and its socket is closed. -/
def finished (c : Client) : Bool :=
  match c.pc with
  | .done | .threw _ => true
  | _ => false

end Client

-- ========================================================= the connection

/-- What a connection is run with: the client's token and readings, the
server's validator and the client's address. -/
structure LinkCfg extends ClientCfg where
  validate : List Byte → ValidationResult
  peerIp : String

def LinkCfg.session (cfg : LinkCfg) : SessionCfg :=
  { server := .tcp, validate := cfg.validate, peerIp := cfg.peerIp }

structure Link where
  client : Client := { pc := .writeAuth }
  server : Session := TcpServer.handleSession
  /-- bytes under way to the server -/
  up : List Byte := []
  /-- bytes under way to the client -/
  down : List Byte := []
deriving Repr, DecidableEq

/-- The two sides' steps, deliveries of up to `n` bytes, and the end of
each direction. -/
inductive LinkAct where
  | client
  | server
  | deliverUp (n : Nat)
  | deliverDown (n : Nat)
  | closeUp (e : SysError)
  | closeDown (e : SysError)
deriving Repr, DecidableEq

/-- What a step has added to the bytes written. -/
def written (old new : List Byte) : List Byte := new.drop old.length

namespace Link

/-- The connection has just been accepted. -/
def init : Link := {}

/-- The channels are reliable, so writes succeed, and so do the
repository's inserts. -/
def step (cfg : LinkCfg) (a : LinkAct) (l : Link) : Option Link :=
  match a with
  | .client =>
      (l.client.run cfg.toClientCfg none).map fun c =>
        { l with client := c, up := l.up ++ written l.client.outbox c.outbox }
  | .server =>
      (l.server.run cfg.session none .ok).map fun s =>
        { l with
          server := s, down := l.down ++ written l.server.outbox s.outbox }
  | .deliverUp n =>
      (l.server.feed (l.up.take n) none).map fun s =>
        { l with server := s, up := l.up.drop n }
  | .deliverDown n =>
      (l.client.feed (l.down.take n) none).map fun c =>
        { l with client := c, down := l.down.drop n }
  | .closeUp e =>
      if l.client.finished ∧ l.up = [] then
        (l.server.feed [] (some e)).map fun s => { l with server := s }
      else none
  | .closeDown e =>
      if l.server.pc = .done ∧ l.down = [] then
        (l.client.feed [] (some e)).map fun c => { l with client := c }
      else none

end Link

end EdgeIpc.Ats
