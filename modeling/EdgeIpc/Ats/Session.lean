/-
One server session: `TcpServer::handle_session` and
`TlsServer::handle_tls_session` (`src/TcpServer.cpp`,
`src/TlsServer.cpp`), with the token validator they ask
(`src/JwtValidator.cpp`).

# The coroutine

A session suspends at its socket operations and runs between them. Its
control points are those operations and the repository calls, and `run`
takes the session from one to the next. The two functions are the same
text over two stream types, behind a handshake in the second, so they
are one `run` with two names and two log tags.

# What the outside decides

Bytes arrive in any portions, and at some point the stream may end, with
one of the errors a read then reports (`close`). A read is enabled once
it can return or fail: on an open stream without a whole frame the
coroutine waits. Writes and repository calls fail at the environment's
choice, so every `run` carries two answers, the socket's and the
database's, and each control point reads the one it needs. A repository
call that throws may have stored its row all the same.

A read whose header makes `12 + payload_len` wrap stores outside its
buffer; the model stops there (`undefined`) and says nothing more.

`effects` records, in order, the repository calls with their outcome,
the frames handed to `async_write` and the lines logged. `frames` (the
frames read) and `received` (the bytes arrived) are not in the source.
-/
import EdgeIpc.Ats.Pool
import EdgeIpc.Ats.Wire

namespace EdgeIpc.Ats

open Lib

-- ========================================================= the validator

/-- `struct ValidationResult`. -/
structure ValidationResult where
  ok : Bool := false
  subject : String := ""
  errorDetail : String := ""
deriving Repr, DecidableEq

/-- `ISSUER`. -/
def issuer : String := "https://auth.nexburg.internal"

/-- `LEEWAY_S`. -/
def leewayS : Nat := 30

/-- `JwtValidator::validate`. `env` is `getenv("JWT_SECRET")`, and `jwt`
is the token library: given the HS256 secret, the issuer, the leeway and
the token, the subject of a token it decodes and verifies, or the text of
its exception. -/
def JwtValidator.validate (env : Option String)
    (jwt : String → String → Nat → List Byte → Except String String)
    (token : List Byte) : ValidationResult :=
  match env with
  | none =>
      { errorDetail := "JWT_SECRET environment variable not set" }
  | some secret =>
      match jwt secret issuer leewayS token with
      | .error what => { errorDetail := what }
      | .ok sub =>
          if sub = "" then { errorDetail := "empty subject claim" }
          else { ok := true, subject := sub }

-- ===================================================== the outside's part

/-- `boost::system::error_code`, as far as the handlers look at it. -/
inductive SysError where
  | eof
  | connectionReset
  | other (what : String)
deriving Repr, DecidableEq

/-- How a repository call came out; a call that threw may have stored
its row. -/
inductive DbOutcome where
  | ok
  | threw (what : String) (stored : Bool)
deriving Repr, DecidableEq

/-- The row is in the database. -/
def DbOutcome.committed : DbOutcome → Bool
  | .ok => true
  | .threw _ stored => stored

/-- What a session does to the outside. -/
inductive Effect where
  | insertAuthLog (row : AuthLogRow) (db : DbOutcome)
  | insertTelemetry (row : TelemetryRow) (db : DbOutcome)
  | write (f : Frame) (io : Option SysError)
  | log (text : String)
deriving Repr, DecidableEq

-- ============================================================ the session

/-- The two servers. -/
inductive Server where
  | tcp
  | tls
deriving Repr, DecidableEq

def Server.endpoint : Server → Endpoint
  | .tcp => .tcpServer
  | .tls => .tlsServer

/-- The tag of the server's log lines. -/
def Server.tag : Server → String
  | .tcp => "[TcpServer]"
  | .tls => "[TlsServer]"

/-- What a session is run with: the server, its validator's verdicts and
the peer's address. -/
structure SessionCfg where
  server : Server
  validate : List Byte → ValidationResult
  peerIp : String

/-- Where the coroutine stands. The subject is `result.subject`, alive
from the verdict on. -/
inductive SessionPc where
  | handshake
  | readAuth
  | insertAuth (token : List Byte)
  | writeError
  | writeAuthAck (subject : String)
  | readTelemetry (subject : String)
  | insertTelemetry (subject : String) (row : TelemetryRow)
  | writeAck (subject : String)
  | done
  | undefined
deriving Repr, DecidableEq

structure Session where
  pc : SessionPc
  /-- bytes arrived and not yet read -/
  inbox : List Byte := []
  /-- how the stream ended, once it has -/
  closed : Option SysError := none
  /-- bytes written -/
  outbox : List Byte := []
  effects : List Effect := []
  frames : List Frame := []
  received : List Byte := []
deriving Repr, DecidableEq

inductive SessionAct where
  | arrive (bs : List Byte)
  | close (e : SysError)
  | run (io : Option SysError) (db : DbOutcome)
deriving Repr, DecidableEq

/-- `Frame err; err.msg_type = MsgType::ERROR;` -/
def errorFrame : Frame := { msgType := .error }

/-- `Frame ack; ack.msg_type = MsgType::ACK;` -/
def ackFrame : Frame := { msgType := .ack }

/-- The row `insert_auth_log` is called with for a token. -/
def SessionCfg.authRow (cfg : SessionCfg) (token : List Byte) :
    AuthLogRow :=
  let result := cfg.validate token
  { clientSubject := if result.subject = "" then "unknown" else result.subject
    event := if result.ok then "AUTH_OK" else "AUTH_FAIL_SIG"
    ipAddr := cfg.peerIp }

/-- A `memcpy` into an integer of a little-endian host. -/
def ofHost (bs : List Byte) : Nat := ofBigEndian bs.reverse

/-- The row of a TELEMETRY payload; a payload under 20 bytes has none. -/
def telemetryRow? (payload : List Byte) (subject : String) :
    Option TelemetryRow :=
  if 20 ≤ payload.length then
    some { sensorId := BitVec.ofNat 32 (ofHost (slice payload 0 4))
           timestampUs := BitVec.ofNat 64 (ofHost (slice payload 4 8))
           value := BitVec.ofNat 64 (ofHost (slice payload 12 8))
           clientSubject := subject }
  else none

namespace Session

/-- The two `catch` blocks: the end of a stream and a reset are silent,
everything else is logged. -/
def throwSystem (cfg : SessionCfg) (e : SysError) (s : Session) : Session :=
  let logged : List Effect := match e with
    | .eof | .connectionReset => []
    | .other what => [.log (cfg.server.tag ++ " session error: " ++ what)]
  { s with pc := .done, effects := s.effects ++ logged }

@[inherit_doc throwSystem]
def throwStd (cfg : SessionCfg) (what : String) (s : Session) : Session :=
  { s with
    pc := .done
    effects := s.effects ++ [.log (cfg.server.tag ++ " exception: " ++ what)] }

/-- `co_await read_frame(socket)`, continued with `k`. -/
def read (cfg : SessionCfg) (k : Frame → SessionPc) (s : Session) :
    Option Session :=
  match cfg.server.endpoint.readFrame s.inbox with
  | .ok (f, rest) =>
      some { s with pc := k f, inbox := rest, frames := s.frames ++ [f] }
  | .error .eof => s.closed.map fun e => s.throwSystem cfg e
  | .error (.invalidArgument what) => some (s.throwStd cfg what)
  | .error .outOfBounds => some { s with pc := .undefined }

/-- `co_await write_frame(socket, f)`, continued at `next`. -/
def write (cfg : SessionCfg) (f : Frame) (io : Option SysError)
    (next : SessionPc) (s : Session) : Session :=
  match cfg.server.endpoint.writeFrame f with
  | none => { s with pc := .undefined }
  | some bytes =>
      let s' := { s with effects := s.effects ++ [Effect.write f io] }
      match io with
      | none => { s' with pc := next, outbox := s.outbox ++ bytes }
      | some e => s'.throwSystem cfg e

/-- A repository call, recorded as `e`, continued at `next`. -/
def call (cfg : SessionCfg) (e : Effect) (db : DbOutcome)
    (next : SessionPc) (s : Session) : Session :=
  let s' := { s with effects := s.effects ++ [e] }
  match db with
  | .ok => { s' with pc := next }
  | .threw what _ => s'.throwStd cfg what

/-- After the first frame. -/
def onAuthFrame (f : Frame) : SessionPc :=
  if f.msgType ≠ .auth then .writeError else .insertAuth f.payload

/-- After a frame of the telemetry loop. -/
def onTelemetryFrame (subject : String) (f : Frame) : SessionPc :=
  if f.msgType ≠ .telemetry then .done
  else
    match telemetryRow? f.payload subject with
    | some row => .insertTelemetry subject row
    | none => .writeAck subject

/-- After the verdict has been logged. -/
def onVerdict (result : ValidationResult) : SessionPc :=
  if result.ok then .writeAuthAck result.subject else .writeError

/-- From one control point to the next. -/
def run (cfg : SessionCfg) (io : Option SysError) (db : DbOutcome)
    (s : Session) : Option Session :=
  match s.pc with
  | .handshake =>
      match io with
      | none => some { s with pc := .readAuth }
      | some e => some (s.throwSystem cfg e)
  | .readAuth => s.read cfg onAuthFrame
  | .insertAuth token =>
      some (s.call cfg (.insertAuthLog (cfg.authRow token) db) db
        (onVerdict (cfg.validate token)))
  | .writeError => some (s.write cfg errorFrame io .done)
  | .writeAuthAck subject =>
      some (s.write cfg ackFrame io (.readTelemetry subject))
  | .readTelemetry subject => s.read cfg (onTelemetryFrame subject)
  | .insertTelemetry subject row =>
      some (s.call cfg (.insertTelemetry row db) db (.writeAck subject))
  | .writeAck subject =>
      some (s.write cfg ackFrame io (.readTelemetry subject))
  | .done | .undefined => none

/-- The peer's side of the stream, readable once the handshake is over:
bytes arrive until it ends. -/
def feed (s : Session) (bs : List Byte) (e : Option SysError) :
    Option Session :=
  if s.pc = .handshake ∨ s.closed.isSome then none
  else some { s with
    inbox := s.inbox ++ bs
    received := s.received ++ bs
    closed := e }

/-- One action of the session or of its peer, if enabled. -/
def step (cfg : SessionCfg) (a : SessionAct) (s : Session) :
    Option Session :=
  match a with
  | .arrive bs => s.feed bs none
  | .close e => s.feed [] (some e)
  | .run io db => s.run cfg io db

end Session

/-- `TcpServer::handle_session`, about to read the AUTH frame. -/
def TcpServer.handleSession : Session := { pc := .readAuth }

/-- `TlsServer::handle_tls_session`, about to shake hands. -/
def TlsServer.handleTlsSession : Session := { pc := .handshake }

end EdgeIpc.Ats
