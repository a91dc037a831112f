/-
The telemetry server (`src/main.cpp`, `TcpServer::listen`): any number of
connections, each served by a coroutine of its own, all of them on one
validator, one repository and one pool.

# The system

The parts are those of Session.lean and Pool.lean, and their steps are
the steps here. A coroutine that has come to a repository call enters the
pool (`call`), the call takes its steps there (`db`), and when it has
returned or thrown the coroutine goes on with what came out (`resume`).
In between every other connection may do anything. A repository call
blocks the thread it runs on, and a coroutine makes one at a time, so the
pool's threads are named by the connections they run for.

The acceptor takes connections in any order (`accept`); what a peer sends
and when it goes away is the outside's choice, and so are the socket's
and the database's answers and the connections the database loses. Left
out is the signal handler, which stops the `io_context`.

# What is added to the source

`stored` says whether the call in progress has committed its row, and
`committers` whose call committed each row of the database. No step
reads them but to hand `stored` to the session's record.
-/
import EdgeIpc.Ats.Session

namespace EdgeIpc.Ats

open Lib

/-- A connection that has been accepted: its coroutine, and whether it is
inside a repository call. -/
structure Conn where
  session : Session
  calling : Bool := false
  stored : Bool := false
deriving Repr, DecidableEq

/-- What all connections share, and where each comes from. The validator
is one, but it looks at the clock: each connection's AUTH frame meets it
at a time of its own. -/
structure ServerCfg (n : Nat) where
  server : Server
  validate : Fin n → List Byte → ValidationResult
  peerIp : Fin n → String

/-- The session of a connection is run with the server's parts. -/
def ServerCfg.session {n : Nat} (cfg : ServerCfg n) (i : Fin n) :
    SessionCfg where
  server := cfg.server
  validate := cfg.validate i
  peerIp := cfg.peerIp i

/-- The coroutine `listen` spawns. -/
def Server.handler : Server → Session
  | .tcp => TcpServer.handleSession
  | .tls => TlsServer.handleTlsSession

/-- The repository call a coroutine stands before. -/
def SessionCfg.insert? (cfg : SessionCfg) : SessionPc → Option Insert
  | .insertAuth token => some (.authLog (cfg.authRow token))
  | .insertTelemetry _ row => some (.telemetry row)
  | _ => none

/-- What the session records of a call that is over. -/
def CallResult.outcome (what : String) (stored : Bool) :
    CallResult → DbOutcome
  | .ok => .ok
  | .thrown => .threw what stored

/-- The server with `n` connections over its lifetime. -/
structure TelemetryServer (n : Nat) where
  conn : Fin n → Option Conn := fun _ => none
  pool : DbPool n := .init
  committers : List (Fin n) := []

inductive TelemetryAct (n : Nat) where
  | accept (i : Fin n)
  | arrive (i : Fin n) (bs : List Byte)
  | close (i : Fin n) (e : SysError)
  | run (i : Fin n) (io : Option SysError)
  | call (i : Fin n)
  | db (i : Fin n) (answer : Answer)
  | resume (i : Fin n) (what : String)
  | lose (slot : Nat)
deriving Repr, DecidableEq

namespace TelemetryServer

variable {n : Nat}

/-- Connection `i` changes; the others stay. -/
def setConn (s : TelemetryServer n) (i : Fin n) (c : Conn) :
    TelemetryServer n :=
  { s with conn := fun j => if j = i then some c else s.conn j }

/-- The peer of connection `i` sends or leaves. -/
def peerStep (cfg : ServerCfg n) (i : Fin n) (a : SessionAct)
    (s : TelemetryServer n) : Option (TelemetryServer n) := do
  let c ← s.conn i
  let session ← c.session.step (cfg.session i) a
  some (s.setConn i { c with session })

/-- The coroutine of connection `i` between its repository calls. -/
def runStep (cfg : ServerCfg n) (i : Fin n) (io : Option SysError)
    (s : TelemetryServer n) : Option (TelemetryServer n) := do
  let c ← s.conn i
  match (cfg.session i).insert? c.session.pc with
  | some _ => none
  | none =>
      let session ← c.session.step (cfg.session i) (.run io .ok)
      some (s.setConn i { c with session })

/-- It enters a repository call. -/
def callStep (cfg : ServerCfg n) (i : Fin n) (s : TelemetryServer n) :
    Option (TelemetryServer n) := do
  let c ← s.conn i
  let q ← (cfg.session i).insert? c.session.pc
  if c.calling then none
  else
    let pool ← s.pool.step (.call i q)
    some (({ s with pool }).setConn i
      { c with calling := true, stored := false })

/-- The call takes a step. -/
def dbStep (i : Fin n) (answer : Answer) (s : TelemetryServer n) :
    Option (TelemetryServer n) := do
  let c ← s.conn i
  let pool ← s.pool.step (.step i answer)
  let commits := s.pool.rows.length < pool.rows.length
  some (({ s with
      pool
      committers := if commits then s.committers ++ [i] else s.committers
    }).setConn i { c with stored := if commits then true else c.stored })

/-- The call is over, and the coroutine goes on. -/
def resumeStep (cfg : ServerCfg n) (i : Fin n) (what : String)
    (s : TelemetryServer n) : Option (TelemetryServer n) := do
  let c ← s.conn i
  if c.calling then
    match s.pool.pc i with
    | .returned r =>
        let session ← c.session.step (cfg.session i)
          (.run none (r.outcome what c.stored))
        some (s.setConn i { c with session, calling := false })
    | _ => none
  else none

/-- The transition function of the server. -/
def step (cfg : ServerCfg n) (a : TelemetryAct n) (s : TelemetryServer n) :
    Option (TelemetryServer n) :=
  match a with
  | .accept i =>
      match s.conn i with
      | none => some (s.setConn i { session := cfg.server.handler })
      | some _ => none
  | .arrive i bs => s.peerStep cfg i (.arrive bs)
  | .close i e => s.peerStep cfg i (.close e)
  | .run i io => s.runStep cfg i io
  | .call i => s.callStep cfg i
  | .db i answer => s.dbStep i answer
  | .resume i what => s.resumeStep cfg i what
  | .lose slot =>
      (s.pool.step (.lose slot)).map fun pool => { s with pool }

/-- Before the first connection. -/
def init : TelemetryServer n := {}

end TelemetryServer

end EdgeIpc.Ats
