/-
The database pool of the telemetry server and the two repository calls
that borrow from it (`src/DbPool.cpp`, `src/TelemetryRepository.cpp`),
as steps of session threads.

# What is atomic

A repository call runs through: the semaphore's `acquire` (blocks while
no permit is left), the mutex-protected rest of `DbPool::acquire`, the
start of the transaction, its `exec`, its `commit`, and
`DbPool::release`. Each of these is one step of the calling thread, and
the threads' steps interleave freely. The mutex makes the body of
`acquire` one step.

What the database answers is not the program's to choose: every thread
step carries an `Answer`, read by the steps that talk to the database (a
reconnect, the three statements) and ignored by the others. A connection
may also be lost between any two steps (`lose`).

# Where an exception goes

`insert_telemetry` and `insert_auth_log` enter their `try` only after
`acquire` has returned. A statement that throws is caught, the permit is
released and the exception passed on; a reconnect that throws leaves
`acquire` and the call directly, past the `release`.

Left out: the SQL texts and the connection string, which no step reads
back.
-/
import EdgeIpc.Lib.Threads

namespace EdgeIpc.Ats

open Lib

-- ================================================================= rows

/-- The arguments of `insert_telemetry`; `value` is the bit pattern of
the `double`. -/
structure TelemetryRow where
  sensorId : BitVec 32
  timestampUs : BitVec 64
  value : BitVec 64
  clientSubject : String
deriving Repr, DecidableEq

/-- The arguments of `insert_auth_log`. -/
structure AuthLogRow where
  clientSubject : String
  event : String
  ipAddr : String
deriving Repr, DecidableEq

/-- A repository call: which table, and the row. The two members run the
same steps with these parameters. -/
inductive Insert where
  | telemetry (row : TelemetryRow)
  | authLog (row : AuthLogRow)
deriving Repr, DecidableEq

/-- `TelemetryRepository::insert_telemetry`, as the call it makes. -/
def insertTelemetry (sensorId : BitVec 32) (timestampUs value : BitVec 64)
    (clientSubject : String) : Insert :=
  .telemetry ⟨sensorId, timestampUs, value, clientSubject⟩

/-- `TelemetryRepository::insert_auth_log`, as the call it makes. -/
def insertAuthLog (clientSubject event ipAddr : String) : Insert :=
  .authLog ⟨clientSubject, event, ipAddr⟩

-- ============================================================= the pool

/-- `DbPool::POOL_SIZE`. -/
def poolSize : Nat := 8

/-- A connection reference `acquire` returned: the index into `conns_`.
The serial number counts the executions of `acquire`'s body and is not
in the source; it says which one made this loan. -/
structure Loan where
  slot : Nat
  serial : Nat
deriving Repr, DecidableEq

/-- How a call ended. -/
inductive CallResult where
  | ok
  | thrown
deriving Repr, DecidableEq

/-- What the database does when asked. `inDoubt` is a commit that took
effect although the call threw. -/
inductive Answer where
  | ok
  | thrown
  | inDoubt
deriving Repr, DecidableEq

/-- Where a session thread stands in a repository call. -/
inductive InsertPc where
  /-- no call made yet -/
  | idle
  /-- at `sem_.acquire()` -/
  | semAcquire (q : Insert)
  /-- has its permit, before the locked body of `acquire` -/
  | locked (q : Insert)
  /-- at `pqxx::work txn{conn}` -/
  | beginWork (q : Insert) (l : Loan)
  /-- at `txn.exec` -/
  | execInsert (q : Insert) (l : Loan)
  /-- at `txn.commit` -/
  | commit (q : Insert) (l : Loan)
  /-- at `pool_.release()`, on the way out -/
  | release (l : Loan) (r : CallResult)
  /-- the last call is over -/
  | returned (r : CallResult)
deriving Repr, DecidableEq

/-- The connection the thread holds, from `acquire`'s return to
`release`. -/
def InsertPc.loan? : InsertPc → Option Loan
  | .beginWork _ l | .execInsert _ l | .commit _ l | .release l _ => some l
  | _ => none

/-- The thread has taken a permit and not given it back. -/
def InsertPc.hasPermit : InsertPc → Bool
  | .locked _ => true
  | p => p.loan?.isSome

/-- The thread is inside a repository call. -/
def InsertPc.inCall : InsertPc → Bool
  | .idle | .returned _ => false
  | _ => true

/-- `DbPool` with `n` session threads using it. `isOpen i` is
`conns_[i] && conns_[i]->is_open()`. -/
structure DbPool (n : Nat) where
  sem : Nat
  next : Nat
  isOpen : Nat → Bool
  /-- the rows committed, in order -/
  rows : List Insert
  pc : Fin n → InsertPc
  /-- executions of `acquire`'s body so far (not in the source) -/
  lent : Nat

/-- One scheduled action: a thread enters a call, a thread takes its
next step, a connection is lost. -/
inductive PoolAct (n : Nat) where
  | call (t : Fin n) (q : Insert)
  | step (t : Fin n) (answer : Answer)
  | lose (slot : Nat)
deriving Repr, DecidableEq

namespace DbPool

variable {n : Nat}

/-- The pool after its constructor: every connection made. -/
def init : DbPool n where
  sem := poolSize
  next := 0
  isOpen := fun _ => true
  rows := []
  pc := fun _ => .idle
  lent := 0

def goto (s : DbPool n) (t : Fin n) (p : InsertPc) : DbPool n :=
  { s with pc := move s.pc t p }

/-- `ensure_open` on `conns_[i]`: a closed one is replaced, and `none`
is the exception of the replacement's constructor. -/
def ensureOpen (s : DbPool n) (i : Nat) (answer : Answer) :
    Option (DbPool n) :=
  if s.isOpen i then some s
  else if answer = .ok then
    some { s with isOpen := fun j => if j = i then true else s.isOpen j }
  else none

/-- The locked body of `acquire`. The cursor moves before the connection
is checked, and nothing looks at which slots are still lent. -/
def acquireBody (s : DbPool n) (t : Fin n) (q : Insert)
    (answer : Answer) : DbPool n :=
  let idx := s.next
  let s' := { s with next := (s.next + 1) % poolSize, lent := s.lent + 1 }
  match s'.ensureOpen idx answer with
  | some s'' => s''.goto t (.beginWork q ⟨idx, s.lent⟩)
  | none => s'.goto t (.returned .thrown)

/-- A statement inside the `try`: on to the next one, or to the
`release` of the handler. -/
def statement (s : DbPool n) (t : Fin n) (l : Loan) (next : InsertPc)
    (answer : Answer) : DbPool n :=
  s.goto t (if answer = .ok then next else .release l .thrown)

/-- `txn.commit()`: the row is stored unless the database refused. -/
def commitWork (s : DbPool n) (t : Fin n) (q : Insert) (l : Loan)
    (answer : Answer) : DbPool n :=
  let s' := if answer = .thrown then s else { s with rows := s.rows ++ [q] }
  s'.statement t l (.release l .ok) answer

/-- The next step of a thread that is inside a call. -/
def threadStep (s : DbPool n) (t : Fin n) (answer : Answer) :
    Option (DbPool n) :=
  match s.pc t with
  | .idle | .returned _ => none
  | .semAcquire q =>
      if s.sem = 0 then none
      else some ({ s with sem := s.sem - 1 }.goto t (.locked q))
  | .locked q => some (s.acquireBody t q answer)
  | .beginWork q l => some (s.statement t l (.execInsert q l) answer)
  | .execInsert q l => some (s.statement t l (.commit q l) answer)
  | .commit q l => some (s.commitWork t q l answer)
  | .release _ r =>
      some ({ s with sem := s.sem + 1 }.goto t (.returned r))

/-- One scheduled action, if enabled. -/
def step (a : PoolAct n) (s : DbPool n) : Option (DbPool n) :=
  match a with
  | .call t q =>
      if (s.pc t).inCall then none else some (s.goto t (.semAcquire q))
  | .step t answer => s.threadStep t answer
  | .lose i =>
      some { s with isOpen := fun j => if j = i then false else s.isOpen j }

/-- Calls that have taken a permit and not given it back. -/
def inFlight (s : DbPool n) : Nat := count InsertPc.hasPermit s.pc

end DbPool

end EdgeIpc.Ats
