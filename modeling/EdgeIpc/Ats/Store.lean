/-
The database behind the pool (`postgres/init/001_schema.sql`): what the
table `telemetry` takes, and the pool of Pool.lean on top of a database
that is up.

# The columns

`sensor_id` is an `INT`: 32 bits and signed, while the program's
identifier is a `uint32_t`. The identifier is sent as a number, and an
`INSERT` of a number outside the column's type is an error that aborts
the statement. Which timestamps and values the other columns take is left
to the database; a `TEXT` takes every subject, and has taken this one
before, in `auth_log`.

# The answers

A database that is up answers every request of a repository call but the
`INSERT` of a row that does not fit. Then `exec` throws.
-/
import EdgeIpc.Ats.Pool

namespace EdgeIpc.Ats

-- ============================================================== the table

/-- A value of an `INT` column. -/
structure PgInt where
  val : Int
  inRange : -2147483648 ≤ val ∧ val ≤ 2147483647
deriving Repr, DecidableEq

/-- A number for an `INT` column; `none` is "integer out of range". -/
def PgInt.ofInt? (z : Int) : Option PgInt :=
  if h : -2147483648 ≤ z ∧ z ≤ 2147483647 then some ⟨z, h⟩ else none

/-- A row of the table `telemetry`, the serial key apart. -/
structure StoredTelemetry where
  sensorId : PgInt
  ts : Int
  value : BitVec 64
  clientSubject : String
deriving Repr, DecidableEq

/-- What else is to know of the database. -/
structure Postgres where
  /-- `to_timestamp($2::double precision / 1e6)` of a `timestamp_us`
  that has been cast to `double`; `none` is out of range -/
  toTimestamp : BitVec 64 → Option Int
  /-- the bit patterns a `DOUBLE PRECISION` takes -/
  acceptsValue : BitVec 64 → Bool
  acceptsAuthLog : AuthLogRow → Bool

namespace Postgres

/-- The `INSERT` of `insert_telemetry`: the row it makes, or `none` for an
error. -/
def insertRow (pg : Postgres) (row : TelemetryRow) :
    Option StoredTelemetry := do
  let sensorId ← PgInt.ofInt? row.sensorId.toNat
  let ts ← pg.toTimestamp row.timestampUs
  if pg.acceptsValue row.value then
    some { sensorId, ts, value := row.value,
           clientSubject := row.clientSubject }
  else none

/-- The database takes the row of a call. -/
def accepts (pg : Postgres) : Insert → Bool
  | .telemetry row => (pg.insertRow row).isSome
  | .authLog row => pg.acceptsAuthLog row

/-- The table after the given calls have committed. -/
def telemetryTable (pg : Postgres) (rows : List Insert) :
    List StoredTelemetry :=
  rows.filterMap fun
    | .telemetry row => pg.insertRow row
    | .authLog _ => none

/-- What a database that is up answers a thread. -/
def answer (pg : Postgres) : InsertPc → Answer
  | .execInsert q _ => if pg.accepts q then .ok else .thrown
  | _ => .ok

end Postgres

-- ================================================================ the pool

/-- One scheduled action: a thread enters a call, a thread takes its next
step. -/
inductive StoreAct (n : Nat) where
  | call (t : Fin n) (q : Insert)
  | step (t : Fin n)
deriving Repr, DecidableEq

/-- The pool on a database that is up. -/
def Postgres.step {n : Nat} (pg : Postgres) (a : StoreAct n)
    (s : DbPool n) : Option (DbPool n) :=
  match a with
  | .call t q => s.step (.call t q)
  | .step t => s.step (.step t (pg.answer (s.pc t)))

end EdgeIpc.Ats
