/-
The data source of the OPC UA server, in its two builds: the copying one
(`src/data_source.c`) and the pooled one (`src/data_source_opt.c`).

# Values and references

A read callback fills in a `UA_DataValue` that the server serialises at
some later point. `UA_Variant_setScalarCopy` puts a copy of the float
into it; the pooled build puts in a variant that was made once, marked
`UA_VARIANT_DATA_NODELETE`, whose data pointer leads to the node's cell
of `variant_scalars`. What such a variant stands for is what that cell
holds when it is looked at.

# The server

Sets come from the update thread, reads and serialisations from the
server's. The accesses are atomic, so a run is a sequence of them, in any
order. What the server has been handed it may serialise at any time.

`reads`, the node and its value at each read, is not in the source. No
step reads it. Floats are bit patterns; nothing here computes with them.
-/

namespace EdgeIpc.Opcua

/-- `CncNodeIdx`: the index into `g_node_values`. -/
inductive CncNodeIdx where
  | spindleTemp | spindleTorque | spindleSpeed
  | vibrationX | vibrationY | vibrationZ
  | axisX | axisY | axisZ
deriving DecidableEq, Repr

/-- A C `float`. -/
abbrev Float32Bits := BitVec 32

/-- `UA_Variant` of type `UA_TYPES_FLOAT`, by its storage. -/
inductive Variant where
  /-- the variant's own heap copy -/
  | data (value : Float32Bits)
  /-- `UA_VARIANT_DATA_NODELETE` with `data = &variant_scalars[idx]` -/
  | dataNoDelete (idx : CncNodeIdx)
deriving DecidableEq, Repr

/-- `UA_DataValue`, as far as the callbacks fill it in. -/
structure DataValue where
  value : Variant
  hasValue : Bool
  hasSourceTimestamp : Bool
  sourceTimestamp : Int
deriving DecidableEq, Repr

/-- The statics of a build. -/
structure DataSource where
  gNodeValues : CncNodeIdx → Float32Bits
  variantScalars : CncNodeIdx → Float32Bits
  nodeVariants : CncNodeIdx → Variant

/-- The two builds, by `-DUSE_OPTIMISED_DATASOURCE`. -/
inductive Build where
  | naive
  | optimised
deriving DecidableEq, Repr

namespace DataSource

/-- `data_source_init`, on statics the loader has zeroed. The copying
build has neither scalars nor variants, and reads none. -/
def init : DataSource where
  gNodeValues := fun _ => 0#32
  variantScalars := fun _ => 0#32
  nodeVariants := .dataNoDelete

/-- `data_source_set`. -/
def set (ds : DataSource) (idx : CncNodeIdx) (val : Float32Bits) :
    DataSource :=
  { ds with
    gNodeValues := fun i => if i = idx then val else ds.gNodeValues i }

/-- The fields both callbacks set behind the value. -/
def stamped (value : Variant) (now : Int) : DataValue where
  value := value
  hasValue := true
  hasSourceTimestamp := true
  sourceTimestamp := now

/-- `cnc_read_callback`. -/
def cncReadCallback (ds : DataSource) (idx : CncNodeIdx) (now : Int) :
    DataSource × DataValue :=
  let val := ds.gNodeValues idx
  (ds, stamped (.data val) now)

/-- `cnc_read_callback_opt`. -/
def cncReadCallbackOpt (ds : DataSource) (idx : CncNodeIdx) (now : Int) :
    DataSource × DataValue :=
  let ds := { ds with
    variantScalars := fun i =>
      if i = idx then ds.gNodeValues idx else ds.variantScalars i }
  (ds, stamped (ds.nodeVariants idx) now)

/-- The callback a build registers. -/
def read (b : Build) (ds : DataSource) (idx : CncNodeIdx) (now : Int) :
    DataSource × DataValue :=
  match b with
  | .naive => ds.cncReadCallback idx now
  | .optimised => ds.cncReadCallbackOpt idx now

/-- What a serialiser finds behind a variant's data pointer. -/
def deref (ds : DataSource) : Variant → Float32Bits
  | .data value => value
  | .dataNoDelete idx => ds.variantScalars idx

end DataSource

-- ============================================================= the server

structure Server where
  ds : DataSource
  /-- what the callbacks have returned -/
  returned : List DataValue := []
  /-- what has been serialised: of which read, and the float -/
  sent : List (Nat × Float32Bits) := []
  /-- the node and its value at each read -/
  reads : List (CncNodeIdx × Float32Bits) := []

/-- A set by the update thread; a read; the serialisation of what the
`n`-th read returned. -/
inductive ServerAct where
  | set (idx : CncNodeIdx) (val : Float32Bits)
  | read (idx : CncNodeIdx) (now : Int)
  | serialise (n : Nat)
deriving DecidableEq, Repr

namespace Server

def init : Server := { ds := .init }

/-- The transition function of the server with a build linked in. -/
def step (b : Build) (a : ServerAct) (s : Server) : Option Server :=
  match a with
  | .set idx val => some { s with ds := s.ds.set idx val }
  | .read idx now =>
      let (ds, dataValue) := s.ds.read b idx now
      some { s with
        ds := ds
        returned := s.returned ++ [dataValue]
        reads := s.reads ++ [(idx, s.ds.gNodeValues idx)] }
  | .serialise n =>
      s.returned[n]?.map fun dataValue =>
        { s with sent := s.sent ++ [(n, s.ds.deref dataValue.value)] }

end Server

end EdgeIpc.Opcua
