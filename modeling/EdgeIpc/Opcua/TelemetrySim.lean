/-
The simulated sensors of the CNC machine
(opcua_edge_server/src/telemetry_sim.c, telemetry_params.h).

Doubles are a type with the operations of C's `double`, whatever they
round to; what the C library computes on them is a parameter (`Libm`).
Each simulator is the source's formula, in the source's order, and
returns the seed that `rand_r` leaves behind.
-/
import EdgeIpc.Opcua.DataSource

namespace EdgeIpc.Opcua

/-- What the simulators take from the C library. -/
structure Libm (D : Type) where
  /-- `(double)n` -/
  ofNat : Nat → D
  /-- a `float` constant, promoted to `double` -/
  float : D → D
  /-- `(float)x` -/
  cast : D → Float32Bits
  /-- `M_PI` -/
  pi : D
  sin : D → D
  cos : D → D
  exp : D → D
  log : D → D
  sqrt : D → D
  /-- `rand_r`: the number drawn and the new seed -/
  randR : UInt32 → Nat × UInt32
  /-- `RAND_MAX` -/
  randMax : Nat

namespace Libm

variable {D : Type} [Add D] [Sub D] [Mul D] [Div D] [Neg D]
  [OfScientific D] (L : Libm D)

/-- `VIB_OMEGA`. -/
def vibOmega : D := 2.0 * L.pi * 50.0

/-- `TORQUE_OMEGA`. -/
def torqueOmega : D := 2.0 * L.pi * 2.0

def boxMuller (seed : UInt32) : D × UInt32 :=
  let (r₁, seed) := L.randR seed
  let u₁ := (L.ofNat r₁ + 1.0) / (L.ofNat L.randMax + 2.0)
  let (r₂, seed) := L.randR seed
  let u₂ := L.ofNat r₂ / (L.ofNat L.randMax + 1.0)
  (L.sqrt (-2.0 * L.log u₁) * L.cos (2.0 * L.pi * u₂), seed)

def telemetryVibration (t : D) (axisIdx : Nat) (seed : UInt32) :
    Float32Bits × UInt32 :=
  let phase := L.ofNat axisIdx * (2.0 * L.pi / 3.0)
  let signal := L.float 2.5 * L.sin (L.vibOmega * t + phase)
  let (normal, seed) := L.boxMuller seed
  let noise := L.float 0.1 * normal
  (L.cast (signal + noise), seed)

def telemetryTemperature (t : D) (seed : UInt32) : Float32Bits × UInt32 :=
  let transient := L.float 45.0 * (1.0 - L.exp (-t / L.float 120.0))
  let (normal, seed) := L.boxMuller seed
  let noise := L.float 0.05 * normal
  (L.cast (L.float 22.0 + transient + noise), seed)

def telemetrySpindleSpeed (_t : D) (seed : UInt32) :
    Float32Bits × UInt32 :=
  let (normal, seed) := L.boxMuller seed
  (L.cast (L.float 3000.0 + L.float 5.0 * normal), seed)

def telemetryTorque (t : D) (seed : UInt32) : Float32Bits × UInt32 :=
  let variation := L.float 12.0 * 0.1 * L.sin (L.torqueOmega * t)
  let (normal, seed) := L.boxMuller seed
  let noise := L.float 0.2 * normal
  (L.cast (L.float 12.0 + variation + noise), seed)

def telemetryAxisPosition (t : D) (axisIdx : Nat) : Float32Bits :=
  let phase := L.ofNat axisIdx * (L.pi / 6.0)
  L.cast (L.float 50.0 * L.sin (2.0 * L.pi * 0.1 * t + phase))

end Libm

end EdgeIpc.Opcua
