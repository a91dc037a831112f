/-
The closed loop of the hardware-in-the-loop tests (`hil/controller.py`,
`PiController`; `hil/test_hil_closed_loop.py`), in exact arithmetic: the
current controller, the modulator of Controller.lean and a network.

# The loop

Each step reads the reference at the network's time, lets the controller
turn the current error of each phase into a duty demand and the modulator
the demands into gates, and steps the network with them. What is recorded
of each step are the first phase's capacitor voltage, inductor current
and reference.

The reference is any function of time; the source has a ramp times three
sines there (`make_i_ref`). The network is a `Plant`: as much of a network
as the loop touches. The tests run the loop with the Python model; the
plant of the C++ solver stands for a loop around that one.

# The averaged loop

`test_step_response_settles` puts an integrator in the network's place:
the current of the first phase grows with the demand, held between 0 and
the reference (`Averaged`). No gates are involved.
-/
import EdgeIpc.Lib.Clamp
import EdgeIpc.Vsc.Controller
import EdgeIpc.Vsc.HilModel

namespace EdgeIpc.Vsc

open Lib

variable {K : Type} [Field K] [LinearOrder K]

-- ========================================================== the controller

/-- `class PiController`. -/
structure PiController (K : Type) where
  kP : K
  kI : K
  dt : K
  xMax : K
  x : Fin 3 → K

/-- The first phase, the one that is recorded. -/
def phaseA : Fin 3 := ⟨0, by decide⟩

namespace PiController

/-- `PiController(k_p, k_i, dt, x_max)`. -/
def construct (kP kI dt xMax : K) : PiController K where
  kP := kP
  kI := kI
  dt := dt
  xMax := xMax
  x := fun _ => 0

/-- `e`, the error of phase `k`. -/
def error (iRef iMeas : Fin 3 → K) (k : Fin 3) : K := iRef k - iMeas k

/-- `step(i_ref, i_meas)`: the controller after the call, and the duty
demands. -/
def step (c : PiController K) (iRef iMeas : Fin 3 → K) :
    PiController K × (Fin 3 → K) :=
  let e := error iRef iMeas
  let x := fun k => clamp (-c.xMax) c.xMax (c.x k + c.dt * e k)
  ({ c with x }, fun k => clamp (-1) 1 (c.kP * e k + c.kI * x k))

/-- The controller after a sequence of calls, each with a reference and a
measurement. -/
def after (c : PiController K) (calls : List ((Fin 3 → K) × (Fin 3 → K))) :
    PiController K :=
  calls.foldl (fun c call => (c.step call.1 call.2).1) c

end PiController

-- ================================================================ the loop

/-- A network, as the loop sees it: `N` is the object with its state. -/
structure Plant (N K : Type) where
  /-- `net.step(s, gate)`; `none` is an exception -/
  step : Nat → N → Option N
  /-- `s.t` -/
  t : N → K
  /-- `s.i_Lf` -/
  iLf : N → Fin 3 → K
  /-- `s.v` -/
  v : N → Fin 9 → K

/-- The three objects of the loop. -/
structure Loop (N K : Type) [Field K] where
  pi : PiController K
  spwm : SpwmModulator K
  net : N

/-- What is appended to the three lists. -/
structure Sample (K : Type) where
  vCapA : K
  iLfA : K
  iRefA : K
deriving DecidableEq, Repr

section

variable {N : Type} [FloorRing K]

/-- The body of `_run_loop`'s loop. -/
def Loop.body (plant : Plant N K) (iRef : K → Fin 3 → K) (x : Loop N K) :
    Option (Loop N K × Sample K) :=
  let r := iRef (plant.t x.net)
  let (pi, u) := x.pi.step r (plant.iLf x.net)
  let (spwm, gate) := x.spwm.modulate u
  (plant.step gate x.net).map fun net =>
    (⟨pi, spwm, net⟩,
      ⟨plant.v net (cap phaseA), plant.iLf net phaseA, r phaseA⟩)

/-- `_run_loop`, from given objects on. -/
def Loop.run (plant : Plant N K) (iRef : K → Fin 3 → K) :
    Nat → Loop N K → Option (Loop N K × List (Sample K))
  | 0, x => some (x, [])
  | n + 1, x =>
      match x.body plant iRef with
      | none => none
      | some (x, sample) =>
          (run plant iRef n x).map fun y => (y.1, sample :: y.2)

end

-- ============================================================ the networks

/-- The Python model in the loop. -/
def Hil.plant {sp : Scipy 9 K} (vSrc : Fin 3 → K → K) :
    Plant (Hil.VscNetwork sp × Hil.VscNetworkState K) K where
  step gate := Hil.VscNetwork.advance vSrc gate
  t y := y.2.t
  iLf y := y.2.iLf
  v y := y.2.v

/-- The C++ solver in the loop; its gate is a `uint8_t`. -/
def VscNetwork.plant (vSrc : Fin 3 → K → K) :
    Plant (VscNetwork K × State K) K where
  step gate := VscNetwork.advance vSrc (BitVec.ofNat 8 gate)
  t x := x.2.t
  iLf x := x.2.iLf
  v x := x.2.v

-- ======================================================= the averaged loop

/-- `[a, 0.0, 0.0]`. -/
def inPhaseA (a : K) (k : Fin 3) : K := if k = phaseA then a else 0

/-- The objects of `test_step_response_settles`: the controller, and
`i_meas[0]`. -/
structure Averaged (K : Type) where
  pi : PiController K
  iMeas : K

/-- The body of its loops: `gain` is the plant's `K`. -/
def Averaged.body (ref dt gain : K) (x : Averaged K) : Averaged K :=
  let (pi, u) := x.pi.step (inPhaseA ref) (inPhaseA x.iMeas)
  ⟨pi, min ref (max 0 (x.iMeas + u phaseA * dt * gain))⟩

/-- `n` rounds of the loop: the objects after it, and `post_i`. -/
def Averaged.loop (ref dt gain : K) : Nat → Averaged K → Averaged K × List K
  | 0, x => (x, [])
  | n + 1, x =>
      let x := x.body ref dt gain
      let (y, post) := loop ref dt gain n x
      (y, x.iMeas :: post)

/-- `pi` and `i_meas` at the beginning. -/
def Averaged.init (kP kI dt xMax : K) : Averaged K :=
  ⟨PiController.construct kP kI dt xMax, 0⟩

end EdgeIpc.Vsc
