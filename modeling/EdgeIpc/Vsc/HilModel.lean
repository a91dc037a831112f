/-
The Python model of the network the closed-loop tests run against
(`hil/vsc_model.py`), in exact arithmetic. A quotient by zero is 0 here,
where Python raises `ZeroDivisionError`.

It was written after the C++ solver, by hand: the same companion models
and the same loop bodies, but it stamps phase by phase, leaves the
factorisation to `scipy.linalg`, and starts without one
(`_gate_factored = -1`), where the C++ constructor factors for the gate
0x00.

# What is kept and what is not

A gate is a Python `int`, of any size and sign. What `scipy` computes is
not in the repository: `Scipy` is a factorisation and a solver that fits
it, whatever they are. As in Network.lean the grid source is any function
of phase and time, and the snubber fields are left out. The parameters
are those of the C++ class, field by field and default by default, so the
type is shared.
-/
import EdgeIpc.Vsc.Network

namespace EdgeIpc.Vsc.Hil

open Lib

/-- `scipy.linalg.lu_factor` and `lu_solve`, for systems of `n`
equations. -/
structure Scipy (n : Nat) (K : Type) where
  LU : Type
  luFactor : Mat n K → LU
  luSolve : LU → (Fin n → K) → Fin n → K

variable {K : Type} [Field K]

-- ======================================================= companion models

/-- `_make_inductor`: `(G_eq, beta)`. -/
def makeInductor (L R dt : K) : K × K :=
  let denom := 2.0 * L + R * dt
  (dt / denom, (2.0 * L - R * dt) / denom)

/-- `_make_cap`. -/
def makeCap (C dt : K) : K := 2.0 * C / dt

/-- `_inductor_history`. -/
def inductorHistory (Geq beta iL vBranch : K) : K := Geq * vBranch + beta * iL

/-- `_cap_history`. -/
def capHistory (GC iC vNode : K) : K := -iC - GC * vNode

-- =============================================================== assembly

/-- `bool((gate >> n) & 1)`. -/
def gateBit (gate : Int) (n : Nat) : Bool := (gate >>> n) % 2 = 1

/-- `G_T1`. -/
def gT1 (p : SolverParams K) (gate : Int) (k : Fin 3) : K :=
  if gateBit gate (2 * k) then p.Gon else p.Goff

/-- `G_T2`. -/
def gT2 (p : SolverParams K) (gate : Int) (k : Fin 3) : K :=
  if gateBit gate (2 * k + 1) then p.Gon else p.Goff

/-- The body of `_assemble_G`'s loop. `_stamp` is the C++ `stamp`, with
`None` for its `-1`. -/
def assemblePhase (p : SolverParams K) (gate : Int) (G : Mat 9 K)
    (k : Fin 3) : Mat 9 K :=
  let GLf := (makeInductor p.Lf p.Rf p.dt).1
  let GCf := makeCap p.Cf p.dt
  let GLgrid := (makeInductor p.Lgrid p.Rgrid p.dt).1
  let Gvs := 1.0 / p.Rsrc
  let G := stamp G (inv k) (some (cap k)) GLf
  let G := stamp G (cap k) none GCf
  let G := stamp G (cap k) (some (grid k)) GLgrid
  let G := stamp G (grid k) none Gvs
  stamp G (inv k) none (gT1 p gate k + gT2 p gate k)

/-- `_assemble_G`. -/
def assembleG (p : SolverParams K) (gate : Int) : Mat 9 K :=
  (List.finRange 3).foldl (assemblePhase p gate) fun _ _ => 0

-- ============================================================== the state

structure VscNetworkState (K : Type) where
  v : Fin 9 → K
  iLf : Fin 3 → K
  iCf : Fin 3 → K
  iLgrid : Fin 3 → K
  ILfHist : Fin 3 → K
  ICfHist : Fin 3 → K
  ILgridHist : Fin 3 → K
  t : K
  gate : Int
  fault : Bool

/-- `__init__`. -/
def VscNetworkState.init : VscNetworkState K where
  v := fun _ => 0
  iLf := fun _ => 0
  iCf := fun _ => 0
  iLgrid := fun _ => 0
  ILfHist := fun _ => 0
  ICfHist := fun _ => 0
  ILgridHist := fun _ => 0
  t := 0
  gate := 0
  fault := false

/-- The injections of phase `k`. -/
def injectPhase (p : SolverParams K) (vSrc : Fin 3 → K → K) (gate : Int)
    (s : VscNetworkState K) (I : Fin 9 → K) (k : Fin 3) : Fin 9 → K :=
  let Gvs := 1.0 / p.Rsrc
  let I := addTo I (inv k) (-s.ILfHist k)
  let I := addTo I (cap k) (s.ILfHist k)
  let I := addTo I (cap k) (-s.ICfHist k)
  let I := addTo I (cap k) (-s.ILgridHist k)
  let I := addTo I (grid k) (s.ILgridHist k)
  let I := addTo I (grid k) (Gvs * vSrc k s.t)
  addTo I (inv k) (gT1 p gate k * p.Vdc)

/-- The vector `I_N`. -/
def injection (p : SolverParams K) (vSrc : Fin 3 → K → K) (gate : Int)
    (s : VscNetworkState K) : Fin 9 → K :=
  (List.finRange 3).foldl (injectPhase p vSrc gate s) fun _ => 0

/-- `class VscNetwork`. -/
structure VscNetwork (sp : Scipy 9 K) where
  p : SolverParams K
  gateFactored : Int
  GLu : Option sp.LU
  G : Mat 9 K

namespace VscNetwork

variable {sp : Scipy 9 K}

/-- `__init__`. -/
def init (p : SolverParams K) : VscNetwork sp where
  p := p
  gateFactored := -1
  GLu := none
  G := assembleG p 0

/-- `_get_lu`: the factorisation, and the object with it in its cache. -/
def getLu (net : VscNetwork sp) (gate : Int) :
    Option sp.LU × VscNetwork sp :=
  let net :=
    if gate ≠ net.gateFactored then
      let G := assembleG net.p gate
      { net with G := G, GLu := some (sp.luFactor G), gateFactored := gate }
    else net
  (net.GLu, net)

variable [LinearOrder K]

/-- `np.any(np.abs(V_new) > 2.0 * p.V_rated)`. -/
def overVoltage (p : SolverParams K) (V : Fin 9 → K) : Bool :=
  (List.finRange 9).any fun i => 2.0 * p.Vrated < absV (V i)

/-- What `step` does to the state once it has `V_new`. -/
def update (p : SolverParams K) (gate : Int) (V : Fin 9 → K)
    (s : VscNetworkState K) : VscNetworkState K :=
  let (GLf, betaLf) := makeInductor p.Lf p.Rf p.dt
  let (GLgrid, betaLgrid) := makeInductor p.Lgrid p.Rgrid p.dt
  let GCf := makeCap p.Cf p.dt
  let vLf := fun k => V (inv k) - V (cap k)
  let iLf := fun k => GLf * vLf k + s.ILfHist k
  let iCf := fun k => GCf * V (cap k) + s.ICfHist k
  let vLg := fun k => V (cap k) - V (grid k)
  let iLgrid := fun k => GLgrid * vLg k + s.ILgridHist k
  { v := V
    iLf := iLf
    iCf := iCf
    iLgrid := iLgrid
    ILfHist := fun k => inductorHistory GLf betaLf (iLf k) (vLf k)
    ICfHist := fun k => capHistory GCf (iCf k) (V (cap k))
    ILgridHist := fun k => inductorHistory GLgrid betaLgrid (iLgrid k) (vLg k)
    t := s.t + p.dt
    gate := gate
    fault := overVoltage p V }

/-- `step`; the value returned is the new state's `fault`. `none` is the
exception of `lu_solve(None, I_N)`, on a first gate of -1. -/
def step (vSrc : Fin 3 → K → K) (net : VscNetwork sp)
    (s : VscNetworkState K) (gate : Int) :
    Option (VscNetwork sp × VscNetworkState K) :=
  let (lu, net) := net.getLu gate
  lu.map fun lu =>
    let I := injection net.p vSrc gate s
    let V := sp.luSolve lu I
    (net, update net.p gate V s)

/-- A simulation is driven by gates, one a step. -/
def advance (vSrc : Fin 3 → K → K) (gate : Int)
    (x : VscNetwork sp × VscNetworkState K) :
    Option (VscNetwork sp × VscNetworkState K) :=
  step vSrc x.1 x.2 gate

end VscNetwork

end EdgeIpc.Vsc.Hil
