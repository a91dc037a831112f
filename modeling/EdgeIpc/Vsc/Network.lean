/-
The three-phase converter network and its time step
(`vsc_solver/src/NortonUpdate.cpp`, `vsc_solver/src/VscNetwork.cpp`), in
exact arithmetic over any ordered field. A quotient by zero is 0 here,
where the C++ arithmetic gives an infinity or a `nan`: parameters with
`dt`, `R_src` or a companion's denominator zero are modelled, but not as
the code treats them.

# The method

Each inductor and each capacitor is replaced by its trapezoidal companion,
a conductance next to a history current, so that one time step is one
linear system in the nine node voltages. The matrix depends on the gate
byte only and is factored when the gate changes; the right-hand side
collects the history currents, the DC bus through the upper switches and
the grid sources.

# What is kept and what is not

The grid source of phase `k` at time `t` is `vSrc k t`, any function; the
source has a sine of `V_grid_rms` and `f_grid` there. The snubber fields
(`C_snub`, `I_snub_hist`) are read by nothing. A throw of `lu_factor`
leaves the object with `G_` of the new gate and `LU_`, `piv_` half
written; the error of `assembleAndFactor` and `step` carries it.
-/
import EdgeIpc.Vsc.LuSolver

namespace EdgeIpc.Vsc

open Lib

variable {K : Type} [Field K]

-- ======================================================= companion models

structure NortonInductor (K : Type) where
  Geq : K
  beta : K

structure NortonCapacitor (K : Type) where
  GC : K

def makeInductor (L R dt : K) : NortonInductor K :=
  let denom := 2 * L + R * dt
  { Geq := dt / denom, beta := (2 * L - R * dt) / denom }

def makeCapacitor (C dt : K) : NortonCapacitor K := { GC := 2 * C / dt }

def inductorHistory (n : NortonInductor K) (iL vBranch : K) : K :=
  n.Geq * vBranch + n.beta * iL

def capacitorHistory (n : NortonCapacitor K) (iC vNode : K) : K :=
  -iC - n.GC * vNode

-- ============================================================ the network

/-- `SolverParams`, as far as the solver reads it. -/
structure SolverParams (K : Type) where
  dt : K
  Lf : K
  Rf : K
  Cf : K
  Lgrid : K
  Rgrid : K
  Vdc : K
  Gon : K
  Goff : K
  Vrated : K
  Rsrc : K

/-- The defaults of `SolverParams`. -/
def SolverParams.default : SolverParams K where
  dt := 50e-6
  Lf := 3e-3
  Rf := 0.1
  Cf := 20e-6
  Lgrid := 1e-3
  Rgrid := 0.05
  Vdc := 400.0
  Gon := 100.0
  Goff := 1e-6
  Vrated := 400.0
  Rsrc := 0.01

/-- Nodes 0, 1, 2: the inverter terminals. -/
def inv (k : Fin 3) : Fin 9 := ⟨k, by omega⟩

/-- Nodes 3, 4, 5: the filter capacitors. -/
def cap (k : Fin 3) : Fin 9 := ⟨k + 3, by omega⟩

/-- Nodes 6, 7, 8: the grid terminals. -/
def grid (k : Fin 3) : Fin 9 := ⟨k + 6, by omega⟩

/-- `VscNetwork::State`. -/
structure State (K : Type) where
  v : Fin 9 → K
  iLf : Fin 3 → K
  iCf : Fin 3 → K
  iLgrid : Fin 3 → K
  ILfHist : Fin 3 → K
  ICfHist : Fin 3 → K
  ILgridHist : Fin 3 → K
  t : K
  gate : BitVec 8
  fault : Bool

/-- A value-initialised `State`. -/
def State.zero : State K where
  v := fun _ => 0
  iLf := fun _ => 0
  iCf := fun _ => 0
  iLgrid := fun _ => 0
  ILfHist := fun _ => 0
  ICfHist := fun _ => 0
  ILgridHist := fun _ => 0
  t := 0
  gate := 0
  fault := false

structure VscNetwork (K : Type) where
  p : SolverParams K
  G : Mat 9 K
  LU : Mat 9 K
  piv : Fin 9 → Fin 9
  gateFactored : BitVec 8

/-- Bit `2k`: the upper switch of phase `k`. -/
def gT1 (p : SolverParams K) (gate : BitVec 8) (k : Fin 3) : K :=
  if gate.getLsbD (2 * k) then p.Gon else p.Goff

/-- Bit `2k + 1`: the lower switch. -/
def gT2 (p : SolverParams K) (gate : BitVec 8) (k : Fin 3) : K :=
  if gate.getLsbD (2 * k + 1) then p.Gon else p.Goff

-- =============================================================== assembly

/-- `G[i][j] += x`. -/
def addAt (G : Mat 9 K) (i j : Fin 9) (x : K) : Mat 9 K :=
  fun a b => if a = i ∧ b = j then G a b + x else G a b

/-- `stamp`; no second node is the source's `m = -1`. -/
def stamp (G : Mat 9 K) (p : Fin 9) (m : Option (Fin 9)) (g : K) :
    Mat 9 K :=
  let G := addAt G p p g
  match m with
  | none => G
  | some m => addAt (addAt (addAt G m m g) p m (-g)) m p (-g)

/-- The matrix `assemble_and_factor` builds for a gate byte. -/
def assemble (p : SolverParams K) (gate : BitVec 8) : Mat 9 K :=
  let nLf := makeInductor p.Lf p.Rf p.dt
  let nCf := makeCapacitor p.Cf p.dt
  let nLgrid := makeInductor p.Lgrid p.Rgrid p.dt
  let Gvs := 1 / p.Rsrc
  let ks := List.finRange 3
  let G : Mat 9 K := fun _ _ => 0
  let G := ks.foldl (fun G k => stamp G (inv k) (some (cap k)) nLf.Geq) G
  let G := ks.foldl (fun G k => stamp G (cap k) none nCf.GC) G
  let G := ks.foldl (fun G k => stamp G (cap k) (some (grid k)) nLgrid.Geq) G
  let G := ks.foldl (fun G k => stamp G (grid k) none Gvs) G
  ks.foldl (fun G k => stamp G (inv k) none (gT1 p gate k + gT2 p gate k)) G

-- ============================================================== injection

/-- `I[i] += x`. -/
def addTo (I : Fin 9 → K) (i : Fin 9) (x : K) : Fin 9 → K :=
  fun j => if j = i then I j + x else I j

/-- The injections of phase `k`. -/
def injectPhase (p : SolverParams K) (vSrc : Fin 3 → K → K)
    (gate : BitVec 8) (s : State K) (I : Fin 9 → K) (k : Fin 3) :
    Fin 9 → K :=
  let I := addTo I (inv k) (-s.ILfHist k)
  let I := addTo I (cap k) (s.ILfHist k)
  let I := addTo I (cap k) (-s.ICfHist k)
  let I := addTo I (cap k) (-s.ILgridHist k)
  let I := addTo I (grid k) (s.ILgridHist k)
  let I := addTo I (grid k) (1 / p.Rsrc * vSrc k s.t)
  addTo I (inv k) (gT1 p gate k * p.Vdc)

/-- The vector `I_N`. -/
def injection (p : SolverParams K) (vSrc : Fin 3 → K → K)
    (gate : BitVec 8) (s : State K) : Fin 9 → K :=
  (List.finRange 3).foldl (injectPhase p vSrc gate s) fun _ => 0

variable [LinearOrder K]

namespace VscNetwork

/-- `assemble_and_factor`. -/
def assembleAndFactor (net : VscNetwork K) (gate : BitVec 8) :
    Except (String × VscNetwork K) (VscNetwork K) :=
  let G := assemble net.p gate
  match luFactor ⟨G, net.piv⟩ with
  | .ok s =>
      .ok { net with G := G, LU := s.A, piv := s.pivot, gateFactored := gate }
  | .error (what, s) =>
      .error (what, { net with G := G, LU := s.A, piv := s.pivot })

/-- The constructor. -/
def construct (p : SolverParams K) :
    Except (String × VscNetwork K) (VscNetwork K) :=
  assembleAndFactor
    { p := p, G := fun _ _ => 0, LU := fun _ _ => 0, piv := fun _ => 0
      gateFactored := 0xFF#8 } 0x00#8

/-- The fault test: some node above twice the rated voltage. -/
def overVoltage (p : SolverParams K) (V : Fin 9 → K) : Bool :=
  (List.finRange 9).any fun i => 2 * p.Vrated < absV (V i)

/-- The updates of `step` once the node voltages are known. -/
def update (p : SolverParams K) (gate : BitVec 8) (V : Fin 9 → K)
    (s : State K) : State K :=
  let nLf := makeInductor p.Lf p.Rf p.dt
  let nCf := makeCapacitor p.Cf p.dt
  let nLgrid := makeInductor p.Lgrid p.Rgrid p.dt
  let vLf := fun k => V (inv k) - V (cap k)
  let vLgrid := fun k => V (cap k) - V (grid k)
  let iLf := fun k => nLf.Geq * vLf k + s.ILfHist k
  let iCf := fun k => nCf.GC * V (cap k) + s.ICfHist k
  let iLgrid := fun k => nLgrid.Geq * vLgrid k + s.ILgridHist k
  { v := V
    iLf := iLf
    iCf := iCf
    iLgrid := iLgrid
    ILfHist := fun k => inductorHistory nLf (iLf k) (vLf k)
    ICfHist := fun k => capacitorHistory nCf (iCf k) (V (cap k))
    ILgridHist := fun k => inductorHistory nLgrid (iLgrid k) (vLgrid k)
    t := s.t + p.dt
    gate := gate
    fault := overVoltage p V }

/-- The first lines of `step`: factor again if the gate has changed. -/
def refactor (net : VscNetwork K) (gate : BitVec 8) :
    Except (String × VscNetwork K) (VscNetwork K) :=
  if gate ≠ net.gateFactored then net.assembleAndFactor gate else .ok net

/-- `VscNetwork::step`; the value returned is the new state's `fault`.
A throw leaves the state as it was. -/
def step (vSrc : Fin 3 → K → K) (net : VscNetwork K) (s : State K)
    (gate : BitVec 8) :
    Except (String × VscNetwork K) (VscNetwork K × State K) :=
  match net.refactor gate with
  | .error e => .error e
  | .ok net =>
      let I := injection net.p vSrc gate s
      let V := luSolve net.LU net.piv I fun _ => 0
      .ok (net, update net.p gate V s)

/-- A simulation is driven by gate bytes, one a step; a throw ends it. -/
def advance (vSrc : Fin 3 → K → K) (gate : BitVec 8)
    (x : VscNetwork K × State K) : Option (VscNetwork K × State K) :=
  (step vSrc x.1 x.2 gate).toOption

/-- A call of `step` whose caller catches what it throws and goes on with
the object and the state as they are then. -/
def attempt (vSrc : Fin 3 → K → K) (gate : BitVec 8)
    (x : VscNetwork K × State K) : Option (VscNetwork K × State K) :=
  match step vSrc x.1 x.2 gate with
  | .ok x' => some x'
  | .error (_, net) => some (net, x.2)

end VscNetwork

end EdgeIpc.Vsc
