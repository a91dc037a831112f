/-
The FPGA kernel (`hls_solver/solver_top.cpp`, `norton_update.cpp`,
`lu_solve.cpp`), as the host compiles it: `ap_fixed_32_16` is a plain
number there, here an element of any field.

# The kernel and the reference

One call of `solver_top` is one time step on statics that outlive it.
It is written after `VscNetwork::step`, with two differences. The kernel
never factors: it substitutes through the arrays the host has written
once, whatever gate pattern comes. And it applies the pivots by index,
`b_perm[i] = I_N[piv[i]]`, where the reference exchanges entry after
entry.

# What is kept and what is not

The grid source of phase `k` at time `t` is `vSrc k t`, any function, as
in the reference (Network.lean). The arrays of nine are indexed by the
nodes: `k`, `k + 3` and `k + 6` are `inv k`, `cap k` and `grid k`, also in
the history, which is packed in that order. `V_rated`, `reconfig_flag`
and the gate frame's `last` are read by nothing, and so are the voltages
handed to `norton_update`.
-/
import EdgeIpc.Vsc.Network

namespace EdgeIpc.Vsc.Hls

open Lib

variable {n : Nat} {K : Type} [Field K]

-- ========================================================= the parameters

/-- `struct FixedParams`, as far as the kernel reads it. -/
structure FixedParams (K : Type) where
  dt : K
  GLf : K
  betaLf : K
  GCf : K
  GLgrid : K
  betaLgrid : K
  Gon : K
  Goff : K
  Gvs : K
  Vdc : K

/-- The formulas in the comments of the struct; those of the inductors
and the capacitor are the companion models' own. -/
def FixedParams.ofSolver (p : SolverParams K) : FixedParams K where
  dt := p.dt
  GLf := (makeInductor p.Lf p.Rf p.dt).Geq
  betaLf := (makeInductor p.Lf p.Rf p.dt).beta
  GCf := (makeCapacitor p.Cf p.dt).GC
  GLgrid := (makeInductor p.Lgrid p.Rgrid p.dt).Geq
  betaLgrid := (makeInductor p.Lgrid p.Rgrid p.dt).beta
  Gon := p.Gon
  Goff := p.Goff
  Gvs := 1 / p.Rsrc
  Vdc := p.Vdc

-- ============================================================== injection

/-- The body of `norton_update`'s loop. -/
def nortonPhase (vSrc : Fin 3 → K → K) (hist : Fin 9 → K)
    (gate : BitVec 8) (t : K) (p : FixedParams K) (I : Fin 9 → K)
    (k : Fin 3) : Fin 9 → K :=
  let I := addTo I (inv k) (-hist (inv k))
  let I := addTo I (cap k) (hist (inv k))
  let I := addTo I (cap k) (-hist (cap k))
  let I := addTo I (cap k) (-hist (grid k))
  let I := addTo I (grid k) (hist (grid k))
  let I := addTo I (grid k) (p.Gvs * vSrc k t)
  let GT1 := if gate.getLsbD (2 * k) then p.Gon else p.Goff
  addTo I (inv k) (GT1 * p.Vdc)

/-- `norton_update`. -/
def nortonUpdate (vSrc : Fin 3 → K → K) (hist : Fin 9 → K)
    (gate : BitVec 8) (t : K) (p : FixedParams K) : Fin 9 → K :=
  (List.finRange 3).foldl (nortonPhase vSrc hist gate t p) fun _ => 0

-- ========================================================== substitution

/-- `y[i] = s` with `s` the inner loop of `forward_sub`. -/
def forwardStep (L : Mat n K) (b y : Fin n → K) (i : Fin n) : Fin n → K :=
  let s := ((List.finRange n).filter fun j => j < i).foldl
    (fun s j => s - L i j * y j) (b i)
  fun j => if j = i then s else y j

/-- `forward_sub`; `y` is the caller's array, overwritten. -/
def forwardSub (L : Mat n K) (b y : Fin n → K) : Fin n → K :=
  (List.finRange n).foldl (forwardStep L b) y

/-- `back_sub`, the same text as the reference's. -/
def backSub (U : Mat n K) (y x : Fin n → K) : Fin n → K := backSubst U y x

/-- `lu_solve`. The array `y` is not initialised in the source; every
entry is written before it is read. -/
def luSolve (L U : Mat n K) (piv : Fin n → Fin n) (I V : Fin n → K) :
    Fin n → K :=
  let bPerm := fun i => I (piv i)
  let y := forwardSub L bPerm fun _ => 0
  backSub U y V

-- ================================================================ history

/-- The body of `update_history`'s loop, on `hist_out` and
`branch_currents`. -/
def historyPhase (V hist : Fin 9 → K) (p : FixedParams K)
    (out : (Fin 9 → K) × (Fin 9 → K)) (k : Fin 3) :
    (Fin 9 → K) × (Fin 9 → K) :=
  let vLf := V (inv k) - V (cap k)
  let iLf := p.GLf * vLf + hist (inv k)
  let iCf := p.GCf * V (cap k) + hist (cap k)
  let vLg := V (cap k) - V (grid k)
  let iLgrid := p.GLgrid * vLg + hist (grid k)
  let histOut := Function.update out.1 (inv k)
    (p.GLf * vLf + p.betaLf * iLf)
  let histOut := Function.update histOut (cap k)
    (-iCf - p.GCf * V (cap k))
  let histOut := Function.update histOut (grid k)
    (p.GLgrid * vLg + p.betaLgrid * iLgrid)
  let currents := Function.update out.2 (inv k) iLf
  let currents := Function.update currents (cap k) iCf
  let currents := Function.update currents (grid k) iLgrid
  (histOut, currents)

/-- `update_history`: the new history and the branch currents, both
local arrays of the caller, which leaves them uninitialised. -/
def updateHistory (V hist : Fin 9 → K) (p : FixedParams K) :
    (Fin 9 → K) × (Fin 9 → K) :=
  (List.finRange 3).foldl (historyPhase V hist p)
    (fun _ => 0, fun _ => 0)

-- ============================================================= the kernel

/-- `axis_state_t`. -/
structure AxisState (K : Type) where
  data : K
  last : BitVec 8

/-- The statics. -/
structure Kernel (K : Type) where
  L : Mat 9 K
  U : Mat 9 K
  piv : Fin 9 → Fin 9
  V : Fin 9 → K
  hist : Fin 9 → K
  t : K

/-- `solver_top`: the statics after the call, and `state_out`. -/
def solverTop (vSrc : Fin 3 → K → K) (params : FixedParams K)
    (gate : BitVec 8) (s : Kernel K) : Kernel K × (Fin 9 → AxisState K) :=
  let I := nortonUpdate vSrc s.hist gate s.t params
  let V := luSolve s.L s.U s.piv I fun _ => 0
  let hist := (updateHistory V s.hist params).1
  ({ s with V := V, hist := hist, t := s.t + params.dt },
    fun i => { data := V i, last := if i.val = 9 - 1 then 1#8 else 0#8 })

/-- The statics after a sequence of calls. -/
def solverRun (vSrc : Fin 3 → K → K) (params : FixedParams K)
    (gates : List (BitVec 8)) (s : Kernel K) : Kernel K :=
  gates.foldl (fun s gate => (solverTop vSrc params gate s).1) s

variable [LinearOrder K]

/-- The host's part, once before the first call: the factors of the
matrix for a gate pattern, written to the two arrays, and the pivots
(`lu_factor` overwrites whatever the host's array held). The rest of the
statics is zero. -/
def load (p : SolverParams K) (gate : BitVec 8) :
    Except (String × LuState 9 K) (Kernel K) :=
  (luFactor ⟨assemble p gate, id⟩).map fun s =>
    { L := fun i j => if j < i then s.A i j else if j = i then 1 else 0
      U := fun i j => if i ≤ j then s.A i j else 0
      piv := s.pivot
      V := fun _ => 0
      hist := fun _ => 0
      t := 0 }

end EdgeIpc.Vsc.Hls
