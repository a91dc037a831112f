/-
The FPGA kernel in the synthesised build, where `ap_fixed_32_16` is
`ap_fixed<32, 16>`: 32 bits, 16 of them fractional, truncation and
wrap-around on assignment. The text is that of HlsSolver.lean; what
differs is that each assignment is one to a fixed-point number. Products
and sums are exact, the types of the intermediate results being wide
enough.

`sine k t` is what the sine core returns for the angle of phase `k` at
time `t`, and `quotient` what the divider returns; both are fixed-point
numbers already.
-/
import EdgeIpc.Lib.Fixed
import EdgeIpc.Vsc.HlsSolver

namespace EdgeIpc.Vsc.Hls.Synth

open Lib

/-- `ap_fixed<32, 16>`. -/
abbrev ApFixed := Fixed 32 16

-- ========================================================= the parameters

/-- The fixed-point images of the parameters. -/
def image (p : FixedParams ℚ) : FixedParams ApFixed where
  dt := .ofRat p.dt
  GLf := .ofRat p.GLf
  betaLf := .ofRat p.betaLf
  GCf := .ofRat p.GCf
  GLgrid := .ofRat p.GLgrid
  betaLgrid := .ofRat p.betaLgrid
  Gon := .ofRat p.Gon
  Goff := .ofRat p.Goff
  Gvs := .ofRat p.Gvs
  Vdc := .ofRat p.Vdc

/-- The numbers the parameters stand for. -/
def values (p : FixedParams ApFixed) : FixedParams ℚ where
  dt := p.dt.toRat
  GLf := p.GLf.toRat
  betaLf := p.betaLf.toRat
  GCf := p.GCf.toRat
  GLgrid := p.GLgrid.toRat
  betaLgrid := p.betaLgrid.toRat
  Gon := p.Gon.toRat
  Goff := p.Goff.toRat
  Gvs := p.Gvs.toRat
  Vdc := p.Vdc.toRat

/-- The images of the defaults of `SolverParams`. -/
def defaultParams : FixedParams ApFixed :=
  image (.ofSolver .default)

-- ============================================================= the source

/-- `230.0 * 1.41421356237`. -/
def gridPeak : ℚ := 230.0 * 1.41421356237

/-- `V_grid_peak`. -/
def VGridPeak : ApFixed := .ofRat gridPeak

/-- `v_src`. -/
def vSource (sine : Fin 3 → ApFixed → ApFixed) (k : Fin 3) (t : ApFixed) :
    ApFixed :=
  .ofRat (VGridPeak.toRat * (sine k t).toRat)

-- ============================================================== injection

/-- `I_N_out[i] = q`. -/
def assign (I : Fin 9 → ApFixed) (i : Fin 9) (q : ℚ) : Fin 9 → ApFixed :=
  fun j => if j = i then .ofRat q else I j

/-- The body of `norton_update`'s loop. -/
def nortonPhase (vSrc : Fin 3 → ApFixed → ApFixed) (hist : Fin 9 → ApFixed)
    (gate : BitVec 6) (t : ApFixed) (p : FixedParams ApFixed)
    (I : Fin 9 → ApFixed) (k : Fin 3) : Fin 9 → ApFixed :=
  let I := assign I (inv k) ((I (inv k)).toRat - (hist (inv k)).toRat)
  let I := assign I (cap k) ((I (cap k)).toRat + (hist (inv k)).toRat)
  let I := assign I (cap k) ((I (cap k)).toRat - (hist (cap k)).toRat)
  let I := assign I (cap k) ((I (cap k)).toRat - (hist (grid k)).toRat)
  let I := assign I (grid k) ((I (grid k)).toRat + (hist (grid k)).toRat)
  let I := assign I (grid k)
    ((I (grid k)).toRat + p.Gvs.toRat * (vSrc k t).toRat)
  let GT1 := if (gate.setWidth 8).getLsbD (2 * k) then p.Gon else p.Goff
  assign I (inv k) ((I (inv k)).toRat + GT1.toRat * p.Vdc.toRat)

/-- `norton_update`. -/
def nortonUpdate (vSrc : Fin 3 → ApFixed → ApFixed) (hist : Fin 9 → ApFixed)
    (gate : BitVec 6) (t : ApFixed) (p : FixedParams ApFixed) :
    Fin 9 → ApFixed :=
  (List.finRange 3).foldl (nortonPhase vSrc hist gate t p) fun _ => .ofRat 0

/-- The sums that define the entries, in exact arithmetic: the host's
`norton_update` on the numbers the arguments stand for. -/
def exactUpdate (vSrc : Fin 3 → ApFixed → ApFixed) (hist : Fin 9 → ApFixed)
    (gate : BitVec 6) (t : ApFixed) (p : FixedParams ApFixed) : Fin 9 → ℚ :=
  Hls.nortonUpdate (fun k _ => (vSrc k t).toRat) (fun i => (hist i).toRat)
    (gate.setWidth 8) t.toRat (values p)

-- ========================================================== substitution

/-- `y[i] = s` with `s` the inner loop of `forward_sub`. -/
def forwardStep (L : Mat 9 ApFixed) (b y : Fin 9 → ApFixed) (i : Fin 9) :
    Fin 9 → ApFixed :=
  let s := ((List.finRange 9).filter fun j => j < i).foldl
    (fun s j => .ofRat (s.toRat - (L i j).toRat * (y j).toRat)) (b i)
  fun j => if j = i then s else y j

/-- `forward_sub`. -/
def forwardSub (L : Mat 9 ApFixed) (b y : Fin 9 → ApFixed) :
    Fin 9 → ApFixed :=
  (List.finRange 9).foldl (forwardStep L b) y

/-- `x[i] = s / U[i][i]` with `s` the inner loop of `back_sub`. -/
def backStep (quotient : ApFixed → ApFixed → ApFixed) (U : Mat 9 ApFixed)
    (y x : Fin 9 → ApFixed) (i : Fin 9) : Fin 9 → ApFixed :=
  let s := ((List.finRange 9).filter fun j => i < j).foldl
    (fun s j => .ofRat (s.toRat - (U i j).toRat * (x j).toRat)) (y i)
  fun j => if j = i then quotient s (U i i) else x j

/-- `back_sub`. -/
def backSub (quotient : ApFixed → ApFixed → ApFixed) (U : Mat 9 ApFixed)
    (y x : Fin 9 → ApFixed) : Fin 9 → ApFixed :=
  (List.finRange 9).reverse.foldl (backStep quotient U y) x

/-- `lu_solve`. -/
def luSolve (quotient : ApFixed → ApFixed → ApFixed) (L U : Mat 9 ApFixed)
    (piv : Fin 9 → Fin 9) (I V : Fin 9 → ApFixed) : Fin 9 → ApFixed :=
  let bPerm := fun i => I (piv i)
  let y := forwardSub L bPerm fun _ => .ofRat 0
  backSub quotient U y V

-- ================================================================ history

/-- The body of `update_history`'s loop, on `hist_out`; what it writes to
`branch_currents` the kernel does not read. -/
def historyPhase (V hist : Fin 9 → ApFixed) (p : FixedParams ApFixed)
    (histOut : Fin 9 → ApFixed) (k : Fin 3) : Fin 9 → ApFixed :=
  let vLf : ApFixed := .ofRat ((V (inv k)).toRat - (V (cap k)).toRat)
  let iLf : ApFixed := .ofRat (p.GLf.toRat * vLf.toRat + (hist (inv k)).toRat)
  let histOut := assign histOut (inv k)
    (p.GLf.toRat * vLf.toRat + p.betaLf.toRat * iLf.toRat)
  let iCf : ApFixed := .ofRat
    (p.GCf.toRat * (V (cap k)).toRat + (hist (cap k)).toRat)
  let histOut := assign histOut (cap k)
    (-iCf.toRat - p.GCf.toRat * (V (cap k)).toRat)
  let vLg : ApFixed := .ofRat ((V (cap k)).toRat - (V (grid k)).toRat)
  let iLgrid : ApFixed := .ofRat
    (p.GLgrid.toRat * vLg.toRat + (hist (grid k)).toRat)
  assign histOut (grid k)
    (p.GLgrid.toRat * vLg.toRat + p.betaLgrid.toRat * iLgrid.toRat)

/-- `update_history`: the new history. -/
def updateHistory (V hist : Fin 9 → ApFixed) (p : FixedParams ApFixed) :
    Fin 9 → ApFixed :=
  (List.finRange 3).foldl (historyPhase V hist p) fun _ => .ofRat 0

-- ============================================================= the kernel

/-- `solver_top`: the statics after the call, and `state_out`. -/
def solverTop (sine : Fin 3 → ApFixed → ApFixed)
    (quotient : ApFixed → ApFixed → ApFixed) (params : FixedParams ApFixed)
    (gate : BitVec 6) (s : Kernel ApFixed) :
    Kernel ApFixed × (Fin 9 → AxisState ApFixed) :=
  let I := nortonUpdate (vSource sine) s.hist gate s.t params
  let V := luSolve quotient s.L s.U s.piv I fun _ => .ofRat 0
  let hist := updateHistory V s.hist params
  ({ s with V := V, hist := hist, t := .ofRat (s.t.toRat + params.dt.toRat) },
    fun i => { data := V i, last := if i.val = 9 - 1 then 1#8 else 0#8 })

/-- The statics after a sequence of calls. -/
def solverRun (sine : Fin 3 → ApFixed → ApFixed)
    (quotient : ApFixed → ApFixed → ApFixed) (params : FixedParams ApFixed)
    (gates : List (BitVec 6)) (s : Kernel ApFixed) : Kernel ApFixed :=
  gates.foldl (fun s gate => (solverTop sine quotient params gate s).1) s

end EdgeIpc.Vsc.Hls.Synth
