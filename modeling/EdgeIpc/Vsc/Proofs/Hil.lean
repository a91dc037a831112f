/-
The Python model computes what the C++ solver computes.

# The simulation

`Agree` relates the two states field by field. A step of the one is
matched by a step of the other: whatever their caches hold, both solve
with the matrix of the step's gate (`NetInv` on the C++ side, `CacheInv`
on the Python side), the matrices are equal although they are stamped in
another order (`assembleG_eq`), so are the right-hand sides, and a matrix
that factors has one solution, which is what `scipy` is taken to return.
-/
import EdgeIpc.Vsc.HilModel
import EdgeIpc.Vsc.Proofs.Trapezoidal

namespace EdgeIpc.Vsc.Hil

open Lib

variable {K : Type}

-- ============================================================== the gates

/-- A gate pattern as the C++ solver is handed it, -/
def toUint8 (gate : BitVec 6) : BitVec 8 := gate.setWidth 8

/-- and as a Python integer. -/
def toInt (gate : BitVec 6) : Int := gate.toNat

theorem gateBit_toInt (gate : BitVec 6) {n : Nat} (h : n < 8) :
    gateBit (toInt gate) n = (toUint8 gate).getLsbD n := by
  have hint : (toInt gate >>> n) % 2 = ((gate.toNat >>> n % 2 : Nat) : Int) := by
    rw [toInt, Int.natCast_emod]
    rfl
  have hbit : (toUint8 gate).getLsbD n = gate.toNat.testBit n := by
    rw [toUint8, BitVec.getLsbD_setWidth, decide_eq_true h, Bool.true_and]
    rfl
  rw [gateBit, hint, hbit, Nat.testBit_eq_decide_div_mod_eq,
    Nat.shiftRight_eq_div_pow]
  norm_cast

theorem gT1_eq (p : SolverParams K) (gate : BitVec 6) (k : Fin 3) :
    gT1 p (toInt gate) k = Vsc.gT1 p (toUint8 gate) k := by
  rw [gT1, Vsc.gT1, gateBit_toInt gate (by omega)]

theorem gT2_eq (p : SolverParams K) (gate : BitVec 6) (k : Fin 3) :
    gT2 p (toInt gate) k = Vsc.gT2 p (toUint8 gate) k := by
  rw [gT2, Vsc.gT2, gateBit_toInt gate (by omega)]

-- ============================================================ the formulas

variable [Field K] [LinearOrder K] [IsStrictOrderedRing K]

theorem two_eq : (2.0 : K) = 2 := by norm_num

theorem one_eq : (1.0 : K) = 1 := by norm_num

theorem makeInductor_eq (L R dt : K) :
    makeInductor L R dt
      = ((Vsc.makeInductor L R dt).Geq, (Vsc.makeInductor L R dt).beta) := by
  simp only [makeInductor, Vsc.makeInductor, two_eq]

theorem makeCap_eq (C dt : K) :
    makeCap C dt = (Vsc.makeCapacitor C dt).GC := by
  simp only [makeCap, Vsc.makeCapacitor, two_eq]

/-- A phase's stamps add the phase's currents. -/
theorem current_assemblePhase (p : SolverParams K) (gate : BitVec 6)
    (G : Mat 9 K) (x : Fin 9 → K) (i : Fin 9) (k : Fin 3) :
    current (assemblePhase p (toInt gate) G k) x i
      = current G x i + phaseCurrent (Vsc.makeInductor p.Lf p.Rf p.dt).Geq
          (Vsc.makeCapacitor p.Cf p.dt).GC
          (Vsc.makeInductor p.Lgrid p.Rgrid p.dt).Geq (1 / p.Rsrc)
          (Vsc.gT1 p (toUint8 gate) k + Vsc.gT2 p (toUint8 gate) k) x i k := by
  simp only [assemblePhase, makeInductor_eq, makeCap_eq, one_eq, gT1_eq,
    gT2_eq, current_stamp_ground, current_stamp_branch, phaseCurrent,
    add_assoc]

/-- Stamped phase by phase or kind by kind, the matrix is the same. -/
theorem assembleG_eq (p : SolverParams K) (gate : BitVec 6) :
    assembleG p (toInt gate) = assemble p (toUint8 gate) := by
  have hcurrent : ∀ x i, current (assembleG p (toInt gate)) x i
      = current (assemble p (toUint8 gate)) x i := by
    intro x i
    have hzero : current (fun _ _ => 0 : Mat 9 K) x i = 0 := by
      simp [current]
    rw [current_assemble_sum, assembleG,
      foldl_accumulate (fun G => current G x i)
        fun G k => current_assemblePhase p gate G x i k, hzero, zero_add]
  -- the columns are the currents at the unit voltages
  funext i j
  have hij := hcurrent (Pi.single j 1) i
  simpa [current, Pi.single_apply] using hij

theorem overVoltage_eq (p : SolverParams K) (V : Fin 9 → K) :
    VscNetwork.overVoltage p V = Vsc.VscNetwork.overVoltage p V := by
  simp only [VscNetwork.overVoltage, Vsc.VscNetwork.overVoltage, two_eq]

-- =========================================================== the relation

/-- What is assumed of `scipy`: a system with exactly one solution is
solved. -/
def Scipy.Exact {n : Nat} (sp : Scipy n K) : Prop :=
  ∀ (A : Mat n K) (b x : Fin n → K),
    (∀ y : Fin n → K, (∀ i, ∑ j, A i j * y j = b i) ↔ y = x) →
    sp.luSolve (sp.luFactor A) b = x

/-- The two states hold the same voltages, currents, histories, time and
fault flag. -/
structure Agree (s : State K) (t : VscNetworkState K) : Prop where
  v : s.v = t.v
  iLf : s.iLf = t.iLf
  iCf : s.iCf = t.iCf
  iLgrid : s.iLgrid = t.iLgrid
  ILfHist : s.ILfHist = t.ILfHist
  ICfHist : s.ICfHist = t.ICfHist
  ILgridHist : s.ILgridHist = t.ILgridHist
  time : s.t = t.t
  fault : s.fault = t.fault

variable {p : SolverParams K} {sp : Scipy 9 K} {s : State K}
  {t : VscNetworkState K}

theorem injection_eq (h : Agree s t) (p : SolverParams K)
    (vSrc : Fin 3 → K → K) (gate : BitVec 6) :
    injection p vSrc (toInt gate) t
      = Vsc.injection p vSrc (toUint8 gate) s := by
  have hphase : injectPhase p vSrc (toInt gate) t
      = Vsc.injectPhase p vSrc (toUint8 gate) s := by
    funext I k
    simp only [injectPhase, Vsc.injectPhase, one_eq, gT1_eq, h.ILfHist,
      h.ICfHist, h.ILgridHist, h.time]
  rw [injection, Vsc.injection, hphase]

theorem agree_update (h : Agree s t) (gate : BitVec 6) (V : Fin 9 → K) :
    Agree (Vsc.VscNetwork.update p (toUint8 gate) V s)
      (VscNetwork.update p (toInt gate) V t) := by
  simp only [Vsc.VscNetwork.update, VscNetwork.update, makeInductor_eq,
    makeCap_eq, overVoltage_eq, h.ILfHist, h.ICfHist, h.ILgridHist, h.time]
  constructor <;> rfl

-- ============================================================== the cache

/-- What the cache holds, if anything, is the factorisation of the matrix
for the gate it is kept for. -/
structure CacheInv (p : SolverParams K) (net : VscNetwork sp) : Prop where
  params : net.p = p
  factored : net.gateFactored = -1
    ∨ net.GLu = some (sp.luFactor (assembleG p net.gateFactored))

omit [LinearOrder K] [IsStrictOrderedRing K] in
theorem cacheInv_init : CacheInv p (VscNetwork.init p : VscNetwork sp) :=
  ⟨rfl, .inl rfl⟩

omit [LinearOrder K] [IsStrictOrderedRing K] in
/-- Fresh or cached, a gate pattern gets the factorisation of its
matrix. -/
theorem getLu_eq {net : VscNetwork sp} (h : CacheInv p net)
    (gate : BitVec 6) :
    ∃ net', net.getLu (toInt gate)
        = (some (sp.luFactor (assembleG p (toInt gate))), net')
      ∧ CacheInv p net' := by
  have hgate : toInt gate ≠ -1 := by
    unfold toInt
    omega
  obtain ⟨rfl, hcache⟩ := h
  unfold VscNetwork.getLu
  by_cases hg : toInt gate = net.gateFactored
  · rcases hcache with hnone | hsome
    · exact absurd (hg.trans hnone) hgate
    · refine ⟨net, ?_, rfl, .inr hsome⟩
      rw [if_neg (not_not.mpr hg), hg]
      exact Prod.ext hsome rfl
  · rw [if_pos hg]
    exact ⟨_, rfl, rfl, .inr rfl⟩

-- =============================================================== the steps

/-- The two solvers after the same gates. -/
structure SideBySide (p : SolverParams K) (x : Vsc.VscNetwork K × State K)
    (y : VscNetwork sp × VscNetworkState K) : Prop where
  net : NetInv p x.1
  cache : CacheInv p y.1
  agree : Agree x.2 y.2

/-- One step of both solvers. -/
theorem agree_step (hsp : sp.Exact) (vSrc : Fin 3 → K → K)
    {gate : BitVec 6} {x : Vsc.VscNetwork K × State K}
    {y : VscNetwork sp × VscNetworkState K}
    (hf : FactorsAt p (toUint8 gate)) (h : SideBySide p x y) :
    ∃ x' y', Vsc.VscNetwork.advance vSrc (toUint8 gate) x = some x'
      ∧ VscNetwork.advance vSrc (toInt gate) y = some y'
      ∧ SideBySide p x' y' := by
  obtain ⟨net₁, V, hstep, hnet₁, hV⟩ := step_solves hf h.net vSrc x.2
  obtain ⟨net₁', hlu, hcache₁⟩ := getLu_eq h.cache gate
  obtain ⟨r, hr⟩ := hf
  -- the system has one solution, and both have it
  have hsolve : sp.luSolve (sp.luFactor (assembleG p (toInt gate)))
      (injection p vSrc (toInt gate) y.2) = V := by
    rw [assembleG_eq, injection_eq h.agree]
    refine hsp _ _ _ fun y => ⟨fun hy => ?_, ?_⟩
    · exact solution_unique hr fun i => (hy i).trans (hV i).symm
    · rintro rfl
      exact hV
  refine ⟨_, (net₁', VscNetwork.update p (toInt gate) V y.2),
    advance_of_step hstep, ?_, hnet₁, hcache₁, agree_update h.agree gate V⟩
  unfold VscNetwork.advance VscNetwork.step
  rw [hlu]
  dsimp only [Option.map_some]
  rw [hcache₁.params, hsolve]

/-- A whole run of both. -/
theorem agree_run (hsp : sp.Exact) (vSrc : Fin 3 → K → K)
    {gates : List (BitVec 6)} {x : Vsc.VscNetwork K × State K}
    {y : VscNetwork sp × VscNetworkState K}
    (hf : ∀ gate ∈ gates, FactorsAt p (toUint8 gate))
    (h : SideBySide p x y) :
    ∃ x' y', exec (Vsc.VscNetwork.advance vSrc) (gates.map toUint8) x
        = some x'
      ∧ exec (VscNetwork.advance vSrc) (gates.map toInt) y = some y'
      ∧ SideBySide p x' y' :=
  exec_together toUint8 toInt (agree_step hsp vSrc) hf h

/-- The Python model matches the C++ solver. With any grid source, on
parameters whose network is constructed, from any two states that agree,
and for every sequence of gate patterns whose matrices factor: both
solvers run through, and the states they end in agree, after any number
of steps. -/
theorem python_matches_cpp (hsp : sp.Exact) (vSrc : Fin 3 → K → K)
    {net₀ : Vsc.VscNetwork K} (hnet : Vsc.VscNetwork.construct p = .ok net₀)
    (h : Agree s t) (gates : List (BitVec 6))
    (hf : ∀ gate ∈ gates, FactorsAt p (toUint8 gate)) :
    ∃ x y, exec (Vsc.VscNetwork.advance vSrc) (gates.map toUint8) (net₀, s)
        = some x
      ∧ exec (VscNetwork.advance vSrc) (gates.map toInt)
          ((VscNetwork.init p : VscNetwork sp), t) = some y
      ∧ Agree x.2 y.2 := by
  have hstart : SideBySide p (net₀, s) ((VscNetwork.init p : VscNetwork sp), t) :=
    ⟨netInv_of_construct hnet, cacheInv_init, h⟩
  obtain ⟨x, y, hx, hy, hxy⟩ := agree_run hsp vSrc hf hstart
  exact ⟨x, y, hx, hy, hxy.agree⟩

/-- A `scipy` as it is assumed to be: it multiplies by the inverse. -/
noncomputable def exactScipy : Scipy 9 ℚ where
  LU := Mat 9 ℚ
  luFactor := id
  luSolve A b := (Matrix.of A)⁻¹.mulVec b

theorem exactScipy_exact : exactScipy.Exact := by
  intro A b x h
  have hx : (Matrix.of A).mulVec x = b := funext ((h x).mpr rfl)
  -- with one solution only, the matrix takes nothing but 0 to 0
  have hdet : (Matrix.of A).det ≠ 0 := by
    intro hzero
    obtain ⟨z, hz, hAz⟩ := Matrix.exists_mulVec_eq_zero_iff.mpr hzero
    have hsum : (Matrix.of A).mulVec (x + z) = b := by
      rw [Matrix.mulVec_add, hx, hAz, add_zero]
    exact hz (add_eq_left.mp ((h (x + z)).mp (congrFun hsum)))
  show (Matrix.of A)⁻¹.mulVec b = x
  rw [← hx, Matrix.mulVec_mulVec, Matrix.nonsing_inv_mul _ hdet.isUnit,
    Matrix.one_mulVec]

/-- At the default parameters, from the zero states: all legs up, then
down, then all switches closed. -/
theorem python_matches_cpp_default :
    ∃ net₀ x y,
      Vsc.VscNetwork.construct (SolverParams.default : SolverParams ℚ)
          = .ok net₀
        ∧ exec (Vsc.VscNetwork.advance fun _ _ => 325)
          [0x15#8, 0x2A#8, 0x3F#8] (net₀, State.zero) = some x
        ∧ exec (VscNetwork.advance fun _ _ => 325) [0x15, 0x2A, 0x3F]
          ((VscNetwork.init SolverParams.default : VscNetwork exactScipy),
            VscNetworkState.init) = some y
        ∧ Agree x.2 y.2 := by
  obtain ⟨net₀, hnet, -⟩ := construct_ok (factors_default 0x00#8)
  have hzero : Agree (State.zero : State ℚ) VscNetworkState.init := by
    constructor <;> rfl
  obtain ⟨x, y, hx, hy, hxy⟩ := python_matches_cpp exactScipy_exact
    (fun _ _ => 325) hnet hzero [0x15#6, 0x2A#6, 0x3F#6]
    fun gate _ => factors_default _
  exact ⟨net₀, x, y, hnet, hx, hy, hxy⟩

end EdgeIpc.Vsc.Hil
