/-
The closed loop around the Python model is the closed loop around the C++
solver.

Feedback preserves agreement. Two networks that show the loop the same
time, currents and voltages get the same gates from it; and if they agree
again after every gate the modulator can produce, the loops stay together
for good (`run_together`). The Python model and the C++ solver do: the
modulator's gates close one switch of each leg, so their matrices are all
the one matrix (`factorsAt_legs`), and a step of the one is matched by a
step of the other.
-/
import EdgeIpc.Vsc.ClosedLoop
import EdgeIpc.Vsc.Proofs.Hil
import EdgeIpc.Vsc.Proofs.Modulator

namespace EdgeIpc.Vsc

open Lib

variable {K : Type} [Field K] [LinearOrder K]

-- ================================================================ feedback

/-- Two networks that look the same to the loop, and do so again after
every gate of the modulator's. -/
structure Coupled {N N' : Type} (plant : Plant N K) (plant' : Plant N' K)
    (R : N → N' → Prop) : Prop where
  t : ∀ {a b}, R a b → plant.t a = plant'.t b
  iLf : ∀ {a b}, R a b → plant.iLf a = plant'.iLf b
  v : ∀ {a b}, R a b → plant.v a = plant'.v b
  step : ∀ {a b gate}, Legs gate → R a b →
    ∃ a' b', plant.step gate a = some a' ∧ plant'.step gate b = some b'
      ∧ R a' b'

/-- Two loops with the same controller and modulator around networks that
look the same. -/
structure SameLoop {N N' : Type} (R : N → N' → Prop) (x : Loop N K)
    (y : Loop N' K) : Prop where
  pi : x.pi = y.pi
  spwm : x.spwm = y.spwm
  net : R x.net y.net

section Feedback

variable [FloorRing K] {N N' : Type} {plant : Plant N K}
  {plant' : Plant N' K} {R : N → N' → Prop}

/-- A round of the loop, once the network has taken its step. -/
theorem exists_body (iRef : K → Fin 3 → K) {x : Loop N K} {a : N}
    (h : plant.step (x.spwm.modulate (x.pi.step (iRef (plant.t x.net))
      (plant.iLf x.net)).2).2 x.net = some a) :
    ∃ x' sample, x.body plant iRef = some (x', sample) ∧ x'.net = a
      ∧ sample.vCapA = plant.v a (cap phaseA)
      ∧ sample.iLfA = plant.iLf a phaseA :=
  ⟨_, _, congrArg (Option.map _) h, rfl, rfl, rfl⟩

/-- One round of both loops. -/
theorem body_together (hc : Coupled plant plant' R) (iRef : K → Fin 3 → K)
    {x : Loop N K} {y : Loop N' K} (h : SameLoop R x y) :
    ∃ x' y' sample, x.body plant iRef = some (x', sample)
      ∧ y.body plant' iRef = some (y', sample) ∧ SameLoop R x' y' := by
  have hgate := modulate_legs x.spwm
    (x.pi.step (iRef (plant.t x.net)) (plant.iLf x.net)).2
  obtain ⟨a', b', ha, hb, hR'⟩ := hc.step hgate h.net
  refine ⟨_, ⟨_, _, b'⟩, _, congrArg (Option.map _) ha, ?_, rfl, rfl, hR'⟩
  unfold Loop.body
  rw [← h.pi, ← h.spwm, ← hc.t h.net, ← hc.iLf h.net]
  dsimp only
  rw [hb, hc.v hR', hc.iLf hR']
  rfl

/-- Any number of rounds. -/
theorem run_together (hc : Coupled plant plant' R) (iRef : K → Fin 3 → K)
    (n : Nat) {x : Loop N K} {y : Loop N' K} (h : SameLoop R x y) :
    ∃ x' y' samples, x.run plant iRef n = some (x', samples)
      ∧ y.run plant' iRef n = some (y', samples) ∧ SameLoop R x' y' := by
  induction n generalizing x y with
  | zero => exact ⟨x, y, [], rfl, rfl, h⟩
  | succ n ih =>
      obtain ⟨x₁, y₁, sample, hx, hy, h₁⟩ := body_together hc iRef h
      obtain ⟨x', y', samples, hx', hy', h'⟩ := ih h₁
      refine ⟨x', y', sample :: samples, ?_, ?_, h'⟩
      · simp only [Loop.run, hx, hx', Option.map_some]
      · simp only [Loop.run, hy, hy', Option.map_some]

/-- What every gate of the modulator's keeps, the loop keeps, and every
sample is one of a network that has it. -/
theorem run_keeps (plant : Plant N K) {Inv : N → Prop}
    (hstep : ∀ {a gate}, Legs gate → Inv a →
      ∃ a', plant.step gate a = some a' ∧ Inv a')
    (iRef : K → Fin 3 → K) (n : Nat) {x : Loop N K} (h : Inv x.net) :
    ∃ x' samples, x.run plant iRef n = some (x', samples) ∧ Inv x'.net
      ∧ samples.length = n
      ∧ ∀ sample ∈ samples, ∃ a, Inv a ∧ sample.vCapA = plant.v a (cap phaseA)
        ∧ sample.iLfA = plant.iLf a phaseA := by
  induction n generalizing x with
  | zero => exact ⟨x, [], rfl, h, rfl, nofun⟩
  | succ n ih =>
      have hgate := modulate_legs x.spwm
        (x.pi.step (iRef (plant.t x.net)) (plant.iLf x.net)).2
      obtain ⟨a, ha, hInv⟩ := hstep hgate h
      obtain ⟨x₁, sample, hbody, rfl, hv, hi⟩ := exists_body iRef ha
      obtain ⟨x', samples, hrun, hx', hlen, hall⟩ := ih hInv
      refine ⟨x', sample :: samples, ?_, hx', congrArg (· + 1) hlen,
        List.forall_mem_cons.mpr ⟨⟨x₁.net, hInv, hv, hi⟩, hall⟩⟩
      simp only [Loop.run, hbody, hrun, Option.map_some]

end Feedback

-- =============================================================== the gates

variable {p : SolverParams K} {gate : Nat}

/-- If the matrix of one such gate factors, so do those of all. -/
theorem factorsAt_legs {g : BitVec 8} (hg : Complementary g)
    (hf : FactorsAt p g) (h : Legs gate) :
    FactorsAt p (BitVec.ofNat 8 gate) := by
  have hload : Hls.SameLoad p g (BitVec.ofNat 8 gate) := fun k => by
    rw [leg_conductance (complementary_of_legs h), leg_conductance hg]
  unfold FactorsAt
  rw [Hls.assemble_congr hload]
  exact hf

theorem toUint8_ofNat (h : gate < 64) :
    Hil.toUint8 (BitVec.ofNat 6 gate) = BitVec.ofNat 8 gate := by
  apply BitVec.eq_of_toNat_eq
  rw [Hil.toUint8, BitVec.toNat_setWidth, BitVec.toNat_ofNat,
    BitVec.toNat_ofNat]
  omega

theorem toInt_ofNat (h : gate < 64) :
    Hil.toInt (BitVec.ofNat 6 gate) = gate := by
  rw [Hil.toInt, BitVec.toNat_ofNat, Nat.mod_eq_of_lt h]

-- ============================================================= the theorem

variable [IsStrictOrderedRing K] {sp : Hil.Scipy 9 K}

theorem coupled_hil (hsp : sp.Exact) (vSrc : Fin 3 → K → K) {g : BitVec 8}
    (hg : Complementary g) (hf : FactorsAt p g) :
    Coupled (VscNetwork.plant vSrc)
      (Hil.plant vSrc : Plant (Hil.VscNetwork sp × Hil.VscNetworkState K) K)
      (Hil.SideBySide p) where
  t h := h.agree.time
  iLf h := h.agree.iLf
  v h := h.agree.v
  step := by
    intro a b gate hlegs h
    have hfactors := factorsAt_legs hg hf hlegs
    rw [← toUint8_ofNat hlegs.1] at hfactors
    obtain ⟨a', b', ha, hb, h'⟩ := Hil.agree_step hsp vSrc hfactors h
    rw [toUint8_ofNat hlegs.1] at ha
    rw [toInt_ofNat hlegs.1] at hb
    exact ⟨a', b', ha, hb, h'⟩

variable [FloorRing K]

/-- The closed loops match. For every grid and every reference, from any
two states that agree, with any controller and any modulator: on
parameters whose network is constructed and for which one gate with one
switch of each leg closed has a matrix that factors, the loop around the
C++ solver and the loop around the Python model run for any number of
steps. They record the same, and end with the same controller, the same
modulator and states that agree. -/
theorem closed_loops_match (hsp : sp.Exact) (vSrc : Fin 3 → K → K)
    (iRef : K → Fin 3 → K) {net₀ : VscNetwork K}
    (hnet : VscNetwork.construct p = .ok net₀) {g : BitVec 8}
    (hg : Complementary g) (hf : FactorsAt p g) {s : State K}
    {t : Hil.VscNetworkState K} (h : Hil.Agree s t) (pi : PiController K)
    (spwm : SpwmModulator K) (n : Nat) :
    ∃ x y samples,
      Loop.run (VscNetwork.plant vSrc) iRef n ⟨pi, spwm, (net₀, s)⟩
          = some (x, samples)
        ∧ Loop.run (Hil.plant vSrc) iRef n
          ⟨pi, spwm, ((Hil.VscNetwork.init p : Hil.VscNetwork sp), t)⟩
          = some (y, samples)
        ∧ x.pi = y.pi ∧ x.spwm = y.spwm ∧ Hil.Agree x.net.2 y.net.2 := by
  have hstart : SameLoop (Hil.SideBySide p) ⟨pi, spwm, (net₀, s)⟩
      ⟨pi, spwm, ((Hil.VscNetwork.init p : Hil.VscNetwork sp), t)⟩ :=
    ⟨rfl, rfl, netInv_of_construct hnet, Hil.cacheInv_init, h⟩
  obtain ⟨x, y, samples, hx, hy, hsame⟩ :=
    run_together (coupled_hil hsp vSrc hg hf) iRef n hstart
  exact ⟨x, y, samples, hx, hy, hsame.pi, hsame.spwm, hsame.net.agree⟩

/-- The tests' loop, at the default parameters, with a constant grid
voltage and reference: 300 steps from the zero states. -/
theorem closed_loops_match_default :
    ∃ net₀ spwm x y samples,
      VscNetwork.construct (SolverParams.default : SolverParams ℚ) = .ok net₀
        ∧ SpwmModulator.construct 0.00005 10000 = some spwm
        ∧ Loop.run (VscNetwork.plant fun _ _ => 325) (fun _ _ => 10) 300
          ⟨PiController.construct 0.5 20 0.00005 5, spwm, (net₀, State.zero)⟩
          = some (x, samples)
        ∧ Loop.run (Hil.plant fun _ _ => 325) (fun _ _ => 10) 300
          ⟨PiController.construct 0.5 20 0.00005 5, spwm,
            ((Hil.VscNetwork.init SolverParams.default :
              Hil.VscNetwork Hil.exactScipy), Hil.VscNetworkState.init)⟩
          = some (y, samples)
        ∧ Hil.Agree x.net.2 y.net.2 := by
  obtain ⟨net₀, hnet, -⟩ := construct_ok (factors_default 0x00#8)
  have hgate : Complementary 0x15#8 := by
    unfold Complementary
    decide
  have hzero : Hil.Agree (State.zero : State ℚ) Hil.VscNetworkState.init := by
    constructor <;> rfl
  have hfreq : (10000 : ℚ) ≠ 0 := by norm_num
  obtain ⟨x, y, samples, hx, hy, -, -, hagree⟩ := closed_loops_match
    Hil.exactScipy_exact (fun _ _ => 325) (fun _ _ => 10) hnet hgate
    (factors_default 0x15#8) hzero (PiController.construct 0.5 20 0.00005 5)
    ⟨0.00005, 1 / 10000, 0.25 * (1 / 10000), one_div_ne_zero hfreq⟩ 300
  exact ⟨net₀, _, x, y, samples, hnet, dif_neg hfreq, hx, hy, hagree⟩

end EdgeIpc.Vsc
