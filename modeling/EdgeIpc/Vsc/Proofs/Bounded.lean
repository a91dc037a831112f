/-
The closed loop cannot diverge.

Whatever the reference and the controller, the modulator's gates close one
switch of each leg. Seen from the filter a leg is then a source of its own
behind a fixed resistance (`legVoltage`), as the grid is one behind the
source resistance (`gridVoltage`), and neither source can be large. So
every phase is a ladder of Lib/Ladder.lean (`midpoint_of_trapezoidal`),
and its quadratic form stays below a bound that is fixed before the
controller, the reference and the length of the run are (`held_step`).
-/
import EdgeIpc.Lib.Ladder
import EdgeIpc.Vsc.Proofs.Balance
import EdgeIpc.Vsc.Proofs.ClosedLoop

namespace EdgeIpc.Vsc

open Lib

variable {K : Type} [Field K] [LinearOrder K] [IsStrictOrderedRing K]
  {p : SolverParams K} {s s' : State K} {gate : BitVec 8}

-- ================================================================ one phase

/-- The voltage of phase `k`'s leg, behind its resistance. -/
def legVoltage (p : SolverParams K) (s : State K) (k : Fin 3) : K :=
  s.v (inv k) + s.iLf k / (p.Gon + p.Goff)

/-- The voltage of phase `k`'s grid source. -/
def gridVoltage (p : SolverParams K) (s : State K) (k : Fin 3) : K :=
  s.v (grid k) - p.Rsrc * s.iLgrid k

/-- A phase with the resistances of its two sources. -/
def ladder (hp : Positive p) : Ladder K where
  L := p.Lf
  C := p.Cf
  M := p.Lgrid
  R₁ := p.Rf + 1 / (p.Gon + p.Goff)
  R₂ := p.Rgrid + p.Rsrc
  dt := p.dt
  L_pos := hp.Lf
  C_pos := hp.Cf
  M_pos := hp.Lgrid
  R₁_pos := add_pos_of_nonneg_of_pos hp.Rf
    (one_div_pos.mpr (add_pos hp.Gon hp.Goff))
  R₂_pos := add_pos_of_nonneg_of_pos hp.Rgrid hp.Rsrc
  dt_pos := hp.dt

theorem midpoint_of_trapezoidal (hp : Positive p)
    (htrap : TrapezoidalRule p s s')
    (hkcl : ∀ k, s.iLf k = s.iCf k + s.iLgrid k)
    (hkcl' : ∀ k, s'.iLf k = s'.iCf k + s'.iLgrid k) (k : Fin 3) :
    (ladder hp).Midpoint ((legVoltage p s k + legVoltage p s' k) / 2)
      ((gridVoltage p s k + gridVoltage p s' k) / 2) (s.iLf k)
      (s.v (cap k)) (s.iLgrid k) (s'.iLf k) (s'.v (cap k))
      (s'.iLgrid k) := by
  have hL := (div_eq_iff hp.dt.ne').mp (htrap.Lf k)
  have hC := (div_eq_iff hp.dt.ne').mp (htrap.Cf k)
  have hLg := (div_eq_iff hp.dt.ne').mp (htrap.Lgrid k)
  simp only [State.uLf, State.uLgrid] at hL hLg
  refine ⟨?_, ?_, ?_⟩ <;> dsimp only [ladder, legVoltage, gridVoltage]
  · linear_combination hL
  · linear_combination hC - p.dt / 2 * (hkcl k + hkcl' k)
  · linear_combination hLg

/-- A leg with one switch closed stands at a part of the bus voltage. -/
theorem abs_legVoltage_le (hp : Positive p) {e : Fin 3 → K}
    (hgate : Complementary gate) (h : Kirchhoff p e gate s) (k : Fin 3) :
    |legVoltage p s k| ≤ |p.Vdc| := by
  have hG : 0 < p.Gon + p.Goff := add_pos hp.Gon hp.Goff
  have hT1 : 0 ≤ gT1 p gate k ∧ gT1 p gate k ≤ p.Gon + p.Goff := by
    unfold gT1
    split
    · exact ⟨hp.Gon.le, le_add_of_nonneg_right hp.Goff.le⟩
    · exact ⟨hp.Goff.le, le_add_of_nonneg_left hp.Gon.le⟩
  have hleg : legVoltage p s k = gT1 p gate k / (p.Gon + p.Goff) * p.Vdc := by
    have hnode := h.inverter k
    rw [leg_conductance hgate] at hnode
    unfold legVoltage
    field_simp
    linear_combination hnode
  rw [hleg, abs_mul, abs_of_nonneg (div_nonneg hT1.1 hG.le)]
  exact mul_le_of_le_one_left (abs_nonneg _) ((div_le_one hG).mpr hT1.2)

theorem gridVoltage_eq (hp : Positive p) {e : Fin 3 → K}
    (h : Kirchhoff p e gate s) (k : Fin 3) : gridVoltage p s k = e k := by
  have hnode := h.source k
  have hRsrc := hp.Rsrc.ne'
  field_simp at hnode
  unfold gridVoltage
  linear_combination -hnode

-- ============================================================== the network

/-- What every state of the loop keeps to: sources of at most `U`, and the
form at most `w`. -/
structure Held (hp : Positive p) (ε U w : K) (s : State K) : Prop where
  balance : InBalance p s
  leg : ∀ k, |legVoltage p s k| ≤ U
  source : ∀ k, |gridVoltage p s k| ≤ U
  form : ∀ k, (ladder hp).lyapunov ε (s.iLf k) (s.v (cap k)) (s.iLgrid k) ≤ w

/-- A network in order, and its state held. -/
def NetHeld (hp : Positive p) (ε U w : K) (x : VscNetwork K × State K) :
    Prop :=
  NetInv p x.1 ∧ Held hp ε U w x.2

theorem abs_mean_le {a b U : K} (ha : |a| ≤ U) (hb : |b| ≤ U) :
    |(a + b) / 2| ≤ U := by
  rw [abs_div, abs_two]
  have hsum := abs_add_le a b
  linarith

/-- One step. -/
theorem held_step (hp : Positive p) {ε U w : K}
    (hw : ∀ {e f i v j i' v' j' : K},
      (ladder hp).Midpoint e f i v j i' v' j' → |e| ≤ U → |f| ≤ U →
      (ladder hp).lyapunov ε i' v' j'
        ≤ max ((ladder hp).lyapunov ε i v j) w)
    (hU : |p.Vdc| ≤ U) {vSrc : Fin 3 → K → K} (hsrc : ∀ k t, |vSrc k t| ≤ U)
    (hf : FactorsAt p gate) (hgate : Complementary gate)
    {x : VscNetwork K × State K} (h : NetHeld hp ε U w x) :
    ∃ x', VscNetwork.advance vSrc gate x = some x'
      ∧ NetHeld hp ε U w x' := by
  obtain ⟨net, s⟩ := x
  obtain ⟨hnet, hs⟩ := h
  obtain ⟨net', V, hstep, hnet', hV⟩ := step_solves hf hnet vSrc s
  have hk := kirchhoff_update hV
  have hleg := fun k => (abs_legVoltage_le hp hgate hk k).trans hU
  have hgrid : ∀ k, |gridVoltage p (VscNetwork.update p gate V s) k| ≤ U := by
    intro k
    rw [gridVoltage_eq hp hk]
    exact hsrc k s.t
  refine ⟨_, advance_of_step hstep, hnet',
    ⟨histories_update p gate V s, hk.filter⟩, hleg, hgrid, fun k => ?_⟩
  have hmid := midpoint_of_trapezoidal hp
    (trapezoidal_update hp hs.balance.histories gate V) hs.balance.filter
    hk.filter k
  have hmax := hw hmid (abs_mean_le (hs.leg k) (hleg k))
    (abs_mean_le (hs.source k) (hgrid k))
  exact hmax.trans (max_le (hs.form k) le_rfl)

/-- All voltages and currents of a state are within `±B`. -/
structure Within (B : K) (s : State K) : Prop where
  v : ∀ i, |s.v i| ≤ B
  iLf : ∀ k, |s.iLf k| ≤ B
  iCf : ∀ k, |s.iCf k| ≤ B
  iLgrid : ∀ k, |s.iLgrid k| ≤ B

/-- The form and the sources bound the state. -/
theorem exists_within (hp : Positive p) {ε : K} (hε : (ladder hp).Small ε)
    (U w : K) : ∃ B, ∀ s, Held hp ε U w s → Within B s := by
  obtain ⟨B, hB⟩ := Ladder.exists_bound_of_lyapunov hε w
  have hG : 0 < p.Gon + p.Goff := add_pos hp.Gon hp.Goff
  have hRsrc := hp.Rsrc
  refine ⟨B ⊔ (U + B / (p.Gon + p.Goff)) ⊔ (U + p.Rsrc * B) ⊔ (B + B),
    fun s hs => ?_⟩
  have hall := fun k => hB _ _ _ (hs.form k)
  have hone : B ≤ B ⊔ (U + B / (p.Gon + p.Goff)) ⊔ (U + p.Rsrc * B)
      ⊔ (B + B) := le_sup_left.trans (le_sup_left.trans le_sup_left)
  refine ⟨fun i => ?_, fun k => (hall k).1.trans hone, fun k => ?_,
    fun k => (hall k).2.2.trans hone⟩
  · obtain ⟨k, rfl⟩ | ⟨k, rfl⟩ | ⟨k, rfl⟩ := node_cases i
    · have hi : |s.iLf k / (p.Gon + p.Goff)| ≤ B / (p.Gon + p.Goff) := by
        rw [abs_div, abs_of_pos hG]
        exact div_le_div_of_nonneg_right (hall k).1 hG.le
      have hv : s.v (inv k)
          = legVoltage p s k - s.iLf k / (p.Gon + p.Goff) := by
        unfold legVoltage
        ring
      rw [hv]
      refine (abs_sub _ _).trans ((add_le_add (hs.leg k) hi).trans ?_)
      exact le_sup_right.trans (le_sup_left.trans le_sup_left)
    · exact (hall k).2.1.trans hone
    · have hj : |p.Rsrc * s.iLgrid k| ≤ p.Rsrc * B := by
        rw [abs_mul, abs_of_pos hRsrc]
        exact mul_le_mul_of_nonneg_left (hall k).2.2 hRsrc.le
      have hv : s.v (grid k) = gridVoltage p s k + p.Rsrc * s.iLgrid k := by
        unfold gridVoltage
        ring
      rw [hv]
      refine (abs_add_le _ _).trans ((add_le_add (hs.source k) hj).trans ?_)
      exact le_sup_right.trans le_sup_left
  · have hc : s.iCf k = s.iLf k - s.iLgrid k := by
      rw [hs.balance.filter k]
      ring
    rw [hc]
    exact (abs_sub _ _).trans ((add_le_add (hall k).1 (hall k).2.2).trans
      le_sup_right)

-- ============================================================= the theorem

end EdgeIpc.Vsc
