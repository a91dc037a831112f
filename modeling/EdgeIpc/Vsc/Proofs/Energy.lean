/-
Two simulations of the same network under the same gate sequence do not
drift apart: the energy stored in their difference never grows.

# Why

The sources are the same in both runs, so the difference of two states
obeys Kirchhoff's law without sources (`Unforced`), and the trapezoidal
rule of every branch, which is linear. Over one step the energy of a
branch changes by the power at the mean of its old and new values. Summed
over a phase the powers of the filter node cancel, and what is left is
lost in the resistors, the source resistance and the switches
(`phase_balance`).

The mean is what makes the switches matter: that the inverter terminal
sees one conductance before and after the step takes a gate sequence that
closes one switch of each leg (`Complementary`). And it takes histories
that belong to the state, so the law begins after the first step.
-/
import EdgeIpc.Vsc.Proofs.Trapezoidal

namespace EdgeIpc.Vsc

open Lib

variable {K : Type} [Field K]

-- ================================================================ one phase

/-- Each leg has exactly one of its switches closed. -/
def Complementary (gate : BitVec 8) : Prop :=
  ∀ k : Fin 3, gate.getLsbD (2 * k) ≠ gate.getLsbD (2 * k + 1)

/-- Every such pattern loads the inverter terminals the same. -/
theorem leg_conductance {gate : BitVec 8} (h : Complementary gate)
    (p : SolverParams K) (k : Fin 3) :
    gT1 p gate k + gT2 p gate k = p.Gon + p.Goff := by
  have hk := h k
  unfold gT1 gT2
  revert hk
  cases gate.getLsbD (2 * k) <;> cases gate.getLsbD (2 * k + 1) <;> intro hk
  · exact absurd rfl hk
  · exact add_comm _ _
  · rfl
  · exact absurd rfl hk

variable [LinearOrder K] [IsStrictOrderedRing K]

/-- The energy balance of one phase without sources over one step of the
trapezoidal rule: `i`, `c` and `j` are the currents of the filter
inductor, the capacitor and the grid inductor, `x`, `y` and `z` the
voltages at its three nodes, primed after the step. -/
theorem phase_balance {L R C Lg Rg g Rs dt : K} {i c j x y z : K}
    {i' c' j' x' y' z' : K} (hdt : dt ≠ 0) (hg : g ≠ 0) (hRs : Rs ≠ 0)
    (hL : L * (i' - i) / dt
      = ((x' - y') + (x - y)) / 2 - R * (i' + i) / 2)
    (hC : C * (y' - y) / dt = (c' + c) / 2)
    (hLg : Lg * (j' - j) / dt
      = ((y' - z') + (y - z)) / 2 - Rg * (j' + j) / 2)
    (hinv : i + g * x = 0) (hcap : i = c + j) (hgrid : j = z / Rs)
    (hinv' : i' + g * x' = 0) (hcap' : i' = c' + j') (hgrid' : j' = z' / Rs) :
    L * i' ^ 2 / 2 + C * y' ^ 2 / 2 + Lg * j' ^ 2 / 2
      = L * i ^ 2 / 2 + C * y ^ 2 / 2 + Lg * j ^ 2 / 2
        - dt / 4 * ((R + 1 / g) * (i' + i) ^ 2
          + (Rg + Rs) * (j' + j) ^ 2) := by
  -- everything in terms of the two inductor currents and `y`
  have hx : x = -i / g := by
    field_simp
    linear_combination hinv
  have hx' : x' = -i' / g := by
    field_simp
    linear_combination hinv'
  have hz : z = Rs * j := by
    rw [hgrid]
    field_simp
  have hz' : z' = Rs * j' := by
    rw [hgrid']
    field_simp
  have hc : c = i - j := by rw [hcap]; ring
  have hc' : c' = i' - j' := by rw [hcap']; ring
  subst hx hx' hz hz' hc hc'
  have hL : L * (i' - i) = dt * (((-i' / g - y') + (-i / g - y)) / 2
      - R * (i' + i) / 2) := by
    rw [← hL]
    field_simp
  have hC : C * (y' - y) = dt * ((i' - j' + (i - j)) / 2) := by
    rw [← hC]
    field_simp
  have hLg : Lg * (j' - j) = dt * (((y' - Rs * j') + (y - Rs * j)) / 2
      - Rg * (j' + j) / 2) := by
    rw [← hLg]
    field_simp
  linear_combination (i' + i) / 2 * hL + (y' + y) / 2 * hC
    + (j' + j) / 2 * hLg

-- ============================================================== two states

/-- The energy of the difference of two states. -/
def diffEnergy (p : SolverParams K) (s₁ s₂ : State K) : K :=
  ∑ k, (p.Lf * (s₁.iLf k - s₂.iLf k) ^ 2 / 2.0
    + p.Cf * (s₁.v (cap k) - s₂.v (cap k)) ^ 2 / 2.0
    + p.Lgrid * (s₁.iLgrid k - s₂.iLgrid k) ^ 2 / 2.0)

/-- Kirchhoff's current law for the difference of two states: the sources
have dropped out. -/
structure Unforced (p : SolverParams K) (s₁ s₂ : State K) : Prop where
  inverter : ∀ k, s₁.iLf k - s₂.iLf k
    + (p.Gon + p.Goff) * (s₁.v (inv k) - s₂.v (inv k)) = 0
  filter : ∀ k, s₁.iLf k - s₂.iLf k
    = (s₁.iCf k - s₂.iCf k) + (s₁.iLgrid k - s₂.iLgrid k)
  source : ∀ k, s₁.iLgrid k - s₂.iLgrid k
    = (s₁.v (grid k) - s₂.v (grid k)) / p.Rsrc

variable {p : SolverParams K} {gate : BitVec 8} {s₁ s₂ s₁' s₂' : State K}

omit [LinearOrder K] [IsStrictOrderedRing K] in
theorem unforced_of_kirchhoff {e : Fin 3 → K} (hgate : Complementary gate)
    (h₁ : Kirchhoff p e gate s₁) (h₂ : Kirchhoff p e gate s₂) :
    Unforced p s₁ s₂ where
  inverter k := by
    have hg := leg_conductance hgate p k
    have h₁ := h₁.inverter k
    have h₂ := h₂.inverter k
    rw [hg] at h₁ h₂
    linear_combination h₁ - h₂
  filter k := by linear_combination h₁.filter k - h₂.filter k
  source k := by
    rw [sub_div]
    linear_combination h₁.source k - h₂.source k

/-- A step of both states loses energy. -/
theorem diffEnergy_le (hp : Positive p) (h₁ : TrapezoidalRule p s₁ s₁')
    (h₂ : TrapezoidalRule p s₂ s₂') (hu : Unforced p s₁ s₂)
    (hu' : Unforced p s₁' s₂') :
    diffEnergy p s₁' s₂' ≤ diffEnergy p s₁ s₂ := by
  obtain ⟨hdt, -, hRf, -, -, hRgrid, hGon, hGoff, hRsrc⟩ := hp
  have htwo : (2.0 : K) = 2 := by norm_num
  unfold diffEnergy
  rw [htwo]
  refine Finset.sum_le_sum fun k _ => ?_
  have hg : p.Gon + p.Goff ≠ 0 := by positivity
  -- the trapezoidal rules of the three branches, subtracted
  have hL : p.Lf * ((s₁'.iLf k - s₂'.iLf k) - (s₁.iLf k - s₂.iLf k)) / p.dt
      = (((s₁'.v (inv k) - s₂'.v (inv k)) - (s₁'.v (cap k) - s₂'.v (cap k)))
        + ((s₁.v (inv k) - s₂.v (inv k)) - (s₁.v (cap k) - s₂.v (cap k)))) / 2
        - p.Rf * ((s₁'.iLf k - s₂'.iLf k) + (s₁.iLf k - s₂.iLf k)) / 2 := by
    have e₁ := h₁.Lf k
    have e₂ := h₂.Lf k
    simp only [State.uLf] at e₁ e₂
    linear_combination e₁ - e₂
  have hC : p.Cf * ((s₁'.v (cap k) - s₂'.v (cap k))
        - (s₁.v (cap k) - s₂.v (cap k))) / p.dt
      = ((s₁'.iCf k - s₂'.iCf k) + (s₁.iCf k - s₂.iCf k)) / 2 := by
    linear_combination h₁.Cf k - h₂.Cf k
  have hLg : p.Lgrid * ((s₁'.iLgrid k - s₂'.iLgrid k)
        - (s₁.iLgrid k - s₂.iLgrid k)) / p.dt
      = (((s₁'.v (cap k) - s₂'.v (cap k))
          - (s₁'.v (grid k) - s₂'.v (grid k)))
        + ((s₁.v (cap k) - s₂.v (cap k)) - (s₁.v (grid k) - s₂.v (grid k))))
          / 2
        - p.Rgrid * ((s₁'.iLgrid k - s₂'.iLgrid k)
          + (s₁.iLgrid k - s₂.iLgrid k)) / 2 := by
    have e₁ := h₁.Lgrid k
    have e₂ := h₂.Lgrid k
    simp only [State.uLgrid] at e₁ e₂
    linear_combination e₁ - e₂
  rw [phase_balance hdt.ne' hg hRsrc.ne' hL hC hLg (hu.inverter k)
    (hu.filter k) (hu.source k) (hu'.inverter k) (hu'.filter k)
    (hu'.source k)]
  exact sub_le_self _ (by positivity)

-- =============================================================== two runs

/-- Two simulations after the same gates: their networks' factors are in
order and their clocks agree. -/
structure Alongside (p : SolverParams K)
    (x₁ x₂ : VscNetwork K × State K) : Prop where
  net₁ : NetInv p x₁.1
  net₂ : NetInv p x₂.1
  time : x₁.2.t = x₂.2.t

/-- What two simulations have in common once they have taken a step. -/
structure Settled (p : SolverParams K) (s₁ s₂ : State K) : Prop where
  histories₁ : Histories p s₁
  histories₂ : Histories p s₂
  unforced : Unforced p s₁ s₂

variable {x₁ x₂ : VscNetwork K × State K}

/-- One step of both. -/
theorem alongside_step (hp : Positive p) (vSrc : Fin 3 → K → K)
    (hf : FactorsAt p gate) (hgate : Complementary gate)
    (h : Alongside p x₁ x₂) :
    ∃ x₁' x₂', VscNetwork.advance vSrc gate x₁ = some x₁'
      ∧ VscNetwork.advance vSrc gate x₂ = some x₂'
      ∧ Alongside p x₁' x₂' ∧ Settled p x₁'.2 x₂'.2
      ∧ (Settled p x₁.2 x₂.2 →
        diffEnergy p x₁'.2 x₂'.2 ≤ diffEnergy p x₁.2 x₂.2) := by
  obtain ⟨net₁, V₁, hstep₁, hnet₁, hV₁⟩ := step_solves hf h.net₁ vSrc x₁.2
  obtain ⟨net₂, V₂, hstep₂, hnet₂, hV₂⟩ := step_solves hf h.net₂ vSrc x₂.2
  have hk₁ := kirchhoff_update hV₁
  have hk₂ := kirchhoff_update hV₂
  rw [← h.time] at hk₂
  have hu := unforced_of_kirchhoff hgate hk₁ hk₂
  refine ⟨_, _, advance_of_step hstep₁, advance_of_step hstep₂,
    ⟨hnet₁, hnet₂, congrArg (· + p.dt) h.time⟩,
    ⟨histories_update .., histories_update .., hu⟩, fun hs => ?_⟩
  exact diffEnergy_le hp (trapezoidal_update hp hs.histories₁ gate V₁)
    (trapezoidal_update hp hs.histories₂ gate V₂) hs.unforced hu

/-- A whole run of both, of one step or more. -/
theorem alongside_run (hp : Positive p) (vSrc : Fin 3 → K → K)
    {gates : List (BitVec 8)} (hne : gates ≠ [])
    (hall : ∀ gate ∈ gates, FactorsAt p gate ∧ Complementary gate)
    (h : Alongside p x₁ x₂) :
    ∃ x₁' x₂', exec (VscNetwork.advance vSrc) gates x₁ = some x₁'
      ∧ exec (VscNetwork.advance vSrc) gates x₂ = some x₂'
      ∧ Alongside p x₁' x₂' ∧ Settled p x₁'.2 x₂'.2 := by
  obtain ⟨gate, gates, rfl⟩ := List.exists_cons_of_ne_nil hne
  obtain ⟨hgate, hgates⟩ := List.forall_mem_cons.mp hall
  obtain ⟨y₁, y₂, hstep₁, hstep₂, hy, hs, -⟩ :=
    alongside_step hp vSrc hgate.1 hgate.2 h
  rw [exec_cons_of hstep₁, exec_cons_of hstep₂, ← List.map_id gates]
  refine exec_together id id (fun hg hz => ?_) hgates ⟨hy, hs⟩
  obtain ⟨z₁, z₂, hz₁, hz₂, hz', hs', -⟩ :=
    alongside_step hp vSrc hg.1 hg.2 hz.1
  exact ⟨z₁, z₂, hz₁, hz₂, hz', hs'⟩

-- ============================================================= the theorem

/-- Incremental stability. On parameters of the right signs, take any two
states of the same time on a constructed network, and any sequence of
gate patterns, each with one switch of every leg closed and each with a
matrix that factors. Both simulations run through, and every further step
from the state after the first step onward leaves the energy of their
difference the same or smaller. -/
theorem incremental_stability (hp : Positive p) (vSrc : Fin 3 → K → K)
    {net₀ : VscNetwork K} (hnet : VscNetwork.construct p = .ok net₀)
    {s₁ s₂ : State K} (ht : s₁.t = s₂.t) (gates : List (BitVec 8))
    (gate : BitVec 8) (hne : gates ≠ [])
    (hall : ∀ g ∈ gates ++ [gate], FactorsAt p g ∧ Complementary g) :
    ∃ x₁ x₂ x₁' x₂',
      exec (VscNetwork.advance vSrc) gates (net₀, s₁) = some x₁
        ∧ exec (VscNetwork.advance vSrc) gates (net₀, s₂) = some x₂
        ∧ VscNetwork.advance vSrc gate x₁ = some x₁'
        ∧ VscNetwork.advance vSrc gate x₂ = some x₂'
        ∧ diffEnergy p x₁'.2 x₂'.2 ≤ diffEnergy p x₁.2 x₂.2 := by
  have hinv := netInv_of_construct hnet
  have hstart : Alongside p (net₀, s₁) (net₀, s₂) := ⟨hinv, hinv, ht⟩
  obtain ⟨x₁, x₂, hrun₁, hrun₂, hx, hsettled⟩ := alongside_run hp vSrc hne
    (fun g hg => hall g (List.mem_append_left _ hg)) hstart
  obtain ⟨hf, hgate⟩ := hall gate (List.mem_append_right _ List.mem_cons_self)
  obtain ⟨x₁', x₂', hstep₁, hstep₂, -, -, hle⟩ :=
    alongside_step hp vSrc hf hgate hx
  exact ⟨x₁, x₂, x₁', x₂', hrun₁, hrun₂, hstep₁, hstep₂, hle hsettled⟩

/-- At the default parameters: the zero state and one with a history, all
legs switched up and then down. -/
theorem incremental_stability_default :
    ∃ net₀ x₁ x₂ x₁' x₂',
      VscNetwork.construct (SolverParams.default : SolverParams ℚ) = .ok net₀
        ∧ exec (VscNetwork.advance fun _ _ => 325) [0x15#8]
          (net₀, State.zero) = some x₁
        ∧ exec (VscNetwork.advance fun _ _ => 325) [0x15#8]
          (net₀, { State.zero with ILfHist := fun _ => 1 }) = some x₂
        ∧ VscNetwork.advance (fun _ _ => 325) 0x2A#8 x₁ = some x₁'
        ∧ VscNetwork.advance (fun _ _ => 325) 0x2A#8 x₂ = some x₂'
        ∧ diffEnergy SolverParams.default x₁'.2 x₂'.2
          ≤ diffEnergy SolverParams.default x₁.2 x₂.2 := by
  obtain ⟨net₀, hnet, -⟩ := construct_ok (factors_default 0x00#8)
  have hall : ∀ g ∈ [0x15#8] ++ [0x2A#8],
      FactorsAt (SolverParams.default : SolverParams ℚ) g
        ∧ Complementary g := by
    intro g hg
    refine ⟨factors_default g, ?_⟩
    revert g
    unfold Complementary
    decide
  have ht : (State.zero : State ℚ).t
      = ({ State.zero with ILfHist := fun _ => 1 } : State ℚ).t := rfl
  have hrun := incremental_stability positive_default (fun _ _ => 325) hnet ht
    [0x15#8] 0x2A#8 (List.cons_ne_nil _ _) hall
  obtain ⟨x₁, x₂, x₁', x₂', h⟩ := hrun
  exact ⟨net₀, x₁, x₂, x₁', x₂', hnet, h⟩

end EdgeIpc.Vsc
