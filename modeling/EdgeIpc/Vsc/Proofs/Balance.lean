/-
The energy account of a simulation: what the filter stores at the end of
a run is what it stored at the beginning, plus the work done on it at its
terminals, less what its resistors have turned into heat.

The trapezoidal rule makes the account exact. Over one step the energy of
an inductor or a capacitor changes by the power at the mean of its old
and new current and voltage, times the step; at the filter node the means
of the three currents cancel (`phase_account`). No other property of the
step enters, so the account holds under every sequence of gate bytes,
complementary or not, and for every grid.
-/
import EdgeIpc.Vsc.Proofs.Trapezoidal

namespace EdgeIpc.Vsc

open Lib

variable {K : Type} [Field K]

-- ============================================================= the account

/-- The energy stored in the inductors and capacitors. -/
def storedEnergy (p : SolverParams K) (s : State K) : K :=
  ∑ k, (p.Lf * s.iLf k ^ 2 / 2.0 + p.Cf * s.v (cap k) ^ 2 / 2.0
    + p.Lgrid * s.iLgrid k ^ 2 / 2.0)

/-- The mean of a quantity over a step. -/
def mean (x x' : K) : K := (x + x') / 2.0

/-- The work done at the terminals over a step: the inverter legs' on the
filter, less the filter's on the grid. -/
def terminalWork (p : SolverParams K) (s s' : State K) : K :=
  p.dt * ∑ k, (mean (s.v (inv k)) (s'.v (inv k)) * mean (s.iLf k) (s'.iLf k)
    - mean (s.v (grid k)) (s'.v (grid k))
      * mean (s.iLgrid k) (s'.iLgrid k))

/-- The heat of the winding resistances over a step. -/
def windingHeat (p : SolverParams K) (s s' : State K) : K :=
  p.dt * ∑ k, (p.Rf * mean (s.iLf k) (s'.iLf k) ^ 2
    + p.Rgrid * mean (s.iLgrid k) (s'.iLgrid k) ^ 2)

variable [LinearOrder K]

/-- The sum of a quantity over the steps of a run. -/
def overRun (vSrc : Fin 3 → K → K) (f : State K → State K → K) :
    List (BitVec 8) → VscNetwork K × State K → K
  | [], _ => 0
  | gate :: gates, x =>
      match VscNetwork.advance vSrc gate x with
      | some x' => f x.2 x'.2 + overRun vSrc f gates x'
      | none => 0

theorem overRun_cons {vSrc : Fin 3 → K → K} (f : State K → State K → K)
    {gate : BitVec 8} (gates : List (BitVec 8))
    {x x' : VscNetwork K × State K}
    (h : VscNetwork.advance vSrc gate x = some x') :
    overRun vSrc f (gate :: gates) x = f x.2 x'.2 + overRun vSrc f gates x' := by
  simp only [overRun, h]

-- ================================================================ one step

variable [IsStrictOrderedRing K] {p : SolverParams K} {s s' : State K}

omit [LinearOrder K] [IsStrictOrderedRing K] in
/-- One phase over one step of the trapezoidal rule: `i`, `c`, `j` are the
currents of the filter inductor, the capacitor and the grid inductor,
`x`, `y`, `z` the voltages at its three nodes, primed after the step. -/
theorem phase_account {L R C Lg Rg dt : K} {i c j x y z : K}
    {i' c' j' x' y' z' : K} (hdt : dt ≠ 0)
    (hL : L * (i' - i) / dt
      = ((x' - y') + (x - y)) / 2 - R * (i' + i) / 2)
    (hC : C * (y' - y) / dt = (c' + c) / 2)
    (hLg : Lg * (j' - j) / dt
      = ((y' - z') + (y - z)) / 2 - Rg * (j' + j) / 2)
    (hcap : i = c + j) (hcap' : i' = c' + j') :
    L * i' ^ 2 / 2 + C * y' ^ 2 / 2 + Lg * j' ^ 2 / 2
      = L * i ^ 2 / 2 + C * y ^ 2 / 2 + Lg * j ^ 2 / 2
        + dt * ((x + x') / 2 * ((i + i') / 2) - (z + z') / 2 * ((j + j') / 2))
        - dt * (R * ((i + i') / 2) ^ 2 + Rg * ((j + j') / 2) ^ 2) := by
  have hL : L * (i' - i) = dt * (((x' - y') + (x - y)) / 2
      - R * (i' + i) / 2) := by
    rw [← hL]
    field_simp
  have hC : C * (y' - y) = dt * ((c' + c) / 2) := by
    rw [← hC]
    field_simp
  have hLg : Lg * (j' - j) = dt * (((y' - z') + (y - z)) / 2
      - Rg * (j' + j) / 2) := by
    rw [← hLg]
    field_simp
  have hc : c = i - j := by rw [hcap]; ring
  have hc' : c' = i' - j' := by rw [hcap']; ring
  rw [hc, hc'] at hC
  linear_combination (i' + i) / 2 * hL + (y' + y) / 2 * hC
    + (j' + j) / 2 * hLg

/-- The account of one step. -/
theorem step_account (hdt : 0 < p.dt) (htrap : TrapezoidalRule p s s')
    (hkcl : ∀ k, s.iLf k = s.iCf k + s.iLgrid k)
    (hkcl' : ∀ k, s'.iLf k = s'.iCf k + s'.iLgrid k) :
    storedEnergy p s' = storedEnergy p s
      + (terminalWork p s s' - windingHeat p s s') := by
  have htwo : (2.0 : K) = 2 := by norm_num
  unfold storedEnergy terminalWork windingHeat mean
  rw [htwo, Finset.mul_sum, Finset.mul_sum, ← Finset.sum_sub_distrib,
    ← Finset.sum_add_distrib]
  refine Finset.sum_congr rfl fun k _ => ?_
  rw [phase_account hdt.ne' (htrap.Lf k) (htrap.Cf k)
    (htrap.Lgrid k) (hkcl k) (hkcl' k)]
  ring

-- =============================================================== whole runs

/-- What a state has that a step has produced. -/
structure InBalance (p : SolverParams K) (s : State K) : Prop where
  histories : Histories p s
  filter : ∀ k, s.iLf k = s.iCf k + s.iLgrid k

omit [LinearOrder K] [IsStrictOrderedRing K] in
theorem inBalance_zero (p : SolverParams K) : InBalance p State.zero :=
  ⟨histories_zero p, fun _ => (add_zero _).symm⟩

theorem account_run (hp : Positive p) (vSrc : Fin 3 → K → K) :
    ∀ (gates : List (BitVec 8)) {net : VscNetwork K} {s : State K},
      (∀ gate ∈ gates, FactorsAt p gate) → NetInv p net → InBalance p s →
      ∃ x, exec (VscNetwork.advance vSrc) gates (net, s) = some x
        ∧ storedEnergy p x.2 = storedEnergy p s
          + (overRun vSrc (terminalWork p) gates (net, s)
            - overRun vSrc (windingHeat p) gates (net, s))
  | [], net, s, _, _, _ => by
      refine ⟨(net, s), rfl, ?_⟩
      simp only [overRun, sub_zero, add_zero]
  | gate :: gates, net, s, hf, hnet, hb => by
      obtain ⟨hgate, hrest⟩ := List.forall_mem_cons.mp hf
      obtain ⟨net₁, V, hstep, hnet₁, hV⟩ := step_solves hgate hnet vSrc s
      have hadv := advance_of_step hstep
      have hkcl := kirchhoff_update hV
      obtain ⟨x, hrun, henergy⟩ := account_run hp vSrc gates hrest hnet₁
        ⟨histories_update p gate V s, hkcl.filter⟩
      refine ⟨x, (exec_cons_of hadv).trans hrun, ?_⟩
      have hstep := step_account hp.dt
        (trapezoidal_update hp hb.histories gate V) hb.filter hkcl.filter
      rw [henergy, hstep, overRun_cons _ gates hadv,
        overRun_cons _ gates hadv]
      ring

/-- A run goes through, and after its first step its states are such. -/
theorem inBalance_run (vSrc : Fin 3 → K → K) :
    ∀ (gates : List (BitVec 8)) {net : VscNetwork K} {s : State K},
      (∀ gate ∈ gates, FactorsAt p gate) → NetInv p net →
      ∃ net' s', exec (VscNetwork.advance vSrc) gates (net, s)
          = some (net', s')
        ∧ NetInv p net' ∧ (gates ≠ [] ∨ InBalance p s → InBalance p s')
  | [], net, s, _, hnet => by
      refine ⟨net, s, rfl, hnet, ?_⟩
      rintro (hne | hs)
      · exact absurd rfl hne
      · exact hs
  | gate :: gates, net, s, hf, hnet => by
      obtain ⟨hgate, hrest⟩ := List.forall_mem_cons.mp hf
      obtain ⟨net₁, V, hstep, hnet₁, hV⟩ := step_solves hgate hnet vSrc s
      obtain ⟨net', s', hrun, hnet', hb⟩ :=
        inBalance_run vSrc gates hrest hnet₁
      refine ⟨net', s', ?_, hnet', fun _ => hb (.inr ?_)⟩
      · rw [exec_cons_of (advance_of_step hstep)]
        exact hrun
      · exact ⟨histories_update p gate V s, (kirchhoff_update hV).filter⟩

-- ============================================================= the theorem

/-- The energy balance. On parameters of the right signs, for every grid,
every state and every sequence of gate bytes whose matrices factor,
complementary or not: the simulation runs through, and over every stretch
of it that begins after its first step, or at rest, the stored energy
changes by exactly the work done at the terminals over the stretch, less
the heat of the windings. -/
theorem energy_balance (hp : Positive p) (vSrc : Fin 3 → K → K)
    {net₀ : VscNetwork K} (hnet : VscNetwork.construct p = .ok net₀)
    (s₀ : State K) (before gates : List (BitVec 8))
    (hstart : before ≠ [] ∨ s₀ = State.zero)
    (hf : ∀ gate ∈ before ++ gates, FactorsAt p gate) :
    ∃ x y, exec (VscNetwork.advance vSrc) before (net₀, s₀) = some x
      ∧ exec (VscNetwork.advance vSrc) gates x = some y
      ∧ storedEnergy p y.2 = storedEnergy p x.2
        + (overRun vSrc (terminalWork p) gates x
          - overRun vSrc (windingHeat p) gates x) := by
  obtain ⟨net, s, hrun, hinv, hb⟩ := inBalance_run (s := s₀) vSrc before
    (fun g hg => hf g (List.mem_append_left _ hg)) (netInv_of_construct hnet)
  have hbalance : InBalance p s := by
    apply hb
    rcases hstart with hne | rfl
    · exact .inl hne
    · exact .inr (inBalance_zero p)
  obtain ⟨y, hy, henergy⟩ := account_run hp vSrc gates
    (fun g hg => hf g (List.mem_append_right _ hg)) hinv hbalance
  exact ⟨(net, s), y, hrun, hy, henergy⟩

/-- At the default parameters: two steps after a shoot-through of all
three legs. -/
theorem energy_balance_default :
    ∃ net₀ x y,
      VscNetwork.construct (SolverParams.default : SolverParams ℚ) = .ok net₀
        ∧ exec (VscNetwork.advance fun _ _ => 325) [0x3F#8]
          (net₀, State.zero) = some x
        ∧ exec (VscNetwork.advance fun _ _ => 325) [0x15#8, 0x00#8] x
          = some y
        ∧ storedEnergy SolverParams.default y.2
          = storedEnergy SolverParams.default x.2
            + (overRun (fun _ _ => 325) (terminalWork SolverParams.default)
                [0x15#8, 0x00#8] x
              - overRun (fun _ _ => 325) (windingHeat SolverParams.default)
                [0x15#8, 0x00#8] x) := by
  obtain ⟨net₀, hnet, -⟩ := construct_ok (factors_default 0x00#8)
  obtain ⟨x, y, hx, hy, henergy⟩ := energy_balance positive_default
    (fun _ _ => 325) hnet State.zero [0x3F#8] [0x15#8, 0x00#8]
    (.inl (List.cons_ne_nil _ _)) fun gate _ => factors_default gate
  exact ⟨net₀, x, y, hnet, hx, hy, henergy⟩

end EdgeIpc.Vsc
