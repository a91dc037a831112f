/-
What the modulator does to the network: its gate states close exactly one
switch of each leg (`modulate_legs`), so the two conductances of a leg
add up to the same sum in all of them, and the matrix, rebuilt at each
change of the gate, is rebuilt the same (`refactor_kept`). Along a run
the network keeps the one factorisation of its first step
(`one_factorisation`).

Nothing is asked of the parameters but that the first step does not
throw: its matrix is that of every later step, so no later step throws
either.
-/
import EdgeIpc.Vsc.Controller
import EdgeIpc.Vsc.Proofs.Energy
import EdgeIpc.Vsc.Proofs.Hls
import Mathlib.Data.Rat.Floor

namespace EdgeIpc.Vsc

open Lib

-- ========================================================= the gate states

/-- Six bits, exactly one of the two of each leg set. -/
def Legs (gate : Nat) : Prop :=
  gate < 64 ∧ ∀ k : Fin 3, gate.testBit (2 * k) ≠ gate.testBit (2 * k + 1)

instance (gate : Nat) : Decidable (Legs gate) :=
  inferInstanceAs (Decidable (_ ∧ _))

/-- As a `uint8_t`. -/
theorem complementary_of_legs {gate : Nat} (h : Legs gate) :
    Complementary (BitVec.ofNat 8 gate) := by
  intro k
  have hk := k.isLt
  rw [BitVec.getLsbD_ofNat, BitVec.getLsbD_ofNat, decide_eq_true (by omega),
    decide_eq_true (by omega), Bool.true_and, Bool.true_and]
  exact h.2 k

section Modulator

variable {K : Type} [Field K] [LinearOrder K] [FloorRing K]

theorem modulate_legs (m : SpwmModulator K) (u : Fin 3 → K) :
    Legs (m.modulate u).2 := by
  show Legs (SpwmModulator.setPhase m.carrier u (SpwmModulator.setPhase
    m.carrier u (SpwmModulator.setPhase m.carrier u 0 0) 1) 2)
  unfold SpwmModulator.setPhase
  -- the eight outcomes of the three comparisons
  split <;> split <;> split <;> decide

theorem gates_legs (us : List (Fin 3 → K)) (m : SpwmModulator K) :
    ∀ gate ∈ m.gates us, Legs gate := by
  induction us generalizing m with
  | nil => nofun
  | cons u us ih =>
      intro gate hmem
      rcases List.mem_cons.mp hmem with rfl | hmem
      · exact modulate_legs m u
      · exact ih _ gate hmem

end Modulator

-- ============================================================= the network

variable {K : Type} [Field K] [LinearOrder K] {p : SolverParams K}
  {net₁ net : VscNetwork K} {gate : BitVec 8}

/-- The factors of a network that has been factored for a gate byte. -/
structure FactoredFor (p : SolverParams K) (gate : BitVec 8)
    (net : VscNetwork K) : Prop where
  params : net.p = p
  G : net.G = assemble p gate
  factored : luFactor ⟨assemble p gate, id⟩ = .ok ⟨net.LU, net.piv⟩

/-- The same parameters and arrays, whatever gate byte they are kept
for. -/
structure Kept (net₁ net : VscNetwork K) : Prop where
  params : net.p = net₁.p
  G : net.G = net₁.G
  LU : net.LU = net₁.LU
  piv : net.piv = net₁.piv

theorem assembleAndFactor_factored {net' : VscNetwork K}
    (hp : net.p = p) (h : net.assembleAndFactor gate = .ok net') :
    FactoredFor p gate net' ∧ net'.gateFactored = gate := by
  unfold VscNetwork.assembleAndFactor at h
  dsimp only at h
  split at h
  next s hs =>
    injection h with h
    subst h
    rw [hp] at hs
    exact ⟨⟨hp, congrArg (assemble · gate) hp, luFactor_pivot hs id⟩, rfl⟩
  next => cases h

/-- Another complementary gate byte has the same matrix, which factors
the same. -/
theorem refactor_kept {g₁ : BitVec 8} (h₁ : FactoredFor p g₁ net₁)
    (hg₁ : Complementary g₁) (hk : Kept net₁ net)
    (hgate : Complementary gate) :
    ∃ net', net.refactor gate = .ok net' ∧ Kept net₁ net'
      ∧ net'.gateFactored = gate := by
  unfold VscNetwork.refactor
  by_cases hsame : gate = net.gateFactored
  · exact ⟨net, if_neg (not_not.mpr hsame), hk, hsame.symm⟩
  · have hload : Hls.SameLoad p g₁ gate := fun k => by
      rw [leg_conductance hgate, leg_conductance hg₁]
    have hmatrix : assemble net.p gate = assemble p g₁ := by
      rw [hk.params, h₁.params, Hls.assemble_congr hload]
    refine ⟨{ net with
      G := assemble p g₁, LU := net₁.LU, piv := net₁.piv
      gateFactored := gate }, ?_, ⟨hk.params, h₁.G.symm, rfl, rfl⟩, rfl⟩
    rw [if_pos hsame]
    unfold VscNetwork.assembleAndFactor
    dsimp only
    rw [hmatrix, luFactor_pivot h₁.factored net.piv]

/-- Only factoring can throw. -/
theorem exists_step_iff (vSrc : Fin 3 → K → K) (s : State K)
    {net' : VscNetwork K} :
    (∃ s', VscNetwork.step vSrc net s gate = .ok (net', s'))
      ↔ net.refactor gate = .ok net' := by
  unfold VscNetwork.step
  cases net.refactor gate with
  | error e => simp
  | ok net₂ =>
      constructor
      · rintro ⟨s', h⟩
        injection h with h
        exact congrArg _ (Prod.mk.inj h).1
      · intro h
        injection h with h
        exact ⟨_, by rw [h]⟩

/-- A run on complementary gate bytes goes through and keeps the arrays. -/
theorem run_kept {g₁ : BitVec 8} (h₁ : FactoredFor p g₁ net₁)
    (hg₁ : Complementary g₁) (vSrc : Fin 3 → K → K) :
    ∀ (gates : List (BitVec 8)) {net : VscNetwork K} (s : State K),
      (∀ gate ∈ gates, Complementary gate) → Kept net₁ net →
      ∃ net' s', exec (VscNetwork.advance vSrc) gates (net, s)
          = some (net', s')
        ∧ Kept net₁ net'
        ∧ net'.gateFactored = gates.getLastD net.gateFactored
  | [], net, s, _, hk => ⟨net, s, rfl, hk, rfl⟩
  | gate :: gates, net, s, hgates, hk => by
      obtain ⟨hgate, hrest⟩ := List.forall_mem_cons.mp hgates
      obtain ⟨net₂, hok, hk₂, rfl⟩ := refactor_kept h₁ hg₁ hk hgate
      obtain ⟨s₂, hstep⟩ := (exists_step_iff vSrc s).mpr hok
      obtain ⟨net', s', hrun, hk', hlast⟩ :=
        run_kept h₁ hg₁ vSrc gates s₂ hrest hk₂
      rw [exec_cons_of (advance_of_step hstep), List.getLastD_cons]
      exact ⟨net', s', hrun, hk', hlast⟩

-- ============================================================= the theorem

/-- The first step of a fresh network on a complementary gate byte factors
the matrix for it: the constructor has left that of all switches open. -/
theorem first_step_factored {net₀ : VscNetwork K}
    (hnet₀ : VscNetwork.construct p = .ok net₀) (hgate : Complementary gate)
    {vSrc : Fin 3 → K → K} {s s₁ : State K}
    (h : VscNetwork.step vSrc net₀ s gate = .ok (net₁, s₁)) :
    FactoredFor p gate net₁ ∧ net₁.gateFactored = gate := by
  have hrefactor := (exists_step_iff vSrc s).mp ⟨s₁, h⟩
  obtain ⟨⟨hp, -, -⟩, hopen⟩ := assembleAndFactor_factored rfl hnet₀
  have hne : gate ≠ net₀.gateFactored := by
    rintro rfl
    rw [hopen] at hgate
    exact hgate 0 rfl
  unfold VscNetwork.refactor at hrefactor
  rw [if_pos hne] at hrefactor
  exact assembleAndFactor_factored hp hrefactor

/-- Complementary switching keeps one factorisation. For every modulator,
at whatever phase of its carrier, and every sequence of duty vectors, each
gate state has six bits and exactly one of the two of each leg set. And
driving a fresh network with them, from any state: if the first step does
not throw, no later one does, and after any number of further steps `G_`,
`LU_` and `piv_` are what they were after the first, while
`gate_factored_` is the last gate. -/
theorem one_factorisation [FloorRing K] (m : SpwmModulator K)
    (us : List (Fin 3 → K)) :
    (∀ gate ∈ m.gates us, gate < 64 ∧ ∀ k : Fin 3,
        gate.testBit (2 * k) ≠ gate.testBit (2 * k + 1))
      ∧ ∀ (p : SolverParams K) (vSrc : Fin 3 → K → K)
        (net₀ net₁ : VscNetwork K) (s₀ s₁ : State K) (gate : BitVec 8)
        (rest : List (BitVec 8)),
        VscNetwork.construct p = .ok net₀ →
        (m.gates us).map (BitVec.ofNat 8) = gate :: rest →
        VscNetwork.step vSrc net₀ s₀ gate = .ok (net₁, s₁) →
        ∀ pre post, rest = pre ++ post →
          ∃ net s, exec (VscNetwork.advance vSrc) pre (net₁, s₁)
              = some (net, s)
            ∧ net.G = net₁.G ∧ net.LU = net₁.LU ∧ net.piv = net₁.piv
            ∧ net.gateFactored = pre.getLastD gate := by
  refine ⟨gates_legs us m, ?_⟩
  rintro p vSrc net₀ net₁ s₀ s₁ gate rest hnet₀ hgates hstep pre post rfl
  have hall : ∀ g ∈ gate :: (pre ++ post), Complementary g := by
    intro g hg
    rw [← hgates] at hg
    obtain ⟨g', hg', rfl⟩ := List.mem_map.mp hg
    exact complementary_of_legs (gates_legs us m g' hg')
  obtain ⟨hgate, hrest⟩ := List.forall_mem_cons.mp hall
  obtain ⟨h₁, hfactored⟩ := first_step_factored hnet₀ hgate hstep
  obtain ⟨net, s, hrun, hk, hlast⟩ := run_kept h₁ hgate vSrc pre s₁
    (fun g hg => hrest g (List.mem_append_left _ hg)) ⟨rfl, rfl, rfl, rfl⟩
  rw [hfactored] at hlast
  exact ⟨net, s, hrun, hk.G, hk.LU, hk.piv, hlast⟩

/-- The default modulator, at a demand of one half in all phases and then
of minus one half, switches from all upper to all lower switches; the
default network keeps its factors. -/
theorem one_factorisation_default :
    ∃ m, SpwmModulator.construct (50e-6 : ℚ) 10e3 = some m
      ∧ ∃ net₀ net₁ s₁ net s,
        VscNetwork.construct (SolverParams.default : SolverParams ℚ)
          = .ok net₀
        ∧ VscNetwork.step (fun _ _ => 325) net₀ State.zero 0x15#8
          = .ok (net₁, s₁)
        ∧ exec (VscNetwork.advance fun _ _ => 325) [0x2A#8] (net₁, s₁)
          = some (net, s)
        ∧ net.LU = net₁.LU ∧ net.piv = net₁.piv
        ∧ net.gateFactored = 0x2A#8 := by
  have hgates : (SpwmModulator.construct (50e-6 : ℚ) 10e3).map
      (fun m => m.gates [fun _ => 0.5, fun _ => -0.5])
      = some [0x15, 0x2A] := by decide +kernel
  obtain ⟨m, hm, hgates⟩ := Option.map_eq_some_iff.mp hgates
  obtain ⟨net₀, hnet₀, hinv₀⟩ := construct_ok (factors_default _)
  obtain ⟨net₁, V, hstep, -, -⟩ := step_solves (factors_default 0x15#8) hinv₀
    (fun _ _ => 325) State.zero
  obtain ⟨net, s, hrun, -, hLU, hpiv, hlast⟩ :=
    (one_factorisation m [fun _ => 0.5, fun _ => -0.5]).2 _ _ net₀ net₁ _ _
      0x15#8 [0x2A#8] hnet₀ (by rw [hgates]; rfl) hstep [0x2A#8] [] rfl
  exact ⟨m, hm, net₀, net₁, _, net, s, hnet₀, hstep, hrun, hLU, hpiv, hlast⟩

end EdgeIpc.Vsc
