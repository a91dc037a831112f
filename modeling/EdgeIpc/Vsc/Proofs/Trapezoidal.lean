/-
One time step of the network is one step of the trapezoidal rule.

# What a step is

Whether the factors are fresh or cached, they are those of the matrix
for the step's gate byte (`NetInv`), so the node voltages of a step solve
the network's equations (`step_solves`). Read node by node these are
Kirchhoff's current law for the new currents (`kirchhoff_update`). The
histories of the new state are those of its own currents and voltages by
construction, and a state with that property (`Histories`) is what a step
of the companion models needs to be a step of the trapezoidal rule
(`trapezoidal_update`): every state a step has produced has it, and so
has the zero state.

`trapezoidal_step` puts this together for every run.
-/
import EdgeIpc.Lib.Run
import EdgeIpc.Vsc.Proofs.Factors
import Mathlib.Tactic.FieldSimp

namespace EdgeIpc.Vsc

open Lib

variable {K : Type} [Field K]

-- =============================================================== the laws

/-- Kirchhoff's current law at the nine nodes, with `e k` the source
voltage of phase `k`. -/
structure Kirchhoff (p : SolverParams K) (e : Fin 3 → K) (gate : BitVec 8)
    (s : State K) : Prop where
  inverter : ∀ k, s.iLf k + (gT1 p gate k + gT2 p gate k) * s.v (inv k)
    = gT1 p gate k * p.Vdc
  filter : ∀ k, s.iLf k = s.iCf k + s.iLgrid k
  source : ∀ k, s.iLgrid k + e k / p.Rsrc = s.v (grid k) / p.Rsrc

/-- The voltage across the filter inductor of phase `k`. -/
def State.uLf (s : State K) (k : Fin 3) : K := s.v (inv k) - s.v (cap k)

/-- The voltage across the grid inductor. -/
def State.uLgrid (s : State K) (k : Fin 3) : K :=
  s.v (cap k) - s.v (grid k)

/-- The stored history currents are those of the state's own branch
currents and voltages. -/
structure Histories (p : SolverParams K) (s : State K) : Prop where
  Lf : ∀ k, s.ILfHist k
    = inductorHistory (makeInductor p.Lf p.Rf p.dt) (s.iLf k) (s.uLf k)
  Cf : ∀ k, s.ICfHist k
    = capacitorHistory (makeCapacitor p.Cf p.dt) (s.iCf k) (s.v (cap k))
  Lgrid : ∀ k, s.ILgridHist k
    = inductorHistory (makeInductor p.Lgrid p.Rgrid p.dt) (s.iLgrid k)
      (s.uLgrid k)

/-- Two states one step of the trapezoidal rule apart, in every
branch. -/
structure TrapezoidalRule (p : SolverParams K) (s s' : State K) : Prop where
  Lf : ∀ k, p.Lf * (s'.iLf k - s.iLf k) / p.dt
    = (s'.uLf k + s.uLf k) / 2 - p.Rf * (s'.iLf k + s.iLf k) / 2
  Cf : ∀ k, p.Cf * (s'.v (cap k) - s.v (cap k)) / p.dt
    = (s'.iCf k + s.iCf k) / 2
  Lgrid : ∀ k, p.Lgrid * (s'.iLgrid k - s.iLgrid k) / p.dt
    = (s'.uLgrid k + s.uLgrid k) / 2
      - p.Rgrid * (s'.iLgrid k + s.iLgrid k) / 2

-- ============================================================ the branches

variable [LinearOrder K] [IsStrictOrderedRing K]

/-- The companion of a series RL branch is its trapezoidal rule. -/
theorem inductor_trapezoidal {L R dt i i' u u' : K} (hL : 0 < L)
    (hR : 0 ≤ R) (hdt : 0 < dt)
    (h : i' = (makeInductor L R dt).Geq * u'
      + inductorHistory (makeInductor L R dt) i u) :
    L * (i' - i) / dt = (u' + u) / 2 - R * (i' + i) / 2 := by
  have hdenom : 2 * L + R * dt ≠ 0 := by positivity
  simp only [makeInductor, inductorHistory] at h
  rw [h]
  field_simp
  ring

/-- The companion of a capacitor is its trapezoidal rule. -/
theorem capacitor_trapezoidal {C dt i i' v v' : K} (hdt : 0 < dt)
    (h : i' = (makeCapacitor C dt).GC * v'
      + capacitorHistory (makeCapacitor C dt) i v) :
    C * (v' - v) / dt = (i' + i) / 2 := by
  simp only [makeCapacitor, capacitorHistory] at h
  rw [h]
  field_simp
  ring

-- ============================================================== the update

variable {p : SolverParams K} {gate : BitVec 8} {s : State K}

/-- Node voltages that solve the network give currents that satisfy
Kirchhoff's law. -/
theorem kirchhoff_update {vSrc : Fin 3 → K → K} {V : Fin 9 → K}
    (hV : ∀ i, current (assemble p gate) V i = injection p vSrc gate s i) :
    Kirchhoff p (fun k => vSrc k s.t) gate
      (VscNetwork.update p gate V s) := by
  refine ⟨fun k => ?_, fun k => ?_, fun k => ?_⟩ <;>
    obtain ⟨hinv, hcap, hgrid⟩ := current_assemble p gate V k <;>
    obtain ⟨jinv, jcap, jgrid⟩ := injection_eq p vSrc gate s k
  · have hnode := hV (inv k)
    rw [hinv, jinv] at hnode
    simp only [VscNetwork.update]
    linear_combination hnode
  · have hnode := hV (cap k)
    rw [hcap, jcap] at hnode
    simp only [VscNetwork.update]
    linear_combination -hnode
  · have hnode := hV (grid k)
    rw [hgrid, jgrid] at hnode
    simp only [VscNetwork.update]
    linear_combination -hnode

omit [IsStrictOrderedRing K] in
theorem histories_update (p : SolverParams K) (gate : BitVec 8)
    (V : Fin 9 → K) (s : State K) :
    Histories p (VscNetwork.update p gate V s) :=
  ⟨fun _ => rfl, fun _ => rfl, fun _ => rfl⟩

omit [LinearOrder K] [IsStrictOrderedRing K] in
theorem histories_zero (p : SolverParams K) : Histories p State.zero := by
  constructor <;> intro k <;>
    simp [State.zero, State.uLf, State.uLgrid, inductorHistory,
      capacitorHistory]

theorem trapezoidal_update (hp : Positive p) (hs : Histories p s)
    (gate : BitVec 8) (V : Fin 9 → K) :
    TrapezoidalRule p s (VscNetwork.update p gate V s) where
  Lf k := inductor_trapezoidal hp.Lf hp.Rf hp.dt
    (congrArg (_ * _ + ·) (hs.Lf k))
  Cf k := capacitor_trapezoidal hp.dt (congrArg (_ * _ + ·) (hs.Cf k))
  Lgrid k := inductor_trapezoidal hp.Lgrid hp.Rgrid hp.dt
    (congrArg (_ * _ + ·) (hs.Lgrid k))

-- ============================================================= the factors

/-- The cached factors are those of the gate byte they are kept for. -/
structure NetInv (p : SolverParams K) (net : VscNetwork K) : Prop where
  params : net.p = p
  factored : luFactor ⟨assemble p net.gateFactored, id⟩
    = .ok ⟨net.LU, net.piv⟩

omit [IsStrictOrderedRing K]

theorem assembleAndFactor_ok {net : VscNetwork K} (hf : FactorsAt p gate)
    (hnet : net.p = p) :
    ∃ net', net.assembleAndFactor gate = .ok net' ∧ NetInv p net'
      ∧ net'.gateFactored = gate := by
  obtain ⟨s, hs⟩ := hf
  refine ⟨⟨net.p, assemble p gate, s.A, s.pivot, gate⟩, ?_, ⟨hnet, hs⟩, rfl⟩
  unfold VscNetwork.assembleAndFactor
  dsimp only
  rw [hnet, luFactor_pivot hs net.piv]

theorem construct_ok (hf : FactorsAt p 0x00#8) :
    ∃ net, VscNetwork.construct p = .ok net ∧ NetInv p net := by
  have hparams : (⟨p, fun _ _ => 0, fun _ _ => 0, fun _ => 0, 0xFF#8⟩ :
      VscNetwork K).p = p := rfl
  obtain ⟨net, hnet, hinv, -⟩ := assembleAndFactor_ok hf hparams
  exact ⟨net, hnet, hinv⟩

/-- Factoring that does not throw makes the cache consistent. -/
theorem netInv_assembleAndFactor {net net' : VscNetwork K}
    (hnet : net.p = p) (h : net.assembleAndFactor gate = .ok net') :
    NetInv p net' := by
  unfold VscNetwork.assembleAndFactor at h
  dsimp only at h
  split at h
  next s hs =>
    injection h with h
    subst h
    rw [hnet] at hs
    exact ⟨hnet, luFactor_pivot hs id⟩
  next => cases h

/-- A network that has been constructed, with the factors its
constructor has made. -/
theorem netInv_of_construct {net : VscNetwork K}
    (h : VscNetwork.construct p = .ok net) : NetInv p net :=
  netInv_assembleAndFactor rfl h

/-- Fresh or cached, the factors a step goes on with are those of its
gate byte. -/
theorem refactor_ok {net : VscNetwork K} (hf : FactorsAt p gate)
    (hnet : NetInv p net) :
    ∃ net', net.refactor gate = .ok net' ∧ NetInv p net'
      ∧ net'.gateFactored = gate := by
  unfold VscNetwork.refactor
  by_cases hg : gate = net.gateFactored
  · exact ⟨net, if_neg (not_not.mpr hg), hnet, hg.symm⟩
  · rw [if_pos hg]
    exact assembleAndFactor_ok hf hnet.params

variable [IsStrictOrderedRing K]

/-- A step computes node voltages that solve the network of its gate
byte. -/
theorem step_solves {net : VscNetwork K} (hf : FactorsAt p gate)
    (hnet : NetInv p net) (vSrc : Fin 3 → K → K) (s : State K) :
    ∃ net' V, VscNetwork.step vSrc net s gate
        = .ok (net', VscNetwork.update p gate V s)
      ∧ NetInv p net'
      ∧ ∀ i, current (assemble p gate) V i
        = injection p vSrc gate s i := by
  obtain ⟨net', hok, hinv, rfl⟩ := refactor_ok hf hnet
  refine ⟨net', luSolve net'.LU net'.piv
    (injection p vSrc net'.gateFactored s) fun _ => 0, ?_, hinv, ?_⟩
  · unfold VscNetwork.step
    rw [hok]
    dsimp only
    rw [hinv.params]
  · exact luSolve_correct hinv.factored _ _

omit [IsStrictOrderedRing K] in
theorem advance_of_step {vSrc : Fin 3 → K → K} {net : VscNetwork K}
    {x : VscNetwork K × State K}
    (h : VscNetwork.step vSrc net s gate = .ok x) :
    VscNetwork.advance vSrc gate (net, s) = some x := by
  unfold VscNetwork.advance
  rw [h]
  rfl

/-- Every run goes through, and after its first step every state has its
own histories. -/
theorem run_ok (hf : Factors p) (vSrc : Fin 3 → K → K) :
    ∀ (gates : List (BitVec 8)) {net : VscNetwork K} {s : State K},
      NetInv p net → ∃ net' s',
        exec (VscNetwork.advance vSrc) gates (net, s) = some (net', s')
          ∧ NetInv p net'
          ∧ (gates ≠ [] ∨ Histories p s → Histories p s')
  | [], net, s, hnet => by
      refine ⟨net, s, rfl, hnet, ?_⟩
      rintro (hne | hs)
      · exact absurd rfl hne
      · exact hs
  | gate :: gates, net, s, hnet => by
      obtain ⟨net₁, V, hstep, hnet₁, -⟩ := step_solves (hf gate) hnet vSrc s
      obtain ⟨net', s', hrun, hnet', hhist⟩ := run_ok hf vSrc gates hnet₁
      refine ⟨net', s', ?_, hnet', fun _ => ?_⟩
      · rw [exec_cons_of (advance_of_step hstep)]
        exact hrun
      · exact hhist (.inr (histories_update p gate V s))

-- ============================================================= the theorem

/-- Trapezoidal step correctness. On parameters of the right signs whose
matrices factor, the network is constructed, and from every state every
sequence of gate bytes runs through and can be continued by any further
one. After that step Kirchhoff's current law holds at all nine nodes, the
stored histories are those of the new state's branch currents and
voltages, and unless it was the first step from an arbitrary state, the
two states around it satisfy the trapezoidal rule of every branch. -/
theorem trapezoidal_step (hp : Positive p) (hf : Factors p)
    (vSrc : Fin 3 → K → K) :
    ∃ net₀, VscNetwork.construct p = .ok net₀
      ∧ ∀ (s₀ : State K) (gates : List (BitVec 8)) (gate : BitVec 8),
        ∃ net s net' s',
          exec (VscNetwork.advance vSrc) gates (net₀, s₀) = some (net, s)
            ∧ VscNetwork.step vSrc net s gate = .ok (net', s')
            ∧ Kirchhoff p (fun k => vSrc k s.t) gate s'
            ∧ Histories p s'
            ∧ (gates ≠ [] ∨ s₀ = State.zero → TrapezoidalRule p s s') := by
  obtain ⟨net₀, hnet₀, hinv₀⟩ := construct_ok (hf _)
  refine ⟨net₀, hnet₀, fun s₀ gates gate => ?_⟩
  obtain ⟨net, s, hrun, hinv, hhist⟩ := run_ok hf vSrc gates hinv₀
  obtain ⟨net', V, hstep, -, hV⟩ := step_solves (hf gate) hinv vSrc s
  refine ⟨net, s, net', _, hrun, hstep, kirchhoff_update hV,
    histories_update p gate V s, fun hfirst => ?_⟩
  apply trapezoidal_update hp
  apply hhist
  rcases hfirst with hne | rfl
  · exact .inl hne
  · exact .inr (histories_zero p)

/-- At the default parameters, with a constant grid voltage: the first
step from the zero state, all three phases switched up. -/
theorem trapezoidal_step_default :
    Positive (SolverParams.default : SolverParams ℚ)
      ∧ Factors (SolverParams.default : SolverParams ℚ)
      ∧ ∃ net₀ net s, VscNetwork.construct SolverParams.default = .ok net₀
        ∧ VscNetwork.step (fun _ _ => 325) net₀ State.zero 0x15#8
          = .ok (net, s)
        ∧ Kirchhoff (SolverParams.default : SolverParams ℚ) (fun _ => 325)
          0x15#8 s
        ∧ Histories SolverParams.default s
        ∧ TrapezoidalRule SolverParams.default State.zero s := by
  refine ⟨positive_default, factors_default, ?_⟩
  obtain ⟨net₀, hnet₀, hrun⟩ :=
    trapezoidal_step positive_default factors_default fun _ _ => 325
  obtain ⟨_, _, net, s, hnil, hstep, hkcl, hhist, hrule⟩ :=
    hrun State.zero [] 0x15#8
  cases hnil
  exact ⟨net₀, net, s, hnet₀, hstep, hkcl, hhist, hrule (.inr rfl)⟩

end EdgeIpc.Vsc
