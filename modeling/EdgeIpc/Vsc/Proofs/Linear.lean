/-
What the network has of a linear three-phase circuit, in exact
arithmetic: its phases do not see one another and are interchangeable,
and responses superpose.

Neither is visible in the code, which factors one matrix of nine rows
with row exchanges and solves for the nine node voltages at once. Both
come from the system having one solution (`solution_unique`). Graft the
voltages of a phase of one solution onto another solution: if the two
phases have the same equations, the result still solves the system, so
it is the solution it was grafted onto (`phase_solution`). And a linear
combination of solutions solves the system of the combined right-hand
side (`combined_solution`).
-/
import EdgeIpc.Vsc.Proofs.Trapezoidal

namespace EdgeIpc.Vsc

open Lib

variable {K : Type}

-- ============================================================== two phases

/-- The switches of phase `k` under the one gate byte are those of phase
`l` under the other. -/
def SameLeg (k l : Fin 3) (gate gate' : BitVec 8) : Prop :=
  gate.getLsbD (2 * k) = gate'.getLsbD (2 * l)
    ∧ gate.getLsbD (2 * k + 1) = gate'.getLsbD (2 * l + 1)

/-- Phase `k` of the one state enters the next step as phase `l` of the
other does. -/
structure SameHistory (k l : Fin 3) (s s' : State K) : Prop where
  time : s.t = s'.t
  Lf : s.ILfHist k = s'.ILfHist l
  Cf : s.ICfHist k = s'.ICfHist l
  Lgrid : s.ILgridHist k = s'.ILgridHist l

/-- Phase `k` of the one state is phase `l` of the other. -/
structure SamePhase (k l : Fin 3) (s s' : State K) : Prop where
  history : SameHistory k l s s'
  inv : s.v (inv k) = s'.v (inv l)
  cap : s.v (cap k) = s'.v (cap l)
  grid : s.v (grid k) = s'.v (grid l)
  iLf : s.iLf k = s'.iLf l
  iCf : s.iCf k = s'.iCf l
  iLgrid : s.iLgrid k = s'.iLgrid l

/-- The node voltages `x` with those of phase `k` replaced. -/
def graft (k : Fin 3) (a b c : K) (x : Fin 9 → K) : Fin 9 → K := fun i =>
  if i = inv k then a else if i = cap k then b
  else if i = grid k then c else x i

theorem graft_self (k : Fin 3) (a b c : K) (x : Fin 9 → K) :
    graft k a b c x (inv k) = a ∧ graft k a b c x (cap k) = b
      ∧ graft k a b c x (grid k) = c := by
  simp [graft, (inv_ne_cap k k).symm, (inv_ne_grid k k).symm,
    (cap_ne_grid k k).symm]

theorem graft_ne {k j : Fin 3} (hj : j ≠ k) (a b c : K) (x : Fin 9 → K) :
    graft k a b c x (inv j) = x (inv j)
      ∧ graft k a b c x (cap j) = x (cap j)
      ∧ graft k a b c x (grid j) = x (grid j) := by
  simp [graft, inv_inj, cap_inj, grid_inj, hj, inv_ne_cap, inv_ne_grid,
    cap_ne_grid, (inv_ne_cap _ _).symm, (inv_ne_grid _ _).symm,
    (cap_ne_grid _ _).symm]

variable {p : SolverParams K} {gate gate' : BitVec 8} {k l : Fin 3}
  {s s' : State K} {vSrc vSrc' : Fin 3 → K → K} {V V' : Fin 9 → K}

theorem SameLeg.conductances (h : SameLeg k l gate gate')
    (p : SolverParams K) :
    gT1 p gate k = gT1 p gate' l ∧ gT2 p gate k = gT2 p gate' l := by
  unfold gT1 gT2
  rw [h.1, h.2]
  exact ⟨rfl, rfl⟩

variable [Field K]

/-- The rows of phase `k` read the voltages of phase `k` only. -/
theorem current_graft (hleg : SameLeg k l gate gate') (x y : Fin 9 → K) :
    let z := graft k (y (inv l)) (y (cap l)) (y (grid l)) x
    current (assemble p gate) z (inv k)
        = current (assemble p gate') y (inv l)
      ∧ current (assemble p gate) z (cap k)
        = current (assemble p gate') y (cap l)
      ∧ current (assemble p gate) z (grid k)
        = current (assemble p gate') y (grid l) := by
  intro z
  obtain ⟨h₁, h₂, h₃⟩ := current_assemble p gate z k
  obtain ⟨h₁', h₂', h₃'⟩ := current_assemble p gate' y l
  obtain ⟨ha, hb, hc⟩ :=
    graft_self k (y (inv l)) (y (cap l)) (y (grid l)) x
  obtain ⟨hT1, hT2⟩ := hleg.conductances p
  rw [h₁, h₂, h₃, h₁', h₂', h₃', hT1, hT2]
  simp only [z, ha, hb, hc]
  exact ⟨trivial, trivial, trivial⟩

/-- The other rows do not read them. -/
theorem current_graft_ne {j : Fin 3} (hj : j ≠ k) (a b c : K)
    (x : Fin 9 → K) :
    current (assemble p gate) (graft k a b c x) (inv j)
        = current (assemble p gate) x (inv j)
      ∧ current (assemble p gate) (graft k a b c x) (cap j)
        = current (assemble p gate) x (cap j)
      ∧ current (assemble p gate) (graft k a b c x) (grid j)
        = current (assemble p gate) x (grid j) := by
  obtain ⟨h₁, h₂, h₃⟩ := current_assemble p gate (graft k a b c x) j
  obtain ⟨h₁', h₂', h₃'⟩ := current_assemble p gate x j
  obtain ⟨ha, hb, hc⟩ := graft_ne hj a b c x
  rw [h₁, h₂, h₃, h₁', h₂', h₃', ha, hb, hc]
  exact ⟨rfl, rfl, rfl⟩

/-- Equal histories, switches and sources make equal injections. -/
theorem injection_phase (hleg : SameLeg k l gate gate')
    (hs : SameHistory k l s s') (hsrc : vSrc k s.t = vSrc' l s.t) :
    injection p vSrc gate s (inv k) = injection p vSrc' gate' s' (inv l)
      ∧ injection p vSrc gate s (cap k) = injection p vSrc' gate' s' (cap l)
      ∧ injection p vSrc gate s (grid k)
        = injection p vSrc' gate' s' (grid l) := by
  obtain ⟨h₁, h₂, h₃⟩ := injection_eq p vSrc gate s k
  obtain ⟨h₁', h₂', h₃'⟩ := injection_eq p vSrc' gate' s' l
  rw [h₁, h₂, h₃, h₁', h₂', h₃', hs.Lf, hs.Cf, hs.Lgrid,
    (hleg.conductances p).1, hsrc, hs.time]
  exact ⟨rfl, rfl, rfl⟩

variable [LinearOrder K]

theorem samePhase_update (hs : SameHistory k l s s')
    (hV : V (inv k) = V' (inv l) ∧ V (cap k) = V' (cap l)
      ∧ V (grid k) = V' (grid l)) :
    SamePhase k l (VscNetwork.update p gate V s)
      (VscNetwork.update p gate' V' s') := by
  obtain ⟨ha, hb, hc⟩ := hV
  refine ⟨⟨congrArg (· + p.dt) hs.time, ?_, ?_, ?_⟩, ha, hb, hc, ?_, ?_, ?_⟩ <;>
    simp only [VscNetwork.update, ha, hb, hc, hs.Lf, hs.Cf, hs.Lgrid]

variable [IsStrictOrderedRing K]

/-- The voltages of a phase are determined by the phase. -/
theorem phase_solution (hf : FactorsAt p gate)
    (hleg : SameLeg k l gate gate') (hs : SameHistory k l s s')
    (hsrc : vSrc k s.t = vSrc' l s.t)
    (hV : ∀ i, current (assemble p gate) V i = injection p vSrc gate s i)
    (hV' : ∀ i, current (assemble p gate') V' i
      = injection p vSrc' gate' s' i) :
    V (inv k) = V' (inv l) ∧ V (cap k) = V' (cap l)
      ∧ V (grid k) = V' (grid l) := by
  obtain ⟨r, hr⟩ := hf
  obtain ⟨c₁, c₂, c₃⟩ := current_graft (p := p) hleg V V'
  obtain ⟨j₁, j₂, j₃⟩ := injection_phase (p := p) hleg hs hsrc
  have hgraft : graft k (V' (inv l)) (V' (cap l)) (V' (grid l)) V = V := by
    refine solution_unique hr fun i => ?_
    show current (assemble p gate) _ i = current (assemble p gate) V i
    -- in the rows of phase `k` the graft stands for `V'`, elsewhere for `V`
    rcases node_cases i with ⟨j, rfl⟩ | ⟨j, rfl⟩ | ⟨j, rfl⟩ <;>
      by_cases hj : j = k
    · rw [hj, c₁, hV', hV, j₁]
    · exact (current_graft_ne hj _ _ _ V).1
    · rw [hj, c₂, hV', hV, j₂]
    · exact (current_graft_ne hj _ _ _ V).2.1
    · rw [hj, c₃, hV', hV, j₃]
    · exact (current_graft_ne hj _ _ _ V).2.2
  obtain ⟨ha, hb, hc⟩ :=
    graft_self k (V' (inv l)) (V' (cap l)) (V' (grid l)) V
  rw [hgraft] at ha hb hc
  exact ⟨ha, hb, hc⟩

-- =============================================================== two runs

/-- Two simulations whose phases `k` and `l` are at the same point. -/
structure PhasesMeet (p : SolverParams K) (k l : Fin 3)
    (x x' : VscNetwork K × State K) : Prop where
  net : NetInv p x.1
  net' : NetInv p x'.1
  history : SameHistory k l x.2 x'.2

theorem phases_step (hsrc : ∀ t, vSrc k t = vSrc' l t)
    {x x' : VscNetwork K × State K}
    (hf : FactorsAt p gate) (hf' : FactorsAt p gate')
    (hleg : SameLeg k l gate gate') (h : PhasesMeet p k l x x') :
    ∃ y y', VscNetwork.advance vSrc gate x = some y
      ∧ VscNetwork.advance vSrc' gate' x' = some y'
      ∧ PhasesMeet p k l y y' ∧ SamePhase k l y.2 y'.2 := by
  obtain ⟨net, V, hstep, hnet, hV⟩ := step_solves hf h.net vSrc x.2
  obtain ⟨net', V', hstep', hnet', hV'⟩ := step_solves hf' h.net' vSrc' x'.2
  have hsame := phase_solution hf hleg h.history (hsrc _) hV hV'
  have hphase : SamePhase k l (VscNetwork.update p gate V x.2)
      (VscNetwork.update p gate' V' x'.2) := samePhase_update h.history hsame
  exact ⟨_, _, advance_of_step hstep, advance_of_step hstep',
    ⟨hnet, hnet', hphase.history⟩, hphase⟩

/-- The phases are independent and interchangeable. Take two simulations
of one parameter set whose network is constructed, from any two states,
under any two grids and any two sequences of gate bytes, equally long and
not empty, whose matrices factor. If phase `k` of the one and phase `l` of
the other begin with the same histories at the same time, have the same
sources and get the same switch positions at every step, then whatever
the other phases do, both run through and end with the same voltages,
currents and histories in these phases. -/
theorem phases_independent (vSrc vSrc' : Fin 3 → K → K)
    {net₀ : VscNetwork K} (hnet : VscNetwork.construct p = .ok net₀)
    (hsrc : ∀ t, vSrc k t = vSrc' l t) (hs : SameHistory k l s s')
    (gates : List (BitVec 8 × BitVec 8)) (hne : gates ≠ [])
    (hall : ∀ g ∈ gates, FactorsAt p g.1 ∧ FactorsAt p g.2
      ∧ SameLeg k l g.1 g.2) :
    ∃ x x', exec (VscNetwork.advance vSrc) (gates.map Prod.fst) (net₀, s)
        = some x
      ∧ exec (VscNetwork.advance vSrc') (gates.map Prod.snd) (net₀, s')
        = some x'
      ∧ SamePhase k l x.2 x'.2 := by
  have hinv := netInv_of_construct hnet
  have hstart : PhasesMeet p k l (net₀, s) (net₀, s') := ⟨hinv, hinv, hs⟩
  obtain ⟨g, gates, rfl⟩ := List.exists_cons_of_ne_nil hne
  obtain ⟨hg, hgates⟩ := List.forall_mem_cons.mp hall
  obtain ⟨y, y', hy, hy', hmeet, hphase⟩ :=
    phases_step hsrc hg.1 hg.2.1 hg.2.2 hstart
  rw [List.map_cons, List.map_cons, exec_cons_of hy, exec_cons_of hy']
  obtain ⟨x, x', hx, hx', -, hend⟩ := exec_together Prod.fst Prod.snd
    (fun {g z z'} hg (hz : PhasesMeet p k l z z' ∧ SamePhase k l z.2 z'.2) =>
      phases_step hsrc hg.1 hg.2.1 hg.2.2 hz.1) hgates ⟨hmeet, hphase⟩
  exact ⟨x, x', hx, hx', hend⟩

/-- At the default parameters: what phase 2 does under all switches of the
other two closed, phase 0 does under all of theirs open. -/
theorem phases_independent_default :
    ∃ net₀ x x',
      VscNetwork.construct (SolverParams.default : SolverParams ℚ) = .ok net₀
        ∧ exec (VscNetwork.advance fun _ _ => 325) [0x1F#8, 0x2F#8]
          (net₀, State.zero) = some x
        ∧ exec (VscNetwork.advance fun k _ => if k = 0 then 325 else 0)
          [0x01#8, 0x02#8] (net₀, State.zero) = some x'
        ∧ SamePhase 2 0 x.2 x'.2 := by
  obtain ⟨net₀, hnet, -⟩ := construct_ok (factors_default 0x00#8)
  have hzero : SameHistory 2 0 (State.zero : State ℚ) State.zero :=
    ⟨rfl, rfl, rfl, rfl⟩
  have hup : SameLeg 2 0 0x1F#8 0x01#8 := ⟨by decide, by decide⟩
  have hdown : SameLeg 2 0 0x2F#8 0x02#8 := ⟨by decide, by decide⟩
  have hall : ∀ g ∈ [(0x1F#8, 0x01#8), (0x2F#8, 0x02#8)],
      FactorsAt (SolverParams.default : SolverParams ℚ) g.1
        ∧ FactorsAt (SolverParams.default : SolverParams ℚ) g.2
        ∧ SameLeg 2 0 g.1 g.2 := by
    refine List.forall_mem_cons.mpr ⟨⟨factors_default _, factors_default _,
      hup⟩, List.forall_mem_singleton.mpr ⟨factors_default _,
      factors_default _, hdown⟩⟩
  obtain ⟨x, x', hx, hx', hphase⟩ := phases_independent (fun _ _ => 325)
    (fun k _ => if k = 0 then 325 else 0) hnet (fun _ => rfl) hzero _
    (List.cons_ne_nil _ _) hall
  exact ⟨net₀, x, x', hnet, hx, hx', hphase⟩

-- =========================================================== superposition

/-- The histories of one state are the combination of two others', at one
time. -/
structure SuperposedHistory (a b : K) (s₁ s₂ s : State K) : Prop where
  time₁ : s₁.t = s.t
  time₂ : s₂.t = s.t
  Lf : ∀ k, s.ILfHist k = a * s₁.ILfHist k + b * s₂.ILfHist k
  Cf : ∀ k, s.ICfHist k = a * s₁.ICfHist k + b * s₂.ICfHist k
  Lgrid : ∀ k, s.ILgridHist k = a * s₁.ILgridHist k + b * s₂.ILgridHist k

/-- All voltages and currents are. -/
structure Superposed (a b : K) (s₁ s₂ s : State K) : Prop where
  history : SuperposedHistory a b s₁ s₂ s
  v : ∀ i, s.v i = a * s₁.v i + b * s₂.v i
  iLf : ∀ k, s.iLf k = a * s₁.iLf k + b * s₂.iLf k
  iCf : ∀ k, s.iCf k = a * s₁.iCf k + b * s₂.iCf k
  iLgrid : ∀ k, s.iLgrid k = a * s₁.iLgrid k + b * s₂.iLgrid k

/-- The parameters with another DC bus. -/
def SolverParams.withVdc (p : SolverParams K) (Vdc : K) : SolverParams K :=
  { p with Vdc }

section Superposition

variable {a b U₁ U₂ : K} {s₁ s₂ : State K} {src₁ src₂ : Fin 3 → K → K}
  {V₁ V₂ : Fin 9 → K}

omit [LinearOrder K] [IsStrictOrderedRing K] in
theorem current_combined (G : Mat 9 K) (x y : Fin 9 → K) (i : Fin 9) :
    current G (fun j => a * x j + b * y j) i
      = a * current G x i + b * current G y i := by
  unfold current
  rw [Finset.mul_sum, Finset.mul_sum, ← Finset.sum_add_distrib]
  refine Finset.sum_congr rfl fun j _ => ?_
  ring

omit [LinearOrder K] [IsStrictOrderedRing K] in
theorem injection_combined (hs : SuperposedHistory a b s₁ s₂ s)
    (i : Fin 9) :
    injection (p.withVdc (a * U₁ + b * U₂))
        (fun k t => a * src₁ k t + b * src₂ k t) gate s i
      = a * injection (p.withVdc U₁) src₁ gate s₁ i
        + b * injection (p.withVdc U₂) src₂ gate s₂ i := by
  have hT1 : ∀ U k, gT1 (p.withVdc U) gate k = gT1 p gate k := fun _ _ => rfl
  have hV : ∀ U, (p.withVdc U).Vdc = U := fun _ => rfl
  have hR : ∀ U, (p.withVdc U).Rsrc = p.Rsrc := fun _ => rfl
  rcases node_cases i with ⟨k, rfl⟩ | ⟨k, rfl⟩ | ⟨k, rfl⟩
  · rw [(injection_eq _ _ gate s k).1, (injection_eq _ _ gate s₁ k).1,
      (injection_eq _ _ gate s₂ k).1, hs.Lf]
    simp only [hT1, hV]
    ring
  · rw [(injection_eq _ _ gate s k).2.1, (injection_eq _ _ gate s₁ k).2.1,
      (injection_eq _ _ gate s₂ k).2.1, hs.Lf, hs.Cf, hs.Lgrid]
    ring
  · rw [(injection_eq _ _ gate s k).2.2, (injection_eq _ _ gate s₁ k).2.2,
      (injection_eq _ _ gate s₂ k).2.2, hs.Lgrid, hs.time₁, hs.time₂]
    simp only [hR]
    ring

omit [IsStrictOrderedRing K] in
theorem superposed_update (hs : SuperposedHistory a b s₁ s₂ s)
    (hV : ∀ i, V i = a * V₁ i + b * V₂ i) (U : K) :
    Superposed a b (VscNetwork.update (p.withVdc U₁) gate V₁ s₁)
      (VscNetwork.update (p.withVdc U₂) gate V₂ s₂)
      (VscNetwork.update (p.withVdc U) gate V s) := by
  refine ⟨⟨congrArg (· + p.dt) hs.time₁, congrArg (· + p.dt) hs.time₂,
    fun k => ?_, fun k => ?_, fun k => ?_⟩, hV, fun k => ?_, fun k => ?_,
    fun k => ?_⟩ <;>
    simp only [VscNetwork.update, SolverParams.withVdc, inductorHistory,
      capacitorHistory, hV, hs.Lf, hs.Cf, hs.Lgrid] <;> ring

/-- The solution of the combined system is the combination of the
solutions. -/
theorem combined_solution (hf : FactorsAt p gate)
    (hs : SuperposedHistory a b s₁ s₂ s)
    (hV₁ : ∀ i, current (assemble p gate) V₁ i
      = injection (p.withVdc U₁) src₁ gate s₁ i)
    (hV₂ : ∀ i, current (assemble p gate) V₂ i
      = injection (p.withVdc U₂) src₂ gate s₂ i)
    (hV : ∀ i, current (assemble p gate) V i
      = injection (p.withVdc (a * U₁ + b * U₂))
        (fun k t => a * src₁ k t + b * src₂ k t) gate s i) (i : Fin 9) :
    V i = a * V₁ i + b * V₂ i := by
  obtain ⟨r, hr⟩ := hf
  have hsame : V = fun i => a * V₁ i + b * V₂ i := by
    refine solution_unique hr fun i => ?_
    show current (assemble p gate) V i = current (assemble p gate) _ i
    rw [current_combined, hV₁, hV₂, hV, injection_combined hs]
  exact congrFun hsame i

/-- Three simulations in superposition. -/
structure Together (p : SolverParams K) (a b U₁ U₂ : K)
    (x₁ x₂ x : VscNetwork K × State K) : Prop where
  net₁ : NetInv (p.withVdc U₁) x₁.1
  net₂ : NetInv (p.withVdc U₂) x₂.1
  net : NetInv (p.withVdc (a * U₁ + b * U₂)) x.1
  history : SuperposedHistory a b x₁.2 x₂.2 x.2

variable {x₁ x₂ x : VscNetwork K × State K}

theorem together_step (hf : FactorsAt p gate)
    (h : Together p a b U₁ U₂ x₁ x₂ x) :
    ∃ y₁ y₂ y, VscNetwork.advance src₁ gate x₁ = some y₁
      ∧ VscNetwork.advance src₂ gate x₂ = some y₂
      ∧ VscNetwork.advance (fun k t => a * src₁ k t + b * src₂ k t) gate x
        = some y
      ∧ Together p a b U₁ U₂ y₁ y₂ y ∧ Superposed a b y₁.2 y₂.2 y.2 := by
  have hfU : ∀ U, FactorsAt (p.withVdc U) gate := fun _ => hf
  obtain ⟨n₁, V₁, hstep₁, hn₁, hV₁⟩ := step_solves (hfU U₁) h.net₁ src₁ x₁.2
  obtain ⟨n₂, V₂, hstep₂, hn₂, hV₂⟩ := step_solves (hfU U₂) h.net₂ src₂ x₂.2
  obtain ⟨n, V, hstep, hn, hV⟩ := step_solves (hfU (a * U₁ + b * U₂)) h.net
    (fun k t => a * src₁ k t + b * src₂ k t) x.2
  have hsum := combined_solution hf h.history hV₁ hV₂ hV
  have hsup : Superposed a b
      (VscNetwork.update (p.withVdc U₁) gate V₁ x₁.2)
      (VscNetwork.update (p.withVdc U₂) gate V₂ x₂.2)
      (VscNetwork.update (p.withVdc (a * U₁ + b * U₂)) gate V x.2) :=
    superposed_update h.history hsum _
  exact ⟨_, _, _, advance_of_step hstep₁, advance_of_step hstep₂,
    advance_of_step hstep, ⟨hn₁, hn₂, hn, hsup.history⟩, hsup⟩

/-- A whole run of the three, of one step or more. -/
theorem together_run :
    ∀ {gates : List (BitVec 8)} {x₁ x₂ x : VscNetwork K × State K},
      gates ≠ [] → (∀ gate ∈ gates, FactorsAt p gate) →
      Together p a b U₁ U₂ x₁ x₂ x →
      ∃ y₁ y₂ y, exec (VscNetwork.advance src₁) gates x₁ = some y₁
        ∧ exec (VscNetwork.advance src₂) gates x₂ = some y₂
        ∧ exec (VscNetwork.advance fun k t => a * src₁ k t + b * src₂ k t)
          gates x = some y
        ∧ Superposed a b y₁.2 y₂.2 y.2
  | [], _, _, _, hne, _, _ => absurd rfl hne
  | [gate], x₁, x₂, x, _, hf, h => by
      obtain ⟨y₁, y₂, y, h₁, h₂, h₃, -, hsup⟩ :=
        together_step (hf gate List.mem_cons_self) h
      exact ⟨y₁, y₂, y, exec_cons_of h₁, exec_cons_of h₂, exec_cons_of h₃,
        hsup⟩
  | gate :: gate' :: gates, x₁, x₂, x, _, hf, h => by
      obtain ⟨hgate, hrest⟩ := List.forall_mem_cons.mp hf
      obtain ⟨y₁, y₂, y, h₁, h₂, h₃, hy, -⟩ := together_step hgate h
      obtain ⟨z₁, z₂, z, hz₁, hz₂, hz₃, hsup⟩ :=
        together_run (List.cons_ne_nil _ _) hrest hy
      exact ⟨z₁, z₂, z, (exec_cons_of h₁).trans hz₁,
        (exec_cons_of h₂).trans hz₂, (exec_cons_of h₃).trans hz₃, hsup⟩

/-- Superposition. Under any sequence of gate bytes, not empty, whose
matrices factor as that of the constructor's gate 0x00 does, take two
simulations that differ in their DC bus, their grid and their state, and a
third with the same combination of the buses, of the grids and of the
histories. All three run through, and after every run the
third's voltages and currents, in all nine nodes and all branches, are
that combination of the first two's. -/
theorem superposition (a b U₁ U₂ : K) (src₁ src₂ : Fin 3 → K → K)
    (h₀ : FactorsAt p 0x00#8) (hs : SuperposedHistory a b s₁ s₂ s)
    (gates : List (BitVec 8)) (hne : gates ≠ [])
    (hf : ∀ gate ∈ gates, FactorsAt p gate) :
    ∃ n₁ n₂ n x₁ x₂ x,
      VscNetwork.construct (p.withVdc U₁) = .ok n₁
        ∧ VscNetwork.construct (p.withVdc U₂) = .ok n₂
        ∧ VscNetwork.construct (p.withVdc (a * U₁ + b * U₂)) = .ok n
        ∧ exec (VscNetwork.advance src₁) gates (n₁, s₁) = some x₁
        ∧ exec (VscNetwork.advance src₂) gates (n₂, s₂) = some x₂
        ∧ exec (VscNetwork.advance fun k t => a * src₁ k t + b * src₂ k t)
          gates (n, s) = some x
        ∧ Superposed a b x₁.2 x₂.2 x.2 := by
  have hU : ∀ U, FactorsAt (p.withVdc U) 0x00#8 := fun _ => h₀
  obtain ⟨n₁, hn₁, hinv₁⟩ := construct_ok (hU U₁)
  obtain ⟨n₂, hn₂, hinv₂⟩ := construct_ok (hU U₂)
  obtain ⟨n, hn, hinv⟩ := construct_ok (hU (a * U₁ + b * U₂))
  have hstart : Together p a b U₁ U₂ (n₁, s₁) (n₂, s₂) (n, s) :=
    ⟨hinv₁, hinv₂, hinv, hs⟩
  obtain ⟨x₁, x₂, x, h₁, h₂, h₃, hsup⟩ := together_run hne hf hstart
  exact ⟨n₁, n₂, n, x₁, x₂, x, hn₁, hn₂, hn, h₁, h₂, h₃, hsup⟩

/-- At the default parameters: the response to bus and grid is the sum of
the response to the bus alone and that to the grid alone. -/
theorem superposition_default :
    ∃ n₁ n₂ n x₁ x₂ x,
      VscNetwork.construct ((SolverParams.default : SolverParams ℚ).withVdc
          400) = .ok n₁
        ∧ VscNetwork.construct (SolverParams.default.withVdc 0) = .ok n₂
        ∧ VscNetwork.construct (SolverParams.default.withVdc
          (1 * 400 + 1 * 0)) = .ok n
        ∧ exec (VscNetwork.advance fun _ _ => 0) [0x15#8, 0x3F#8, 0x2A#8]
          (n₁, State.zero) = some x₁
        ∧ exec (VscNetwork.advance fun _ _ => 325) [0x15#8, 0x3F#8, 0x2A#8]
          (n₂, State.zero) = some x₂
        ∧ exec (VscNetwork.advance fun _ _ => 1 * 0 + 1 * 325)
          [0x15#8, 0x3F#8, 0x2A#8] (n, State.zero) = some x
        ∧ Superposed 1 1 x₁.2 x₂.2 x.2 := by
  have hzero : SuperposedHistory 1 1 (State.zero : State ℚ) State.zero
      State.zero := by
    constructor <;> simp [State.zero]
  exact superposition 1 1 400 0 (fun _ _ => 0) (fun _ _ => 325)
    (factors_default _) hzero [0x15#8, 0x3F#8, 0x2A#8] (List.cons_ne_nil _ _)
    fun gate _ => factors_default gate

end Superposition

end EdgeIpc.Vsc
