/-
The FPGA kernel and the reference solver: for which gate sequences the
kernel emits the voltages that `VscNetwork::step` computes.

# What the kernel gets right

On the matrix it was loaded for, a call of `solver_top` is a step of the
reference: the injections are the same numbers (`nortonUpdate_eq`), the
substitution solves the same system (`luSolve_solves`; the pivots are
applied wrongly, but the network's matrices need none), and the
histories stay those of the reference's state (`matches_step`).

# What it does not

The matrix has the two switches of a phase on its diagonal, by the sum
of their conductances, and the kernel keeps the sums of the first
pattern. A pattern with other sums (`SameLoad` fails) is solved with the
wrong matrix. The result can still be right, where the inverter terminal
happens to be at 0; but the grid source reaches that terminal, so it is
not right for every source (`source_determined`). The kernel is
therefore exact, for all sources, on the sequences that keep the sums and
on no others (`emits_iff`). A converter switched complementarily keeps
them; one that starts from all switches open does not
(`not_emits_first_on`).
-/
import EdgeIpc.Vsc.HlsSolver
import EdgeIpc.Vsc.Proofs.Trapezoidal

namespace EdgeIpc.Vsc.Hls

open Lib

variable {n : Nat} {K : Type} [Field K]

-- ======================================================= the substitution

theorem forwardSub_spec (L : Mat n K) (b y : Fin n → K) (i : Fin n) :
    forwardSub L b y i
      = b i - ∑ j with j < i, L i j * forwardSub L b y j := by
  refine forward_rule (f := forwardStep L b) (fun _ _ => True)
    (fun k y _ => ?_) (fun _ _ _ hj => if_neg hj) (fun _ _ _ => trivial) trivial i
  rw [forwardStep]
  simp only [if_true]
  rw [foldl_sub_filter (fun j => j < k)]

-- ============================================================ the relation

/-- The kernel's history and time are those of the reference's state. -/
structure Matches (s : State K) (kn : Kernel K) : Prop where
  Lf : ∀ k, kn.hist (inv k) = s.ILfHist k
  Cf : ∀ k, kn.hist (cap k) = s.ICfHist k
  Lgrid : ∀ k, kn.hist (grid k) = s.ILgridHist k
  t : kn.t = s.t

/-- The kernel's arrays solve the system of a gate pattern. -/
def Loaded (p : SolverParams K) (gate : BitVec 8) (kn : Kernel K) : Prop :=
  ∀ b i, current (assemble p gate)
    (luSolve kn.L kn.U kn.piv b fun _ => 0) i = b i

/-- The voltages a call emits. -/
def emitted (p : SolverParams K) (vSrc : Fin 3 → K → K) (gate : BitVec 8)
    (kn : Kernel K) : Fin 9 → K :=
  fun i => ((solverTop vSrc (.ofSolver p) gate kn).2 i).data

variable {p : SolverParams K} {vSrc : Fin 3 → K → K} {g₀ gate : BitVec 8}
  {s : State K} {kn : Kernel K}

theorem nortonUpdate_eq (h : Matches s kn) :
    nortonUpdate vSrc kn.hist gate kn.t (.ofSolver p)
      = injection p vSrc gate s := by
  have hphase : nortonPhase vSrc kn.hist gate kn.t (.ofSolver p)
      = injectPhase p vSrc gate s := by
    funext I k
    unfold nortonPhase injectPhase
    rw [h.Lf k, h.Cf k, h.Lgrid k, h.t]
    rfl
  unfold nortonUpdate injection
  rw [hphase]

/-- A call emits the solution of the pattern the kernel was loaded for,
at the injections of the pattern it is called with. -/
theorem emitted_solves (hl : Loaded p g₀ kn) (hm : Matches s kn) (i : Fin 9) :
    current (assemble p g₀) (emitted p vSrc gate kn) i
      = injection p vSrc gate s i := by
  rw [← nortonUpdate_eq hm]
  exact hl _ i

theorem updateHistory_eq (V hist : Fin 9 → K) (fp : FixedParams K)
    (k : Fin 3) :
    (updateHistory V hist fp).1 (inv k)
        = fp.GLf * (V (inv k) - V (cap k))
          + fp.betaLf * (fp.GLf * (V (inv k) - V (cap k)) + hist (inv k))
      ∧ (updateHistory V hist fp).1 (cap k)
        = -(fp.GCf * V (cap k) + hist (cap k)) - fp.GCf * V (cap k)
      ∧ (updateHistory V hist fp).1 (grid k)
        = fp.GLgrid * (V (cap k) - V (grid k))
          + fp.betaLgrid * (fp.GLgrid * (V (cap k) - V (grid k))
            + hist (grid k)) := by
  fin_cases k <;> exact ⟨rfl, rfl, rfl⟩

/-- Two patterns with the same switch conductance in every phase. -/
def SameLoad (p : SolverParams K) (g₀ gate : BitVec 8) : Prop :=
  ∀ k, gT1 p gate k + gT2 p gate k = gT1 p g₀ k + gT2 p g₀ k

theorem assemble_congr (h : SameLoad p g₀ gate) :
    assemble p gate = assemble p g₀ := by
  unfold assemble
  simp only [h _]

variable [LinearOrder K]

/-- A call that emits the reference's voltages leaves the kernel with the
reference's histories. -/
theorem matches_step (hm : Matches s kn) :
    Matches (VscNetwork.update p gate (emitted p vSrc gate kn) s)
      (solverTop vSrc (.ofSolver p) gate kn).1 := by
  refine ⟨fun k => ?_, fun k => ?_, fun k => ?_, ?_⟩
  · refine (updateHistory_eq _ _ _ k).1.trans ?_
    rw [hm.Lf k]
    rfl
  · refine (updateHistory_eq _ _ _ k).2.1.trans ?_
    rw [hm.Cf k]
    rfl
  · refine (updateHistory_eq _ _ _ k).2.2.trans ?_
    rw [hm.Lgrid k]
    rfl
  · exact congrArg (· + p.dt) hm.t

variable [IsStrictOrderedRing K]

omit [LinearOrder K] [IsStrictOrderedRing K] in
/-- With the factors in the two arrays, the kernel's `lu_solve` solves the
system whose row `σ i`, the row that factored as row `i`, has the entry
`piv i` of the right-hand side. -/
theorem luSolve_rows {A L U : Mat n K} {s : LuState n K}
    (hinv : FactorInv A n s) {σ : Equiv.Perm (Fin n)}
    (hrows : ∀ i, A (σ i) = packed n s.A i)
    (hL : ∀ i j, j < i → L i j = s.A i j)
    (hU : ∀ i j, i ≤ j → U i j = s.A i j) (b x : Fin n → K) (i : Fin n) :
    ∑ j, A (σ i) j * luSolve L U s.pivot b x j = b (s.pivot i) := by
  unfold luSolve backSub
  generalize hy : forwardSub L (fun i => b (s.pivot i)) (fun _ => 0) = y
  have hforward : ∀ i, y i
      = b (s.pivot i) - ∑ j with j < i, s.A i j * y j := by
    intro i
    rw [← hy, forwardSub_spec]
    congr 1
    refine Finset.sum_congr rfl fun j hj => ?_
    rw [hL i j (Finset.mem_filter.mp hj).2]
  have hback : ∀ i, backSubst U y x i
      = (y i - ∑ j with i < j, s.A i j * backSubst U y x j) / s.A i i := by
    intro i
    rw [backSubst_spec, hU i i le_rfl]
    congr 2
    refine Finset.sum_congr rfl fun j hj => ?_
    rw [hU i j (Finset.mem_filter.mp hj).2.le]
  rw [hrows i]
  exact packed_solve (fun i => hinv.diag i i.isLt) hforward hback i

/-- If no rows were exchanged, that is the system of the matrix the
factors come from. -/
theorem luSolve_solves {A L U : Mat n K} {pivot : Fin n → Fin n}
    {s : LuState n K} (h : luFactor ⟨A, pivot⟩ = .ok s)
    (hpiv : ∀ i, s.pivot i = i) (hL : ∀ i j, j < i → L i j = s.A i j)
    (hU : ∀ i j, i ≤ j → U i j = s.A i j) (b x : Fin n → K) (i : Fin n) :
    ∑ j, A i j * luSolve L U s.pivot b x j = b i := by
  have hinv := luFactor_inv h
  obtain ⟨σ, hperm, hrows⟩ := hinv.stands
  have hσ : b ∘ σ = b := by
    rw [← hperm b, permuteOver_self hpiv]
  have hrow := luSolve_rows hinv hrows hL hU b x (σ.symm i)
  rw [Equiv.apply_symm_apply, hpiv] at hrow
  have hbi := congrFun hσ (σ.symm i)
  rw [Function.comp_apply, Equiv.apply_symm_apply] at hbi
  rw [hrow, hbi]

theorem load_ok (hp : Positive p) (hf : Factors p) (gate : BitVec 8) :
    ∃ kn, load p gate = .ok kn ∧ Loaded p gate kn
      ∧ Matches State.zero kn := by
  obtain ⟨r, hr⟩ := hf gate
  refine ⟨_, congrArg (Except.map _) hr, fun b i => ?_, ?_⟩
  · exact luSolve_solves hr (pivots_assemble hp hr)
      (fun _ _ hij => if_pos hij) (fun _ _ hij => if_pos hij) b _ i
  · exact ⟨fun _ => rfl, fun _ => rfl, fun _ => rfl, rfl⟩

-- ============================================================ the lockstep

/-- One step on a matrix the kernel was loaded for: the reference
computes what the kernel emits. -/
theorem step_emitted {net : VscNetwork K} (hf : Factors p)
    (hnet : NetInv p net) (vSrc : Fin 3 → K → K) (hl : Loaded p g₀ kn) (hm : Matches s kn)
    (hsame : SameLoad p g₀ gate) :
    ∃ net', VscNetwork.step vSrc net s gate
        = .ok (net', VscNetwork.update p gate (emitted p vSrc gate kn) s)
      ∧ NetInv p net' := by
  obtain ⟨net', V, hstep, hnet', hV⟩ := step_solves (hf gate) hnet vSrc s
  obtain ⟨r, hr⟩ := hf g₀
  have hVe : V = emitted p vSrc gate kn := by
    refine solution_unique hr fun i => ?_
    have hi := hV i
    rw [assemble_congr hsame, ← emitted_solves hl hm i] at hi
    exact hi
  exact ⟨net', hVe ▸ hstep, hnet'⟩

/-- The two sides in lockstep along patterns that keep the load. -/
theorem run_matches (hf : Factors p) (vSrc : Fin 3 → K → K) :
    ∀ (gates : List (BitVec 8)) {net : VscNetwork K} {s : State K}
      {kn : Kernel K}, NetInv p net → Loaded p g₀ kn → Matches s kn →
      (∀ gate ∈ gates, SameLoad p g₀ gate) →
      ∃ net' s', exec (VscNetwork.advance vSrc) gates (net, s)
          = some (net', s')
        ∧ NetInv p net'
        ∧ Loaded p g₀ (solverRun vSrc (.ofSolver p) gates kn)
        ∧ Matches s' (solverRun vSrc (.ofSolver p) gates kn)
  | [], net, s, kn, hnet, hl, hm, _ => ⟨net, s, rfl, hnet, hl, hm⟩
  | gate :: gates, net, s, kn, hnet, hl, hm, hsame => by
      have hgate := hsame gate List.mem_cons_self
      obtain ⟨net₁, hstep, hnet₁⟩ := step_emitted hf hnet vSrc hl hm hgate
      -- a call leaves the arrays as they are
      have hl₁ : Loaded p g₀ (solverTop vSrc (.ofSolver p) gate kn).1 := hl
      rw [exec_cons_of (advance_of_step hstep)]
      exact run_matches hf vSrc gates hnet₁ hl₁ (matches_step hm)
        fun g hg => hsame g (List.mem_cons_of_mem _ hg)

-- ========================================================= other matrices

omit [IsStrictOrderedRing K] in
/-- A step reads the source only at its own time. -/
theorem step_src {vSrc vSrc' : Fin 3 → K → K} (net : VscNetwork K)
    (gate : BitVec 8) (h : ∀ k, vSrc' k s.t = vSrc k s.t) :
    VscNetwork.step vSrc' net s gate = VscNetwork.step vSrc net s gate := by
  have hinj : ∀ p, injection p vSrc' gate s = injection p vSrc gate s := by
    intro p
    have hphase : injectPhase p vSrc' gate s = injectPhase p vSrc gate s := by
      funext I k
      unfold injectPhase
      rw [h k]
    rw [injection, hphase]
    rfl
  unfold VscNetwork.step
  cases net.refactor gate with
  | error e => rfl
  | ok net' => simp only [hinj]

/-- A run reads the source only at the times behind it. -/
theorem exec_src {vSrc : Fin 3 → K → K} (vSrc' : Fin 3 → K → K)
    (hdt : 0 < p.dt) (hf : Factors p) :
    ∀ (gates : List (BitVec 8)) {net net' : VscNetwork K} {s s' : State K},
      NetInv p net →
      exec (VscNetwork.advance vSrc) gates (net, s) = some (net', s') →
      s.t ≤ s'.t
        ∧ ((∀ k t, t < s'.t → vSrc' k t = vSrc k t) →
          exec (VscNetwork.advance vSrc') gates (net, s) = some (net', s'))
  | [], net, net', s, s', _, h => by
      injection h with h
      injection h with hnet hs
      subst hnet hs
      exact ⟨le_rfl, fun _ => rfl⟩
  | gate :: gates, net, net', s, s', hnet, h => by
      obtain ⟨x₁, hadv, hrest⟩ := exec_cons_some h
      obtain ⟨net₁, V, hstep, hnet₁, -⟩ := step_solves (hf gate) hnet vSrc s
      rw [advance_of_step hstep] at hadv
      injection hadv with hx₁
      subst hx₁
      obtain ⟨hle, hcongr⟩ := exec_src vSrc' hdt hf gates hnet₁ hrest
      -- the first step's time is behind the run
      have hlt : s.t < s'.t := lt_of_lt_of_le (lt_add_of_pos_right _ hdt) hle
      refine ⟨hlt.le, fun hsrc => ?_⟩
      have hstep' := (step_src net gate fun k => hsrc k s.t hlt).trans hstep
      rw [exec_cons_of (advance_of_step hstep')]
      exact hcongr hsrc

/-- Node voltages that solve two patterns at once have a terminal at 0
wherever the patterns differ. -/
theorem inv_eq_zero {V b : Fin 9 → K}
    (h₀ : ∀ i, current (assemble p g₀) V i = b i)
    (h : ∀ i, current (assemble p gate) V i = b i) {k : Fin 3}
    (hk : gT1 p gate k + gT2 p gate k ≠ gT1 p g₀ k + gT2 p g₀ k) :
    V (inv k) = 0 := by
  have heq := (h (inv k)).trans (h₀ (inv k)).symm
  rw [(current_assemble p gate V k).1, (current_assemble p g₀ V k).1,
    add_right_inj] at heq
  by_contra hne
  exact hk (mul_right_cancel₀ hne heq)

/-- With its terminal at 0, the phase's source is determined by the
histories. -/
theorem source_determined {vSrc vSrc' : Fin 3 → K → K} {V V' : Fin 9 → K}
    (hp : Positive p)
    (hV : ∀ i, current (assemble p gate) V i = injection p vSrc gate s i)
    (hV' : ∀ i, current (assemble p gate) V' i = injection p vSrc' gate s i)
    {k : Fin 3} (h0 : V (inv k) = 0) (h0' : V' (inv k) = 0) :
    vSrc k s.t = vSrc' k s.t := by
  obtain ⟨hdt, hLf, hRf, -, hLgrid, hRgrid, -, -, hRsrc⟩ := hp
  have hGLf : (makeInductor p.Lf p.Rf p.dt).Geq ≠ 0 := by
    unfold makeInductor
    positivity
  have hGLgrid : (makeInductor p.Lgrid p.Rgrid p.dt).Geq ≠ 0 := by
    unfold makeInductor
    positivity
  have hG : 1 / p.Rsrc ≠ 0 := by positivity
  obtain ⟨hinv, hcap, hgrid⟩ := current_assemble p gate V k
  obtain ⟨hinv', hcap', hgrid'⟩ := current_assemble p gate V' k
  obtain ⟨jinv, jcap, jgrid⟩ := injection_eq p vSrc gate s k
  obtain ⟨jinv', jcap', jgrid'⟩ := injection_eq p vSrc' gate s k
  -- from the terminal to the capacitor, the grid node and the source
  have ecap : V (cap k) = V' (cap k) := by
    apply mul_left_cancel₀ hGLf
    have e := hV (inv k)
    have e' := hV' (inv k)
    rw [hinv, jinv, h0] at e
    rw [hinv', jinv', h0'] at e'
    linear_combination e' - e
  have egrid : V (grid k) = V' (grid k) := by
    apply mul_left_cancel₀ hGLgrid
    have e := hV (cap k)
    have e' := hV' (cap k)
    rw [hcap, jcap, h0] at e
    rw [hcap', jcap', h0', ← ecap] at e'
    linear_combination e' - e
  apply mul_left_cancel₀ hG
  have e := hV (grid k)
  have e' := hV' (grid k)
  rw [hgrid, jgrid] at e
  rw [hgrid', jgrid', ← ecap, ← egrid] at e'
  linear_combination e' - e

-- ================================================================ the law

/-- The kernel, loaded for the first gate pattern, simulates the
reference along a sequence: both from the zero state, every call of
`solver_top` emits the nine voltages that `VscNetwork::step` computes for
the same step. -/
def Emits (p : SolverParams K) (vSrc : Fin 3 → K → K) (g₀ : BitVec 8)
    (gates : List (BitVec 8)) : Prop :=
  ∃ net₀ kn₀, VscNetwork.construct p = .ok net₀ ∧ load p g₀ = .ok kn₀
    ∧ ∀ pre gate post, g₀ :: gates = pre ++ gate :: post →
      ∃ net s net' s',
        exec (VscNetwork.advance vSrc) pre (net₀, State.zero) = some (net, s)
          ∧ VscNetwork.step vSrc net s gate = .ok (net', s')
          ∧ ∀ i, ((solverTop vSrc (.ofSolver p) gate
            (solverRun vSrc (.ofSolver p) pre kn₀)).2 i).data = s'.v i

/-- Patterns that keep the load are simulated. -/
theorem emits_of_sameLoad (hp : Positive p) (hf : Factors p)
    (vSrc : Fin 3 → K → K) {gates : List (BitVec 8)}
    (h : ∀ gate ∈ gates, SameLoad p g₀ gate) : Emits p vSrc g₀ gates := by
  obtain ⟨net₀, hnet₀, hinv₀⟩ := construct_ok (hf _)
  obtain ⟨kn₀, hkn₀, hl₀, hm₀⟩ := load_ok hp hf g₀
  have hall : ∀ gate ∈ g₀ :: gates, SameLoad p g₀ gate := by
    intro gate hmem
    rcases List.mem_cons.mp hmem with rfl | hmem
    · exact fun _ => rfl
    · exact h gate hmem
  refine ⟨net₀, kn₀, hnet₀, hkn₀, fun pre gate post hsplit => ?_⟩
  rw [hsplit] at hall
  obtain ⟨net, s, hrun, hinv, hl, hm⟩ := run_matches hf vSrc pre hinv₀ hl₀
    hm₀ fun g hg => hall g (List.mem_append_left _ hg)
  obtain ⟨net', hstep, -⟩ := step_emitted hf hinv vSrc hl hm
    (hall gate (List.mem_append_right _ List.mem_cons_self))
  exact ⟨net, s, net', _, hrun, hstep, fun _ => rfl⟩

/-- Where a simulated sequence meets a pattern, the voltages solve both
the pattern's system and the first one's. -/
theorem emits_both (hp : Positive p) (hf : Factors p)
    {net₀ : VscNetwork K} (hnet₀ : VscNetwork.construct p = .ok net₀)
    {gates pre post : List (BitVec 8)} (h : Emits p vSrc g₀ gates)
    (hsplit : g₀ :: gates = pre ++ gate :: post)
    (hpre : ∀ g ∈ pre, SameLoad p g₀ g) :
    ∃ net s V,
      exec (VscNetwork.advance vSrc) pre (net₀, State.zero) = some (net, s)
        ∧ (∀ i, current (assemble p g₀) V i = injection p vSrc gate s i)
        ∧ ∀ i, current (assemble p gate) V i
          = injection p vSrc gate s i := by
  obtain ⟨net₁, kn₀, hnet₁, hkn₀, hcalls⟩ := h
  obtain ⟨net₂, hnet₂, hinv₀⟩ := construct_ok (hf _)
  obtain ⟨kn, hkn, hl₀, hm₀⟩ := load_ok hp hf g₀
  cases hnet₀.symm.trans hnet₁
  cases hnet₀.symm.trans hnet₂
  cases hkn₀.symm.trans hkn
  obtain ⟨net, s, net', s', hrun, hstep, hdata⟩ := hcalls pre gate post hsplit
  obtain ⟨net₃, s₃, hrun₃, hinv, hl, hm⟩ :=
    run_matches hf vSrc pre hinv₀ hl₀ hm₀ hpre
  cases hrun.symm.trans hrun₃
  obtain ⟨net₄, V, hstep₄, -, hV⟩ := step_solves (hf gate) hinv vSrc s
  cases hstep.symm.trans hstep₄
  have hVe : V = emitted p vSrc gate
      (solverRun vSrc (.ofSolver p) pre kn₀) := funext fun i => (hdata i).symm
  refine ⟨net, s, V, hrun, fun i => ?_, hV⟩
  rw [hVe]
  exact emitted_solves hl hm i

/-- A sequence simulated for every source keeps the load. -/
theorem sameLoad_of_emits (hp : Positive p) (hf : Factors p)
    {gates : List (BitVec 8)} (h : ∀ vSrc, Emits p vSrc g₀ gates) :
    ∀ (pre : List (BitVec 8)) {gate : BitVec 8} {post : List (BitVec 8)},
      g₀ :: gates = pre ++ gate :: post →
      (∀ g ∈ pre, SameLoad p g₀ g) → SameLoad p g₀ gate := by
  intro pre gate post hsplit hpre k
  obtain ⟨net₀, hnet₀, hinv₀⟩ := construct_ok (hf _)
  by_contra hk
  -- a dead grid, and one that comes up at the time of this very step
  obtain ⟨net, s, V, hrun, h₀, hg⟩ :=
    emits_both hp hf hnet₀ (h fun _ _ => 0) hsplit hpre
  let vSrc' : Fin 3 → K → K := fun _ t => if t < s.t then 0 else 1
  obtain ⟨net', s', V', hrun', h₀', hg'⟩ :=
    emits_both hp hf hnet₀ (h vSrc') hsplit hpre
  have hsame := (exec_src vSrc' hp.dt hf pre hinv₀ hrun).2
    fun _ t ht => if_pos ht
  cases hrun'.symm.trans hsame
  have heq := source_determined hp hg hg' (inv_eq_zero h₀ hg hk)
    (inv_eq_zero h₀' hg' hk)
  exact zero_ne_one (heq.trans (if_neg (lt_irrefl s.t)))

/-- The kernel simulates the reference along a sequence of gate bytes,
for every grid source, exactly if every phase keeps the switch
conductance it has in the first pattern. -/
theorem emits_iff (hp : Positive p) (hf : Factors p) (g₀ : BitVec 8)
    (gates : List (BitVec 8)) :
    (∀ vSrc, Emits p vSrc g₀ gates) ↔ ∀ gate ∈ gates, SameLoad p g₀ gate := by
  constructor
  · intro h
    -- by the position of the pattern: those before it keep the load
    have hall : ∀ (n : Nat) (pre : List (BitVec 8)) (gate : BitVec 8)
        (post : List (BitVec 8)), pre.length = n →
        g₀ :: gates = pre ++ gate :: post → SameLoad p g₀ gate := by
      intro n
      induction n using Nat.strong_induction_on with
      | _ n ih =>
          intro pre gate post hlen hsplit
          refine sameLoad_of_emits hp hf h pre hsplit fun g hg => ?_
          obtain ⟨pre₁, pre₂, rfl⟩ := List.append_of_mem hg
          refine ih pre₁.length ?_ pre₁ g (pre₂ ++ gate :: post) rfl ?_
          · rw [← hlen, List.length_append, List.length_cons]
            omega
          · rw [hsplit, List.append_assoc]
            rfl
    intro gate hmem
    obtain ⟨pre, post, rfl⟩ := List.append_of_mem hmem
    exact hall _ (g₀ :: pre) gate post rfl rfl
  · exact fun h vSrc => emits_of_sameLoad hp hf vSrc h

/-- At the default parameters, switching all phases between the upper
and the lower switch is simulated. -/
theorem emits_iff_complementary :
    Positive (SolverParams.default : SolverParams ℚ)
      ∧ Factors (SolverParams.default : SolverParams ℚ)
      ∧ ∀ vSrc, Emits (SolverParams.default : SolverParams ℚ) vSrc 0x15#8
        [0x2A#8, 0x15#8] := by
  have hsame : ∀ gate ∈ [0x2A#8, 0x15#8],
      SameLoad (SolverParams.default : SolverParams ℚ) 0x15#8 gate := by
    intro gate hgate k
    have hcases : gate = 0x2A#8 ∨ gate = 0x15#8 := by simpa using hgate
    rcases hcases with rfl | rfl
    · fin_cases k <;> exact add_comm _ _
    · rfl
  exact ⟨positive_default, factors_default,
    (emits_iff positive_default factors_default _ _).mpr hsame⟩

/-- At the default parameters and with a dead grid: loaded for all
switches open, the kernel is wrong at the first switch that closes. -/
theorem not_emits_first_on :
    ¬ Emits (SolverParams.default : SolverParams ℚ) (fun _ _ => 0) 0x00#8
      [0x01#8] := by
  intro h
  obtain ⟨net₀, hnet₀, hinv₀⟩ := construct_ok (factors_default _)
  obtain ⟨net₁, V₁, hstep, -, hV₁⟩ :=
    step_solves (factors_default 0x00#8) hinv₀ (fun _ _ => 0) State.zero
  have hpre : ∀ g ∈ [0x00#8],
      SameLoad (SolverParams.default : SolverParams ℚ) 0x00#8 g := by
    intro g hg
    rw [List.mem_singleton.mp hg]
    exact fun _ => rfl
  obtain ⟨net, s, V, hrun, h₀, hg⟩ :=
    emits_both positive_default factors_default hnet₀ h rfl hpre
  -- the state after the first step
  have hs : VscNetwork.update SolverParams.default 0x00#8 V₁ State.zero
      = s := by
    rw [exec_cons_of (advance_of_step hstep)] at hrun
    exact (Prod.mk.inj (Option.some.inj hrun)).2
  have hzero : V (inv 0) = 0 := by
    refine inv_eq_zero h₀ hg ?_
    norm_num [gT1, gT2, SolverParams.default]
  -- the six equations of the first phase, with its terminal at 0
  obtain ⟨ainv, acap, agrid⟩ :=
    current_assemble (SolverParams.default : SolverParams ℚ) 0x00#8 V₁ 0
  obtain ⟨binv, bcap, bgrid⟩ := injection_eq
    (SolverParams.default : SolverParams ℚ) (fun _ _ => 0) 0x00#8 State.zero 0
  obtain ⟨cinv, ccap, cgrid⟩ :=
    current_assemble (SolverParams.default : SolverParams ℚ) 0x01#8 V 0
  obtain ⟨dinv, dcap, dgrid⟩ := injection_eq
    (SolverParams.default : SolverParams ℚ) (fun _ _ => 0) 0x01#8 s 0
  have e₁ := ainv.symm.trans ((hV₁ (inv 0)).trans binv)
  have e₂ := acap.symm.trans ((hV₁ (cap 0)).trans bcap)
  have e₃ := agrid.symm.trans ((hV₁ (grid 0)).trans bgrid)
  have e₄ := cinv.symm.trans ((hg (inv 0)).trans dinv)
  have e₅ := ccap.symm.trans ((hg (cap 0)).trans dcap)
  have e₆ := cgrid.symm.trans ((hg (grid 0)).trans dgrid)
  subst hs
  rw [hzero] at e₄ e₅
  norm_num [VscNetwork.update, State.zero, inductorHistory,
    capacitorHistory, makeInductor, makeCapacitor, gT1, gT2,
    SolverParams.default] at e₁ e₂ e₃ e₄ e₅ e₆
  linarith

end EdgeIpc.Vsc.Hls
