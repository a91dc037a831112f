/-
The network's matrix factors, and without exchanging rows.

Every stamp of a conductance keeps the matrix symmetric with nothing
positive off its diagonal (`Passive`), and a row sums to the conductance
from its node to ground. The matrix of every gate byte is therefore
`Dominant`, by any `m` below all of these conductances (`Grounded`). On
such a matrix the pivot search stays where it starts
(`findPivot_dominant`), so `lu_factor` eliminates column after column
with pivots of at least `m` (`luFactor_dominant`), and its singularity
test does not fire if they are above its tolerance
(`factors_of_grounded`). The largest such `m` is `groundMargin`, and
`factors_in_place` is the whole of this for `assemble_and_factor`.
-/
import EdgeIpc.Lib.Dominant
import EdgeIpc.Vsc.Proofs.Lu
import EdgeIpc.Vsc.Proofs.Nodal
import Mathlib.Tactic.Positivity

namespace EdgeIpc.Vsc

open Lib

variable {n : Nat} {K : Type} [Field K] [LinearOrder K]

-- ======================================================= the pivot search

theorem absV_of_pos {x : K} (h : 0 < x) : absV x = x :=
  if_neg h.not_gt

theorem absV_le {x d : K} (hpos : x ≤ d) (hneg : -x ≤ d) : absV x ≤ d := by
  unfold absV
  split
  next => exact hneg
  next => exact hpos

/-- The search starts at the diagonal. -/
theorem candidates_eq_cons (k : Fin n) :
    ∃ rest, ((List.finRange n).filter fun i => k ≤ i) = k :: rest
      ∧ ∀ i ∈ rest, k < i := by
  have hsorted : ((List.finRange n).filter fun i => k ≤ i).Pairwise
      (· < ·) := (List.pairwise_lt_finRange n).filter _
  have hmem : ∀ i, i ∈ ((List.finRange n).filter fun i => k ≤ i) ↔ k ≤ i := by
    intro i
    simp
  cases hl : (List.finRange n).filter fun i => k ≤ i with
  | nil =>
      have hk := (hmem k).mpr le_rfl
      rw [hl] at hk
      cases hk
  | cons i rest =>
      rw [hl] at hsorted hmem
      obtain ⟨hi, -⟩ := List.pairwise_cons.mp hsorted
      have hki : k ≤ i := (hmem i).mp List.mem_cons_self
      have hik : k = i := by
        rcases List.mem_cons.mp ((hmem k).mpr le_rfl) with hik | hrest
        · exact hik
        · exact absurd (hi k hrest) (not_lt.mpr hki)
      subst hik
      exact ⟨rest, rfl, hi⟩

variable [IsStrictOrderedRing K] {m : K}

/-- The search stays at the diagonal. -/
theorem findPivot_dominant (hm : 0 < m) {A : Mat n K} {k : Fin n}
    (h : Dominant m k A) : findPivot A k = (k, A k k) := by
  obtain ⟨rest, hl, hrest⟩ := candidates_eq_cons k
  have hpivot : 0 < A k k := lt_of_lt_of_le hm (h.le_diag le_rfl)
  have hfirst : betterPivot A k (k, 0) k = (k, A k k) := by
    unfold betterPivot
    rw [absV_of_pos hpivot]
    exact if_pos hpivot
  unfold findPivot
  rw [hl, List.foldl_cons, hfirst]
  refine List.foldlRecOn (motive := fun found => found = (k, A k k))
    rest _ rfl ?_
  intro found hfound i hi
  have hki := hrest i hi
  have hle : absV (A i k) ≤ A k k := by
    apply absV_le
    · exact (h.off i k hki.le le_rfl hki.ne').trans hpivot.le
    · exact h.neg_le_diag hm hki.le le_rfl hki.ne'
  rw [hfound]
  exact if_neg hle.not_gt

-- ========================================================== the outer loop

/-- One column of a dominant matrix: no exchange, and the diagonal
decides. -/
theorem factorColumn_dominant (hm : 0 < m) {s : LuState n K} {k : Fin n}
    (h : Dominant m k s.A) :
    factorColumn s k = if s.A k k < pivotTol then
        .error ("LuSolver: singular matrix", s)
      else .ok ⟨eliminate s.A k, fun i => if i = k then k else s.pivot i⟩ := by
  unfold factorColumn
  dsimp only
  rw [findPivot_dominant hm h, exchange_eq, swapAt_self]

/-- With the columns before `k` done: what is left is dominant, the
diagonal so far is at least `m`, and no rows were exchanged. -/
structure InPlace (m : K) (k : Nat) (s : LuState n K) : Prop where
  rest : Dominant m k s.A
  diag : ∀ i : Fin n, i.val < k → m ≤ s.A i i
  pivots : ∀ i : Fin n, i.val < k → s.pivot i = i

theorem inPlace_eliminate (hm : 0 < m) {k : Fin n} {s : LuState n K}
    (h : InPlace m k s) :
    InPlace m (k + 1)
      ⟨eliminate s.A k, fun i => if i = k then k else s.pivot i⟩ := by
  have hdiag : m ≤ s.A k k := h.rest.le_diag le_rfl
  have helim := eliminated_eliminate (lt_of_lt_of_le hm hdiag).ne'
  refine ⟨h.rest.eliminate hm helim, fun i hi => ?_, fun i hi => ?_⟩
  · show m ≤ eliminate s.A k i i
    rw [helim.above i (Fin.le_def.mpr (by omega))]
    by_cases hik : i = k
    · rw [hik]
      exact hdiag
    · exact h.diag i (lt_of_lt_succ hi hik)
  · show (if i = k then k else s.pivot i) = i
    split
    next hik => exact hik.symm
    next hik => exact h.pivots i (lt_of_lt_succ hi hik)

/-- A dominant matrix factors in place, if its margin is above the
tolerance; -/
theorem luFactor_dominant (hm : pivotTol ≤ m) {A : Mat n K}
    (h : Dominant m 0 A) (pivot : Fin n → Fin n) :
    ∃ s, luFactor ⟨A, pivot⟩ = .ok s ∧ InPlace m n s := by
  have hpos : 0 < m := lt_of_lt_of_le pivotTol_pos hm
  refine forUpM_ok (InPlace m) (fun k s hs => ?_) ⟨h, nofun, nofun⟩
  have hdiag : m ≤ s.A k k := hs.rest.le_diag le_rfl
  refine ⟨_, ?_, inPlace_eliminate hpos hs⟩
  rw [factorColumn_dominant hpos hs.rest, if_neg (hm.trans hdiag).not_gt]

/-- and whatever its margin, if it factors at all it does so in place. -/
theorem luFactor_inPlace (hm : 0 < m) {A : Mat n K} (h : Dominant m 0 A)
    {pivot : Fin n → Fin n} {s : LuState n K}
    (hs : luFactor ⟨A, pivot⟩ = .ok s) : InPlace m n s := by
  refine forUpM_invariant (InPlace m) (fun k s s' hi hstep => ?_)
    ⟨h, nofun, nofun⟩ hs
  rw [factorColumn_dominant hm hi.rest] at hstep
  split at hstep
  next => cases hstep
  next =>
    injection hstep with hstep
    exact hstep ▸ inPlace_eliminate hm hi

-- ============================================================== the stamps

/-- Symmetric, with nothing positive off the diagonal. -/
structure Passive (G : Mat 9 K) : Prop where
  symm : ∀ i j, G i j = G j i
  off : ∀ i j, i ≠ j → G i j ≤ 0

omit [LinearOrder K] [IsStrictOrderedRing K] in
theorem addAt_apply (G : Mat 9 K) (a b : Fin 9) (x : K) (i j : Fin 9) :
    addAt G a b x i j = G i j + if i = a ∧ j = b then x else 0 := by
  unfold addAt
  split
  next => rfl
  next => rw [add_zero]

theorem passive_stamp {G : Mat 9 K} (h : Passive G) (a : Fin 9)
    (b : Option (Fin 9)) {g : K} (hg : 0 ≤ g) : Passive (stamp G a b g) := by
  have hdiag : ∀ (i j c : Fin 9), i ≠ j → ¬ (i = c ∧ j = c) := by
    rintro i j c hij ⟨rfl, rfl⟩
    exact hij rfl
  have hneg : ∀ (c : Prop) [Decidable c], (if c then -g else 0) ≤ 0 := by
    intro c _
    split
    next => exact neg_nonpos.mpr hg
    next => exact le_rfl
  cases b with
  | none =>
      refine ⟨fun i j => ?_, fun i j hij => ?_⟩ <;>
        simp only [stamp, addAt_apply]
      · rw [h.symm i j]
        simp only [and_comm]
      · rw [if_neg (hdiag i j a hij), add_zero]
        exact h.off i j hij
  | some b =>
      refine ⟨fun i j => ?_, fun i j hij => ?_⟩ <;>
        simp only [stamp, addAt_apply]
      · rw [h.symm i j]
        simp only [and_comm]
        ring
      · rw [if_neg (hdiag i j a hij), if_neg (hdiag i j b hij)]
        have hoff := h.off i j hij
        have hab := hneg (i = a ∧ j = b)
        have hba := hneg (i = b ∧ j = a)
        linarith

theorem passive_loop {G : Mat 9 K} (h : Passive G) (node : Fin 3 → Fin 9)
    (node' : Fin 3 → Option (Fin 9)) {g : Fin 3 → K} (hg : ∀ k, 0 ≤ g k) :
    Passive ((List.finRange 3).foldl
      (fun G k => stamp G (node k) (node' k) (g k)) G) :=
  forUp_invariant (fun _ => Passive)
    (fun k _ hG => passive_stamp hG (node k) (node' k) (hg k)) h

-- ============================================================== the matrix

/-- The signs the parameters have to have. -/
structure Positive (p : SolverParams K) : Prop where
  dt : 0 < p.dt
  Lf : 0 < p.Lf
  Rf : 0 ≤ p.Rf
  Cf : 0 < p.Cf
  Lgrid : 0 < p.Lgrid
  Rgrid : 0 ≤ p.Rgrid
  Gon : 0 < p.Gon
  Goff : 0 < p.Goff
  Rsrc : 0 < p.Rsrc

/-- Every node has a conductance of at least `m` to ground: two switches
at an inverter terminal, the capacitor, the source. -/
structure Grounded (p : SolverParams K) (m : K) : Prop where
  switches : m ≤ 2 * min p.Gon p.Goff
  capacitor : m ≤ 2 * p.Cf / p.dt
  source : m ≤ 1 / p.Rsrc

variable {p : SolverParams K}

/-- The least of these conductances. -/
def groundMargin (p : SolverParams K) : K :=
  min (2.0 * min p.Gon p.Goff) (min (2.0 * p.Cf / p.dt) (1 / p.Rsrc))

theorem groundMargin_eq (p : SolverParams K) : groundMargin p
    = min (2 * min p.Gon p.Goff) (min (2 * p.Cf / p.dt) (1 / p.Rsrc)) := by
  have htwo : (2.0 : K) = 2 := by norm_num
  rw [groundMargin, htwo]

theorem grounded_margin (p : SolverParams K) :
    Grounded p (groundMargin p) := by
  rw [groundMargin_eq]
  exact {
    switches := min_le_left _ _
    capacitor := (min_le_right _ _).trans (min_le_left _ _)
    source := (min_le_right _ _).trans (min_le_right _ _) }

theorem groundMargin_pos (hp : Positive p) : 0 < groundMargin p := by
  obtain ⟨hdt, -, -, hCf, -, -, hGon, hGoff, hRsrc⟩ := hp
  rw [groundMargin_eq]
  positivity

theorem passive_assemble (hp : Positive p) (gate : BitVec 8) :
    Passive (assemble p gate) := by
  obtain ⟨hdt, hLf, hRf, hCf, hLgrid, hRgrid, hGon, hGoff, hRsrc⟩ := hp
  have hzero : Passive (fun _ _ => 0 : Mat 9 K) :=
    ⟨fun _ _ => rfl, fun _ _ _ => le_rfl⟩
  have hgate : ∀ k, 0 ≤ gT1 p gate k + gT2 p gate k := by
    intro k
    unfold gT1 gT2
    split <;> split <;> positivity
  unfold assemble makeInductor makeCapacitor
  refine passive_loop (passive_loop (passive_loop (passive_loop
    (passive_loop hzero _ _ fun _ => ?_) _ _ fun _ => ?_) _ _ fun _ => ?_)
    _ _ fun _ => ?_) _ _ hgate <;> positivity

theorem dominant_assemble (hp : Positive p) (hg : Grounded p m)
    (gate : BitVec 8) : Dominant m 0 (assemble p gate) := by
  have hpassive := passive_assemble hp gate
  refine ⟨fun i j _ _ => hpassive.symm i j,
    fun i j _ _ hij => hpassive.off i j hij, fun i _ => ?_⟩
  -- a row sum is the current drawn with every node at 1
  have hsum : ∑ j with 0 ≤ j.val, assemble p gate i j
      = current (assemble p gate) (fun _ => 1) i := by
    simp [current]
  have hgate : ∀ k, 2 * min p.Gon p.Goff ≤ gT1 p gate k + gT2 p gate k := by
    intro k
    have hon : min p.Gon p.Goff ≤ p.Gon := min_le_left _ _
    have hoff : min p.Gon p.Goff ≤ p.Goff := min_le_right _ _
    unfold gT1 gT2
    split <;> split <;> linarith
  rw [hsum]
  rcases node_cases i with ⟨k, rfl⟩ | ⟨k, rfl⟩ | ⟨k, rfl⟩ <;>
    obtain ⟨hinv, hcap, hgrid⟩ := current_assemble p gate (fun _ => 1) k
  · rw [hinv, sub_self, mul_zero, zero_add, mul_one]
    exact hg.switches.trans (hgate k)
  · rw [hcap, sub_self, mul_zero, zero_add, mul_zero, add_zero, mul_one]
    exact hg.capacitor
  · rw [hgrid, sub_self, mul_zero, zero_add, mul_one]
    exact hg.source

/-- The factors of the network's matrix come without row exchanges. -/
theorem pivots_assemble (hp : Positive p) {gate : BitVec 8}
    {pivot : Fin 9 → Fin 9} {s : LuState 9 K}
    (h : luFactor ⟨assemble p gate, pivot⟩ = .ok s) (i : Fin 9) :
    s.pivot i = i := by
  have hdom := dominant_assemble hp (grounded_margin p) gate
  exact (luFactor_inPlace (groundMargin_pos hp) hdom h).pivots i i.isLt

/-- The network's matrix factors in place: for parameters of the right
signs whose smallest conductance to ground is not below the tolerance of
`lu_factor`, and for every gate byte, the matrix is symmetric, its
factorisation does not throw and exchanges no rows, and the diagonal of
`U` stays at or above that conductance. -/
theorem factors_in_place (net : VscNetwork K) (hp : Positive net.p)
    (hm : pivotTol ≤ groundMargin net.p) (gate : BitVec 8) :
    ∃ net', net.assembleAndFactor gate = .ok net'
      ∧ (∀ i j, net'.G i j = net'.G j i)
      ∧ (∀ k, net'.piv k = k)
      ∧ ∀ k, groundMargin net.p ≤ net'.LU k k := by
  have hdom := dominant_assemble hp (grounded_margin net.p) gate
  obtain ⟨s, hs, hplace⟩ := luFactor_dominant hm hdom net.piv
  refine ⟨{ net with
    G := assemble net.p gate, LU := s.A, piv := s.pivot
    gateFactored := gate }, ?_, ?_, ?_, ?_⟩
  · unfold VscNetwork.assembleAndFactor
    dsimp only
    rw [hs]
  · exact (passive_assemble hp gate).symm
  · exact fun k => hplace.pivots k k.isLt
  · exact fun k => hplace.diag k k.isLt

/-- The factorisation of the matrix for a gate byte does not throw. -/
def FactorsAt (p : SolverParams K) (gate : BitVec 8) : Prop :=
  ∃ s, luFactor ⟨assemble p gate, id⟩ = .ok s

/-- The factorisation of the network's matrix never throws. -/
def Factors (p : SolverParams K) : Prop :=
  ∀ gate, FactorsAt p gate

/-- It does not if every node has a conductance to ground above the
tolerance. -/
theorem factors_of_grounded (hp : Positive p) (hg : Grounded p pivotTol) :
    Factors p := by
  intro gate
  obtain ⟨s, hs, -⟩ :=
    luFactor_dominant le_rfl (dominant_assemble hp hg gate) id
  exact ⟨s, hs⟩

/-- The default parameters have the signs, -/
theorem positive_default :
    Positive (SolverParams.default : SolverParams ℚ) := by
  constructor <;> norm_num [SolverParams.default]

/-- and their matrices factor. -/
theorem factors_default :
    Factors (SolverParams.default : SolverParams ℚ) := by
  apply factors_of_grounded positive_default
  constructor <;> norm_num [pivotTol, SolverParams.default]

theorem groundMargin_default :
    groundMargin (SolverParams.default : SolverParams ℚ) = 2e-6 := by
  norm_num [groundMargin, SolverParams.default]

/-- At the default parameters with all switches open, from the arrays as
the constructor finds them: pivots of at least 2e-6. -/
theorem factors_in_place_default :
    ∃ net', VscNetwork.assembleAndFactor
        (⟨SolverParams.default, fun _ _ => 0, fun _ _ => 0, fun _ => 0, 0xFF#8⟩
          : VscNetwork ℚ) 0x00#8 = .ok net'
      ∧ net'.piv 4 = 4 ∧ 2e-6 ≤ net'.LU 0 0 := by
  have hm : pivotTol ≤ groundMargin (SolverParams.default : SolverParams ℚ) := by
    rw [groundMargin_default]
    norm_num [pivotTol]
  obtain ⟨net', hok, -, hpiv, hdiag⟩ := factors_in_place
    ⟨SolverParams.default, fun _ _ => 0, fun _ _ => 0, fun _ => 0, 0xFF#8⟩
    positive_default hm 0x00#8
  refine ⟨net', hok, hpiv 4, ?_⟩
  rw [← groundMargin_default]
  exact hdiag 0

end EdgeIpc.Vsc
