/-
`lu_factor` and `lu_solve` solve the system: if the factorisation does
not throw, substituting through its result gives the solution of the
matrix that was handed in (`luSolve_correct`).

`FactorInv` is the invariant of the outer loop. Up to a permutation of
the rows, the one `lu_solve` will apply to the right-hand side, the
half-finished array still stands for the original matrix (`packed`), and
the diagonal entries behind the loop are not zero. The substitution loops
have their equations as invariants.
-/
import EdgeIpc.Lib.Loop
import EdgeIpc.Vsc.LuSolver
import Mathlib.Algebra.Order.Field.Basic
import Mathlib.LinearAlgebra.FiniteDimensional.Basic
import Mathlib.LinearAlgebra.Matrix.ToLinearEquiv
import Mathlib.LinearAlgebra.Matrix.ToLin
import Mathlib.Tactic.NormNum.OfScientific

namespace EdgeIpc.Vsc

open Lib

variable {n : Nat} {K : Type}

-- ========================================================== the exchanges

theorem permuteOver_congr {pivot pivot' : Fin n → Fin n}
    {ks : List (Fin n)} (h : ∀ k ∈ ks, pivot k = pivot' k) (b : Fin n → K) :
    permuteOver pivot ks b = permuteOver pivot' ks b := by
  unfold permuteOver
  refine List.foldl_ext _ _ _ fun y k hk => ?_
  rw [h k hk]

/-- Pivots that exchange nothing. -/
theorem permuteOver_self {pivot : Fin n → Fin n} (h : ∀ i, pivot i = i)
    (ks : List (Fin n)) (b : Fin n → K) : permuteOver pivot ks b = b := by
  unfold permuteOver
  induction ks with
  | nil => rfl
  | cons k ks ih => rw [List.foldl_cons, h k, swapAt_self, ih]

/-- The indices before `k`, and `k`. -/
theorem take_finRange_succ (k : Fin n) :
    (List.finRange n).take (k + 1) = (List.finRange n).take k ++ [k] := by
  rw [List.take_add_one]
  simp

theorem mem_take_finRange {k : Nat} {i : Fin n}
    (h : i ∈ (List.finRange n).take k) : i.val < k := by
  obtain ⟨j, hj, hi⟩ := List.mem_take_iff_getElem.mp h
  rw [List.getElem_finRange] at hi
  rw [← hi]
  simp only [Fin.val_cast]
  omega

theorem exchange_eq (A : Mat n K) (k p : Fin n) :
    exchange A k p = swapAt A k p := by
  unfold exchange
  split
  next => rfl
  next h =>
    obtain rfl : p = k := not_not.mp h
    exact (swapAt_self A p).symm

/-- Setting the pivot of column `k` and going on is one more exchange. -/
theorem permuteOver_step (pivot : Fin n → Fin n) (k p : Fin n)
    (b : Fin n → K) :
    permuteOver (fun i => if i = k then p else pivot i)
        ((List.finRange n).take (k + 1)) b
      = swapAt (permuteOver pivot ((List.finRange n).take k) b) k p := by
  have hbefore : permuteOver (fun i => if i = k then p else pivot i)
      ((List.finRange n).take k) b
      = permuteOver pivot ((List.finRange n).take k) b := by
    apply permuteOver_congr
    intro i hi
    have hne : i ≠ k := fun h => (mem_take_finRange hi).ne (congrArg _ h)
    exact if_neg hne
  rw [take_finRange_succ, ← hbefore, permuteOver, List.foldl_append]
  show swapAt _ k (if k = k then p else pivot k) = _
  rw [if_pos rfl]
  rfl

-- ====================================================== the substitutions

variable [Field K]

/-- A loop that writes row after row, each from the rows before it,
solves the unit lower factor. `start` is what its body needs to find in
the rows to come. -/
theorem forward_rule {LU : Mat n K} {c y : Fin n → K}
    (start : Nat → (Fin n → K) → Prop)
    {f : (Fin n → K) → Fin n → Fin n → K}
    (hrow : ∀ (k : Fin n) (y : Fin n → K), start k y →
      f y k k = c k - ∑ j with j < k, LU k j * y j)
    (hother : ∀ (k : Fin n) (y : Fin n → K) (j : Fin n), j ≠ k →
      f y k j = y j)
    (hstart : ∀ (k : Fin n) (y : Fin n → K), start k y →
      start (k + 1) (f y k)) (h0 : start 0 y) (i : Fin n) :
    (List.finRange n).foldl f y i
      = c i - ∑ j with j < i, LU i j * (List.finRange n).foldl f y j := by
  -- rows before the counter satisfy their equation
  have hloop := forUp_invariant
    (fun k (y : Fin n → K) =>
      (∀ i : Fin n, i.val < k → y i = c i - ∑ j with j < i, LU i j * y j)
        ∧ start k y)
    (f := f) (s := y) ?_ ⟨nofun, h0⟩
  · exact hloop.1 i i.isLt
  intro k y ⟨hdone, hy⟩
  refine ⟨fun i hi => ?_, hstart k y hy⟩
  have hsum : ∑ j with j < i, LU i j * f y k j
      = ∑ j with j < i, LU i j * y j := by
    refine Finset.sum_congr rfl fun j hj => ?_
    have hji : j < i := (Finset.mem_filter.mp hj).2
    rw [hother k y j fun h => by rw [h, Fin.lt_def] at hji; omega]
  rw [hsum]
  by_cases hik : i = k
  · subst hik
    exact hrow i y hy
  · rw [hother k y i hik, hdone i (lt_of_lt_succ hi hik)]

/-- Forward substitution solves the unit lower factor. -/
theorem forwardSubst_spec (LU : Mat n K) (c : Fin n → K) (i : Fin n) :
    forwardSubst LU c i
      = c i - ∑ j with j < i, LU i j * forwardSubst LU c j := by
  have hother : ∀ (k : Fin n) (y : Fin n → K) (j : Fin n), j ≠ k →
      forwardRow LU y k j = y j := fun _ _ _ hj => if_neg hj
  -- in place: the rows to come still hold the right-hand side
  refine forward_rule (fun k y => ∀ i : Fin n, k ≤ i.val → y i = c i)
    (fun k y hy => ?_) hother (fun k y hy i hi => ?_) (fun _ _ => rfl) i
  · rw [forwardRow]
    simp only [if_true]
    rw [foldl_sub_filter (fun j => j < k), hy k le_rfl]
  · rw [hother k y i fun h => by rw [h] at hi; omega]
    exact hy i (by omega)

/-- Back substitution solves the upper factor. -/
theorem backSubst_spec (LU : Mat n K) (y x : Fin n → K) (i : Fin n) :
    backSubst LU y x i
      = (y i - ∑ j with i < j, LU i j * backSubst LU y x j) / LU i i := by
  have hloop := forDown_invariant
    (fun k (x : Fin n → K) => ∀ i : Fin n, k ≤ i.val →
      x i = (y i - ∑ j with i < j, LU i j * x j) / LU i i)
    (f := backRow LU y) (s := x) ?_
    (fun i hi => absurd i.isLt (not_lt.mpr hi))
  · exact hloop i (Nat.zero_le _)
  intro k x hdone i hi
  have hrow : backRow LU y x k k
      = (y k - ∑ j with k < j, LU k j * x j) / LU k k := by
    rw [backRow]
    simp only [if_true]
    rw [foldl_sub_filter (fun j => k < j)]
  have hother : ∀ j, j ≠ k → backRow LU y x k j = x j :=
    fun j hj => if_neg hj
  have hsum : ∑ j with i < j, LU i j * backRow LU y x k j
      = ∑ j with i < j, LU i j * x j := by
    refine Finset.sum_congr rfl fun j hj => ?_
    have hij : i < j := (Finset.mem_filter.mp hj).2
    rw [hother j fun h => by rw [h, Fin.lt_def] at hij; omega]
  rw [hsum]
  by_cases hik : i = k
  · subst hik
    exact hrow
  · have hv : i.val ≠ k.val := fun h => hik (Fin.ext h)
    rw [hother i hik, hdone i (by omega)]

-- ============================================================ elimination

/-- The elimination loops do what elimination is. -/
theorem eliminated_eliminate {A : Mat n K} {k : Fin n} (h : A k k ≠ 0) :
    Eliminated k A (eliminate A k) where
  above i hi := by
    funext j
    simp only [eliminate, if_neg (not_lt.mpr hi)]
  left i j hi hj := by
    simp only [eliminate, if_pos hi, if_neg hj.ne, if_neg hj.not_gt]
  multiplier i hi := by
    simp only [eliminate, if_pos hi, if_true]
    rw [mul_assoc, one_div, inv_mul_cancel₀ h, mul_one]
  active i j hi hj := by
    simp only [eliminate, if_pos hi, if_neg hj.ne', if_pos hj, if_true]

/-- With the columns before `k` done: the array stands for the original
matrix with its rows permuted the way the pivots so far say, and the
diagonal so far is not zero. -/
structure FactorInv (A₀ : Mat n K) (k : Nat) (s : LuState n K) : Prop where
  stands : ∃ σ : Equiv.Perm (Fin n),
    (∀ b : Fin n → K,
      permuteOver s.pivot ((List.finRange n).take k) b = b ∘ σ)
      ∧ ∀ i, A₀ (σ i) = packed k s.A i
  diag : ∀ i : Fin n, i.val < k → s.A i i ≠ 0
  pivots : ∀ i : Fin n, i.val < k → i ≤ s.pivot i

theorem factorInv_init (A : Mat n K) (pivot : Fin n → Fin n) :
    FactorInv A 0 ⟨A, pivot⟩ := by
  refine ⟨⟨Equiv.refl _, fun b => rfl, fun i => ?_⟩, nofun, nofun⟩
  rw [packed_zero]
  rfl

-- ======================================================= the pivot search

variable [LinearOrder K]

/-- What the search has found is a row of the active block with the size
of its entry, or nothing yet. -/
theorem findPivot_spec (A : Mat n K) (k : Fin n) :
    k ≤ (findPivot A k).1 ∧ ((findPivot A k).2 = 0
      ∨ (findPivot A k).2 = absV (A (findPivot A k).1 k)) := by
  unfold findPivot
  refine List.foldlRecOn
    (motive := fun found : Fin n × K => k ≤ found.1
      ∧ (found.2 = 0 ∨ found.2 = absV (A found.1 k)))
    _ _ ⟨le_rfl, .inl rfl⟩ ?_
  intro found hfound i hi
  have hki : k ≤ i := by simpa using (List.mem_filter.mp hi).2
  unfold betterPivot
  dsimp only
  split
  next => exact ⟨hki, .inr rfl⟩
  next => exact hfound

theorem absV_zero : absV (0 : K) = 0 := by
  unfold absV
  split <;> simp

variable [IsStrictOrderedRing K]

theorem pivotTol_pos : (0 : K) < pivotTol := by
  unfold pivotTol
  norm_num

theorem ne_zero_of_size {x : K} (h : pivotTol ≤ absV x) : x ≠ 0 := by
  rintro rfl
  rw [absV_zero] at h
  exact absurd pivotTol_pos (not_lt.mpr h)

/-- A pivot the search is satisfied with has the size it has found. -/
theorem pivot_size {A : Mat n K} {k : Fin n}
    (h : ¬ (findPivot A k).2 < pivotTol) :
    pivotTol ≤ absV (A (findPivot A k).1 k) := by
  have hsize := not_lt.mp h
  rcases (findPivot_spec A k).2 with h0 | habs
  · rw [h0] at hsize
    exact absurd pivotTol_pos (not_lt.mpr hsize)
  · rw [← habs]
    exact hsize

-- ========================================================== the outer loop

/-- A column that is done has its pivot on the diagonal, and the diagonal
above it is as it was. -/
theorem factorColumn_diag {s s' : LuState n K} {k : Fin n}
    (h : factorColumn s k = .ok s') :
    pivotTol ≤ absV (s'.A k k) ∧ ∀ i < k, s'.A i i = s.A i i := by
  unfold factorColumn at h
  dsimp only at h
  split at h
  next => cases h
  next hbest =>
    injection h with h
    subst h
    obtain ⟨hkp, -⟩ := findPivot_spec s.A k
    have hsize := pivot_size hbest
    generalize (findPivot s.A k).1 = p at hkp hsize ⊢
    have habove : ∀ i ≤ k, eliminate (exchange s.A k p) k i i
        = swapAt s.A k p i i := by
      intro i hi
      simp only [eliminate, if_neg (not_lt.mpr hi), exchange_eq]
    refine ⟨?_, fun i hi => ?_⟩
    · show pivotTol ≤ absV (eliminate (exchange s.A k p) k k k)
      rw [habove k le_rfl, swapAt, if_pos rfl]
      exact hsize
    · show eliminate (exchange s.A k p) k i i = s.A i i
      rw [habove i hi.le, swapAt, if_neg hi.ne, if_neg (hi.trans_le hkp).ne]

theorem factorInv_step {A₀ : Mat n K} (k : Fin n) (s s' : LuState n K)
    (hi : FactorInv A₀ k s) (h : factorColumn s k = .ok s') :
    FactorInv A₀ (k + 1) s' := by
  obtain ⟨hdiag, habove⟩ := factorColumn_diag h
  unfold factorColumn at h
  dsimp only at h
  split at h
  next => cases h
  next hbest =>
    injection h with h
    subst h
    obtain ⟨hkp, -⟩ := findPivot_spec s.A k
    have hne := ne_zero_of_size (pivot_size hbest)
    generalize (findPivot s.A k).1 = p at hkp hne hdiag habove ⊢
    rw [exchange_eq] at hdiag habove ⊢
    have hpivot : swapAt s.A k p k k ≠ 0 := by
      rw [show swapAt s.A k p k = s.A p from if_pos rfl]
      exact hne
    have helim := eliminated_eliminate hpivot
    refine ⟨?_, fun i hik => ?_, fun i hik => ?_⟩
    · obtain ⟨σ, hperm, hrows⟩ := hi.stands
      refine ⟨(Equiv.swap k p).trans σ, fun b => ?_, fun i => ?_⟩
      · rw [permuteOver_step, hperm, swapAt_eq]
        rfl
      · show A₀ (σ (Equiv.swap k p i)) = packed (k + 1) _ i
        rw [hrows, packed_eliminate helim,
          packed_swap s.A (le_refl _) (Fin.le_def.mp hkp), swapAt_eq]
        rfl
    · by_cases hik' : i = k
      · subst hik'
        exact ne_zero_of_size hdiag
      · have hlt := lt_of_lt_succ hik hik'
        rw [habove i (Fin.lt_def.mpr hlt)]
        exact hi.diag i hlt
    · show i ≤ if i = k then p else s.pivot i
      split
      next heq => rw [heq]; exact hkp
      next hne' => exact hi.pivots i (lt_of_lt_succ hik hne')

omit [IsStrictOrderedRing K] in
/-- What the pivot array held before does not matter: every entry is
overwritten, and none is read. -/
theorem luFactor_pivot {A : Mat n K} {pivot : Fin n → Fin n}
    {s : LuState n K} (h : luFactor ⟨A, pivot⟩ = .ok s)
    (pivot' : Fin n → Fin n) : luFactor ⟨A, pivot'⟩ = .ok s := by
  have hlock := forUpM_lockstep
    (fun k (s t : LuState n K) => s.A = t.A
      ∧ ∀ i : Fin n, i.val < k → s.pivot i = t.pivot i)
    (f := factorColumn) (s := ⟨A, pivot⟩) (t := ⟨A, pivot'⟩) ?_
    ⟨rfl, nofun⟩ h
  · obtain ⟨t, ht, hA, hpivot⟩ := hlock
    obtain rfl : s = t := by
      cases s
      cases t
      congr
      exact funext fun i => hpivot i i.isLt
    exact ht
  rintro k ⟨A, pivot⟩ ⟨_, pivot'⟩ s' ⟨rfl, hpivot⟩ hs
  unfold factorColumn at hs ⊢
  dsimp only at hs hpivot ⊢
  split at hs
  next => cases hs
  next hbest =>
    injection hs with hs
    subst hs
    refine ⟨_, if_neg hbest, rfl, fun i hi => ?_⟩
    show (if i = k then _ else pivot i) = if i = k then _ else pivot' i
    split
    next => rfl
    next hne => exact hpivot i (lt_of_lt_succ hi hne)

omit [IsStrictOrderedRing K] in
/-- There is one thing `lu_factor` throws. -/
theorem luFactor_throws {s₀ s : LuState n K} {what : String}
    (h : luFactor s₀ = .error (what, s)) :
    what = "LuSolver: singular matrix" := by
  refine foldlM_throws
    (P := fun e : String × LuState n K => e.1 = "LuSolver: singular matrix")
    (fun s k e hk => ?_) h
  unfold factorColumn at hk
  dsimp only at hk
  split at hk
  next => injection hk with hk; rw [← hk]
  next => cases hk

/-- Every divisor of a finished factorisation has the size of a pivot. -/
theorem luFactor_diag {s₀ s : LuState n K} (h : luFactor s₀ = .ok s)
    (i : Fin n) : pivotTol ≤ absV (s.A i i) := by
  refine forUpM_invariant
    (fun k s => ∀ i : Fin n, i.val < k → pivotTol ≤ absV (s.A i i))
    (fun k s s' hs hk i hi => ?_) nofun h i i.isLt
  obtain ⟨hdiag, habove⟩ := factorColumn_diag hk
  by_cases hik : i = k
  · subst hik
    exact hdiag
  · have hlt := lt_of_lt_succ hi hik
    rw [habove i (Fin.lt_def.mpr hlt)]
    exact hs i hlt

theorem luFactor_inv {A : Mat n K} {pivot : Fin n → Fin n}
    {s : LuState n K} (h : luFactor ⟨A, pivot⟩ = .ok s) :
    FactorInv A n s :=
  forUpM_invariant (FactorInv A) factorInv_step (factorInv_init A pivot) h

-- ============================================================ correctness

/-- If the factorisation of `A` does not throw, `lu_solve` with its
result solves `A x = b`, for every right-hand side. -/
theorem luSolve_correct {A : Mat n K} {pivot : Fin n → Fin n}
    {s : LuState n K} (h : luFactor ⟨A, pivot⟩ = .ok s)
    (b x : Fin n → K) (i : Fin n) :
    ∑ j, A i j * luSolve s.A s.pivot b x j = b i := by
  have hinv := luFactor_inv h
  obtain ⟨σ, hperm, hrows⟩ := hinv.stands
  have hall : (List.finRange n).take n = List.finRange n :=
    List.take_of_length_le (by simp)
  rw [hall] at hperm
  have hsolve := packed_solve (fun i => hinv.diag i i.isLt)
    (forwardSubst_spec s.A (permuteOver s.pivot (List.finRange n) b))
    (backSubst_spec s.A _ x) (σ.symm i)
  rw [hperm] at hsolve
  simp only [Function.comp_apply, Equiv.apply_symm_apply] at hsolve
  rw [← hsolve]
  refine Finset.sum_congr rfl fun j _ => ?_
  rw [← hrows, Equiv.apply_symm_apply, luSolve, hperm]

/-- A matrix that factors has one solution for each right-hand side: it
has one for every right-hand side. -/
theorem solution_unique {A : Mat n K} {pivot : Fin n → Fin n}
    {s : LuState n K} (h : luFactor ⟨A, pivot⟩ = .ok s) {x x' : Fin n → K}
    (hx : ∀ i, ∑ j, A i j * x j = ∑ j, A i j * x' j) : x = x' := by
  have hsurj : Function.Surjective (Matrix.of A).mulVecLin := fun b =>
    ⟨luSolve s.A s.pivot b fun _ => 0, funext (luSolve_correct h b _)⟩
  exact LinearMap.injective_iff_surjective.mpr hsurj (funext hx)

/-- A matrix that factors is regular. -/
theorem det_ne_zero {A : Mat n K} {pivot : Fin n → Fin n}
    {s : LuState n K} (h : luFactor ⟨A, pivot⟩ = .ok s) :
    (Matrix.of A).det ≠ 0 := by
  intro hdet
  obtain ⟨v, hv, hzero⟩ := Matrix.exists_mulVec_eq_zero_iff.mpr hdet
  apply hv
  refine solution_unique h fun i => ?_
  have hrow := congrFun hzero i
  simpa [Matrix.mulVec, dotProduct] using hrow

/-- What has been evaluated has not thrown. -/
theorem exists_ok_of_map {ε α β : Type} {r : Except ε α} {f : α → β} {b : β}
    (h : r.toOption.map f = some b) : ∃ a, r = .ok a ∧ f a = b := by
  cases r with
  | error e => cases h
  | ok a => exact ⟨a, rfl, Option.some.inj h⟩

/-- LU solver correctness, for every size, matrix and right-hand side. If
`lu_factor` does not throw, every pivot lies in the rows from its column
on, every diagonal entry is a divisor that is not zero, and `lu_solve`
solves the system of the matrix handed in. On a singular matrix
`lu_factor` throws. -/
theorem lu_correct (A : Mat n K) (pivot : Fin n → Fin n) :
    (∀ s, luFactor ⟨A, pivot⟩ = .ok s →
      (∀ k, k ≤ s.pivot k ∧ (s.pivot k).val < n)
        ∧ (∀ i, s.A i i ≠ 0)
        ∧ ∀ b x, (Matrix.of A).mulVec (luSolve s.A s.pivot b x) = b)
    ∧ ((Matrix.of A).det = 0 →
      ∃ s, luFactor ⟨A, pivot⟩ = .error ("LuSolver: singular matrix", s)) := by
  refine ⟨fun s hs => ?_, fun hdet => ?_⟩
  · have hinv := luFactor_inv hs
    refine ⟨fun k => ⟨hinv.pivots k k.isLt, (s.pivot k).isLt⟩,
      fun i => hinv.diag i i.isLt, fun b x => ?_⟩
    exact funext (luSolve_correct hs b x)
  · cases hf : luFactor ⟨A, pivot⟩ with
    | ok s => exact absurd hdet (det_ne_zero hf)
    | error e =>
        obtain ⟨what, s⟩ := e
        obtain rfl : what = "LuSolver: singular matrix" := luFactor_throws hf
        exact ⟨s, rfl⟩

/-- A matrix with zeros on its diagonal, which is solved by an exchange,
and one of ones, which is refused. -/
theorem lu_correct_two :
    (∃ s, luFactor ⟨fun i j : Fin 2 => if i = j then (0 : ℚ) else 1, id⟩
        = .ok s
      ∧ s.A 0 0 ≠ 0
      ∧ (Matrix.of fun i j : Fin 2 => if i = j then (0 : ℚ) else 1).mulVec
          (luSolve s.A s.pivot ![3, 5] ![0, 0]) = ![3, 5])
    ∧ ∃ s, luFactor ⟨fun _ _ : Fin 2 => (1 : ℚ), id⟩
        = .error ("LuSolver: singular matrix", s) := by
  constructor
  · have hrun : (luFactor ⟨fun i j : Fin 2 => if i = j then (0 : ℚ) else 1,
        id⟩).toOption.map (fun _ => ()) = some () := by decide +kernel
    obtain ⟨s, hs, -⟩ := exists_ok_of_map hrun
    obtain ⟨-, hdiag, hsolve⟩ := (lu_correct _ _).1 s hs
    exact ⟨s, hs, hdiag 0, hsolve _ _⟩
  · refine (lu_correct _ _).2 ?_
    simp [Matrix.det_fin_two]

end EdgeIpc.Vsc
