/-
Gaussian elimination of matrices that dominate by their diagonal.

A symmetric matrix with nothing positive off its diagonal and every row
sum at least `m > 0` (`Dominant`) needs no exchange of rows: its diagonal
entries are at least `m` and the largest of their columns. Eliminating a
column leaves a block of the same kind (`Dominant.eliminate`): the
multipliers are not positive, so what a row loses of the pivot row only
makes its sum larger.
-/
import EdgeIpc.Lib.Packed
import Mathlib.Algebra.Order.BigOperators.Group.Finset
import Mathlib.Algebra.Order.Field.Basic
import Mathlib.Tactic.Linarith
import Mathlib.Tactic.LinearCombination

namespace EdgeIpc.Lib

variable {n : Nat} {K : Type _} [Field K]

/-- A sum from `k` on: the term at `k`, and the rest. -/
theorem sum_from (f : Fin n → K) (k : Fin n) :
    ∑ j with k.val ≤ j.val, f j = f k + ∑ j with k.val + 1 ≤ j.val, f j := by
  have hset : (Finset.univ.filter fun j : Fin n => k.val ≤ j.val)
      = insert k (Finset.univ.filter fun j : Fin n => k.val + 1 ≤ j.val) := by
    ext j
    simp only [Finset.mem_filter, Finset.mem_univ, true_and,
      Finset.mem_insert, Fin.ext_iff]
    omega
  rw [hset, Finset.sum_insert (by simp)]

/-- Eliminating a column takes a multiple of the pivot row's sum from a
row's: the column itself drops out. -/
theorem Eliminated.row_sum {k : Fin n} {A B : Fin n → Fin n → K}
    (h : Eliminated k A B) {i : Fin n} (hi : k < i) :
    ∑ j with k.val + 1 ≤ j.val, B i j
      = (∑ j with k.val ≤ j.val, A i j)
        - B i k * ∑ j with k.val ≤ j.val, A k j := by
  have hactive : ∑ j with k.val + 1 ≤ j.val, B i j
      = ∑ j with k.val + 1 ≤ j.val, (A i j - B i k * A k j) := by
    refine Finset.sum_congr rfl fun j hj => ?_
    exact h.active i j hi (Fin.lt_def.mpr (Finset.mem_filter.mp hj).2)
  rw [hactive, Finset.sum_sub_distrib, ← Finset.mul_sum, sum_from (A i),
    sum_from (A k)]
  linear_combination h.multiplier i hi

variable [LinearOrder K] [IsStrictOrderedRing K]

/-- The block from row and column `k` on is symmetric, has nothing
positive off its diagonal, and its row sums are at least `m`. -/
structure Dominant (m : K) (k : Nat) (A : Fin n → Fin n → K) : Prop where
  symm : ∀ i j : Fin n, k ≤ i.val → k ≤ j.val → A i j = A j i
  off : ∀ i j : Fin n, k ≤ i.val → k ≤ j.val → i ≠ j → A i j ≤ 0
  slack : ∀ i : Fin n, k ≤ i.val → m ≤ ∑ j with k ≤ j.val, A i j

namespace Dominant

variable {m : K} {k : Nat} {A : Fin n → Fin n → K}

/-- Leaving entries off the diagonal out of a row sum does not make it
smaller. -/
theorem le_sum_subset (h : Dominant m k A) {i : Fin n} {S : Finset (Fin n)}
    (hi : i ∈ S) (hS : ∀ j ∈ S, k ≤ j.val) : m ≤ ∑ j ∈ S, A i j := by
  have hik := hS i hi
  have hsub : S ⊆ Finset.univ.filter fun j : Fin n => k ≤ j.val := by
    intro j hj
    exact Finset.mem_filter.mpr ⟨Finset.mem_univ j, hS j hj⟩
  have hrest : ∑ j ∈ (Finset.univ.filter fun j : Fin n => k ≤ j.val) \ S,
      A i j ≤ 0 := by
    apply Finset.sum_nonpos
    intro j hj
    obtain ⟨hjk, hjS⟩ := Finset.mem_sdiff.mp hj
    have hij : i ≠ j := by
      rintro rfl
      exact hjS hi
    exact h.off i j hik (Finset.mem_filter.mp hjk).2 hij
  calc m ≤ ∑ j with k ≤ j.val, A i j := h.slack i hik
    _ = (∑ j ∈ (Finset.univ.filter fun j : Fin n => k ≤ j.val) \ S, A i j)
          + ∑ j ∈ S, A i j := (Finset.sum_sdiff hsub).symm
    _ ≤ 0 + ∑ j ∈ S, A i j := by gcongr
    _ = ∑ j ∈ S, A i j := zero_add _

theorem le_diag (h : Dominant m k A) {i : Fin n} (hi : k ≤ i.val) :
    m ≤ A i i := by
  have hone := h.le_sum_subset (Finset.mem_singleton_self i)
    (by simpa using hi)
  rwa [Finset.sum_singleton] at hone

/-- The diagonal entry is the largest of its column. -/
theorem neg_le_diag (h : Dominant m k A) (hm : 0 < m) {i j : Fin n}
    (hi : k ≤ i.val) (hj : k ≤ j.val) (hij : i ≠ j) : -A i j ≤ A j j := by
  have hpair := h.le_sum_subset (S := {j, i}) (Finset.mem_insert_self j _)
    (by simpa using ⟨hj, hi⟩)
  rw [Finset.sum_pair hij.symm, h.symm j i hj hi] at hpair
  linarith

/-- Eliminating a column leaves a block of the same kind. -/
theorem eliminate {k : Fin n} {A B : Fin n → Fin n → K} (hm : 0 < m)
    (h : Dominant m k A) (he : Eliminated k A B) :
    Dominant m (k + 1) B := by
  have hkk : k.val ≤ k.val := le_rfl
  have hpivot : 0 < A k k := lt_of_lt_of_le hm (h.le_diag hkk)
  have hne : ∀ i : Fin n, k < i → i ≠ k := fun i hi => hi.ne'
  have hmul : ∀ i, k < i → B i k ≤ 0 := by
    intro i hi
    have hprod : B i k * A k k ≤ 0 := by
      rw [he.multiplier i hi]
      exact h.off i k (Fin.lt_def.mp hi).le hkk (hne i hi)
    exact nonpos_of_mul_nonpos_left hprod hpivot
  have hrow : ∀ j, k < j → A k j = B j k * A k k := by
    intro j hj
    rw [he.multiplier j hj, h.symm k j hkk (Fin.lt_def.mp hj).le]
  refine ⟨fun i j hi hj => ?_, fun i j hi hj hij => ?_, fun i hi => ?_⟩
  · have hki : k < i := Fin.lt_def.mpr hi
    have hkj : k < j := Fin.lt_def.mpr hj
    rw [he.active i j hki hkj, he.active j i hkj hki, hrow i hki,
      hrow j hkj, h.symm i j (by omega) (by omega)]
    ring
  · have hki : k < i := Fin.lt_def.mpr hi
    have hkj : k < j := Fin.lt_def.mpr hj
    rw [he.active i j hki hkj]
    have hlost : 0 ≤ B i k * A k j := by
      apply mul_nonneg_of_nonpos_of_nonpos (hmul i hki)
      exact h.off k j hkk (by omega) (hne j hkj).symm
    have hij' := h.off i j (by omega) (by omega) hij
    linarith
  · have hki : k < i := Fin.lt_def.mpr hi
    rw [he.row_sum hki]
    have hgain : 0 ≤ -B i k * ∑ j with k.val ≤ j.val, A k j := by
      apply mul_nonneg
      · exact neg_nonneg.mpr (hmul i hki)
      · exact hm.le.trans (h.slack k hkk)
    have hold := h.slack i (Nat.le_of_succ_le hi)
    linarith

end Dominant

end EdgeIpc.Lib
