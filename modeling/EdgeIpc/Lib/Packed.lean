/-
Triangular factors packed into one square array: the multipliers of the
unit lower factor below the diagonal, the upper factor on and above it.

# A partly eliminated array

While Gaussian elimination runs, the array holds both: columns before
the counter `k` are done, the block from `k` on is still to be
eliminated. `packed k A` is the matrix such an array stands for. It does
not change while `k` advances:

- at `k = 0` nothing is done and it is the array itself (`packed_zero`);
- exchanging two rows of the active block, multipliers included,
  exchanges the two rows of the matrix (`packed_swap`);
- eliminating column `k` leaves it as it is (`packed_eliminate`).

At `k = n` it is the product of the factors, and substituting forward
and back through the packed array solves it (`packed_solve`).
-/
import Mathlib.Algebra.BigOperators.Fin
import Mathlib.Algebra.BigOperators.Ring.Finset
import Mathlib.Algebra.Field.Basic
import Mathlib.Logic.Equiv.Basic
import Mathlib.Tactic.Ring

namespace EdgeIpc.Lib

variable {n : Nat} {α K : Type _}

-- =============================================================== exchanges

/-- Exchange two entries. -/
def swapAt (v : Fin n → α) (a b : Fin n) : Fin n → α :=
  fun i => if i = a then v b else if i = b then v a else v i

theorem swapAt_eq (v : Fin n → α) (a b : Fin n) :
    swapAt v a b = v ∘ Equiv.swap a b := by
  funext i
  simp only [swapAt, Function.comp_apply, Equiv.swap_apply_def]
  split
  next => rfl
  next => split <;> rfl

theorem swapAt_self (v : Fin n → α) (a : Fin n) : swapAt v a a = v := by
  rw [swapAt_eq, Equiv.swap_self]
  rfl

-- ================================================================ packing

variable [Field K]

/-- The upper factor. -/
def upper (A : Fin n → Fin n → K) (i j : Fin n) : K :=
  if i ≤ j then A i j else 0

/-- The matrix an array with its columns before `k` eliminated stands
for: in row `i`, the multipliers of those columns against the upper rows,
and what is left of the row. -/
def packed (k : Nat) (A : Fin n → Fin n → K) (i j : Fin n) : K :=
  (∑ l with l < i ∧ l.val < k, A i l * upper A l j)
    + if min i.val k ≤ j.val then A i j else 0

theorem packed_zero (A : Fin n → Fin n → K) : packed 0 A = A := by
  funext i j
  simp [packed]

/-- With every column done: the product of the factors. -/
theorem packed_done (A : Fin n → Fin n → K) (i j : Fin n) :
    packed n A i j = (∑ l with l < i, A i l * upper A l j) + upper A i j := by
  simp [packed, upper]

/-- A row of the active block has all of the done columns' multipliers. -/
theorem packed_active {k : Nat} (A : Fin n → Fin n → K) {i : Fin n}
    (hi : k ≤ i.val) (j : Fin n) :
    packed k A i j = (∑ l with l.val < k, A i l * upper A l j)
      + if k ≤ j.val then A i j else 0 := by
  have hset : ∀ l : Fin n, (l < i ∧ l.val < k) ↔ l.val < k := by
    intro l
    rw [Fin.lt_def]
    omega
  simp only [packed, hset, Nat.min_eq_right hi]

/-- Rows above the active block have only their own. -/
theorem packed_above {k : Nat} (A : Fin n → Fin n → K) {i : Fin n}
    (hi : i.val < k) (j : Fin n) :
    packed k A i j = (∑ l with l < i, A i l * upper A l j)
      + upper A i j := by
  have hset : ∀ l : Fin n, (l < i ∧ l.val < k) ↔ l < i := by
    intro l
    rw [Fin.lt_def]
    omega
  simp only [packed, hset, Nat.min_eq_left hi.le, upper, Fin.le_def]

/-- The upper rows before `k` are all a row of `packed k` reads besides
itself. -/
theorem packed_congr {k : Nat} {A B : Fin n → Fin n → K} {i i' : Fin n}
    (hk : ∀ l : Fin n, l.val < k → A l = B l) (hi : A i = B i')
    (hii' : min i.val k = min i'.val k) (j : Fin n) :
    packed k A i j = packed k B i' j := by
  have hset : ∀ l : Fin n, (l < i ∧ l.val < k) ↔ (l < i' ∧ l.val < k) := by
    intro l
    rw [Fin.lt_def, Fin.lt_def]
    omega
  unfold packed
  rw [hi, hii']
  congr 1
  simp only [hset]
  refine Finset.sum_congr rfl fun l hl => ?_
  have hlk := (Finset.mem_filter.mp hl).2.2
  rw [upper, upper, hk l hlk]

/-- Exchanging rows of the active block exchanges the rows of the
matrix. -/
theorem packed_swap {k : Nat} (A : Fin n → Fin n → K) {a b : Fin n}
    (ha : k ≤ a.val) (hb : k ≤ b.val) :
    packed k (swapAt A a b) = swapAt (packed k A) a b := by
  have habove : ∀ l : Fin n, l.val < k → swapAt A a b l = A l := by
    intro l hl
    have hla : l ≠ a := fun h => by rw [h] at hl; omega
    have hlb : l ≠ b := fun h => by rw [h] at hl; omega
    rw [swapAt, if_neg hla, if_neg hlb]
  funext i j
  by_cases hia : i = a
  · subst hia
    rw [show swapAt (packed k A) i b i = packed k A b from if_pos rfl]
    exact packed_congr habove (if_pos rfl) (by omega) j
  by_cases hib : i = b
  · subst hib
    rw [show swapAt (packed k A) a i i = packed k A a by
      rw [swapAt, if_neg hia, if_pos rfl]]
    refine packed_congr habove ?_ (by omega) j
    rw [swapAt, if_neg hia, if_pos rfl]
  · rw [show swapAt (packed k A) a b i = packed k A i by
      rw [swapAt, if_neg hia, if_neg hib]]
    refine packed_congr habove ?_ rfl j
    rw [swapAt, if_neg hia, if_neg hib]

/-- `B` is `A` with column `k` eliminated: below row `k`, column `k` holds
the multipliers and the columns behind it have lost their multiples of
row `k`. -/
structure Eliminated (k : Fin n) (A B : Fin n → Fin n → K) : Prop where
  above : ∀ i, i ≤ k → B i = A i
  left : ∀ i j, k < i → j < k → B i j = A i j
  multiplier : ∀ i, k < i → B i k * A k k = A i k
  active : ∀ i j, k < i → k < j → B i j = A i j - B i k * A k j

/-- Eliminating a column does not change the matrix. -/
theorem packed_eliminate {k : Fin n} {A B : Fin n → Fin n → K}
    (h : Eliminated k A B) : packed (k + 1) B = packed k A := by
  funext i j
  have hupper : ∀ l, l ≤ k → upper B l j = upper A l j := by
    intro l hl
    rw [upper, upper, h.above l hl]
  rcases Nat.lt_trichotomy i.val k.val with hik | hik | hik
  · -- a row done long ago
    rw [packed_above _ (by omega), packed_above _ hik,
      hupper i (Fin.le_def.mpr hik.le), h.above i (Fin.le_def.mpr hik.le)]
    congr 1
    refine Finset.sum_congr rfl fun l hl => ?_
    have hli : l < i := (Finset.mem_filter.mp hl).2
    rw [hupper l (Fin.le_def.mpr (by rw [Fin.lt_def] at hli; omega))]
  · -- the pivot row: its tail becomes an upper row
    obtain rfl : i = k := Fin.ext hik
    rw [packed_above _ (Nat.lt_succ_self _), packed_active _ le_rfl,
      hupper i le_rfl, h.above i le_rfl]
    congr 1
    refine Finset.sum_congr rfl fun l hl => ?_
    have hli : l < i := (Finset.mem_filter.mp hl).2
    rw [hupper l hli.le]
  · -- a row below: the multiple it lost is now its multiplier's term
    have hki : k < i := Fin.lt_def.mpr hik
    have hset : (Finset.univ.filter fun l : Fin n => l.val < k.val + 1)
        = insert k (Finset.univ.filter fun l : Fin n => l.val < k.val) := by
      ext l
      simp only [Finset.mem_filter, Finset.mem_univ, true_and,
        Finset.mem_insert, Fin.ext_iff]
      omega
    have hnotMem : k ∉ Finset.univ.filter fun l : Fin n => l.val < k.val := by
      simp
    rw [packed_active _ (by omega), packed_active _ (by omega), hset,
      Finset.sum_insert hnotMem, hupper k le_rfl]
    have hsum : ∑ l with l.val < k.val, B i l * upper B l j
        = ∑ l with l.val < k.val, A i l * upper A l j := by
      refine Finset.sum_congr rfl fun l hl => ?_
      have hlk : l < k := Fin.lt_def.mpr (Finset.mem_filter.mp hl).2
      rw [hupper l hlk.le, h.left i l hki hlk]
    rw [hsum, upper]
    rcases Nat.lt_trichotomy j.val k.val with hjk | hjk | hjk
    · rw [if_neg (by rw [Fin.le_def]; omega), if_neg (by omega),
        if_neg (by omega)]
      ring
    · obtain rfl : j = k := Fin.ext hjk
      rw [if_pos le_rfl, if_neg (by omega), if_pos le_rfl,
        h.multiplier i hki]
      ring
    · rw [if_pos (Fin.le_def.mpr hjk.le), if_pos (Nat.succ_le_of_lt hjk),
        if_pos hjk.le,
        h.active i j hki (Fin.lt_def.mpr hjk)]
      ring

-- ================================================================ solving

/-- The upper factor against a vector: the diagonal term and those behind
it. -/
theorem upper_sum (A : Fin n → Fin n → K) (x : Fin n → K) (i : Fin n) :
    ∑ j, upper A i j * x j = A i i * x i + ∑ j with i < j, A i j * x j := by
  have hset : (Finset.univ.filter fun j : Fin n => i ≤ j)
      = insert i (Finset.univ.filter fun j : Fin n => i < j) := by
    ext j
    simp only [Finset.mem_filter, Finset.mem_univ, true_and,
      Finset.mem_insert]
    rw [le_iff_eq_or_lt, eq_comm]
  have hnotMem : i ∉ Finset.univ.filter fun j : Fin n => i < j := by simp
  rw [← Finset.sum_insert (f := fun j => A i j * x j) hnotMem, ← hset,
    Finset.sum_filter]
  refine Finset.sum_congr rfl fun j _ => ?_
  rw [upper, ite_mul, zero_mul]

/-- Forward and back substitution through the packed array solve the
system of the matrix it stands for. -/
theorem packed_solve {A : Fin n → Fin n → K} {c y x : Fin n → K}
    (hdiag : ∀ i, A i i ≠ 0)
    (hy : ∀ i, y i = c i - ∑ j with j < i, A i j * y j)
    (hx : ∀ i, x i = (y i - ∑ j with i < j, A i j * x j) / A i i)
    (i : Fin n) : ∑ j, packed n A i j * x j = c i := by
  have hback : ∀ l, ∑ j, upper A l j * x j = y l := by
    intro l
    rw [upper_sum, hx l, mul_div_cancel₀ _ (hdiag l)]
    ring
  calc ∑ j, packed n A i j * x j
      = ∑ j, ((∑ l with l < i, A i l * upper A l j) * x j
          + upper A i j * x j) := by
        refine Finset.sum_congr rfl fun j _ => ?_
        rw [packed_done, add_mul]
    _ = (∑ l with l < i, A i l * ∑ j, upper A l j * x j)
          + ∑ j, upper A i j * x j := by
        rw [Finset.sum_add_distrib]
        congr 1
        simp only [Finset.sum_mul, Finset.mul_sum]
        rw [Finset.sum_comm]
        refine Finset.sum_congr rfl fun l _ => ?_
        refine Finset.sum_congr rfl fun j _ => ?_
        ring
    _ = (∑ l with l < i, A i l * y l) + y i := by
        rw [hback i]
        congr 1
        refine Finset.sum_congr rfl fun l _ => ?_
        rw [hback l]
    _ = c i := by
        rw [hy i]
        ring

end EdgeIpc.Lib
