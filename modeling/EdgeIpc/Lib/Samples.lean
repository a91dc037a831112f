/-
Equally spaced samples of a periodic function. `n` samples a period, from
any phase `x` on, are the points `x + j / n`; a window of half-width `r`
about every integer is met by those of them that are nearer than `r` to an
integer.

Scaled by `n` the samples are integers, taken modulo `n`, and the window
is one open interval of length `2 n r` (`near_iff_residue`). As long as
the windows do not overlap each residue is met once, so that the samples
in the window are as many as the integers in the interval, which are its
length up to one (`card_between`, `card_near`).
-/
import Mathlib.Algebra.Order.Round
import Mathlib.Data.Int.ConditionallyCompleteOrder
import Mathlib.Data.Int.Interval
import Mathlib.Tactic.FieldSimp
import Mathlib.Tactic.Linarith
import Mathlib.Tactic.Ring

namespace EdgeIpc.Lib

variable {K : Type} [Field K] [LinearOrder K] [IsStrictOrderedRing K]
  [FloorRing K]

-- ================================================ integers in an interval

/-- The integers strictly between two bounds. -/
noncomputable def between (lo hi : K) : Finset ℤ := Finset.Ioo ⌊lo⌋ ⌈hi⌉

omit [IsStrictOrderedRing K] in
theorem mem_between {lo hi : K} {m : ℤ} :
    m ∈ between lo hi ↔ lo < m ∧ (m : K) < hi := by
  rw [between, Finset.mem_Ioo, Int.floor_lt, Int.lt_ceil]

/-- They are as many as the interval is long, up to one. -/
theorem card_between {lo hi : K} (h : lo ≤ hi) :
    |((between lo hi).card : K) - (hi - lo)| ≤ 1 := by
  have hcard : ((between lo hi).card : ℤ) = max (⌈hi⌉ - ⌊lo⌋ - 1) 0 := by
    rw [between, Int.card_Ioo, Int.toNat_eq_max]
  have hcast : ((between lo hi).card : K)
      = max ((⌈hi⌉ : K) - ⌊lo⌋ - 1) 0 := by
    have := congrArg (Int.cast (R := K)) hcard
    push_cast at this
    exact this
  have hlo := Int.floor_le lo
  have hlo' := Int.lt_floor_add_one lo
  have hhi := Int.le_ceil hi
  have hhi' := Int.ceil_lt_add_one hi
  rw [hcast, abs_le]
  constructor
  · have := le_max_left ((⌈hi⌉ : K) - ⌊lo⌋ - 1) 0
    linarith
  · have : max ((⌈hi⌉ : K) - ⌊lo⌋ - 1) 0 ≤ hi - lo + 1 :=
      max_le (by linarith) (by linarith)
    linarith

-- ================================================================ residues

/-- Integers of an interval no longer than `n` differ modulo `n`. -/
theorem residue_injOn {n : ℕ} {lo hi : K} (h : hi - lo ≤ n) :
    Set.InjOn (fun m : ℤ => (m % n).toNat) (between lo hi) := by
  intro a ha b hb heq
  obtain ⟨hlo, hhi⟩ := mem_between.mp ha
  obtain ⟨hlo', hhi'⟩ := mem_between.mp hb
  have hn : (0 : ℤ) < n := by
    have : (0 : K) < n := by linarith
    exact_mod_cast this
  have hmod : a % n = b % n := by
    have hna := Int.emod_nonneg a hn.ne'
    have hnb := Int.emod_nonneg b hn.ne'
    dsimp only at heq
    omega
  have hclose : |a - b| < n := by
    have : |((a - b : ℤ) : K)| < n := by
      push_cast
      rw [abs_lt]
      constructor <;> linarith
    exact_mod_cast this
  have hdvd : (n : ℤ) ∣ a - b := Int.dvd_of_emod_eq_zero
    (Int.emod_eq_emod_iff_emod_sub_eq_zero.mp hmod)
  have := Int.eq_zero_of_abs_lt_dvd hdvd hclose
  omega

/-- Sample `j` is in the window if one of the integers it stands for is in
the interval. -/
theorem near_iff_residue {n j : ℕ} (hj : j < n) (x r : K) :
    |x + j / n - round (x + j / n : K)| < r
      ↔ ∃ m ∈ between (-(n * x) - n * r) (-(n * x) + n * r),
        (m % n).toNat = j := by
  have hn : (0 : K) < n := by exact_mod_cast (Nat.zero_le j).trans_lt hj
  -- the distance to an integer, scaled
  have hscale : ∀ z m : ℤ, m = j - n * z →
      (|x + j / n - z| < r
        ↔ m ∈ between (-(n * x) - n * r) (-(n * x) + n * r)) := by
    rintro z m rfl
    rw [mem_between, ← mul_lt_mul_iff_right₀ hn, ← abs_of_pos hn, ← abs_mul,
      abs_of_pos hn, abs_lt]
    have hsum : (n : K) * (x + j / n - z)
        = n * x + ((j - n * z : ℤ) : K) := by
      push_cast
      field_simp
      ring
    rw [hsum]
    constructor <;> rintro ⟨h, h'⟩ <;> constructor <;> linarith
  constructor
  · intro h
    refine ⟨j - n * round (x + j / n : K), (hscale _ _ rfl).mp h, ?_⟩
    rw [Int.sub_mul_emod_self_left, Int.emod_eq_of_lt (by omega) (by omega)]
    rfl
  · rintro ⟨m, hm, hmod⟩
    have hdiv : m = j - n * -(m / n) := by
      have hnonneg := Int.emod_nonneg m (b := n) (by omega)
      have := Int.emod_add_mul_ediv m n
      rw [mul_neg]
      omega
    exact (round_le _ _).trans_lt ((hscale _ m hdiv).mpr hm)

/-- Of `n` samples a period, those in a window are its share of them, up to
one. -/
theorem card_near {n : ℕ} (hn : 0 < n) (x : K) {r : K} (hr : 0 ≤ r)
    (hr' : 2 * r ≤ 1) :
    |(((Finset.range n).filter fun j : ℕ =>
        |x + j / n - round (x + j / n : K)| < r).card : K) - n * (2 * r)|
      ≤ 1 := by
  have hn' : (0 : K) < n := by exact_mod_cast hn
  have himage : ((Finset.range n).filter fun j : ℕ =>
      |x + j / n - round (x + j / n : K)| < r)
      = (between (-(n * x) - n * r) (-(n * x) + n * r)).image
        fun m : ℤ => (m % n).toNat := by
    ext j
    rw [Finset.mem_filter, Finset.mem_image, Finset.mem_range]
    constructor
    · rintro ⟨hj, hnear⟩
      exact (near_iff_residue hj x r).mp hnear
    · rintro ⟨m, hm, hmod⟩
      have hj : j < n := by
        have := Int.emod_lt_of_pos m (b := n) (by omega)
        omega
      exact ⟨hj, (near_iff_residue hj x r).mpr ⟨m, hm, hmod⟩⟩
  have hlength : -(n * x) + n * r - (-(n * x) - n * r) = n * (2 * r) := by
    ring
  have hshort : -(n * x) + n * r - (-(n * x) - n * r) ≤ n := by
    rw [hlength]
    exact mul_le_of_le_one_right hn'.le hr'
  have hnonneg : 0 ≤ n * r := mul_nonneg hn'.le hr
  rw [himage, Finset.card_image_of_injOn (residue_injOn hshort), ← hlength]
  exact card_between (by linarith)

end EdgeIpc.Lib
