/-
Saturation: a value held between two bounds, and a sum that is held there
after every summand.

`clamp` never takes two values further apart (`abs_clamp_sub_le`), so two
saturating sums of the same summands never drift apart. Over summands of
one sign a saturating sum saturates at most once, and is the plain sum cut
off at the end (`accumulate_nonneg`, `accumulate_nonpos`).
-/
import Mathlib.Algebra.Order.BigOperators.Group.List
import Mathlib.Algebra.Order.Group.MinMax

namespace EdgeIpc.Lib

variable {K : Type _} [LinearOrder K]

/-- `x`, or the bound it is beyond. -/
def clamp (lo hi x : K) : K := max lo (min hi x)

theorem clamp_mem {lo hi : K} (h : lo ≤ hi) (x : K) :
    lo ≤ clamp lo hi x ∧ clamp lo hi x ≤ hi :=
  ⟨le_max_left _ _, max_le h (min_le_left _ _)⟩

theorem clamp_of_le {lo hi x : K} (h : lo ≤ x) (hhi : lo ≤ hi) :
    clamp lo hi x = min hi x :=
  max_eq_right (le_min hhi h)

theorem clamp_of_ge {lo hi x : K} (h : x ≤ hi) : clamp lo hi x = max lo x := by
  rw [clamp, min_eq_right h]

-- ======================================================== saturating sums

variable [AddCommGroup K]

/-- `x` plus the summands, held between the bounds after each. -/
def accumulate (lo hi : K) (ds : List K) (x : K) : K :=
  ds.foldl (fun x d => clamp lo hi (x + d)) x

theorem accumulate_mem {lo hi : K} (h : lo ≤ hi) (ds : List K) {x : K}
    (hx : lo ≤ x ∧ x ≤ hi) :
    lo ≤ accumulate lo hi ds x ∧ accumulate lo hi ds x ≤ hi := by
  induction ds generalizing x with
  | nil => exact hx
  | cons d ds ih => exact ih (clamp_mem h _)

theorem accumulate_append (lo hi : K) (ds es : List K) (x : K) :
    accumulate lo hi (ds ++ es) x
      = accumulate lo hi es (accumulate lo hi ds x) :=
  List.foldl_append

variable [IsOrderedAddMonoid K]

theorem abs_clamp_sub_le (lo hi x y : K) :
    |clamp lo hi x - clamp lo hi y| ≤ |x - y| := by
  have hmax := abs_max_sub_max_le_max lo (min hi x) lo (min hi y)
  have hmin := abs_min_sub_min_le_max hi x hi y
  rw [sub_self, abs_zero,
    max_eq_right (abs_nonneg (min hi x - min hi y))] at hmax
  rw [sub_self, abs_zero, max_eq_right (abs_nonneg (x - y))] at hmin
  exact hmax.trans hmin

theorem abs_accumulate_sub_le (lo hi : K) (ds : List K) (x y : K) :
    |accumulate lo hi ds x - accumulate lo hi ds y| ≤ |x - y| := by
  induction ds generalizing x y with
  | nil => exact le_rfl
  | cons d ds ih =>
      calc |accumulate lo hi (d :: ds) x - accumulate lo hi (d :: ds) y|
          ≤ |clamp lo hi (x + d) - clamp lo hi (y + d)| := ih _ _
        _ ≤ |(x + d) - (y + d)| := abs_clamp_sub_le _ _ _ _
        _ = |x - y| := by rw [add_sub_add_right_eq_sub]

/-- Summands that are not negative only ever meet the upper bound. -/
theorem accumulate_nonneg {lo hi : K} (ds : List K)
    (hds : ∀ d ∈ ds, 0 ≤ d) {x : K} (hx : lo ≤ x ∧ x ≤ hi) :
    accumulate lo hi ds x = min hi (x + ds.sum) := by
  induction ds generalizing x with
  | nil =>
      rw [List.sum_nil, add_zero]
      exact (min_eq_right hx.2).symm
  | cons d ds ih =>
      obtain ⟨hd, hds⟩ := List.forall_mem_cons.mp hds
      have hle : lo ≤ x + d := hx.1.trans (le_add_of_nonneg_right hd)
      have hlohi := hx.1.trans hx.2
      have hsum : 0 ≤ ds.sum := List.sum_nonneg hds
      show accumulate lo hi ds (clamp lo hi (x + d)) = _
      rw [ih hds (clamp_mem hlohi _), clamp_of_le hle hlohi, List.sum_cons,
        ← add_assoc, ← min_add_add_right, ← min_assoc,
        min_eq_left (le_add_of_nonneg_right hsum)]

theorem sum_nonpos {ds : List K} (hds : ∀ d ∈ ds, d ≤ 0) : ds.sum ≤ 0 := by
  simpa using List.sum_le_card_nsmul ds 0 hds

/-- Summands that are not positive only ever meet the lower bound. -/
theorem accumulate_nonpos {lo hi : K} (ds : List K)
    (hds : ∀ d ∈ ds, d ≤ 0) {x : K} (hx : lo ≤ x ∧ x ≤ hi) :
    accumulate lo hi ds x = max lo (x + ds.sum) := by
  induction ds generalizing x with
  | nil =>
      rw [List.sum_nil, add_zero]
      exact (max_eq_right hx.1).symm
  | cons d ds ih =>
      obtain ⟨hd, hds⟩ := List.forall_mem_cons.mp hds
      have hle : x + d ≤ hi := (add_le_of_nonpos_right hd).trans hx.2
      have hlohi := hx.1.trans hx.2
      have hsum : ds.sum ≤ 0 := sum_nonpos hds
      show accumulate lo hi ds (clamp lo hi (x + d)) = _
      rw [ih hds (clamp_mem hlohi _), clamp_of_ge hle, List.sum_cons,
        ← add_assoc, ← max_add_add_right, ← max_assoc,
        max_eq_left (add_le_of_nonpos_right hsum)]

/-- Summands of one sign that add up to the distance of the bounds: where
the sum began makes no difference. -/
theorem accumulate_forgets {lo hi : K} (ds : List K)
    (hsign : (∀ d ∈ ds, 0 ≤ d) ∨ ∀ d ∈ ds, d ≤ 0)
    (hlong : hi - lo ≤ |ds.sum|) {x y : K} (hx : lo ≤ x ∧ x ≤ hi)
    (hy : lo ≤ y ∧ y ≤ hi) : accumulate lo hi ds x = accumulate lo hi ds y := by
  rcases hsign with hds | hds
  · rw [abs_of_nonneg (List.sum_nonneg hds)] at hlong
    have hfull : ∀ z, lo ≤ z → min hi (z + ds.sum) = hi := by
      intro z hz
      exact min_eq_left (sub_le_iff_le_add'.mp
        ((sub_le_sub_left hz hi).trans hlong))
    rw [accumulate_nonneg ds hds hx, accumulate_nonneg ds hds hy,
      hfull x hx.1, hfull y hy.1]
  · have hsum : ds.sum ≤ 0 := sum_nonpos hds
    rw [abs_of_nonpos hsum] at hlong
    have hempty : ∀ z, z ≤ hi → max lo (z + ds.sum) = lo := by
      intro z hz
      apply max_eq_left
      have hle : z - lo ≤ -ds.sum := (sub_le_sub_right hz lo).trans hlong
      rw [← sub_neg_eq_add]
      exact sub_le_comm.mp hle
    rw [accumulate_nonpos ds hds hx, accumulate_nonpos ds hds hy,
      hempty x hx.2, hempty y hy.2]

end EdgeIpc.Lib
