/-
A driven ladder of two lossy coils and a capacitor between them, stepped
by the midpoint rule, over any ordered field.

The first coil `L` with its resistance `R₁` leads from a source to the
capacitor `C`, the second, `M` with `R₂`, from there to another source;
`i`, `v` and `j` are the current of the first, the voltage and the
current of the second.

# Boundedness

The stored energy cannot show that bounded sources keep the ladder
bounded: the capacitor has no loss of its own, so a step at which both
currents have mean 0 loses nothing. The form `lyapunov` adds a small
multiple of `i * v` to the energy, and with it every step loses something
in all three (`loss_le`). Over one step of the midpoint rule a quadratic
form changes by its derivative at the mean, exactly (`lyapunov_change`).
So the form grows only where the means are small, and then what it grows
to is small too (`lyapunov_step`).
-/
import Mathlib.Algebra.Order.Field.Basic
import Mathlib.Tactic.FieldSimp
import Mathlib.Tactic.Linarith
import Mathlib.Tactic.LinearCombination
import Mathlib.Tactic.Positivity
import Mathlib.Tactic.Ring

namespace EdgeIpc.Lib

variable {K : Type _} [Field K] [LinearOrder K]

-- ============================================================== the ladder

/-- The parts of a ladder and the step, with their signs. -/
structure Ladder (K : Type _) [Field K] [LinearOrder K] where
  L : K
  C : K
  M : K
  R₁ : K
  R₂ : K
  dt : K
  L_pos : 0 < L
  C_pos : 0 < C
  M_pos : 0 < M
  R₁_pos : 0 < R₁
  R₂_pos : 0 < R₂
  dt_pos : 0 < dt

namespace Ladder

/-- One step of the midpoint rule, with the means `e` and `f` of the two
sources. -/
structure Midpoint (l : Ladder K) (e f : K) (i v j i' v' j' : K) : Prop where
  L : l.L * (i' - i) = l.dt * (e - l.R₁ * ((i + i') / 2) - (v + v') / 2)
  C : l.C * (v' - v) = l.dt * ((i + i') / 2 - (j + j') / 2)
  M : l.M * (j' - j) = l.dt * ((v + v') / 2 - l.R₂ * ((j + j') / 2) - f)

/-- Twice the energy, and a little of `i * v`. -/
def lyapunov (l : Ladder K) (ε i v j : K) : K :=
  l.L * i ^ 2 + l.C * v ^ 2 + l.M * j ^ 2 + ε * l.L * l.C * (i * v + i * v)

/-- Half of what the form changes by, at the means `x`, `y` and `z`. -/
def rate (l : Ladder K) (ε e f x y z : K) : K :=
  x * (e - l.R₁ * x - y) + y * (x - z) + z * (y - l.R₂ * z - f)
    + ε * (l.C * y * (e - l.R₁ * x - y) + l.L * x * (x - z))

/-- How much of `i * v` is little enough. -/
structure Small (l : Ladder K) (ε : K) : Prop where
  pos : 0 < ε
  first : ε * (3 * l.L / 2 + l.C * l.R₁ ^ 2) ≤ l.R₁ / 4
  second : ε * l.L ≤ l.R₂ / 2
  definite : ε ^ 2 * l.L * l.C ≤ 1 / 4

variable [IsStrictOrderedRing K] (l : Ladder K) {ε e f : K}

theorem exists_small : ∃ ε, l.Small ε := by
  have hL := l.L_pos
  have hC := l.C_pos
  have hR₁ := l.R₁_pos
  have hR₂ := l.R₂_pos
  have hfirst : 0 < 3 * l.L / 2 + l.C * l.R₁ ^ 2 := by positivity
  have hLC : 0 < 2 * (1 + l.L * l.C) := by positivity
  refine ⟨min (min (l.R₁ / 4 / (3 * l.L / 2 + l.C * l.R₁ ^ 2))
    (l.R₂ / 2 / l.L)) (1 / (2 * (1 + l.L * l.C))), ?_⟩
  set ε := min (min (l.R₁ / 4 / (3 * l.L / 2 + l.C * l.R₁ ^ 2))
    (l.R₂ / 2 / l.L)) (1 / (2 * (1 + l.L * l.C))) with hε
  have hpos : 0 < ε := by
    refine lt_min (lt_min ?_ ?_) ?_ <;> positivity
  have hle : ε ≤ 1 / (2 * (1 + l.L * l.C)) := min_le_right _ _
  refine ⟨hpos, (le_div_iff₀ hfirst).mp ((min_le_left _ _).trans
    (min_le_left _ _)), (le_div_iff₀ hL).mp ((min_le_left _ _).trans
    (min_le_right _ _)), ?_⟩
  -- `ε * (1 + L * C) ≤ 1 / 2`, so the square of the one is at most that
  -- of the other
  have hhalf : ε * (1 + l.L * l.C) ≤ 1 / 2 := by
    have h := (le_div_iff₀ hLC).mp hle
    linarith
  have hprod : 0 < l.L * l.C := mul_pos hL hC
  have hsq : (ε * (1 + l.L * l.C)) ^ 2 ≤ (1 / 2) ^ 2 :=
    pow_le_pow_left₀ (by positivity) hhalf 2
  have hrest : 0 ≤ ε ^ 2 * (1 + l.L * l.C + (l.L * l.C) ^ 2) := by positivity
  calc ε ^ 2 * l.L * l.C
      = (ε * (1 + l.L * l.C)) ^ 2
        - ε ^ 2 * (1 + l.L * l.C + (l.L * l.C) ^ 2) := by ring
    _ ≤ 1 / 4 := by linarith

-- ================================================================ one step

variable {l} {i v j i' v' j' : K}

/-- The midpoint rule makes the change exact. -/
theorem lyapunov_change
    (h : l.Midpoint e f i v j i' v' j') :
    l.lyapunov ε i' v' j' = l.lyapunov ε i v j
      + 2 * l.dt * l.rate ε e f ((i + i') / 2) ((v + v') / 2)
        ((j + j') / 2) := by
  unfold lyapunov rate
  linear_combination (i + i' + ε * l.C * (v + v')) * h.L
    + (v + v' + ε * l.L * (i + i')) * h.C + (j + j') * h.M

/-- What is lost at the means, and what the sources can add. -/
theorem loss_le (hε : l.Small ε) (e f x y z : K) :
    l.R₁ / 2 * x ^ 2 + l.R₂ / 2 * z ^ 2 + ε * l.C / 2 * y ^ 2
        + l.rate ε e f x y z
      ≤ (1 / l.R₁ + ε * l.C) * e ^ 2 + 1 / l.R₂ * f ^ 2 := by
  obtain ⟨hpos, hfirst, hsecond, -⟩ := hε
  have hL := l.L_pos
  have hC := l.C_pos
  have hR₁ := l.R₁_pos
  have hR₂ := l.R₂_pos
  -- each mixed term is at most the squares of its two factors
  have hyx : 0 ≤ ε * l.C * (y / 2 + l.R₁ * x) ^ 2 := by positivity
  have hxz : 0 ≤ ε * l.L * (x + z) ^ 2 / 2 := by positivity
  have hex : 0 ≤ 1 / l.R₁ * e ^ 2 - e * x + l.R₁ * x ^ 2 / 4 := by
    have hsq : 0 ≤ (e - l.R₁ * x / 2) ^ 2 / l.R₁ := by positivity
    convert hsq using 1
    field_simp
    ring
  have hfz : 0 ≤ 1 / l.R₂ * f ^ 2 + f * z + l.R₂ * z ^ 2 / 4 := by
    have hsq : 0 ≤ (f + l.R₂ * z / 2) ^ 2 / l.R₂ := by positivity
    convert hsq using 1
    field_simp
    ring
  have hey : 0 ≤ ε * l.C * (e - y / 2) ^ 2 := by positivity
  have hx := mul_le_mul_of_nonneg_right hfirst (sq_nonneg x)
  have hz := mul_le_mul_of_nonneg_right hsecond (sq_nonneg z)
  unfold rate
  linarith

/-- The form controls all three quantities. -/
theorem le_lyapunov (hε : l.Small ε) (i v j : K) :
    l.L / 2 * i ^ 2 + l.C / 2 * v ^ 2 + l.M * j ^ 2
      ≤ l.lyapunov ε i v j := by
  have hL := l.L_pos
  have hC := l.C_pos
  have hsq : 0 ≤ l.L * (i / 2 + ε * l.C * v) ^ 2 := by positivity
  have hdef : l.C * v ^ 2 * (ε ^ 2 * l.L * l.C) ≤ l.C * v ^ 2 * (1 / 4) :=
    mul_le_mul_of_nonneg_left hε.definite (by positivity)
  unfold lyapunov
  linarith

-- =============================================================== the bound

omit l in
/-- A sum of squares with positive weights bounds what is squared. -/
theorem exists_bound {a b c : K} (ha : 0 < a) (hb : 0 < b) (hc : 0 < c)
    (w : K) :
    ∃ B, ∀ x y z, a * x ^ 2 + b * y ^ 2 + c * z ^ 2 ≤ w →
      |x| ≤ B ∧ |y| ≤ B ∧ |z| ≤ B := by
  have hone : ∀ {d q : K}, 0 < d → d * q ^ 2 ≤ w → |q| ≤ 1 + |w| / d := by
    intro d q hd hq
    have hw : q ^ 2 ≤ |w| / d := by
      rw [le_div_iff₀ hd, mul_comm]
      exact hq.trans (le_abs_self w)
    have hnonneg : 0 ≤ |w| / d := (sq_nonneg q).trans hw
    refine abs_le_of_sq_le_sq ?_ (by linarith)
    have hsq : 0 ≤ (|w| / d) ^ 2 := sq_nonneg _
    linarith
  have hA : 0 ≤ |w| / a := by positivity
  have hB : 0 ≤ |w| / b := by positivity
  have hC : 0 ≤ |w| / c := by positivity
  refine ⟨1 + (|w| / a + |w| / b + |w| / c), fun x y z h => ?_⟩
  have hx : 0 ≤ a * x ^ 2 := by positivity
  have hy : 0 ≤ b * y ^ 2 := by positivity
  have hz : 0 ≤ c * z ^ 2 := by positivity
  refine ⟨(hone ha ?_).trans ?_, (hone hb ?_).trans ?_,
    (hone hc ?_).trans ?_⟩ <;> linarith

omit l in
theorem sq_le_of_abs_le {q B : K} (h : |q| ≤ B) : q ^ 2 ≤ B ^ 2 :=
  sq_le_sq' (abs_le.mp h).1 (abs_le.mp h).2

/-- The form bounds what the ladder holds, -/
theorem exists_bound_of_lyapunov (hε : l.Small ε) (w : K) :
    ∃ B, ∀ i v j, l.lyapunov ε i v j ≤ w → |i| ≤ B ∧ |v| ≤ B ∧ |j| ≤ B := by
  obtain ⟨B, hB⟩ := exists_bound (half_pos l.L_pos) (half_pos l.C_pos)
    l.M_pos w
  exact ⟨B, fun i v j h => hB i v j ((le_lyapunov hε i v j).trans h)⟩

/-- and is bounded by it. -/
theorem lyapunov_le (hε : l.Small ε) {B : K} (hi : |i| ≤ B) (hv : |v| ≤ B)
    (hj : |j| ≤ B) :
    l.lyapunov ε i v j
      ≤ (l.L + l.C + l.M + 2 * (ε * l.L * l.C)) * B ^ 2 := by
  have hpos := hε.pos
  have hL := l.L_pos
  have hC := l.C_pos
  have hM := l.M_pos
  have hiv : i * v ≤ B ^ 2 := by
    calc i * v ≤ |i * v| := le_abs_self _
      _ = |i| * |v| := abs_mul i v
      _ ≤ B * B := mul_le_mul hi hv (abs_nonneg v) ((abs_nonneg i).trans hi)
      _ = B ^ 2 := (sq B).symm
  have hLi := mul_le_mul_of_nonneg_left (sq_le_of_abs_le hi) hL.le
  have hCv := mul_le_mul_of_nonneg_left (sq_le_of_abs_le hv) hC.le
  have hMj := mul_le_mul_of_nonneg_left (sq_le_of_abs_le hj) hM.le
  have hmix := mul_le_mul_of_nonneg_left hiv
    (show 0 ≤ ε * l.L * l.C by positivity)
  unfold lyapunov
  linarith

/-- A step from small means, under small sources, ends small. -/
theorem exists_bound_after (l : Ladder K) (A U : K) :
    ∃ B, ∀ {e f i v j i' v' j' : K}, l.Midpoint e f i v j i' v' j' →
      |e| ≤ U → |f| ≤ U → |(i + i') / 2| ≤ A → |(v + v') / 2| ≤ A →
      |(j + j') / 2| ≤ A → |i'| ≤ B ∧ |v'| ≤ B ∧ |j'| ≤ B := by
  have hR₁ := l.R₁_pos
  have hR₂ := l.R₂_pos
  -- the new value is the mean and half the change
  have hnew : ∀ {d q q' r S : K}, 0 < d → d * (q' - q) = l.dt * r →
      |(q + q') / 2| ≤ A → |r| ≤ S → |q'| ≤ A + l.dt / d * S := by
    intro d q q' r S hd hq hmean hr
    have hdt := l.dt_pos
    have hchange : (q' - q) / 2 = l.dt / d * (r / 2) := by
      field_simp
      linear_combination hq
    have hhalf : |r / 2| ≤ S := by
      rw [abs_div, abs_two]
      linarith [abs_nonneg r]
    calc |q'| = |(q + q') / 2 + (q' - q) / 2| := by congr 1; ring
      _ ≤ |(q + q') / 2| + |(q' - q) / 2| := abs_add_le _ _
      _ = |(q + q') / 2| + l.dt / d * |r / 2| := by
          rw [hchange, abs_mul, abs_of_pos (div_pos hdt hd)]
      _ ≤ A + l.dt / d * S :=
          add_le_add hmean (mul_le_mul_of_nonneg_left hhalf
            (div_pos hdt hd).le)
  refine ⟨(A + l.dt / l.L * (U + l.R₁ * A + A)) ⊔ (A + l.dt / l.C * (A + A))
    ⊔ (A + l.dt / l.M * (A + l.R₂ * A + U)), ?_⟩
  intro e f i v j i' v' j' h he hf hx hy hz
  have hRx : |l.R₁ * ((i + i') / 2)| ≤ l.R₁ * A := by
    rw [abs_mul, abs_of_pos hR₁]
    exact mul_le_mul_of_nonneg_left hx hR₁.le
  have hRz : |l.R₂ * ((j + j') / 2)| ≤ l.R₂ * A := by
    rw [abs_mul, abs_of_pos hR₂]
    exact mul_le_mul_of_nonneg_left hz hR₂.le
  have hi := hnew l.L_pos h.L hx (((abs_sub _ _).trans
    (add_le_add (abs_sub _ _) le_rfl)).trans
    (add_le_add (add_le_add he hRx) hy))
  have hv := hnew l.C_pos h.C hy ((abs_sub _ _).trans (add_le_add hx hz))
  have hj := hnew l.M_pos h.M hz (((abs_sub _ _).trans
    (add_le_add (abs_sub _ _) le_rfl)).trans
    (add_le_add (add_le_add hy hRz) hf))
  exact ⟨hi.trans (le_sup_left.trans le_sup_left),
    hv.trans (le_sup_right.trans le_sup_left), hj.trans le_sup_right⟩

/-- Under bounded sources no step takes the form beyond a bound of its
own, unless it was there before. -/
theorem lyapunov_step (hε : l.Small ε) (U : K) :
    ∃ c, ∀ {e f i v j i' v' j' : K}, l.Midpoint e f i v j i' v' j' →
      |e| ≤ U → |f| ≤ U →
      l.lyapunov ε i' v' j' ≤ max (l.lyapunov ε i v j) c := by
  have hpos := hε.pos
  have hC := l.C_pos
  have hR₁ := l.R₁_pos
  have hR₂ := l.R₂_pos
  obtain ⟨A, hA⟩ := exists_bound (half_pos hR₁)
    (half_pos (mul_pos hpos hC)) (half_pos hR₂)
    ((1 / l.R₁ + ε * l.C) * U ^ 2 + 1 / l.R₂ * U ^ 2)
  obtain ⟨B, hB⟩ := exists_bound_after l A U
  refine ⟨(l.L + l.C + l.M + 2 * (ε * l.L * l.C)) * B ^ 2, ?_⟩
  intro e f i v j i' v' j' h he hf
  rcases le_or_gt (l.lyapunov ε i' v' j') (l.lyapunov ε i v j) with hle | hgt
  · exact hle.trans (le_max_left _ _)
  · -- where the form grows the sources outdo the losses
    have hrate : 0 < l.rate ε e f ((i + i') / 2) ((v + v') / 2)
        ((j + j') / 2) := by
      rw [lyapunov_change h] at hgt
      exact pos_of_mul_pos_right (by linarith) (mul_pos two_pos l.dt_pos).le
    have hloss := loss_le hε e f ((i + i') / 2) ((v + v') / 2) ((j + j') / 2)
    have he₂ := mul_le_mul_of_nonneg_left (sq_le_of_abs_le he)
      (show 0 ≤ 1 / l.R₁ + ε * l.C by positivity)
    have hf₂ := mul_le_mul_of_nonneg_left (sq_le_of_abs_le hf)
      (show 0 ≤ 1 / l.R₂ by positivity)
    obtain ⟨hx, hy, hz⟩ := hA ((i + i') / 2) ((v + v') / 2) ((j + j') / 2)
      (by linarith)
    obtain ⟨hi, hv, hj⟩ := hB h he hf hx hy hz
    exact (lyapunov_le hε hi hv hj).trans (le_max_right _ _)

end Ladder

end EdgeIpc.Lib
