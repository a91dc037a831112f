/-
Where the injection vector wraps in the synthesised build.

On its way to its last assignment an entry is a sum of history currents,
and comes out exactly (`nortonUpdate_entries`). So each entry is the one
assignment of its defining sum, and is right up to truncation exactly if
the sum is in the range of the type. With the default parameters the sums
at the capacitors and at the grid are; the sum at an inverter terminal is
unless the upper switch is closed, when the DC bus injects
100 * 400 = 40000 A into a type that ends at 32768 (`noWrap_iff`).
-/
import EdgeIpc.Vsc.HlsSynth
import EdgeIpc.Vsc.Proofs.Nodal
import Mathlib.Tactic.FinCases
import Mathlib.Tactic.NormNum.OfScientific

namespace EdgeIpc.Vsc.Hls.Synth

open Lib Lib.Fixed

variable {vSrc : Fin 3 → ApFixed → ApFixed} {hist : Fin 9 → ApFixed}
  {gate : BitVec 6} {t : ApFixed} {p : FixedParams ApFixed}

-- ============================================================= the range

theorem inRange_apFixed {q : ℚ} :
    InRange 32 16 q ↔ -32768 ≤ q ∧ q < 32768 := by
  unfold InRange
  constructor
  · rintro ⟨hlo, hhi⟩
    constructor <;> linarith
  · rintro ⟨hlo, hhi⟩
    constructor <;> linarith

/-- An assignment of a sum of history currents loses nothing. -/
theorem toRat_ofRat_small {q : ℚ} (hg : OnGrid 16 q) (hq : |q| ≤ 600) :
    (ofRat q : ApFixed).toRat = q := by
  obtain ⟨hlo, hhi⟩ := abs_le.mp hq
  refine toRat_ofRat (by decide) hg (inRange_apFixed.mpr ⟨?_, ?_⟩) <;>
    linarith

theorem ofRat_zero_toRat : (ofRat 0 : ApFixed).toRat = 0 :=
  toRat_ofRat_small ⟨0, by norm_num⟩ (by norm_num)

-- =========================================================== the parameters

/-- What the kernel computes with. The image of `G_off` is 0. -/
theorem defaultParams_values :
    defaultParams.Gon.toRat = 100 ∧ defaultParams.Goff.toRat = 0
      ∧ defaultParams.Gvs.toRat = 100 ∧ defaultParams.Vdc.toRat = 400 := by
  decide +kernel

/-- The samples the kernel computes are of magnitude at most the grid
peak, if the sine core's are of magnitude at most 1. -/
theorem vSource_le {sine : Fin 3 → ApFixed → ApFixed} {k : Fin 3}
    (hsine : |(sine k t).toRat| ≤ 1) :
    |(vSource sine k t).toRat| ≤ gridPeak := by
  have hpeak : VGridPeak.toRat ≤ gridPeak ∧ 0 ≤ VGridPeak.toRat
      ∧ VGridPeak.toRat < 326 := by
    decide +kernel
  obtain ⟨hpeak, hpos, hlt⟩ := hpeak
  have hq : |VGridPeak.toRat * (sine k t).toRat| ≤ VGridPeak.toRat := by
    rw [abs_mul, abs_of_nonneg hpos]
    exact mul_le_of_le_one_right hpos hsine
  obtain ⟨hlo, hhi⟩ := abs_le.mp hq
  have hr : InRange 32 16 (VGridPeak.toRat * (sine k t).toRat) := by
    rw [inRange_apFixed]
    constructor <;> linarith
  have hle := ((truncates_ofRat_iff (by decide)).mpr hr).1
  have hge := le_toRat_ofRat (by decide) (onGrid_toRat VGridPeak).neg hlo hr
  unfold vSource
  rw [abs_le]
  constructor <;> linarith

-- ================================================================ one entry

/-- The sums, entry by entry. -/
theorem exactUpdate_entries (k : Fin 3) :
    exactUpdate vSrc hist gate t p (inv k)
        = 0 + -(hist (inv k)).toRat
          + (if (gate.setWidth 8).getLsbD (2 * k) then p.Gon.toRat
              else p.Goff.toRat) * p.Vdc.toRat
      ∧ exactUpdate vSrc hist gate t p (cap k)
        = 0 + (hist (inv k)).toRat + -(hist (cap k)).toRat
          + -(hist (grid k)).toRat
      ∧ exactUpdate vSrc hist gate t p (grid k)
        = 0 + (hist (grid k)).toRat + p.Gvs.toRat * (vSrc k t).toRat := by
  fin_cases k <;> exact ⟨rfl, rfl, rfl⟩

/-- The assignments, entry by entry. -/
theorem nortonUpdate_entries (k : Fin 3) :
    nortonUpdate vSrc hist gate t p (inv k)
        = .ofRat ((ofRat ((ofRat 0 : ApFixed).toRat
            - (hist (inv k)).toRat) : ApFixed).toRat
          + (if (gate.setWidth 8).getLsbD (2 * k) then p.Gon else p.Goff).toRat
            * p.Vdc.toRat)
      ∧ nortonUpdate vSrc hist gate t p (cap k)
        = .ofRat ((ofRat ((ofRat ((ofRat 0 : ApFixed).toRat
            + (hist (inv k)).toRat) : ApFixed).toRat
          - (hist (cap k)).toRat) : ApFixed).toRat - (hist (grid k)).toRat)
      ∧ nortonUpdate vSrc hist gate t p (grid k)
        = .ofRat ((ofRat ((ofRat 0 : ApFixed).toRat
            + (hist (grid k)).toRat) : ApFixed).toRat
          + p.Gvs.toRat * (vSrc k t).toRat) := by
  fin_cases k <;> exact ⟨rfl, rfl, rfl⟩

/-- Before its last assignment an entry is a sum of history currents, and
exact: each entry is the one assignment of its defining sum. -/
theorem nortonUpdate_ofRat (hh : ∀ i, |(hist i).toRat| ≤ 200) (i : Fin 9) :
    nortonUpdate vSrc hist gate t p i
      = .ofRat (exactUpdate vSrc hist gate t p i) := by
  have hg : ∀ i, OnGrid 16 (hist i).toRat := fun i => onGrid_toRat (hist i)
  rcases node_cases i with ⟨k, rfl⟩ | ⟨k, rfl⟩ | ⟨k, rfl⟩
  · have hsum : (ofRat (0 - (hist (inv k)).toRat) : ApFixed).toRat
        = 0 + -(hist (inv k)).toRat := by
      rw [zero_sub, zero_add]
      refine toRat_ofRat_small (hg _).neg ?_
      rw [abs_neg]
      linarith [hh (inv k)]
    rw [(nortonUpdate_entries k).1, (exactUpdate_entries k).1,
      ofRat_zero_toRat, hsum, apply_ite toRat]
  · have hone : (ofRat (0 + (hist (inv k)).toRat) : ApFixed).toRat
        = 0 + (hist (inv k)).toRat := by
      rw [zero_add]
      exact toRat_ofRat_small (hg _) (by linarith [hh (inv k)])
    have htwo : (ofRat (0 + (hist (inv k)).toRat - (hist (cap k)).toRat)
        : ApFixed).toRat
        = 0 + (hist (inv k)).toRat + -(hist (cap k)).toRat := by
      rw [zero_add, sub_eq_add_neg]
      refine toRat_ofRat_small ((hg _).add (hg _).neg) ?_
      have habs := abs_add_le (hist (inv k)).toRat (-(hist (cap k)).toRat)
      rw [abs_neg] at habs
      linarith [hh (inv k), hh (cap k)]
    rw [(nortonUpdate_entries k).2.1, (exactUpdate_entries k).2.1,
      ofRat_zero_toRat, hone, htwo, sub_eq_add_neg]
  · have hone : (ofRat (0 + (hist (grid k)).toRat) : ApFixed).toRat
        = 0 + (hist (grid k)).toRat := by
      rw [zero_add]
      exact toRat_ofRat_small (hg _) (by linarith [hh (grid k)])
    rw [(nortonUpdate_entries k).2.2, (exactUpdate_entries k).2.2,
      ofRat_zero_toRat, hone]

-- ================================================================ the sums

section Sums

variable (hh : ∀ i, |(hist i).toRat| ≤ 200)
include hh

theorem inRange_cap (k : Fin 3) :
    InRange 32 16 (exactUpdate vSrc hist gate t defaultParams (cap k)) := by
  have h₁ := abs_le.mp (hh (inv k))
  have h₂ := abs_le.mp (hh (cap k))
  have h₃ := abs_le.mp (hh (grid k))
  rw [(exactUpdate_entries k).2.1, inRange_apFixed]
  constructor <;> linarith

theorem inRange_grid (hv : ∀ k, |(vSrc k t).toRat| ≤ gridPeak) (k : Fin 3) :
    InRange 32 16 (exactUpdate vSrc hist gate t defaultParams (grid k)) := by
  have h₁ := abs_le.mp (hh (grid k))
  have h₂ := abs_le.mp (hv k)
  have hpeak : gridPeak < 325.27 := by
    unfold gridPeak
    norm_num
  norm_num at hpeak
  obtain ⟨-, -, hGvs, -⟩ := defaultParams_values
  rw [(exactUpdate_entries k).2.2, hGvs, inRange_apFixed]
  constructor <;> linarith

theorem inRange_inv_iff (k : Fin 3) :
    InRange 32 16 (exactUpdate vSrc hist gate t defaultParams (inv k))
      ↔ gate.getLsbD (2 * k) = false := by
  have h₁ := abs_le.mp (hh (inv k))
  have hbit : (gate.setWidth 8).getLsbD (2 * k) = gate.getLsbD (2 * k) := by
    rw [BitVec.getLsbD_setWidth, decide_eq_true (by omega), Bool.true_and]
  obtain ⟨hGon, hGoff, -, hVdc⟩ := defaultParams_values
  rw [(exactUpdate_entries k).1, hbit, hGon, hGoff, hVdc, inRange_apFixed]
  cases gate.getLsbD (2 * k) with
  | false =>
      simp only [Bool.false_eq_true, if_false, iff_true]
      constructor <;> linarith
  | true =>
      simp only [if_true, Bool.true_eq_false, iff_false, not_and, not_lt]
      intro _
      linarith

end Sums

-- ============================================================== the theorem

/-- Where does the injection vector wrap? With the images of the default
parameters, for every gate pattern, every history of magnitude at most
200 A and every source sample of magnitude at most the grid peak: each
entry is its defining sum up to truncation exactly if no upper switch is
closed. -/
theorem noWrap_iff (hh : ∀ i, |(hist i).toRat| ≤ 200)
    (hv : ∀ k, |(vSrc k t).toRat| ≤ gridPeak) :
    (∀ i, Truncates (nortonUpdate vSrc hist gate t defaultParams i)
        (exactUpdate vSrc hist gate t defaultParams i))
      ↔ ∀ k : Fin 3, gate.getLsbD (2 * k) = false := by
  have hentry : ∀ i, Truncates (nortonUpdate vSrc hist gate t defaultParams i)
      (exactUpdate vSrc hist gate t defaultParams i)
      ↔ InRange 32 16 (exactUpdate vSrc hist gate t defaultParams i) := by
    intro i
    rw [nortonUpdate_ofRat hh i]
    exact truncates_ofRat_iff (by decide)
  simp only [hentry]
  constructor
  · intro h k
    exact (inRange_inv_iff hh k).mp (h (inv k))
  · intro h i
    rcases node_cases i with ⟨k, rfl⟩ | ⟨k, rfl⟩ | ⟨k, rfl⟩
    · exact (inRange_inv_iff hh k).mpr (h k)
    · exact inRange_cap hh k
    · exact inRange_grid hh hv k

/-- All lower switches closed, the largest currents and the crest of the
source: the largest entry, which is at the grid. -/
theorem noWrap_lower :
    Truncates
      (nortonUpdate (vSource fun _ _ => ofRat 1) (fun _ => ofRat 200)
        0b101010#6 (ofRat 0) defaultParams (grid 0))
      (exactUpdate (vSource fun _ _ => ofRat 1) (fun _ => ofRat 200)
        0b101010#6 (ofRat 0) defaultParams (grid 0)) := by
  refine (noWrap_iff (fun _ => ?_) (fun k => vSource_le ?_)).mpr ?_ (grid 0)
  · decide +kernel
  · decide +kernel
  · decide

/-- One upper switch closed, everything else at rest: 40000 A wrap to
-25536 A. -/
theorem upper_wraps :
    let vSrc := vSource fun _ _ => ofRat 0
    let hist : Fin 9 → ApFixed := fun _ => ofRat 0
    exactUpdate vSrc hist 0b000001#6 (ofRat 0) defaultParams (inv 0) = 40000
      ∧ (nortonUpdate vSrc hist 0b000001#6 (ofRat 0) defaultParams
          (inv 0)).toRat = -25536
      ∧ ¬ Truncates
        (nortonUpdate vSrc hist 0b000001#6 (ofRat 0) defaultParams (inv 0))
        (exactUpdate vSrc hist 0b000001#6 (ofRat 0) defaultParams
          (inv 0)) := by
  decide +kernel

end EdgeIpc.Vsc.Hls.Synth
