/-
The simulation clock of the synthesised kernel. `s_t` is counted up by
`params.dt`, and that is exact: no addition truncates or, before 32768 s,
wraps. What is lost is lost before the first step, when 50 µs becomes a
multiple of `2 ^ -16` s. 50 µs are 3.2768 units of that size and the
image has 3 (`dt_image`), so each call falls behind by 0.2768 units
(`clock_value`) and the fourth call by more than one in all
(`clock_in_step_iff`).
-/
import EdgeIpc.Vsc.Proofs.HlsSynth

namespace EdgeIpc.Vsc.Hls.Synth

open Lib Lib.Fixed

variable {sine : Fin 3 → ApFixed → ApFixed}
  {quotient : ApFixed → ApFixed → ApFixed} {params : FixedParams ApFixed}
  {kn : Kernel ApFixed}

theorem dt_image : (ofRat 50e-6 : ApFixed).toRat = 3 / 2 ^ 16 := by
  decide +kernel

/-- The clock of a run: one addition a call, whatever the gates. -/
theorem clock_run (gates : List (BitVec 6)) :
    (solverRun sine quotient params gates kn).t
      = (fun t : ApFixed => (ofRat (t.toRat + params.dt.toRat) : ApFixed))^[
        gates.length] kn.t := by
  induction gates generalizing kn with
  | nil => rfl
  | cons gate gates ih =>
      rw [List.length_cons, Function.iterate_succ_apply]
      exact ih

/-- What the clock shows: 3 units a call. -/
theorem clock_value (hdt : params.dt = .ofRat 50e-6) (ht : kn.t = .ofRat 0)
    {gates : List (BitVec 6)} (hn : (gates.length : ℚ) * 50e-6 < 32768) :
    (solverRun sine quotient params gates kn).t.toRat
      = gates.length * (3 / 2 ^ 16) := by
  have hzero : kn.t.toRat = 0 := by rw [ht, ofRat_zero_toRat]
  have hstep : params.dt.toRat = 3 / 2 ^ 16 := by rw [hdt, dt_image]
  rw [clock_run, toRat_countUp (by decide), hzero, hstep, zero_add]
  intro k hk
  have hk0 : (0 : ℚ) ≤ k := Nat.cast_nonneg k
  have hkn : (k : ℚ) ≤ gates.length := Nat.cast_le.mpr hk
  rw [hzero, hstep, inRange_apFixed]
  constructor <;> linarith

/-- Does the clock keep time? With `dt` the image of 50 µs, from time 0 and
for every sequence of gates, sine core and divider: as long as the true
time is below 32768 s, the clock is less than one unit of its last place
off exactly for the first three calls. -/
theorem clock_in_step_iff (hdt : params.dt = .ofRat 50e-6)
    (ht : kn.t = .ofRat 0) (gates : List (BitVec 6))
    (hn : (gates.length : ℚ) * 50e-6 < 32768) :
    |(solverRun sine quotient params gates kn).t.toRat
        - gates.length * 50e-6| < 1 / 2 ^ 16
      ↔ gates.length ≤ 3 := by
  have hlag : (gates.length : ℚ) * (3 / 2 ^ 16) - gates.length * 50e-6
      = -(gates.length * (173 / 40960000)) := by ring
  have hpos : (0 : ℚ) ≤ gates.length * (173 / 40960000) := by positivity
  rw [clock_value hdt ht hn, hlag, abs_neg, abs_of_nonneg hpos]
  constructor
  · intro h
    by_contra hlt
    have hfour : (4 : ℚ) ≤ gates.length := by
      exact_mod_cast Nat.lt_of_not_le hlt
    linarith
  · intro h
    have hthree : (gates.length : ℚ) ≤ 3 := by exact_mod_cast h
    linarith

/-- A kernel at rest, with the images of the default parameters. -/
def atRest : Kernel ApFixed where
  L := fun _ _ => .ofRat 0
  U := fun _ _ => .ofRat 1
  piv := id
  V := fun _ => .ofRat 0
  hist := fun _ => .ofRat 0
  t := .ofRat 0

/-- Three calls are in step, -/
theorem clock_in_step_three :
    |(solverRun (fun _ _ => ofRat 0) (fun x _ => x) defaultParams
        [0x15#6, 0x2A#6, 0x15#6] atRest).t.toRat - 3 * 50e-6|
      < 1 / 2 ^ 16 := by
  refine (clock_in_step_iff ?_ rfl [0x15#6, 0x2A#6, 0x15#6] ?_).mpr le_rfl
  · decide +kernel
  · decide +kernel

/-- and a tenth of a second, which is 2000 calls, the clock shows as 91.55
milliseconds. -/
theorem clock_loses_time :
    (solverRun (fun _ _ => ofRat 0) (fun x _ => x) defaultParams
        (List.replicate 2000 0x15#6) atRest).t.toRat = 6000 / 2 ^ 16
      ∧ ¬ |(solverRun (fun _ _ => ofRat 0) (fun x _ => x) defaultParams
          (List.replicate 2000 0x15#6) atRest).t.toRat - 2000 * 50e-6|
        < 1 / 2 ^ 16 := by
  have hvalue : (solverRun (fun _ _ => ofRat 0) (fun x _ => x) defaultParams
      (List.replicate 2000 0x15#6) atRest).t.toRat = 6000 / 2 ^ 16 := by
    rw [clock_value (by decide +kernel) rfl, List.length_replicate]
    · norm_num
    · rw [List.length_replicate]
      norm_num
  refine ⟨hvalue, ?_⟩
  rw [hvalue]
  norm_num [abs_of_neg]

end EdgeIpc.Vsc.Hls.Synth
