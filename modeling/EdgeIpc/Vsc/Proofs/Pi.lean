/-
The current controller: what its clamps are good for.

# The integrator

Phase by phase the integrator is a saturating sum of `dt` times the error
(`after_x`). So it cannot leave its range, two controllers that see the
same calls cannot drift apart, and a stretch of errors of one sign that
is long enough to run the integrator from one end of its range to the
other leaves nothing of what was in it before (`windup_forgotten`).

# The step response

On the integrating plant of the tests the current only rises and never
passes the reference. As long as the error is at least `1 / k_p` the
demand is at its limit and the current rises by a fixed amount a step;
from there on the error shrinks by a fixed factor (`error_body`). The
integrator only helps: it is never negative (`Rising`).
-/
import EdgeIpc.Vsc.ClosedLoop
import EdgeIpc.Vsc.Proofs.Analysis
import Mathlib.Data.List.GetD
import Mathlib.Tactic.Linarith
import Mathlib.Tactic.NormNum
import Mathlib.Tactic.Positivity

namespace EdgeIpc.Vsc

open Lib

variable {K : Type} [Field K] [LinearOrder K]

namespace PiController

-- ========================================================== the integrator

/-- The same gains, step and range. -/
structure SameGains (c c' : PiController K) : Prop where
  kP : c.kP = c'.kP
  kI : c.kI = c'.kI
  dt : c.dt = c'.dt
  xMax : c.xMax = c'.xMax

/-- Every integrator is within `±x_max`. -/
def InRange (c : PiController K) : Prop :=
  ∀ k, -c.xMax ≤ c.x k ∧ c.x k ≤ c.xMax

/-- What the calls add to the integrator of phase `k`. -/
def increments (c : PiController K)
    (calls : List ((Fin 3 → K) × (Fin 3 → K))) (k : Fin 3) : List K :=
  calls.map fun call => c.dt * error call.1 call.2 k

theorem after_gains (c : PiController K)
    (calls : List ((Fin 3 → K) × (Fin 3 → K))) :
    SameGains c (c.after calls) := by
  induction calls generalizing c with
  | nil => exact ⟨rfl, rfl, rfl, rfl⟩
  | cons call calls ih =>
      obtain ⟨hP, hI, hdt, hmax⟩ := ih (c.step call.1 call.2).1
      exact ⟨hP, hI, hdt, hmax⟩

theorem after_x (c : PiController K)
    (calls : List ((Fin 3 → K) × (Fin 3 → K))) (k : Fin 3) :
    (c.after calls).x k
      = accumulate (-c.xMax) c.xMax (c.increments calls k) (c.x k) := by
  induction calls generalizing c with
  | nil => rfl
  | cons call calls ih => exact ih (c.step call.1 call.2).1

/-- The demands depend on the gains and the integrators only. -/
theorem demand_congr {c c' : PiController K} (h : SameGains c c') {k : Fin 3}
    (hx : c.x k = c'.x k) (iRef iMeas : Fin 3 → K) :
    (c.step iRef iMeas).2 k = (c'.step iRef iMeas).2 k := by
  simp only [step, h.kP, h.kI, h.dt, h.xMax, hx]

variable [IsStrictOrderedRing K]

/-- Windup is bounded and forgotten. Take two controllers of the same
gains with integrators in range, and any calls to both. The integrators
stay in range, and no phase's two integrators come further apart. And if
among the calls there is a stretch of errors of one sign in phase `k` that
adds up to the width of the range, then from its end on, whatever the
calls after it, the two demand the same in phase `k`. -/
theorem windup_forgotten {c c' : PiController K} (hsame : SameGains c c')
    (hc : c.InRange) (hc' : c'.InRange)
    (before stretch rest : List ((Fin 3 → K) × (Fin 3 → K))) (k : Fin 3) :
    (c.after (before ++ stretch ++ rest)).InRange
      ∧ |(c.after before).x k - (c'.after before).x k| ≤ |c.x k - c'.x k|
      ∧ ((∀ call ∈ stretch, 0 ≤ error call.1 call.2 k)
          ∨ (∀ call ∈ stretch, error call.1 call.2 k ≤ 0) →
        0 ≤ c.dt →
        2 * c.xMax ≤ |(c.increments stretch k).sum| → ∀ iRef iMeas,
        ((c.after (before ++ stretch ++ rest)).step iRef iMeas).2 k
          = ((c'.after (before ++ stretch ++ rest)).step iRef iMeas).2 k) := by
  have hwidth : -c.xMax ≤ c.xMax := (hc k).1.trans (hc k).2
  have hinc : ∀ calls, c'.increments calls k = c.increments calls k := by
    intro calls
    rw [increments, increments, hsame.dt]
  refine ⟨fun l => ?_, ?_, fun hsign hdt hlong iRef iMeas => ?_⟩
  · rw [after_x, ← (after_gains c _).xMax]
    exact accumulate_mem hwidth _ (hc l)
  · rw [after_x, after_x, hinc, ← hsame.xMax]
    exact abs_accumulate_sub_le _ _ _ _ _
  · have hgains : SameGains (c.after (before ++ stretch ++ rest))
        (c'.after (before ++ stretch ++ rest)) := by
      obtain ⟨hP, hI, hd, hm⟩ := after_gains c (before ++ stretch ++ rest)
      obtain ⟨hP', hI', hd', hm'⟩ := after_gains c' (before ++ stretch ++ rest)
      exact ⟨hP.symm.trans (hsame.kP.trans hP'),
        hI.symm.trans (hsame.kI.trans hI'),
        hd.symm.trans (hsame.dt.trans hd'),
        hm.symm.trans (hsame.xMax.trans hm')⟩
    apply demand_congr hgains
    have hx' := hc' k
    rw [← hsame.xMax] at hx'
    have hds : (∀ d ∈ c.increments stretch k, 0 ≤ d)
        ∨ ∀ d ∈ c.increments stretch k, d ≤ 0 := by
      refine hsign.imp (fun h => ?_) fun h => ?_
      · exact List.forall_mem_map.mpr fun call hcall =>
          mul_nonneg hdt (h call hcall)
      · exact List.forall_mem_map.mpr fun call hcall =>
          mul_nonpos_of_nonneg_of_nonpos hdt (h call hcall)
    have hlong : c.xMax - -c.xMax ≤ |(c.increments stretch k).sum| := by
      rw [sub_neg_eq_add, ← two_mul]
      exact hlong
    -- the two sums meet at the end of the stretch
    have hmeet := accumulate_forgets _ hds hlong
      (accumulate_mem hwidth (c.increments before k) (hc k))
      (accumulate_mem hwidth (c.increments before k) hx')
    rw [after_x, after_x, hinc, ← hsame.xMax]
    simp only [increments, List.map_append, accumulate_append]
    exact congrArg _ hmeet

/-- The tests' controller, -/
def resting : PiController ℚ := construct 0.5 20 0.00005 5

/-- and the same wound up to one end. -/
def wound : PiController ℚ := { resting with x := fun _ => -5 }

/-- After 20000 steps of an error of 10 A they cannot be told apart. -/
theorem windup_forgotten_wound :
    resting.InRange ∧ wound.InRange ∧ ∀ iRef iMeas : Fin 3 → ℚ,
      ((resting.after (List.replicate 20000 (fun _ => 10, fun _ => 0))).step
          iRef iMeas).2 phaseA
        = ((wound.after (List.replicate 20000 (fun _ => 10, fun _ => 0))).step
          iRef iMeas).2 phaseA := by
  have hc : resting.InRange := fun _ => by norm_num [resting, construct]
  have hc' : wound.InRange := fun _ => by norm_num [wound, resting, construct]
  have hsum : 2 * resting.xMax ≤ |(resting.increments (List.replicate 20000
      (fun _ => 10, fun _ => 0)) phaseA).sum| := by
    rw [increments, List.map_replicate, List.sum_replicate]
    norm_num [resting, construct, error]
  obtain ⟨-, -, hforgotten⟩ := windup_forgotten (⟨rfl, rfl, rfl, rfl⟩ :
    SameGains resting wound) hc hc' []
    (List.replicate 20000 (fun _ => 10, fun _ => 0)) [] phaseA
  rw [List.nil_append, List.append_nil] at hforgotten
  refine ⟨hc, hc', hforgotten (.inl fun call hcall => ?_) ?_ hsum⟩
  · rw [List.eq_of_mem_replicate hcall]
    norm_num [error]
  · norm_num [resting, construct]

end PiController

-- ======================================================= the step response

namespace Averaged

/-- The gains and the plant push the current towards the reference, by no
more than the error at full demand. -/
structure Tuned (kP kI dt gain : K) : Prop where
  kP_pos : 0 < kP
  kI_nonneg : 0 ≤ kI
  dt_pos : 0 < dt
  gain_pos : 0 < gain
  slow : dt * gain * kP ≤ 1

/-- Below the reference, with an integrator that pushes upwards. -/
structure Rising (kP kI dt xMax ref : K) (x : Averaged K) : Prop where
  kP : x.pi.kP = kP
  kI : x.pi.kI = kI
  dt : x.pi.dt = dt
  xMax : x.pi.xMax = xMax
  integrator : 0 ≤ x.pi.x phaseA
  nonneg : 0 ≤ x.iMeas
  le_ref : x.iMeas ≤ ref

variable [IsStrictOrderedRing K] {kP kI dt xMax gain ref : K} {x : Averaged K}

omit [IsStrictOrderedRing K] in
theorem rising_init (kP kI dt xMax : K) (href : 0 ≤ ref) :
    Rising kP kI dt xMax ref (init kP kI dt xMax) :=
  ⟨rfl, rfl, rfl, rfl, le_rfl, le_rfl, href⟩

omit [IsStrictOrderedRing K] in
theorem Rising.mono {ref' : K} (h : Rising kP kI dt xMax ref x)
    (hle : ref ≤ ref') : Rising kP kI dt xMax ref' x :=
  { h with le_ref := h.le_ref.trans hle }

/-- The demand is at least what the error alone asks for. -/
theorem le_demand (ht : Tuned kP kI dt gain) (hmax : 0 ≤ xMax)
    (h : Rising kP kI dt xMax ref x) :
    0 ≤ (x.pi.step (inPhaseA ref) (inPhaseA x.iMeas)).1.x phaseA
      ∧ min 1 (kP * (ref - x.iMeas))
        ≤ (x.pi.step (inPhaseA ref) (inPhaseA x.iMeas)).2 phaseA := by
  have herr : 0 ≤ ref - x.iMeas := sub_nonneg.mpr h.le_ref
  have hx : 0 ≤ clamp (-xMax) xMax (x.pi.x phaseA + dt * (ref - x.iMeas)) := by
    have hsum : 0 ≤ x.pi.x phaseA + dt * (ref - x.iMeas) :=
      add_nonneg h.integrator (mul_nonneg ht.dt_pos.le herr)
    exact (le_min hmax hsum).trans (le_max_right _ _)
  simp only [PiController.step, PiController.error, inPhaseA, if_true, h.kP,
    h.kI, h.dt, h.xMax]
  refine ⟨hx, ?_⟩
  have hle : kP * (ref - x.iMeas) ≤ kP * (ref - x.iMeas) + kI * clamp (-xMax)
      xMax (x.pi.x phaseA + dt * (ref - x.iMeas)) :=
    le_add_of_nonneg_right (mul_nonneg ht.kI_nonneg hx)
  exact (min_le_min_left 1 hle).trans (le_max_right _ _)

/-- One round: the error shrinks by a fixed amount or by a fixed factor,
whichever is less. -/
theorem rising_body (ht : Tuned kP kI dt gain) (hmax : 0 ≤ xMax)
    (h : Rising kP kI dt xMax ref x) :
    Rising kP kI dt xMax ref (x.body ref dt gain)
      ∧ x.iMeas ≤ (x.body ref dt gain).iMeas
      ∧ ref - (x.body ref dt gain).iMeas
        ≤ max 0 (ref - x.iMeas
          - min 1 (kP * (ref - x.iMeas)) * (dt * gain)) := by
  obtain ⟨hint, hdemand⟩ := le_demand ht hmax h
  have hg : 0 ≤ dt * gain := (mul_pos ht.dt_pos ht.gain_pos).le
  have herr : 0 ≤ ref - x.iMeas := sub_nonneg.mpr h.le_ref
  have hpush : 0 ≤ min 1 (kP * (ref - x.iMeas)) :=
    le_min zero_le_one (mul_nonneg ht.kP_pos.le herr)
  unfold body
  dsimp only
  set u := (x.pi.step (inPhaseA ref) (inPhaseA x.iMeas)).2 phaseA
  have hrise : min 1 (kP * (ref - x.iMeas)) * (dt * gain) ≤ u * dt * gain := by
    rw [mul_assoc]
    exact mul_le_mul_of_nonneg_right hdemand hg
  have hnonneg : 0 ≤ u * dt * gain := (mul_nonneg hpush hg).trans hrise
  have hup : x.iMeas ≤ max 0 (x.iMeas + u * dt * gain) :=
    (le_add_of_nonneg_right hnonneg).trans (le_max_right _ _)
  refine ⟨⟨h.kP, h.kI, h.dt, h.xMax, hint, ?_, min_le_left _ _⟩,
    le_min h.le_ref hup, ?_⟩
  · exact le_min (h.nonneg.trans h.le_ref) (le_max_left _ _)
  · rcases le_total ref (max 0 (x.iMeas + u * dt * gain)) with hle | hle
    · rw [min_eq_left hle, sub_self]
      exact le_max_left _ _
    · rw [min_eq_right hle]
      refine le_trans ?_ (le_max_right _ _)
      have hmax := le_max_right 0 (x.iMeas + u * dt * gain)
      linarith

-- =============================================================== the rounds

/-- The current after `n` rounds. -/
def currentAt (ref dt gain : K) (x : Averaged K) (n : Nat) : K :=
  (x.loop ref dt gain n).1.iMeas

theorem rising_loop (ht : Tuned kP kI dt gain) (hmax : 0 ≤ xMax) (n : Nat)
    {x : Averaged K} (h : Rising kP kI dt xMax ref x) :
    Rising kP kI dt xMax ref (x.loop ref dt gain n).1 := by
  induction n generalizing x with
  | zero => exact h
  | succ n ih => exact ih (rising_body ht hmax h).1

omit [IsStrictOrderedRing K] in
theorem loop_succ (ref dt gain : K) (n : Nat) (x : Averaged K) :
    (x.loop ref dt gain (n + 1)).1
      = (x.loop ref dt gain n).1.body ref dt gain := by
  induction n generalizing x with
  | zero => rfl
  | succ n ih => exact ih (x.body ref dt gain)

omit [IsStrictOrderedRing K] in
theorem length_post (ref dt gain : K) (n : Nat) (x : Averaged K) :
    (x.loop ref dt gain n).2.length = n := by
  induction n generalizing x with
  | zero => rfl
  | succ n ih => exact congrArg (· + 1) (ih _)

omit [IsStrictOrderedRing K] in
theorem post_getD (ref dt gain : K) {n i : Nat} (hi : i < n)
    (x : Averaged K) :
    (x.loop ref dt gain n).2.getD i 0 = currentAt ref dt gain x (i + 1) := by
  induction n generalizing i x with
  | zero => omega
  | succ n ih =>
      cases i with
      | zero => rfl
      | succ i => exact ih (by omega) (x.body ref dt gain)

theorem currentAt_mono (ht : Tuned kP kI dt gain) (hmax : 0 ≤ xMax)
    (h : Rising kP kI dt xMax ref x) :
    Monotone (currentAt ref dt gain x) := by
  refine monotone_nat_of_le_succ fun n => ?_
  rw [currentAt, currentAt, loop_succ]
  exact (rising_body ht hmax (rising_loop ht hmax n h)).2.1

/-- At full demand the error shrinks by `dt * gain` a round. -/
theorem linear_phase (ht : Tuned kP kI dt gain) (hmax : 0 ≤ xMax)
    (h : Rising kP kI dt xMax ref x) (a : Nat)
    (ha : ref - x.iMeas ≤ 1 / kP + a * (dt * gain)) :
    ref - currentAt ref dt gain x a ≤ 1 / kP := by
  have hg : 0 ≤ dt * gain := (mul_pos ht.dt_pos ht.gain_pos).le
  have hinv : 0 < 1 / kP := one_div_pos.mpr ht.kP_pos
  induction a generalizing x with
  | zero =>
      rw [Nat.cast_zero, zero_mul, add_zero] at ha
      exact ha
  | succ a ih =>
      obtain ⟨hnext, -, herr⟩ := rising_body ht hmax h
      refine ih hnext (herr.trans ?_)
      have hterm : 0 ≤ (a : K) * (dt * gain) := mul_nonneg a.cast_nonneg hg
      refine max_le (by linarith) ?_
      rcases le_total 1 (kP * (ref - x.iMeas)) with hfull | hpart
      · rw [min_eq_left hfull]
        push_cast at ha
        linarith
      · rw [min_eq_right hpart]
        have hsmall : ref - x.iMeas ≤ 1 / kP := by
          rw [le_div_iff₀ ht.kP_pos]
          linarith
        have hpush : 0 ≤ kP * (ref - x.iMeas) * (dt * gain) :=
          mul_nonneg (mul_nonneg ht.kP_pos.le (sub_nonneg.mpr h.le_ref)) hg
        linarith

/-- Below that it shrinks by the factor `1 - dt * gain * k_p`. -/
theorem geometric_phase (ht : Tuned kP kI dt gain) (hmax : 0 ≤ xMax)
    (h : Rising kP kI dt xMax ref x) (b : Nat) {e : K} (he : e ≤ 1 / kP)
    (herr : ref - x.iMeas ≤ e) :
    ref - currentAt ref dt gain x b ≤ (1 - dt * gain * kP) ^ b * e := by
  have hq : 0 ≤ 1 - dt * gain * kP := sub_nonneg.mpr ht.slow
  have hnonneg : 0 ≤ e := (sub_nonneg.mpr h.le_ref).trans herr
  have hg : 0 ≤ dt * gain := (mul_pos ht.dt_pos ht.gain_pos).le
  induction b generalizing x e with
  | zero =>
      rw [pow_zero, one_mul]
      exact herr
  | succ b ih =>
      obtain ⟨hnext, -, hbody⟩ := rising_body ht hmax h
      have hpart : kP * (ref - x.iMeas) ≤ 1 := by
        have hle := (le_div_iff₀ ht.kP_pos).mp (herr.trans he)
        linarith
      rw [min_eq_right hpart] at hbody
      have hshrink : max 0 (ref - x.iMeas
          - kP * (ref - x.iMeas) * (dt * gain)) ≤ (1 - dt * gain * kP) * e := by
        refine max_le (mul_nonneg hq hnonneg) ?_
        calc ref - x.iMeas - kP * (ref - x.iMeas) * (dt * gain)
            = (1 - dt * gain * kP) * (ref - x.iMeas) := by ring
          _ ≤ (1 - dt * gain * kP) * e := mul_le_mul_of_nonneg_left herr hq
      have hsmaller : (1 - dt * gain * kP) * e ≤ 1 / kP := by
        refine le_trans ?_ he
        have hfactor : 1 - dt * gain * kP ≤ 1 :=
          sub_le_self _ (mul_nonneg hg ht.kP_pos.le)
        exact mul_le_of_le_one_left hnonneg hfactor
      have hrec := ih hnext hsmaller (hbody.trans hshrink)
        (mul_nonneg hq hnonneg)
      rw [pow_succ, mul_assoc]
      exact hrec

omit [IsStrictOrderedRing K] in
theorem currentAt_add (ref dt gain : K) (x : Averaged K) (m n : Nat) :
    currentAt ref dt gain x (m + n)
      = currentAt ref dt gain (x.loop ref dt gain m).1 n := by
  induction m generalizing x with
  | zero => rw [Nat.zero_add]; rfl
  | succ m ih =>
      rw [Nat.succ_add]
      exact ih (x.body ref dt gain)

-- ============================================================= the settling

/-- A record within the band from step `i` on settles, no later. -/
theorem settles_by {post : List K} {n c i : Nat} {band : K} (href : 0 < ref)
    (hlen : post.length = n) (hi : i + c < n)
    (hin : ∀ j, i ≤ j → j < n → |post.getD j 0 - ref| < band * ref) :
    ∃ i' ≤ i, Analysis.settleTimeSteps post (List.replicate n ref) band c
      = .ok (some i') := by
  have hgreatest : IsGreatest {a | ∃ r ∈ List.replicate n ref, |r| = a} ref := by
    refine ⟨⟨ref, List.mem_replicate.mpr ⟨by omega, rfl⟩, abs_of_pos href⟩, ?_⟩
    rintro a ⟨r, hr, rfl⟩
    rw [List.eq_of_mem_replicate hr, abs_of_pos href]
  have hsettled : Analysis.Settled post (List.replicate n ref)
      (band * if ref = 0 then 1 else ref) c i := by
    refine ⟨by omega, fun j hj => ?_⟩
    unfold Analysis.Within
    rw [if_neg href.ne', List.getD_replicate _ (by omega)]
    exact hin (i + j) (by omega) (by omega)
  rw [Analysis.settleTimeSteps_eq (by simp [hlen]) hgreatest]
  cases hfind : (List.range (post.length - c)).find? fun j => decide
      (Analysis.Settled post (List.replicate n ref)
        (band * if ref = 0 then 1 else ref) c j) with
  | none =>
      have hno := List.find?_eq_none.mp hfind i
        (List.mem_range.mpr (by omega))
      exact absurd (decide_eq_true hsettled) hno
  | some i' =>
      obtain ⟨-, -, hbefore⟩ := List.find?_range_eq_some.mp hfind
      refine ⟨i', not_lt.mp fun hlt => ?_, rfl⟩
      have hno := hbefore i hlt
      rw [decide_eq_true hsettled] at hno
      cases hno

-- ============================================================= the theorem

/-- The step response settles. For any gains and plant that push towards
the reference, take the test's two loops: `m` rounds at `ref₀`, and then
`n` at a reference `ref` above it. The recorded currents rise and never
pass the reference; and if the first loop is long enough to end its phase
of full demand, the second has `a` rounds for its own, `b` more to bring
the error from `1 / k_p` into the band, and a window behind them, then
`settle_time_steps` answers with a round no later than `a + b`. -/
theorem step_response_settles (ht : Tuned kP kI dt gain) (hmax : 0 ≤ xMax)
    {ref₀ : K} (h₀ : 0 ≤ ref₀) (hstep : ref₀ ≤ ref) (href : 0 < ref)
    (band : K) (m n : Nat) :
    let x := ((init kP kI dt xMax).loop ref₀ dt gain m).1
    let post := (x.loop ref dt gain n).2
    post.Pairwise (· ≤ ·) ∧ (∀ i ∈ post, i ≤ ref)
      ∧ ∀ a b c : Nat, ref₀ ≤ 1 / kP + m * (dt * gain) →
        ref - ref₀ ≤ a * (dt * gain) →
        (1 - dt * gain * kP) ^ b * (1 / kP) < band * ref →
        a + b + c < n →
        ∃ i ≤ a + b, Analysis.settleTimeSteps post (List.replicate n ref)
          band c = .ok (some i) := by
  intro x post
  have hx : Rising kP kI dt xMax ref x :=
    (rising_loop ht hmax m (rising_init kP kI dt xMax h₀)).mono hstep
  have hmono := currentAt_mono ht hmax hx
  have hle : ∀ i, currentAt ref dt gain x i ≤ ref :=
    fun i => (rising_loop ht hmax i hx).le_ref
  have hlen : post.length = n := length_post ref dt gain n x
  have hat : ∀ {i}, i < n → post.getD i 0 = currentAt ref dt gain x (i + 1) :=
    fun hi => post_getD ref dt gain hi x
  have hget : ∀ {i} (hi : i < post.length),
      post[i] = currentAt ref dt gain x (i + 1) := by
    intro i hi
    rw [← hat (hlen ▸ hi), List.getD_eq_getElem _ _ hi]
  refine ⟨?_, ?_, fun a b c hfirst hsecond hband hlong => ?_⟩
  · refine List.pairwise_iff_getElem.mpr fun i j hi hj hij => ?_
    rw [hget hi, hget hj]
    exact hmono (by omega)
  · intro i hi
    obtain ⟨j, hj, rfl⟩ := List.getElem_of_mem hi
    rw [hget hj]
    exact hle _
  · -- the error at the end of the first loop, of the phase of full demand,
    -- and of the geometric phase
    have hpre : ref₀ - x.iMeas ≤ 1 / kP :=
      linear_phase ht hmax (rising_init kP kI dt xMax h₀) m
        (by rw [init, sub_zero]; exact hfirst)
    have hfull := linear_phase ht hmax hx a (by linarith)
    have hgeom := geometric_phase ht hmax (rising_loop ht hmax a hx) b le_rfl
      hfull
    rw [← currentAt_add] at hgeom
    refine settles_by href hlen hlong fun j hj hjn => ?_
    have hlater := hmono (show a + b ≤ j + 1 by omega)
    have hbelow := hle (j + 1)
    rw [hat hjn, abs_sub_comm, abs_of_nonneg (sub_nonneg.mpr hbelow)]
    linarith

/-- The test, with its numbers: 2000 rounds at half the rated current and
2000 at all of it. The response settles within 80 ms. -/
theorem step_response_settles_test :
    ∃ i ≤ 1600, Analysis.settleTimeSteps
      ((((init (0.5 : ℚ) 20 0.00005 5).loop 5 0.00005 100 2000).1).loop 10
        0.00005 100 2000).2
      (List.replicate 2000 10) Analysis.defaultBand
      Analysis.defaultConsecutive = .ok (some i) := by
  have ht : Tuned (0.5 : ℚ) 20 0.00005 100 := by
    constructor <;> norm_num
  obtain ⟨-, -, hsettles⟩ := step_response_settles ht
    (show (0 : ℚ) ≤ 5 by norm_num) (show (0 : ℚ) ≤ 5 by norm_num)
    (show (5 : ℚ) ≤ 10 by norm_num) (by norm_num) Analysis.defaultBand 2000
    2000
  refine hsettles 1000 600 10 (by norm_num) (by norm_num) ?_ (by norm_num)
  have hfactor : (1 - 0.00005 * 100 * 0.5 : ℚ) ^ 200 ≤ 0.61 := by norm_num
  have hpow := pow_le_pow_left₀ (by norm_num) hfactor 3
  rw [← pow_mul] at hpow
  refine (mul_le_mul_of_nonneg_right hpow (by norm_num)).trans_lt ?_
  norm_num [Analysis.defaultBand]

end Averaged

end EdgeIpc.Vsc
