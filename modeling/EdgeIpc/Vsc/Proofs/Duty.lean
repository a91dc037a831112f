/-
The duty cycle of the modulator. The triangle wave is below a demand `u`
where its phase is nearer than `(1 + u) / 4` to a whole period
(`carrier_lt_iff`): both branches, the turning points and the wrap of the
phase are in that one condition, and so is a tie, which leaves the upper
switch open.

With a period of `n` steps the calls sample the wave at `n` equally spaced
phases, from wherever the calls before have left it. How many of them the
upper switch is on for is then a matter of counting samples in a window
(`Lib.card_near`).
-/
import EdgeIpc.Lib.Samples
import EdgeIpc.Vsc.Controller
import Mathlib.Data.Nat.Count
import Mathlib.Data.Rat.Floor
import Mathlib.Tactic.NormNum.OfScientific

namespace EdgeIpc.Vsc.SpwmModulator

open Lib

variable {K : Type} [Field K] [LinearOrder K]

/-- Where the carrier is, in periods. -/
def phase (m : SpwmModulator K) : K := m.carrierT / m.carrierPeriod

/-- By how much a call moves it. -/
def phaseStep (m : SpwmModulator K) : K := m.dt / m.carrierPeriod

variable [FloorRing K]

-- =============================================================== one call

theorem phase_modulate (m : SpwmModulator K) (u : Fin 3 → K) :
    (m.modulate u).1.phase = m.phase + m.phaseStep
      ∧ (m.modulate u).1.phaseStep = m.phaseStep :=
  ⟨add_div _ _ _, rfl⟩

omit [Field K] [FloorRing K] in
/-- A round of the loop sets no upper switch but that of its own phase. -/
theorem setPhase_upper (c : K) (u : Fin 3 → K) (gate : Nat) (j k : Fin 3) :
    (setPhase c u gate j).testBit (2 * k)
      = (gate.testBit (2 * k) || decide (j = k ∧ c < u j)) := by
  unfold setPhase
  split
  next hon =>
    rw [Nat.testBit_or, Nat.one_shiftLeft, Nat.testBit_two_pow]
    congr 1
    rw [decide_eq_decide, and_iff_left hon, Fin.ext_iff]
    omega
  next hoff =>
    rw [Nat.testBit_or, Nat.one_shiftLeft, Nat.testBit_two_pow]
    congr 1
    rw [decide_eq_decide]
    exact ⟨fun h => by omega, fun h => absurd h.2 hoff⟩

/-- The upper switch of a phase is on where its demand is above the
carrier. -/
theorem modulate_upper (m : SpwmModulator K) (u : Fin 3 → K) (k : Fin 3) :
    (m.modulate u).2.testBit (2 * k) = decide (m.carrier < u k) := by
  show (setPhase m.carrier u (setPhase m.carrier u
    (setPhase m.carrier u 0 0) 1) 2).testBit (2 * k) = _
  rw [setPhase_upper, setPhase_upper, setPhase_upper, Nat.zero_testBit]
  match k with
  | 0 => simp
  | 1 => simp
  | 2 => simp

/-- `_carrier` sees the fractional part of the phase. -/
theorem pyMod_div (m : SpwmModulator K) :
    pyMod m.carrierT m.carrierPeriod / m.carrierPeriod
      = Int.fract m.phase := by
  unfold pyMod phase
  rw [sub_div, mul_div_cancel_left₀ _ m.period_ne_zero]
  rfl

-- ============================================================== many calls

/-- The modulator after a sequence of calls. -/
def after (m : SpwmModulator K) (us : List (Fin 3 → K)) : SpwmModulator K :=
  us.foldl (fun m u => (m.modulate u).1) m

theorem phaseStep_after (m : SpwmModulator K) (us : List (Fin 3 → K)) :
    (m.after us).phaseStep = m.phaseStep := by
  induction us generalizing m with
  | nil => rfl
  | cons u us ih => exact ih _

theorem gates_append (m : SpwmModulator K) (before us : List (Fin 3 → K)) :
    m.gates (before ++ us) = m.gates before ++ (m.after before).gates us := by
  induction before generalizing m with
  | nil => rfl
  | cons v before ih => exact congrArg _ (ih _)

theorem length_gates (m : SpwmModulator K) (us : List (Fin 3 → K)) :
    (m.gates us).length = us.length := by
  induction us generalizing m with
  | nil => rfl
  | cons u us ih => exact congrArg _ (ih _)

/-- The calls after `before` are those of the modulator it leaves. -/
theorem drop_gates (m : SpwmModulator K) (before us : List (Fin 3 → K)) :
    (m.gates (before ++ us)).drop before.length
      = (m.after before).gates us := by
  rw [gates_append, ← length_gates m before, List.drop_left]

omit [FloorRing K] in
/-- With a period of `n` steps a call moves the carrier by one `n`-th. -/
theorem phaseStep_construct {dt carrierFreq : K} {m : SpwmModulator K}
    (hm : construct dt carrierFreq = some m) {n : ℕ}
    (hn : 1 / (carrierFreq * dt) = n) : m.phaseStep = 1 / n := by
  unfold construct at hm
  split at hm
  next => cases hm
  next =>
    injection hm with hm
    rw [← hm, ← hn, one_div_one_div]
    show dt / (1 / carrierFreq) = _
    rw [div_div_eq_mul_div, div_one, mul_comm]

-- ============================================================== the window

variable [IsStrictOrderedRing K]

/-- The carrier is below a demand near the whole periods. -/
theorem carrier_lt_iff (m : SpwmModulator K) (u : K) :
    m.carrier < u ↔ |m.phase - round m.phase| < (1 + u) / 4 := by
  have hhalf : (0.5 : K) = 1 / 2 := by norm_num
  have hfour : (4.0 : K) = 4 := by norm_num
  have hthree : (3.0 : K) = 3 := by norm_num
  unfold carrier
  rw [pyMod_div, abs_sub_round_eq_min, hhalf, hfour, hthree, min_lt_iff]
  dsimp only
  split
  next hrising =>
    constructor
    · intro h
      exact .inl (by linarith)
    · rintro (h | h) <;> linarith
  next hfalling =>
    have := not_lt.mp hfalling
    constructor
    · intro h
      exact .inr (by linarith)
    · rintro (h | h) <;> linarith

/-- The calls with the upper switch on are the samples in the window. -/
theorem count_upper {k : Fin 3} {u : K} {us : List (Fin 3 → K)}
    (hus : ∀ v ∈ us, v k = u) (m : SpwmModulator K) :
    (m.gates us).countP (fun gate => gate.testBit (2 * k))
      = Nat.count (fun j : ℕ =>
          |m.phase + j * m.phaseStep
            - round (m.phase + j * m.phaseStep : K)| < (1 + u) / 4)
        us.length := by
  induction us generalizing m with
  | nil => rfl
  | cons v us ih =>
      obtain ⟨hv, hus⟩ := List.forall_mem_cons.mp hus
      obtain ⟨hphase, hstep⟩ := phase_modulate m v
      rw [gates, List.countP_cons, ih hus, List.length_cons, Nat.count_succ',
        modulate_upper, hv, hphase, hstep]
      have hnext : ∀ j : ℕ, m.phase + m.phaseStep + j * m.phaseStep
          = m.phase + ((j + 1 : ℕ) : K) * m.phaseStep := by
        intro j
        push_cast
        ring
      simp only [hnext, decide_eq_true_eq, carrier_lt_iff,
        Nat.cast_zero, zero_mul, add_zero]

-- ============================================================= the theorem

/-- SPWM duty accuracy. For every step width and carrier frequency with a
whole number `n ≥ 1` of steps a period, every phase `k` and every demand
`u` in [-1, 1], after any calls before, and whatever the demands of the
other phases: of `n` calls in a row with the demand `u`, those that turn
the upper switch of `k` on are `n (1 + u) / 2` up to one. -/
theorem duty_accuracy {dt carrierFreq : K} {m : SpwmModulator K}
    (hm : construct dt carrierFreq = some m) {n : ℕ}
    (hn : 1 / (carrierFreq * dt) = n) (hpos : 1 ≤ n) (k : Fin 3) {u : K}
    (hu : -1 ≤ u) (hu' : u ≤ 1) (before : List (Fin 3 → K))
    {us : List (Fin 3 → K)} (hlen : us.length = n)
    (hus : ∀ v ∈ us, v k = u) :
    |((((m.gates (before ++ us)).drop before.length).countP
        fun gate => gate.testBit (2 * k)) : K) - n * (1 + u) / 2| ≤ 1 := by
  have hstep : (m.after before).phaseStep = 1 / n := by
    rw [phaseStep_after, phaseStep_construct hm hn]
  have hcount := card_near hpos (m.after before).phase
    (r := (1 + u) / 4) (by linarith) (by linarith)
  have hshare : (n : K) * (1 + u) / 2 = n * (2 * ((1 + u) / 4)) := by ring
  rw [drop_gates, count_upper hus, hlen, Nat.count_eq_card_filter_range,
    hstep, hshare]
  simpa only [mul_one_div] using hcount

/-- A carrier of ten kilohertz sampled every ten microseconds, at a demand
of 0.3 on the first phase, after three calls at other demands. -/
theorem duty_accuracy_ten :
    ∃ m, construct (1e-5 : ℚ) 1e4 = some m
      ∧ |((((m.gates ([0, 1, 0] ++ List.replicate 10 (fun _ => 0.3))).drop
          3).countP fun gate => gate.testBit (2 * (0 : Fin 3).val)) : ℚ)
        - (10 : ℕ) * (1 + 0.3) / 2| ≤ 1 := by
  have hm : ∃ m, construct (1e-5 : ℚ) 1e4 = some m := by
    unfold construct
    rw [dif_neg (by norm_num)]
    exact ⟨_, rfl⟩
  obtain ⟨m, hm⟩ := hm
  refine ⟨m, hm, ?_⟩
  exact duty_accuracy hm (by norm_num) (by omega) 0 (by norm_num)
    (by norm_num) [0, 1, 0] List.length_replicate
    (fun v hv => by rw [List.eq_of_mem_replicate hv])

end EdgeIpc.Vsc.SpwmModulator
