/-
The two filters by themselves, under any sequence of `apply` and `reset`
calls.

# Calls

What a filter has seen is what was applied since its last reset
(`sinceReset`), and `FilterInv` and `DetectorInv` of Processor.lean are
about that history: a reset is as good as new. So the moving average
returns the mean of the last samples of it (`sliding_mean`), and the
detector's alarm says whether the last of it are all outside the band
(`alarm_iff_streak`).

# The counter

The alarm is right for histories of any length although `consecutive_` is
an `int`: it does not look at the counter once it is on. The increment
itself goes on, and is past the largest `int` after 2^31 samples in a row
outside the band (`no_overflow_iff`).

# Samples that are no numbers

The moving average keeps its sum by adding what comes in and subtracting
what falls out. That is right as long as subtracting undoes adding, which
it does for numbers. A `nan` stays in the sum for ever (`feed_nan`): of
two histories with the same last samples, the outputs agree exactly if
both contain a `nan` or neither does (`ages_out_iff`).
-/
import EdgeIpc.Daemon.Proofs.Processor
import EdgeIpc.Lib.Nan

namespace EdgeIpc.Daemon

open Lib

-- ================================================================== calls

/-- A call through `IDataFilter`. -/
inductive FilterCall (K : Type) where
  | apply (sample : K)
  | reset

/-- The samples applied since the last reset. -/
def sinceReset {K : Type} (calls : List (FilterCall K)) : List K :=
  calls.foldl
    (fun xs call => match call with
      | .apply x => xs ++ [x]
      | .reset => []) []

theorem sinceReset_snoc {K : Type} (calls : List (FilterCall K))
    (call : FilterCall K) :
    sinceReset (calls ++ [call]) = match call with
      | .apply x => sinceReset calls ++ [x]
      | .reset => [] := by
  unfold sinceReset
  rw [List.foldl_append]
  rfl

-- ======================================================= the moving average

section Mean

variable {K : Type} [Field K] {f : MovingAverageFilter K} {w : Nat}
  {xs : List K}

namespace MovingAverageFilter

/-- The filter after a call. -/
def call (f : MovingAverageFilter K) : FilterCall K → MovingAverageFilter K
  | .apply x => (f.apply x).1
  | .reset => f.reset

end MovingAverageFilter

theorem filterInv_reset (hi : FilterInv f w xs) : FilterInv f.reset w [] := by
  obtain ⟨-, hcount, hhead, hsum, hslots⟩ := filterInv_new (K := K) w
  exact ⟨hi.window, hcount, hhead, hsum, hslots⟩

theorem filterInv_call (hw : 0 < w) (calls : List (FilterCall K)) :
    FilterInv (calls.foldl MovingAverageFilter.call (.new w)) w
      (sinceReset calls) := by
  induction calls using List.reverseRecOn with
  | nil => exact filterInv_new w
  | append_singleton calls call ih =>
      rw [List.foldl_append, sinceReset_snoc]
      cases call with
      | apply x => exact (filter_apply hw ih x).1
      | reset => exact filterInv_reset ih

/-- Sliding mean: for every window of at least one and every sequence of
calls, the head is an index of the buffer, and the next `apply` divides by
a number that is not zero and returns the mean of the last
`min n window_` samples since the last reset, itself included. -/
theorem sliding_mean [CharZero K] (hw : 0 < w) (calls : List (FilterCall K))
    (x : K) :
    let f := calls.foldl MovingAverageFilter.call (.new w)
    let xs := sinceReset calls ++ [x]
    f.head < w ∧ ((f.apply x).1.count : K) ≠ 0
      ∧ (f.apply x).2
        = (xs.drop (xs.length - min xs.length w)).sum
          / (min xs.length w : Nat) := by
  intro f xs
  have hi : FilterInv f w (sinceReset calls) := filterInv_call hw calls
  obtain ⟨hi', hmean⟩ := filter_apply hw hi x
  have hlen : 0 < xs.length := by simp [xs]
  refine ⟨?_, ?_, ?_⟩
  · rw [hi.head]
    exact Nat.mod_lt _ hw
  · rw [hi'.count, Nat.cast_ne_zero]
    exact (lt_min hlen hw).ne'
  · have hdrop : xs.length - min xs.length w = xs.length - w := by omega
    rw [hmean, mean, window_length, window, hdrop]

/-- A window of two across a reset: 10, 20, 40, then after the reset 5,
6 and 9. -/
theorem sliding_mean_two :
    let calls : List (FilterCall ℚ) :=
      [.apply 10, .apply 20, .apply 40, .reset, .apply 5, .apply 6]
    ((calls.foldl MovingAverageFilter.call (.new 2)).apply 9).2 = 15 / 2 := by
  intro calls
  have hmean := (sliding_mean (by decide : 0 < 2) calls 9).2.2
  rw [hmean]
  norm_num [calls, sinceReset]

end Mean

-- ============================================================= the detector

section Alarm

open ThresholdDetector

variable {K : Type} [LT K] [DecidableLT K] {d : ThresholdDetector K}
  {high low : K} {k : Int} {xs : List K}

namespace ThresholdDetector

/-- The detector after a call. -/
def call (d : ThresholdDetector K) : FilterCall K → ThresholdDetector K
  | .apply x => (d.apply x).1
  | .reset => d.reset

end ThresholdDetector

theorem detectorInv_reset (hi : DetectorInv d high low k xs) :
    DetectorInv d.reset high low k [] := by
  obtain ⟨-, -, -, hcounter, halarm⟩ := detectorInv_new high low k
  exact ⟨hi.isHigh, hi.isLow, hi.isK, hcounter, halarm⟩

theorem detectorInv_call (high low : K) (hk : k < 2147483648)
    (calls : List (FilterCall K)) :
    DetectorInv (calls.foldl ThresholdDetector.call { high, low, k })
      high low k (sinceReset calls) := by
  induction calls using List.reverseRecOn with
  | nil => exact detectorInv_new high low k
  | append_singleton calls call ih =>
      rw [List.foldl_append, sinceReset_snoc]
      cases call with
      | apply x => exact detectorInv_apply hk ih x
      | reset => exact detectorInv_reset ih

/-- An `int` is below 2^31. -/
theorem toInt_lt (k : BitVec 32) : k.toInt < 2147483648 := by
  have := BitVec.two_mul_toInt_lt (x := k)
  omega

/-- Alarm characterisation: for every band, every `int` value of `k` and
every sequence of calls, the alarm is on exactly if at least `max k 1`
samples were applied since the last reset and the last `max k 1` of them
are all above the high watermark or below the low one. -/
theorem alarm_iff_streak (high low : K) (k : BitVec 32)
    (calls : List (FilterCall K)) :
    let n := (max k.toInt 1).toNat
    let xs := sinceReset calls
    (calls.foldl ThresholdDetector.call
        { high, low, k := k.toInt }).alarm = true
      ↔ n ≤ xs.length
        ∧ ∀ x ∈ xs.drop (xs.length - n), high < x ∨ x < low := by
  have hi := detectorInv_call high low (toInt_lt k) calls
  exact hi.alarm.trans (streak_iff_le_run _ _ _).symm

-- ============================================================== the counter

/-- The counter after the calls is the length of the current run outside
the band, which is a value of an `int`. -/
def CounterExact (high low : K) (k : Int) (calls : List (FilterCall K)) :
    Prop :=
  (calls.foldl ThresholdDetector.call { high, low, k }).consecutive
      = run (Outside high low) (sinceReset calls)
    ∧ run (Outside high low) (sinceReset calls) ≤ 2147483647

/-- An increment that does not leave the `int`s keeps the counter exact;
a sample inside the band and a reset set both to 0. -/
theorem counterExact_snoc (hk : k < 2147483648)
    {calls : List (FilterCall K)} (hi : CounterExact high low k calls)
    {call : FilterCall K}
    (hroom : ∀ x, call = .apply x → Outside high low x →
      run (Outside high low) (sinceReset calls) + 1 ≤ 2147483647) :
    CounterExact high low k (calls ++ [call]) := by
  have hinv := detectorInv_call high low hk calls
  unfold CounterExact
  rw [List.foldl_append, sinceReset_snoc]
  cases call with
  | reset => exact ⟨rfl, Nat.zero_le _⟩
  | apply x =>
      show (ThresholdDetector.apply _ x).1.consecutive = _ ∧ _
      dsimp only
      unfold ThresholdDetector.apply
      rw [hinv.isHigh, hinv.isLow, run_snoc]
      by_cases hout : Outside high low x
      · have hfit := hroom x rfl hout
        rw [if_pos hout, if_pos hout]
        refine ⟨?_, hfit⟩
        show wrap32 (_ + 1) = _
        rw [hi.1]
        unfold wrap32
        omega
      · rw [if_neg hout, if_neg hout]
        exact ⟨rfl, Nat.zero_le _⟩

/-- While no increment leaves the `int`s, the counter is exact. -/
theorem counterExact_of_room (hk : k < 2147483648)
    {calls : List (FilterCall K)}
    (hroom : ∀ pre x post, calls = pre ++ .apply x :: post →
      Outside high low x → CounterExact high low k pre →
      run (Outside high low) (sinceReset pre) + 1 ≤ 2147483647) :
    ∀ pre post, calls = pre ++ post → CounterExact high low k pre := by
  intro pre
  induction pre using List.reverseRecOn with
  | nil => exact fun _ _ => ⟨rfl, Nat.zero_le _⟩
  | append_singleton pre call ih =>
      intro post hcut
      rw [List.append_assoc] at hcut
      have hi := ih _ hcut
      refine counterExact_snoc hk hi ?_
      rintro x rfl hout
      exact hroom pre x post hcut hout hi

/-- Where no run is 2^31 long, the next sample outside the band does not
make it so. -/
theorem room_of_short {calls : List (FilterCall K)}
    (hshort : ∀ pre post, calls = pre ++ post →
      ¬ 2147483648 ≤ run (Outside high low) (sinceReset pre)) :
    ∀ pre x post, calls = pre ++ .apply x :: post → Outside high low x →
      run (Outside high low) (sinceReset pre) + 1 ≤ 2147483647 := by
  intro pre x post hcut hout
  have hnext := hshort (pre ++ [.apply x]) post (by rw [hcut]; simp)
  rw [sinceReset_snoc, run_snoc, if_pos hout] at hnext
  omega

/-- Can the counter overflow? For every band, every `int` value of `k` and
every sequence of calls: each `++consecutive_` stays at most 2^31 - 1
exactly if at no point 2^31 samples in a row, without a reset, have been
outside the band. -/
theorem no_overflow_iff (high low : K) (k : BitVec 32)
    (calls : List (FilterCall K)) :
    (∀ pre x post, calls = pre ++ .apply x :: post → Outside high low x →
        (pre.foldl ThresholdDetector.call
          { high, low, k := k.toInt }).consecutive + 1 ≤ 2147483647)
      ↔ ∀ pre post, calls = pre ++ post →
        ¬ (2147483648 ≤ (sinceReset pre).length
          ∧ ∀ x ∈ (sinceReset pre).drop ((sinceReset pre).length - 2147483648),
            high < x ∨ x < low) := by
  have hk := toInt_lt k
  have hstreak : ∀ pre : List (FilterCall K),
      (2147483648 ≤ (sinceReset pre).length
        ∧ ∀ x ∈ (sinceReset pre).drop ((sinceReset pre).length - 2147483648),
          high < x ∨ x < low)
      ↔ 2147483648 ≤ run (Outside high low) (sinceReset pre) :=
    fun pre => streak_iff_le_run _ _ _
  simp only [hstreak]
  constructor
  · intro hno
    have hroom : ∀ pre x post, calls = pre ++ .apply x :: post →
        Outside high low x → CounterExact high low k.toInt pre →
        run (Outside high low) (sinceReset pre) + 1 ≤ 2147483647 := by
      intro pre x post hcut hout hi
      have hstep := hno pre x post hcut hout
      rw [hi.1] at hstep
      omega
    intro pre post hcut hlong
    have := (counterExact_of_room hk hroom pre post hcut).2
    omega
  · intro hshort
    have hroom := room_of_short hshort
    intro pre x post hcut hout
    have hexact := counterExact_of_room hk
      (fun pre x post hcut hout _ => hroom pre x post hcut hout) pre _ hcut
    have := hroom pre x post hcut hout
    rw [hexact.1]
    omega

/-- The increment at the end of the range. -/
theorem consecutive_wraps (hk : k < 2147483648)
    {calls : List (FilterCall K)} {x : K} (hout : Outside high low x)
    (hcounter : (calls.foldl ThresholdDetector.call
      { high, low, k }).consecutive = 2147483647) :
    ((calls ++ [FilterCall.apply x]).foldl ThresholdDetector.call
      { high, low, k }).consecutive = -2147483648 := by
  have hinv := detectorInv_call high low hk calls
  rw [List.foldl_append]
  show (ThresholdDetector.apply _ x).1.consecutive = _
  unfold ThresholdDetector.apply
  rw [hinv.isHigh, hinv.isLow, if_pos hout]
  show wrap32 (_ + 1) = _
  rw [hcounter]
  rfl

/-- The counter of a detector that sees nothing but one value outside the
band. -/
theorem counterExact_replicate (hk : k < 2147483648) {x : K}
    (hout : Outside high low x) {n : Nat} (hn : n ≤ 2147483647) :
    CounterExact high low k (List.replicate n (.apply x))
      ∧ run (Outside high low) (sinceReset (List.replicate n (.apply x)))
        = n := by
  induction n with
  | zero => exact ⟨⟨rfl, Nat.zero_le _⟩, rfl⟩
  | succ n ih =>
      obtain ⟨hi, hrun⟩ := ih (by omega)
      rw [List.replicate_succ']
      refine ⟨counterExact_snoc hk hi fun _ _ _ => by omega, ?_⟩
      rw [sinceReset_snoc, run_snoc, if_pos hout, hrun]

end Alarm

/-- A detector of the default band under a sample that stays at 100: at
2^31 - 1 samples the counter is at the end of its range, and the next
increment takes it to the other end. -/
theorem counter_overflows :
    ((List.replicate 2147483647 (.apply 100)).foldl ThresholdDetector.call
        ({ high := 80, low := 20, k := 3 } : ThresholdDetector ℚ)).consecutive
      = 2147483647
      ∧ ((List.replicate (2147483647 + 1) (.apply 100)).foldl
        ThresholdDetector.call
        ({ high := 80, low := 20, k := 3 } : ThresholdDetector ℚ)).consecutive
      = -2147483648 := by
  have hout : ThresholdDetector.Outside (80 : ℚ) 20 100 := .inl (by norm_num)
  have hrun := counterExact_replicate (k := 3) (by omega) hout
    (Nat.le_refl 2147483647)
  have hcounter := hrun.1.1
  rw [hrun.2] at hcounter
  refine ⟨hcounter, ?_⟩
  rw [List.replicate_succ']
  exact consecutive_wraps (by omega) hout hcounter

-- ===================================================== samples without value

open MovingAverageFilter (feed feed_snoc)
open WithNan

section Nan

variable {K : Type} [Field K]

/-- Once there has been a `nan`, the sum is one. -/
theorem feed_sum_nan (w : Nat) {xs : List (WithNan K)} (h : nan ∈ xs) :
    (feed w xs).1.sum = nan := by
  induction xs using List.reverseRecOn with
  | nil => cases h
  | append_singleton xs x ih =>
      rw [feed_snoc]
      show (if _ < _ then (feed w xs).1.sum
        else (feed w xs).1.sum - (feed w xs).1.buf (feed w xs).1.head) + x = nan
      rcases List.mem_append.mp h with hold | hnew
      · rw [ih hold, nan_sub, ite_self, nan_add]
      · rw [← List.mem_singleton.mp hnew, add_nan]

/-- And so is every output. -/
theorem feed_nan (w : Nat) {xs : List (WithNan K)} (h : nan ∈ xs) :
    (feed w xs).2 = some nan := by
  cases xs using List.reverseRecOn with
  | nil => cases h
  | append_singleton xs x =>
      have hsum := feed_sum_nan w h
      rw [feed_snoc] at hsum ⊢
      exact congrArg (fun s => some (s / _)) hsum

/-- The filter on samples that are numbers, as a filter on numbers. -/
structure Lifts (f : MovingAverageFilter (WithNan K))
    (g : MovingAverageFilter K) : Prop where
  window : f.window = g.window
  count : f.count = g.count
  head : f.head = g.head
  sum : f.sum = num g.sum
  buf : ∀ i, f.buf i = num (g.buf i)

theorem lifts_push {f : MovingAverageFilter (WithNan K)}
    {g : MovingAverageFilter K} (h : Lifts f g) (x : K) :
    Lifts (f.push (num x)) (g.push x) := by
  refine ⟨h.window, ?_, ?_, ?_, fun i => ?_⟩
  · show (if f.count < f.window then f.count + 1 else f.count) = _
    rw [h.count, h.window]
    rfl
  · show (f.head + 1) % f.window = _
    rw [h.head, h.window]
    rfl
  · show (if f.count < f.window then f.sum else f.sum - f.buf f.head) + num x
      = num ((if g.count < g.window then g.sum else g.sum - g.buf g.head) + x)
    rw [h.count, h.window, h.sum, h.buf, h.head]
    split <;> rfl
  · show (if i = f.head then num x else f.buf i)
      = num (if i = g.head then x else g.buf i)
    rw [h.head, h.buf, apply_ite num]

theorem feed_lifts (w : Nat) (ys : List K) :
    Lifts (feed w (ys.map num)).1 (feed w ys).1
      ∧ (feed w (ys.map num)).2 = (feed w ys).2.map num := by
  induction ys using List.reverseRecOn with
  | nil => exact ⟨⟨rfl, rfl, rfl, rfl, fun _ => rfl⟩, rfl⟩
  | append_singleton ys y ih =>
      have hpush := lifts_push ih.1 y
      rw [List.map_append, List.map_singleton, feed_snoc, feed_snoc]
      refine ⟨hpush, ?_⟩
      show some (((feed w (ys.map num)).1.push (num y)).sum
        / (((feed w (ys.map num)).1.push (num y)).count : WithNan K)) = _
      rw [hpush.sum, hpush.count]
      rfl

theorem feed_num {w : Nat} (hw : 0 < w) {ys : List K} (h : ys ≠ []) :
    (feed w (ys.map num)).2 = some (num (mean w ys)) := by
  rw [(feed_lifts w ys).2, (feed_mean hw ys).2 h]
  rfl

/-- Do bad samples age out? For every window of at least one and any two
histories of numbers and `nan`s, each at least a window long, that agree
on their last window: two fresh filters fed with them return the same for
the last sample exactly if both histories contain a `nan` or neither
does. -/
theorem ages_out_iff {w : Nat} (hw : 0 < w) {xs ys : List (WithNan K)}
    (hx : w ≤ xs.length) (hy : w ≤ ys.length)
    (hagree : window w xs = window w ys) :
    (feed w xs).2 = (feed w ys).2 ↔ (nan ∈ xs ↔ nan ∈ ys) := by
  have hnum : ∀ {zs : List (WithNan K)}, w ≤ zs.length → nan ∉ zs →
      ∃ vs, zs = vs.map num ∧ (feed w zs).2 = some (num (mean w vs)) := by
    intro zs hz hnan
    obtain ⟨vs, rfl⟩ := exists_map_num hnan
    refine ⟨vs, rfl, feed_num hw ?_⟩
    rintro rfl
    simp at hz
    omega
  by_cases hxn : nan ∈ xs
  · by_cases hyn : nan ∈ ys
    · simp [hxn, hyn, feed_nan]
    · obtain ⟨vs, -, hout⟩ := hnum hy hyn
      simp [hxn, hyn, feed_nan, hout]
  · obtain ⟨us, rfl, hxout⟩ := hnum hx hxn
    by_cases hyn : nan ∈ ys
    · simp [hxn, hyn, feed_nan, hxout]
    · obtain ⟨vs, rfl, hyout⟩ := hnum hy hyn
      -- numbers: the same window has the same mean
      rw [window_map, window_map] at hagree
      have hwin := num_injective.list_map hagree
      rw [hxout, hyout, mean, mean, hwin]
      simp [hxn, hyn]

/-- Different old samples, the same last two, no `nan`. -/
theorem ages_out_numbers :
    (feed 2 [num (100 : ℚ), num 1, num 2]).2
      = (feed 2 [num (7 : ℚ), num 1, num 2]).2 := by
  refine (ages_out_iff ?_ ?_ ?_ ?_).mpr ?_ <;> decide

/-- A `nan` that left the window long ago. -/
theorem nan_never_ages_out :
    (feed 1 [nan, num (1 : ℚ)]).2 = some nan
      ∧ (feed 1 [num 0, num (1 : ℚ)]).2 = some (num 1)
      ∧ window 1 [nan, num (1 : ℚ)] = window 1 [num 0, num 1] := by
  decide +kernel

end Nan

end EdgeIpc.Daemon
