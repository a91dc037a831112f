/-
What the processor has computed after any history of samples: the filter
stands where `apply` has taken it, sample by sample (`feed`), the
detector's alarm says whether the last `k_` were all outside the band
(`DetectorInv`), and `process_spec` puts the two together. So far no law
of the sample arithmetic is used: the sum may round, and a sample may be
a `nan`. Where the arithmetic is exact, the filter returns the mean of the
last `window_` samples (`FilterInv`, `feed_mean`, `process_mean`).

In `FilterInv` the filter's ring is read through the history: the sample
with number `i` sits in slot `i % window_` as long as it is among the last
`window_`, so the slot about to be overwritten holds the sample about to
leave the window, and the sum follows.

The detector's counter is the length of the current run outside the band
only until the alarm is raised; from then on the alarm no longer depends
on it, which is why a counter that wraps does no harm.
-/
import EdgeIpc.Daemon.DataProcessor
import EdgeIpc.Lib.Fifo
import EdgeIpc.Lib.Window
import Mathlib.Algebra.Order.Field.Basic
import Mathlib.Tactic.NormNum.GCD
import Mathlib.Tactic.NormNum.OfScientific

namespace EdgeIpc.Daemon

open Lib

-- ============================================================= the filter

namespace MovingAverageFilter

variable {K : Type} [Zero K] [Add K] [Sub K] [Div K] [NatCast K]

/-- A fresh filter fed a history through `apply`, and its last output. -/
def feed (w : Nat) (xs : List K) : MovingAverageFilter K × Option K :=
  xs.foldl (fun s x => ((s.1.apply x).1, some (s.1.apply x).2)) (.new w, none)

theorem feed_snoc (w : Nat) (xs : List K) (x : K) :
    feed w (xs ++ [x])
      = (((feed w xs).1.apply x).1, some ((feed w xs).1.apply x).2) := by
  unfold feed
  rw [List.foldl_append]
  rfl

end MovingAverageFilter

open MovingAverageFilter (feed feed_snoc)

section Filter

variable {K : Type} [Field K] {f : MovingAverageFilter K} {w : Nat}
  {xs : List K}

/-- The mean of the last `w` samples, or of all while there are fewer. -/
def mean (w : Nat) (xs : List K) : K :=
  (window w xs).sum / ((window w xs).length : K)

/-- The filter's state after the samples `xs`. -/
structure FilterInv (f : MovingAverageFilter K) (w : Nat) (xs : List K) :
    Prop where
  window : f.window = w
  count : f.count = min xs.length w
  head : f.head = xs.length % w
  sum : f.sum = (Lib.window w xs).sum
  slots : ∀ i x, xs.length ≤ i + w → xs[i]? = some x → f.buf (i % w) = x

theorem filterInv_new (w : Nat) :
    FilterInv (MovingAverageFilter.new w) w ([] : List K) := by
  refine ⟨rfl, ?_, ?_, ?_, ?_⟩
  · exact (Nat.zero_min w).symm
  · exact (Nat.zero_mod w).symm
  · unfold Lib.window
    rw [List.drop_nil]
    rfl
  · intro i x _ hx
    simp at hx

/-- One more sample. -/
theorem filterInv_push (hw : 0 < w) (hi : FilterInv f w xs) (x : K) :
    FilterInv (f.push x) w (xs ++ [x]) := by
  have hlen : (xs ++ [x]).length = xs.length + 1 := by
    rw [List.length_append, List.length_singleton]
  refine ⟨hi.window, ?_, ?_, ?_, ?_⟩
  · show (if f.count < f.window then f.count + 1 else f.count) = _
    rw [hlen, hi.count, hi.window]
    split <;> omega
  · show (f.head + 1) % f.window = _
    rw [hlen, hi.head, hi.window, succ_mod]
  · show (if f.count < f.window then f.sum else f.sum - f.buf f.head) + x = _
    rw [hi.count, hi.window, hi.sum, hi.head]
    split
    next hfill =>
      rw [window_snoc_of_lt x (by omega), List.sum_append,
        List.sum_singleton]
    next hfull =>
      have hle : w ≤ xs.length := by omega
      obtain ⟨oldest, hget, hsum⟩ := window_sum_snoc x hw hle
      -- the slot under the head holds the oldest sample of the window
      have hslot := hi.slots (xs.length - w) oldest (by omega) hget
      rw [← Nat.mod_eq_sub_mod hle] at hslot
      rw [hsum, hslot]
  · intro i y hle hy
    show (if i % w = f.head then x else f.buf (i % w)) = y
    rw [hi.head]
    rw [hlen] at hle
    by_cases hnew : i < xs.length
    · rw [List.getElem?_append_left hnew] at hy
      rw [if_neg (mod_ne_of_lt hnew (by omega))]
      exact hi.slots i y (by omega) hy
    · obtain ⟨hlt, -⟩ := List.getElem?_eq_some_iff.mp hy
      rw [hlen] at hlt
      obtain rfl : i = xs.length := by omega
      rw [if_pos rfl]
      simpa using hy

/-- `apply` returns the mean of the last samples, the new one
included. -/
theorem filter_apply (hw : 0 < w) (hi : FilterInv f w xs) (x : K) :
    FilterInv (f.apply x).1 w (xs ++ [x])
      ∧ (f.apply x).2 = mean w (xs ++ [x]) := by
  have hi' := filterInv_push hw hi x
  refine ⟨hi', ?_⟩
  show (f.push x).sum / ((f.push x).count : K) = _
  unfold mean
  rw [hi'.sum, hi'.count, window_length]

/-- Fed with numbers, the filter returns their mean. -/
theorem feed_mean {w : Nat} (hw : 0 < w) (ys : List K) :
    FilterInv (feed w ys).1 w ys
      ∧ (ys ≠ [] → (feed w ys).2 = some (mean w ys)) := by
  induction ys using List.reverseRecOn with
  | nil => exact ⟨filterInv_new w, fun h => absurd rfl h⟩
  | append_singleton ys y ih =>
      obtain ⟨hi, hmean⟩ := filter_apply hw ih.1 y
      rw [feed_snoc]
      exact ⟨hi, fun _ => congrArg some hmean⟩

end Filter

-- =========================================================== the detector

section Detector

open ThresholdDetector

variable {K : Type} [LT K] [DecidableLT K] {d : ThresholdDetector K}
  {high low : K} {k : Int} {xs : List K}

/-- How many samples outside the band raise the alarm: `k_`, but never
fewer than one. -/
def alarmAfter (k : Int) : Nat := (max k 1).toNat

/-- The detector's state after the samples `xs`. -/
structure DetectorInv (d : ThresholdDetector K) (high low : K) (k : Int)
    (xs : List K) : Prop where
  isHigh : d.high = high
  isLow : d.low = low
  isK : d.k = k
  counter : run (Outside high low) xs < alarmAfter k →
    d.consecutive = run (Outside high low) xs
  alarm : d.alarm = true ↔ alarmAfter k ≤ run (Outside high low) xs

theorem alarmAfter_pos (k : Int) : 0 < alarmAfter k := by
  unfold alarmAfter
  omega

theorem detectorInv_new (high low : K) (k : Int) :
    DetectorInv { high, low, k } high low k [] := by
  refine ⟨rfl, rfl, rfl, fun _ => rfl, ?_⟩
  have hpos := alarmAfter_pos k
  show false = true ↔ alarmAfter k ≤ 0
  constructor
  · intro h
    cases h
  · intro h
    omega

/-- One more sample, for any `int` value of `k_`. -/
theorem detectorInv_apply (hk : k < 2147483648)
    (hi : DetectorInv d high low k xs) (x : K) :
    DetectorInv (d.apply x).1 high low k (xs ++ [x]) := by
  have hpos := alarmAfter_pos k
  have hafter : (alarmAfter k : Int) = max k 1 := by
    unfold alarmAfter
    omega
  unfold ThresholdDetector.apply
  rw [hi.isHigh, hi.isLow]
  split
  next hout =>
    have hrun : run (Outside high low) (xs ++ [x])
        = run (Outside high low) xs + 1 := by
      rw [run_snoc, if_pos hout]
    -- below the threshold the counter is exact, so it cannot wrap
    have hcount : run (Outside high low) xs < alarmAfter k →
        wrap32 (d.consecutive + 1) = run (Outside high low) xs + 1 := by
      intro hlt
      rw [hi.counter hlt]
      unfold wrap32
      omega
    refine ⟨rfl, rfl, hi.isK, fun hlt => ?_, ?_⟩
    · rw [hrun] at hlt ⊢
      exact hcount (by omega)
    · show (if d.k ≤ wrap32 (d.consecutive + 1) then true else d.alarm) = true
        ↔ _
      rw [hrun, hi.isK]
      by_cases hreach : alarmAfter k ≤ run (Outside high low) xs
      · simp only [hi.alarm.mpr hreach, ite_self, true_iff]
        omega
      · rw [hcount (by omega)]
        have hold : d.alarm ≠ true := fun h => hreach (hi.alarm.mp h)
        by_cases hnow : alarmAfter k ≤ run (Outside high low) xs + 1
        · rw [if_pos (by omega)]
          simp [hnow]
        · rw [if_neg (by omega)]
          exact ⟨fun h => absurd h hold, fun h => absurd h hnow⟩
  next hin =>
    have hrun : run (Outside high low) (xs ++ [x]) = 0 := by
      rw [run_snoc, if_neg hin]
    refine ⟨rfl, rfl, hi.isK, fun _ => ?_, ?_⟩
    · rw [hrun]
      rfl
    · rw [hrun]
      constructor
      · intro h
        cases h
      · intro h
        omega

end Detector

-- ========================================================== the processor

/-- The samples of a history of frames. -/
def samples {K : Type} (fs : List (TelemetryFrame K)) : List K :=
  fs.map TelemetryFrame.value

theorem samples_snoc {K : Type} (fs : List (TelemetryFrame K))
    (f : TelemetryFrame K) :
    samples (fs ++ [f]) = samples fs ++ [f.value] := by
  unfold samples
  rw [List.map_append]
  rfl

section Processor

open ThresholdDetector

variable {K : Type} [Zero K] [Add K] [Sub K] [Div K] [NatCast K] [LT K]
  [DecidableLT K] {p : DataProcessor K} {w : Nat} {high low : K} {k : Int}
  {xs : List K}

/-- The processor's state after the samples `xs`. -/
structure ProcessorInv (p : DataProcessor K) (w : Nat) (high low : K)
    (k : Int) (xs : List K) : Prop where
  filter : p.filter = (feed w xs).1
  detector : DetectorInv p.detector high low k xs

theorem processorInv_new (w : Nat) (high low : K) (k : Int) :
    ProcessorInv (DataProcessor.new w high low k) w high low k [] :=
  ⟨rfl, detectorInv_new high low k⟩

/-- `process` after the samples `xs`: the metric carries the frame's id,
what the filter returns after them, and whether the last `k` (at least
one) were all outside the band. -/
theorem process_spec (hk : k < 2147483648)
    (hi : ProcessorInv p w high low k xs) (frame : TelemetryFrame K) :
    ProcessorInv (p.process frame).1 w high low k (xs ++ [frame.value])
      ∧ (p.process frame).2.sensorId = frame.sensorId
      ∧ (p.process frame).2.filteredValue
        = ((feed w xs).1.apply frame.value).2
      ∧ ((p.process frame).2.alarmFlag = true
        ↔ Streak (Outside high low) (alarmAfter k)
            (xs ++ [frame.value])) := by
  have hdetector := detectorInv_apply hk hi.detector frame.value
  refine ⟨⟨?_, hdetector⟩, rfl, ?_, ?_⟩
  · rw [feed_snoc, ← hi.filter]
    rfl
  · rw [← hi.filter]
    rfl
  · rw [streak_iff_le_run]
    exact hdetector.alarm

end Processor

/-- In exact arithmetic the metric carries the mean of the last `w`
samples. -/
theorem process_mean {K : Type} [Field K] [LT K] [DecidableLT K]
    {p : DataProcessor K} {w : Nat} {high low : K} {k : Int} {xs : List K}
    (hw : 0 < w) (hi : ProcessorInv p w high low k xs)
    (frame : TelemetryFrame K) :
    (p.process frame).2.filteredValue = mean w (xs ++ [frame.value]) := by
  show (p.filter.apply frame.value).2 = _
  rw [hi.filter]
  exact (filter_apply hw (feed_mean hw xs).1 frame.value).2

/-- The last three frames are out of the default band. -/
def Alarming {K : Type} [LT K] [OfScientific K]
    (fs : List (TelemetryFrame K)) : Prop :=
  Streak (ThresholdDetector.Outside 80.0 20.0) 3 (samples fs)

theorem alarming_iff {K : Type} [Field K] [LinearOrder K]
    [IsStrictOrderedRing K] (fs : List (TelemetryFrame K)) :
    Alarming fs ↔ Streak (fun x : K => 80 < x ∨ x < 20) 3 (samples fs) := by
  have hband : ThresholdDetector.Outside (80.0 : K) 20.0
      = fun x => 80 < x ∨ x < 20 := by
    funext x
    unfold ThresholdDetector.Outside
    norm_num
  unfold Alarming
  rw [hband]

end EdgeIpc.Daemon
