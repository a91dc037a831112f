/-
The processing of one sample (src/MovingAverageFilter.cpp,
src/ThresholdDetector.cpp, src/DataProcessor.cpp): a moving average over
the last `window_` samples, an alarm after `k_` consecutive samples
outside the band, and the metric put together from the two.

The sample type is a parameter that needs no more than the code uses: its
arithmetic for the filter, its order for the detector.

`consecutive_` is an `int`, kept here as the value of a 32-bit counter
that wraps (`wrap32`). `buf_[head_]` is a slot of a vector of `window_`
entries; Proofs/Processor.lean shows that the index stays inside.
-/
import EdgeIpc.Daemon.TelemetryReceiver

namespace EdgeIpc.Daemon

-- ============================================================= the filter

/-- `class MovingAverageFilter`. -/
structure MovingAverageFilter (K : Type) where
  window : Nat
  buf : Nat → K
  head : Nat
  count : Nat
  sum : K

namespace MovingAverageFilter

variable {K : Type} [Zero K] [Add K] [Sub K] [Div K] [NatCast K]

omit [Add K] [Sub K] [Div K] [NatCast K] in
/-- `MovingAverageFilter(window)`. -/
def new (window : Nat) : MovingAverageFilter K :=
  { window, buf := fun _ => 0, head := 0, count := 0, sum := 0 }

/-- The filter after a sample: while it fills up nothing leaves, later
the slot about to be overwritten is taken out of the sum. -/
def push (f : MovingAverageFilter K) (sample : K) :
    MovingAverageFilter K :=
  let filling := f.count < f.window
  { f with
    count := if filling then f.count + 1 else f.count
    sum := (if filling then f.sum else f.sum - f.buf f.head) + sample
    buf := fun i => if i = f.head then sample else f.buf i
    head := (f.head + 1) % f.window }

/-- `apply(sample)`: the new state and the average returned. -/
def apply (f : MovingAverageFilter K) (sample : K) :
    MovingAverageFilter K × K :=
  let f := f.push sample
  (f, f.sum / f.count)

/-- `reset()`. -/
def reset (f : MovingAverageFilter K) : MovingAverageFilter K :=
  { f with buf := fun _ => 0, head := 0, count := 0, sum := 0 }

end MovingAverageFilter

-- =========================================================== the detector

/-- The value of a 32-bit two's-complement counter. -/
def wrap32 (n : Int) : Int := (n + 2147483648) % 4294967296 - 2147483648

/-- `class ThresholdDetector`. -/
structure ThresholdDetector (K : Type) where
  high : K
  low : K
  k : Int
  consecutive : Int := 0
  alarm : Bool := false

namespace ThresholdDetector

variable {K : Type} [LT K] [DecidableLT K]

/-- The sample is outside the band: above the high watermark or below
the low one. -/
def Outside (high low sample : K) : Prop := high < sample ∨ sample < low

instance (high low : K) : DecidablePred (Outside high low) :=
  fun _ => inferInstanceAs (Decidable (_ ∨ _))

/-- `apply(sample)`: passes the sample through and updates the alarm. -/
def apply (d : ThresholdDetector K) (sample : K) :
    ThresholdDetector K × K :=
  if Outside d.high d.low sample then
    let consecutive := wrap32 (d.consecutive + 1)
    ({ d with
        consecutive
        alarm := if d.k ≤ consecutive then true else d.alarm }, sample)
  else ({ d with consecutive := 0, alarm := false }, sample)

omit [LT K] [DecidableLT K] in
/-- `reset()`. -/
def reset (d : ThresholdDetector K) : ThresholdDetector K :=
  { d with consecutive := 0, alarm := false }

end ThresholdDetector

-- ========================================================== the processor

/-- `struct ProcessedMetric`. -/
structure ProcessedMetric (K : Type) where
  sensorId : String
  filteredValue : K
  alarmFlag : Bool

/-- `class DataProcessor`. -/
structure DataProcessor (K : Type) where
  filter : MovingAverageFilter K
  detector : ThresholdDetector K

namespace DataProcessor

variable {K : Type} [Zero K] [Add K] [Sub K] [Div K] [NatCast K] [LT K]
  [DecidableLT K]

omit [Add K] [Sub K] [Div K] [NatCast K] [LT K] [DecidableLT K] in
/-- `DataProcessor(w, high, low, k)`. -/
def new (w : Nat) (high low : K) (k : Int) : DataProcessor K :=
  { filter := .new w, detector := { high, low, k } }

/-- `process(frame)`. -/
def process (p : DataProcessor K) (frame : TelemetryFrame K) :
    DataProcessor K × ProcessedMetric K :=
  let (filter, filtered) := p.filter.apply frame.value
  let (detector, _) := p.detector.apply frame.value
  ({ filter, detector }, ⟨frame.sensorId, filtered, detector.alarm⟩)

omit [Add K] [Sub K] [Div K] [NatCast K] [LT K] [DecidableLT K] in
/-- `reset()`. -/
def reset (p : DataProcessor K) : DataProcessor K :=
  { filter := p.filter.reset, detector := p.detector.reset }

end DataProcessor

end EdgeIpc.Daemon
