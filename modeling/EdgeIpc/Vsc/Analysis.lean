/-
The settling time of a recorded response (`hil/analysis.py`,
`settle_time_steps`), in exact arithmetic over any ordered field.

A step counts as settled if the signal is within a band of the reference
for a number of steps from there on. The search goes through the steps in
order and `all` stops at the first sample outside the band, so that no
sample behind it is read. Indices are not negative, and an index beyond
the end raises.
-/
import Mathlib.Algebra.Order.Group.Unbundled.Abs
import Mathlib.Algebra.Order.Field.Basic
import Mathlib.Data.Rat.Cast.OfScientific

namespace EdgeIpc.Vsc.Analysis

variable {K : Type} [Field K] [LinearOrder K]

/-- What `settle_time_steps` can raise. -/
inductive PyError where
  /-- `max` of nothing. -/
  | valueError
  /-- A list index out of range. -/
  | indexError
  deriving DecidableEq, Repr

omit [Field K] [LinearOrder K] in
/-- `xs[i]`. -/
def item (xs : List K) (i : Nat) : Except PyError K :=
  match xs[i]? with
  | some x => .ok x
  | none => .error .indexError

/-- `max(abs(r) for r in reference) or 1.0`. -/
def refMax (reference : List K) : Except PyError K :=
  match reference.map abs with
  | [] => .error .valueError
  | r :: rs =>
      let greatest := rs.foldl max r
      .ok (if greatest = 0 then 1 else greatest)

/-- `all(abs(signal[i + j] - reference[i + j]) < tol for j in js)`. -/
def allWithin (signal reference : List K) (tol : K) (i : Nat) :
    List Nat → Except PyError Bool
  | [] => .ok true
  | j :: js =>
      match item signal (i + j), item reference (i + j) with
      | .ok s, .ok r =>
          if |s - r| < tol then allWithin signal reference tol i js
          else .ok false
      | .error e, _ => .error e
      | _, .error e => .error e

/-- The loop over the steps `i`, up to its `return i`. -/
def searchSettled (signal reference : List K) (tol : K)
    (consecutive : Int) : List Nat → Except PyError (Option Nat)
  | [] => .ok none
  | i :: is =>
      match allWithin signal reference tol i (List.range consecutive.toNat) with
      | .ok true => .ok (some i)
      | .ok false => searchSettled signal reference tol consecutive is
      | .error e => .error e

/-- `settle_time_steps(signal, reference, band, consecutive)`. A `range`
of a negative number is empty. -/
def settleTimeSteps (signal reference : List K) (band : K)
    (consecutive : Int) : Except PyError (Option Nat) :=
  match refMax reference with
  | .error e => .error e
  | .ok refMax =>
      searchSettled signal reference (band * refMax) consecutive
        (List.range (signal.length - consecutive).toNat)

/-- The default of `band`. -/
def defaultBand : K := 0.05

/-- The default of `consecutive`. -/
def defaultConsecutive : Int := 10

end EdgeIpc.Vsc.Analysis
