/-
The gate modulator of the control loop (`hil/controller.py`,
`SpwmModulator`), in exact arithmetic over any ordered field with a
floor.

Sinusoidal PWM compares the duty demand of each phase with a triangle
wave and closes the upper switch of the phase where the demand is above
it, the lower one where it is not. The gate state is a Python integer
put together bit by bit: bit `2k` the upper switch of phase `k`, bit
`2k + 1` the lower one.

The constructor divides by the carrier frequency and raises
`ZeroDivisionError` if that is 0; `_carrier` divides by the period, which
is never 0 for a modulator that has been constructed.
-/
import Mathlib.Algebra.Order.Field.Basic
import Mathlib.Algebra.Order.Floor.Defs
import Mathlib.Data.Rat.Cast.OfScientific

namespace EdgeIpc.Vsc

variable {K : Type} [Field K] [LinearOrder K] [FloorRing K]

/-- Python's `x % y`: the remainder has the sign of `y`. -/
def pyMod (x y : K) : K := x - y * ⌊x / y⌋

/-- `class SpwmModulator`. -/
structure SpwmModulator (K : Type) [Field K] where
  dt : K
  carrierPeriod : K
  carrierT : K
  period_ne_zero : carrierPeriod ≠ 0

namespace SpwmModulator

omit [FloorRing K] in
/-- `SpwmModulator(dt, carrier_freq)`: the carrier starts at a quarter of
its period, where it is 0. -/
def construct (dt carrierFreq : K) : Option (SpwmModulator K) :=
  if h : carrierFreq = 0 then none
  else
    some
      { dt
        carrierPeriod := 1 / carrierFreq
        carrierT := 0.25 * (1 / carrierFreq)
        period_ne_zero := one_div_ne_zero h }

/-- `_carrier()`: a triangle wave in [-1, 1]. -/
def carrier (m : SpwmModulator K) : K :=
  let phi := pyMod m.carrierT m.carrierPeriod / m.carrierPeriod
  if phi < 0.5 then 4.0 * phi - 1 else 3.0 - 4.0 * phi

/-- The body of `modulate`'s loop. -/
def setPhase (carrier : K) (u : Fin 3 → K) (gate : Nat) (k : Fin 3) : Nat :=
  if carrier < u k then gate ||| (1 <<< (2 * k.val))
  else gate ||| (1 <<< (2 * k.val + 1))

/-- `modulate(u)`: the modulator after the call, and the gate state. -/
def modulate (m : SpwmModulator K) (u : Fin 3 → K) : SpwmModulator K × Nat :=
  ({ m with carrierT := m.carrierT + m.dt },
    (List.finRange 3).foldl (setPhase m.carrier u) 0)

/-- The gate states of a sequence of calls. -/
def gates : SpwmModulator K → List (Fin 3 → K) → List Nat
  | _, [] => []
  | m, u :: us => (m.modulate u).2 :: gates (m.modulate u).1 us

end SpwmModulator

end EdgeIpc.Vsc
