/-
Signed fixed-point numbers: `w` bits in two's complement, `f` of them
behind the binary point.

# Assignment

An expression is evaluated exactly; what is lost is lost when its value
is assigned to a number of the type. `ofRat` is that assignment in the
default modes: the value is truncated towards minus infinity to a
multiple of `2 ^ -f`, and of the multiple the low `w` bits are kept.

# When nothing wraps

`Truncates x q` says that `x` is `q` up to truncation. An assignment
truncates, as against wraps, exactly if its value is in the range of the
type (`truncates_ofRat_iff`). A value that is a multiple of `2 ^ -f`
already (`OnGrid`: sums of numbers of the type are) comes out unchanged
(`toRat_ofRat`), so that such sums can be followed exactly from
assignment to assignment, and a counter for as long as it does not
overflow (`toRat_countUp`).
-/
import Mathlib.Algebra.Order.Floor.Ring
import Mathlib.Data.Rat.Floor
import Mathlib.Tactic.FieldSimp
import Mathlib.Tactic.Linarith
import Mathlib.Tactic.Ring

namespace EdgeIpc.Lib

/-- The bits of a fixed-point number. -/
structure Fixed (w f : Nat) where
  raw : BitVec w
  deriving DecidableEq, Repr

namespace Fixed

variable {w f : Nat}

/-- The number the bits stand for. -/
def toRat (x : Fixed w f) : ℚ := x.raw.toInt / 2 ^ f

/-- Assignment of an exact value. -/
def ofRat (q : ℚ) : Fixed w f := ⟨BitVec.ofInt w ⌊q * 2 ^ f⌋⟩

/-- `x` is `q`, truncated. -/
def Truncates (x : Fixed w f) (q : ℚ) : Prop :=
  x.toRat ≤ q ∧ q < x.toRat + 1 / 2 ^ f

instance (x : Fixed w f) (q : ℚ) : Decidable (Truncates x q) :=
  inferInstanceAs (Decidable (_ ∧ _))

/-- The range of the type, in units of its last place. -/
def InRange (w f : Nat) (q : ℚ) : Prop :=
  -2 ^ w ≤ 2 * (q * 2 ^ f) ∧ 2 * (q * 2 ^ f) < 2 ^ w

-- ============================================================= truncation

theorem truncates_iff_floor {x : Fixed w f} {q : ℚ} :
    Truncates x q ↔ ⌊q * 2 ^ f⌋ = x.raw.toInt := by
  have hpos : (0 : ℚ) < 2 ^ f := by positivity
  unfold Truncates toRat
  rw [Int.floor_eq_iff, div_le_iff₀ hpos, ← add_div, lt_div_iff₀ hpos]

/-- A value and its floor are in range together: the bounds are whole
numbers. -/
theorem inRange_iff_floor {q : ℚ} (hw : 0 < w) :
    InRange w f q
      ↔ -2 ^ w ≤ 2 * ⌊q * 2 ^ f⌋ ∧ 2 * ⌊q * 2 ^ f⌋ < (2 : ℤ) ^ w := by
  obtain ⟨v, rfl⟩ := Nat.exists_eq_succ_of_ne_zero hw.ne'
  have hlo : -(2 : ℤ) ^ v ≤ ⌊q * 2 ^ f⌋ ↔ -(2 : ℚ) ^ v ≤ q * 2 ^ f := by
    rw [Int.le_floor]
    push_cast
    rfl
  have hhi : ⌊q * 2 ^ f⌋ < (2 : ℤ) ^ v ↔ q * 2 ^ f < (2 : ℚ) ^ v := by
    rw [Int.floor_lt]
    push_cast
    rfl
  unfold InRange
  rw [Nat.succ_eq_add_one, pow_succ, pow_succ]
  constructor
  · rintro ⟨h₁, h₂⟩
    have := hlo.mpr (by linarith)
    have := hhi.mpr (by linarith)
    constructor <;> linarith
  · rintro ⟨h₁, h₂⟩
    have := hlo.mp (by linarith)
    have := hhi.mp (by linarith)
    constructor <;> linarith

/-- What a number truncates is in range. -/
theorem Truncates.inRange {x : Fixed w f} {q : ℚ} (hw : 0 < w)
    (h : Truncates x q) : InRange w f q := by
  rw [truncates_iff_floor] at h
  rw [inRange_iff_floor hw, h]
  exact ⟨BitVec.le_two_mul_toInt, BitVec.two_mul_toInt_lt⟩

/-- An assignment truncates exactly if its value is in range; otherwise
it wraps. -/
theorem truncates_ofRat_iff {q : ℚ} (hw : 0 < w) :
    Truncates (ofRat q : Fixed w f) q ↔ InRange w f q := by
  refine ⟨Truncates.inRange hw, fun h => ?_⟩
  obtain ⟨hlo, hhi⟩ := (inRange_iff_floor hw).mp h
  rw [truncates_iff_floor]
  unfold ofRat
  rw [BitVec.toInt_ofInt]
  refine (Int.bmod_eq_of_le_mul_two ?_ ?_).symm <;> push_cast <;> linarith

-- =============================================================== the grid

/-- A multiple of `2 ^ -f`. -/
def OnGrid (f : Nat) (q : ℚ) : Prop := ∃ n : ℤ, q * 2 ^ f = n

theorem onGrid_toRat (x : Fixed w f) : OnGrid f x.toRat := by
  refine ⟨x.raw.toInt, ?_⟩
  unfold toRat
  field_simp

theorem OnGrid.add {q r : ℚ} (hq : OnGrid f q) (hr : OnGrid f r) :
    OnGrid f (q + r) := by
  obtain ⟨m, hm⟩ := hq
  obtain ⟨n, hn⟩ := hr
  exact ⟨m + n, by rw [add_mul, hm, hn, Int.cast_add]⟩

theorem OnGrid.neg {q : ℚ} (hq : OnGrid f q) : OnGrid f (-q) := by
  obtain ⟨n, hn⟩ := hq
  exact ⟨-n, by rw [neg_mul, hn, Int.cast_neg]⟩

/-- An assignment of a multiple in range loses nothing. -/
theorem toRat_ofRat {q : ℚ} (hw : 0 < w) (hg : OnGrid f q)
    (hr : InRange w f q) : (ofRat q : Fixed w f).toRat = q := by
  have hfloor := truncates_iff_floor.mp ((truncates_ofRat_iff hw).mpr hr)
  obtain ⟨n, hn⟩ := hg
  unfold toRat
  rw [← hfloor, hn, Int.floor_intCast, ← hn]
  field_simp

/-- Truncation does not pass a multiple. -/
theorem le_toRat_ofRat {q r : ℚ} (hw : 0 < w) (hg : OnGrid f r)
    (hle : r ≤ q) (hr : InRange w f q) : r ≤ (ofRat q : Fixed w f).toRat := by
  have hfloor := truncates_iff_floor.mp ((truncates_ofRat_iff hw).mpr hr)
  have hpos : (0 : ℚ) < 2 ^ f := by positivity
  obtain ⟨n, hn⟩ := hg
  unfold toRat
  rw [← hfloor, le_div_iff₀ hpos, hn, Int.cast_le, Int.le_floor, ← hn]
  exact mul_le_mul_of_nonneg_right hle hpos.le

/-- A number that is counted up by another stays exact as long as it is
in range. -/
theorem toRat_countUp {d : Fixed w f} (hw : 0 < w) (x : Fixed w f) :
    ∀ n : Nat, (∀ k ≤ n, InRange w f (x.toRat + k * d.toRat)) →
      ((fun y : Fixed w f => (ofRat (y.toRat + d.toRat) : Fixed w f))^[n]
        x).toRat = x.toRat + n * d.toRat
  | 0, _ => by simp
  | n + 1, hr => by
      have ih := toRat_countUp hw x n fun k hk => hr k (by omega)
      have hsum : x.toRat + (n + 1 : Nat) * d.toRat
          = x.toRat + n * d.toRat + d.toRat := by
        push_cast
        ring
      have hlast := hr (n + 1) le_rfl
      rw [hsum] at hlast ⊢
      rw [Function.iterate_succ_apply', ih]
      refine toRat_ofRat hw ?_ hlast
      rw [← ih]
      exact (onGrid_toRat _).add (onGrid_toRat d)

end Fixed

end EdgeIpc.Lib
