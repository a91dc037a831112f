/-
What a register with feedback notices besides bursts: errors by the
number of their bits.

# Odd numbers

A polynomial over GF(2) is zero at one exactly if it has an even number of
terms. Where the polynomial of the register has a root there, so has every
multiple of it, and no odd number of flipped bits is one
(`not_dvd_of_odd`).

# Two bits

Two bits a distance `d` apart are a power of `X` times `X ^ d + 1`, which
the polynomial of the register divides exactly if `X ^ d` is one in the
quotient ring. So the two are noticed wherever they stand, as long as the
message is no longer than the order of `X` there (`not_dvd_of_two`).

# The order

The quotient ring is computed with in the registers themselves: a register
stands for its residue class (`residue`), a shift multiplies by `X`, and a
product is a Horner scheme of shifts (`mulReg`), a power repeated squaring
(`powReg`). An order is then settled by finitely many powers
(`orderOf_root`).
-/
import Mathlib.GroupTheory.OrderOfElement
import Mathlib.RingTheory.AdjoinRoot
import EdgeIpc.Lib.Crc

namespace EdgeIpc.Lib

open Polynomial

variable {w k : Nat}

-- =============================================================== the weight

/-- The number of bits set in a message. -/
def weight (e : List (BitVec k)) : Nat :=
  ((Finset.range (k * e.length)).filter fun j => msgBit e j = true).card

theorem weight_append (a b : List (BitVec k)) :
    weight (a ++ b) = weight a + weight b := by
  simp only [weight, Finset.card_filter]
  rw [List.length_append, mul_add, Finset.sum_range_add]
  congr 1
  · refine Finset.sum_congr rfl fun j hj => ?_
    rw [msgBit_append_left b (Finset.mem_range.mp hj)]
  · refine Finset.sum_congr rfl fun i hi => ?_
    have hi := Finset.mem_range.mp hi
    have hk : 0 < k := Nat.pos_of_mul_pos_right (Nat.zero_lt_of_lt hi)
    rw [msgBit_append_right a b hk]

/-- A message's polynomial, by its set bits. -/
theorem msgPoly_eq_sum (e : List (BitVec k)) :
    msgPoly e = ∑ j ∈ (Finset.range (k * e.length)).filter
      (fun j => msgBit e j = true), X ^ (k * e.length - 1 - j) :=
  (Finset.sum_filter ..).symm

theorem eval_msgPoly (e : List (BitVec k)) :
    (msgPoly e).eval 1 = (weight e : ZMod 2) := by
  rw [msgPoly_eq_sum, eval_finsetSum, weight, Finset.cast_card]
  refine Finset.sum_congr rfl fun j _ => ?_
  rw [eval_pow, eval_X, one_pow]

/-- A polynomial with a root at one divides no error of odd weight. -/
theorem not_dvd_of_odd {g : (ZMod 2)[X]} (hg : g.eval 1 = 0)
    {e : List (BitVec k)} (h : Odd (weight e)) : ¬ g ∣ msgPoly e := by
  intro hdvd
  have hroot := eval_dvd hdvd (x := 1)
  rw [hg, zero_dvd_iff, eval_msgPoly] at hroot
  exact ZMod.natCast_ne_zero_iff_odd.mpr h hroot

-- ========================================================= residue classes

section Residue

variable {taps : BitVec w}

/-- The residue class a register stands for. -/
noncomputable def residue (taps x : BitVec w) : AdjoinRoot (tapPoly taps) :=
  AdjoinRoot.mk _ (bitPoly x)

/-- A register is the only one of its class. -/
theorem residue_inj {x y : BitVec w} (h : residue taps x = residue taps y) :
    x = y := by
  have hdvd := AdjoinRoot.mk_eq_mk.mp h
  have hmod := modByMonic_eq_of_dvd_sub (tapPoly_monic taps) hdvd
  rw [bitPoly_mod, bitPoly_mod] at hmod
  exact bitPoly_inj hmod

theorem residue_zero : residue taps 0#w = 0 := by
  have hzero : bitPoly 0#w = 0 := by simp [bitPoly]
  rw [residue, hzero, map_zero]

theorem residue_one (hw : 0 < w) : residue taps 1#w = 1 := by
  have hone : bitPoly 1#w = 1 := by
    ext n
    rw [coeff_bitPoly, BitVec.getLsbD_one, coeff_one]
    simp [hw]
  rw [residue, hone, map_one]

theorem residue_xor (x y : BitVec w) :
    residue taps (x ^^^ y) = residue taps x + residue taps y := by
  rw [residue, bitPoly_xor, map_add]
  rfl

theorem residue_shiftBit (x : BitVec w) :
    residue taps (shiftBit taps x)
      = AdjoinRoot.root (tapPoly taps) * residue taps x := by
  rw [residue, bitPoly_shiftBit, ← AdjoinRoot.mk_X, residue, ← map_mul]
  exact AdjoinRoot.mk_eq_mk.mpr (dvd_modByMonic_sub _ _)

/-- The first `n` bits of `a`, the most significant first, times `b`. -/
def mulTop (taps a b : BitVec w) : Nat → BitVec w
  | 0 => 0#w
  | n + 1 =>
      shiftBit taps (mulTop taps a b n) ^^^ (if a.getMsbD n then b else 0#w)

/-- The product of two registers. -/
def mulReg (taps a b : BitVec w) : BitVec w := mulTop taps a b w

theorem residue_mulTop (a b : BitVec w) (n : Nat) :
    residue taps (mulTop taps a b n)
      = AdjoinRoot.mk _ (∑ i ∈ Finset.range n,
          if a.getMsbD i then X ^ (n - 1 - i) else 0) * residue taps b := by
  induction n with
  | zero => rw [mulTop, residue_zero, Finset.sum_range_zero, map_zero, zero_mul]
  | succ n ih =>
      have hshift : ∑ i ∈ Finset.range n,
            (if a.getMsbD i then X ^ (n - i) else 0 : (ZMod 2)[X])
          = X * ∑ i ∈ Finset.range n,
            if a.getMsbD i then X ^ (n - 1 - i) else 0 := by
        rw [Finset.mul_sum]
        refine Finset.sum_congr rfl fun i hi => ?_
        have hexp : n - i = n - 1 - i + 1 := by
          have := Finset.mem_range.mp hi
          omega
        rw [hexp, mul_ite, mul_zero, pow_succ']
      have hlast : residue taps (if a.getMsbD n then b else 0#w)
          = AdjoinRoot.mk _ (if a.getMsbD n then X ^ (n - n) else 0)
            * residue taps b := by
        cases a.getMsbD n
        · simp [residue_zero]
        · simp
      rw [mulTop, residue_xor, residue_shiftBit, ih, hlast,
        Finset.sum_range_succ, Nat.add_sub_cancel, hshift, map_add, map_mul,
        AdjoinRoot.mk_X]
      ring

theorem residue_mulReg (a b : BitVec w) :
    residue taps (mulReg taps a b) = residue taps a * residue taps b := by
  rw [mulReg, residue_mulTop, ← bitPoly_eq_sum_msb]
  rfl

/-- The `n`-th power of a register, for `n` of at most `bits` bits. -/
def powReg (taps x : BitVec w) : Nat → Nat → BitVec w
  | 0, _ => 1#w
  | bits + 1, n =>
      let half := powReg taps x bits (n / 2)
      let square := mulReg taps half half
      if n % 2 = 1 then mulReg taps square x else square

theorem residue_powReg (hw : 0 < w) (x : BitVec w) {bits n : Nat}
    (h : n < 2 ^ bits) :
    residue taps (powReg taps x bits n) = residue taps x ^ n := by
  induction bits generalizing n with
  | zero =>
      obtain rfl : n = 0 := by omega
      rw [powReg, residue_one hw, pow_zero]
  | succ bits ih =>
      have hhalf := ih (n := n / 2) (by omega)
      rw [powReg]
      by_cases hodd : n % 2 = 1
      · have hn : n = n / 2 + n / 2 + 1 := by omega
        rw [if_pos hodd, residue_mulReg, residue_mulReg, hhalf, ← pow_add,
          ← pow_succ, ← hn]
      · have hn : n = n / 2 + n / 2 := by omega
        rw [if_neg hodd, residue_mulReg, hhalf, ← pow_add, ← hn]

end Residue

-- =============================================================== the order

/-- `X` to the power `n`, in a register. -/
def powX (taps : BitVec w) (bits n : Nat) : BitVec w :=
  powReg taps (shiftBit taps 1#w) bits n

theorem root_pow_eq_one_iff {taps : BitVec w} (hw : 0 < w) {bits n : Nat}
    (h : n < 2 ^ bits) :
    AdjoinRoot.root (tapPoly taps) ^ n = 1 ↔ powX taps bits n = 1#w := by
  have hpow : residue taps (powX taps bits n)
      = AdjoinRoot.root (tapPoly taps) ^ n := by
    rw [powX, residue_powReg hw _ h, residue_shiftBit, residue_one hw, mul_one]
  rw [← hpow, ← residue_one hw]
  exact ⟨residue_inj, congrArg _⟩

/-- The order of `X`: a power that is one, and none that is a prime factor
below. -/
theorem orderOf_root {taps : BitVec w} (hw : 0 < w) (bits : Nat) {n : Nat}
    (h : n < 2 ^ bits) (hpos : 0 < n) (hone : powX taps bits n = 1#w)
    (hprime : ∀ p, p.Prime → p ∣ n → powX taps bits (n / p) ≠ 1#w) :
    orderOf (AdjoinRoot.root (tapPoly taps)) = n := by
  refine orderOf_eq_of_pow_and_pow_div_prime hpos
    ((root_pow_eq_one_iff hw h).mpr hone) fun p hp hdvd hpow => ?_
  have hlt : n / p < 2 ^ bits := lt_of_le_of_lt (Nat.div_le_self n p) h
  exact hprime p hp hdvd ((root_pow_eq_one_iff hw hlt).mp hpow)

/-- No error of two bits goes unnoticed in a message no longer than the
order of `X`. -/
theorem not_dvd_of_two {taps : BitVec w} (hw : 0 < w)
    (htap : taps.getLsbD 0 = true) {e : List (BitVec k)} (h : weight e = 2)
    (hlen : k * e.length ≤ orderOf (AdjoinRoot.root (tapPoly taps))) :
    ¬ tapPoly taps ∣ msgPoly e := by
  intro hdvd
  -- the two positions, in order
  obtain ⟨a, b, hlt, hset⟩ : ∃ a b, a < b
      ∧ (Finset.range (k * e.length)).filter (fun j => msgBit e j = true)
        = {a, b} := by
    obtain ⟨a, b, hne, hset⟩ := Finset.card_eq_two.mp h
    rcases lt_or_gt_of_ne hne with hlt | hlt
    · exact ⟨a, b, hlt, hset⟩
    · exact ⟨b, a, hlt, hset.trans (Finset.pair_comm a b)⟩
  have hb : b < k * e.length := by
    have hmem : b ∈ (Finset.range (k * e.length)).filter
        (fun j => msgBit e j = true) := by
      rw [hset]
      exact Finset.mem_insert_of_mem (Finset.mem_singleton_self b)
    exact Finset.mem_range.mp (Finset.mem_filter.mp hmem).1
  have hpoly : msgPoly e
      = X ^ (k * e.length - 1 - b) * (X ^ (b - a) + 1) := by
    have hexp : k * e.length - 1 - a = k * e.length - 1 - b + (b - a) := by
      omega
    rw [msgPoly_eq_sum, hset, Finset.sum_pair hlt.ne, hexp, pow_add, mul_add,
      mul_one]
  rw [hpoly] at hdvd
  have hcop := isCoprime_tapPoly hw htap
  have hfactor := (IsCoprime.pow_right hcop).dvd_of_dvd_mul_left hdvd
  have hpow : AdjoinRoot.root (tapPoly taps) ^ (b - a) = 1 := by
    rw [← CharTwo.sub_eq_add] at hfactor
    have hmk := AdjoinRoot.mk_eq_mk.mpr hfactor
    rwa [map_pow, map_one, AdjoinRoot.mk_X] at hmk
  have hle := Nat.le_of_dvd (by omega) (orderOf_dvd_of_pow_eq_one hpow)
  omega

end EdgeIpc.Lib
