/-
Cyclic redundancy checks: shift registers with feedback as division of
polynomials over GF(2).

# The register

A bit vector is the polynomial with its bits as coefficients (`bitPoly`),
so exclusive or is addition. A register that shifts left and adds its
taps when a one falls out multiplies by `X` modulo the polynomial
`X ^ w + bitPoly taps` (`bitPoly_shiftBit`): what falls out is `X ^ w`,
and the taps are what that is congruent to. A word added in at the top and
shifted through is the next digit of a long division (`bitPoly_absorb`),
and a whole message leaves its remainder (`bitPoly_absorbAll`).

# Bursts

The remainder is linear in the message, so an error goes unnoticed only
if the polynomial of the error is divisible by that of the register. A
burst no longer than the register is a power of `X` times a polynomial of
lower degree, and a register whose lowest tap is set has no factor `X`
(`absorbAll_burst`).
-/
import Mathlib.Algebra.CharP.Two
import Mathlib.Algebra.Field.ZMod
import Mathlib.Algebra.Polynomial.Div
import Mathlib.Data.List.GetD
import Mathlib.Data.ZMod.Basic
import Mathlib.RingTheory.Coprime.Lemmas
import Mathlib.Tactic.LinearCombination

namespace EdgeIpc.Lib

open Polynomial

variable {w k : Nat}

-- ========================================================== bit vectors

/-- The polynomial of a bit vector: bit `i` is the coefficient of
`X ^ i`. -/
noncomputable def bitPoly (x : BitVec w) : (ZMod 2)[X] :=
  ∑ i ∈ Finset.range w, if x.getLsbD i then X ^ i else 0

theorem coeff_bitPoly (x : BitVec w) (n : Nat) :
    (bitPoly x).coeff n = if x.getLsbD n then 1 else 0 := by
  have hterm : ∀ i, (if x.getLsbD i then X ^ i else 0 : (ZMod 2)[X]).coeff n
      = if n = i then (if x.getLsbD n then 1 else 0) else 0 := by
    intro i
    by_cases hi : n = i
    · subst hi
      cases x.getLsbD n <;> simp
    · cases x.getLsbD i <;> simp [coeff_X_pow, hi]
  rw [bitPoly, finsetSum_coeff, Finset.sum_congr rfl fun i _ => hterm i,
    Finset.sum_ite_eq]
  by_cases hn : n < w
  · rw [if_pos (Finset.mem_range.mpr hn)]
  · rw [if_neg (Finset.mem_range.not.mpr hn),
      BitVec.getLsbD_of_ge x n (by omega)]
    rfl

theorem bitPoly_xor (x y : BitVec w) :
    bitPoly (x ^^^ y) = bitPoly x + bitPoly y := by
  ext n
  rw [coeff_add, coeff_bitPoly, coeff_bitPoly, coeff_bitPoly,
    BitVec.getLsbD_xor]
  cases x.getLsbD n <;> cases y.getLsbD n <;> decide

theorem bitPoly_append (x : BitVec w) (y : BitVec k) :
    bitPoly (x ++ y) = bitPoly x * X ^ k + bitPoly y := by
  ext n
  rw [coeff_add, coeff_bitPoly, coeff_mul_X_pow', coeff_bitPoly,
    coeff_bitPoly, BitVec.getLsbD_append]
  by_cases hn : n < k
  · simp [hn, not_le.mpr hn]
  · rw [BitVec.getLsbD_of_ge y n (not_lt.mp hn)]
    simp [hn, not_lt.mp hn]

theorem degree_bitPoly_lt (x : BitVec w) : (bitPoly x).degree < w := by
  rw [degree_lt_iff_coeff_zero]
  intro n hn
  rw [coeff_bitPoly, BitVec.getLsbD_of_ge x n hn]
  rfl

theorem bitPoly_inj {x y : BitVec w} (h : bitPoly x = bitPoly y) :
    x = y := by
  apply BitVec.eq_of_getLsbD_eq
  intro i hi
  have hi := congrArg (fun p => p.coeff i) h
  simp only [coeff_bitPoly] at hi
  cases hx : x.getLsbD i <;> cases hy : y.getLsbD i <;> simp_all

-- ========================================================= the register

/-- One bit through the register: shift left, and add the taps when a
one falls out. -/
def shiftBit (taps x : BitVec w) : BitVec w :=
  if x.msb then (x <<< 1) ^^^ taps else x <<< 1

/-- The polynomial the register divides by. -/
noncomputable def tapPoly (taps : BitVec w) : (ZMod 2)[X] :=
  X ^ w + bitPoly taps

theorem tapPoly_monic (taps : BitVec w) : (tapPoly taps).Monic :=
  monic_X_pow_add (degree_bitPoly_lt taps)

theorem degree_tapPoly (taps : BitVec w) : (tapPoly taps).degree = w := by
  rw [tapPoly, degree_add_eq_left_of_degree_lt, degree_X_pow]
  rw [degree_X_pow]
  exact degree_bitPoly_lt taps

/-- A shift multiplies by `X`, but for the bit that falls out. -/
theorem bitPoly_shiftLeft_one (x : BitVec w) :
    X * bitPoly x = bitPoly (x <<< 1) + if x.msb then X ^ w else 0 := by
  ext n
  have hmsb : x.msb = (decide (0 < w) && x.getLsbD (w - 1)) := by
    rw [BitVec.msb_eq_getLsbD_last]
    cases w with
    | zero => simp
    | succ w => simp
  rw [coeff_add, coeff_bitPoly, BitVec.getLsbD_shiftLeft]
  cases n with
  | zero =>
      rw [mul_coeff_zero, coeff_X_zero, zero_mul]
      cases hw : x.msb
      · simp
      · have hpos : 0 < w := by
          rw [hmsb] at hw
          simp_all
        simp [hpos.ne]
  | succ n =>
      rw [coeff_X_mul, coeff_bitPoly]
      by_cases hn : n + 1 < w
      · have hne : n + 1 ≠ w := by omega
        cases x.msb <;> simp [hn, coeff_X_pow, hne]
      · by_cases heq : n + 1 = w
        · subst heq
          have hlast : x.getLsbD n = x.msb := by
            rw [hmsb]
            simp
          rw [hlast]
          cases x.msb <;> simp
        · have hlsb : x.getLsbD n = false := BitVec.getLsbD_of_ge x n (by omega)
          cases x.msb <;> simp [hn, hlsb, coeff_X_pow, heq]

/-- A bit through the register multiplies by `X` modulo its
polynomial. -/
theorem bitPoly_shiftBit (taps x : BitVec w) :
    bitPoly (shiftBit taps x) = (X * bitPoly x) %ₘ tapPoly taps := by
  have hdeg : (bitPoly (shiftBit taps x)).degree < (tapPoly taps).degree := by
    rw [degree_tapPoly]
    exact degree_bitPoly_lt _
  have hsum : bitPoly (shiftBit taps x)
      + tapPoly taps * (if x.msb then 1 else 0) = X * bitPoly x := by
    rw [bitPoly_shiftLeft_one, shiftBit]
    cases x.msb
    · simp
    · -- the taps are added twice
      simp only [if_true, bitPoly_xor, tapPoly, mul_one]
      rw [add_assoc, add_comm (X ^ w), ← add_assoc (bitPoly taps),
        CharTwo.add_self_eq_zero, zero_add]
  exact (div_modByMonic_unique _ _ (tapPoly_monic taps) ⟨hsum, hdeg⟩).2.symm

/-- The register's content is its own remainder. -/
theorem bitPoly_mod (taps x : BitVec w) :
    bitPoly x %ₘ tapPoly taps = bitPoly x := by
  rw [modByMonic_eq_self_iff (tapPoly_monic taps), degree_tapPoly]
  exact degree_bitPoly_lt x

/-- A factor may be reduced before it is multiplied. -/
theorem mul_mod_mod {g : (ZMod 2)[X]} (hg : g.Monic) (p q : (ZMod 2)[X]) :
    (p * (q %ₘ g)) %ₘ g = (p * q) %ₘ g := by
  apply modByMonic_eq_of_dvd_sub hg
  rw [← mul_sub]
  exact dvd_mul_of_dvd_right (dvd_modByMonic_sub q g) p

theorem bitPoly_iterate (taps x : BitVec w) (n : Nat) :
    bitPoly ((shiftBit taps)^[n] x) = (X ^ n * bitPoly x) %ₘ tapPoly taps := by
  induction n with
  | zero => rw [pow_zero, one_mul, bitPoly_mod, Function.iterate_zero_apply]
  | succ n ih =>
      rw [Function.iterate_succ_apply', bitPoly_shiftBit, ih,
        mul_mod_mod (tapPoly_monic taps), pow_succ', mul_assoc]

-- ============================================================ the message

/-- A word added in at the top of the register and shifted through. -/
def absorb (taps x : BitVec w) (b : BitVec k) : BitVec w :=
  (shiftBit taps)^[k] (x ^^^ (b.setWidth w <<< (w - k)))

/-- Bit `j` of a message of words, the most significant bit of each word
first. -/
def msgBit (data : List (BitVec k)) (j : Nat) : Bool :=
  (data.getD (j / k) 0#k).getMsbD (j % k)

/-- The polynomial of a message: its first bit is the coefficient of the
highest power. -/
noncomputable def msgPoly (data : List (BitVec k)) : (ZMod 2)[X] :=
  ∑ j ∈ Finset.range (k * data.length),
    if msgBit data j then X ^ (k * data.length - 1 - j) else 0

/-- A word's own polynomial, summed from its most significant bit. -/
theorem bitPoly_eq_sum_msb (b : BitVec k) :
    bitPoly b
      = ∑ i ∈ Finset.range k, if b.getMsbD i then X ^ (k - 1 - i) else 0 := by
  rw [bitPoly, ← Finset.sum_range_reflect]
  refine Finset.sum_congr rfl fun i hi => ?_
  rw [BitVec.getMsbD_eq_getLsbD]
  simp [Finset.mem_range.mp hi]

theorem msgPoly_singleton (b : BitVec k) : msgPoly [b] = bitPoly b := by
  rw [msgPoly, List.length_singleton, mul_one, bitPoly_eq_sum_msb]
  refine Finset.sum_congr rfl fun i hi => ?_
  have hi := Finset.mem_range.mp hi
  have hbit : msgBit [b] i = b.getMsbD i := by
    unfold msgBit
    rw [Nat.div_eq_of_lt hi, Nat.mod_eq_of_lt hi]
    rfl
  rw [hbit]

theorem msgBit_append_left {a : List (BitVec k)} (b : List (BitVec k))
    {j : Nat} (h : j < k * a.length) : msgBit (a ++ b) j = msgBit a j := by
  unfold msgBit
  rw [List.getD_append _ _ _ _ (Nat.div_lt_of_lt_mul h)]

theorem msgBit_append_right (a b : List (BitVec k)) (hk : 0 < k) (i : Nat) :
    msgBit (a ++ b) (k * a.length + i) = msgBit b i := by
  unfold msgBit
  rw [Nat.mul_add_div hk, Nat.mul_add_mod,
    List.getD_append_right _ _ _ _ (Nat.le_add_right _ _),
    Nat.add_sub_cancel_left]

/-- A message behind another holds the lower powers. -/
theorem msgPoly_append (a b : List (BitVec k)) :
    msgPoly (a ++ b) = msgPoly a * X ^ (k * b.length) + msgPoly b := by
  have hlen : k * (a ++ b).length = k * a.length + k * b.length := by
    rw [List.length_append, mul_add]
  rw [msgPoly, hlen, Finset.sum_range_add, msgPoly, msgPoly, Finset.sum_mul]
  congr 1
  · refine Finset.sum_congr rfl fun j hj => ?_
    have hj := Finset.mem_range.mp hj
    have hexp : k * a.length + k * b.length - 1 - j
        = k * a.length - 1 - j + k * b.length := by omega
    rw [msgBit_append_left b hj, hexp, ite_mul, zero_mul, pow_add]
  · refine Finset.sum_congr rfl fun i hi => ?_
    have hi := Finset.mem_range.mp hi
    have hk : 0 < k := Nat.pos_of_mul_pos_right (Nat.zero_lt_of_lt hi)
    have hexp : k * a.length + k * b.length - 1 - (k * a.length + i)
        = k * b.length - 1 - i := by omega
    rw [msgBit_append_right a b hk, hexp]

/-- A word moved to the top of the register. -/
theorem bitPoly_top (hk : k ≤ w) (b : BitVec k) :
    bitPoly (b.setWidth w <<< (w - k)) = bitPoly b * X ^ (w - k) := by
  ext n
  rw [coeff_bitPoly, coeff_mul_X_pow', coeff_bitPoly,
    BitVec.getLsbD_shiftLeft, BitVec.getLsbD_setWidth]
  by_cases hn : w - k ≤ n
  · by_cases hw : n < w
    · have hlt : n - (w - k) < w := by omega
      simp [hn, hw, hlt, not_lt.mpr hn]
    · have hlsb : b.getLsbD (n - (w - k)) = false :=
        BitVec.getLsbD_of_ge b _ (by omega)
      simp [hw, hlsb]
  · simp [hn, lt_of_not_ge hn]

theorem bitPoly_absorb (hk : k ≤ w) (taps x : BitVec w) (b : BitVec k) :
    bitPoly (absorb taps x b)
      = (bitPoly x * X ^ k + bitPoly b * X ^ w) %ₘ tapPoly taps := by
  rw [absorb, bitPoly_iterate, bitPoly_xor, bitPoly_top hk]
  refine congrArg (· %ₘ tapPoly taps) ?_
  have hpow : (X : (ZMod 2)[X]) ^ w = X ^ (w - k) * X ^ k := by
    rw [← pow_add, Nat.sub_add_cancel hk]
  rw [hpow]
  ring

/-- A message leaves the remainder of its polynomial, with what the
register held before in front of it. -/
theorem bitPoly_absorbAll (hk : k ≤ w) (taps x : BitVec w)
    (data : List (BitVec k)) :
    bitPoly (data.foldl (absorb taps) x)
      = (msgPoly data * X ^ w + bitPoly x * X ^ (k * data.length))
        %ₘ tapPoly taps := by
  have hg := tapPoly_monic taps
  induction data using List.reverseRecOn with
  | nil =>
      have hnil : msgPoly ([] : List (BitVec k)) = 0 := by simp [msgPoly]
      rw [hnil]
      simp [bitPoly_mod]
  | append_singleton data b ih =>
      rw [List.foldl_append, List.foldl_cons, List.foldl_nil,
        bitPoly_absorb hk, ih, add_modByMonic, mul_comm (_ %ₘ _),
        mul_mod_mod hg, ← add_modByMonic, msgPoly_append, msgPoly_singleton,
        List.length_append, List.length_singleton, mul_one, Nat.mul_succ,
        pow_add]
      refine congrArg (· %ₘ tapPoly taps) ?_
      ring

-- ================================================================= bursts

/-- The bits of two messages, added. -/
def xorAll (data e : List (BitVec k)) : List (BitVec k) :=
  List.zipWith (· ^^^ ·) data e

theorem xorAll_length {data e : List (BitVec k)}
    (h : e.length = data.length) : (xorAll data e).length = data.length := by
  rw [xorAll, List.length_zipWith, h, min_self]

theorem xorAll_append {a b e e' : List (BitVec k)}
    (h : e.length = a.length) :
    xorAll (a ++ b) (e ++ e') = xorAll a e ++ xorAll b e' :=
  List.zipWith_append h.symm

theorem msgBit_xorAll {data e : List (BitVec k)}
    (h : e.length = data.length) (j : Nat) :
    msgBit (xorAll data e) j = (msgBit data j ^^ msgBit e j) := by
  unfold msgBit xorAll
  by_cases hj : j / k < data.length
  · simp [List.getD_eq_getElem?_getD, hj, h ▸ hj]
  · simp [List.getD_eq_getElem?_getD, hj, h]

theorem msgPoly_xorAll {data e : List (BitVec k)}
    (h : e.length = data.length) :
    msgPoly (xorAll data e) = msgPoly data + msgPoly e := by
  rw [msgPoly, msgPoly, msgPoly, xorAll_length h, h,
    ← Finset.sum_add_distrib]
  refine Finset.sum_congr rfl fun j _ => ?_
  rw [msgBit_xorAll h]
  cases msgBit data j <;> cases msgBit e j <;>
    simp [CharTwo.add_self_eq_zero]

/-- An error changes the remainder by its own. -/
theorem absorbAll_xorAll (hk : k ≤ w) (taps x : BitVec w)
    {data e : List (BitVec k)} (h : e.length = data.length) :
    bitPoly ((xorAll data e).foldl (absorb taps) x)
      = bitPoly (data.foldl (absorb taps) x)
        + (msgPoly e * X ^ w) %ₘ tapPoly taps := by
  rw [bitPoly_absorbAll hk, bitPoly_absorbAll hk, xorAll_length h,
    msgPoly_xorAll h, add_mul, add_right_comm, add_modByMonic]

theorem coeff_msgPoly (data : List (BitVec k)) (n : Nat) :
    (msgPoly data).coeff n = if n < k * data.length
        ∧ msgBit data (k * data.length - 1 - n) = true then 1 else 0 := by
  generalize hN : k * data.length = N
  have hterm : ∀ j ∈ Finset.range N,
      (if msgBit data j then X ^ (N - 1 - j) else 0 : (ZMod 2)[X]).coeff n
      = if j = N - 1 - n then
          (if n < N ∧ msgBit data (N - 1 - n) = true then 1 else 0) else 0 := by
    intro j hj
    have hj := Finset.mem_range.mp hj
    by_cases heq : n = N - 1 - j
    · have hback : j = N - 1 - n := by omega
      have hn : n < N := by omega
      rw [if_pos hback, ← hback, ← heq]
      cases msgBit data j <;> simp [hn]
    · by_cases hback : j = N - 1 - n
      · have hn : ¬ n < N := by omega
        have hnone : ¬ (n < N ∧ msgBit data (N - 1 - n) = true) :=
          fun h => hn h.1
        rw [if_neg hnone, ite_self]
        cases msgBit data j <;> simp [coeff_X_pow, heq]
      · cases msgBit data j <;> simp [coeff_X_pow, heq, hback]
  rw [msgPoly, hN, finsetSum_coeff, Finset.sum_congr rfl hterm,
    Finset.sum_ite_eq']
  by_cases hn : n < N
  · rw [if_pos (Finset.mem_range.mpr (by omega))]
  · simp [hn]

/-- A set bit lies in the message. -/
theorem lt_of_msgBit {data : List (BitVec k)} {j : Nat}
    (h : msgBit data j = true) : j < k * data.length := by
  unfold msgBit at h
  have hk : 0 < k := by
    by_contra hk
    obtain rfl : k = 0 := by omega
    simp at h
  by_contra hj
  have hword : data.length ≤ j / k :=
    (Nat.le_div_iff_mul_le hk).mpr (by rw [mul_comm]; omega)
  rw [List.getD_eq_default _ _ hword] at h
  simp at h

/-- A register whose lowest tap is set divides by a polynomial without
the factor `X`. -/
theorem isCoprime_tapPoly {taps : BitVec w} (hw : 0 < w)
    (htap : taps.getLsbD 0 = true) : IsCoprime (tapPoly taps) X := by
  have hcoeff : (tapPoly taps).coeff 0 = 1 := by
    rw [tapPoly, coeff_add, coeff_X_pow, if_neg hw.ne, zero_add,
      coeff_bitPoly, htap]
    rfl
  have hdiv := divX_mul_X_add (tapPoly taps)
  rw [hcoeff, C_1] at hdiv
  refine ⟨1, -(tapPoly taps).divX, ?_⟩
  linear_combination -hdiv

/-- An error whose bits lie within the register's width is a power of
`X` times a polynomial of lower degree. -/
theorem msgPoly_burst {e : List (BitVec k)} {start : Nat}
    (hburst : ∀ j, msgBit e j = true → start ≤ j ∧ j < start + w) :
    ∃ (m : Nat) (B : (ZMod 2)[X]), msgPoly e = X ^ m * B ∧ B.degree < w := by
  -- the bits counted from the other end
  have hzero : ∀ n, n < k * e.length - (start + w)
      ∨ k * e.length - (start + w) + w ≤ n → (msgPoly e).coeff n = 0 := by
    intro n hn
    rw [coeff_msgPoly, if_neg]
    rintro ⟨hlt, hbit⟩
    have hj := hburst _ hbit
    omega
  obtain ⟨B, hB⟩ := X_pow_dvd_iff.mpr fun n hn => hzero n (.inl hn)
  refine ⟨_, B, hB, ?_⟩
  rw [degree_lt_iff_coeff_zero]
  intro n hn
  have hcoeff := hzero (n + (k * e.length - (start + w))) (.inr (by omega))
  rwa [hB, coeff_X_pow_mul] at hcoeff

/-- A register whose lowest tap is set notices every burst of errors no
longer than itself. -/
theorem absorbAll_burst (hk : k ≤ w) {taps : BitVec w}
    (htap : taps.getLsbD 0 = true) (x : BitVec w) {data e : List (BitVec k)}
    (hlen : e.length = data.length) {start : Nat}
    (hset : ∃ j, msgBit e j = true)
    (hburst : ∀ j, msgBit e j = true → start ≤ j ∧ j < start + w) :
    (xorAll data e).foldl (absorb taps) x ≠ data.foldl (absorb taps) x := by
  intro heq
  obtain ⟨j, hj⟩ := hset
  have hw : 0 < w := by
    have := hburst j hj
    omega
  have hcop := isCoprime_tapPoly hw htap
  -- the two remainders differ by that of the error
  have hrem := congrArg bitPoly heq
  rw [absorbAll_xorAll hk _ _ hlen, add_eq_left,
    modByMonic_eq_zero_iff_dvd (tapPoly_monic taps)] at hrem
  obtain ⟨m, B, hB, hdeg⟩ := msgPoly_burst hburst
  have hdvd : tapPoly taps ∣ B := by
    have hE := (IsCoprime.pow_right hcop).dvd_of_dvd_mul_right hrem
    rw [hB] at hE
    exact (IsCoprime.pow_right hcop).dvd_of_dvd_mul_left hE
  have hB0 : B = 0 := by
    by_contra hne
    refine (tapPoly_monic taps).not_dvd_of_degree_lt hne ?_ hdvd
    rwa [degree_tapPoly]
  -- and the error is not zero
  have hlt := lt_of_msgBit hj
  have hcoeff := coeff_msgPoly e (k * e.length - 1 - j)
  have hback : k * e.length - 1 - (k * e.length - 1 - j) = j := by omega
  rw [hback, if_pos ⟨by omega, hj⟩, hB, hB0, mul_zero, coeff_zero] at hcoeff
  exact zero_ne_one hcoeff

end EdgeIpc.Lib
