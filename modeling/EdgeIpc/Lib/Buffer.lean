/-
Flat byte buffers and big-endian numbers, as the wire formats use them.

A buffer is a list; a store into it either lies inside (`write` returns
the updated buffer, same length) or runs over its end (`none`). That
second outcome is what a raw `memcpy` does not check, so a model that
allocates with one size and writes with another shows the overrun
instead of hiding it.

`bigEndian n v` is the `n`-byte big-endian image of `v`, `ofBigEndian` reads
one back. The two are inverse on `n`-byte strings
(`ofBigEndian_bigEndian`, `bigEndian_ofBigEndian`), for every width at once: the
4-byte length and the 2-byte checksum are instances.
-/
import Mathlib.Data.Nat.Basic
import Mathlib.Tactic.Ring

namespace EdgeIpc.Lib

-- ================================================================ stores

section Buffer

variable {α : Type _}

/-- Store `bs` at offset `off`; `none` when the store would run over the
end of the buffer. -/
def write (buf : List α) (off : Nat) (bs : List α) : Option (List α) :=
  if off + bs.length ≤ buf.length then
    some (buf.take off ++ bs ++ buf.drop (off + bs.length))
  else none

/-- The `len` entries from offset `off` on. -/
def slice (buf : List α) (off len : Nat) : List α :=
  (buf.drop off).take len

/-- A store between a front of the right length and a window of the
right length replaces the window. -/
theorem write_append {front mid back bs : List α} {off : Nat}
    (hoff : front.length = off) (hmid : mid.length = bs.length) :
    write (front ++ mid ++ back) off bs = some (front ++ bs ++ back) := by
  subst hoff
  have hdrop : (front ++ mid ++ back).drop (front.length + bs.length)
      = back := by
    rw [← hmid, ← List.length_append, List.drop_left]
  have htake : (front ++ mid ++ back).take front.length = front := by
    rw [List.append_assoc, List.take_left]
  unfold write
  rw [if_pos (by simp only [List.length_append]; omega), hdrop, htake]

theorem slice_length {buf : List α} {off len : Nat}
    (h : off + len ≤ buf.length) : (slice buf off len).length = len := by
  unfold slice
  rw [List.length_take, List.length_drop]
  omega

/-- The slice between a known front and a known rest. -/
theorem slice_append {front mid back : List α} {off len : Nat}
    (hoff : front.length = off) (hlen : mid.length = len) :
    slice (front ++ mid ++ back) off len = mid := by
  subst hoff hlen
  unfold slice
  rw [List.append_assoc, List.drop_left, List.take_left]

end Buffer

-- ============================================================ big-endian

/-- The `n`-byte big-endian image of `v` (its low `8 n` bits). -/
def bigEndian : Nat → Nat → List (BitVec 8)
  | 0, _ => []
  | n + 1, v => BitVec.ofNat 8 (v / 256 ^ n) :: bigEndian n v

/-- The number a big-endian byte string denotes. -/
def ofBigEndian (bs : List (BitVec 8)) : Nat :=
  bs.foldl (fun acc b => acc * 256 + b.toNat) 0

@[simp]
theorem bigEndian_length (n v : Nat) : (bigEndian n v).length = n := by
  induction n with
  | zero => rfl
  | succ n ih => simp [bigEndian, ih]

/-- The accumulator of `ofBigEndian`, split off. -/
private theorem foldl_be (bs : List (BitVec 8)) (acc : Nat) :
    bs.foldl (fun acc b => acc * 256 + b.toNat) acc
      = acc * 256 ^ bs.length + ofBigEndian bs := by
  induction bs generalizing acc with
  | nil => simp [ofBigEndian]
  | cons b bs ih =>
      unfold ofBigEndian
      simp only [List.foldl_cons, List.length_cons]
      rw [ih, ih (0 * 256 + b.toNat)]
      ring

/-- The leading byte carries the highest power. -/
theorem ofBigEndian_cons (b : BitVec 8) (bs : List (BitVec 8)) :
    ofBigEndian (b :: bs) = b.toNat * 256 ^ bs.length + ofBigEndian bs := by
  rw [ofBigEndian, List.foldl_cons, foldl_be]
  simp

/-- An `n`-byte string denotes a number below `256 ^ n`. -/
theorem ofBigEndian_lt (bs : List (BitVec 8)) :
    ofBigEndian bs < 256 ^ bs.length := by
  induction bs with
  | nil => simp [ofBigEndian]
  | cons b bs ih =>
      rw [ofBigEndian_cons, List.length_cons]
      have hb : b.toNat + 1 ≤ 256 := b.isLt
      calc b.toNat * 256 ^ bs.length + ofBigEndian bs
          < b.toNat * 256 ^ bs.length + 256 ^ bs.length := by omega
        _ = (b.toNat + 1) * 256 ^ bs.length := by ring
        _ ≤ 256 * 256 ^ bs.length := Nat.mul_le_mul_right _ hb
        _ = 256 ^ (bs.length + 1) := by ring

/-- Reading back the image of `v` gives its low bits. -/
theorem ofBigEndian_bigEndian (n v : Nat) :
    ofBigEndian (bigEndian n v) = v % 256 ^ n := by
  induction n with
  | zero => simp [bigEndian, ofBigEndian, Nat.mod_one]
  | succ n ih =>
      have hbyte : (BitVec.ofNat 8 (v / 256 ^ n)).toNat
          = v / 256 ^ n % 256 := BitVec.toNat_ofNat ..
      rw [bigEndian, ofBigEndian_cons, ih, bigEndian_length, hbyte, Nat.pow_succ,
        Nat.mod_mul, Nat.mul_comm, Nat.add_comm]

/-- The image of what a byte string denotes is the string, whatever is
added above its top byte. -/
private theorem bigEndian_add_ofBigEndian (bs : List (BitVec 8)) (k : Nat) :
    bigEndian bs.length (k * 256 ^ bs.length + ofBigEndian bs) = bs := by
  induction bs generalizing k with
  | nil => rfl
  | cons b bs ih =>
      have hval : k * 256 ^ (b :: bs).length + ofBigEndian (b :: bs)
          = (k * 256 + b.toNat) * 256 ^ bs.length + ofBigEndian bs := by
        rw [ofBigEndian_cons, List.length_cons]
        ring
      have htop : ((k * 256 + b.toNat) * 256 ^ bs.length + ofBigEndian bs)
          / 256 ^ bs.length = k * 256 + b.toNat := by
        have hpos : 0 < 256 ^ bs.length := Nat.pow_pos (by decide)
        rw [Nat.add_comm, Nat.add_mul_div_right _ _ hpos,
          Nat.div_eq_of_lt (ofBigEndian_lt bs), Nat.zero_add]
      rw [hval, List.length_cons, bigEndian, htop, ih]
      congr 1
      apply BitVec.eq_of_toNat_eq
      rw [BitVec.toNat_ofNat]
      have hb := b.isLt
      omega

/-- The image of what a byte string denotes is the string. -/
theorem bigEndian_ofBigEndian (bs : List (BitVec 8)) :
    bigEndian bs.length (ofBigEndian bs) = bs := by
  have h := bigEndian_add_ofBigEndian bs 0
  rwa [Nat.zero_mul, Nat.zero_add] at h

end EdgeIpc.Lib
