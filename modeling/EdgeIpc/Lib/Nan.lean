/-
Exact numbers and one value that is not a number. `nan` swallows every
operation it takes part in, so it is the sum of every list it occurs in,
and no subtraction gets rid of it. It is neither less nor greater than
anything. On numbers the operations and the order are the numbers' own.
-/
import Mathlib.Algebra.Field.Basic

namespace EdgeIpc.Lib

/-- A number, or `nan`. -/
inductive WithNan (K : Type) where
  | nan
  | num (x : K)
  deriving DecidableEq, Repr

namespace WithNan

variable {K : Type}

/-- An operation on numbers, swallowed by `nan`. -/
def lift₂ (op : K → K → K) : WithNan K → WithNan K → WithNan K
  | num x, num y => num (op x y)
  | _, _ => nan

instance [Zero K] : Zero (WithNan K) := ⟨num 0⟩

instance [Add K] : Add (WithNan K) := ⟨lift₂ (· + ·)⟩

instance [Sub K] : Sub (WithNan K) := ⟨lift₂ (· - ·)⟩

instance [Div K] : Div (WithNan K) := ⟨lift₂ (· / ·)⟩

instance [NatCast K] : NatCast (WithNan K) := ⟨fun n => num n⟩

instance [OfScientific K] : OfScientific (WithNan K) :=
  ⟨fun m s e => num (OfScientific.ofScientific m s e)⟩

/-- The order of the numbers; `nan` compares with nothing. -/
def Less [LT K] : WithNan K → WithNan K → Prop
  | num x, num y => x < y
  | _, _ => False

instance [LT K] : LT (WithNan K) := ⟨Less⟩

instance [LT K] [DecidableLT K] : DecidableLT (WithNan K)
  | num x, num y => inferInstanceAs (Decidable (x < y))
  | nan, nan => isFalse id
  | nan, num _ => isFalse id
  | num _, nan => isFalse id

theorem nan_add [Add K] (x : WithNan K) : nan + x = nan := rfl

theorem add_nan [Add K] (x : WithNan K) : x + nan = nan := by
  cases x <;> rfl

theorem nan_sub [Sub K] (x : WithNan K) : nan - x = nan := rfl

theorem num_injective : Function.Injective (num : K → WithNan K) :=
  fun _ _ h => num.inj h

/-- A list without `nan` is a list of numbers. -/
theorem exists_map_num : ∀ {xs : List (WithNan K)}, nan ∉ xs →
    ∃ ys : List K, xs = ys.map num
  | [], _ => ⟨[], rfl⟩
  | nan :: xs, h => absurd List.mem_cons_self h
  | num y :: xs, h => by
      obtain ⟨ys, rfl⟩ := exists_map_num fun hmem =>
        h (List.mem_cons_of_mem _ hmem)
      exact ⟨y :: ys, rfl⟩

end WithNan

end EdgeIpc.Lib
