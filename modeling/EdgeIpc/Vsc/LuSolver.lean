/-
`lu_factor` and `lu_solve` (`vsc_solver/include/LuSolver.h`), in exact
arithmetic: over any ordered field, for every size.

Arrays are functions of their indices. The two elimination loops write
row `i` from row `i` and the pivot row only, so they are one function of
the entry. `lu_factor` works in place and may throw half way; what its
caller's arrays hold then is part of the result (`Except.error`).
-/
import EdgeIpc.Lib.Packed
import Mathlib.Data.Rat.Cast.OfScientific

namespace EdgeIpc.Vsc

open Lib

variable {n : Nat} {K : Type} [Field K] [LinearOrder K]

/-- `double A[N][N]`. -/
abbrev Mat (n : Nat) (K : Type) := Fin n → Fin n → K

/-- `x < 0 ? -x : x`. -/
def absV (x : K) : K := if x < 0 then -x else x

-- ============================================================== lu_factor

/-- `A` and `pivot`, the arrays `lu_factor` is handed. -/
structure LuState (n : Nat) (K : Type) where
  A : Mat n K
  pivot : Fin n → Fin n

/-- One candidate of the pivot search. -/
def betterPivot (A : Mat n K) (k : Fin n) (found : Fin n × K) (i : Fin n) :
    Fin n × K :=
  let v := absV (A i k)
  if found.2 < v then (i, v) else found

/-- The pivot search of column `k`: the row, and the size found. -/
def findPivot (A : Mat n K) (k : Fin n) : Fin n × K :=
  ((List.finRange n).filter fun i => k ≤ i).foldl (betterPivot A k) (k, 0)

/-- The size below which a pivot counts as zero. -/
def pivotTol : K := 1e-15

/-- The row exchange. -/
def exchange (A : Mat n K) (k p : Fin n) : Mat n K :=
  if p ≠ k then swapAt A k p else A

/-- The elimination of column `k`. -/
def eliminate (A : Mat n K) (k : Fin n) : Mat n K :=
  let inv := 1 / A k k
  fun i j =>
    if k < i then
      let multiplier := A i k * inv
      if j = k then multiplier
      else if k < j then A i j - multiplier * A k j
      else A i j
    else A i j

/-- The body of `lu_factor`'s outer loop. -/
def factorColumn (s : LuState n K) (k : Fin n) :
    Except (String × LuState n K) (LuState n K) :=
  let found := findPivot s.A k
  if found.2 < pivotTol then .error ("LuSolver: singular matrix", s)
  else
    .ok { A := eliminate (exchange s.A k found.1) k
          pivot := fun i => if i = k then found.1 else s.pivot i }

/-- `lu_factor`. -/
def luFactor (s : LuState n K) :
    Except (String × LuState n K) (LuState n K) :=
  (List.finRange n).foldlM factorColumn s

-- =============================================================== lu_solve

/-- The permutation loop over the pivots of the given columns. -/
def permuteOver (pivot : Fin n → Fin n) (ks : List (Fin n))
    (y : Fin n → K) : Fin n → K :=
  ks.foldl (fun y k => swapAt y k (pivot k)) y

/-- `y[i] = s` with `s` the inner loop of the forward substitution. -/
def forwardRow (LU : Mat n K) (y : Fin n → K) (i : Fin n) : Fin n → K :=
  let s := ((List.finRange n).filter fun j => j < i).foldl
    (fun s j => s - LU i j * y j) (y i)
  fun j => if j = i then s else y j

def forwardSubst (LU : Mat n K) (y : Fin n → K) : Fin n → K :=
  (List.finRange n).foldl (forwardRow LU) y

/-- `x[i] = s / LU[i][i]` with `s` the inner loop of the back
substitution. -/
def backRow (LU : Mat n K) (y x : Fin n → K) (i : Fin n) : Fin n → K :=
  let s := ((List.finRange n).filter fun j => i < j).foldl
    (fun s j => s - LU i j * x j) (y i)
  fun j => if j = i then s / LU i i else x j

def backSubst (LU : Mat n K) (y x : Fin n → K) : Fin n → K :=
  (List.finRange n).reverse.foldl (backRow LU y) x

/-- `lu_solve`; `x` is the caller's array, overwritten. -/
def luSolve (LU : Mat n K) (pivot : Fin n → Fin n) (b x : Fin n → K) :
    Fin n → K :=
  let y := permuteOver pivot (List.finRange n) b
  backSubst LU (forwardSubst LU y) x

end EdgeIpc.Vsc
