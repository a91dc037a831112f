/-
Two readings of a pivot array. `lu_factor` records exchanges: in round
`k`, row `k` against row `pivot[k]`, and the reference's `lu_solve` does
them again, one after the other, on the right-hand side. The kernel's
`lu_solve` reads the same array as an index map, `b_perm[i] =
I_N[piv[i]]`.

Both substitute through the same factors, so their results agree exactly
where the two readings put the same right-hand side (`kernel_eq_iff`).
They agree on every right-hand side only if the map is the permutation
that the exchanges make. But a pivot is never above its own row, and a
permutation that moves nothing upwards moves nothing (`eq_self_of_le`):
the kernel is right if `lu_factor` exchanged no rows, and on no other
matrix (`pivot_readings_agree_iff`).
-/
import EdgeIpc.Vsc.Proofs.Hls

namespace EdgeIpc.Vsc.Hls

open Lib

variable {n : Nat} {K : Type}

-- ============================================================== index maps

/-- An injective map that takes no index below itself is the identity. -/
theorem eq_self_of_le {f : Fin n → Fin n} (hf : Function.Injective f)
    (hle : ∀ i, i ≤ f i) (i : Fin n) : f i = i := by
  -- from the last index down
  induction h : n - i.val using Nat.strongRecOn generalizing i with
  | ind d ih =>
      by_contra hne
      have hlt : i < f i := lt_of_le_of_ne (hle i) (Ne.symm hne)
      rw [Fin.lt_def] at hlt
      have hfix := ih (n - (f i).val) (by omega) (f i) rfl
      exact hne (hf hfix)

variable [Field K] [LinearOrder K] [IsStrictOrderedRing K]

/-- Two index maps that read the same entries off every vector are the
same. -/
theorem eq_of_reads {f g : Fin n → Fin n}
    (h : ∀ b : Fin n → K, b ∘ f = b ∘ g) : f = g := by
  funext i
  have hi := congrFun (h fun j => (j.val : K)) i
  exact Fin.ext (Nat.cast_injective hi)

-- ============================================================== the factors

omit [LinearOrder K] [IsStrictOrderedRing K] in
/-- `L` of the factored array: its multipliers, and ones on the
diagonal. -/
def unitLower (A : Mat n K) : Mat n K :=
  fun i j => if j < i then A i j else if j = i then 1 else 0

variable {A : Mat n K} {pivot : Fin n → Fin n} {s : LuState n K}

/-- What the kernel computes is what the reference computes exactly if
the two readings of the pivots agree on the right-hand side. -/
theorem kernel_eq_iff (h : luFactor ⟨A, pivot⟩ = .ok s)
    (b V x : Fin n → K) :
    luSolve (unitLower s.A) (upper s.A) s.pivot b V
        = Vsc.luSolve s.A s.pivot b x
      ↔ ∀ i, b (s.pivot i)
        = permuteOver s.pivot (List.finRange n) b i := by
  have hinv := luFactor_inv h
  obtain ⟨σ, hperm, hrows⟩ := hinv.stands
  have hall : (List.finRange n).take n = List.finRange n :=
    List.take_of_length_le (by simp)
  rw [hall] at hperm
  have hkernel := luSolve_rows hinv hrows (L := unitLower s.A)
    (U := upper s.A) (fun _ _ hij => if_pos hij) (fun _ _ hij => if_pos hij)
    b V
  have hreference := fun i => luSolve_correct h b x (σ i)
  rw [hperm b]
  constructor
  · intro heq i
    rw [← hkernel i, heq]
    exact hreference i
  · intro hread
    refine solution_unique h fun i => ?_
    obtain ⟨i, rfl⟩ := σ.surjective i
    rw [hkernel i, hreference i]
    exact hread i

/-- The two readings agree on every right-hand side exactly if no rows
were exchanged. -/
theorem reads_iff (h : luFactor ⟨A, pivot⟩ = .ok s) :
    (∀ (b : Fin n → K) (i : Fin n),
      b (s.pivot i) = permuteOver s.pivot (List.finRange n) b i)
      ↔ ∀ k, s.pivot k = k := by
  constructor
  · intro hread
    have hinv := luFactor_inv h
    obtain ⟨σ, hperm, -⟩ := hinv.stands
    have hall : (List.finRange n).take n = List.finRange n :=
      List.take_of_length_le (by simp)
    rw [hall] at hperm
    have hσ : s.pivot = σ := by
      refine eq_of_reads (K := K) fun b => ?_
      rw [← hperm b]
      exact funext (hread b)
    apply eq_self_of_le
    · rw [hσ]
      exact σ.injective
    · exact fun i => hinv.pivots i i.isLt
  · intro hpiv b i
    rw [permuteOver_self hpiv, hpiv i]

-- ============================================================== the theorem

/-- Do the two substitution routines agree on the pivot convention? For
every matrix that factors and with the factors split into the kernel's
arrays: on a right-hand side they return the same vector exactly if its
entries, read through the pivots, are its entries after the exchanges.
They do so on every right-hand side, and the kernel solves every system,
exactly if the factorisation exchanged no rows. -/
theorem pivot_readings_agree_iff (h : luFactor ⟨A, pivot⟩ = .ok s) :
    (∀ b V x, luSolve (unitLower s.A) (upper s.A) s.pivot b V
          = Vsc.luSolve s.A s.pivot b x
        ↔ ∀ i, b (s.pivot i) = permuteOver s.pivot (List.finRange n) b i)
      ∧ ((∀ b V x, luSolve (unitLower s.A) (upper s.A) s.pivot b V
          = Vsc.luSolve s.A s.pivot b x) ↔ ∀ k, s.pivot k = k)
      ∧ ((∀ b V, (Matrix.of A).mulVec
          (luSolve (unitLower s.A) (upper s.A) s.pivot b V) = b)
        ↔ ∀ k, s.pivot k = k) := by
  refine ⟨kernel_eq_iff h, ?_, ?_⟩
  · rw [← reads_iff h]
    constructor
    · exact fun heq b => (kernel_eq_iff h b 0 0).mp (heq b 0 0)
    · exact fun hread b V x => (kernel_eq_iff h b V x).mpr (hread b)
  · rw [← reads_iff h]
    constructor
    · intro hsolve b
      -- both solve the system, which has one solution
      refine (kernel_eq_iff h b 0 0).mp (solution_unique h fun i => ?_)
      rw [luSolve_correct h b 0 i]
      exact congrFun (hsolve b 0) i
    · intro hread b V
      rw [(kernel_eq_iff h b V 0).mpr (hread b)]
      exact funext (luSolve_correct h b 0)

/-- The matrix of the default network with the upper switches closed needs
no exchange: the kernel agrees with the solver on it, and solves it. -/
theorem pivot_readings_agree_network :
    ∃ s, luFactor ⟨assemble (SolverParams.default : SolverParams ℚ) 0x15#8,
        id⟩ = .ok s
      ∧ (∀ b V x, luSolve (unitLower s.A) (upper s.A) s.pivot b V
        = Vsc.luSolve s.A s.pivot b x)
      ∧ ∀ b V, (Matrix.of (assemble SolverParams.default 0x15#8)).mulVec
        (luSolve (unitLower s.A) (upper s.A) s.pivot b V) = b := by
  obtain ⟨s, hs⟩ := factors_default 0x15#8
  have hpiv : ∀ k, s.pivot k = k := pivots_assemble positive_default hs
  obtain ⟨-, hagree, hsolve⟩ := pivot_readings_agree_iff hs
  exact ⟨s, hs, hagree.mpr hpiv, hsolve.mpr hpiv⟩

/-- The identity with its first two rows exchanged. -/
def firstTwo : Mat 9 ℚ := fun i j =>
  if i.val = 0 then (if j.val = 1 then 1 else 0)
  else if i.val = 1 then (if j.val = 0 then 1 else 0)
  else if i = j then 1 else 0

/-- One exchange, and a right-hand side that begins 1, 2: the solution
begins 2, 1 and the kernel returns 2, 2. -/
theorem one_exchange_differs :
    ∃ s, luFactor ⟨firstTwo, id⟩ = .ok s ∧ s.pivot 0 = 1
      ∧ Vsc.luSolve s.A s.pivot ![1, 2, 0, 0, 0, 0, 0, 0, 0] 0 1 = 1
      ∧ luSolve (unitLower s.A) (upper s.A) s.pivot
        ![1, 2, 0, 0, 0, 0, 0, 0, 0] 0 1 = 2 := by
  have hrun : (luFactor ⟨firstTwo, id⟩).toOption.map (fun s =>
      (s.pivot 0,
        Vsc.luSolve s.A s.pivot ![1, 2, 0, 0, 0, 0, 0, 0, 0] 0 1,
        luSolve (unitLower s.A) (upper s.A) s.pivot
          ![1, 2, 0, 0, 0, 0, 0, 0, 0] 0 1)) = some (1, 1, 2) := by
    decide +kernel
  obtain ⟨s, hs, hvals⟩ := exists_ok_of_map hrun
  obtain ⟨hpiv, hvals⟩ := Prod.mk.inj hvals
  obtain ⟨href, hkernel⟩ := Prod.mk.inj hvals
  exact ⟨s, hs, hpiv, href, hkernel⟩

end EdgeIpc.Vsc.Hls
