/-
Families of threads: finitely many, any number of them, each with a
control point of its own. `move` is one thread's step to another control
point, and `count` is how many threads stand where a test says so. A
move changes a count by the moving thread's own contribution and nothing
else (`count_move`), so a conservation law ("what is out plus what is in
stays the same") is one application of it per kind of step.

For a family without a bound on its size `Standing` takes the place of
`count`: the threads that pass the test are listed, and `standing_move`
is the same exchange.
-/
import Mathlib.Algebra.BigOperators.Group.Finset.Basic
import Mathlib.Data.Fintype.Basic

namespace EdgeIpc.Lib

variable {n : Nat} {P : Type _}

/-- Thread `t` moves to `p`; the others stay. -/
def move (pc : Fin n → P) (t : Fin n) (p : P) : Fin n → P :=
  fun u => if u = t then p else pc u

theorem move_self (pc : Fin n → P) (t : Fin n) (p : P) :
    move pc t p t = p := if_pos rfl

theorem move_ne (pc : Fin n → P) {t u : Fin n} (p : P) (h : u ≠ t) :
    move pc t p u = pc u := if_neg h

/-- The number of threads whose control point passes the test. -/
def count (q : P → Bool) (pc : Fin n → P) : Nat :=
  ∑ t, if q (pc t) then 1 else 0

/-- A move exchanges the mover's contribution to a count. -/
theorem count_move (q : P → Bool) (pc : Fin n → P) (t : Fin n) (p : P) :
    count q (move pc t p) + (if q (pc t) then 1 else 0)
      = count q pc + (if q p then 1 else 0) := by
  have hnew := Finset.sum_erase_add Finset.univ
    (fun u => if q (move pc t p u) then 1 else 0) (Finset.mem_univ t)
  have hold := Finset.sum_erase_add Finset.univ
    (fun u => if q (pc u) then 1 else 0) (Finset.mem_univ t)
  have hrest : ∑ u ∈ Finset.univ.erase t, (if q (move pc t p u) then 1 else 0)
      = ∑ u ∈ Finset.univ.erase t, (if q (pc u) then 1 else 0) := by
    refine Finset.sum_congr rfl fun u hu => ?_
    rw [move_ne _ _ (Finset.ne_of_mem_erase hu)]
  rw [hrest, move_self] at hnew
  unfold count
  omega

/-- If nobody passes the test, the count is zero. -/
theorem count_eq_zero {q : P → Bool} {pc : Fin n → P}
    (h : ∀ t, q (pc t) = false) : count q pc = 0 := by
  refine Finset.sum_eq_zero fun t _ => ?_
  rw [h t]
  rfl

/-- The same exchange, told of two families that differ at one thread. -/
theorem count_exchange (q : P → Bool) {pc pc' : Fin n → P} {t : Fin n}
    (h : ∀ u, u ≠ t → pc' u = pc u) :
    count q pc' + (if q (pc t) then 1 else 0)
      = count q pc + (if q (pc' t) then 1 else 0) := by
  have hmove : pc' = move pc t (pc' t) := by
    funext u
    by_cases hu : u = t
    · rw [hu, move_self]
    · rw [move_ne _ _ hu, h u hu]
  have hcount := count_move q pc t (pc' t)
  rw [← hmove] at hcount
  exact hcount

/-- Somebody passes the test exactly when the count is not zero. -/
theorem count_pos_iff {q : P → Bool} {pc : Fin n → P} :
    0 < count q pc ↔ ∃ t, q (pc t) = true := by
  constructor
  · intro h
    by_contra hnone
    have hzero : count q pc = 0 :=
      count_eq_zero fun t => Bool.not_eq_true _ ▸ fun ht => hnone ⟨t, ht⟩
    omega
  · rintro ⟨t, ht⟩
    have hsum := Finset.sum_erase_add Finset.univ
      (fun u => if q (pc u) then 1 else 0) (Finset.mem_univ t)
    simp only [ht, if_true] at hsum
    unfold count
    omega

-- ================================================== families of any size

section Unbounded

variable {ι : Type _} [DecidableEq ι]

/-- Exactly `k` threads of the family pass the test. -/
def Standing (q : P → Bool) (pc : ι → P) (k : Nat) : Prop :=
  ∃ l : List ι, l.Nodup ∧ l.length = k ∧ ∀ t, t ∈ l ↔ q (pc t) = true

omit [DecidableEq ι] in
theorem standing_zero {q : P → Bool} {pc : ι → P}
    (h : ∀ t, q (pc t) = false) : Standing q pc 0 := by
  refine ⟨[], List.nodup_nil, rfl, fun t => ?_⟩
  simp [h t]

omit [DecidableEq ι] in
/-- If nobody passes the test, the number is zero. -/
theorem Standing.eq_zero {q : P → Bool} {pc : ι → P} {k : Nat}
    (hk : Standing q pc k) (h : ∀ t, q (pc t) = false) : k = 0 := by
  obtain ⟨l, -, rfl, hl⟩ := hk
  have hnil : l = [] := by
    refine List.eq_nil_iff_forall_not_mem.mpr fun t ht => ?_
    rw [hl t, h t] at ht
    cases ht
  rw [hnil]
  rfl

/-- One thread's move exchanges its contribution. -/
theorem standing_move {q : P → Bool} {pc pc' : ι → P} {t : ι} {k : Nat}
    (hk : Standing q pc k) (hne : ∀ u, u ≠ t → pc' u = pc u) :
    ∃ k', Standing q pc' k' ∧
      k' + (if q (pc t) then 1 else 0)
        = k + (if q (pc' t) then 1 else 0) := by
  obtain ⟨l, hnodup, rfl, hl⟩ := hk
  have hother : ∀ u, u ≠ t → (u ∈ l ↔ q (pc' u) = true) := by
    intro u hu
    rw [hl u, hne u hu]
  cases hold : q (pc t) <;> cases hnew : q (pc' t)
  · refine ⟨l.length, ⟨l, hnodup, rfl, fun u => ?_⟩, rfl⟩
    by_cases hu : u = t
    · rw [hu, hl t, hold, hnew]
    · exact hother u hu
  · have hnot : t ∉ l := by simp [hl t, hold]
    refine ⟨l.length + 1, ⟨t :: l, List.nodup_cons.mpr ⟨hnot, hnodup⟩, rfl,
      fun u => ?_⟩, rfl⟩
    by_cases hu : u = t
    · simp [hu, hnew]
    · simp [hu, hother u hu]
  · have hmem : t ∈ l := by simp [hl t, hold]
    refine ⟨(l.erase t).length, ⟨l.erase t, hnodup.erase t, rfl,
      fun u => ?_⟩, ?_⟩
    · by_cases hu : u = t
      · simp [hu, hnew, hnodup.mem_erase_iff]
      · rw [hnodup.mem_erase_iff, ← hother u hu]
        simp [hu]
    · have hpos := List.length_pos_of_mem hmem
      rw [List.length_erase_of_mem hmem]
      simp
      omega
  · refine ⟨l.length, ⟨l, hnodup, rfl, fun u => ?_⟩, rfl⟩
    by_cases hu : u = t
    · rw [hu, hl t, hold, hnew]
    · exact hother u hu

end Unbounded

end EdgeIpc.Lib
