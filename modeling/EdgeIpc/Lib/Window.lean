/-
The recent end of a growing history. `window w xs` is its last `w`
entries, and `run p xs` is how many of the latest entries satisfy `p` in
a row. Both are described by what one more entry does to them, which is
all a program that keeps a running sum or a running count can follow.

A streak of `k` is the same thing seen twice: `k` entries of the window,
all good (`Streak`), or a trailing run of at least `k`
(`streak_iff_le_run`).
-/
import Mathlib.Algebra.BigOperators.Group.List.Basic
import Mathlib.Data.List.Induction

namespace EdgeIpc.Lib

variable {α : Type _}

-- ============================================================= the window

/-- The last `w` entries, or all of them while there are fewer. -/
def window (w : Nat) (xs : List α) : List α := xs.drop (xs.length - w)

theorem window_length (w : Nat) (xs : List α) :
    (window w xs).length = min xs.length w := by
  unfold window
  rw [List.length_drop]
  omega

theorem window_map {β : Type _} (g : α → β) (w : Nat) (xs : List α) :
    window w (xs.map g) = (window w xs).map g := by
  unfold window
  rw [List.length_map, List.map_drop]

/-- A window with room takes the new entry. -/
theorem window_snoc_of_lt {w : Nat} {xs : List α} (x : α)
    (h : xs.length < w) : window w (xs ++ [x]) = window w xs ++ [x] := by
  unfold window
  have hlen : (xs ++ [x]).length - w = 0 := by
    rw [List.length_append, List.length_singleton]
    omega
  have hlen' : xs.length - w = 0 := by omega
  rw [hlen, hlen']
  rfl

/-- A full window lets its oldest entry go. -/
theorem window_snoc_of_le {w : Nat} {xs : List α} (x : α) (hw : 0 < w)
    (h : w ≤ xs.length) :
    ∃ oldest, xs[xs.length - w]? = some oldest
      ∧ ∃ rest, window w xs = oldest :: rest
        ∧ window w (xs ++ [x]) = rest ++ [x] := by
  have hlt : xs.length - w < xs.length := by omega
  refine ⟨xs[xs.length - w], List.getElem?_eq_getElem hlt,
    xs.drop (xs.length - w + 1), ?_, ?_⟩
  · exact List.drop_eq_getElem_cons hlt
  · unfold window
    have hlen : (xs ++ [x]).length - w = xs.length - w + 1 := by
      rw [List.length_append, List.length_singleton]
      omega
    rw [hlen]
    exact List.drop_append_of_le_length (by omega)

/-- The sum over the window, kept up to date by one addition and one
subtraction. -/
theorem window_sum_snoc [AddCommGroup α] {w : Nat} {xs : List α} (x : α)
    (hw : 0 < w) (h : w ≤ xs.length) :
    ∃ oldest, xs[xs.length - w]? = some oldest
      ∧ (window w (xs ++ [x])).sum = (window w xs).sum - oldest + x := by
  obtain ⟨oldest, hget, rest, hold, hnew⟩ := window_snoc_of_le x hw h
  refine ⟨oldest, hget, ?_⟩
  rw [hold, hnew, List.sum_append, List.sum_singleton, List.sum_cons,
    add_sub_cancel_left]

-- ================================================================ the run

variable (p : α → Prop) [DecidablePred p]

/-- How many of the latest entries satisfy `p` in a row. -/
def run (xs : List α) : Nat :=
  xs.foldl (fun n x => if p x then n + 1 else 0) 0

/-- The last `k` entries are there and all satisfy `p`. -/
def Streak (k : Nat) (xs : List α) : Prop :=
  k ≤ xs.length ∧ ∀ x ∈ window k xs, p x

theorem run_snoc (xs : List α) (x : α) :
    run p (xs ++ [x]) = if p x then run p xs + 1 else 0 := by
  unfold run
  rw [List.foldl_append]
  rfl

omit [DecidablePred p] in
/-- A streak grows by one good entry, and needs a good last entry. -/
theorem streak_succ_snoc (k : Nat) (xs : List α) (x : α) :
    Streak p (k + 1) (xs ++ [x]) ↔ p x ∧ Streak p k xs := by
  have hdrop : window (k + 1) (xs ++ [x]) = window k xs ++ [x] := by
    unfold window
    have hlen : (xs ++ [x]).length - (k + 1) = xs.length - k := by
      rw [List.length_append, List.length_singleton]
      omega
    rw [hlen]
    exact List.drop_append_of_le_length (by omega)
  unfold Streak
  rw [hdrop, List.length_append, List.length_singleton]
  simp only [List.forall_mem_append, List.forall_mem_singleton]
  constructor
  · rintro ⟨hle, hall, hx⟩
    exact ⟨hx, by omega, hall⟩
  · rintro ⟨hx, hle, hall⟩
    exact ⟨by omega, hall, hx⟩

/-- The streaks of a history are those up to its run. -/
theorem streak_iff_le_run (k : Nat) (xs : List α) :
    Streak p k xs ↔ k ≤ run p xs := by
  induction xs using List.reverseRecOn generalizing k with
  | nil =>
      constructor
      · intro h
        exact h.1
      · intro h
        refine ⟨h, ?_⟩
        unfold window
        rw [List.drop_nil]
        nofun
  | append_singleton xs x ih =>
      rw [run_snoc]
      cases k with
      | zero =>
          refine ⟨fun _ => Nat.zero_le _, fun _ => ⟨Nat.zero_le _, ?_⟩⟩
          unfold window
          rw [Nat.sub_zero, List.drop_length]
          nofun
      | succ k =>
          rw [streak_succ_snoc, ih]
          split
          next hx => simp [hx]
          next hx => simp [hx]

end EdgeIpc.Lib
