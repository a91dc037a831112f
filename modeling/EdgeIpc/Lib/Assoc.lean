/-
Maps as association lists in key order. `assign` is `m[k] = v` of an
ordered map: one pass that replaces the entry of `k` or puts a new one in
its place. The pass makes a lookup after an assignment right on every
list, sorted or not (`lookup_assign`), so nothing here asks for order.

`assignAll` is the loop `for x in xs: m[key x] = val x`. What it leaves
under a key is the value of some entry with that key: with distinct keys,
of the one.
-/
import Mathlib.Data.List.Basic

namespace EdgeIpc.Lib

variable {κ β α : Type _} [DecidableEq κ] [LT κ] [DecidableLT κ]

/-- `m[k] = v`. -/
def assign (k : κ) (v : β) : List (κ × β) → List (κ × β)
  | [] => [(k, v)]
  | (k', v') :: m =>
      if k = k' then (k, v) :: m
      else if k < k' then (k, v) :: (k', v') :: m
      else (k', v') :: assign k v m

/-- `for x in xs: m[key x] = val x`. -/
def assignAll (key : α → κ) (val : α → β) (xs : List α)
    (m : List (κ × β)) : List (κ × β) :=
  xs.foldl (fun m x => assign (key x) (val x) m) m

-- ============================================================== one entry

omit [LT κ] [DecidableLT κ] in
theorem lookup_cons_ite (k k' : κ) (v : β) (m : List (κ × β)) :
    ((k, v) :: m).lookup k' = if k' = k then some v else m.lookup k' := by
  rw [List.lookup_cons]
  by_cases h : k' = k
  · simp [h]
  · rw [beq_eq_false_iff_ne.mpr h, if_neg h]

theorem lookup_assign (k k' : κ) (v : β) (m : List (κ × β)) :
    (assign k v m).lookup k' = if k' = k then some v else m.lookup k' := by
  induction m with
  | nil => exact lookup_cons_ite k k' v []
  | cons e m ih =>
      obtain ⟨a, b⟩ := e
      unfold assign
      split
      next hka =>
        subst hka
        rw [lookup_cons_ite, lookup_cons_ite]
        split <;> rfl
      next hka =>
        split
        next => exact lookup_cons_ite k k' v _
        next =>
          rw [lookup_cons_ite, lookup_cons_ite, ih]
          by_cases ha : k' = a
          · have hne : k' ≠ k := fun h => hka (h.symm.trans ha)
            rw [if_pos ha, if_neg hne, if_pos ha]
          · rw [if_neg ha, if_neg ha]

theorem mem_assign {k : κ} {v : β} {e : κ × β} {m : List (κ × β)}
    (h : e ∈ assign k v m) : e = (k, v) ∨ e ∈ m := by
  induction m with
  | nil => exact .inl (List.mem_singleton.mp h)
  | cons e' m ih =>
      unfold assign at h
      split at h
      next =>
        rcases List.mem_cons.mp h with h | h
        · exact .inl h
        · exact .inr (List.mem_cons_of_mem _ h)
      next =>
        split at h
        next => exact List.mem_cons.mp h
        next =>
          rcases List.mem_cons.mp h with h | h
          · exact .inr (h ▸ List.mem_cons_self)
          · exact (ih h).imp_right (List.mem_cons_of_mem _)

omit [LT κ] [DecidableLT κ] in
theorem mem_of_lookup {k : κ} {v : β} {m : List (κ × β)}
    (h : m.lookup k = some v) : (k, v) ∈ m := by
  induction m with
  | nil => cases h
  | cons e m ih =>
      obtain ⟨a, b⟩ := e
      rw [lookup_cons_ite] at h
      split at h
      next ha =>
        injection h with h
        exact ha ▸ h ▸ List.mem_cons_self
      next => exact List.mem_cons_of_mem _ (ih h)

-- =============================================================== the loop

variable {key : α → κ} {val : α → β} {xs : List α} {m : List (κ × β)}

theorem assignAll_append (ys : List α) :
    assignAll key val (xs ++ ys) m
      = assignAll key val ys (assignAll key val xs m) :=
  List.foldl_append

theorem mem_assignAll {e : κ × β} (h : e ∈ assignAll key val xs m) :
    (∃ x ∈ xs, e = (key x, val x)) ∨ e ∈ m := by
  induction xs generalizing m with
  | nil => exact .inr h
  | cons x xs ih =>
      rcases ih h with ⟨y, hy, he⟩ | he
      · exact .inl ⟨y, List.mem_cons_of_mem _ hy, he⟩
      · rcases mem_assign he with he | he
        · exact .inl ⟨x, List.mem_cons_self, he⟩
        · exact .inr he

/-- A key of the loop ends up with the value of an entry of that key;
other keys keep theirs. -/
theorem lookup_assignAll (key : α → κ) (val : α → β) (xs : List α)
    (m : List (κ × β)) (k : κ) :
    (∃ x ∈ xs, key x = k ∧ (assignAll key val xs m).lookup k = some (val x))
    ∨ ((∀ x ∈ xs, key x ≠ k)
      ∧ (assignAll key val xs m).lookup k = m.lookup k) := by
  induction xs generalizing m with
  | nil => exact .inr ⟨fun x hx => (by cases hx), rfl⟩
  | cons x xs ih =>
      rcases ih (assign (key x) (val x) m) with
        ⟨y, hy, hk, hl⟩ | ⟨hno, hl⟩
      · exact .inl ⟨y, List.mem_cons_of_mem _ hy, hk, hl⟩
      · have hlook := lookup_assign (key x) k (val x) m
        by_cases hx : k = key x
        · rw [if_pos hx] at hlook
          exact .inl ⟨x, List.mem_cons_self, hx.symm, hl.trans hlook⟩
        · rw [if_neg hx] at hlook
          refine .inr ⟨?_, hl.trans hlook⟩
          intro y hy
          rcases List.mem_cons.mp hy with rfl | hy
          · exact fun h => hx h.symm
          · exact hno y hy

end EdgeIpc.Lib
