/-
A bounded FIFO queue, as a system: what a queue of capacity `cap` is
for, with the whole history of what went in and what came out.

`put` appends while there is room, `take` removes the oldest entry, and
the two refusals `full` and `empty` are moves of their own, enabled only
when the queue really is full or empty. So an implementation that
simulates this system loses, duplicates and reorders nothing, and
refuses only for cause.

The law that makes it a FIFO is `accepted = taken ++ queue`
(`Fifo.inv_reachable`): what came out is a prefix of what went in, and
the difference is exactly what is inside.

The tail of the file is the index arithmetic of a ring that holds such a
queue: free-running counters, slots modulo the ring's size.
-/
import EdgeIpc.Lib.Run

namespace EdgeIpc.Lib

/-- The queue, everything ever accepted, everything ever taken. -/
structure Fifo (α : Type _) where
  queue : List α := []
  accepted : List α := []
  taken : List α := []

inductive FifoAct (α : Type _) where
  | put (x : α)
  | take
  | full
  | empty

namespace Fifo

variable {α : Type _} {cap : Nat} {q : Fifo α}

/-- The transition function of the queue of capacity `cap`. -/
def step (cap : Nat) (a : FifoAct α) (q : Fifo α) : Option (Fifo α) :=
  match a with
  | .put x =>
      if q.queue.length < cap then
        some { q with queue := q.queue ++ [x], accepted := q.accepted ++ [x] }
      else none
  | .take =>
      match q.queue with
      | x :: rest => some { q with queue := rest, taken := q.taken ++ [x] }
      | [] => none
  | .full => if q.queue.length = cap then some q else none
  | .empty =>
      match q.queue with
      | [] => some q
      | _ :: _ => none

/-- The FIFO law and the bound. -/
structure Inv (cap : Nat) (q : Fifo α) : Prop where
  law : q.accepted = q.taken ++ q.queue
  bound : q.queue.length ≤ cap

theorem inv_step {q' : Fifo α} {a : FifoAct α} (hi : Inv cap q)
    (h : step cap a q = some q') : Inv cap q' := by
  cases a with
  | put x =>
      simp only [step] at h
      split at h
      case isFalse => cases h
      case isTrue hroom =>
        injection h with h
        subst h
        refine ⟨?_, ?_⟩
        · show q.accepted ++ [x] = q.taken ++ (q.queue ++ [x])
          rw [hi.law, List.append_assoc]
        · show (q.queue ++ [x]).length ≤ cap
          rw [List.length_append, List.length_singleton]
          omega
  | take =>
      simp only [step] at h
      split at h
      next x rest hq =>
        injection h with h
        subst h
        have hb := hi.bound
        rw [hq, List.length_cons] at hb
        refine ⟨?_, ?_⟩
        · show q.accepted = (q.taken ++ [x]) ++ rest
          rw [hi.law, hq, List.append_assoc]
          rfl
        · show rest.length ≤ cap
          omega
      next => cases h
  | full =>
      simp only [step] at h
      split at h
      case isFalse => cases h
      case isTrue =>
        injection h with h
        exact h ▸ hi
  | empty =>
      simp only [step] at h
      split at h
      next =>
        injection h with h
        exact h ▸ hi
      next => cases h

/-- The FIFO law holds at every reachable state of the queue. -/
theorem inv_reachable (hr : Reachable (step cap) {} q) : Inv cap q :=
  hr.invariant ⟨rfl, Nat.zero_le _⟩ inv_step

/-- What came out is a prefix of what went in. -/
theorem Inv.taken_pre (hi : Inv cap q) : q.taken <+: q.accepted :=
  ⟨q.queue, hi.law.symm⟩

/-- At most `cap` accepted entries have not been taken. -/
theorem Inv.untaken_le (hi : Inv cap q) :
    q.accepted.length ≤ q.taken.length + cap := by
  have hb := hi.bound
  rw [hi.law, List.length_append]
  omega

end Fifo

-- ========================================================== ring indices

/-- Two counters less than one lap apart fall on different slots of a
ring of `n`. -/
theorem mod_ne_of_lt {i j n : Nat} (hij : i < j) (hlap : j < i + n) :
    i % n ≠ j % n := by
  intro heq
  have hdvd : n ∣ j - i :=
    Nat.dvd_of_mod_eq_zero (Nat.sub_mod_eq_zero_of_mod_eq heq.symm)
  have hle := Nat.le_of_dvd (by omega) hdvd
  omega

/-- Advancing a slot index advances its counter. -/
theorem succ_mod (i n : Nat) : (i % n + 1) % n = (i + 1) % n :=
  Nat.mod_add_mod i n 1

end EdgeIpc.Lib
