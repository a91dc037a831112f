/-
Schedules that never end, for the transition systems of Run.lean.

# Traces

A schedule offers the system one action after the other; one that cannot
be taken is passed over. `trace` is the state before the n-th offer. What
a schedule owes its threads is `Recurs`: a turn comes again, however long
one has waited. What it owes the environment is `Settles`: from some
point on all actions are of a kind.

# The rule

`reaches_of_helpful` proves that a goal is reached. In every state short
of it some thread is the helper. No action raises the rank or breaks the
invariant; one that leaves the rank alone leaves the helper who it was;
the helper's turn can be taken and lowers the rank. Under a schedule fair
to all helpers the rank cannot stand still, and it cannot fall forever.
-/
import EdgeIpc.Lib.Run
import Mathlib.Order.WellFounded

namespace EdgeIpc.Lib

universe u v w

variable {α : Type u} {σ : Type v} {step : α → σ → Option σ}
  {sched : Nat → α} {s₀ : σ}

-- ============================================================== schedules

/-- The state before the `n`-th action offered. -/
def trace (step : α → σ → Option σ) (sched : Nat → α) (s₀ : σ) : Nat → σ
  | 0 => s₀
  | n + 1 =>
      (step (sched n) (trace step sched s₀ n)).getD (trace step sched s₀ n)

/-- Offered again and again. -/
def Recurs (sched : Nat → α) (P : α → Prop) : Prop :=
  ∀ n, ∃ m, n ≤ m ∧ P (sched m)

/-- Offered alone, from some point on. -/
def Settles (sched : Nat → α) (P : α → Prop) : Prop :=
  ∃ n, ∀ m, n ≤ m → P (sched m)

/-- An offer is taken or passed over. -/
theorem trace_succ (step : α → σ → Option σ) (sched : Nat → α) (s₀ : σ)
    (n : Nat) :
    step (sched n) (trace step sched s₀ n)
        = some (trace step sched s₀ (n + 1))
      ∨ trace step sched s₀ (n + 1) = trace step sched s₀ n := by
  simp only [trace]
  cases step (sched n) (trace step sched s₀ n) with
  | none => exact .inr rfl
  | some s => exact .inl rfl

/-- What can be taken when it is offered is taken. -/
theorem trace_succ_of {n : Nat} {s : σ}
    (h : step (sched n) (trace step sched s₀ n) = some s) :
    trace step sched s₀ (n + 1) = s := by
  simp only [trace, h, Option.getD_some]

/-- A property that all steps offered from `n` on keep, holds on. -/
theorem trace_keeps_of (Inv : σ → Prop) (ok : α → Prop) {n : Nat}
    (hok : ∀ m, n ≤ m → ok (sched m))
    (hstep : ∀ {a s s'}, Inv s → ok a → step a s = some s' → Inv s')
    (hn : Inv (trace step sched s₀ n)) {m : Nat} (hm : n ≤ m) :
    Inv (trace step sched s₀ m) := by
  induction m, hm using Nat.le_induction with
  | base => exact hn
  | succ m hm ih =>
      rcases trace_succ step sched s₀ m with h | h
      · exact hstep ih (hok m hm) h
      · rw [h]
        exact ih

/-- A property that every step keeps, once it holds, holds on. -/
theorem trace_keeps (Inv : σ → Prop) {n : Nat}
    (hstep : ∀ {a s s'}, Inv s → step a s = some s' → Inv s')
    (hn : Inv (trace step sched s₀ n)) {m : Nat} (hm : n ≤ m) :
    Inv (trace step sched s₀ m) :=
  trace_keeps_of Inv (fun _ => True) (fun _ _ => trivial)
    (fun hs _ h => hstep hs h) hn hm

/-- A trace goes through reachable states. -/
theorem trace_reachable (step : α → σ → Option σ) (sched : Nat → α) (s₀ : σ)
    (n : Nat) : Reachable step s₀ (trace step sched s₀ n) :=
  trace_keeps (Reachable step s₀) (fun hs h => hs.step _ h) .init
    (Nat.zero_le n)

-- =============================================================== progress

/-- A state of affairs that lasts until `Q`, and that any turn of one kind
brings to `Q`, ends in `Q` if that turn recurs. -/
theorem reaches_of_turn {P Q : σ → Prop} {turn : α → Prop} {n : Nat}
    (hfair : Recurs sched turn)
    (hkeep : ∀ m, n ≤ m → P (trace step sched s₀ m) →
      P (trace step sched s₀ (m + 1)) ∨ Q (trace step sched s₀ (m + 1)))
    (hturn : ∀ m, n ≤ m → P (trace step sched s₀ m) → turn (sched m) →
      Q (trace step sched s₀ (m + 1)))
    (hn : P (trace step sched s₀ n)) :
    ∃ m, n ≤ m ∧ Q (trace step sched s₀ m) := by
  obtain ⟨k, hk, ht⟩ := hfair n
  -- up to the turn the state of affairs lasts, or it is over before
  have hlast : P (trace step sched s₀ k)
      ∨ ∃ m, n ≤ m ∧ Q (trace step sched s₀ m) := by
    clear ht
    induction k, hk using Nat.le_induction with
    | base => exact .inl hn
    | succ k hk ih =>
        rcases ih with hp | hq
        · rcases hkeep k hk hp with hp' | hq'
          · exact .inl hp'
          · exact .inr ⟨k + 1, by omega, hq'⟩
        · exact .inr hq
  rcases hlast with hp | hq
  · exact ⟨k + 1, by omega, hturn k hk hp ht⟩
  · exact hq

variable {ι : Type w} {ρ : Type*} [PartialOrder ρ] [WellFoundedLT ρ]

/-- The rule of the helpful thread. -/
theorem reaches_of_helpful (Inv goal : σ → Prop) (ok : α → Prop)
    (turn : ι → α → Prop) (rank : σ → ρ) (helper : σ → ι) {n : Nat}
    (hfair : ∀ i, Recurs sched (turn i))
    (hok : ∀ m, n ≤ m → ok (sched m))
    (hinv : ∀ {a s s'}, Inv s → ¬ goal s → ok a → step a s = some s' →
      goal s' ∨ Inv s')
    (hkeep : ∀ {a s s'}, Inv s → ¬ goal s → ok a → step a s = some s' →
      goal s' ∨ rank s' < rank s ∨ (rank s' = rank s ∧ helper s' = helper s))
    (hhelp : ∀ {a s}, Inv s → ¬ goal s → ok a → turn (helper s) a →
      ∃ s', step a s = some s' ∧ (goal s' ∨ rank s' < rank s))
    (hn : Inv (trace step sched s₀ n)) :
    ∃ m, n ≤ m ∧ goal (trace step sched s₀ m) := by
  -- by induction on the rank, for every later point at once
  suffices h : ∀ r k, n ≤ k → Inv (trace step sched s₀ k) →
      rank (trace step sched s₀ k) = r →
      ∃ m, k ≤ m ∧ goal (trace step sched s₀ m) from h _ n le_rfl hn rfl
  intro r
  induction r using WellFoundedLT.induction with
  | ind r ih =>
    intro k hk hi hr
    by_cases hgoal : goal (trace step sched s₀ k)
    · exact ⟨k, le_rfl, hgoal⟩
    -- the helper's turn ends what lasts until then
    have hnext : ∃ m, k ≤ m ∧ (goal (trace step sched s₀ m)
        ∨ (Inv (trace step sched s₀ m)
          ∧ rank (trace step sched s₀ m) < r)) := by
      refine reaches_of_turn
        (P := fun s => Inv s ∧ ¬ goal s ∧ rank s = r
          ∧ helper s = helper (trace step sched s₀ k))
        (Q := fun s => goal s ∨ (Inv s ∧ rank s < r))
        (hfair (helper (trace step sched s₀ k))) ?_ ?_ ⟨hi, hgoal, hr, rfl⟩
      · rintro m hm ⟨him, hng, hrm, hhm⟩
        have hokm := hok m (hk.trans hm)
        rcases trace_succ step sched s₀ m with h | h
        · by_cases hg : goal (trace step sched s₀ (m + 1))
          · exact .inr (.inl hg)
          have hinv' := (hinv him hng hokm h).resolve_left hg
          rcases (hkeep him hng hokm h).resolve_left hg with hlt | ⟨heq, hsame⟩
          · exact .inr (.inr ⟨hinv', hrm ▸ hlt⟩)
          · exact .inl ⟨hinv', hg, heq.trans hrm, hsame.trans hhm⟩
        · rw [h]
          exact .inl ⟨him, hng, hrm, hhm⟩
      · rintro m hm ⟨him, hng, hrm, hhm⟩ ht
        have hokm := hok m (hk.trans hm)
        obtain ⟨s', hs', hend⟩ := hhelp him hng hokm (hhm ▸ ht)
        rw [trace_succ_of hs', ← hrm]
        rcases hend with hg | hlt
        · exact .inl hg
        · exact (hinv him hng hokm hs').imp_right fun hi' => ⟨hi', hlt⟩
    obtain ⟨m, hm, hg | ⟨him, hlt⟩⟩ := hnext
    · exact ⟨m, hm, hg⟩
    · obtain ⟨m', hm', hg⟩ := ih _ hlt m (hk.trans hm) him rfl
      exact ⟨m', hm.trans hm', hg⟩

end EdgeIpc.Lib
