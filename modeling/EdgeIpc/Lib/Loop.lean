/-
Counted loops. `for (k = 0; k < n; ++k)` is a fold over `List.finRange
n`, the loop downwards is the fold over its reverse, and a loop that may
throw is `foldlM` into `Except`. Each has its invariant rule, with the
loop counter as the invariant's parameter. Loops that only add or only
subtract are sums (`foldl_accumulate`, `foldl_sub_filter`).
-/
import Mathlib.Algebra.BigOperators.Fin

namespace EdgeIpc.Lib

universe u v

variable {σ : Type u} {ε : Type v}

-- =============================================================== the rules

/-- The loop upwards. -/
theorem forUp_invariant :
    ∀ {n : Nat} (Inv : Nat → σ → Prop) {f : σ → Fin n → σ} {s : σ},
      (∀ (k : Fin n) (s : σ), Inv k s → Inv (k + 1) (f s k)) →
      Inv 0 s → Inv n ((List.finRange n).foldl f s)
  | 0, _, _, _, _, h0 => h0
  | n + 1, Inv, f, s, hstep, h0 => by
      rw [List.finRange_succ, List.foldl_cons, List.foldl_map]
      exact forUp_invariant (fun k => Inv (k + 1))
        (fun k s h => hstep k.succ s h) (hstep 0 s h0)

/-- The loop downwards: the counter comes down from `n`. -/
theorem forDown_invariant :
    ∀ {n : Nat} (Inv : Nat → σ → Prop) {f : σ → Fin n → σ} {s : σ},
      (∀ (k : Fin n) (s : σ), Inv (k + 1) s → Inv k (f s k)) →
      Inv n s → Inv 0 ((List.finRange n).reverse.foldl f s)
  | 0, _, _, _, _, hn => hn
  | n + 1, Inv, f, s, hstep, hn => by
      rw [List.finRange_succ, List.reverse_cons, List.foldl_append,
        ← List.map_reverse, List.foldl_map]
      refine hstep 0 _ ?_
      exact forDown_invariant (fun k => Inv (k + 1))
        (fun k s h => hstep k.succ s h) hn

/-- The loop upwards, left by a throw or by its end. -/
theorem forUpM_invariant :
    ∀ {n : Nat} (Inv : Nat → σ → Prop) {f : σ → Fin n → Except ε σ}
      {s r : σ},
      (∀ (k : Fin n) (s s' : σ), Inv k s → f s k = .ok s' →
        Inv (k + 1) s') →
      Inv 0 s → (List.finRange n).foldlM f s = .ok r → Inv n r
  | 0, _, _, _, _, _, h0, hr => by
      injection hr with hr
      exact hr ▸ h0
  | n + 1, Inv, f, s, r, hstep, h0, hr => by
      rw [List.finRange_succ, List.foldlM_cons] at hr
      cases hs : f s 0 with
      | error e =>
          rw [hs] at hr
          cases hr
      | ok s' =>
          rw [hs] at hr
          have hrest : ((List.finRange n).map Fin.succ).foldlM f s'
              = .ok r := hr
          rw [List.foldlM_map] at hrest
          exact forUpM_invariant (fun k => Inv (k + 1))
            (fun k s s' h => hstep k.succ s s' h) (hstep 0 s s' h0 hs) hrest

/-- A loop whose steps never throw does not. -/
theorem forUpM_ok :
    ∀ {n : Nat} (Inv : Nat → σ → Prop) {f : σ → Fin n → Except ε σ}
      {s : σ},
      (∀ (k : Fin n) (s : σ), Inv k s →
        ∃ s', f s k = .ok s' ∧ Inv (k + 1) s') →
      Inv 0 s → ∃ r, (List.finRange n).foldlM f s = .ok r ∧ Inv n r
  | 0, _, _, s, _, h0 => ⟨s, rfl, h0⟩
  | n + 1, Inv, f, s, hstep, h0 => by
      obtain ⟨s', hs, h1⟩ := hstep 0 s h0
      obtain ⟨r, hr, hn⟩ := forUpM_ok (fun k => Inv (k + 1))
        (fun k s h => hstep k.succ s h) h1
      refine ⟨r, ?_, hn⟩
      rw [List.finRange_succ, List.foldlM_cons, hs]
      show ((List.finRange n).map Fin.succ).foldlM f s' = _
      rw [List.foldlM_map]
      exact hr

/-- What a loop throws, one of its steps has thrown. -/
theorem foldlM_throws {α : Type _} {P : ε → Prop} {f : σ → α → Except ε σ}
    {e : ε} (hstep : ∀ s k e, f s k = .error e → P e) :
    ∀ {l : List α} {s : σ}, l.foldlM f s = .error e → P e
  | [], _, h => by cases h
  | k :: l, s, h => by
      rw [List.foldlM_cons] at h
      cases hs : f s k with
      | error e' =>
          rw [hs] at h
          injection h with h
          exact h ▸ hstep s k e' hs
      | ok s' =>
          rw [hs] at h
          exact foldlM_throws hstep h

/-- Two loops in lockstep: what relates their states is kept, and the
second throws only if the first does. -/
theorem forUpM_lockstep :
    ∀ {n : Nat} (R : Nat → σ → σ → Prop) {f : σ → Fin n → Except ε σ}
      {s t r : σ},
      (∀ (k : Fin n) (s t s' : σ), R k s t → f s k = .ok s' →
        ∃ t', f t k = .ok t' ∧ R (k + 1) s' t') →
      R 0 s t → (List.finRange n).foldlM f s = .ok r →
      ∃ r', (List.finRange n).foldlM f t = .ok r' ∧ R n r r'
  | 0, _, _, _, t, _, _, h0, hr => by
      injection hr with hr
      exact ⟨t, rfl, hr ▸ h0⟩
  | n + 1, R, f, s, t, r, hstep, h0, hr => by
      rw [List.finRange_succ, List.foldlM_cons] at hr
      cases hs : f s 0 with
      | error e =>
          rw [hs] at hr
          cases hr
      | ok s' =>
          rw [hs] at hr
          have hrest : ((List.finRange n).map Fin.succ).foldlM f s'
              = .ok r := hr
          rw [List.foldlM_map] at hrest
          obtain ⟨t', ht, h1⟩ := hstep 0 s t s' h0 hs
          obtain ⟨r', hr', hn⟩ := forUpM_lockstep (fun k => R (k + 1))
            (fun k s t s' h => hstep k.succ s t s' h) h1 hrest
          refine ⟨r', ?_, hn⟩
          rw [List.finRange_succ, List.foldlM_cons, ht]
          show ((List.finRange n).map Fin.succ).foldlM f t' = _
          rw [List.foldlM_map]
          exact hr'

/-- An index the loop is past after round `k`, other than `k`, it was
past before. -/
theorem lt_of_lt_succ {n : Nat} {k i : Fin n} (h : i.val < k.val + 1)
    (hne : i ≠ k) : i.val < k.val := by
  have hv : i.val ≠ k.val := fun h => hne (Fin.ext h)
  omega

-- ====================================================== accumulating loops

/-- A reading each step adds to, by an amount of its own, ends with the
sum added. -/
theorem foldl_accumulate {G : Type _} [AddCommMonoid G] (r : σ → G) :
    ∀ {n : Nat} {f : σ → Fin n → σ} {c : Fin n → G},
      (∀ s k, r (f s k) = r s + c k) → ∀ s : σ,
      r ((List.finRange n).foldl f s) = r s + ∑ k, c k
  | 0, _, _, _, s => by
      rw [Fin.sum_univ_zero, add_zero]
      rfl
  | n + 1, f, c, hf, s => by
      rw [List.finRange_succ, List.foldl_cons, List.foldl_map,
        foldl_accumulate r fun s k => hf s k.succ, hf, Fin.sum_univ_succ,
        add_assoc]

theorem foldl_sub {α G : Type _} [AddCommGroup G] (a : α → G) :
    ∀ (l : List α) (s : G),
      l.foldl (fun s j => s - a j) s = s - (l.map a).sum
  | [], s => (sub_zero s).symm
  | x :: l, s => by
      rw [List.foldl_cons, foldl_sub a l, List.map_cons, List.sum_cons,
        sub_sub]

/-- `for (j with p j) s -= a j`. -/
theorem foldl_sub_filter {n : Nat} {G : Type _} [AddCommGroup G]
    (p : Fin n → Prop) [DecidablePred p] (a : Fin n → G) (s : G) :
    ((List.finRange n).filter fun j => p j).foldl (fun s j => s - a j) s
      = s - ∑ j with p j, a j := by
  rw [foldl_sub, ← List.sum_toFinset a ((List.nodup_finRange n).filter _),
    List.toFinset_filter, List.toFinset_finRange]
  simp

end EdgeIpc.Lib
