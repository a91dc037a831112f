/-
Runs of a labelled step function. A system is a partial function
`step : α → σ → Option σ`: `none` says the action is disabled in that
state (a blocked thread, a control point the action does not belong
to), `some` gives the one successor. Nondeterminism lives in the
choice of the action, so a schedule is a plain list of actions and
"every interleaving" is "every list".

# The two readings of a run

`Reachable` is the state reading: what holds at every state some
schedule leads to. `AllStates` and `AllSteps` are the run reading: they
walk one given schedule and ask a state predicate of every state
visited, or a step predicate of every step taken. The run reading is
what an exact condition needs: "the law holds along this run iff no
step of this run is of the bad kind" is an equivalence between an
`AllStates` and an `AllSteps` over the same schedule. One direction is
`allStates_of_allSteps`; the other takes the run apart into steps
(`AllStates.ends`) and follows them with `AllSteps.mono`. Each is reduced
to a one-step obligation. `collect` reads off a run what its steps hand
out, and `exec_collect` is the invariant rule for that output and the
state together.

# Termination

`ends_of_measure` is the rule for "it comes to an end whatever the
outside does": an infinite supply of actions, each enabled until the end
and each making a measure smaller.

# Simulation

`Simulates` is forward simulation with stuttering: each concrete step
is either invisible or one named abstract action. `reachable_simulates`
carries every abstract invariant down to the concrete system. Where every
step is visible, `exec_lockstep` follows a given run, and `exec_together`
makes two systems run that can always step.
-/

namespace EdgeIpc.Lib

universe u v w x

variable {σ : Type u} {α : Type v} {step : α → σ → Option σ}

-- ============================================================= schedules

/-- Run a schedule, failing on the first disabled action. -/
def exec (step : α → σ → Option σ) : List α → σ → Option σ
  | [], s => some s
  | a :: as, s =>
      match step a s with
      | some s' => exec step as s'
      | none => none

/-- A schedule's first action, peeled off. -/
theorem exec_cons_some {a : α} {as : List α} {s s'' : σ}
    (h : exec step (a :: as) s = some s'') :
    ∃ s', step a s = some s' ∧ exec step as s' = some s'' := by
  simp only [exec] at h
  split at h
  next s' hs => exact ⟨s', hs, h⟩
  next => cases h

/-- An enabled first action runs the rest from its successor. -/
theorem exec_cons_of {a : α} {as : List α} {s s' : σ}
    (hs : step a s = some s') :
    exec step (a :: as) s = exec step as s' := by
  simp only [exec, hs]

/-- Two schedules one after the other. -/
theorem exec_append :
    ∀ {as bs : List α} {s s₁ s₂ : σ}, exec step as s = some s₁ →
      exec step bs s₁ = some s₂ → exec step (as ++ bs) s = some s₂
  | [], bs, s, s₁, s₂, h, h' => by
      simp only [exec, Option.some.injEq] at h
      exact h ▸ h'
  | a :: as, bs, s, s₁, s₂, h, h' => by
      obtain ⟨s', hs, hrest⟩ := exec_cons_some h
      rw [List.cons_append, exec_cons_of hs]
      exact exec_append hrest h'

-- ========================================================== reachability

/-- Some schedule leads from `s₀` to this state. -/
inductive Reachable (step : α → σ → Option σ) (s₀ : σ) : σ → Prop
  | init : Reachable step s₀ s₀
  | step {s s' : σ} (a : α) :
      Reachable step s₀ s → step a s = some s' → Reachable step s₀ s'

/-- The invariant rule: what holds initially and survives every enabled
step holds at every reachable state. -/
theorem Reachable.invariant {s₀ s : σ} {Inv : σ → Prop}
    (hr : Reachable step s₀ s) (hinit : Inv s₀)
    (hstep : ∀ {s s' : σ} {a : α}, Inv s → step a s = some s' → Inv s') :
    Inv s := by
  induction hr with
  | init => exact hinit
  | step a _ hs ih => exact hstep ih hs

/-- A reachable state stays reachable along any schedule. -/
theorem Reachable.exec {s₀ : σ} :
    ∀ {as : List α} {s s' : σ}, Reachable step s₀ s →
      Lib.exec step as s = some s' → Reachable step s₀ s'
  | [], s, s', hr, h => by
      simp only [Lib.exec, Option.some.injEq] at h
      exact h ▸ hr
  | a :: as, s, s', hr, h => by
      obtain ⟨s₁, hs, hrest⟩ := exec_cons_some h
      exact Reachable.exec (.step a hr hs) hrest

/-- Executing a schedule from the initial state reaches its end. -/
theorem reachable_of_exec {s₀ s : σ} {as : List α}
    (h : exec step as s₀ = some s) : Reachable step s₀ s :=
  Reachable.exec .init h

/-- The invariant rule along one schedule of actions of a given kind. -/
theorem exec_invariant {Inv : σ → Prop} {ok : α → Prop}
    (hstep : ∀ {s s' : σ} {a : α}, Inv s → ok a → step a s = some s' →
      Inv s') :
    ∀ {as : List α} {s s' : σ}, (∀ a ∈ as, ok a) → Inv s →
      exec step as s = some s' → Inv s'
  | [], s, s', _, hi, h => by
      simp only [exec, Option.some.injEq] at h
      exact h ▸ hi
  | a :: as, s, s', hok, hi, h => by
      obtain ⟨s₁, hs, hrest⟩ := exec_cons_some h
      obtain ⟨ha, hok⟩ := List.forall_mem_cons.mp hok
      exact exec_invariant hstep hok (hstep hi ha hs) hrest

-- ==================================================== along one schedule

/-- Every state the schedule visits from `s`, both ends included,
satisfies `P`. -/
def AllStates (step : α → σ → Option σ) (P : σ → Prop) :
    List α → σ → Prop
  | [], s => P s
  | a :: as, s => P s ∧ ∀ s', step a s = some s' → AllStates step P as s'

/-- Every step the schedule takes from `s` satisfies `ok`, which sees
the state before, the action and the state after. -/
def AllSteps (step : α → σ → Option σ) (ok : σ → α → σ → Prop) :
    List α → σ → Prop
  | [], _ => True
  | a :: as, s =>
      ∀ s', step a s = some s' → ok s a s' ∧ AllSteps step ok as s'

/-- An enabled good step in front of a run of good steps. -/
theorem AllSteps.cons {ok : σ → α → σ → Prop} {a : α} {as : List α}
    {s s₁ : σ} (hs : step a s = some s₁) (hok : ok s a s₁)
    (h : AllSteps step ok as s₁) : AllSteps step ok (a :: as) s := by
  intro s' hs'
  rw [hs] at hs'
  injection hs' with hs'
  exact hs' ▸ ⟨hok, h⟩

/-- A step condition that can be evaluated can be evaluated along a
run. -/
instance AllSteps.decidable {ok : σ → α → σ → Prop}
    [∀ s a s', Decidable (ok s a s')] :
    ∀ (as : List α) (s : σ), Decidable (AllSteps step ok as s)
  | [], _ => .isTrue trivial
  | a :: as, s =>
      match h : step a s with
      | none =>
          .isTrue fun s' hs => by
            rw [h] at hs
            cases hs
      | some s₁ =>
          have : Decidable (AllSteps step ok as s₁) := AllSteps.decidable as s₁
          decidable_of_iff (ok s a s₁ ∧ AllSteps step ok as s₁)
            ⟨fun hall => .cons h hall.1 hall.2, fun hall => hall s₁ h⟩

theorem AllStates.head {P : σ → Prop} {as : List α} {s : σ}
    (h : AllStates step P as s) : P s := by
  cases as with
  | nil => exact h
  | cons a as => exact h.1

/-- The state a schedule ends in is one of those it visits. -/
theorem AllStates.last {P : σ → Prop} :
    ∀ {as : List α} {s s' : σ}, AllStates step P as s →
      exec step as s = some s' → P s'
  | [], s, s', h, he => by
      simp only [exec, Option.some.injEq] at he
      exact he ▸ h
  | a :: as, s, s', h, he => by
      obtain ⟨s₁, hs, hrest⟩ := exec_cons_some he
      exact (h.2 s₁ hs).last hrest

/-- The run lemma: an invariant kept by every good step, on a run of
good steps, gives its consequence at every state visited. -/
theorem allStates_of_allSteps {Inv P : σ → Prop} {ok : σ → α → σ → Prop}
    (hkeep : ∀ {s s' : σ} {a : α},
      Inv s → step a s = some s' → ok s a s' → Inv s')
    (hP : ∀ {s : σ}, Inv s → P s) :
    ∀ {as : List α} {s : σ}, Inv s → AllSteps step ok as s →
      AllStates step P as s
  | [], _, hi, _ => hP hi
  | _ :: _, _, hi, h => by
      refine ⟨hP hi, fun s' hs => ?_⟩
      obtain ⟨hok, hrest⟩ := h s' hs
      exact allStates_of_allSteps hkeep hP (hkeep hi hs hok) hrest

/-- The converse reading: `P` at every state of a run is `P` at both
ends of every step of it. -/
theorem AllStates.ends {P : σ → Prop} :
    ∀ {as : List α} {s : σ}, AllStates step P as s →
      AllSteps step (fun s _ s' => P s ∧ P s') as s
  | [], _, _ => trivial
  | _ :: _, _, h => by
      intro s' hs
      have hrest := h.2 s' hs
      exact ⟨⟨h.1, hrest.head⟩, hrest.ends⟩

theorem AllSteps.and {ok ok' : σ → α → σ → Prop} :
    ∀ {as : List α} {s : σ}, AllSteps step ok as s →
      AllSteps step ok' as s →
      AllSteps step (fun s a s' => ok s a s' ∧ ok' s a s') as s
  | [], _, _, _ => trivial
  | _ :: _, _, h, h' => by
      intro s' hs
      exact ⟨⟨(h s' hs).1, (h' s' hs).1⟩, (h s' hs).2.and (h' s' hs).2⟩

/-- A run whose every step is good stays good under a weaker notion,
given an invariant the steps keep. -/
theorem AllSteps.mono (Inv : σ → Prop) {ok ok' : σ → α → σ → Prop}
    (hkeep : ∀ {s s' : σ} {a : α},
      Inv s → step a s = some s' → ok s a s' → ok' s a s' ∧ Inv s') :
    ∀ {as : List α} {s : σ}, Inv s → AllSteps step ok as s →
      AllSteps step ok' as s
  | [], _, _, _ => trivial
  | _ :: _, _, hi, h => by
      intro s' hs
      obtain ⟨hok, hrest⟩ := h s' hs
      obtain ⟨hok', hi'⟩ := hkeep hi hs hok
      exact ⟨hok', AllSteps.mono Inv hkeep hi' hrest⟩

/-- Steps that are good wherever an invariant holds, and keep it. -/
theorem allSteps_of_invariant (Inv : σ → Prop) {ok : σ → α → σ → Prop}
    (hkeep : ∀ {s s' : σ} {a : α},
      Inv s → step a s = some s' → ok s a s' ∧ Inv s') :
    ∀ {as : List α} {s : σ}, Inv s → AllSteps step ok as s
  | [], _, _ => trivial
  | _ :: _, _, hi => by
      intro s' hs
      obtain ⟨hok, hi'⟩ := hkeep hi hs
      exact ⟨hok, allSteps_of_invariant Inv hkeep hi'⟩

/-- What the steps of a run emit, in order. -/
def collect {β : Type w} (step : α → σ → Option σ) (out : σ → α → List β) :
    List α → σ → List β
  | [], _ => []
  | a :: as, s =>
      match step a s with
      | some s' => out s a ++ collect step out as s'
      | none => []

/-- The invariant rule for a state together with what has been emitted. -/
theorem exec_collect {β : Type w} {out : σ → α → List β}
    (Inv : List β → σ → Prop)
    (hstep : ∀ {l : List β} {s s' : σ} {a : α}, Inv l s →
      step a s = some s' → Inv (l ++ out s a) s') :
    ∀ {as : List α} {l : List β} {s s' : σ}, Inv l s →
      exec step as s = some s' → Inv (l ++ collect step out as s) s'
  | [], l, s, s', hi, h => by
      simp only [exec, Option.some.injEq] at h
      rw [collect, List.append_nil]
      exact h ▸ hi
  | a :: as, l, s, s', hi, h => by
      obtain ⟨s₁, hs, hrest⟩ := exec_cons_some h
      have hrun := exec_collect Inv hstep (hstep hi hs) hrest
      rw [List.append_assoc] at hrun
      simp only [collect, hs]
      exact hrun

/-- What two schedules one after the other emit. -/
theorem collect_append {β : Type w} (out : σ → α → List β) :
    ∀ {as bs : List α} {s s₁ : σ}, exec step as s = some s₁ →
      collect step out (as ++ bs) s
        = collect step out as s ++ collect step out bs s₁
  | [], bs, s, s₁, h => by
      simp only [exec, Option.some.injEq] at h
      exact h ▸ rfl
  | a :: as, bs, s, s₁, h => by
      obtain ⟨s', hs, hrest⟩ := exec_cons_some h
      simp only [List.cons_append, collect, hs, List.append_assoc]
      rw [collect_append out hrest]

/-- The exact reading: if each step keeps `P` exactly when it is good,
a run keeps it exactly when all its steps are. -/
theorem exec_iff_allSteps {Inv P : σ → Prop} {ok : σ → α → σ → Prop}
    (hstep : ∀ {s s' : σ} {a : α}, Inv s → step a s = some s' →
      Inv s' ∧ (P s' ↔ P s ∧ ok s a s')) :
    ∀ {as : List α} {s s' : σ}, Inv s → exec step as s = some s' →
      (P s' ↔ P s ∧ AllSteps step ok as s)
  | [], s, s', _, he => by
      simp only [exec, Option.some.injEq] at he
      subst he
      exact ⟨fun h => ⟨h, trivial⟩, And.left⟩
  | a :: as, s, s', hi, he => by
      obtain ⟨s₁, hs, hrest⟩ := exec_cons_some he
      obtain ⟨hi₁, hiff⟩ := hstep hi hs
      rw [exec_iff_allSteps hstep hi₁ hrest, hiff, and_assoc]
      refine and_congr_right fun _ => ⟨fun h => .cons hs h.1 h.2, fun h => ?_⟩
      exact h s₁ hs

/-- Steps that are always enabled and keep an invariant that counts
them: every schedule runs. -/
theorem exec_counted (Inv : Nat → σ → Prop)
    (hstep : ∀ {n : Nat} {s : σ} (a : α), Inv n s →
      ∃ s', step a s = some s' ∧ Inv (n + 1) s') :
    ∀ (as : List α) {n : Nat} {s : σ}, Inv n s →
      ∃ s', exec step as s = some s' ∧ Inv (n + as.length) s'
  | [], _, s, hi => ⟨s, rfl, hi⟩
  | a :: as, n, s, hi => by
      obtain ⟨s₁, hs, hi₁⟩ := hstep a hi
      obtain ⟨s', he, hi'⟩ := exec_counted Inv hstep as hi₁
      rw [Nat.add_right_comm, Nat.add_assoc] at hi'
      exact ⟨s', (exec_cons_of hs).trans he, hi'⟩

-- ============================================================= stability

/-- Once `P` has held at some state of the run, it holds at every later
one: for any way of cutting the schedule in three, `P` after the first
part gives `P` after the second. -/
def Stable (step : α → σ → Option σ) (P : σ → Prop) (as : List α)
    (s : σ) : Prop :=
  ∀ pre mid post, as = pre ++ mid ++ post → ∀ s₁ s₂,
    exec step pre s = some s₁ → exec step mid s₁ = some s₂ →
    P s₁ → P s₂

/-- Step-wise preservation, carried over a whole schedule. -/
theorem exec_keeps_of_allSteps {P : σ → Prop} :
    ∀ {mid post : List α} {s s₂ : σ},
      AllSteps step (fun s _ s' => P s → P s') (mid ++ post) s →
      exec step mid s = some s₂ → P s → P s₂
  | [], _, s, s₂, _, he, hp => by
      simp only [exec, Option.some.injEq] at he
      exact he ▸ hp
  | a :: mid, post, s, s₂, h, he, hp => by
      obtain ⟨s', hs, hrest⟩ := exec_cons_some he
      obtain ⟨hok, hall⟩ := h s' hs
      exact exec_keeps_of_allSteps hall hrest (hok hp)

/-- Dropping an executed front of a schedule keeps `AllSteps`. -/
theorem AllSteps.drop_front {ok : σ → α → σ → Prop} :
    ∀ {pre as : List α} {s s₁ : σ}, AllSteps step ok (pre ++ as) s →
      exec step pre s = some s₁ → AllSteps step ok as s₁
  | [], as, s, s₁, h, he => by
      simp only [exec, Option.some.injEq] at he
      exact he ▸ h
  | a :: pre, as, s, s₁, h, he => by
      obtain ⟨s', hs, hrest⟩ := exec_cons_some he
      exact AllSteps.drop_front (h s' hs).2 hrest

/-- Stability along a run is stability at each of its steps. -/
theorem stable_iff_allSteps {P : σ → Prop} {as : List α} {s : σ} :
    Stable step P as s ↔ AllSteps step (fun s _ s' => P s → P s') as s := by
  constructor
  · intro h
    induction as generalizing s with
    | nil => trivial
    | cons a as ih =>
        intro s' hs
        refine ⟨?_, ih ?_⟩
        · -- the one-step cut: nothing before, `[a]` in the middle
          refine h [] [a] as (by simp) s s' rfl ?_
          rw [exec_cons_of hs]
          rfl
        · intro pre mid post hcut s₁ s₂ h₁ h₂
          refine h (a :: pre) mid post (by simp [hcut]) s₁ s₂ ?_ h₂
          rw [exec_cons_of hs]
          exact h₁
  · intro h pre mid post hcut s₁ s₂ h₁ h₂ hp
    subst hcut
    rw [List.append_assoc] at h
    exact exec_keeps_of_allSteps (h.drop_front h₁) h₂ hp

-- =========================================================== termination

/-- The measure rule: if, until `goal`, whatever action comes next is
enabled and makes the measure smaller, then any sequence of actions
brings the system to `goal`. -/
theorem ends_of_measure (Inv goal : σ → Prop) (ok : α → Prop)
    (m : σ → Nat)
    (hstep : ∀ {s : σ} {a : α}, Inv s → ¬ goal s → ok a →
      ∃ s', step a s = some s' ∧ Inv s' ∧ m s' < m s) :
    ∀ {s : σ} (acts : Nat → α), (∀ i, ok (acts i)) → Inv s →
      ∃ n s', exec step ((List.range n).map acts) s = some s' ∧ goal s' := by
  intro s
  induction hm : m s using Nat.strongRecOn generalizing s with
  | ind k ih =>
      intro acts hacts hi
      by_cases hg : goal s
      · exact ⟨0, s, rfl, hg⟩
      obtain ⟨s₁, hs, hi₁, hlt⟩ := hstep hi hg (hacts 0)
      obtain ⟨n, s', he, hg'⟩ := ih _ (hm ▸ hlt) rfl
        (fun i => acts (i + 1)) (fun i => hacts (i + 1)) hi₁
      refine ⟨n + 1, s', ?_, hg'⟩
      rw [List.range_succ_eq_map, List.map_cons, List.map_map,
        exec_cons_of hs]
      exact he

-- ============================================================ simulation

variable {τ : Type w} {β : Type x} {astep : β → τ → Option τ}

/-- The abstract system follows a concrete step: it stays (`none`) or
makes the named move, and ends where `Good` holds. -/
def Follows (astep : β → τ → Option τ) (Good : τ → Prop) (t : τ) :
    Option β → Prop
  | none => Good t
  | some b => ∃ t', astep b t = some t' ∧ Good t'

/-- Forward simulation with stuttering: `obs` names the abstract action
a concrete step performs (`none`: invisible), and the relation follows. -/
def Simulates (step : α → σ → Option σ) (astep : β → τ → Option τ)
    (obs : σ → α → Option β) (Rel : σ → τ → Prop) : Prop :=
  ∀ {s s' : σ} {t : τ} {a : α}, Rel s t → step a s = some s' →
    Follows astep (Rel s') t (obs s a)

/-- Every reachable concrete state is related to a reachable abstract
one. -/
theorem reachable_simulates {obs : σ → α → Option β} {Rel : σ → τ → Prop}
    {s₀ s : σ} {t₀ : τ} (hsim : Simulates step astep obs Rel)
    (h₀ : Rel s₀ t₀) (hr : Reachable step s₀ s) :
    ∃ t, Reachable astep t₀ t ∧ Rel s t := by
  induction hr with
  | init => exact ⟨t₀, .init, h₀⟩
  | @step s s' a _ hs ih =>
      obtain ⟨t, ht, hrel⟩ := ih
      have hmove := hsim hrel hs
      cases ho : obs s a with
      | none =>
          rw [ho] at hmove
          exact ⟨t, ht, hmove⟩
      | some b =>
          rw [ho] at hmove
          obtain ⟨t', hb, hrel'⟩ := hmove
          exact ⟨t', .step b ht hb, hrel'⟩

/-- A system that can follow another, action for action, can follow it
along every schedule. -/
theorem exec_lockstep {astep : α → τ → Option τ} {Rel : σ → τ → Prop}
    (h : ∀ {a : α} {s s' : σ} {t : τ}, Rel s t → step a s = some s' →
      ∃ t', astep a t = some t' ∧ Rel s' t') :
    ∀ {as : List α} {s s' : σ} {t : τ}, Rel s t →
      exec step as s = some s' → ∃ t', exec astep as t = some t' ∧ Rel s' t'
  | [], s, s', t, hrel, he => by
      simp only [exec, Option.some.injEq] at he
      exact ⟨t, rfl, he ▸ hrel⟩
  | a :: as, s, s', t, hrel, he => by
      obtain ⟨s₁, hs, hrest⟩ := exec_cons_some he
      obtain ⟨t₁, ht, hrel₁⟩ := h hrel hs
      rw [exec_cons_of ht]
      exact exec_lockstep h hrel₁ hrest

/-- Two systems that can always step together, each by its own reading
of a common action, run together. -/
theorem exec_together {γ : Type _} (f : γ → α) (g : γ → β) {ok : γ → Prop}
    {Rel : σ → τ → Prop}
    (h : ∀ {c : γ} {s : σ} {t : τ}, ok c → Rel s t →
      ∃ s' t', step (f c) s = some s' ∧ astep (g c) t = some t' ∧ Rel s' t') :
    ∀ {cs : List γ} {s : σ} {t : τ}, (∀ c ∈ cs, ok c) → Rel s t →
      ∃ s' t', exec step (cs.map f) s = some s'
        ∧ exec astep (cs.map g) t = some t' ∧ Rel s' t'
  | [], s, t, _, hrel => ⟨s, t, rfl, rfl, hrel⟩
  | c :: cs, s, t, hok, hrel => by
      obtain ⟨hc, hcs⟩ := List.forall_mem_cons.mp hok
      obtain ⟨s₁, t₁, hs, ht, hrel₁⟩ := h hc hrel
      rw [List.map_cons, List.map_cons, exec_cons_of hs, exec_cons_of ht]
      exact exec_together f g h hcs hrel₁

/-- Two systems that look the same through `obs`, step for step, look the
same along every schedule. -/
theorem exec_observe {step' : α → σ → Option σ} (obs : σ → τ)
    (h : ∀ {a : α} {s t : σ}, obs s = obs t →
      (step a s).map obs = (step' a t).map obs) :
    ∀ (as : List α) {s t : σ}, obs s = obs t →
      (exec step as s).map obs = (exec step' as t).map obs
  | [], _, _, heq => congrArg some heq
  | a :: as, s, t, heq => by
      have hstep := h (a := a) heq
      simp only [exec]
      cases hs : step a s with
      | none =>
          cases ht : step' a t with
          | none => rfl
          | some t' =>
              rw [hs, ht] at hstep
              cases hstep
      | some s' =>
          cases ht : step' a t with
          | none =>
              rw [hs, ht] at hstep
              cases hstep
          | some t' =>
              rw [hs, ht] at hstep
              injection hstep with hstep
              exact exec_observe obs h as hstep

end EdgeIpc.Lib
