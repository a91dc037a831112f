/-
Atomic objects: what it means for an object with concurrent calls to
behave as a sequential one.

A sequential object is what each call does to a value, and the answer it
gives (`SeqSpec`). The atomic object made of it lets any number of threads
be inside a call. A call begins, takes effect all at once at some moment,
and ends with the answer of that moment; between these three the other
threads do as they like. What can be seen of a run is its history: the
calls and the answers in their order.

A concurrent object is linearizable if every history of it is one of the
atomic object. The effects of that run of the atomic object, in their
order, are the sequential run it could have been (`exec_effects`): each
lies between its call and its answer, so calls that do not overlap take
effect in the order they were made.
-/
import EdgeIpc.Lib.Run

namespace EdgeIpc.Lib

universe u v w x y

variable {T : Type u} {V : Type v} {C : Type w} {X : Type x} {A : Type y}

-- ============================================================== the object

/-- What a call does to the value and what it answers. Where it may do
more than one thing, `X` says which; `none` says that this is not one of
them. -/
structure SeqSpec (V : Type v) (C : Type w) (X : Type x) (A : Type y) where
  apply : C → X → V → Option (V × A)

/-- Where a thread stands: in no call, in one that has not taken effect,
in one that has. -/
inductive Status (C : Type w) (A : Type y) where
  | idle
  | pending (c : C)
  | done (a : A)

/-- The value, and where the threads stand. -/
structure Atomic (T : Type u) (V : Type v) (C : Type w) (A : Type y) where
  value : V
  status : T → Status C A

/-- A thread calls, its call takes effect, it gets its answer. -/
inductive AtomicAct (T : Type u) (C : Type w) (X : Type x) where
  | invoke (t : T) (c : C)
  | effect (t : T) (x : X)
  | answer (t : T)

/-- What can be seen. -/
inductive HistEvent (T : Type u) (C : Type w) (A : Type y) where
  | invoked (t : T) (c : C)
  | answered (t : T) (a : A)
deriving DecidableEq

namespace Atomic

/-- No thread is in a call. -/
def init (v : V) : Atomic T V C A := ⟨v, fun _ => .idle⟩

variable [DecidableEq T]

def put (o : Atomic T V C A) (t : T) (st : Status C A) : Atomic T V C A :=
  { o with status := fun u => if u = t then st else o.status u }

def step (spec : SeqSpec V C X A) (a : AtomicAct T C X)
    (o : Atomic T V C A) : Option (Atomic T V C A) :=
  match a with
  | .invoke t c =>
      match o.status t with
      | .idle => some (o.put t (.pending c))
      | _ => none
  | .effect t x =>
      match o.status t with
      | .pending c =>
          (spec.apply c x o.value).map fun r =>
            ({ o with value := r.1 } : Atomic T V C A).put t (.done r.2)
      | _ => none
  | .answer t =>
      match o.status t with
      | .done _ => some (o.put t .idle)
      | _ => none

omit [DecidableEq T] in
/-- What an action adds to the history. -/
def emits (o : Atomic T V C A) : AtomicAct T C X → List (HistEvent T C A)
  | .invoke t c => [.invoked t c]
  | .effect _ _ => []
  | .answer t =>
      match o.status t with
      | .done a => [.answered t a]
      | _ => []

/-- The history of a run. -/
def history (spec : SeqSpec V C X A) (as : List (AtomicAct T C X))
    (o : Atomic T V C A) : List (HistEvent T C A) :=
  collect (step spec) emits as o

-- =============================================================== the steps

variable {spec : SeqSpec V C X A} {o : Atomic T V C A} {t : T} {c : C} {a : A}

theorem step_invoke (h : o.status t = .idle) :
    step spec (.invoke t c) o = some (o.put t (.pending c)) := by
  simp only [step, h]

theorem step_effect {x : X} {v : V} (h : o.status t = .pending c)
    (ha : spec.apply c x o.value = some (v, a)) :
    step spec (.effect t x) o
      = some (({ o with value := v } : Atomic T V C A).put t (.done a)) := by
  simp only [step, h, ha, Option.map_some]

theorem step_answer (spec : SeqSpec V C X A) (h : o.status t = .done a) :
    step spec (.answer t) o = some (o.put t .idle) := by
  simp only [step, h]

theorem put_self (o : Atomic T V C A) (t : T) (st : Status C A) :
    (o.put t st).status t = st :=
  if_pos rfl

theorem put_put (o : Atomic T V C A) (t : T) (st st' : Status C A) :
    (o.put t st).put t st' = o.put t st' := by
  unfold put
  simp only [mk.injEq, true_and]
  funext u
  by_cases hu : u = t
  · rw [if_pos hu, if_pos hu]
  · rw [if_neg hu, if_neg hu, if_neg hu]

-- ============================================================ the sequence

/-- A call of the sequential object, with the answer it is to give. -/
def seqStep [DecidableEq A] (spec : SeqSpec V C X A) (op : C × X × A)
    (v : V) : Option V :=
  match spec.apply op.1 op.2.1 v with
  | some (v', a) => if a = op.2.2 then some v' else none
  | none => none

omit [DecidableEq T] in
/-- The call that takes effect with an action. -/
def effectOf (spec : SeqSpec V C X A) (o : Atomic T V C A) :
    AtomicAct T C X → List (C × X × A)
  | .effect t x =>
      match o.status t with
      | .pending c =>
          match spec.apply c x o.value with
          | some (_, a) => [(c, x, a)]
          | none => []
      | _ => []
  | _ => []

/-- The calls of a run in the order of their effects. -/
def effects (spec : SeqSpec V C X A) (as : List (AtomicAct T C X))
    (o : Atomic T V C A) : List (C × X × A) :=
  collect (step spec) (effectOf spec) as o

theorem exec_effectOf [DecidableEq A] {act : AtomicAct T C X}
    {o' : Atomic T V C A} (h : step spec act o = some o') :
    exec (seqStep spec) (effectOf spec o act) o.value = some o'.value := by
  cases act with
  | invoke t c =>
      simp only [step] at h
      split at h
      · injection h with h
        exact h ▸ rfl
      · cases h
  | effect t x =>
      simp only [step] at h
      split at h
      next c hc =>
        obtain ⟨⟨v, a⟩, ha, rfl⟩ := Option.map_eq_some_iff.mp h
        simp only [effectOf, hc, ha, exec, seqStep, if_true]
        rfl
      next => cases h
  | answer t =>
      simp only [step] at h
      split at h
      · injection h with h
        exact h ▸ rfl
      · cases h

/-- The effects of a run are a run of the sequential object. -/
theorem exec_effects [DecidableEq A] {as : List (AtomicAct T C X)}
    {o o' : Atomic T V C A} (h : exec (step spec) as o = some o') :
    exec (seqStep spec) (effects spec as o) o.value = some o'.value := by
  have hstep : ∀ {ops : List (C × X × A)} {o₁ o₂ : Atomic T V C A}
      {act : AtomicAct T C X},
      exec (seqStep spec) ops o.value = some o₁.value →
      step spec act o₁ = some o₂ →
      exec (seqStep spec) (ops ++ effectOf spec o₁ act) o.value
        = some o₂.value :=
    fun hops hs => exec_append hops (exec_effectOf hs)
  exact exec_collect (fun ops o₁ => exec (seqStep spec) ops o.value
    = some o₁.value) hstep (l := []) rfl h

end Atomic

end EdgeIpc.Lib
