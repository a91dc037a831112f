/-
Atomic locations under relaxed accesses, for stores that are ordered
anyway: at any time one thread stores to a location, and it hands over by
synchronising.

# The memory

A location is the list of the values stored to it, in its modification
order. A thread has a position in each: it has seen the values up to
there. A load may return any value from the thread's position on, however
old, and moves the thread there, so no thread reads a location backwards.
Between locations nothing is ordered. `sync t u` is an edge of happens
before (a thread's creation, a join): `u` has seen what `t` has.

How far back a load reaches is the environment's choice.
-/
import Mathlib.Data.List.Basic
import Mathlib.Logic.Function.Basic

namespace EdgeIpc.Lib

/-- What was stored to each location, and what each thread has seen. -/
structure Memory (T : Type) {ι : Type} (V : ι → Type) where
  hist : (i : ι) → List (V i)
  view : T → ι → Nat

namespace Memory

variable {T ι : Type} {V : ι → Type} [DecidableEq T] [DecidableEq ι]

-- ========================================================== the operations

/-- Every location holds one value, seen by all. -/
def start (zero : (i : ι) → V i) : Memory T V :=
  ⟨fun i => [zero i], fun _ _ => 0⟩

/-- The position of a location's newest value. -/
def newest (m : Memory T V) (i : ι) : Nat := (m.hist i).length - 1

/-- Thread `t` moves to a position of a location. -/
def see (m : Memory T V) (t : T) (i : ι) (k : Nat) : Memory T V :=
  { m with view := fun u j => if u = t ∧ j = i then k else m.view u j }

/-- A store, at the end of the modification order. -/
def store (m : Memory T V) (t : T) (i : ι) (v : V i) : Memory T V :=
  { m with hist := Function.update m.hist i (m.hist i ++ [v]) }.see t i
    (m.hist i).length

/-- A load that reaches `back` values back. -/
def load (m : Memory T V) (t : T) (i : ι) (back : Nat) :
    Option (V i × Memory T V) :=
  if m.view t i ≤ m.newest i - back then
    (m.hist i)[m.newest i - back]?.map fun v =>
      (v, m.see t i (m.newest i - back))
  else none

/-- What `t` has seen, `u` has seen from now on. -/
def sync (m : Memory T V) (t u : T) : Memory T V :=
  { m with
    view := fun w i =>
      if w = u then max (m.view u i) (m.view t i) else m.view w i }

-- ================================================================ positions

variable {m m' : Memory T V} {t u : T} {i j : ι} {v : V i} {back : Nat}

/-- No thread is ahead of a location. -/
def Valid (m : Memory T V) : Prop := ∀ t i, m.view t i < (m.hist i).length

/-- The thread has seen all there is of a location. -/
def Caught (m : Memory T V) (t : T) (i : ι) : Prop :=
  m.view t i + 1 = (m.hist i).length

omit [DecidableEq T] [DecidableEq ι] in
theorem valid_start (zero : (i : ι) → V i) :
    (start zero : Memory T V).Valid :=
  fun _ _ => Nat.one_pos

@[simp] theorem hist_store_self (m : Memory T V) (t : T) (i : ι) (v : V i) :
    (m.store t i v).hist i = m.hist i ++ [v] :=
  Function.update_self _ _ _

/-- A store is the newest there is. -/
theorem getLast_store (m : Memory T V) (t : T) (i : ι) (v : V i) :
    ((m.store t i v).hist i).getLast? = some v := by
  rw [hist_store_self]
  exact List.getLast?_concat

theorem hist_store_ne (m : Memory T V) (t : T) (v : V i) (h : j ≠ i) :
    (m.store t i v).hist j = m.hist j :=
  Function.update_of_ne h _ _

omit [DecidableEq ι] in
@[simp] theorem hist_sync (m : Memory T V) (t u : T) :
    (m.sync t u).hist = m.hist := rfl

@[simp] theorem view_store_self (m : Memory T V) (t : T) (i : ι) (v : V i) :
    (m.store t i v).view t i = (m.hist i).length :=
  if_pos ⟨rfl, rfl⟩

theorem view_store_ne (m : Memory T V) (v : V i) (h : ¬ (u = t ∧ j = i)) :
    (m.store t i v).view u j = m.view u j :=
  if_neg h

omit [DecidableEq ι] in
theorem view_sync_self (m : Memory T V) (t u : T) (i : ι) :
    (m.sync t u).view u i = max (m.view u i) (m.view t i) :=
  if_pos rfl

omit [DecidableEq ι] in
theorem view_sync_ne {w : T} (m : Memory T V) (t : T) (i : ι) (h : w ≠ u) :
    (m.sync t u).view w i = m.view w i :=
  if_neg h

omit [DecidableEq ι] in
theorem view_sync_le (m : Memory T V) (t u w : T) (i : ι) :
    m.view w i ≤ (m.sync t u).view w i := by
  by_cases h : w = u
  · subst h
    rw [view_sync_self]
    exact Nat.le_max_left _ _
  · exact Nat.le_of_eq (view_sync_ne m t i h).symm

/-- A load, taken apart. -/
theorem load_some (h : m.load t i back = some (v, m')) :
    m.view t i ≤ m.newest i - back
      ∧ (m.hist i)[m.newest i - back]? = some v
      ∧ m' = m.see t i (m.newest i - back) := by
  unfold load at h
  split at h
  next hle =>
    obtain ⟨w, hw, heq⟩ := Option.map_eq_some_iff.mp h
    injection heq with hv hm
    exact ⟨hle, hv ▸ hw, hm.symm⟩
  next => cases h

/-- The newest value can always be loaded. -/
theorem exists_load (hv : m.Valid) (t : T) (i : ι) :
    ∃ v m', m.load t i 0 = some (v, m') := by
  have hlt := hv t i
  have hle : m.view t i ≤ m.newest i - 0 := by
    unfold newest
    omega
  have hget : m.newest i - 0 < (m.hist i).length := by
    unfold newest
    omega
  refine ⟨(m.hist i)[m.newest i - 0], m.see t i (m.newest i - 0), ?_⟩
  rw [load, if_pos hle, List.getElem?_eq_getElem hget]
  rfl

theorem hist_load (h : m.load t i back = some (v, m')) :
    m'.hist = m.hist := by
  obtain ⟨-, -, rfl⟩ := load_some h
  rfl

/-- A load moves its thread in its location, never backwards, and no
other. -/
theorem view_load_le (h : m.load t i back = some (v, m')) (u : T) (j : ι) :
    m.view u j ≤ m'.view u j := by
  obtain ⟨hle, -, rfl⟩ := load_some h
  simp only [see]
  split
  next hp =>
    obtain ⟨rfl, rfl⟩ := hp
    exact hle
  next => exact Nat.le_refl _

-- =========================================================== well-formedness

theorem Valid.store (hv : m.Valid) (t : T) (i : ι) (v : V i) :
    (m.store t i v).Valid := by
  intro u j
  have huj := hv u j
  by_cases hj : j = i
  · subst hj
    rw [hist_store_self, List.length_append, List.length_singleton]
    by_cases hu : u = t
    · subst hu
      rw [view_store_self]
      omega
    · rw [view_store_ne m v (fun h => hu h.1)]
      omega
  · rw [hist_store_ne m t v hj, view_store_ne m v (fun h => hj h.2)]
    exact huj

theorem Valid.load (hv : m.Valid) (h : m.load t i back = some (v, m')) :
    m'.Valid := by
  obtain ⟨-, hget, rfl⟩ := load_some h
  obtain ⟨hlt, -⟩ := List.getElem?_eq_some_iff.mp hget
  intro u j
  simp only [see]
  split
  next hp =>
    obtain ⟨rfl, rfl⟩ := hp
    exact hlt
  next => exact hv u j

omit [DecidableEq ι] in
theorem Valid.sync (hv : m.Valid) (t u : T) : (m.sync t u).Valid := by
  intro w i
  have hu := hv u i
  have ht := hv t i
  by_cases hw : w = u
  · subst hw
    rw [view_sync_self, hist_sync]
    omega
  · rw [view_sync_ne m t i hw]
    exact hv w i

-- ============================================================ being up to date

theorem Caught.store_self (m : Memory T V) (t : T) (i : ι) (v : V i) :
    (m.store t i v).Caught t i := by
  rw [Caught, view_store_self, hist_store_self, List.length_append]
  rfl

theorem Caught.store_ne (hc : m.Caught u j) (t : T) (v : V i) (h : j ≠ i) :
    (m.store t i v).Caught u j := by
  rw [Caught, view_store_ne m v (fun hp => h hp.2), hist_store_ne m t v h]
  exact hc

/-- A load by anybody leaves those up to date up to date. -/
theorem Caught.load (hv : m.Valid) (hc : m.Caught u j)
    (h : m.load t i back = some (v, m')) : m'.Caught u j := by
  have hle := view_load_le h u j
  have hlt := hv.load h u j
  rw [hist_load h] at hlt
  rw [Caught, hist_load h]
  rw [Caught] at hc
  omega

omit [DecidableEq ι] in
/-- Who synchronises with a thread that is up to date, is. -/
theorem Caught.sync (hv : m.Valid) (hc : m.Caught t i) (u : T) :
    (m.sync t u).Caught u i := by
  have hu := hv u i
  rw [Caught] at hc
  rw [Caught, view_sync_self, hist_sync]
  omega

omit [DecidableEq ι] in
theorem Caught.sync_of (hv : m.Valid) (hc : m.Caught u i) (t w : T) :
    (m.sync t w).Caught u i := by
  by_cases hw : u = w
  · subst hw
    have ht := hv t i
    rw [Caught] at hc
    rw [Caught, view_sync_self, hist_sync]
    omega
  · rw [Caught, view_sync_ne m t i hw, hist_sync]
    exact hc

/-- A thread that is up to date can only load the newest value. -/
theorem load_caught (hv : m.Valid) (hc : m.Caught t i)
    (h : m.load t i back = some (v, m')) :
    (m.hist i).getLast? = some v := by
  obtain ⟨hle, hget, -⟩ := load_some h
  have hlt := hv t i
  rw [Caught] at hc
  have hk : m.newest i - back = (m.hist i).length - 1 := by
    unfold newest at hle ⊢
    omega
  rw [List.getLast?_eq_getElem?, ← hk]
  exact hget

end Memory

end EdgeIpc.Lib
