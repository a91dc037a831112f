/-
What `settle_time_steps` finds: the first settled step, but for the last
one there can be.

Within the record nothing raises, so the search is a first match over the
steps of its `range` (`settleTimeSteps_eq`). The steps a window of
`consecutive` samples can begin at are those up to and with
`n - consecutive`; `range(n - consecutive)` ends one short of it.
-/
import EdgeIpc.Vsc.Analysis
import Mathlib.Order.Bounds.Basic

namespace EdgeIpc.Vsc.Analysis

variable {K : Type} [Field K] [LinearOrder K] {signal reference : List K}
  {tol : K} {c : Nat}

-- ================================================================= one step

/-- Sample `i` of the signal is within `tol` of the reference. -/
def Within (signal reference : List K) (tol : K) (i : Nat) : Prop :=
  |signal.getD i 0 - reference.getD i 0| < tol

instance (i : Nat) : Decidable (Within signal reference tol i) :=
  inferInstanceAs (Decidable (_ < _))

/-- A window of `c` samples from step `i` on lies in the record, and all of
it is within `tol` of the reference. -/
def Settled (signal reference : List K) (tol : K) (c i : Nat) : Prop :=
  i + c ≤ signal.length ∧ ∀ j < c, Within signal reference tol (i + j)

instance (i : Nat) : Decidable (Settled signal reference tol c i) :=
  inferInstanceAs (Decidable (_ ∧ _))

omit [LinearOrder K] in
theorem item_of_lt {xs : List K} {i : Nat} (h : i < xs.length) :
    item xs i = .ok (xs.getD i 0) := by
  unfold item
  rw [List.getD_eq_getElem?_getD, List.getElem?_eq_getElem h]
  rfl

theorem allWithin_eq (hlen : reference.length = signal.length) {i : Nat}
    {js : List Nat} (h : ∀ j ∈ js, i + j < signal.length) :
    allWithin signal reference tol i js
      = .ok (decide (∀ j ∈ js, Within signal reference tol (i + j))) := by
  induction js with
  | nil => simp [allWithin]
  | cons j js ih =>
      obtain ⟨hj, hjs⟩ := List.forall_mem_cons.mp h
      simp only [allWithin, item_of_lt hj, item_of_lt (hlen ▸ hj)]
      change (if Within signal reference tol (i + j) then _ else _) = _
      by_cases hin : Within signal reference tol (i + j)
      · rw [if_pos hin, ih hjs]
        simp [hin]
      · rw [if_neg hin]
        simp [hin]

theorem allWithin_range (hlen : reference.length = signal.length) {i : Nat}
    (h : i + c ≤ signal.length) :
    allWithin signal reference tol i (List.range c)
      = .ok (decide (Settled signal reference tol c i)) := by
  rw [allWithin_eq hlen fun j hj => by
    have := List.mem_range.mp hj
    omega]
  simp [Settled, h]

-- =============================================================== the search

theorem searchSettled_eq (hlen : reference.length = signal.length)
    {is : List Nat} (h : ∀ i ∈ is, i + c ≤ signal.length) :
    searchSettled signal reference tol c is
      = .ok (is.find? fun i => decide (Settled signal reference tol c i)) := by
  induction is with
  | nil => rfl
  | cons i is ih =>
      obtain ⟨hi, his⟩ := List.forall_mem_cons.mp h
      simp only [searchSettled, Int.toNat_natCast, allWithin_range hlen hi,
        List.find?_cons]
      cases decide (Settled signal reference tol c i) with
      | true => rfl
      | false => exact ih his

/-- A reference that is not empty has a largest magnitude. -/
theorem exists_greatest (hne : reference ≠ []) :
    ∃ m, IsGreatest {a | ∃ r ∈ reference, |r| = a} m := by
  cases hmax : (reference.map abs).max? with
  | none =>
      have hnil := List.max?_eq_none_iff.mp hmax
      exact absurd (List.map_eq_nil_iff.mp hnil) hne
  | some m =>
      obtain ⟨hmem, hle⟩ := List.max?_eq_some_iff.mp hmax
      exact ⟨m, List.mem_map.mp hmem, fun a ha => hle a (List.mem_map.mpr ha)⟩

/-- The tolerance, from the largest magnitude in the reference. -/
theorem refMax_eq {m : K} (hm : IsGreatest {a | ∃ r ∈ reference, |r| = a} m) :
    refMax reference = .ok (if m = 0 then 1 else m) := by
  have hmax : (reference.map abs).max? = some m := by
    refine List.max?_eq_some_iff.mpr ⟨List.mem_map.mpr hm.1, fun a ha => ?_⟩
    exact hm.2 (List.mem_map.mp ha)
  unfold refMax
  cases hlist : reference.map abs with
  | nil =>
      rw [hlist] at hmax
      cases hmax
  | cons r rs =>
      rw [hlist, List.max?_cons', Option.some.injEq] at hmax
      dsimp only
      rw [hmax]

theorem settleTimeSteps_eq (hlen : reference.length = signal.length)
    {m : K} (hm : IsGreatest {a | ∃ r ∈ reference, |r| = a} m) (band : K)
    (c : Nat) :
    settleTimeSteps signal reference band c
      = .ok ((List.range (signal.length - c)).find? fun i => decide
        (Settled signal reference (band * if m = 0 then 1 else m) c i)) := by
  unfold settleTimeSteps
  rw [refMax_eq hm]
  have hrange : ((signal.length : Int) - c).toNat = signal.length - c := by
    omega
  dsimp only
  rw [hrange, searchSettled_eq hlen fun i hi => by
    have := List.mem_range.mp hi
    omega]

-- ============================================================== the theorem

/-- `answer` is the first settled step, or nothing if there is none. -/
def IsFirst (settled : Nat → Prop) (answer : Option Nat) : Prop :=
  (∀ i, answer = some i ↔ IsLeast {i | settled i} i)
    ∧ (answer = none ↔ ∀ i, ¬ settled i)

/-- A first match that stops before `last` misses it, and only it. -/
theorem isFirst_find_iff {settled : Nat → Prop} [DecidablePred settled]
    {last : Nat} (hbound : ∀ i, settled i → i ≤ last) :
    IsFirst settled ((List.range last).find? fun i => decide (settled i))
      ↔ ¬ IsLeast {i | settled i} last := by
  cases hfind : (List.range last).find? fun i => decide (settled i) with
  | none =>
      have hnone : ∀ i < last, ¬ settled i := by
        intro i hi
        simpa using List.find?_eq_none.mp hfind i (List.mem_range.mpr hi)
      constructor
      · intro hfirst hleast
        exact hfirst.2.mp rfl last hleast.1
      · intro hlast
        have hempty : ∀ i, ¬ settled i := by
          intro i hi
          obtain rfl : i = last := by
            refine le_antisymm (hbound i hi) (not_lt.mp fun hlt => ?_)
            exact hnone i hlt hi
          exact hlast ⟨hi, fun j hj => not_lt.mp fun hlt => hnone j hlt hj⟩
        refine ⟨fun i => ⟨nofun, fun hi => absurd hi.1 (hempty i)⟩, ?_⟩
        exact ⟨fun _ => hempty, fun _ => rfl⟩
  | some i =>
      obtain ⟨hi, hmem, hbefore⟩ := List.find?_range_eq_some.mp hfind
      have hleast : IsLeast {i | settled i} i := by
        refine ⟨of_decide_eq_true hi, fun j hj => not_lt.mp fun hlt => ?_⟩
        have hno := hbefore j hlt
        simp only [decide_eq_true (p := settled j) hj, Bool.not_true] at hno
        cases hno
      constructor
      · intro _ hlast
        have := List.mem_range.mp hmem
        exact this.ne (hleast.unique hlast)
      · intro _
        refine ⟨fun j => ⟨?_, fun hj => ?_⟩, nofun, fun hno => ?_⟩
        · intro heq
          injection heq with heq
          exact heq ▸ hleast
        · rw [hleast.unique hj]
        · exact absurd hleast.1 (hno i)

/-- Does `settle_time_steps` return the first settled step? For all
signals and references of one length that is not zero, every band and
every window, with the tolerance from the largest magnitude `m` in the
reference: it returns, and what it returns is the first settled step, or
nothing if there is none, exactly if the first settled step is not the
last one a window can begin at. -/
theorem settle_time_iff (hlen : reference.length = signal.length)
    (hne : signal ≠ []) (band : K) (c : Nat) :
    ∃ m, IsGreatest {a | ∃ r ∈ reference, |r| = a} m
      ∧ ∃ answer, settleTimeSteps signal reference band c = .ok answer
        ∧ (IsFirst (Settled signal reference
              (band * if m = 0 then 1 else m) c) answer
          ↔ ¬ IsLeast {i | Settled signal reference
              (band * if m = 0 then 1 else m) c i} (signal.length - c)) := by
  have hne' : reference ≠ [] := by
    rintro rfl
    exact hne (List.length_eq_zero_iff.mp hlen.symm)
  obtain ⟨m, hm⟩ := exists_greatest hne'
  refine ⟨m, hm, _, settleTimeSteps_eq hlen hm band c, isFirst_find_iff ?_⟩
  intro i hi
  have := hi.1
  omega

/-- A signal that comes into the band at its second sample and stays. -/
theorem settle_time_second :
    ∃ answer, settleTimeSteps [0, 1, 1, (1 : ℚ)] [1, 1, 1, 1] defaultBand 2
        = .ok answer
      ∧ IsFirst (Settled [0, 1, 1, (1 : ℚ)] [1, 1, 1, 1] (defaultBand * 1) 2)
        answer := by
  have hlen : [1, 1, 1, (1 : ℚ)].length = [0, 1, 1, (1 : ℚ)].length := rfl
  obtain ⟨m, hm, answer, hanswer, hiff⟩ := settle_time_iff hlen
    (List.cons_ne_nil _ _) defaultBand 2
  obtain ⟨r, hr, hrm⟩ := hm.1
  obtain rfl : r = 1 := by simpa using hr
  obtain rfl : 1 = m := by
    rw [← hrm]
    decide +kernel
  rw [if_neg one_ne_zero] at hiff
  refine ⟨answer, hanswer, hiff.mpr fun hleast => ?_⟩
  have hone : Settled [0, 1, 1, (1 : ℚ)] [1, 1, 1, 1] (defaultBand * 1)
      2 1 := by
    decide +kernel
  exact absurd (hleast.2 hone) (by decide)

/-- A signal equal to its reference for the whole of a record of ten
samples is settled from the start; the search at the defaults does not
look there. -/
theorem settled_throughout_missed :
    settleTimeSteps (List.replicate 10 (1 : ℚ)) (List.replicate 10 1)
        defaultBand defaultConsecutive = .ok none
      ∧ Settled (List.replicate 10 (1 : ℚ)) (List.replicate 10 1)
        (defaultBand * 1) 10 0 := by
  decide +kernel

end EdgeIpc.Vsc.Analysis
