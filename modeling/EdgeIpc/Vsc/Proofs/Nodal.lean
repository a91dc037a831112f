/-
The node equations of the assembled network: what the matrix times a
vector of node voltages is, row by row, and what the injection vector
is.

A stamp adds its branch's current to the equations of the branch's nodes
and changes no other (`current_stamp_ground`, `current_stamp_branch`), so
the loops of `assemble` add up, and each of the nine rows comes out as
the sum of the currents of the branches at that node
(`current_assemble`). The injections are collected the same way
(`injection_eq`).
-/
import EdgeIpc.Lib.Loop
import EdgeIpc.Vsc.Network
import Mathlib.Tactic.LinearCombination

namespace EdgeIpc.Vsc

open Lib

variable {K : Type} [Field K]

-- ================================================================== nodes

theorem inv_inj {k l : Fin 3} : inv k = inv l ↔ k = l := by
  simp [inv, Fin.ext_iff]

theorem cap_inj {k l : Fin 3} : cap k = cap l ↔ k = l := by
  simp [cap, Fin.ext_iff]

theorem grid_inj {k l : Fin 3} : grid k = grid l ↔ k = l := by
  simp [grid, Fin.ext_iff]

theorem inv_ne_cap (k l : Fin 3) : inv k ≠ cap l := by
  simp only [inv, cap, ne_eq, Fin.ext_iff]
  omega

theorem inv_ne_grid (k l : Fin 3) : inv k ≠ grid l := by
  simp only [inv, grid, ne_eq, Fin.ext_iff]
  omega

theorem cap_ne_grid (k l : Fin 3) : cap k ≠ grid l := by
  simp only [cap, grid, ne_eq, Fin.ext_iff]
  omega

/-- Every node is one of the three kinds. -/
theorem node_cases (i : Fin 9) :
    (∃ k, i = inv k) ∨ (∃ k, i = cap k) ∨ ∃ k, i = grid k := by
  by_cases h3 : i.val < 3
  · exact .inl ⟨⟨i, h3⟩, rfl⟩
  by_cases h6 : i.val < 6
  · refine .inr (.inl ⟨⟨i - 3, by omega⟩, ?_⟩)
    simp only [cap, Fin.ext_iff]
    omega
  · refine .inr (.inr ⟨⟨i - 6, by omega⟩, ?_⟩)
    simp only [grid, Fin.ext_iff]
    omega

-- ================================================================= stamps

/-- The current the network draws from node `i` at the voltages `x`. -/
def current (G : Mat 9 K) (x : Fin 9 → K) (i : Fin 9) : K :=
  ∑ j, G i j * x j

theorem current_addAt (G : Mat 9 K) (a b : Fin 9) (y : K)
    (x : Fin 9 → K) (i : Fin 9) :
    current (addAt G a b y) x i
      = current G x i + if i = a then y * x b else 0 := by
  unfold current addAt
  by_cases hi : i = a
  · subst hi
    have hterm : ∀ j, (if i = i ∧ j = b then G i j + y else G i j) * x j
        = G i j * x j + if j = b then y * x b else 0 := by
      intro j
      by_cases hj : j = b
      · subst hj
        rw [if_pos ⟨rfl, rfl⟩, if_pos rfl]
        ring
      · rw [if_neg fun h => hj h.2, if_neg hj, add_zero]
    rw [Finset.sum_congr rfl fun j _ => hterm j, Finset.sum_add_distrib,
      Finset.sum_ite_eq', if_pos (Finset.mem_univ b), if_pos rfl]
  · simp only [hi, false_and, if_false, add_zero]

/-- A branch to ground: its current is drawn from its node. -/
theorem current_stamp_ground (G : Mat 9 K) (p : Fin 9) (g : K)
    (x : Fin 9 → K) (i : Fin 9) :
    current (stamp G p none g) x i
      = current G x i + if i = p then g * x p else 0 :=
  current_addAt G p p g x i

/-- A branch between two nodes: its current is drawn from the one and fed
to the other. -/
theorem current_stamp_branch (G : Mat 9 K) (p m : Fin 9) (g : K)
    (x : Fin 9 → K) (i : Fin 9) :
    current (stamp G p (some m) g) x i
      = current G x i + ((if i = p then g * (x p - x m) else 0)
        + if i = m then g * (x m - x p) else 0) := by
  simp only [stamp, current_addAt]
  split <;> split <;> ring

/-- A loop of stamps adds its branches' currents: to ground, -/
theorem current_ground_loop (node : Fin 3 → Fin 9) (g : Fin 3 → K)
    (G : Mat 9 K) (x : Fin 9 → K) (i : Fin 9) :
    current ((List.finRange 3).foldl
        (fun G k => stamp G (node k) none (g k)) G) x i
      = current G x i + ∑ k, if i = node k then g k * x (node k) else 0 :=
  foldl_accumulate (fun G => current G x i)
    (fun G k => current_stamp_ground G (node k) (g k) x i) G

/-- and between nodes. -/
theorem current_branch_loop (node node' : Fin 3 → Fin 9) (g : Fin 3 → K)
    (G : Mat 9 K) (x : Fin 9 → K) (i : Fin 9) :
    current ((List.finRange 3).foldl
        (fun G k => stamp G (node k) (some (node' k)) (g k)) G) x i
      = current G x i
        + ∑ k, ((if i = node k then g k * (x (node k) - x (node' k)) else 0)
          + if i = node' k then g k * (x (node' k) - x (node k)) else 0) :=
  foldl_accumulate (fun G => current G x i)
    (fun G k => current_stamp_branch G (node k) (node' k) (g k) x i) G

/-- What a phase `k` of the network draws from node `i`. -/
def phaseCurrent (gLf gCf gLgrid gVs gLeg : K) (x : Fin 9 → K) (i : Fin 9)
    (k : Fin 3) : K :=
  ((if i = inv k then gLf * (x (inv k) - x (cap k)) else 0)
      + if i = cap k then gLf * (x (cap k) - x (inv k)) else 0)
    + (if i = cap k then gCf * x (cap k) else 0)
    + ((if i = cap k then gLgrid * (x (cap k) - x (grid k)) else 0)
      + if i = grid k then gLgrid * (x (grid k) - x (cap k)) else 0)
    + (if i = grid k then gVs * x (grid k) else 0)
    + if i = inv k then gLeg * x (inv k) else 0

/-- The assembled matrix draws the phases' currents. -/
theorem current_assemble_sum (p : SolverParams K) (gate : BitVec 8)
    (x : Fin 9 → K) (i : Fin 9) :
    current (assemble p gate) x i
      = ∑ k, phaseCurrent (makeInductor p.Lf p.Rf p.dt).Geq
          (makeCapacitor p.Cf p.dt).GC
          (makeInductor p.Lgrid p.Rgrid p.dt).Geq (1 / p.Rsrc)
          (gT1 p gate k + gT2 p gate k) x i k := by
  have hzero : current (fun _ _ => 0 : Mat 9 K) x i = 0 := by simp [current]
  unfold assemble
  dsimp only
  rw [current_ground_loop, current_ground_loop, current_branch_loop,
    current_ground_loop, current_branch_loop, hzero, zero_add]
  simp only [phaseCurrent, Finset.sum_add_distrib]

/-- The rows of the assembled matrix: at an inverter terminal the filter
inductor and the two switches, at a capacitor the two inductors and the
capacitor, at a grid terminal the grid inductor and the source. -/
theorem current_assemble (p : SolverParams K) (gate : BitVec 8)
    (x : Fin 9 → K) (k : Fin 3) :
    let gLf := (makeInductor p.Lf p.Rf p.dt).Geq
    let gCf := (makeCapacitor p.Cf p.dt).GC
    let gLgrid := (makeInductor p.Lgrid p.Rgrid p.dt).Geq
    current (assemble p gate) x (inv k)
        = gLf * (x (inv k) - x (cap k))
          + (gT1 p gate k + gT2 p gate k) * x (inv k)
      ∧ current (assemble p gate) x (cap k)
        = gLf * (x (cap k) - x (inv k)) + gCf * x (cap k)
          + gLgrid * (x (cap k) - x (grid k))
      ∧ current (assemble p gate) x (grid k)
        = gLgrid * (x (grid k) - x (cap k)) + 1 / p.Rsrc * x (grid k) := by
  refine ⟨?_, ?_, ?_⟩ <;> rw [current_assemble_sum] <;>
    simp [phaseCurrent, Finset.sum_add_distrib, inv_inj, cap_inj, grid_inj,
      inv_ne_cap, inv_ne_grid, cap_ne_grid, (inv_ne_cap _ _).symm,
      (inv_ne_grid _ _).symm, (cap_ne_grid _ _).symm]

-- ============================================================= injections

theorem addTo_apply (I : Fin 9 → K) (a : Fin 9) (x : K) (i : Fin 9) :
    addTo I a x i = I i + if i = a then x else 0 := by
  unfold addTo
  split
  next => rfl
  next => rw [add_zero]

theorem injectPhase_eq (p : SolverParams K) (vSrc : Fin 3 → K → K)
    (gate : BitVec 8) (s : State K) (I : Fin 9 → K) (k : Fin 3) (i : Fin 9) :
    injectPhase p vSrc gate s I k i = I i
      + ((if i = inv k then -s.ILfHist k + gT1 p gate k * p.Vdc else 0)
        + (if i = cap k then
            s.ILfHist k - s.ICfHist k - s.ILgridHist k else 0)
        + if i = grid k then
            s.ILgridHist k + 1 / p.Rsrc * vSrc k s.t else 0) := by
  simp only [injectPhase, addTo_apply]
  split <;> split <;> split <;> ring

/-- The injection vector, node by node. -/
theorem injection_eq (p : SolverParams K) (vSrc : Fin 3 → K → K)
    (gate : BitVec 8) (s : State K) (k : Fin 3) :
    injection p vSrc gate s (inv k)
        = -s.ILfHist k + gT1 p gate k * p.Vdc
      ∧ injection p vSrc gate s (cap k)
        = s.ILfHist k - s.ICfHist k - s.ILgridHist k
      ∧ injection p vSrc gate s (grid k)
        = s.ILgridHist k + 1 / p.Rsrc * vSrc k s.t := by
  have hall : ∀ i, injection p vSrc gate s i = 0 + ∑ k, _ := fun i =>
    foldl_accumulate (fun I : Fin 9 → K => I i)
      (fun I k => injectPhase_eq p vSrc gate s I k i) fun _ => 0
  refine ⟨?_, ?_, ?_⟩ <;>
    simp [hall, inv_inj, cap_inj, grid_inj, inv_ne_cap, inv_ne_grid,
      cap_ne_grid, (inv_ne_cap _ _).symm, (inv_ne_grid _ _).symm,
      (cap_ne_grid _ _).symm]

end EdgeIpc.Vsc
