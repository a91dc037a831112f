/-
The cached factors after an exception.

`step` factors again only for a gate byte that is not `gate_factored_`,
and `gate_factored_` is set when `lu_factor` has returned. If it throws,
`LU_` and `piv_` hold the columns it has come to of the new matrix, still
under the gate byte of the old one.

# What a throw leaves

`lu_factor` puts a pivot of at least 1e-15 on the diagonal in each column
it finishes (`luFactor_diag`). It throws at a column where the search has
found none, and the search has looked at the diagonal entry first, so that
this entry is smaller (`luFactor_thrown_diag`). What a throw leaves is
therefore not what `lu_factor` returns, for any matrix: the cache is
consistent along a run exactly if the matrix of every gate byte that is
not `gate_factored_` when it comes factors (`cache_consistent_iff`).

# What comes after it

The state of the simulation is written only when the factors are there. A
later call with another gate byte than `gate_factored_` builds its matrix
anew and finds nothing of the throw (`step_same`). A call with that byte
believes the cache (`stale_factors_used`).
-/
import EdgeIpc.Vsc.Proofs.Trapezoidal

namespace EdgeIpc.Vsc

open Lib

-- ==================================================== what a throw leaves

section Factors

variable {n : Nat} {K : Type} [Field K] [LinearOrder K]

/-- The search goes to larger sizes, and passes over no larger entry. -/
theorem le_betterPivot (A : Mat n K) (k : Fin n) (found : Fin n × K)
    (i : Fin n) :
    found.2 ≤ (betterPivot A k found i).2
      ∧ absV (A i k) ≤ (betterPivot A k found i).2 := by
  unfold betterPivot
  dsimp only
  split
  next hlt => exact ⟨hlt.le, le_rfl⟩
  next hge => exact ⟨le_rfl, not_lt.mp hge⟩

theorem absV_diag_le_findPivot (A : Mat n K) (k : Fin n) :
    absV (A k k) ≤ (findPivot A k).2 := by
  obtain ⟨rest, hl, -⟩ := candidates_eq_cons k
  unfold findPivot
  rw [hl, List.foldl_cons]
  refine List.foldlRecOn
    (motive := fun found : Fin n × K => absV (A k k) ≤ found.2)
    rest _ (le_betterPivot A k _ k).2 ?_
  intro found hfound i _
  exact hfound.trans (le_betterPivot A k found i).1

/-- The column a factorisation has given up at. -/
theorem luFactor_thrown_diag {s₀ : LuState n K}
    {e : String × LuState n K} (h : luFactor s₀ = .error e) :
    ∃ k, absV (e.2.A k k) < pivotTol := by
  refine foldlM_throws
    (P := fun e : String × LuState n K => ∃ k, absV (e.2.A k k) < pivotTol)
    (fun s k e hk => ?_) h
  unfold factorColumn at hk
  dsimp only at hk
  split at hk
  next hbest =>
    injection hk with hk
    subst hk
    exact ⟨k, (absV_diag_le_findPivot s.A k).trans_lt hbest⟩
  next => cases hk

end Factors

-- ============================================================= the network

variable {K : Type} [Field K] [LinearOrder K] {p : SolverParams K}
  {net net' : VscNetwork K} {gate : BitVec 8}

/-- Factoring that throws was for another gate byte, and keeps the byte
the cache goes by. -/
theorem refactor_throws {e : String × VscNetwork K}
    (h : net.refactor gate = .error e) :
    e.2.p = net.p ∧ e.2.gateFactored = net.gateFactored
      ∧ ∃ k, absV (e.2.LU k k) < pivotTol := by
  unfold VscNetwork.refactor at h
  split at h
  next =>
    unfold VscNetwork.assembleAndFactor at h
    dsimp only at h
    split at h
    next => cases h
    next what s hs =>
      injection h with h
      subst h
      exact ⟨rfl, rfl, luFactor_thrown_diag hs⟩
  next => cases h

/-- Factored again or found in the cache. -/
theorem netInv_refactor (hnet : NetInv p net)
    (h : net.refactor gate = .ok net') : NetInv p net' := by
  unfold VscNetwork.refactor at h
  split at h
  next => exact netInv_assembleAndFactor hnet.params h
  next =>
    injection h with h
    exact h ▸ hnet

/-- Factoring for one gate byte comes out the same whatever the arrays
have held before, but for what a throw leaves in them. -/
theorem assembleAndFactor_same (hp : net'.p = net.p) :
    (net'.assembleAndFactor gate).mapError Prod.fst
      = (net.assembleAndFactor gate).mapError Prod.fst := by
  unfold VscNetwork.assembleAndFactor
  dsimp only
  rw [hp]
  cases hs : luFactor ⟨assemble net.p gate, net.piv⟩ with
  | ok s =>
      rw [luFactor_pivot hs net'.piv]
  | error e =>
      cases hs' : luFactor ⟨assemble net.p gate, net'.piv⟩ with
      | ok s =>
          rw [luFactor_pivot hs' net.piv] at hs
          cases hs
      | error e' =>
          obtain ⟨what, s⟩ := e
          obtain ⟨what', s'⟩ := e'
          show Except.error what' = Except.error what
          rw [luFactor_throws hs, luFactor_throws hs']

/-- A step on a gate byte that is in neither cache. -/
theorem step_same (hp : net'.p = net.p)
    (hgate : net'.gateFactored = net.gateFactored)
    (hne : gate ≠ net.gateFactored) (vSrc : Fin 3 → K → K) (s : State K) :
    (VscNetwork.step vSrc net' s gate).mapError Prod.fst
      = (VscNetwork.step vSrc net s gate).mapError Prod.fst := by
  have hsame : (net'.assembleAndFactor gate).mapError Prod.fst
      = (net.assembleAndFactor gate).mapError Prod.fst :=
    assembleAndFactor_same hp
  unfold VscNetwork.step VscNetwork.refactor
  rw [hgate, if_pos hne, if_pos hne]
  cases hr : net.assembleAndFactor gate with
  | error e =>
      cases hr' : net'.assembleAndFactor gate with
      | error e' =>
          rw [hr, hr'] at hsame
          injection hsame with hsame
          show Except.error e'.1 = Except.error e.1
          rw [hsame]
      | ok net₁ =>
          rw [hr, hr'] at hsame
          cases hsame
  | ok net₁ =>
      cases hr' : net'.assembleAndFactor gate with
      | error e' =>
          rw [hr, hr'] at hsame
          cases hsame
      | ok net₂ =>
          rw [hr, hr'] at hsame
          injection hsame with hsame
          rw [hsame]

-- ============================================================ the attempts

/-- The factors for the gate byte are in the cache or can be made: what
`step` needs. -/
def Factorable (p : SolverParams K) (net : VscNetwork K) (gate : BitVec 8) :
    Prop :=
  gate ≠ net.gateFactored → FactorsAt p gate

variable {vSrc : Fin 3 → K → K} {x x' : VscNetwork K × State K}

/-- What factoring that does not throw says of the matrix. -/
theorem assembleAndFactor_spec
    (h : net.assembleAndFactor gate = .ok net') :
    net'.p = net.p ∧ FactorsAt net.p gate := by
  unfold VscNetwork.assembleAndFactor at h
  dsimp only at h
  split at h
  next s hs =>
    injection h with h
    subst h
    exact ⟨rfl, s, luFactor_pivot hs id⟩
  next => cases h

/-- Factoring throws exactly when it is needed and the matrix does not
factor. -/
theorem refactor_ok_iff (hp : net.p = p) :
    (∃ net', net.refactor gate = .ok net') ↔ Factorable p net gate := by
  unfold VscNetwork.refactor Factorable
  constructor
  · rintro ⟨net', h⟩ hne
    rw [if_pos hne] at h
    rw [← hp]
    exact (assembleAndFactor_spec h).2
  · intro hfact
    by_cases hne : gate ≠ net.gateFactored
    · rw [if_pos hne]
      obtain ⟨net', h, -⟩ := assembleAndFactor_ok (hfact hne) hp
      exact ⟨net', h⟩
    · rw [if_neg hne]
      exact ⟨net, rfl⟩

theorem refactor_params (h : net.refactor gate = .ok net') :
    net'.p = net.p := by
  unfold VscNetwork.refactor at h
  split at h
  next => exact (assembleAndFactor_spec h).1
  next =>
    injection h with h
    rw [h]

/-- What one attempt does: it goes on with the factors, or it throws in
factoring and leaves the state. -/
theorem attempt_cases (hp : x.1.p = p)
    (h : VscNetwork.attempt vSrc gate x = some x') :
    (Factorable p x.1 gate ∧ x.1.refactor gate = .ok x'.1)
      ∨ (¬ Factorable p x.1 gate ∧ x'.2 = x.2
        ∧ ∃ what, x.1.refactor gate = .error (what, x'.1)) := by
  unfold VscNetwork.attempt VscNetwork.step at h
  rw [← refactor_ok_iff hp]
  cases hr : x.1.refactor gate with
  | ok net₁ =>
      rw [hr] at h
      injection h with h
      subst h
      exact .inl ⟨⟨net₁, rfl⟩, rfl⟩
  | error e =>
      rw [hr] at h
      injection h with h
      subst h
      refine .inr ⟨?_, rfl, e.1, rfl⟩
      rintro ⟨net', hok⟩
      cases hok

theorem netInv_attempt (hnet : NetInv p x.1)
    (h : VscNetwork.attempt vSrc gate x = some x')
    (hfact : Factorable p x.1 gate) : NetInv p x'.1 := by
  rcases attempt_cases hnet.params h with ⟨-, hr⟩ | ⟨hno, -⟩
  · exact netInv_refactor hnet hr
  · exact absurd hfact hno

/-- Thrown or not, the parameters stay. -/
theorem attempt_params (hp : x.1.p = p)
    (h : VscNetwork.attempt vSrc gate x = some x') : x'.1.p = p := by
  rcases attempt_cases hp h with ⟨-, hr⟩ | ⟨-, -, what, hr⟩
  · exact (refactor_params hr).trans hp
  · exact (refactor_throws hr).1.trans hp

variable [IsStrictOrderedRing K]

/-- What a throw leaves is no factorisation. -/
theorem not_netInv_of_throws {e : String × VscNetwork K}
    (h : net.refactor gate = .error e) : ¬ NetInv p e.2 := by
  intro hnet
  obtain ⟨-, -, k, hk⟩ := refactor_throws h
  exact absurd (luFactor_diag hnet.factored k) (not_le.mpr hk)

/-- A call whose matrix does not factor leaves the state, spoils the
cache, and changes nothing for a later call with another gate byte than
the cache's. -/
theorem attempt_throws (hp : x.1.p = p)
    (h : VscNetwork.attempt vSrc gate x = some x')
    (hno : ¬ Factorable p x.1 gate) :
    x'.2 = x.2 ∧ ¬ NetInv p x'.1
      ∧ ∀ (s : State K) (later : BitVec 8), later ≠ x.1.gateFactored →
        (VscNetwork.step vSrc x'.1 s later).mapError Prod.fst
          = (VscNetwork.step vSrc x.1 s later).mapError Prod.fst := by
  rcases attempt_cases hp h with ⟨hfact, -⟩ | ⟨-, hs, what, hr⟩
  · exact absurd hfact hno
  · obtain ⟨hparams, hgate, -⟩ := refactor_throws hr
    exact ⟨hs, not_netInv_of_throws hr,
      fun s later hne => step_same hparams hgate hne vSrc s⟩

-- ============================================================= the theorem

/-- Is the cached factorisation always that of `gate_factored_`, also
after errors? For every parameter set the constructor accepts, all sources
and every sequence of calls from any state, going on after each exception:
`LU_` and `piv_` are what `lu_factor` makes of the matrix for
`gate_factored_` at every point exactly if the matrix of every gate byte
factors that is not `gate_factored_` when the call is made. A call whose
matrix does not factor leaves the state as it was, and the outcome of a
later call, from any state, is what it would have been if its gate byte is
not `gate_factored_`. -/
theorem cache_consistent_iff {net₀ : VscNetwork K}
    (hnet₀ : VscNetwork.construct p = .ok net₀) (vSrc : Fin 3 → K → K)
    (s₀ : State K) (gates : List (BitVec 8)) :
    (AllStates (VscNetwork.attempt vSrc) (fun x => NetInv p x.1) gates
        (net₀, s₀)
      ↔ AllSteps (VscNetwork.attempt vSrc)
        (fun x gate _ => gate ≠ x.1.gateFactored → FactorsAt p gate) gates
        (net₀, s₀))
    ∧ AllSteps (VscNetwork.attempt vSrc)
      (fun x gate x' => gate ≠ x.1.gateFactored → ¬ FactorsAt p gate →
        x'.2 = x.2 ∧ ∀ (s : State K) (later : BitVec 8),
          later ≠ x.1.gateFactored →
          (VscNetwork.step vSrc x'.1 s later).mapError Prod.fst
            = (VscNetwork.step vSrc x.1 s later).mapError Prod.fst)
      gates (net₀, s₀) := by
  have hinit := netInv_of_construct hnet₀
  refine ⟨⟨fun hall => ?_, fun hall => ?_⟩, ?_⟩
  · refine AllSteps.mono (fun x => x.1.p = p)
      (fun hp h hends => ⟨?_, attempt_params hp h⟩) hinit.params hall.ends
    by_contra hno
    exact (attempt_throws hp h hno).2.1 hends.2
  · have hkeep : ∀ {x x' : VscNetwork K × State K} {gate : BitVec 8},
        NetInv p x.1 → VscNetwork.attempt vSrc gate x = some x' →
        (gate ≠ x.1.gateFactored → FactorsAt p gate) → NetInv p x'.1 :=
      netInv_attempt
    exact allStates_of_allSteps hkeep id hinit hall
  · refine allSteps_of_invariant (fun x => x.1.p = p)
      (fun hp h => ⟨fun hne hno => ?_, attempt_params hp h⟩) hinit.params
    obtain ⟨hs, -, hlater⟩ :=
      attempt_throws hp h fun hfact => hno (hfact hne)
    exact ⟨hs, hlater⟩

/-- The default network factors for every gate byte: its cache is
consistent over a switching of all three legs and back. -/
theorem cache_consistent_default :
    ∃ net₀, VscNetwork.construct (SolverParams.default : SolverParams ℚ)
        = .ok net₀
      ∧ AllStates (VscNetwork.attempt fun _ _ => 325)
        (fun x => NetInv SolverParams.default x.1) [0x15#8, 0x2A#8, 0x15#8]
        (net₀, State.zero) := by
  obtain ⟨net₀, hnet₀, hinv₀⟩ := construct_ok (factors_default _)
  refine ⟨net₀, hnet₀,
    (cache_consistent_iff hnet₀ (fun _ _ => 325) State.zero _).1.mpr ?_⟩
  exact allSteps_of_invariant (fun _ => True)
    (fun _ _ => ⟨fun _ => factors_default _, trivial⟩) trivial

/-- A filter so heavy that the inverter terminals hang on their switches
alone, and switches that conduct less when they are closed. -/
def fragile : SolverParams ℚ where
  dt := 1
  Lf := 1e16
  Rf := 0
  Cf := 0.5
  Lgrid := 0.5
  Rgrid := 0
  Vdc := 1
  Gon := 1e-16
  Goff := 0.5
  Vrated := 400
  Rsrc := 1

/-- The first leg is closed, which throws, and opened again. The last
call finds its gate byte in the cache, solves with the half-written array
and reports a fault; without the throw it would not have. -/
theorem stale_factors_used :
    ∃ net₀ net₁ good bad, VscNetwork.construct fragile = .ok net₀
      ∧ VscNetwork.step (fun _ _ => 0) net₀ State.zero 0x03#8
        = .error ("LuSolver: singular matrix", net₁)
      ∧ net₁.gateFactored = 0x00#8 ∧ ¬ NetInv fragile net₁
      ∧ VscNetwork.step (fun _ _ => 0) net₀ State.zero 0x00#8 = .ok good
      ∧ good.2.fault = false
      ∧ VscNetwork.step (fun _ _ => 0) net₁ State.zero 0x00#8 = .ok bad
      ∧ bad.2.fault = true := by
  have hrun : (VscNetwork.construct fragile).toOption.map (fun net₀ =>
      ((VscNetwork.step (fun _ _ => 0) net₀ State.zero 0x00#8).toOption.map
          fun x => x.2.fault,
        match VscNetwork.step (fun _ _ => 0) net₀ State.zero 0x03#8 with
        | .ok _ => none
        | .error e => some (e.1, e.2.gateFactored,
            (VscNetwork.step (fun _ _ => 0) e.2 State.zero 0x00#8).toOption.map
              fun x => x.2.fault)))
      = some (some false,
        some ("LuSolver: singular matrix", 0x00#8, some true)) := by
    decide +kernel
  obtain ⟨net₀, hnet₀, hcalls⟩ := exists_ok_of_map hrun
  obtain ⟨hgood, hthrown⟩ := Prod.mk.inj hcalls
  obtain ⟨good, hgood, hnofault⟩ := exists_ok_of_map hgood
  split at hthrown
  next => cases hthrown
  next e he =>
    injection hthrown with hthrown
    obtain ⟨hwhat, hthrown⟩ := Prod.mk.inj hthrown
    obtain ⟨hgate, hbad⟩ := Prod.mk.inj hthrown
    obtain ⟨bad, hbad, hfault⟩ := exists_ok_of_map hbad
    obtain ⟨what, net₁⟩ := e
    obtain rfl : what = _ := hwhat
    have hspoilt : ¬ NetInv fragile net₁ := by
      unfold VscNetwork.step at he
      split at he
      next e' hr =>
        injection he with he
        rw [he] at hr
        exact not_netInv_of_throws hr
      next => cases he
    exact ⟨net₀, net₁, good, bad, hnet₀, he, hgate, hspoilt, hgood, hnofault,
      hbad, hfault⟩

end EdgeIpc.Vsc
