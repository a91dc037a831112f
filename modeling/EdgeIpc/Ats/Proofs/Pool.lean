/-
What the pool keeps and what it does not: exclusive lending and permit
conservation, each with the exact condition under which a run has it.

# The two laws and their conditions

The semaphore counts borrowers, the cursor picks the slot, and nothing
ties the two together. A slot comes round again after `poolSize`
executions of `acquire`'s body whether or not its last borrower is
back, so lending is exclusive along a run iff whenever the body runs,
every connection still out was lent fewer than `poolSize` executions ago
(`exclusive_iff`). Eight permits do not give that: one slow borrower and
seven quick loans in between are enough (`slowBorrower_shares_slot`).

The permit is taken before the body and given back only after `acquire`
returned, so a reconnect that throws takes a permit out of circulation.
It is the only step that does: along a run, permits and borrowers add up
to `poolSize` at every state iff no reconnect of the run fails
(`permits_conserved_iff`).

# The argument

A step keeps the sum of permits and borrowers and the set of loans, or
lends, or leaks (`step_cases`). Both equivalences are read off that
three-way split with the run lemmas of `Lib.Run`.
-/
import EdgeIpc.Ats.Pool
import EdgeIpc.Lib.Run
import EdgeIpc.Lib.Fifo

namespace EdgeIpc.Ats

open Lib

namespace DbPool

variable {n : Nat} {s s' : DbPool n}

/-- The connection thread `u` holds. -/
def loanOf (s : DbPool n) (u : Fin n) : Option Loan := (s.pc u).loan?

-- ======================================================= what a step does

/-- No loan is made, and what a permit gains a borrower loses. -/
structure KeepStep (s s' : DbPool n) : Prop where
  permits : s'.sem + s'.inFlight = s.sem + s.inFlight
  next : s'.next = s.next
  lent : s'.lent = s.lent
  loans : ∀ u l, s'.loanOf u = some l → s.loanOf u = some l

/-- `acquire`'s body, on the way to returning a connection to `t`. -/
structure LendStep (s : DbPool n) (t : Fin n) (s' : DbPool n) : Prop where
  permits : s'.sem + s'.inFlight = s.sem + s.inFlight
  next : s'.next = (s.next + 1) % poolSize
  lent : s'.lent = s.lent + 1
  before : s.loanOf t = none
  loan : s'.loanOf t = some ⟨s.next, s.lent⟩
  others : ∀ u, u ≠ t → s'.loanOf u = s.loanOf u

/-- `acquire`'s body, left by the exception of a failed reconnect. -/
structure LeakStep (s s' : DbPool n) (answer : Answer) : Prop where
  permits : s'.sem + s'.inFlight + 1 = s.sem + s.inFlight
  closed : s.isOpen s.next = false
  refused : answer ≠ .ok

/-- The borrowers after a thread moved, counted against those before. -/
theorem inFlight_goto (s : DbPool n) (t : Fin n) (p : InsertPc) :
    (s.goto t p).inFlight + (if (s.pc t).hasPermit then 1 else 0)
      = s.inFlight + (if p.hasPermit then 1 else 0) :=
  count_move _ _ _ _

theorem loanOf_goto_self (s : DbPool n) (t : Fin n) (p : InsertPc) :
    (s.goto t p).loanOf t = p.loan? := by
  show (move s.pc t p t).loan? = p.loan?
  rw [move_self]

theorem loanOf_goto_ne (s : DbPool n) {t u : Fin n} (p : InsertPc)
    (h : u ≠ t) : (s.goto t p).loanOf u = s.loanOf u := by
  show (move s.pc t p u).loan? = (s.pc u).loan?
  rw [move_ne _ _ h]

/-- A thread that moved to a control point with no loan, or with the one
it had, leaves no new loan behind. -/
theorem loans_goto {t : Fin n} {p : InsertPc}
    (hp : ∀ l, p.loan? = some l → s.loanOf t = some l) (u : Fin n) (l : Loan)
    (h : (s.goto t p).loanOf u = some l) : s.loanOf u = some l := by
  by_cases hu : u = t
  · subst hu
    rw [loanOf_goto_self] at h
    exact hp l h
  · rwa [loanOf_goto_ne _ _ hu] at h

/-- A move inside or outside of the permit keeps the sum. -/
theorem keepStep_goto {t : Fin n} {p : InsertPc}
    (hperm : p.hasPermit = (s.pc t).hasPermit)
    (hloan : ∀ l, p.loan? = some l → s.loanOf t = some l) :
    KeepStep s (s.goto t p) := by
  refine ⟨?_, rfl, rfl, loans_goto hloan⟩
  have hcount := inFlight_goto s t p
  rw [hperm] at hcount
  show s.sem + (s.goto t p).inFlight = s.sem + s.inFlight
  omega

/-- Either way a statement goes, its thread keeps permit and loan. -/
theorem statement_keeps {t : Fin n} {p : InsertPc} {l : Loan}
    (hl : s.loanOf t = some l) (hperm : (s.pc t).hasPermit = true)
    (hp : p.loan? = some l) (hp' : p.hasPermit = true) (answer : Answer) :
    KeepStep s (s.statement t l p answer) := by
  unfold statement
  apply keepStep_goto
  · rw [hperm]
    split
    next => exact hp'
    next => rfl
  · intro m hm
    split at hm
    next =>
      rw [hl, ← hp, hm]
    next =>
      rw [hl]
      exact hm

theorem commitWork_keeps {t : Fin n} {q : Insert} {l : Loan}
    (hpc : s.pc t = .commit q l) (answer : Answer) :
    KeepStep s (s.commitWork t q l answer) := by
  have hl : s.loanOf t = some l := by
    unfold loanOf
    rw [hpc]
    rfl
  have hperm : (s.pc t).hasPermit = true := by
    rw [hpc]
    rfl
  unfold commitWork
  split
  next => exact statement_keeps hl hperm rfl rfl answer
  next =>
    -- the row stored is no part of what the pool keeps
    obtain ⟨h₁, h₂, h₃, h₄⟩ := statement_keeps
      (s := { s with rows := s.rows ++ [q] }) (p := .release l .ok) hl hperm
      rfl rfl answer
    exact ⟨h₁, h₂, h₃, h₄⟩

/-- Taking a permit: one less to take, one more borrower. -/
theorem semAcquire_keeps {t : Fin n} {q : Insert}
    (hpc : s.pc t = .semAcquire q) (hsem : s.sem ≠ 0) :
    KeepStep s (({ s with sem := s.sem - 1 } : DbPool n).goto t (.locked q)) := by
  refine ⟨?_, rfl, rfl, loans_goto (s := { s with sem := s.sem - 1 }) nofun⟩
  have hcount := inFlight_goto s t (.locked q)
  simp only [hpc, InsertPc.hasPermit, InsertPc.loan?, Option.isSome_none,
    Bool.false_eq_true, if_false, if_true] at hcount
  show s.sem - 1 + (s.goto t (.locked q)).inFlight = s.sem + s.inFlight
  omega

/-- Giving it back. -/
theorem release_keeps {t : Fin n} {l : Loan} {r : CallResult}
    (hpc : s.pc t = .release l r) :
    KeepStep s
      (({ s with sem := s.sem + 1 } : DbPool n).goto t (.returned r)) := by
  refine ⟨?_, rfl, rfl, loans_goto (s := { s with sem := s.sem + 1 }) nofun⟩
  have hcount := inFlight_goto s t (.returned r)
  simp only [hpc, InsertPc.hasPermit, InsertPc.loan?, Option.isSome_none,
    Option.isSome_some, Bool.false_eq_true, if_false, if_true] at hcount
  show s.sem + 1 + (s.goto t (.returned r)).inFlight = s.sem + s.inFlight
  omega

/-- `ensure_open` changes nothing but the connection, -/
theorem ensureOpen_some {i : Nat} {answer : Answer}
    (h : s.isOpen i = true ∨ answer = .ok) :
    ∃ o, s.ensureOpen i answer = some { s with isOpen := o } := by
  unfold ensureOpen
  rcases h with hopen | rfl
  · exact ⟨s.isOpen, if_pos hopen⟩
  · by_cases hopen : s.isOpen i = true
    · exact ⟨s.isOpen, if_pos hopen⟩
    · exact ⟨_, by rw [if_neg hopen, if_pos rfl]⟩

/-- and throws on a closed one the database refuses to open again. -/
theorem ensureOpen_none {i : Nat} {answer : Answer}
    (hclosed : s.isOpen i = false) (hrefused : answer ≠ .ok) :
    s.ensureOpen i answer = none := by
  unfold ensureOpen
  rw [hclosed, if_neg (by decide), if_neg hrefused]

/-- `acquire`'s body lends the cursor's slot, when the connection there
is open or opens again. -/
theorem acquireBody_lends {t : Fin n} {q : Insert} {answer : Answer}
    (hpc : s.pc t = .locked q)
    (hopen : s.isOpen s.next = true ∨ answer = .ok) :
    LendStep s t (s.acquireBody t q answer) := by
  have hbefore : s.loanOf t = none := by
    unfold loanOf
    rw [hpc]
    rfl
  have hcount := inFlight_goto s t (.beginWork q ⟨s.next, s.lent⟩)
  rw [hpc] at hcount
  obtain ⟨o, ho⟩ := ensureOpen_some (i := s.next)
    (s := { s with next := (s.next + 1) % poolSize, lent := s.lent + 1 })
    hopen
  unfold acquireBody
  simp only [ho]
  refine ⟨?_, rfl, rfl, hbefore, loanOf_goto_self _ _ _, ?_⟩
  · exact congrArg (s.sem + ·) (Nat.add_right_cancel hcount)
  · intro u hu
    exact loanOf_goto_ne s _ hu

/-- Otherwise it leaks the permit. -/
theorem acquireBody_leaks {t : Fin n} {q : Insert} {answer : Answer}
    (hpc : s.pc t = .locked q) (hclosed : s.isOpen s.next = false)
    (hrefused : answer ≠ .ok) :
    LeakStep s (s.acquireBody t q answer) answer := by
  have hcount := inFlight_goto s t (.returned .thrown)
  rw [hpc] at hcount
  have ho := ensureOpen_none (i := s.next)
    (s := { s with next := (s.next + 1) % poolSize, lent := s.lent + 1 })
    hclosed hrefused
  unfold acquireBody
  simp only [ho]
  exact ⟨congrArg (s.sem + ·) hcount, hclosed, hrefused⟩

theorem acquireBody_cases {t : Fin n} {q : Insert}
    (hpc : s.pc t = .locked q) (answer : Answer) :
    LendStep s t (s.acquireBody t q answer)
      ∨ LeakStep s (s.acquireBody t q answer) answer := by
  by_cases hopen : s.isOpen s.next = true
  · exact .inl (acquireBody_lends hpc (.inl hopen))
  by_cases hok : answer = .ok
  · exact .inl (acquireBody_lends hpc (.inr hok))
  · exact .inr (acquireBody_leaks hpc (Bool.not_eq_true _ ▸ hopen) hok)

theorem threadStep_cases {t : Fin n} {answer : Answer}
    (h : s.threadStep t answer = some s') :
    KeepStep s s' ∨ ∃ q, s.pc t = .locked q
      ∧ (LendStep s t s' ∨ LeakStep s s' answer) := by
  unfold threadStep at h
  split at h
  next => cases h
  next => cases h
  next q hpc =>
    split at h
    next => cases h
    next hsem =>
      injection h with h
      exact .inl (h ▸ semAcquire_keeps hpc hsem)
  next q hpc =>
    injection h with h
    exact .inr ⟨q, hpc, h ▸ acquireBody_cases hpc answer⟩
  next q l hpc =>
    injection h with h
    refine .inl (h ▸ statement_keeps ?_ ?_ rfl rfl answer)
    · simp only [loanOf, hpc, InsertPc.loan?]
    · rw [hpc]
      rfl
  next q l hpc =>
    injection h with h
    refine .inl (h ▸ statement_keeps ?_ ?_ rfl rfl answer)
    · simp only [loanOf, hpc, InsertPc.loan?]
    · rw [hpc]
      rfl
  next q l hpc =>
    injection h with h
    exact .inl (h ▸ commitWork_keeps hpc answer)
  next l r hpc =>
    injection h with h
    exact .inl (h ▸ release_keeps hpc)

/-- A thread past the semaphore runs `acquire`'s body. -/
theorem eq_acquireBody {t : Fin n} {answer : Answer} {q : Insert}
    (h : step (.step t answer) s = some s') (hpc : s.pc t = .locked q) :
    s' = s.acquireBody t q answer := by
  simp only [step, threadStep, hpc, Option.some.injEq] at h
  exact h.symm

/-- A step keeps, or it is `acquire`'s body, which lends or leaks. -/
theorem step_cases {a : PoolAct n} (h : step a s = some s') :
    KeepStep s s' ∨ ∃ t answer q, a = .step t answer ∧ s.pc t = .locked q
      ∧ (LendStep s t s' ∨ LeakStep s s' answer) := by
  cases a with
  | call t q =>
      simp only [step] at h
      split at h
      next => cases h
      next hout =>
        injection h with h
        have hperm : (s.pc t).hasPermit = false := by
          revert hout
          cases s.pc t <;> simp [InsertPc.inCall, InsertPc.hasPermit,
            InsertPc.loan?]
        exact .inl (h ▸ keepStep_goto hperm.symm nofun)
  | step t answer =>
      rcases threadStep_cases h with hk | ⟨q, hpc, hb⟩
      · exact .inl hk
      · exact .inr ⟨t, answer, q, rfl, hpc, hb⟩
  | lose i =>
      injection h with h
      exact .inl (h ▸ ⟨rfl, rfl, rfl, fun _ _ hl => hl⟩)

-- ==================================================== permit conservation

/-- The step is not a failed reconnect: whenever `acquire`'s body finds
the cursor's connection closed, the database opens it again. -/
def ReconnectOk (s : DbPool n) (a : PoolAct n) (_ : DbPool n) : Prop :=
  ∀ t answer q, a = .step t answer → s.pc t = .locked q →
    s.isOpen s.next = false → answer = .ok

/-- Permits and borrowers add up to the pool's size; so when no call is
in progress every permit is there, and the next call gets one. -/
structure Conserved (s : DbPool n) : Prop where
  total : s.sem + s.inFlight = poolSize
  quiet : (∀ t, (s.pc t).inCall = false) → s.sem = poolSize
  serves : (∀ t, (s.pc t).inCall = false) → ∀ t q, ∃ s₁ s₂,
    step (.call t q) s = some s₁ ∧ step (.step t .ok) s₁ = some s₂
      ∧ s₂.pc t = .locked q

theorem inFlight_eq_zero (h : ∀ t, (s.pc t).inCall = false) :
    s.inFlight = 0 := by
  apply count_eq_zero
  intro t
  have ht := h t
  revert ht
  cases s.pc t <;> simp [InsertPc.inCall, InsertPc.hasPermit, InsertPc.loan?]

/-- The sum is all there is to `Conserved`. -/
theorem conserved_of_total (h : s.sem + s.inFlight = poolSize) :
    Conserved s := by
  have hquiet : (∀ t, (s.pc t).inCall = false) → s.sem = poolSize := by
    intro hout
    rw [inFlight_eq_zero hout] at h
    exact h
  refine ⟨h, hquiet, fun hout t q => ?_⟩
  have hsem : s.sem ≠ 0 := by
    rw [hquiet hout]
    decide
  have hpc : (s.goto t (.semAcquire q)).pc t = .semAcquire q :=
    move_self _ _ _
  refine ⟨s.goto t (.semAcquire q),
    ({ s.goto t (.semAcquire q) with sem := s.sem - 1 }).goto t (.locked q),
    ?_, ?_, move_self _ _ _⟩
  · simp only [step, hout t, Bool.false_eq_true, if_false]
  · simp only [step, threadStep, hpc]
    exact if_neg hsem

theorem sum_init : (init : DbPool n).sem + (init : DbPool n).inFlight
    = poolSize := by
  rw [inFlight_eq_zero fun _ => rfl]
  rfl

theorem total_step {a : PoolAct n} (hi : s.sem + s.inFlight = poolSize)
    (h : step a s = some s') (hok : ReconnectOk s a s') :
    s'.sem + s'.inFlight = poolSize := by
  rcases step_cases h with hk | ⟨t, answer, q, ha, hpc, hl | hl⟩
  · rw [hk.permits, hi]
  · rw [hl.permits, hi]
  · exact absurd (hok t answer q ha hpc hl.closed) hl.refused

/-- Permits are conserved exactly along the runs in which no reconnect
fails: for any number of threads and any schedule, whatever else the
database refuses and whichever connections are lost, permits plus
borrowers make `poolSize` at every state iff every reconnect the run
attempts succeeds. -/
theorem permits_conserved_iff (as : List (PoolAct n)) :
    AllStates step Conserved as (init : DbPool n)
      ↔ AllSteps step ReconnectOk as init := by
  constructor
  · intro h
    refine AllSteps.mono (fun _ => True) ?_ trivial h.ends
    rintro s s' a - h ⟨hc, hc'⟩
    refine ⟨fun t answer q ha hpc hclosed => ?_, trivial⟩
    by_cases hok : answer = .ok
    · exact hok
    -- a refused reconnect leaks, and the sums at both ends differ
    subst ha
    have hleak := acquireBody_leaks hpc hclosed hok
    rw [← eq_acquireBody h hpc] at hleak
    have hone := hleak.permits
    have htotal := hc.total
    have htotal' := hc'.total
    omega
  · exact allStates_of_allSteps total_step conserved_of_total sum_init

/-- The connection in slot 0 is lost, and the reconnect the next call
attempts is refused. -/
def failedReconnect : List (PoolAct 1) :=
  [.lose 0, .call 0 (insertAuthLog "unknown" "AUTH_FAIL_SIG" "127.0.0.1"),
    .step 0 .ok, .step 0 .thrown]

/-- One refused reconnect: no call is in progress, seven permits are
left. -/
theorem failedReconnect_leaks :
    ∃ s : DbPool 1, exec step failedReconnect init = some s
      ∧ (∀ t, (s.pc t).inCall = false) ∧ s.sem = 7
      ∧ ¬ AllStates step Conserved failedReconnect init := by
  refine ⟨_, rfl, by decide, rfl, fun h => ?_⟩
  have hquiet := (h.last rfl).quiet (by decide)
  cases hquiet

-- ====================================================== exclusive lending

/-- No two threads hold one slot. -/
def Exclusive (s : DbPool n) : Prop :=
  ∀ t u l m, s.loanOf t = some l → s.loanOf u = some m →
    l.slot = m.slot → t = u

/-- When `acquire`'s body runs, every connection still out was lent
fewer than `poolSize` executions of the body ago. -/
def LoansYoung (s : DbPool n) (a : PoolAct n) (_ : DbPool n) : Prop :=
  ∀ t answer q, a = .step t answer → s.pc t = .locked q →
    ∀ u l, s.loanOf u = some l → s.lent < l.serial + poolSize

/-- The cursor and the loans, in terms of the executions of the body:
slots are serial numbers wrapped, serial numbers are nobody else's, and
no loan is more than one round old. -/
structure LendInv (s : DbPool n) : Prop where
  cursor : s.next = s.lent % poolSize
  slot : ∀ u l, s.loanOf u = some l → l.slot = l.serial % poolSize
  made : ∀ u l, s.loanOf u = some l → l.serial < s.lent
  recent : ∀ u l, s.loanOf u = some l → s.lent ≤ l.serial + poolSize
  own : ∀ t u l m, s.loanOf t = some l → s.loanOf u = some m →
    l.serial = m.serial → t = u

theorem lendInv_init : LendInv (init : DbPool n) :=
  ⟨rfl, nofun, nofun, nofun, nofun⟩

theorem lendInv_keep (hi : LendInv s) (hk : KeepStep s s') :
    LendInv s' where
  cursor := by rw [hk.next, hk.lent, hi.cursor]
  slot u l hl := hi.slot u l (hk.loans u l hl)
  made u l hl := by
    rw [hk.lent]
    exact hi.made u l (hk.loans u l hl)
  recent u l hl := by
    rw [hk.lent]
    exact hi.recent u l (hk.loans u l hl)
  own t u l m hl hm := hi.own t u l m (hk.loans t l hl) (hk.loans u m hm)

/-- A loan after the body ran is the new one or an old one. -/
theorem LendStep.loans {t u : Fin n} {l : Loan} (hl : LendStep s t s')
    (h : s'.loanOf u = some l) :
    (u = t ∧ l = ⟨s.next, s.lent⟩) ∨ (u ≠ t ∧ s.loanOf u = some l) := by
  by_cases hu : u = t
  · subst hu
    rw [hl.loan] at h
    injection h with h
    exact .inl ⟨rfl, h.symm⟩
  · rw [hl.others u hu] at h
    exact .inr ⟨hu, h⟩

theorem lendInv_lend {t : Fin n} (hi : LendInv s) (hl : LendStep s t s')
    (hyoung : ∀ u l, s.loanOf u = some l → s.lent < l.serial + poolSize) :
    LendInv s' where
  cursor := by rw [hl.next, hl.lent, hi.cursor, succ_mod]
  slot u l h := by
    rcases hl.loans h with ⟨-, rfl⟩ | ⟨-, hold⟩
    · exact hi.cursor
    · exact hi.slot u l hold
  made u l h := by
    rw [hl.lent]
    rcases hl.loans h with ⟨-, rfl⟩ | ⟨-, hold⟩
    · exact Nat.lt_succ_self _
    · exact Nat.lt_succ_of_lt (hi.made u l hold)
  recent u l h := by
    rw [hl.lent]
    rcases hl.loans h with ⟨-, rfl⟩ | ⟨-, hold⟩
    · exact Nat.add_le_add_left (by decide) _
    · exact hyoung u l hold
  own v u l m hv hu heq := by
    rcases hl.loans hv with ⟨rfl, rfl⟩ | ⟨-, hv⟩ <;>
      rcases hl.loans hu with ⟨rfl, rfl⟩ | ⟨-, hu⟩
    · rfl
    · -- an old loan's serial number is below the new one's
      have hlt := hi.made u m hu
      simp only at heq
      omega
    · have hlt := hi.made v l hv
      simp only at heq
      omega
    · exact hi.own v u l m hv hu heq

/-- Loans at most one round old sit in different slots. -/
theorem exclusive_of_lendInv (hi : LendInv s) : Exclusive s := by
  intro t u l m hl hm hslot
  refine hi.own t u l m hl hm ?_
  rw [hi.slot t l hl, hi.slot u m hm] at hslot
  have h₁ := hi.made t l hl
  have h₂ := hi.recent t l hl
  have h₃ := hi.made u m hm
  have h₄ := hi.recent u m hm
  unfold poolSize at *
  omega

/-- A body that lends while a loan is a whole round old lends that
loan's slot. -/
theorem young_of_exclusive {t : Fin n} (hi : LendInv s)
    (hl : LendStep s t s') (he : Exclusive s') (u : Fin n) (l : Loan)
    (h : s.loanOf u = some l) : s.lent < l.serial + poolSize := by
  by_cases hage : s.lent = l.serial + poolSize
  · have hne : u ≠ t := by
      rintro rfl
      rw [hl.before] at h
      cases h
    have hold : s'.loanOf u = some l := by rw [hl.others u hne, h]
    have hslot : l.slot = s.next := by
      rw [hi.slot u l h, hi.cursor, hage, Nat.add_mod_right]
    exact absurd (he u t l _ hold hl.loan hslot) hne
  · have hle := hi.recent u l h
    omega

/-- The step lemma of `LendInv`, on the steps of a good run. -/
theorem lendInv_step {a : PoolAct n} (hi : LendInv s)
    (h : step a s = some s') (hok : ReconnectOk s a s')
    (hyoung : LoansYoung s a s') : LendInv s' := by
  rcases step_cases h with hk | ⟨t, answer, q, ha, hpc, hl | hl⟩
  · exact lendInv_keep hi hk
  · exact lendInv_lend hi hl (hyoung t answer q ha hpc)
  · exact absurd (hok t answer q ha hpc hl.closed) hl.refused

theorem loansYoung_of_exclusive {a : PoolAct n} (hi : LendInv s)
    (h : step a s = some s') (hok : ReconnectOk s a s')
    (he : Exclusive s') : LoansYoung s a s' := by
  intro t answer q ha hpc
  subst ha
  rcases acquireBody_cases hpc answer with hl | hl
  · rw [← eq_acquireBody h hpc] at hl
    exact young_of_exclusive hi hl he
  · exact absurd (hok t answer q rfl hpc hl.closed) hl.refused

/-- With every connection openable, lending is exclusive exactly along
the runs in which no body of `acquire` runs while a connection is out
that was lent `poolSize` or more executions ago: for any number of
threads and any schedule, no two threads ever hold one slot iff each
time a slot is taken every loan still open is younger than that. -/
theorem exclusive_iff (as : List (PoolAct n))
    (hopen : AllSteps step ReconnectOk as (init : DbPool n)) :
    AllStates step Exclusive as (init : DbPool n)
      ↔ AllSteps step LoansYoung as init := by
  constructor
  · intro h
    refine AllSteps.mono LendInv ?_ lendInv_init (hopen.and h.ends)
    rintro s s' a hi hs ⟨hok, -, he⟩
    have hyoung := loansYoung_of_exclusive hi hs hok he
    exact ⟨hyoung, lendInv_step hi hs hok hyoung⟩
  · intro h
    refine allStates_of_allSteps ?_ exclusive_of_lendInv lendInv_init
      (hopen.and h)
    rintro s s' a hi hs ⟨hok, hyoung⟩
    exact lendInv_step hi hs hok hyoung

/-- Nothing but a lost connection closes one. -/
theorem isOpen_step {a : PoolAct n} (hall : ∀ i, s.isOpen i = true)
    (ha : ∀ i, a ≠ .lose i) (h : step a s = some s') (i : Nat) :
    s'.isOpen i = true := by
  cases a with
  | call t q =>
      simp only [step] at h
      split at h
      next => cases h
      next =>
        injection h with h
        exact h ▸ hall i
  | step t answer =>
      simp only [step, threadStep] at h
      split at h
      next => cases h
      next => cases h
      next =>
        split at h
        next => cases h
        next =>
          injection h with h
          exact h ▸ hall i
      next q hpc =>
        injection h with h
        subst h
        simp only [acquireBody, ensureOpen, hall, if_true]
        exact hall i
      next =>
        injection h with h
        exact h ▸ hall i
      next =>
        injection h with h
        exact h ▸ hall i
      next =>
        injection h with h
        subst h
        unfold commitWork
        split <;> exact hall i
      next =>
        injection h with h
        exact h ▸ hall i
  | lose i => exact absurd rfl (ha i)

/-- A run that loses no connection needs no reconnect. -/
theorem reconnectOk_of_no_lose :
    ∀ {as : List (PoolAct n)} {s : DbPool n}, (∀ i, s.isOpen i = true) →
      (∀ i, PoolAct.lose i ∉ as) → AllSteps step ReconnectOk as s
  | [], _, _, _ => trivial
  | a :: as, s, hall, has => by
      intro s' hs
      refine ⟨fun t answer q _ _ hclosed => ?_, ?_⟩
      · rw [hall] at hclosed
        cases hclosed
      · apply reconnectOk_of_no_lose
        · refine isOpen_step hall (fun i ha => has i ?_) hs
          rw [ha]
          exact List.mem_cons_self
        · exact fun i hi => has i (List.mem_cons_of_mem _ hi)

/-- A whole call that succeeds. -/
def wholeCall {n : Nat} (t : Fin n) : List (PoolAct n) :=
  .call t (insertTelemetry 1 0 0 "sensor") :: List.replicate 6 (.step t .ok)

/-- Three threads take a connection one after the other and keep it; then
the second, the first and the third give theirs back. -/
def threeBorrowers : List (PoolAct 3) :=
  (wholeCall 0).take 3 ++ (wholeCall 1).take 3 ++ (wholeCall 2).take 3
    ++ (wholeCall 1).drop 3 ++ (wholeCall 0).drop 3 ++ (wholeCall 2).drop 3

/-- Three loans are open at once, all of them young, and no slot is
shared in any state of the run. -/
theorem exclusive_iff_three_loans :
    (∃ s, exec step (threeBorrowers.take 9) init = some s
      ∧ s.loanOf 0 = some ⟨0, 0⟩ ∧ s.loanOf 1 = some ⟨1, 1⟩
      ∧ s.loanOf 2 = some ⟨2, 2⟩)
    ∧ (∃ s, exec step threeBorrowers init = some s ∧ s.sem = 8)
    ∧ AllStates step Exclusive threeBorrowers init := by
  have hopen : AllSteps step ReconnectOk threeBorrowers init :=
    reconnectOk_of_no_lose (fun _ => rfl) (by simp [threeBorrowers, wholeCall])
  -- with fewer than eight loans made so far, every loan is young
  have hfew : AllSteps step (fun s _ _ => s.lent < poolSize) threeBorrowers
      init := by
    decide
  have hyoung : AllSteps step LoansYoung threeBorrowers init := by
    refine AllSteps.mono (fun _ => True) ?_ trivial hfew
    intro s s' a _ _ hlt
    refine ⟨fun _ _ _ _ _ u l _ => ?_, trivial⟩
    exact Nat.lt_of_lt_of_le hlt (Nat.le_add_left _ _)
  exact ⟨⟨_, rfl, rfl, rfl, rfl⟩, ⟨_, rfl, rfl⟩,
    (exclusive_iff _ hopen).mpr hyoung⟩

/-- Thread 0 takes slot 0 and is slow; thread 1 makes seven whole calls
and starts an eighth. -/
def slowBorrower : List (PoolAct 2) :=
  (wholeCall 0).take 3 ++ (List.replicate 7 (wholeCall 1)).flatten
    ++ (wholeCall 1).take 3

/-- Both threads end up with slot 0, no reconnect having been needed. -/
theorem slowBorrower_shares_slot :
    ∃ s : DbPool 2, exec step slowBorrower init = some s
      ∧ s.loanOf 0 = some ⟨0, 0⟩ ∧ s.loanOf 1 = some ⟨0, 8⟩
      ∧ AllSteps step ReconnectOk slowBorrower init
      ∧ ¬ AllStates step Exclusive slowBorrower init := by
  refine ⟨_, rfl, rfl, rfl, ?_, fun h => ?_⟩
  · exact reconnectOk_of_no_lose (fun _ => rfl)
      (by simp [slowBorrower, wholeCall])
  · have hsame := h.last rfl 0 1 ⟨0, 0⟩ ⟨0, 8⟩ rfl rfl rfl
    cases hsame

end DbPool

end EdgeIpc.Ats
