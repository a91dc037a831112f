/-
Transition accounting: the books of every run (Proofs/Books.lean), and
what they say of `start` calls that race.

A bunch of `start` calls, undisturbed, on a manager at rest in IDLE or
FAULT: until the first successful compare-exchange every thread can only
have seen that state; after it the winner is the one thread past the
loop, and everybody else is on the way to an exception. `Race` is that
invariant, `race_moves` its step lemma and `one_start_wins` the run
lemma; that the other calls have all thrown is the count of the calls
(`calls_accounted`).
-/
import EdgeIpc.Daemon.Proofs.Books

namespace EdgeIpc.Daemon

open Lib

namespace StateManager

variable {R : Type} {s s' : StateManager R}

-- ========================================================= racing starts

/-- The calls made along a schedule. -/
def isCall : Act R → Bool
  | .call _ _ => true
  | _ => false

/-- Along any schedule the calls made are the calls ended and the calls
in progress. -/
theorem calls_accounted :
    ∀ {as : List (Act R)} {s s' : StateManager R} {k : Nat},
      exec operate as s = some s' → Standing busy s.pc k →
      ∃ k' new, Standing busy s'.pc k' ∧ s'.events = s.events ++ new
        ∧ as.countP isCall + k
          = new.countP isReturned + new.countP isThrown + k'
  | [], s, s', k, h, hk => by
      simp only [exec, Option.some.injEq] at h
      subst h
      exact ⟨k, [], hk, (List.append_nil _).symm, rfl⟩
  | a :: as, s, s', k, h, hk => by
      obtain ⟨s₁, hs, hrest⟩ := exec_cons_some h
      rcases operate_cases hs with
        ⟨t, c, rfl, hidle, rfl⟩ | ⟨t, sp, p, es, next, rfl, hm⟩
      · obtain ⟨k₁, hk₁, hex⟩ :=
          standing_move hk (goto_others s t (entry c))
        rw [hidle, goto_pc_self, busy_of_deciding (deciding_entry c)] at hex
        obtain ⟨k', new, hk', hev, hsum⟩ := calls_accounted hrest hk₁
        refine ⟨k', new, hk', hev, ?_⟩
        rw [List.countP_cons_of_pos (by rfl)]
        change k₁ = k + 1 at hex
        omega
      · obtain ⟨k₁, hk₁, hex⟩ := standing_move hk hm.others
        have hend := hm.move.ended
        rw [hm.self] at hex
        obtain ⟨k', new, hk', hev, hsum⟩ := calls_accounted hrest hk₁
        refine ⟨k', es ++ new, hk', ?_, ?_⟩
        · rw [hev, hm.events, List.append_assoc]
        · rw [List.countP_cons_of_neg (by simp [isCall]),
            List.countP_append, List.countP_append]
          omega

/-- The moves of a race: calls of `start` and accesses. -/
def StartsOnly : Act R → Prop
  | .call _ .start => True
  | .step _ _ => True
  | _ => False

/-- In `start` before its write, having seen only what `seen` allows. -/
def Racing (seen : DaemonState → Prop) : Pc R → Prop
  | .idle => True
  | .startLoad => True
  | .startLoop prev => seen prev
  | _ => False

/-- The winner's way out: its notification and its return. -/
def Winning : Pc R → Prop
  | .copyStateCb _ _ none => True
  | .callStateCb _ _ _ none => True
  | _ => False

/-- A race over a manager found in `st` with `es` recorded: nobody has
written and everybody has seen `st`, or somebody has and RUNNING is all
that can be seen. -/
inductive Race (st : DaemonState) (es : List (Event R))
    (s : StateManager R) : Prop
  | undecided (hstate : s.state = st) (hevents : s.events = es)
      (hpcs : ∀ t, Racing (· = st) (s.pc t))
  | finishing (w : Tid) (new : List (Event R)) (hstate : s.state = .running)
      (hevents : s.events = es ++ new) (hpcs : ∀ t, t ≠ w →
        Racing (fun _ => True) (s.pc t))
      (hw : Winning (s.pc w)) (hcount : new.countP isReturned = 0)
  | decided (new : List (Event R)) (hstate : s.state = .running)
      (hevents : s.events = es ++ new)
      (hpcs : ∀ t, Racing (fun _ => True) (s.pc t))
      (hcount : new.countP isReturned = 1)

theorem Racing.mono {seen seen' : DaemonState → Prop} {p : Pc R}
    (hp : Racing seen p) (h : ∀ st, seen st → seen' st) :
    Racing seen' p := by
  cases p with
  | startLoop prev => exact h prev hp
  | idle => trivial
  | startLoad => trivial
  | _ => cases hp

/-- What a racing thread can do: look again, give up, or win. -/
theorem Move.racing {t : Tid} {p : Pc R} {es : List (Event R)}
    {next : DaemonState} {seen : DaemonState → Prop}
    (hm : Move s t p es next) (hp : Racing seen (s.pc t)) :
    (es = [] ∧ next = s.state ∧ p = .startLoop s.state)
    ∨ (∃ what prev, es = [.threw t what] ∧ next = s.state ∧ p = .idle
        ∧ seen prev ∧ (prev = .running ∨ prev = .shutdown))
    ∨ (es = [.wrote t .start s.state .running] ∧ next = .running
        ∧ p = .copyStateCb .running s.state none ∧ seen s.state
        ∧ s.state ≠ .running) := by
  cases hm with
  | look hl =>
      generalize hpc : s.pc t = pc at hl hp
      cases hl with
      | load => exact .inl ⟨rfl, rfl, rfl⟩
      | retry prev => exact .inl ⟨rfl, rfl, rfl⟩
      | pass n => cases hp
  | refuse what prev hpc hprev =>
      rw [hpc] at hp
      exact .inr (.inl ⟨what, prev, rfl, rfl, rfl, hp, hprev⟩)
  | ignore hpc => rcases hpc with ⟨hpc, -⟩ | ⟨a, hpc, -⟩ <;> rw [hpc] at hp <;> cases hp
  | write hw =>
      cases hw with
      | start hpc hr hs =>
          rw [hpc] at hp ⊢
          exact .inr (.inr ⟨rfl, rfl, rfl, hp, hr⟩)
      | halt n hpc => rw [hpc] at hp; cases hp
      | fault a hpc hr => rw [hpc] at hp; cases hp
      | shutdown hpc => rw [hpc] at hp; cases hp
  | copyState n prev alarm hpc => rw [hpc] at hp; cases hp
  | callState n prev cb hpc => rw [hpc] at hp; cases hp
  | callStateAlarm n prev cb a hpc => rw [hpc] at hp; cases hp
  | copyAlarm a hpc => rw [hpc] at hp; cases hp
  | callAlarm a cb hpc => rw [hpc] at hp; cases hp

/-- What the winner can do: go on to its callback, or return. -/
theorem Move.winning {t : Tid} {p : Pc R} {es : List (Event R)}
    {next : DaemonState} (hm : Move s t p es next)
    (hp : Winning (s.pc t)) :
    next = s.state ∧ ((Winning p ∧ es.countP isReturned = 0)
      ∨ (p = .idle ∧ es.countP isReturned = 1)) := by
  cases hm with
  | look hl =>
      generalize s.pc t = pc at hl hp
      cases hl <;> cases hp
  | refuse what prev hpc hprev => rw [hpc] at hp; cases hp
  | ignore hpc => rcases hpc with ⟨hpc, -⟩ | ⟨a, hpc, -⟩ <;> rw [hpc] at hp <;> cases hp
  | write hw =>
      cases hw with
      | start hpc hr hs => rw [hpc] at hp; cases hp
      | halt n hpc => rw [hpc] at hp; cases hp
      | fault a hpc hr => rw [hpc] at hp; cases hp
      | shutdown hpc => rw [hpc] at hp; cases hp
  | copyState n prev alarm hpc =>
      rw [hpc] at hp
      cases alarm with
      | none => exact ⟨rfl, .inl ⟨trivial, rfl⟩⟩
      | some a => cases hp
  | callState n prev cb hpc =>
      cases cb <;> exact ⟨rfl, .inr ⟨rfl, rfl⟩⟩
  | callStateAlarm n prev cb a hpc => rw [hpc] at hp; cases hp
  | copyAlarm a hpc => rw [hpc] at hp; cases hp
  | callAlarm a cb hpc => rw [hpc] at hp; cases hp

/-- A new `start` call joins the race wherever it stands. -/
theorem race_call {st : DaemonState} {es : List (Event R)} {t : Tid}
    (hrace : Race st es s) (hidle : s.pc t = .idle) :
    Race st es (s.goto t .startLoad) := by
  have hjoin : ∀ {seen : DaemonState → Prop} (u : Tid),
      Racing seen (s.pc u) → Racing seen ((s.goto t .startLoad).pc u) := by
    intro seen u hp
    by_cases hu : u = t
    · subst hu
      rw [goto_pc_self]
      trivial
    · rwa [goto_pc_ne _ _ hu]
  cases hrace with
  | undecided hstate hevents hpcs =>
      exact .undecided hstate hevents fun u => hjoin u (hpcs u)
  | finishing w new hstate hevents hpcs hw hcount =>
      have hne : w ≠ t := by
        rintro rfl
        rw [hidle] at hw
        cases hw
      refine .finishing w new hstate hevents
        (fun u hu => hjoin u (hpcs u hu)) ?_ hcount
      rwa [goto_pc_ne _ _ hne]
  | decided new hstate hevents hpcs hcount =>
      exact .decided new hstate hevents (fun u => hjoin u (hpcs u)) hcount

/-- After a move of thread `t` to a racing point, the others racing as
before. -/
theorem racing_moves {t : Tid} {p : Pc R} {es : List (Event R)}
    {next : DaemonState} {seen : DaemonState → Prop} {P : Tid → Prop}
    (hm : Moves s t p es next s') (hp : Racing seen p)
    (hpcs : ∀ u, P u → Racing seen (s.pc u)) :
    ∀ u, P u → Racing seen (s'.pc u) := by
  intro u hu
  by_cases hut : u = t
  · rw [hut, hm.self]
    exact hp
  · rw [hm.others u hut]
    exact hpcs u hu

section Access

variable {st : DaemonState} {es₀ es new : List (Event R)} {t : Tid}
  {p : Pc R} {next : DaemonState}

/-- An access while nobody has won: a look, or the exchange that wins. -/
theorem race_undecided (hst : st ≠ .running ∧ st ≠ .shutdown)
    (hstate : s.state = st) (hevents : s.events = es₀)
    (hpcs : ∀ u, Racing (· = st) (s.pc u)) (hm : Moves s t p es next s') :
    Race st es₀ s' := by
  rcases hm.move.racing (hpcs t) with
    ⟨rfl, rfl, rfl⟩ | ⟨what, prev, -, -, -, rfl, hprev⟩
      | ⟨rfl, rfl, rfl, -, -⟩
  · refine .undecided (hm.state.trans hstate) ?_ ?_
    · rw [hm.events, List.append_nil, hevents]
    · intro u
      have hp : Racing (· = st) (Pc.startLoop s.state : Pc R) := hstate
      exact racing_moves (P := fun _ => True) hm hp (fun u _ => hpcs u)
        u trivial
  · -- nobody has seen RUNNING or SHUTDOWN yet
    rcases hprev with h | h
    · exact absurd h hst.1
    · exact absurd h hst.2
  · refine .finishing t [.wrote t .start s.state .running] hm.state ?_ ?_
      ?_ rfl
    · rw [hm.events, hevents]
    · intro u hu
      rw [hm.others u hu]
      exact (hpcs u).mono fun _ _ => trivial
    · rw [hm.self]
      trivial

/-- An access of the winner: on to its callback, or its return. -/
theorem race_winner (hstate : s.state = .running)
    (hevents : s.events = es₀ ++ new)
    (hpcs : ∀ u, u ≠ t → Racing (fun _ => True) (s.pc u))
    (hw : Winning (s.pc t)) (hcount : new.countP isReturned = 0)
    (hm : Moves s t p es next s') : Race st es₀ s' := by
  obtain ⟨rfl, ⟨hp, hret⟩ | ⟨rfl, hret⟩⟩ := hm.move.winning hw
  · refine .finishing t (new ++ es) (hm.state.trans hstate) ?_ ?_ ?_ ?_
    · rw [hm.events, hevents, List.append_assoc]
    · intro u hu
      rw [hm.others u hu]
      exact hpcs u hu
    · rw [hm.self]
      exact hp
    · rw [List.countP_append, hcount, hret]
  · refine .decided (new ++ es) (hm.state.trans hstate) ?_ ?_ ?_
    · rw [hm.events, hevents, List.append_assoc]
    · intro u
      by_cases hu : u = t
      · rw [hu, hm.self]
        trivial
      · rw [hm.others u hu]
        exact hpcs u hu
    · rw [List.countP_append, hcount, hret]

/-- An access of a loser once RUNNING is set: a look, or its throw, which
is no return. -/
theorem Moves.loser (hstate : s.state = .running)
    (hp : Racing (fun _ => True) (s.pc t)) (hm : Moves s t p es next s') :
    s'.state = .running ∧ es.countP isReturned = 0
      ∧ Racing (fun _ => True) p := by
  rcases hm.move.racing hp with
    ⟨rfl, rfl, rfl⟩ | ⟨what, prev, rfl, rfl, rfl, -, -⟩ | ⟨-, -, -, -, hne⟩
  · exact ⟨hm.state.trans hstate, rfl, trivial⟩
  · exact ⟨hm.state.trans hstate, rfl, trivial⟩
  · exact absurd hstate hne

/-- One access of the race. -/
theorem race_moves (hst : st ≠ .running ∧ st ≠ .shutdown)
    (hrace : Race st es₀ s) (hm : Moves s t p es next s') :
    Race st es₀ s' := by
  cases hrace with
  | undecided hstate hevents hpcs =>
      exact race_undecided hst hstate hevents hpcs hm
  | finishing w new hstate hevents hpcs hw hcount =>
      by_cases htw : t = w
      · subst htw
        exact race_winner hstate hevents hpcs hw hcount hm
      · obtain ⟨hstate', hret, hp⟩ := hm.loser hstate (hpcs t htw)
        refine .finishing w (new ++ es) hstate' ?_
          (racing_moves hm hp hpcs) ?_ ?_
        · rw [hm.events, hevents, List.append_assoc]
        · rw [hm.others w (Ne.symm htw)]
          exact hw
        · rw [List.countP_append, hcount, hret]
  | decided new hstate hevents hpcs hcount =>
      obtain ⟨hstate', hret, hp⟩ := hm.loser hstate (hpcs t)
      refine .decided (new ++ es) hstate' ?_ (fun u => ?_) ?_
      · rw [hm.events, hevents, List.append_assoc]
      · exact racing_moves (P := fun _ => True) hm hp (fun u _ => hpcs u)
          u trivial
      · rw [List.countP_append, hcount, hret]

end Access

theorem race_operate {st : DaemonState} {es : List (Event R)} {a : Act R}
    (hst : st ≠ .running ∧ st ≠ .shutdown) (hrace : Race st es s)
    (ha : StartsOnly a) (h : operate a s = some s') : Race st es s' := by
  rcases operate_cases h with
    ⟨t, c, rfl, hidle, rfl⟩ | ⟨t, sp, p, es', next, -, hm⟩
  · cases c with
    | start => exact race_call hrace hidle
    | halt => cases ha
    | fault a => cases ha
    | shutdown => cases ha
  · exact race_moves hst hrace hm

/-- Of any bunch of `start` calls on a manager at rest in IDLE or FAULT,
with nothing else going on, exactly one returns; the others throw. -/
theorem one_start_wins {as : List (Act R)} (hq : Quiet s)
    (hst : s.state = .idle ∨ s.state = .fault)
    (has : ∀ a ∈ as, StartsOnly a) (hcalls : 0 < as.countP isCall)
    (h : exec operate as s = some s') (hq' : Quiet s') :
    ∃ new, s'.events = s.events ++ new ∧ new.countP isReturned = 1
      ∧ new.countP isThrown + 1 = as.countP isCall := by
  have hst' : s.state ≠ .running ∧ s.state ≠ .shutdown := by
    rcases hst with hst | hst <;> rw [hst] <;> exact ⟨nofun, nofun⟩
  have hstart : Race s.state s.events s :=
    .undecided rfl rfl fun t => by rw [hq t]; trivial
  have hrace := exec_invariant (race_operate hst') has hstart h
  obtain ⟨k, new, hk, hev, hsum⟩ := calls_accounted h
    (standing_zero fun t => by rw [hq t]; rfl)
  have hk0 := hk.eq_zero fun t => by rw [hq' t]; rfl
  have hcount : new.countP isReturned = 1 := by
    cases hrace with
    | undecided _ hevents _ =>
        -- nobody wrote and nobody threw: no call can have ended
        rw [hevents] at hev
        rw [List.self_eq_append_right.mp hev] at hsum
        change as.countP isCall + 0 = 0 + 0 + k at hsum
        omega
    | finishing w _ _ _ _ hw _ =>
        rw [hq' w] at hw
        cases hw
    | decided new' _ hevents _ hcount =>
        rw [hevents] at hev
        rw [← List.append_cancel_left hev]
        exact hcount
  exact ⟨new, hev, hcount, by omega⟩

-- ========================================================== the accounting

/-- Transition accounting, for any number of threads and any schedule of
their accesses, callbacks installed throughout. In every reachable state:
(a) each thread's events are the logs of its finished calls and the
beginning of the one in progress, where a log holds a write together with
exactly one notification of it, or no write and no callback; (b) `start`
writes RUNNING over IDLE or FAULT only, `fault` FAULT over RUNNING; (c)
with no call in progress, as many alarms were raised as writes went from
RUNNING to FAULT; (d) the writes form a chain from IDLE to the current
state; (e) of `start` calls that race with nothing else from IDLE or
FAULT, exactly one returns and the others throw. -/
theorem transition_accounting (hr : Reachable operate installed s) :
    (∀ t, ∃ calls : List (Outcome R), threadLog t s.events
      = calls.flatMap (Outcome.log t) ++ inProgress t (s.pc t))
    ∧ (∀ t op prev next, Event.wrote t op prev next ∈ s.events →
      Legal op prev next)
    ∧ (Quiet s → s.events.countP isAlarm = s.events.countP isFaultWrite)
    ∧ Chain .idle (writes s.events) s.state
    ∧ ∀ as s', Quiet s → (s.state = .idle ∨ s.state = .fault) →
      (∀ a ∈ as, StartsOnly a) → 0 < as.countP isCall →
      exec operate as s = some s' → Quiet s' →
      ∃ new, s'.events = s.events ++ new ∧ new.countP isReturned = 1
        ∧ new.countP isThrown + 1 = as.countP isCall := by
  have hb := books_reachable hr
  refine ⟨hb.logs, hb.legal, hb.alarms_quiet, hb.chain, ?_⟩
  intro as s' hq hst has hcalls h hq'
  exact one_start_wins hq hst has hcalls h hq'

/-- Two threads in `start`: the second loses the compare-exchange, loads
RUNNING and throws. -/
def twoStarts : List (Act R) :=
  [.call 0 .start, .call 1 .start, .step 0 false, .step 1 false,
    .step 0 false, .step 1 false, .step 1 false, .step 0 false,
    .step 0 false]

/-- The accounting after the two starts. -/
theorem transition_accounting_two_starts :
    ∃ s : StateManager Nat, exec operate twoStarts installed = some s
      ∧ s.events.countP isReturned = 1 ∧ s.events.countP isThrown = 1
      ∧ Chain .idle (writes s.events) s.state := by
  refine ⟨_, rfl, rfl, rfl, ?_⟩
  exact (transition_accounting (reachable_of_exec
    (rfl : exec operate twoStarts (installed : StateManager Nat)
      = some _))).2.2.2.1

end StateManager

end EdgeIpc.Daemon
