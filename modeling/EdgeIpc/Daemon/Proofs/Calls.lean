/-
The course of single calls, seen from inside: where a thread in `fault`,
in `shutdown`, or in `start` and `halt` can stand, and what each of its
moves leads to. `move_faulting` says that a call of `fault` ends ignored
or with its alarm raised, `move_closing` that one of `shutdown` ends with
its write notified, `move_bus` that `start` and `halt` raise no alarm, and
`Move.to_fault` that only a `fault` enters FAULT.
-/
import EdgeIpc.Daemon.Proofs.Books

namespace EdgeIpc.Daemon.StateManager

variable {R : Type} {s s' : StateManager R}

/-- Both callbacks are installed. -/
def Installed (s : StateManager R) : Prop :=
  s.stateChangedCb = true ∧ s.alarmCb = true

theorem Moves.installed {t : Tid} {p : Pc R} {es : List (Event R)}
    {next : DaemonState} (hm : Moves s t p es next s')
    (hi : Installed s) : Installed s' :=
  ⟨hm.stateCb ▸ hi.1, hm.alarmCb ▸ hi.2⟩

-- ======================================================= calls in progress

/-- Inside `fault` with alarm `a`, the callbacks installed. -/
def FaultPoint (a : Alarm R) : Pc R → Prop
  | .faultCas b => b = a
  | .copyStateCb next prev alarm =>
      next = .fault ∧ prev = .running ∧ alarm = some a
  | .callStateCb next prev cb alarm =>
      next = .fault ∧ prev = .running ∧ cb = true ∧ alarm = some a
  | .copyAlarmCb b => b = a
  | .callAlarmCb b cb => b = a ∧ cb = true
  | _ => False

/-- Inside `shutdown`, the callbacks installed. -/
def ClosePoint : Pc R → Prop
  | .shutdownExchange => True
  | .copyStateCb next _ alarm => next = .shutdown ∧ alarm = none
  | .callStateCb next _ cb alarm =>
      next = .shutdown ∧ cb = true ∧ alarm = none
  | _ => False

/-- Inside `start` or `halt`, or in no call. -/
def BusPoint : Pc R → Prop
  | .idle => True
  | .startLoad => True
  | .startLoop _ => True
  | .haltLoad => True
  | .haltExchange _ => True
  | .copyStateCb _ _ alarm => alarm = none
  | .callStateCb _ _ _ alarm => alarm = none
  | _ => False

/-- FAULT is entered by the compare-exchange of a `fault`, from
RUNNING. -/
theorem Move.to_fault {t : Tid} {p : Pc R} {es : List (Event R)}
    (hm : Move s t p es .fault) (hne : s.state ≠ .fault) :
    ∃ a, s.pc t = .faultCas a := by
  rcases hm.writes with ⟨-, -, heq⟩ | ⟨op, -, hw⟩
  · exact absurd heq.symm hne
  · cases hw with
    | fault a hpc hr => exact ⟨a, hpc⟩

/-- An alarm is raised by the last access of a `fault`, and by nothing
else. -/
theorem Move.alarmRaised {t : Tid} {p : Pc R} {es : List (Event R)}
    {next : DaemonState} (hm : Move s t p es next) :
    (∀ u a, Event.alarmRaised u a ∉ es)
      ∨ ∃ a, s.pc t = .callAlarmCb a true
        ∧ es = [.alarmRaised t a, .returned t] := by
  cases hm with
  | look hl => exact .inl nofun
  | refuse what prev hpc hprev => exact .inl (by simp)
  | ignore hpc => exact .inl (by simp)
  | write hw => exact .inl (by simp)
  | copyState n prev alarm hpc => exact .inl nofun
  | callState n prev cb hpc => exact .inl (by cases cb <;> simp)
  | callStateAlarm n prev cb b hpc => exact .inl (by cases cb <;> simp)
  | copyAlarm b hpc => exact .inl nofun
  | callAlarm b cb hpc =>
      cases cb with
      | false => exact .inl (by simp)
      | true => exact .inr ⟨b, hpc, rfl⟩

/-- A move inside `fault`: it goes on, or it ends having lost, or it
ends having raised the alarm. -/
theorem move_faulting {t : Tid} {a : Alarm R}
    {p : Pc R} {es : List (Event R)} {next : DaemonState}
    (hm : Move s t p es next) (hins : Installed s)
    (hp : FaultPoint a (s.pc t)) :
    (FaultPoint a p ∧ inProgress t (s.pc t) ++ es = inProgress t p)
    ∨ (p = .idle ∧ inProgress t (s.pc t) ++ es
        = Outcome.log t (.ignored : Outcome R))
    ∨ (p = .idle ∧ inProgress t (s.pc t) ++ es
        = Outcome.log t (.faulted a)) := by
  cases hm with
  | look hl =>
      generalize s.pc t = pc at hl hp
      cases hl <;> cases hp
  | refuse what prev hpc hprev => rw [hpc] at hp; cases hp
  | ignore hpc =>
      rcases hpc with ⟨hpc, -⟩ | ⟨b, hpc, -⟩
      · rw [hpc] at hp; cases hp
      · rw [hpc]; exact .inr (.inl ⟨rfl, rfl⟩)
  | write hw =>
      cases hw with
      | start hpc hr hs => rw [hpc] at hp; cases hp
      | halt n hpc => rw [hpc] at hp; cases hp
      | fault b hpc hr =>
          rw [hpc] at hp ⊢
          rw [hr]
          exact .inl ⟨⟨rfl, rfl, congrArg some hp⟩, rfl⟩
      | shutdown hpc => rw [hpc] at hp; cases hp
  | copyState n prev alarm hpc =>
      rw [hpc] at hp ⊢
      obtain ⟨rfl, rfl, rfl⟩ := hp
      exact .inl ⟨⟨rfl, rfl, hins.1, rfl⟩, rfl⟩
  | callState n prev cb hpc =>
      rw [hpc] at hp
      obtain ⟨-, -, -, hp⟩ := hp
      cases hp
  | callStateAlarm n prev cb b hpc =>
      rw [hpc] at hp ⊢
      obtain ⟨rfl, rfl, rfl, hb⟩ := hp
      exact .inl ⟨Option.some.inj hb, rfl⟩
  | copyAlarm b hpc =>
      rw [hpc] at hp ⊢
      exact .inl ⟨⟨hp, hins.2⟩, rfl⟩
  | callAlarm b cb hpc =>
      rw [hpc] at hp ⊢
      obtain ⟨rfl, rfl⟩ := hp
      exact .inr (.inr ⟨rfl, rfl⟩)

/-- A move inside `shutdown`. -/
theorem move_closing {t : Tid} {p : Pc R}
    {es : List (Event R)} {next : DaemonState} (hm : Move s t p es next)
    (hins : Installed s) (hp : ClosePoint (s.pc t)) :
    (ClosePoint p ∧ inProgress t (s.pc t) ++ es = inProgress t p)
    ∨ (p = .idle ∧ ∃ prev, inProgress t (s.pc t) ++ es
        = Outcome.log t
          (.changed .shutdown prev .shutdown nofun : Outcome R)) := by
  cases hm with
  | look hl =>
      generalize s.pc t = pc at hl hp
      cases hl <;> cases hp
  | refuse what prev hpc hprev => rw [hpc] at hp; cases hp
  | ignore hpc => rcases hpc with ⟨hpc, -⟩ | ⟨b, hpc, -⟩ <;> rw [hpc] at hp <;> cases hp
  | write hw =>
      cases hw with
      | start hpc hr hs => rw [hpc] at hp; cases hp
      | halt n hpc => rw [hpc] at hp; cases hp
      | fault b hpc hr => rw [hpc] at hp; cases hp
      | shutdown hpc => rw [hpc]; exact .inl ⟨⟨rfl, rfl⟩, rfl⟩
  | copyState n prev alarm hpc =>
      rw [hpc] at hp ⊢
      obtain ⟨rfl, rfl⟩ := hp
      exact .inl ⟨⟨rfl, hins.1, rfl⟩, rfl⟩
  | callState n prev cb hpc =>
      rw [hpc] at hp ⊢
      obtain ⟨rfl, rfl, -⟩ := hp
      exact .inr ⟨rfl, prev, rfl⟩
  | callStateAlarm n prev cb b hpc =>
      rw [hpc] at hp
      obtain ⟨-, -, hp⟩ := hp
      cases hp
  | copyAlarm b hpc => rw [hpc] at hp; cases hp
  | callAlarm b cb hpc => rw [hpc] at hp; cases hp

/-- A move of a thread in `start` or `halt` stays there and raises no
alarm. -/
theorem move_bus {t : Tid} {p : Pc R}
    {es : List (Event R)} {next : DaemonState} (hm : Move s t p es next)
    (hp : BusPoint (s.pc t)) :
    BusPoint p ∧ ∀ u a, Event.alarmRaised u a ∉ es := by
  cases hm with
  | look hl =>
      refine ⟨?_, nofun⟩
      generalize s.pc t = pc at hl hp
      cases hl <;> trivial
  | refuse what prev hpc hprev => exact ⟨trivial, by simp⟩
  | ignore hpc => exact ⟨trivial, by simp⟩
  | write hw =>
      cases hw with
      | start hpc hr hs =>
          rw [hpc]
          exact ⟨rfl, by simp⟩
      | halt n hpc =>
          rw [hpc]
          exact ⟨rfl, by simp⟩
      | fault b hpc hr => rw [hpc] at hp; cases hp
      | shutdown hpc => rw [hpc] at hp; cases hp
  | copyState n prev alarm hpc =>
      rw [hpc] at hp
      exact ⟨hp, nofun⟩
  | callState n prev cb hpc =>
      exact ⟨trivial, by cases cb <;> simp⟩
  | callStateAlarm n prev cb b hpc => rw [hpc] at hp; cases hp
  | copyAlarm b hpc => rw [hpc] at hp; cases hp
  | callAlarm b cb hpc => rw [hpc] at hp; cases hp

-- ===================================================== calls made alone

/-- Inside a `start` that found the state `old`, nobody else writing. -/
def Starting (old : DaemonState) : Pc R → DaemonState → Prop
  | .startLoad, st => st = old
  | .startLoop prev, st => prev = old ∧ st = old
  | .copyStateCb _ _ alarm, st =>
      old ≠ .running ∧ old ≠ .shutdown ∧ alarm = none ∧ st = .running
  | .callStateCb _ _ _ alarm, st =>
      old ≠ .running ∧ old ≠ .shutdown ∧ alarm = none ∧ st = .running
  | _, _ => False

/-- Inside a `fault` called in RUNNING, nobody else writing. -/
def Raising : Pc R → DaemonState → Prop
  | .faultCas _, st => st = .running
  | .copyStateCb _ _ alarm, st => alarm ≠ none ∧ st = .fault
  | .callStateCb _ _ _ alarm, st => alarm ≠ none ∧ st = .fault
  | .copyAlarmCb _, st => st = .fault
  | .callAlarmCb _ _, st => st = .fault
  | _, _ => False

/-- Inside a `shutdown`, nobody else writing. -/
def Closing : Pc R → DaemonState → Prop
  | .shutdownExchange, _ => True
  | .copyStateCb _ _ alarm, st => alarm = none ∧ st = .shutdown
  | .callStateCb _ _ _ alarm, st => alarm = none ∧ st = .shutdown
  | _, _ => False

/-- A `start` made alone goes on, or throws because it found RUNNING or
SHUTDOWN, or returns in RUNNING. -/
theorem move_starting {t : Tid} {p : Pc R} {es : List (Event R)}
    {old next : DaemonState} (hm : Move s t p es next)
    (hp : Starting old (s.pc t) s.state) :
    (Starting old p next
      ∧ (s.pc t = .startLoop old → old ≠ .running ∧ old ≠ .shutdown))
    ∨ (p = .idle ∧ next = old ∧ s.pc t = .startLoop old
      ∧ (old = .running ∨ old = .shutdown))
    ∨ (p = .idle ∧ next = .running ∧ old ≠ .running ∧ old ≠ .shutdown
      ∧ ∀ prev, s.pc t ≠ .startLoop prev) := by
  cases hm with
  | look hl =>
      generalize s.pc t = pc at hl hp
      cases hl with
      | load => exact .inl ⟨⟨hp, hp⟩, fun hc => by cases hc⟩
      | retry prev hr hs =>
          obtain ⟨rfl, hst⟩ := hp
          exact .inl ⟨⟨hst, hst⟩, fun _ => ⟨hr, hs⟩⟩
      | pass seen => cases hp
  | refuse what prev hpc hprev =>
      rw [hpc] at hp
      obtain ⟨rfl, hst⟩ := hp
      exact .inr (.inl ⟨rfl, hst, hpc, hprev⟩)
  | ignore hpc =>
      rcases hpc with ⟨hpc, -⟩ | ⟨b, hpc, -⟩ <;> rw [hpc] at hp <;> cases hp
  | write hw =>
      cases hw with
      | start hpc hr hs =>
          rw [hpc] at hp ⊢
          obtain ⟨hprev, hst⟩ := hp
          rw [hst] at hr hs
          exact .inl ⟨⟨hr, hs, rfl, rfl⟩, fun _ => ⟨hr, hs⟩⟩
      | halt n hpc => rw [hpc] at hp; cases hp
      | fault b hpc hr => rw [hpc] at hp; cases hp
      | shutdown hpc => rw [hpc] at hp; cases hp
  | copyState n prev alarm hpc =>
      rw [hpc] at hp ⊢
      exact .inl ⟨hp, fun hc => by cases hc⟩
  | callState n prev cb hpc =>
      rw [hpc] at hp
      obtain ⟨hr, hs, -, hst⟩ := hp
      refine .inr (.inr ⟨rfl, hst, hr, hs, fun prev hc => ?_⟩)
      rw [hpc] at hc
      cases hc
  | callStateAlarm n prev cb b hpc =>
      rw [hpc] at hp
      obtain ⟨-, -, ha, -⟩ := hp
      cases ha
  | copyAlarm b hpc => rw [hpc] at hp; cases hp
  | callAlarm b cb hpc => rw [hpc] at hp; cases hp

/-- A `fault` made alone in RUNNING goes on, or returns in FAULT. -/
theorem move_raising {t : Tid} {p : Pc R} {es : List (Event R)}
    {next : DaemonState} (hm : Move s t p es next)
    (hp : Raising (s.pc t) s.state) :
    Raising p next ∨ (p = .idle ∧ next = .fault) := by
  cases hm with
  | look hl =>
      generalize s.pc t = pc at hl hp
      cases hl <;> cases hp
  | refuse what prev hpc hprev => rw [hpc] at hp; cases hp
  | ignore hpc =>
      rcases hpc with ⟨hpc, -⟩ | ⟨b, hpc, hr⟩ <;> rw [hpc] at hp
      · cases hp
      · exact absurd hp hr
  | write hw =>
      cases hw with
      | start hpc hr hs => rw [hpc] at hp; cases hp
      | halt n hpc => rw [hpc] at hp; cases hp
      | fault b hpc hr =>
          rw [hpc]
          exact .inl ⟨Option.some_ne_none b, rfl⟩
      | shutdown hpc => rw [hpc] at hp; cases hp
  | copyState n prev alarm hpc => rw [hpc] at hp; exact .inl hp
  | callState n prev cb hpc => rw [hpc] at hp; exact absurd rfl hp.1
  | callStateAlarm n prev cb b hpc => rw [hpc] at hp; exact .inl hp.2
  | copyAlarm b hpc => rw [hpc] at hp; exact .inl hp
  | callAlarm b cb hpc => rw [hpc] at hp; exact .inr ⟨rfl, hp⟩

/-- A `fault` leaves FAULT as it is. -/
theorem move_raising_fault {t : Tid} {p : Pc R} {es : List (Event R)}
    {next : DaemonState} (hm : Move s t p es next)
    (hp : Raising (s.pc t) s.state) (hst : s.state = .fault) :
    next = .fault := by
  rcases hm.writes with ⟨-, -, heq⟩ | ⟨op, -, hw⟩
  · exact heq.trans hst
  · cases hw with
    | start hpc hr hs => rw [hpc] at hp; cases hp
    | halt n hpc => rw [hpc] at hp; cases hp
    | fault b hpc hr => rfl
    | shutdown hpc => rw [hpc] at hp; cases hp

/-- A `shutdown` made alone goes on or returns, and leaves SHUTDOWN. -/
theorem move_shutting {t : Tid} {p : Pc R} {es : List (Event R)}
    {next : DaemonState} (hm : Move s t p es next)
    (hp : Closing (s.pc t) s.state) :
    (Closing p next ∨ p = .idle) ∧ next = .shutdown := by
  cases hm with
  | look hl =>
      generalize s.pc t = pc at hl hp
      cases hl <;> cases hp
  | refuse what prev hpc hprev => rw [hpc] at hp; cases hp
  | ignore hpc =>
      rcases hpc with ⟨hpc, -⟩ | ⟨b, hpc, -⟩ <;> rw [hpc] at hp <;> cases hp
  | write hw =>
      cases hw with
      | start hpc hr hs => rw [hpc] at hp; cases hp
      | halt n hpc => rw [hpc] at hp; cases hp
      | fault b hpc hr => rw [hpc] at hp; cases hp
      | shutdown hpc => rw [hpc]; exact ⟨.inl ⟨rfl, rfl⟩, rfl⟩
  | copyState n prev alarm hpc => rw [hpc] at hp; exact ⟨.inl hp, hp.2⟩
  | callState n prev cb hpc => rw [hpc] at hp; exact ⟨.inr rfl, hp.2⟩
  | callStateAlarm n prev cb b hpc =>
      rw [hpc] at hp
      cases hp.1
  | copyAlarm b hpc => rw [hpc] at hp; cases hp
  | callAlarm b cb hpc => rw [hpc] at hp; cases hp

end EdgeIpc.Daemon.StateManager
