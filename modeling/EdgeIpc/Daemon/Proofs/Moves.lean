/-
What one access of a thread does to the state manager, said once. A
`Move` is where the thread stands next, which events it records and what
it leaves in `state_`; `threadStep_moves` says there is nothing else. The
books (Proofs/Books.lean), the race of the starts (Proofs/Transitions.lean)
and the order of the notifications (Proofs/Notifications.lean) are all
read off this list.

`operate` is the system while nobody touches the callbacks: the threads'
calls and accesses only.
-/
import EdgeIpc.Daemon.Proofs.Shutdown

namespace EdgeIpc.Daemon

variable {R : Type}

/-- The thread an event belongs to. -/
def Event.tid : Event R → Tid
  | .wrote t _ _ _ => t
  | .stateChanged t _ _ => t
  | .alarmRaised t _ => t
  | .returned t => t
  | .threw t _ => t

namespace StateManager

variable {s s' : StateManager R}

-- ================================================== the callbacks stay put

/-- A fresh manager with both callbacks installed. -/
def installed : StateManager R :=
  { stateChangedCb := true, alarmCb := true }

/-- The threads' moves: calls and their accesses, the callbacks left as
they are. -/
def operate (a : Act R) (s : StateManager R) : Option (StateManager R) :=
  match a with
  | .call _ _ => step a s
  | .step _ _ => step a s
  | .setStateChangedCallback _ => none
  | .setAlarmCallback _ => none

/-- No call is in progress. -/
def Quiet (s : StateManager R) : Prop := ∀ t, s.pc t = .idle

theorem goto_others (s : StateManager R) (t : Tid) (p : Pc R) :
    ∀ u, u ≠ t → (s.goto t p).pc u = s.pc u :=
  fun _ hu => goto_pc_ne s p hu

-- ================================================ what a thread's access does

/-- The operation that writes a given state. -/
def writer : DaemonState → Op
  | .idle => .halt
  | .running => .start
  | .fault => .fault
  | .shutdown => .shutdown

/-- The alarm a thread's write would raise. -/
def alarmOf : Pc R → Option (Alarm R)
  | .faultCas a => some a
  | _ => none

/-- The points of a call before it has decided anything. -/
def Deciding : Pc R → Prop
  | .startLoad => True
  | .startLoop _ => True
  | .haltLoad => True
  | .haltExchange _ => True
  | .faultCas _ => True
  | .shutdownExchange => True
  | _ => False

/-- The accesses that only look: `start`'s load and its failed
compare-exchange, which leave the state seen, and `halt`'s load. -/
inductive Looks (s : StateManager R) : Pc R → Pc R → Prop
  | load : Looks s .startLoad (.startLoop s.state)
  | retry (prev : DaemonState) (hr : prev ≠ .running)
      (hs : prev ≠ .shutdown) :
      Looks s (.startLoop prev) (.startLoop s.state)
  | pass (seen : Nat) : Looks s .haltLoad (.haltExchange seen)

theorem Looks.deciding {p p' : Pc R} (h : Looks s p p') :
    Deciding p ∧ Deciding p' := by
  cases h <;> exact ⟨trivial, trivial⟩

/-- What one access of thread `t` does: its next control point, the
events it records, the value it leaves in `state_`. -/
inductive Move (s : StateManager R) (t : Tid) :
    Pc R → List (Event R) → DaemonState → Prop
  | look {p : Pc R} (hl : Looks s (s.pc t) p) : Move s t p [] s.state
  | refuse (what : String) (prev : DaemonState)
      (hpc : s.pc t = .startLoop prev)
      (hprev : prev = .running ∨ prev = .shutdown) :
      Move s t .idle [.threw t what] s.state
  | ignore (hpc : (s.pc t = .haltLoad ∧ s.state = .shutdown)
        ∨ ∃ a, s.pc t = .faultCas a ∧ s.state ≠ .running) :
      Move s t .idle [.returned t] s.state
  | write {op : Op} {next : DaemonState} (hw : WriteBy s t op next) :
      Move s t (.copyStateCb next s.state (alarmOf (s.pc t)))
        [.wrote t op s.state next] next
  | copyState (next prev : DaemonState) (alarm : Option (Alarm R))
      (hpc : s.pc t = .copyStateCb next prev alarm) :
      Move s t (.callStateCb next prev s.stateChangedCb alarm) [] s.state
  | callState (next prev : DaemonState) (cb : Bool)
      (hpc : s.pc t = .callStateCb next prev cb none) :
      Move s t .idle
        ((if cb then [.stateChanged t next prev] else []) ++ [.returned t])
        s.state
  | callStateAlarm (next prev : DaemonState) (cb : Bool) (a : Alarm R)
      (hpc : s.pc t = .callStateCb next prev cb (some a)) :
      Move s t (.copyAlarmCb a)
        (if cb then [.stateChanged t next prev] else []) s.state
  | copyAlarm (a : Alarm R) (hpc : s.pc t = .copyAlarmCb a) :
      Move s t (.callAlarmCb a s.alarmCb) [] s.state
  | callAlarm (a : Alarm R) (cb : Bool) (hpc : s.pc t = .callAlarmCb a cb) :
      Move s t .idle
        ((if cb then [.alarmRaised t a] else []) ++ [.returned t]) s.state

/-- The successor a move leads to. -/
structure Moves (s : StateManager R) (t : Tid) (p : Pc R)
    (es : List (Event R)) (next : DaemonState) (s' : StateManager R) :
    Prop where
  move : Move s t p es next
  state : s'.state = next
  self : s'.pc t = p
  others : ∀ u, u ≠ t → s'.pc u = s.pc u
  events : s'.events = s.events ++ es
  stateCb : s'.stateChangedCb = s.stateChangedCb
  alarmCb : s'.alarmCb = s.alarmCb

/-- A move whose successor is a change of events, state and count
followed by a `goto`. -/
theorem moves_goto {t : Tid} {p : Pc R} {es : List (Event R)}
    {next : DaemonState} {n : Nat} (hm : Move s t p es next) :
    Moves s t p es next
      (({ s with state := next, shutdowns := n,
                 events := s.events ++ es } : StateManager R).goto t p) :=
  ⟨hm, rfl, goto_pc_self _ _ _, goto_others _ _ _, rfl, rfl,
    rfl⟩

/-- The same for a move that records nothing. -/
theorem moves_goto_silent {t : Tid} {p : Pc R}
    (hm : Move s t p [] s.state) : Moves s t p [] s.state (s.goto t p) :=
  ⟨hm, rfl, goto_pc_self _ _ _, goto_others _ _ _,
    (List.append_nil _).symm, rfl, rfl⟩

/-- A write, followed by the move to the callback copy. -/
theorem moves_write {t : Tid} {op : Op} {next prev : DaemonState}
    {alarm : Option (Alarm R)} (hw : WriteBy s t op next)
    (hprev : s.state = prev) (halarm : alarmOf (s.pc t) = alarm) :
    Moves s t (.copyStateCb next prev alarm) [.wrote t op s.state next]
      next
      ((s.writeState t op next).goto t (.copyStateCb next prev alarm)) := by
  subst hprev halarm
  exact moves_goto (.write hw)

theorem transition_moves {t : Tid} {op : Op} {next : DaemonState}
    (hw : WriteBy s t op next) (halarm : alarmOf (s.pc t) = none) :
    ∃ p es st, Moves s t p es st (s.transition t op next) :=
  ⟨_, _, _, moves_write hw rfl halarm⟩

theorem startLoop_moves {t : Tid} {prev : DaemonState} (spurious : Bool)
    (hpc : s.pc t = .startLoop prev) :
    ∃ p es next, Moves s t p es next (s.startLoop t prev spurious) := by
  unfold startLoop
  split
  next hr => exact ⟨_, _, _, moves_goto (.refuse _ _ hpc (.inl hr))⟩
  next hr =>
    split
    next hs => exact ⟨_, _, _, moves_goto (.refuse _ _ hpc (.inr hs))⟩
    next hs =>
      split
      next hcas =>
        obtain ⟨rfl, -⟩ := hcas
        refine ⟨_, _, _, moves_write (.start hpc hr hs) rfl ?_⟩
        rw [hpc]
        rfl
      next =>
        exact ⟨_, _, _, moves_goto_silent (.look (hpc ▸ .retry prev hr hs))⟩

theorem haltLoad_moves {t : Tid} (hpc : s.pc t = .haltLoad) :
    ∃ p es next, Moves s t p es next (s.haltLoad t) := by
  unfold haltLoad
  split
  next hs => exact ⟨_, _, _, moves_goto (.ignore (.inl ⟨hpc, hs⟩))⟩
  next => exact ⟨_, _, _, moves_goto_silent (.look (hpc ▸ .pass _))⟩

theorem faultCas_moves {t : Tid} {a : Alarm R}
    (hpc : s.pc t = .faultCas a) :
    ∃ p es next, Moves s t p es next (s.faultCas t a) := by
  unfold faultCas
  split
  next hr =>
    refine ⟨_, _, _, moves_write (.fault a hpc hr) hr ?_⟩
    rw [hpc]
    rfl
  next hr => exact ⟨_, _, _, moves_goto (.ignore (.inr ⟨a, hpc, hr⟩))⟩

theorem callStateCb_moves {t : Tid} {next prev : DaemonState} {cb : Bool}
    {alarm : Option (Alarm R)}
    (hpc : s.pc t = .callStateCb next prev cb alarm) :
    ∃ p es st, Moves s t p es st (s.callStateCb t next prev cb alarm) := by
  cases alarm with
  | none =>
      have hm := Move.callState next prev cb hpc
      cases cb with
      | false => exact ⟨_, _, _, moves_goto hm⟩
      | true =>
          refine ⟨_, _, _, hm, rfl, goto_pc_self _ _ _,
            goto_others _ _ _, ?_, rfl, rfl⟩
          exact List.append_assoc _ _ _
  | some a =>
      have hm := Move.callStateAlarm next prev cb a hpc
      cases cb with
      | false => exact ⟨_, _, _, moves_goto_silent hm⟩
      | true => exact ⟨_, _, _, moves_goto hm⟩

theorem callAlarmCb_moves {t : Tid} {a : Alarm R} {cb : Bool}
    (hpc : s.pc t = .callAlarmCb a cb) :
    ∃ p es next, Moves s t p es next (s.callAlarmCb t a cb) := by
  have hm := Move.callAlarm a cb hpc
  cases cb with
  | false => exact ⟨_, _, _, moves_goto hm⟩
  | true =>
      refine ⟨_, _, _, hm, rfl, goto_pc_self _ _ _,
        goto_others _ _ _, ?_, rfl, rfl⟩
      exact List.append_assoc _ _ _

/-- Every access of a thread is one of the moves. -/
theorem threadStep_moves {t : Tid} {spurious : Bool}
    (h : s.threadStep t spurious = some s') :
    ∃ p es next, Moves s t p es next s' := by
  unfold threadStep at h
  split at h
  next => cases h
  next hpc =>
    injection h with h
    subst h
    exact ⟨_, _, _, moves_goto_silent (.look (hpc ▸ .load))⟩
  next prev hpc =>
    injection h with h
    exact h ▸ startLoop_moves spurious hpc
  next hpc =>
    injection h with h
    exact h ▸ haltLoad_moves hpc
  next n hpc =>
    injection h with h
    refine h ▸ transition_moves (.halt n hpc) ?_
    rw [hpc]
    rfl
  next a hpc =>
    injection h with h
    exact h ▸ faultCas_moves hpc
  next hpc =>
    injection h with h
    refine h ▸ transition_moves (.shutdown hpc) ?_
    rw [hpc]
    rfl
  next hpc =>
    injection h with h
    exact ⟨_, _, _, h ▸ moves_goto_silent (.copyState _ _ _ hpc)⟩
  next hpc =>
    injection h with h
    exact h ▸ callStateCb_moves hpc
  next hpc =>
    injection h with h
    exact ⟨_, _, _, h ▸ moves_goto_silent (.copyAlarm _ hpc)⟩
  next hpc =>
    injection h with h
    exact h ▸ callAlarmCb_moves hpc

/-- A call is made by an idle thread, which enters it. -/
theorem call_enters {t : Tid} {c : Call R}
    (h : step (.call t c) s = some s') :
    s.pc t = .idle ∧ s' = s.goto t (entry c) := by
  simp only [step] at h
  split at h
  next hpc =>
    injection h with h
    exact ⟨hpc, h.symm⟩
  next => cases h

/-- A step of the threads is a call made by an idle one, or a move. -/
theorem operate_cases {a : Act R} (h : operate a s = some s') :
    (∃ t c, a = .call t c ∧ s.pc t = .idle ∧ s' = s.goto t (entry c))
    ∨ ∃ t spurious p es next,
        a = .step t spurious ∧ Moves s t p es next s' := by
  cases a with
  | call t c =>
      obtain ⟨hpc, hs⟩ := call_enters h
      exact .inl ⟨t, c, rfl, hpc, hs⟩
  | step t spurious =>
      obtain ⟨p, es, next, hm⟩ := threadStep_moves h
      exact .inr ⟨t, spurious, p, es, next, rfl, hm⟩
  | setStateChangedCallback b => cases h
  | setAlarmCallback b => cases h

end StateManager

end EdgeIpc.Daemon
