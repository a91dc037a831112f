/-
The books of the state machine: every write of `state_` is notified once,
by the call that wrote, and a call that writes nothing says nothing.

A thread's own events are the logs of its finished calls, one after the
other, then what the call in progress has recorded so far (`Books.logs`,
`inProgress`). A finished call has one of four logs (`Outcome.log`): it
threw, it was ignored, it changed the state, or it won a fault; the last
two hold one write and one notification of that very write. Across the
threads the writes form a chain from IDLE (`Chain`), and the alarms still
owed are those of the threads between their write and their alarm
callback (`owesAlarm`).

Each book has a lemma saying what one move enters in it (`Move.books`,
`Move.writes`, `Move.alarms`); `books_operate` posts them.
-/
import EdgeIpc.Daemon.Proofs.Moves
import EdgeIpc.Lib.Threads

namespace EdgeIpc.Daemon

open Lib

namespace StateManager

variable {R : Type} {s s' : StateManager R}

-- ============================================================== the books

/-- The writes each operation may make. -/
inductive Legal : Op → DaemonState → DaemonState → Prop
  | startIdle : Legal .start .idle .running
  | startFault : Legal .start .fault .running
  | halt (prev : DaemonState) : Legal .halt prev .idle
  | fault : Legal .fault .running .fault
  | shutdown (prev : DaemonState) : Legal .shutdown prev .shutdown

/-- How a finished call ended. -/
inductive Outcome (R : Type) where
  | threw (what : String)
  | ignored
  | changed (op : Op) (prev next : DaemonState) (hop : op ≠ .fault)
  | faulted (a : Alarm R)

/-- The events of a finished call of thread `t`, all of them. -/
def Outcome.log (t : Tid) : Outcome R → List (Event R)
  | .threw what => [.threw t what]
  | .ignored => [.returned t]
  | .changed op prev next _ =>
      [.wrote t op prev next, .stateChanged t next prev, .returned t]
  | .faulted a =>
      [.wrote t .fault .running .fault, .stateChanged t .fault .running,
        .alarmRaised t a, .returned t]

/-- What the call in progress has recorded so far. -/
def inProgress (t : Tid) : Pc R → List (Event R)
  | .copyStateCb next prev _ => [.wrote t (writer next) prev next]
  | .callStateCb next prev _ _ => [.wrote t (writer next) prev next]
  | .copyAlarmCb _ =>
      [.wrote t .fault .running .fault, .stateChanged t .fault .running]
  | .callAlarmCb _ _ =>
      [.wrote t .fault .running .fault, .stateChanged t .fault .running]
  | _ => []

/-- One thread's events, in order. -/
def threadLog (t : Tid) (es : List (Event R)) : List (Event R) :=
  es.filter fun e => e.tid = t

/-- The writes, in order: what each replaced and what it left. -/
def writes (es : List (Event R)) : List (DaemonState × DaemonState) :=
  es.filterMap fun
    | .wrote _ _ prev next => some (prev, next)
    | _ => none

/-- Each pair starts where the one before ended. -/
def Chain : DaemonState → List (DaemonState × DaemonState) →
    DaemonState → Prop
  | a, [], b => a = b
  | a, (prev, next) :: ws, b => prev = a ∧ Chain next ws b

def isFaultWrite : Event R → Bool
  | .wrote _ _ .running .fault => true
  | _ => false

def isAlarm : Event R → Bool
  | .alarmRaised _ _ => true
  | _ => false

def isReturned : Event R → Bool
  | .returned _ => true
  | _ => false

def isThrown : Event R → Bool
  | .threw _ _ => true
  | _ => false

/-- A thread past the write of a fault and before its alarm callback. -/
def owesAlarm : Pc R → Bool
  | .copyStateCb _ _ (some _) => true
  | .callStateCb _ _ _ (some _) => true
  | .copyAlarmCb _ => true
  | .callAlarmCb _ _ => true
  | _ => false

/-- A call in progress. -/
def busy : Pc R → Bool
  | .idle => false
  | _ => true

/-- Only a fault goes on to an alarm, and every fault does. -/
def Owed (next prev : DaemonState) : Option (Alarm R) → Prop
  | none => next ≠ .fault
  | some _ => next = .fault ∧ prev = .running

/-- What is known of a control point while the callbacks are
installed. -/
def PcOk : Pc R → Prop
  | .copyStateCb next prev alarm => Owed next prev alarm
  | .callStateCb next prev cb alarm => cb = true ∧ Owed next prev alarm
  | .callAlarmCb _ cb => cb = true
  | _ => True

theorem pcOk_of_deciding {p : Pc R} (hp : Deciding p) : PcOk p := by
  cases p <;> trivial

theorem inProgress_of_deciding {p : Pc R} (t : Tid) (hp : Deciding p) :
    inProgress t p = [] := by
  cases p <;> first | rfl | cases hp

theorem owesAlarm_of_deciding {p : Pc R} (hp : Deciding p) :
    owesAlarm p = false := by
  cases p <;> first | rfl | cases hp

theorem busy_of_deciding {p : Pc R} (hp : Deciding p) :
    busy p = true := by
  cases p <;> first | rfl | cases hp

theorem chain_snoc {a b c : DaemonState} :
    ∀ {ws : List (DaemonState × DaemonState)}, Chain a ws b →
      Chain a (ws ++ [(b, c)]) c
  | [], h => ⟨h.symm, rfl⟩
  | _ :: _, h => ⟨h.1, chain_snoc h.2⟩

-- ========================================================= one write, one move

theorem WriteBy.legal {t : Tid} {op : Op} {next : DaemonState}
    (hw : WriteBy s t op next) : Legal op s.state next := by
  cases hw with
  | start _ hr hs =>
      cases hst : s.state with
      | idle => exact .startIdle
      | fault => exact .startFault
      | running => exact absurd hst hr
      | shutdown => exact absurd hst hs
  | halt n hpc => exact .halt _
  | fault a hpc hr => exact hr ▸ .fault
  | shutdown hpc => exact .shutdown _

/-- The point a writer stands at has recorded nothing, and the alarm it
owes is a fault's. -/
theorem WriteBy.point {t : Tid} {op : Op} {next : DaemonState}
    (hw : WriteBy s t op next) :
    Deciding (s.pc t) ∧ op = writer next
      ∧ Owed next s.state (alarmOf (s.pc t)) := by
  cases hw with
  | start hpc _ _ => rw [hpc]; exact ⟨trivial, rfl, nofun⟩
  | halt n hpc => rw [hpc]; exact ⟨trivial, rfl, nofun⟩
  | fault a hpc hr => rw [hpc]; exact ⟨trivial, rfl, rfl, hr⟩
  | shutdown hpc => rw [hpc]; exact ⟨trivial, rfl, nofun⟩

/-- A thread records events of its own only. -/
theorem Move.tid {t : Tid} {p : Pc R} {es : List (Event R)}
    {next : DaemonState} (hm : Move s t p es next) :
    ∀ e ∈ es, e.tid = t := by
  intro e he
  cases hm with
  | look hl => cases he
  | refuse what prev hpc hprev => rw [List.mem_singleton.mp he]; rfl
  | ignore hpc => rw [List.mem_singleton.mp he]; rfl
  | write hw => rw [List.mem_singleton.mp he]; rfl
  | copyState n prev alarm hpc => cases he
  | callState n prev cb hpc =>
      cases cb <;> simp at he <;> rcases he with rfl | rfl <;> rfl
  | callStateAlarm n prev cb a hpc =>
      cases cb <;> simp at he
      rw [he]
      rfl
  | copyAlarm a hpc => cases he
  | callAlarm a cb hpc =>
      cases cb <;> simp at he <;> rcases he with rfl | rfl <;> rfl

/-- While the callbacks are installed a move either carries its call on
or finishes it with one of the four outcomes. -/
theorem Move.books {t : Tid} {p : Pc R} {es : List (Event R)}
    {next : DaemonState} (hm : Move s t p es next)
    (hcb : s.stateChangedCb = true) (hal : s.alarmCb = true)
    (hok : PcOk (s.pc t)) :
    PcOk p ∧ (inProgress t (s.pc t) ++ es = inProgress t p
      ∨ p = .idle ∧ ∃ o : Outcome R,
          inProgress t (s.pc t) ++ es = o.log t) := by
  cases hm with
  | look hl =>
      obtain ⟨hpc, hp⟩ := hl.deciding
      refine ⟨pcOk_of_deciding hp, .inl ?_⟩
      rw [inProgress_of_deciding t hpc, inProgress_of_deciding t hp]
      rfl
  | refuse what prev hpc hprev =>
      rw [hpc]
      exact ⟨trivial, .inr ⟨rfl, .threw what, rfl⟩⟩
  | ignore hpc =>
      rcases hpc with ⟨hpc, -⟩ | ⟨a, hpc, -⟩ <;> rw [hpc] <;>
        exact ⟨trivial, .inr ⟨rfl, .ignored, rfl⟩⟩
  | write hw =>
      obtain ⟨hdec, rfl, howed⟩ := hw.point
      refine ⟨howed, .inl ?_⟩
      rw [inProgress_of_deciding t hdec]
      rfl
  | copyState n prev alarm hpc =>
      rw [hpc] at hok ⊢
      exact ⟨⟨hcb, hok⟩, .inl rfl⟩
  | callState n prev cb hpc =>
      rw [hpc] at hok ⊢
      obtain ⟨rfl, hne⟩ := hok
      have hop : writer n ≠ .fault := by
        cases n <;> first | exact absurd rfl hne | exact nofun
      exact ⟨trivial, .inr ⟨rfl, .changed (writer n) prev n hop, rfl⟩⟩
  | callStateAlarm n prev cb a hpc =>
      rw [hpc] at hok ⊢
      obtain ⟨rfl, rfl, rfl⟩ := hok
      exact ⟨trivial, .inl rfl⟩
  | copyAlarm a hpc =>
      rw [hpc]
      exact ⟨hal, .inl rfl⟩
  | callAlarm a cb hpc =>
      rw [hpc] at hok ⊢
      obtain rfl := hok
      exact ⟨trivial, .inr ⟨rfl, .faulted a, rfl⟩⟩

/-- A move that records a write records that one, over the current
state; any other leaves `state_` alone. -/
theorem Move.writes {t : Tid} {p : Pc R} {es : List (Event R)}
    {next : DaemonState} (hm : Move s t p es next) :
    (writes es = [] ∧ (∀ u op prev nx, Event.wrote u op prev nx ∉ es)
        ∧ next = s.state)
      ∨ ∃ op, es = [.wrote t op s.state next] ∧ WriteBy s t op next := by
  cases hm with
  | look hl => exact .inl ⟨rfl, nofun, rfl⟩
  | refuse what prev hpc hprev => exact .inl ⟨rfl, by simp, rfl⟩
  | ignore hpc => exact .inl ⟨rfl, by simp, rfl⟩
  | write hw => exact .inr ⟨_, rfl, hw⟩
  | copyState n prev alarm hpc => exact .inl ⟨rfl, nofun, rfl⟩
  | callState n prev cb hpc => cases cb <;> exact .inl ⟨rfl, by simp, rfl⟩
  | callStateAlarm n prev cb a hpc =>
      cases cb <;> exact .inl ⟨rfl, by simp, rfl⟩
  | copyAlarm a hpc => exact .inl ⟨rfl, nofun, rfl⟩
  | callAlarm a cb hpc => cases cb <;> exact .inl ⟨rfl, by simp, rfl⟩

/-- A move's alarms are paid out of what its thread owes. -/
theorem Move.alarms {t : Tid} {p : Pc R} {es : List (Event R)}
    {next : DaemonState} (hm : Move s t p es next)
    (hok : PcOk (s.pc t)) :
    es.countP isFaultWrite + (if owesAlarm (s.pc t) then 1 else 0)
      = es.countP isAlarm + (if owesAlarm p then 1 else 0) := by
  cases hm with
  | look hl =>
      obtain ⟨hpc, hp⟩ := hl.deciding
      rw [owesAlarm_of_deciding hpc, owesAlarm_of_deciding hp]
      rfl
  | refuse what prev hpc hprev => rw [hpc]; rfl
  | ignore hpc => rcases hpc with ⟨hpc, -⟩ | ⟨a, hpc, -⟩ <;> rw [hpc] <;> rfl
  | write hw =>
      cases hw with
      | start hpc hr hs => rw [hpc]; cases s.state <;> rfl
      | halt n hpc => rw [hpc]; cases s.state <;> rfl
      | fault a hpc hr => rw [hpc, hr]; rfl
      | shutdown hpc => rw [hpc]; cases s.state <;> rfl
  | copyState n prev alarm hpc => rw [hpc]; cases alarm <;> rfl
  | callState n prev cb hpc => rw [hpc]; cases cb <;> rfl
  | callStateAlarm n prev cb a hpc => rw [hpc]; cases cb <;> rfl
  | copyAlarm a hpc => rw [hpc]; rfl
  | callAlarm a cb hpc =>
      rw [hpc] at hok ⊢
      obtain rfl := hok
      rfl

/-- A move ends its call exactly when it records a return or a throw. -/
theorem Move.ended {t : Tid} {p : Pc R} {es : List (Event R)}
    {next : DaemonState} (hm : Move s t p es next) :
    es.countP isReturned + es.countP isThrown
        + (if busy p then 1 else 0)
      = if busy (s.pc t) then 1 else 0 := by
  cases hm with
  | look hl =>
      obtain ⟨hpc, hp⟩ := hl.deciding
      rw [busy_of_deciding hpc, busy_of_deciding hp]
      rfl
  | refuse what prev hpc hprev => rw [hpc]; rfl
  | ignore hpc => rcases hpc with ⟨hpc, -⟩ | ⟨a, hpc, -⟩ <;> rw [hpc] <;> rfl
  | write hw => rw [busy_of_deciding hw.point.1]; rfl
  | copyState n prev alarm hpc => rw [hpc]; rfl
  | callState n prev cb hpc => rw [hpc]; cases cb <;> rfl
  | callStateAlarm n prev cb a hpc => rw [hpc]; cases cb <;> rfl
  | copyAlarm a hpc => rw [hpc]; rfl
  | callAlarm a cb hpc => rw [hpc]; cases cb <;> rfl

-- ========================================================== the invariant

/-- The books of every thread and the two sums over all of them. -/
structure Books (s : StateManager R) : Prop where
  stateCb : s.stateChangedCb = true
  alarmCb : s.alarmCb = true
  points : ∀ t, PcOk (s.pc t)
  logs : ∀ t, ∃ calls : List (Outcome R),
    threadLog t s.events
      = calls.flatMap (Outcome.log t) ++ inProgress t (s.pc t)
  legal : ∀ t op prev next, Event.wrote t op prev next ∈ s.events →
    Legal op prev next
  chain : Chain .idle (writes s.events) s.state
  alarms : ∃ k, Standing owesAlarm s.pc k
    ∧ s.events.countP isFaultWrite = s.events.countP isAlarm + k

theorem books_installed : Books (installed : StateManager R) :=
  ⟨rfl, rfl, fun _ => trivial, fun _ => ⟨[], rfl⟩, nofun, rfl,
    0, standing_zero fun _ => rfl, rfl⟩

theorem deciding_entry (c : Call R) : Deciding (entry c) := by
  cases c <;> trivial

/-- A call that starts changes no book. -/
theorem books_call {t : Tid} {c : Call R} (hb : Books s)
    (hidle : s.pc t = .idle) : Books (s.goto t (entry c)) := by
  have hdec := deciding_entry c
  refine ⟨hb.stateCb, hb.alarmCb, fun u => ?_, fun u => ?_, hb.legal,
    hb.chain, ?_⟩
  · by_cases hu : u = t
    · subst hu
      rw [goto_pc_self]
      exact pcOk_of_deciding hdec
    · rw [goto_pc_ne _ _ hu]
      exact hb.points u
  · obtain ⟨calls, hlog⟩ := hb.logs u
    refine ⟨calls, ?_⟩
    by_cases hu : u = t
    · subst hu
      rw [goto_pc_self, inProgress_of_deciding u hdec]
      rw [hidle] at hlog
      exact hlog
    · rw [goto_pc_ne _ _ hu]
      exact hlog
  · obtain ⟨k, hk, hsum⟩ := hb.alarms
    obtain ⟨k', hk', hex⟩ := standing_move hk (goto_others s t (entry c))
    rw [hidle, goto_pc_self, owesAlarm_of_deciding hdec] at hex
    have hkk : k' = k := hex
    exact ⟨k', hk', hkk ▸ hsum⟩

/-- The log of the thread that moved grows by the move's events, the
other logs stay. -/
theorem Moves.threadLog {t u : Tid} {p : Pc R} {es : List (Event R)}
    {next : DaemonState} (hm : Moves s t p es next s') :
    threadLog u s'.events
      = threadLog u s.events ++ if u = t then es else [] := by
  unfold StateManager.threadLog
  rw [hm.events, List.filter_append]
  congr 1
  by_cases hu : u = t
  · rw [if_pos hu, List.filter_eq_self]
    intro e he
    rw [hm.move.tid e he, hu]
    exact decide_eq_true rfl
  · rw [if_neg hu, List.filter_eq_nil_iff]
    intro e he
    rw [hm.move.tid e he]
    simp [Ne.symm hu]

/-- Every move keeps the books. -/
theorem books_moves {t : Tid} {p : Pc R} {es : List (Event R)}
    {next : DaemonState} (hb : Books s) (hm : Moves s t p es next s') :
    Books s' := by
  obtain ⟨hok, hlog⟩ :=
    hm.move.books hb.stateCb hb.alarmCb (hb.points t)
  refine ⟨hm.stateCb ▸ hb.stateCb, hm.alarmCb ▸ hb.alarmCb, fun u => ?_,
    fun u => ?_, ?_, ?_, ?_⟩
  · by_cases hu : u = t
    · rw [hu, hm.self]
      exact hok
    · rw [hm.others u hu]
      exact hb.points u
  · obtain ⟨calls, hcalls⟩ := hb.logs u
    rw [hm.threadLog, hcalls]
    by_cases hu : u = t
    · subst hu
      rw [if_pos rfl, hm.self, List.append_assoc]
      rcases hlog with hgo | ⟨rfl, o, hend⟩
      · exact ⟨calls, by rw [hgo]⟩
      · -- the call is over: its log joins the finished ones
        refine ⟨calls ++ [o], ?_⟩
        rw [hend, List.flatMap_append]
        simp [inProgress]
    · rw [if_neg hu, hm.others u hu, List.append_nil]
      exact ⟨calls, rfl⟩
  · intro u op prev nx hmem
    rw [hm.events] at hmem
    rcases List.mem_append.mp hmem with hold | hnew
    · exact hb.legal u op prev nx hold
    · rcases hm.move.writes with ⟨-, hno, -⟩ | ⟨op', rfl, hw⟩
      · exact absurd hnew (hno u op prev nx)
      · obtain ⟨rfl, rfl, rfl, rfl⟩ := by simpa using hnew
        exact hw.legal
  · rw [hm.state, hm.events]
    unfold StateManager.writes
    rw [List.filterMap_append]
    rcases hm.move.writes with ⟨hnil, -, rfl⟩ | ⟨op, rfl, -⟩
    · change Chain _ (_ ++ StateManager.writes es) _
      rw [hnil, List.append_nil]
      exact hb.chain
    · exact chain_snoc hb.chain
  · obtain ⟨k, hk, hsum⟩ := hb.alarms
    obtain ⟨k', hk', hex⟩ := standing_move hk hm.others
    have hpaid := hm.move.alarms (hb.points t)
    rw [hm.self] at hex
    refine ⟨k', hk', ?_⟩
    rw [hm.events, List.countP_append, List.countP_append]
    omega

theorem books_operate {a : Act R} (hb : Books s)
    (h : operate a s = some s') : Books s' := by
  rcases operate_cases h with ⟨t, c, -, hidle, rfl⟩ | ⟨t, -, p, es, next, -, hm⟩
  · exact books_call hb hidle
  · exact books_moves hb hm

theorem books_reachable (hr : Reachable operate installed s) : Books s :=
  hr.invariant books_installed books_operate

/-- Once every call has returned, every alarm owed has been raised. -/
theorem Books.alarms_quiet (hb : Books s) (hq : Quiet s) :
    s.events.countP isAlarm = s.events.countP isFaultWrite := by
  obtain ⟨k, hk, hsum⟩ := hb.alarms
  have hk0 := hk.eq_zero fun t => by rw [hq t]; rfl
  omega

end StateManager

end EdgeIpc.Daemon
