/-
Does the last notification tell the truth? An operation writes `state_`
and invokes the callback later, as a separate step, so the notifications
of two calls can arrive in the other order than their writes; a client
that follows `StateChanged` is then left with the older state
(`late_notification_lies`). This file gives the condition under which it
is not.

# The condition

Writes are numbered as they happen. A notification is late when one of a
later write has been delivered before it. `InOrder` asks of a step that
it delivers no late notification; along a run of such steps, whenever no
call is in progress the last notification delivered carries the current
state (`notifications_truthful`).

# The argument

The `Ledger` is read off the events: how many writes there were, which
was each thread's last, and the latest one notified. A thread that is not
between its write and its notification has nothing outstanding
(`NoteInv.delivered`), so at rest the latest write is among those
notified; deliveries in order make it the last (`NoteInv.latest`).
-/
import EdgeIpc.Daemon.Proofs.Books

namespace EdgeIpc.Daemon

open Lib

variable {R : Type}

-- ============================================================== the ledger

/-- The number of writes, the number of each thread's last write, and the
highest number notified. -/
structure Ledger where
  writes : Nat := 0
  mine : Tid → Nat := fun _ => 0
  told : Nat := 0

def Ledger.note (l : Ledger) : Event R → Ledger
  | .wrote t _ _ _ =>
      { l with
        writes := l.writes + 1
        mine := fun u => if u = t then l.writes + 1 else l.mine u }
  | .stateChanged t _ _ => { l with told := max l.told (l.mine t) }
  | _ => l

namespace StateManager

variable {s s' : StateManager R}

def ledger (es : List (Event R)) : Ledger := es.foldl Ledger.note {}

/-- The state the most recent notification carried. -/
def lastNotified (es : List (Event R)) : Option DaemonState :=
  es.foldl
    (fun last e => match e with
      | .stateChanged _ next _ => some next
      | _ => last)
    none

/-- With no call in progress, the last notification (IDLE if there was
none) is the current state. -/
def Truthful (s : StateManager R) : Prop :=
  Quiet s → (lastNotified s.events).getD .idle = s.state

/-- The step delivers no notification after one of a later write. -/
def InOrder (s : StateManager R) (a : Act R) (_ : StateManager R) : Prop :=
  match a with
  | .step t _ =>
      match s.pc t with
      | .callStateCb _ _ _ _ =>
          (ledger s.events).told < (ledger s.events).mine t
      | _ => True
  | _ => True

/-- Events that neither write nor notify. -/
def Silent : Event R → Prop
  | .wrote _ _ _ _ => False
  | .stateChanged _ _ _ => False
  | _ => True

theorem foldl_silent {β : Type} {f : β → Event R → β}
    (hf : ∀ b e, Silent e → f b e = b) :
    ∀ {es : List (Event R)} (b : β), (∀ e ∈ es, Silent e) →
      es.foldl f b = b
  | [], _, _ => rfl
  | e :: es, b, h => by
      obtain ⟨he, hes⟩ := List.forall_mem_cons.mp h
      rw [List.foldl_cons, hf b e he]
      exact foldl_silent hf b hes

/-- Silent events leave the ledger and the last notification. -/
theorem note_silent (es : List (Event R)) {es' : List (Event R)}
    (h : ∀ e ∈ es', Silent e) :
    ledger (es ++ es') = ledger es
      ∧ lastNotified (es ++ es') = lastNotified es := by
  unfold ledger lastNotified
  rw [List.foldl_append, List.foldl_append]
  refine ⟨foldl_silent ?_ _ h, foldl_silent ?_ _ h⟩
  · intro l e he
    cases e <;> first | rfl | cases he
  · intro l e he
    cases e <;> first | rfl | cases he

theorem ledger_snoc (es : List (Event R)) (e : Event R) :
    ledger (es ++ [e]) = (ledger es).note e := by
  unfold ledger
  rw [List.foldl_append]
  rfl

theorem lastNotified_snoc (es : List (Event R)) (t : Tid)
    (next prev : DaemonState) :
    lastNotified (es ++ [.stateChanged t next prev]) = some next := by
  unfold lastNotified
  rw [List.foldl_append]
  rfl

-- ================================================= what a move announces

/-- The state a thread has written and not yet announced. -/
def announcing : Pc R → Option DaemonState
  | .copyStateCb next _ _ => some next
  | .callStateCb next _ _ _ => some next
  | _ => none

theorem announcing_of_deciding {p : Pc R} (hp : Deciding p) :
    announcing p = none := by
  cases p <;> first | rfl | cases hp

/-- A move is silent, or a write, or the delivery of the notification its
thread was about to make. -/
theorem Move.announces {t : Tid} {p : Pc R} {es : List (Event R)}
    {st : DaemonState} (hm : Move s t p es st) (hok : PcOk (s.pc t)) :
    ((∀ e ∈ es, Silent e) ∧ st = s.state
        ∧ announcing p = announcing (s.pc t))
    ∨ (∃ op prev, es = [.wrote t op prev st] ∧ announcing p = some st)
    ∨ (∃ next prev cb alarm rest, s.pc t = .callStateCb next prev cb alarm
        ∧ es = .stateChanged t next prev :: rest
        ∧ (∀ e ∈ rest, Silent e) ∧ st = s.state
        ∧ announcing p = none) := by
  cases hm with
  | look hl =>
      obtain ⟨hpc, hp⟩ := hl.deciding
      refine .inl ⟨nofun, rfl, ?_⟩
      rw [announcing_of_deciding hpc, announcing_of_deciding hp]
  | refuse what prev hpc hprev =>
      rw [hpc]
      exact .inl ⟨List.forall_mem_singleton.mpr trivial, rfl, rfl⟩
  | ignore hpc =>
      rcases hpc with ⟨hpc, -⟩ | ⟨a, hpc, -⟩ <;> rw [hpc] <;>
        exact .inl ⟨List.forall_mem_singleton.mpr trivial, rfl, rfl⟩
  | write hw => exact .inr (.inl ⟨_, _, rfl, rfl⟩)
  | copyState n prev alarm hpc =>
      rw [hpc]
      exact .inl ⟨nofun, rfl, rfl⟩
  | callState n prev cb hpc =>
      rw [hpc] at hok
      obtain ⟨rfl, -⟩ := hok
      exact .inr (.inr ⟨n, prev, true, none, [.returned t], hpc, rfl,
        List.forall_mem_singleton.mpr trivial, rfl, rfl⟩)
  | callStateAlarm n prev cb a hpc =>
      rw [hpc] at hok
      obtain ⟨rfl, -⟩ := hok
      exact .inr (.inr ⟨n, prev, true, some a, [], hpc, rfl, nofun, rfl,
        rfl⟩)
  | copyAlarm a hpc =>
      rw [hpc]
      exact .inl ⟨nofun, rfl, rfl⟩
  | callAlarm a cb hpc =>
      rw [hpc] at hok ⊢
      obtain rfl := hok
      refine .inl ⟨?_, rfl, rfl⟩
      exact List.forall_mem_cons.mpr
        ⟨trivial, List.forall_mem_singleton.mpr trivial⟩

-- ============================================================ the invariant

/-- What the ledger `l` and the last notification say of the state. -/
structure NoteInv (s : StateManager R) (l : Ledger) : Prop where
  mine_le : ∀ t, l.mine t ≤ l.writes
  told_le : l.told ≤ l.writes
  owner : l.writes = 0 ∨ ∃ t, l.mine t = l.writes
  delivered : ∀ t, announcing (s.pc t) = none → l.mine t ≤ l.told
  current : ∀ t next, announcing (s.pc t) = some next →
    l.mine t = l.writes → next = s.state
  latest : l.told = l.writes →
    (lastNotified s.events).getD .idle = s.state

theorem noteInv_installed : NoteInv (installed : StateManager R) {} :=
  ⟨fun _ => Nat.le_refl _, Nat.le_refl _, .inl rfl,
    fun _ _ => Nat.le_refl _, fun _ _ h _ => by injection h,
    fun _ => rfl⟩

/-- A step that leaves the ledger, the state and what every thread has
left to announce keeps the invariant. -/
theorem noteInv_frame {l : Ledger} (hi : NoteInv s l)
    (hstate : s'.state = s.state)
    (hlast : lastNotified s'.events = lastNotified s.events)
    (hpcs : ∀ t, announcing (s'.pc t) = announcing (s.pc t)) :
    NoteInv s' l := by
  refine ⟨hi.mine_le, hi.told_le, hi.owner, ?_, ?_, ?_⟩
  · intro t ht
    exact hi.delivered t (hpcs t ▸ ht)
  · intro t next ht hcur
    rw [hstate]
    exact hi.current t next (hpcs t ▸ ht) hcur
  · intro htold
    rw [hstate, hlast]
    exact hi.latest htold

/-- A write: its number is the highest, and nothing told reaches it. -/
theorem noteInv_write {l : Ledger} {t : Tid} (op : Op)
    (prev : DaemonState) (hi : NoteInv s l)
    (hself : announcing (s'.pc t) = some s'.state)
    (hothers : ∀ u, u ≠ t → s'.pc u = s.pc u) :
    NoteInv s' (l.note (.wrote t op prev s'.state : Event R)) := by
  have hmine : ∀ u, u ≠ t →
      (l.note (.wrote t op prev s'.state : Event R)).mine u = l.mine u :=
    fun u hu => if_neg hu
  have hself' :
      (l.note (.wrote t op prev s'.state : Event R)).mine t
        = l.writes + 1 := if_pos rfl
  have hle := hi.told_le
  refine ⟨fun u => ?_, Nat.le_succ_of_le hle, .inr ⟨t, hself'⟩, fun u hu => ?_,
    fun u next hu hcur => ?_, fun htold => ?_⟩
  · by_cases hut : u = t
    · rw [hut, hself']
      exact Nat.le_refl _
    · rw [hmine u hut]
      exact Nat.le_succ_of_le (hi.mine_le u)
  · by_cases hut : u = t
    · rw [hut, hself] at hu
      cases hu
    · rw [hmine u hut]
      rw [hothers u hut] at hu
      exact hi.delivered u hu
  · by_cases hut : u = t
    · rw [hut, hself] at hu
      exact (Option.some.inj hu).symm
    · rw [hmine u hut] at hcur
      have := hi.mine_le u
      change l.mine u = l.writes + 1 at hcur
      omega
  · change l.told = l.writes + 1 at htold
    omega

/-- A delivery in order: what is told is now the deliverer's write. -/
theorem noteInv_announce {l : Ledger} {t : Tid}
    {next prev : DaemonState} (hi : NoteInv s l)
    (hpc : announcing (s.pc t) = some next) (hord : l.told < l.mine t)
    (hstate : s'.state = s.state) (hself : announcing (s'.pc t) = none)
    (hothers : ∀ u, u ≠ t → s'.pc u = s.pc u)
    (hlast : lastNotified s'.events = some next) :
    NoteInv s' (l.note (.stateChanged t next prev : Event R)) := by
  have htold : (l.note (.stateChanged t next prev : Event R)).told
      = l.mine t := Nat.max_eq_right (Nat.le_of_lt hord)
  refine ⟨hi.mine_le, ?_, hi.owner, fun u hu => ?_, fun u nx hu hcur => ?_,
    fun hall => ?_⟩
  · rw [htold]
    exact hi.mine_le t
  · rw [htold]
    by_cases hut : u = t
    · rw [hut]
      exact Nat.le_refl _
    · rw [hothers u hut] at hu
      exact Nat.le_trans (hi.delivered u hu) (Nat.le_of_lt hord)
  · by_cases hut : u = t
    · rw [hut, hself] at hu
      cases hu
    · rw [hothers u hut] at hu
      rw [hstate]
      exact hi.current u nx hu hcur
  · rw [htold] at hall
    rw [hlast, hstate]
    exact hi.current t next hpc hall

/-- A step that delivers no late notification keeps the invariant. -/
theorem noteInv_operate {a : Act R} (hb : Books s)
    (hi : NoteInv s (ledger s.events)) (h : operate a s = some s')
    (hord : InOrder s a s') : NoteInv s' (ledger s'.events) := by
  rcases operate_cases h with
    ⟨t, c, -, hidle, rfl⟩ | ⟨t, spurious, p, es, st, rfl, hm⟩
  · refine noteInv_frame hi rfl rfl fun u => ?_
    by_cases hu : u = t
    · rw [hu, goto_pc_self, announcing_of_deciding (deciding_entry c), hidle]
      rfl
    · rw [goto_pc_ne _ _ hu]
  · rcases hm.move.announces (hb.points t) with
      ⟨hsil, rfl, hann⟩ | ⟨op, prev, rfl, hann⟩
        | ⟨next, prev, cb, alarm, rest, hpc, rfl, hsil, rfl, hann⟩
    · obtain ⟨hledger, hlast⟩ := note_silent s.events hsil
      rw [hm.events, hledger]
      refine noteInv_frame hi hm.state (hm.events ▸ hlast) fun u => ?_
      by_cases hu : u = t
      · rw [hu, hm.self, hann]
      · rw [hm.others u hu]
    · have hself : announcing (s'.pc t) = some s'.state := by
        rw [hm.self, hann, hm.state]
      have hw := noteInv_write op prev hi hself hm.others
      rw [hm.state] at hw
      rw [hm.events, ledger_snoc]
      exact hw
    · obtain ⟨hledger, hlast⟩ :=
        note_silent (s.events ++ [.stateChanged t next prev]) hsil
      have hev : s'.events
          = s.events ++ [.stateChanged t next prev] ++ rest := by
        rw [hm.events, List.append_assoc]
        rfl
      rw [hev, hledger, ledger_snoc]
      refine noteInv_announce hi (by rw [hpc]; rfl) ?_ hm.state
        (by rw [hm.self, hann]) hm.others ?_
      · simpa only [InOrder, hpc] using hord
      · rw [hev, hlast, lastNotified_snoc]

/-- At rest everything written has been told. -/
theorem NoteInv.truthful {l : Ledger} (hi : NoteInv s l) : Truthful s := by
  intro hq
  refine hi.latest (Nat.le_antisymm hi.told_le ?_)
  rcases hi.owner with h0 | ⟨t, ht⟩
  · omega
  · rw [← ht]
    exact hi.delivered t (by rw [hq t]; rfl)

-- ================================================================ every run

/-- Along any run of any number of threads in which no notification is
delivered after that of a later write, whenever no call is in progress
the most recently delivered `StateChanged` carries the current state. -/
theorem notifications_truthful (as : List (Act R))
    (has : AllSteps operate InOrder as installed) :
    AllStates operate Truthful as (installed : StateManager R) := by
  refine allStates_of_allSteps
    (fun (hi : Books _ ∧ NoteInv _ (ledger _)) h hord =>
      ⟨books_operate hi.1 h, noteInv_operate hi.1 hi.2 h hord⟩)
    (fun hi => hi.2.truthful) ⟨books_installed, noteInv_installed⟩ has

/-- The bus thread (0) starts the daemon; between its write and its
callback the main loop (1) runs a whole `fault`. -/
def lateStart : List (Act Nat) :=
  [.call 0 .start, .step 0 false, .step 0 false,
    .call 1 (.fault ⟨"sensor0", 90, 80⟩), .step 1 false, .step 1 false,
    .step 1 false, .step 1 false, .step 1 false,
    .step 0 false, .step 0 false]

/-- The late notification: the daemon is in FAULT, at rest, and the last
it has said is RUNNING. -/
theorem late_notification_lies :
    ∃ s : StateManager Nat, exec operate lateStart installed = some s
      ∧ s.state = .fault ∧ Quiet s
      ∧ lastNotified s.events = some .running
      ∧ ¬ AllStates operate Truthful lateStart installed := by
  have hrun : exec operate lateStart installed = some _ := rfl
  have hquiet : ∀ {s}, exec operate lateStart installed = some s →
      Quiet s := by
    intro s h t
    injection h with h
    rw [← h]
    match t with
    | 0 => rfl
    | 1 => rfl
    | _ + 2 => rfl
  refine ⟨_, hrun, rfl, hquiet hrun, rfl, fun hall => ?_⟩
  have hlie := hall.last hrun (hquiet hrun)
  cases hlie

/-- The same two calls, the bus thread's notification in time. -/
def timelyStart : List (Act Nat) :=
  [.call 0 .start, .step 0 false, .step 0 false, .step 0 false,
    .step 0 false, .call 1 (.fault ⟨"sensor0", 90, 80⟩), .step 1 false,
    .step 1 false, .step 1 false, .step 1 false, .step 1 false]

/-- Every notification of that run is in order, so it ends on the
truth. -/
theorem notifications_truthful_timely :
    AllStates operate Truthful timelyStart installed := by
  refine notifications_truthful timelyStart ?_
  -- the calls and the accesses before the first delivery
  refine .cons rfl trivial (.cons rfl trivial (.cons rfl trivial
    (.cons rfl trivial ?_)))
  refine .cons rfl (Nat.lt_succ_self 0) (.cons rfl trivial (.cons rfl trivial
    (.cons rfl trivial ?_)))
  exact .cons rfl (Nat.lt_succ_self 1) (.cons rfl trivial
    (.cons rfl trivial trivial))

end StateManager

end EdgeIpc.Daemon
