/-
Does every subscriber see the stream? The queue is shared and a pop is
destructive, so a snapshot goes to one call only, whichever pops first
(`second_subscriber_misses`). This file says exactly which runs give each
call everything pushed while it is connected and popping.

# The law and the condition

A call subscribes when it first comes to `PopSnapshot` and is subscribed
until it ends (`Subscribed`): before, it has not looked at the queue, and
after, there is nobody to deliver to. `Served` is the law for the calls
subscribed: what was delivered to one of the snapshots pushed since it
subscribed, with the one it is writing, is the list of those snapshots,
in push order, without the evicted ones and those still queued. `Fair`
asks of a step that it takes no snapshot away from another subscriber: a
popped snapshot was pushed before every other call still subscribed had
subscribed. `every_subscriber_served_iff` is the equivalence over runs.

# The argument

What has left the queue is a prefix of what was pushed (`StreamInv.split`),
so `due` is a filter over that prefix (`due_eq`), and it grows by at most
the one entry that leaves: not by an evicted one (`due_push`), by a popped
one for each call that had subscribed before (`due_pop`). So after a pop
the law still holds for the popping call, and for another subscriber
exactly when the entry is not due to it.
-/
import EdgeIpc.Lib.Run
import EdgeIpc.Sdn.StreamQueue

namespace EdgeIpc.Sdn.StreamQueue

open Lib

variable {S : Type} {s s' : StreamQueue S}

-- ================================================================== the law

/-- The call has arrived and not ended. -/
def Connected : StreamPc S → Prop
  | .absent => False
  | .ended => False
  | _ => True

/-- The entry a call has popped and not yet written. -/
def inHand : StreamPc S → List (Nat × S)
  | .writing entry => [entry]
  | _ => []

/-- Call `c` is connected, and popping since `n` snapshots had been
pushed. -/
structure Subscribed (s : StreamQueue S) (c n : Nat) : Prop where
  connected : Connected (s.calls c)
  joined : s.joined c = some n

/-- What call `c` has got of the snapshots from number `n` on. -/
def got (s : StreamQueue S) (c n : Nat) : List (Nat × S) :=
  (s.delivered c ++ inHand (s.calls c)).filter fun e => n ≤ e.1

/-- What a call popping since number `n` should have got: every snapshot
pushed since then that was not evicted and is no longer queued. -/
def due (s : StreamQueue S) (n : Nat) : List (Nat × S) :=
  s.pushed.filter fun e =>
    n ≤ e.1 ∧ e.1 ∉ s.evicted ∧ e.1 ∉ s.queue.map Prod.fst

/-- Every subscriber has got what it should, once and in order. -/
def Served (s : StreamQueue S) : Prop :=
  ∀ c n, Subscribed s c n → s.got c n = s.due n

/-- The step pops no snapshot that another call, popping since before it
was pushed and connected still, is waiting for. -/
def Fair (s : StreamQueue S) (a : StreamAct S) (_ : StreamQueue S) :
    Prop :=
  ∀ c giveUp entry rest, a = .pop c giveUp → s.queue = entry :: rest →
    ∀ d n, d ≠ c → Subscribed s d n → entry.1 < n

-- ============================================================ the invariant

/-- A call that has not yet come to `PopSnapshot`, or has left. -/
def Unpopped : StreamPc S → Prop
  | .absent => True
  | .checking => True
  | .ended => True
  | _ => False

/-- `gone` are the entries that have left the queue. -/
structure StreamInv (s : StreamQueue S) (gone : List (Nat × S)) : Prop where
  split : s.pushed = gone ++ s.queue
  numbered : ∀ (i : Nat) (e : Nat × S), s.pushed[i]? = some e → e.1 = i
  evicted : ∀ n ∈ s.evicted, n < gone.length
  absent : ∀ c, s.calls c = .absent → s.joined c = none
  fresh : ∀ c, s.joined c = none →
    s.delivered c = [] ∧ Unpopped (s.calls c)

theorem streamInv_init : StreamInv (init : StreamQueue S) [] :=
  ⟨rfl, nofun, nofun, fun _ _ => rfl, fun _ _ => ⟨rfl, trivial⟩⟩

/-- An entry that has left has a smaller number than those inside. -/
theorem StreamInv.gone_lt {gone : List (Nat × S)} (hi : StreamInv s gone)
    {e : Nat × S} (he : e ∈ gone) : e.1 < gone.length := by
  obtain ⟨i, hlt, hget⟩ := List.getElem_of_mem he
  have hpush : s.pushed[i]? = some e := by
    rw [hi.split, List.getElem?_append_left hlt,
      List.getElem?_eq_getElem hlt, hget]
  rw [hi.numbered i e hpush]
  exact hlt

theorem StreamInv.queue_le {gone : List (Nat × S)} (hi : StreamInv s gone)
    {e : Nat × S} (he : e ∈ s.queue) : gone.length ≤ e.1 := by
  obtain ⟨i, hlt, hget⟩ := List.getElem_of_mem he
  have hpush : s.pushed[gone.length + i]? = some e := by
    rw [hi.split, List.getElem?_append_right (Nat.le_add_right _ _),
      Nat.add_sub_cancel_left, List.getElem?_eq_getElem hlt, hget]
  rw [hi.numbered _ e hpush]
  exact Nat.le_add_right _ _

/-- The front entry's number is the number of entries gone. -/
theorem StreamInv.front {gone : List (Nat × S)} (hi : StreamInv s gone)
    {entry : Nat × S} {rest : List (Nat × S)}
    (hq : s.queue = entry :: rest) : entry.1 = gone.length := by
  refine hi.numbered gone.length entry ?_
  rw [hi.split, hq, List.getElem?_append_right (Nat.le_refl _),
    Nat.sub_self]
  rfl

/-- Only what has left can be due. -/
theorem due_eq {gone : List (Nat × S)} (hi : StreamInv s gone) (n : Nat) :
    s.due n = gone.filter fun e => n ≤ e.1 ∧ e.1 ∉ s.evicted := by
  unfold due
  rw [hi.split, List.filter_append]
  have hqueued : s.queue.filter (fun e => decide (n ≤ e.1
      ∧ e.1 ∉ s.evicted ∧ e.1 ∉ s.queue.map Prod.fst)) = [] := by
    rw [List.filter_eq_nil_iff]
    intro e he
    have hmem : e.1 ∈ s.queue.map Prod.fst := List.mem_map_of_mem he
    simp [hmem]
  rw [hqueued, List.append_nil]
  refine List.filter_congr fun e he => ?_
  have hout : e.1 ∉ s.queue.map Prod.fst := by
    intro hmem
    obtain ⟨e', he', heq⟩ := List.mem_map.mp hmem
    have hlt := hi.gone_lt he
    have hle := hi.queue_le he'
    omega
  simp [hout]

-- ======================================================= what a step does

theorem goto_self (s : StreamQueue S) (c : Nat) (p : StreamPc S) :
    (s.goto c p).calls c = p := if_pos rfl

theorem goto_ne (s : StreamQueue S) {c d : Nat} (p : StreamPc S)
    (h : d ≠ c) : (s.goto c p).calls d = s.calls d := if_neg h

theorem absent_of_goto {c d : Nat} {p : StreamPc S}
    (h : (s.goto c p).calls d = .absent) (hp : p ≠ .absent) :
    d ≠ c ∧ s.calls d = .absent := by
  have hdc : d ≠ c := by
    rintro rfl
    rw [goto_self] at h
    exact hp h
  rw [goto_ne _ _ hdc] at h
  exact ⟨hdc, h⟩

theorem got_goto_ne (s : StreamQueue S) {c d : Nat} (p : StreamPc S)
    (n : Nat) (h : d ≠ c) : (s.goto c p).got d n = s.got d n := by
  unfold got
  rw [goto_ne _ _ h]
  rfl

theorem subscribed_goto_ne (s : StreamQueue S) {c d n : Nat}
    (p : StreamPc S) (h : d ≠ c) :
    Subscribed (s.goto c p) d n ↔ Subscribed s d n := by
  constructor
  · rintro ⟨hconn, hj⟩
    rw [goto_ne _ _ h] at hconn
    exact ⟨hconn, hj⟩
  · rintro ⟨hconn, hj⟩
    rw [← goto_ne s p h] at hconn
    exact ⟨hconn, hj⟩

/-- A step that moves no snapshot between the queue and a call: what a
call has got stays, unless the call ends. -/
structure Passes (s s' : StreamQueue S) : Prop where
  queue : s'.queue = s.queue
  pushed : s'.pushed = s.pushed
  evicted : s'.evicted = s.evicted
  joined : s'.joined = s.joined
  got : ∀ d, Connected (s'.calls d) → Connected (s.calls d)
    ∧ s'.delivered d ++ inHand (s'.calls d)
      = s.delivered d ++ inHand (s.calls d)
  absent : ∀ d, s'.calls d = .absent → s.calls d = .absent
  fresh : ∀ d, s.joined d = none → Unpopped (s.calls d) →
    s'.delivered d = s.delivered d ∧ Unpopped (s'.calls d)

/-- Call `c` goes from one point of its loop to another with the same
entry in hand. -/
theorem passes_goto {c : Nat} {p : StreamPc S}
    (hold : Connected (s.calls c)) (hp : p ≠ .absent)
    (hhand : Connected p → inHand p = inHand (s.calls c))
    (hun : s.joined c = none → Unpopped p) :
    Passes s (s.goto c p) := by
  refine ⟨rfl, rfl, rfl, rfl, fun d hd => ?_,
    fun d hd => (absent_of_goto hd hp).2, fun d hj hd => ⟨rfl, ?_⟩⟩
  · by_cases hdc : d = c
    · subst hdc
      rw [goto_self] at hd ⊢
      exact ⟨hold, by rw [hhand hd]; rfl⟩
    · rw [goto_ne _ _ hdc] at hd ⊢
      exact ⟨hd, rfl⟩
  · by_cases hdc : d = c
    · subst hdc
      rw [goto_self]
      exact hun hj
    · rw [goto_ne _ _ hdc]
      exact hd

/-- A written entry goes from the call's hand to what was delivered. -/
theorem passes_write {c : Nat} {entry : Nat × S}
    (hc : s.calls c = .writing entry) :
    Passes s (s.deliver c entry) := by
  refine ⟨rfl, rfl, rfl, rfl, fun d hd => ?_,
    fun d hd => (absent_of_goto hd nofun).2, fun d _ hd => ?_⟩
  · by_cases hdc : d = c
    · subst hdc
      unfold deliver
      rw [goto_self, hc]
      refine ⟨trivial, ?_⟩
      show (if d = d then s.delivered d ++ [entry] else _) ++ []
        = s.delivered d ++ [entry]
      rw [if_pos rfl, List.append_nil]
    · unfold deliver at hd ⊢
      rw [goto_ne _ _ hdc] at hd ⊢
      refine ⟨hd, ?_⟩
      show (if d = c then _ else s.delivered d) ++ _ = _
      rw [if_neg hdc]
  · by_cases hdc : d = c
    · subst hdc
      rw [hc] at hd
      cases hd
    · unfold deliver
      rw [goto_ne _ _ hdc]
      exact ⟨if_neg hdc, hd⟩

/-- What a step is: a push, an arrival, a first `PopSnapshot`, a pop of
the front entry, or a step that moves no snapshot. -/
inductive StreamMove (s : StreamQueue S) :
    StreamAct S → StreamQueue S → Prop
  | push {snap : S} : StreamMove s (.push snap) (s.pushSnapshot snap)
  | connect {c : Nat} (hc : s.calls c = .absent) :
      StreamMove s (.connect c) (s.goto c .checking)
  | subscribe {c : Nat} (hj : s.joined c = none) :
      StreamMove s (.check c true) (s.subscribe c)
  | pop {c : Nat} {giveUp : Bool} {entry : Nat × S}
      {rest : List (Nat × S)} (hc : s.calls c = .popping)
      (hq : s.queue = entry :: rest) :
      StreamMove s (.pop c giveUp)
        (({ s with queue := rest }).goto c (.writing entry))
  | pass {a : StreamAct S} {s' : StreamQueue S} (hp : Passes s s')
      (hempty : ∀ c giveUp, a = .pop c giveUp → s.queue = []) :
      StreamMove s a s'

/-- The check lets the call on to `PopSnapshot`. -/
theorem enter_move {c : Nat} (hc : s.calls c = .checking) :
    StreamMove s (.check c true) (s.enter c) := by
  unfold enter
  cases hj : s.joined c with
  | none => exact .subscribe hj
  | some n =>
      refine .pass ?_ nofun
      apply passes_goto
      · rw [hc]
        trivial
      · exact nofun
      · intro _
        rw [hc]
        rfl
      · intro hnone
        rw [hj] at hnone
        cases hnone

/-- A connected call ends. -/
theorem passes_end {c : Nat} (hc : Connected (s.calls c)) :
    Passes s (s.goto c .ended) :=
  passes_goto hc nofun nofun fun _ => trivial

theorem popSnapshot_move {c : Nat} {giveUp : Bool}
    (hc : s.calls c = .popping) (h : s.popSnapshot c giveUp = some s') :
    StreamMove s (.pop c giveUp) s' := by
  unfold popSnapshot at h
  split at h
  next entry rest hq =>
    injection h with h
    subst h
    exact .pop hc hq
  next hq =>
    split at h
    next =>
      injection h with h
      subst h
      refine .pass ?_ fun _ _ _ => hq
      apply passes_goto
      · rw [hc]
        trivial
      · exact nofun
      · intro _
        rw [hc]
        rfl
      · exact fun _ => trivial
    next => cases h

theorem step_move {a : StreamAct S} (h : step a s = some s') :
    StreamMove s a s' := by
  cases a with
  | push snap =>
      injection h with h
      subst h
      exact .push
  | connect c =>
      simp only [step] at h
      split at h
      next hc =>
        injection h with h
        subst h
        exact .connect hc
      next => cases h
  | check c proceed =>
      simp only [step] at h
      split at h
      next hc =>
        injection h with h
        subst h
        cases proceed with
        | true => exact enter_move hc
        | false => exact .pass (passes_end (by rw [hc]; trivial)) nofun
      next => cases h
  | pop c giveUp =>
      simp only [step] at h
      split at h
      next hc => exact popSnapshot_move hc h
      next => cases h
  | write c ok =>
      simp only [step] at h
      split at h
      next entry hc =>
        injection h with h
        subst h
        cases ok with
        | true => exact .pass (passes_write hc) nofun
        | false => exact .pass (passes_end (by rw [hc]; trivial)) nofun
      next => cases h

/-- Only a push adds to the snapshots pushed. -/
theorem pushed_of_not_push {a : StreamAct S} (ha : ∀ snap, a ≠ .push snap)
    (h : step a s = some s') : s'.pushed = s.pushed := by
  cases step_move h with
  | push => exact absurd rfl (ha _)
  | connect _ => rfl
  | subscribe _ => rfl
  | pop _ _ => rfl
  | pass hp _ => exact hp.pushed

-- =========================================================== step by step

/-- What a push puts out of the queue. -/
def pushedOut (s : StreamQueue S) : List (Nat × S) :=
  if streamQueueCap ≤ s.queue.length then s.queue.take 1 else []

/-- A push joins the back of the queue; a full queue loses its front
first, and the loss is recorded. -/
theorem pushSnapshot_cases (s : StreamQueue S) (snap : S) :
    (s.queue.length < streamQueueCap ∧ pushedOut s = []
        ∧ (s.pushSnapshot snap).queue = s.queue ++ [(s.pushed.length, snap)]
        ∧ (s.pushSnapshot snap).evicted = s.evicted)
      ∨ ∃ entry rest, streamQueueCap ≤ s.queue.length
        ∧ s.queue = entry :: rest ∧ pushedOut s = [entry]
        ∧ (s.pushSnapshot snap).queue = rest ++ [(s.pushed.length, snap)]
        ∧ (s.pushSnapshot snap).evicted = s.evicted ++ [entry.1] := by
  by_cases hfull : streamQueueCap ≤ s.queue.length
  · simp only [pushSnapshot, pushedOut, if_pos hfull]
    cases hq : s.queue with
    | nil =>
        rw [hq] at hfull
        cases hfull
    | cons entry rest =>
        rw [hq] at hfull
        exact .inr ⟨entry, rest, hfull, rfl, rfl, rfl, rfl⟩
  · simp only [pushSnapshot, pushedOut, if_neg hfull]
    exact .inl ⟨Nat.lt_of_not_le hfull, trivial, trivial, trivial⟩

theorem streamInv_push {gone : List (Nat × S)} (hi : StreamInv s gone)
    (snap : S) :
    StreamInv (s.pushSnapshot snap) (gone ++ pushedOut s) := by
  refine ⟨?_, ?_, ?_, hi.absent, hi.fresh⟩
  · show s.pushed ++ [_] = gone ++ pushedOut s ++ (s.pushSnapshot snap).queue
    rw [hi.split]
    rcases pushSnapshot_cases s snap with ⟨-, hout, hqueue, -⟩
      | ⟨entry, rest, -, hq, hout, hqueue, -⟩
    · rw [hout, hqueue, List.append_nil, List.append_assoc, hi.split]
    · rw [hout, hqueue, hi.split, hq, List.append_cons gone entry rest,
        List.append_assoc]
  · intro i e he
    change (s.pushed ++ [_])[i]? = some e at he
    by_cases hlt : i < s.pushed.length
    · rw [List.getElem?_append_left hlt] at he
      exact hi.numbered i e he
    · obtain ⟨hle, -⟩ := List.getElem?_eq_some_iff.mp he
      rw [List.length_append, List.length_singleton] at hle
      obtain rfl : i = s.pushed.length := by omega
      simp only [List.getElem?_append_right (Nat.le_refl _), Nat.sub_self,
        List.getElem?_cons_zero, Option.some.injEq] at he
      rw [← he]
  · intro n hn
    rw [List.length_append]
    rcases pushSnapshot_cases s snap with ⟨-, -, -, hev⟩
      | ⟨entry, rest, -, hq, hout, -, hev⟩
    · rw [hev] at hn
      exact Nat.lt_of_lt_of_le (hi.evicted n hn) (Nat.le_add_right _ _)
    · rw [hev] at hn
      rw [hout, List.length_singleton]
      rcases List.mem_append.mp hn with hold | hnew
      · exact Nat.lt_succ_of_lt (hi.evicted n hold)
      · rw [List.mem_singleton.mp hnew, hi.front hq]
        exact Nat.lt_succ_self _

/-- A push makes nothing due: the new entry is queued, and what it puts
out is evicted. -/
theorem due_push {gone : List (Nat × S)} (hi : StreamInv s gone)
    (snap : S) (n : Nat) : (s.pushSnapshot snap).due n = s.due n := by
  rw [due_eq (streamInv_push hi snap), due_eq hi, List.filter_append]
  rcases pushSnapshot_cases s snap with ⟨-, hout, -, hev⟩
    | ⟨entry, rest, -, hq, hout, -, hev⟩
  · rw [hev, hout, List.filter_nil, List.append_nil]
  · rw [hev, hout]
    have hgone : [entry].filter (fun e => decide (n ≤ e.1
        ∧ e.1 ∉ s.evicted ++ [entry.1])) = [] := by
      simp
    rw [hgone, List.append_nil]
    refine List.filter_congr fun e he => ?_
    have hne : e.1 ≠ entry.1 := by
      have hlt := hi.gone_lt he
      rw [hi.front hq]
      omega
    simp [hne]

/-- A pop by `c` makes the entry due to every call that had subscribed
before its push. -/
theorem due_pop {gone : List (Nat × S)} (hi : StreamInv s gone)
    {c : Nat} {entry : Nat × S} {rest : List (Nat × S)}
    (hc : s.calls c = .popping) (hq : s.queue = entry :: rest) :
    StreamInv (({ s with queue := rest }).goto c (.writing entry))
        (gone ++ [entry])
      ∧ ∀ n, (({ s with queue := rest }).goto c (.writing entry)).due n
        = s.due n ++ if n ≤ entry.1 then [entry] else [] := by
  have hinv : StreamInv (({ s with queue := rest }).goto c (.writing entry))
      (gone ++ [entry]) := by
    refine ⟨?_, hi.numbered, ?_,
      fun d hd => hi.absent d (absent_of_goto hd nofun).2, fun d hj => ?_⟩
    · show s.pushed = gone ++ [entry] ++ rest
      rw [hi.split, hq, List.append_assoc]
      rfl
    · intro n hn
      rw [List.length_append]
      exact Nat.lt_of_lt_of_le (hi.evicted n hn) (Nat.le_add_right _ _)
    · obtain ⟨hdel, hun⟩ := hi.fresh d hj
      by_cases hdc : d = c
      · subst hdc
        rw [hc] at hun
        cases hun
      · rw [goto_ne _ _ hdc]
        exact ⟨hdel, hun⟩
  refine ⟨hinv, fun n => ?_⟩
  rw [due_eq hinv, due_eq hi, List.filter_append]
  congr 1
  have hnot : entry.1 ∉ s.evicted := by
    intro hmem
    have hlt := hi.evicted _ hmem
    rw [hi.front hq] at hlt
    omega
  show [entry].filter (fun e => decide (n ≤ e.1 ∧ e.1 ∉ s.evicted)) = _
  by_cases hle : n ≤ entry.1
  · simp [hle, hnot]
  · simp [hle]

theorem streamInv_connect {gone : List (Nat × S)} {c : Nat}
    (hi : StreamInv s gone) :
    StreamInv (s.goto c .checking) gone := by
  refine ⟨hi.split, hi.numbered, hi.evicted,
    fun d hd => hi.absent d (absent_of_goto hd nofun).2, fun d hj => ?_⟩
  obtain ⟨hdel, hun⟩ := hi.fresh d hj
  refine ⟨hdel, ?_⟩
  by_cases hdc : d = c
  · subst hdc
    rw [goto_self]
    trivial
  · rw [goto_ne _ _ hdc]
    exact hun

theorem subscribe_joined (s : StreamQueue S) (c : Nat) :
    (s.subscribe c).joined c = some s.pushed.length := if_pos rfl

theorem subscribe_joined_ne (s : StreamQueue S) {c d : Nat} (h : d ≠ c) :
    (s.subscribe c).joined d = s.joined d := if_neg h

theorem streamInv_subscribe {gone : List (Nat × S)} {c : Nat}
    (hi : StreamInv s gone) : StreamInv (s.subscribe c) gone := by
  refine ⟨hi.split, hi.numbered, hi.evicted, fun d hd => ?_, fun d hj => ?_⟩
  · obtain ⟨hdc, hold⟩ := absent_of_goto hd nofun
    rw [subscribe_joined_ne s hdc]
    exact hi.absent d hold
  · by_cases hdc : d = c
    · subst hdc
      rw [subscribe_joined] at hj
      cases hj
    · rw [subscribe_joined_ne s hdc] at hj
      unfold subscribe
      rw [goto_ne _ _ hdc]
      exact hi.fresh d hj

theorem streamInv_passes {gone : List (Nat × S)} (hi : StreamInv s gone)
    (hp : Passes s s') : StreamInv s' gone := by
  refine ⟨?_, ?_, ?_, fun d hd => ?_, fun d hj => ?_⟩
  · rw [hp.pushed, hp.queue]
    exact hi.split
  · rw [hp.pushed]
    exact hi.numbered
  · rw [hp.evicted]
    exact hi.evicted
  · rw [hp.joined]
    exact hi.absent d (hp.absent d hd)
  · rw [hp.joined] at hj
    obtain ⟨hdel, hun⟩ := hi.fresh d hj
    obtain ⟨hsame, hun'⟩ := hp.fresh d hj hun
    exact ⟨hsame.trans hdel, hun'⟩

/-- Every step keeps the books of the queue. -/
theorem streamInv_step {gone : List (Nat × S)} {a : StreamAct S}
    (hi : StreamInv s gone) (h : step a s = some s') :
    ∃ gone', StreamInv s' gone' := by
  cases step_move h with
  | push => exact ⟨_, streamInv_push hi _⟩
  | connect _ => exact ⟨_, streamInv_connect hi⟩
  | subscribe _ => exact ⟨_, streamInv_subscribe hi⟩
  | pop hc hq => exact ⟨_, (due_pop hi hc hq).1⟩
  | pass hp _ => exact ⟨_, streamInv_passes hi hp⟩

-- ============================================================== who is served

/-- A push changes nothing for anybody. -/
theorem served_push {gone : List (Nat × S)} (hi : StreamInv s gone)
    (hs : Served s) (snap : S) : Served (s.pushSnapshot snap) := by
  intro c n hc
  rw [due_push hi]
  exact hs c n ⟨hc.connected, hc.joined⟩

/-- A call that arrives is not yet a subscriber. -/
theorem served_connect {gone : List (Nat × S)} {c : Nat}
    (hi : StreamInv s gone) (hs : Served s) (hc : s.calls c = .absent) :
    Served (s.goto c .checking) := by
  intro d n hd
  have hdc : d ≠ c := by
    rintro rfl
    have hnone := hi.absent d hc
    rw [show s.joined d = some n from hd.joined] at hnone
    cases hnone
  rw [got_goto_ne _ _ _ hdc]
  exact hs d n ((subscribed_goto_ne s _ hdc).mp hd)

/-- A call that subscribes has got nothing, and nothing is due to it. -/
theorem served_subscribe {gone : List (Nat × S)} {c : Nat}
    (hi : StreamInv s gone) (hs : Served s) (hj : s.joined c = none) :
    Served (s.subscribe c) := by
  intro d n hd
  by_cases hdc : d = c
  · subst hdc
    have hn : n = s.pushed.length := by
      have hjoined := hd.joined
      rw [subscribe_joined] at hjoined
      exact (Option.some.inj hjoined).symm
    have hgot : (s.subscribe d).got d n = [] := by
      unfold got
      have hdel : (s.subscribe d).delivered d = [] := (hi.fresh d hj).1
      have hcall : (s.subscribe d).calls d = .popping := goto_self _ _ _
      rw [hdel, hcall]
      rfl
    rw [hgot, due_eq (streamInv_subscribe hi)]
    symm
    rw [List.filter_eq_nil_iff]
    intro e he
    have hlt := hi.gone_lt he
    have hlen : s.pushed.length = gone.length + s.queue.length := by
      rw [hi.split, List.length_append]
    simp only [decide_eq_true_eq]
    omega
  · obtain ⟨hconn, hjoined⟩ := (subscribed_goto_ne _ _ hdc).mp hd
    have hold : Subscribed s d n := by
      refine ⟨hconn, ?_⟩
      rw [← subscribe_joined_ne s hdc]
      exact hjoined
    unfold subscribe
    rw [got_goto_ne _ _ _ hdc]
    exact hs d n hold

/-- After a pop by `c`, a subscriber is served exactly when the entry was
its own or not due to it. -/
theorem served_pop {gone : List (Nat × S)} (hi : StreamInv s gone)
    (hs : Served s) {c : Nat} {entry : Nat × S} {rest : List (Nat × S)}
    (hc : s.calls c = .popping) (hq : s.queue = entry :: rest) :
    Served (({ s with queue := rest }).goto c (.writing entry))
      ↔ ∀ d n, d ≠ c → Subscribed s d n → entry.1 < n := by
  have hdue := (due_pop hi hc hq).2
  constructor
  · intro hs' d n hdc hd
    have hd' := (subscribed_goto_ne { s with queue := rest }
      (.writing entry) hdc).mpr ⟨hd.connected, hd.joined⟩
    have hnew := hs' d n hd'
    have hold : StreamQueue.got { s with queue := rest } d n = s.due n :=
      hs d n hd
    -- the call got nothing new, so nothing new can be due
    rw [hdue n, got_goto_ne _ _ _ hdc, hold] at hnew
    by_cases hle : n ≤ entry.1
    · rw [if_pos hle] at hnew
      exact absurd (List.self_eq_append_right.mp hnew) (List.cons_ne_nil _ _)
    · omega
  · intro hfair d n hd
    rw [hdue n]
    by_cases hdc : d = c
    · subst hdc
      have hold := hs d n ⟨by rw [hc]; trivial, hd.joined⟩
      unfold got at hold
      rw [hc] at hold
      change (s.delivered d ++ []).filter _ = _ at hold
      rw [List.append_nil] at hold
      unfold got
      rw [goto_self]
      show (s.delivered d ++ [entry]).filter _ = _
      rw [List.filter_append, ← hold]
      congr 1
      by_cases hle : n ≤ entry.1
      · simp [hle]
      · simp [hle]
    · obtain ⟨hconn, hjoined⟩ := (subscribed_goto_ne _ _ hdc).mp hd
      have hold : Subscribed s d n := ⟨hconn, hjoined⟩
      have hlt := hfair d n hdc hold
      rw [if_neg (by omega), List.append_nil, got_goto_ne _ _ _ hdc]
      exact hs d n hold

/-- A step that moves no snapshot changes nothing for a call that stays
connected. -/
theorem served_passes {gone : List (Nat × S)} (hi : StreamInv s gone)
    (hs : Served s) (hp : Passes s s') : Served s' := by
  intro d n hd
  obtain ⟨hconn, hgot⟩ := hp.got d hd.connected
  have hold := hs d n ⟨hconn, hp.joined ▸ hd.joined⟩
  rw [due_eq hi] at hold
  rw [due_eq (streamInv_passes hi hp), hp.evicted]
  unfold got at hold ⊢
  rw [hgot]
  exact hold

/-- A fair step keeps everybody served. -/
theorem served_step {a : StreamAct S}
    (hk : (∃ gone, StreamInv s gone) ∧ Served s) (h : step a s = some s')
    (hfair : Fair s a s') : (∃ gone, StreamInv s' gone) ∧ Served s' := by
  obtain ⟨⟨gone, hi⟩, hs⟩ := hk
  refine ⟨streamInv_step hi h, ?_⟩
  cases step_move h with
  | push => exact served_push hi hs _
  | connect hc => exact served_connect hi hs hc
  | subscribe hj => exact served_subscribe hi hs hj
  | pop hc hq => exact (served_pop hi hs hc hq).mpr (hfair _ _ _ _ rfl hq)
  | pass hp _ => exact served_passes hi hs hp

/-- A pop that leaves everybody served was fair. -/
theorem fair_of_served {gone : List (Nat × S)} {a : StreamAct S}
    (hi : StreamInv s gone) (hs : Served s) (h : step a s = some s')
    (hs' : Served s') : Fair s a s' := by
  intro c giveUp entry rest ha hq
  subst ha
  cases step_move h with
  | pop hc hq' =>
      have heq := hq.symm.trans hq'
      injection heq with he
      subst he
      exact (served_pop hi hs hc hq').mp hs'
  | pass _ hempty =>
      rw [hempty c giveUp rfl] at hq
      cases hq

-- ================================================================ every run

/-- Every subscriber is served in every state of a run exactly when no
step of the run pops a snapshot that another call, popping since before
its push, is still there to receive. For any number of calls and any
schedule of pushes, arrivals, pops, writes and departures. -/
theorem every_subscriber_served_iff (as : List (StreamAct S)) :
    AllStates step Served as init
      ↔ AllSteps step Fair as (init : StreamQueue S) := by
  have hinit : ∃ gone, StreamInv (init : StreamQueue S) gone :=
    ⟨[], streamInv_init⟩
  constructor
  · intro h
    refine AllSteps.mono (fun s => ∃ gone, StreamInv s gone) ?_ hinit h.ends
    rintro s s' a ⟨gone, hi⟩ hstep ⟨hs, hs'⟩
    exact ⟨fair_of_served hi hs hstep hs', streamInv_step hi hstep⟩
  · have hserved : Served (init : StreamQueue S) := by
      intro c n hc
      cases hc.joined
    exact allStates_of_allSteps served_step (fun hk => hk.2)
      ⟨hinit, hserved⟩

/-- Two calls wait in `PopSnapshot`, one snapshot is pushed, the second
call pops and writes it, and the first one's wait ends with nothing. -/
def twoSubscribers : List (StreamAct Nat) :=
  [.connect 0, .connect 1, .check 0 true, .check 1 true, .push 7,
    .pop 1 false, .write 1 true, .pop 0 true]

/-- The first call, connected and popping throughout, never gets the
snapshot. -/
theorem second_subscriber_misses :
    ∃ s, exec step twoSubscribers init = some s
      ∧ Subscribed s 0 0 ∧ Subscribed s 1 0
      ∧ s.delivered 0 = [] ∧ s.delivered 1 = [(0, 7)] ∧ s.queue = []
      ∧ s.evicted = []
      ∧ ¬ AllStates step Served twoSubscribers init := by
  refine ⟨_, rfl, ⟨trivial, rfl⟩, ⟨trivial, rfl⟩, rfl, rfl, rfl, rfl,
    fun hall => ?_⟩
  have hserved : Served _ := hall.last rfl
  have hmiss := hserved 0 0 ⟨trivial, rfl⟩
  cases hmiss

end EdgeIpc.Sdn.StreamQueue
