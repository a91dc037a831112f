/-
The ring refines a bounded FIFO of capacity `CAPACITY - 1`.

# The invariant

`head_` and `tail_` are the two histories' lengths modulo the ring's
size, less than one lap apart (`RingInv.head`, `.tail`, `.le`, `.room`),
and each frame in between sits in its slot (`.slots`). What makes this
survive the interleaving is what each thread knows while it is half way
through its operation (`ProducerInv`, `ConsumerInv`): the index it loaded
is still the current one (nobody else stores it), and the room or the
frame it has seen is still there (the other thread only makes more of
either). The one slot that is out of step is the one a pop has moved out
of and not yet given back; `firstSlot` skips it. `RingMove` says once what
each access does, and the invariant has one lemma for each.

# The refinement

`receiver_simulates` maps the four deciding accesses to moves of the
abstract queue: the store of `tail_` is `put`, the store of `head_` is
`take`, a load of `head_` that finds the ring full is `full`, a load of
`tail_` that finds it empty is `empty`; every other access is invisible.
Order, loss and the bound are then facts about the abstract queue
(Lib/Fifo.lean).
-/
import EdgeIpc.Daemon.TelemetryReceiver
import EdgeIpc.Lib.Fifo

namespace EdgeIpc.Daemon.TelemetryReceiver

open Lib

variable {R : Type} {s s' : TelemetryReceiver R}
  {movedFrom : TelemetryFrame R → TelemetryFrame R}

-- ========================================================= the invariant

/-- What the producer knows at each control point. -/
def ProducerInv (s : TelemetryReceiver R) : PushPc R → Prop
  | .idle => True
  | .loadHead _ t => t = s.tail
  | .bumpDropped n => n = capacity - 1
  | .writeSlot _ t n =>
      t = s.tail ∧ n = (s.tail + 1) % capacity
        ∧ s.pushed.length + 1 < s.popped.length + capacity
  | .storeTail f n =>
      n = (s.tail + 1) % capacity
        ∧ s.pushed.length + 1 < s.popped.length + capacity
        ∧ s.buf s.tail = f

/-- What the consumer knows at each control point. -/
def ConsumerInv (s : TelemetryReceiver R) : PopPc R → Prop
  | .idle => True
  | .loadTail h => h = s.head
  | .readSlot h => h = s.head ∧ s.popped.length < s.pushed.length
  | .storeHead h out =>
      h = s.head ∧ s.pushed[s.popped.length]? = some out

/-- The oldest frame whose slot still holds it: a pop between its slot
read and its store has already moved the front frame out. -/
def firstSlot (s : TelemetryReceiver R) : Nat :=
  match s.consumer with
  | .storeHead _ _ => s.popped.length + 1
  | _ => s.popped.length

/-- The invariant of the ring and its two threads. -/
structure RingInv (s : TelemetryReceiver R) : Prop where
  head : s.head = s.popped.length % capacity
  tail : s.tail = s.pushed.length % capacity
  le : s.popped.length ≤ s.pushed.length
  room : s.pushed.length < s.popped.length + capacity
  slots : ∀ i f, s.firstSlot ≤ i → s.pushed[i]? = some f →
    s.buf (i % capacity) = f
  producer : ProducerInv s s.producer
  consumer : ConsumerInv s s.consumer
  full : ∀ n ∈ s.fullAt, n = capacity - 1
  empty : ∀ n ∈ s.emptyAt, n = 0
  dropped : s.dropped = s.fullAt.length % 2 ^ 64

theorem ringInv_init (blank : TelemetryFrame R) :
    RingInv (init blank) := by
  refine ⟨rfl, rfl, Nat.le_refl _, ?_, ?_, trivial, trivial, ?_, ?_, rfl⟩
  · show 0 < 0 + capacity
    decide
  · intro i f _ hf
    simp [init] at hf
  · intro n hn
    cases hn
  · intro n hn
    cases hn

theorem popped_le_firstSlot (s : TelemetryReceiver R) :
    s.popped.length ≤ s.firstSlot := by
  unfold firstSlot
  split
  · omega
  · omega

/-- What the producer knows survives the consumer's moves: they leave
`tail_` and its slot alone and only make room. -/
theorem producerInv_frame {p : PushPc R} (hp : ProducerInv s p)
    (htail : s'.tail = s.tail) (hpushed : s'.pushed = s.pushed)
    (hpopped : s.popped.length ≤ s'.popped.length)
    (hbuf : s'.buf s.tail = s.buf s.tail) : ProducerInv s' p := by
  cases p with
  | idle => trivial
  | loadHead f t => exact hp.trans htail.symm
  | bumpDropped n => exact hp
  | writeSlot f t n =>
      obtain ⟨ht, hn, hroom⟩ := hp
      refine ⟨ht.trans htail.symm, ?_, ?_⟩
      · rw [htail]
        exact hn
      · rw [hpushed]
        omega
  | storeTail f n =>
      obtain ⟨hn, hroom, hslot⟩ := hp
      refine ⟨?_, ?_, ?_⟩
      · rw [htail]
        exact hn
      · rw [hpushed]
        omega
      · rw [htail, hbuf]
        exact hslot

/-- What the consumer knows survives the producer's moves: they leave
`head_` alone and only append. -/
theorem consumerInv_frame {p : PopPc R} (hc : ConsumerInv s p)
    (hhead : s'.head = s.head) (hpopped : s'.popped = s.popped)
    (hpushed : s.pushed <+: s'.pushed) : ConsumerInv s' p := by
  obtain ⟨more, hmore⟩ := hpushed
  cases p with
  | idle => trivial
  | loadTail h => exact hc.trans hhead.symm
  | readSlot h =>
      obtain ⟨hh, hlt⟩ := hc
      refine ⟨hh.trans hhead.symm, ?_⟩
      rw [hpopped, ← hmore, List.length_append]
      omega
  | storeHead h out =>
      obtain ⟨hh, hout⟩ := hc
      obtain ⟨hlt, -⟩ := List.getElem?_eq_some_iff.mp hout
      refine ⟨hh.trans hhead.symm, ?_⟩
      rw [hpopped, ← hmore, List.getElem?_append_left hlt]
      exact hout

-- ============================================================ slot stores

theorem setSlot_self (buf : Nat → TelemetryFrame R) (i : Nat)
    (f : TelemetryFrame R) : setSlot buf i f i = f := if_pos rfl

theorem setSlot_ne (buf : Nat → TelemetryFrame R) {i j : Nat}
    (f : TelemetryFrame R) (h : j ≠ i) : setSlot buf i f j = buf j :=
  if_neg h

-- ================================================================ the moves

/-- What each access does, and at which control point of its thread. -/
inductive RingMove (movedFrom : TelemetryFrame R → TelemetryFrame R)
    (s : TelemetryReceiver R) : RxAct R → TelemetryReceiver R → Prop
  | push {f : TelemetryFrame R} (hpc : s.producer = .idle) :
      RingMove movedFrom s (.push f)
        { s with producer := .loadHead f s.tail }
  | refuse {f : TelemetryFrame R} {t : Nat}
      (hpc : s.producer = .loadHead f t)
      (hfull : (t + 1) % capacity = s.head) :
      RingMove movedFrom s .producer
        { s with producer := .bumpDropped s.unpopped }
  | accept {f : TelemetryFrame R} {t : Nat}
      (hpc : s.producer = .loadHead f t)
      (hroom : (t + 1) % capacity ≠ s.head) :
      RingMove movedFrom s .producer
        { s with producer := .writeSlot f t ((t + 1) % capacity) }
  | count {n : Nat} (hpc : s.producer = .bumpDropped n) :
      RingMove movedFrom s .producer
        { s with
          dropped := (s.dropped + 1) % 2 ^ 64
          producer := .idle
          fullAt := s.fullAt ++ [n] }
  | write {f : TelemetryFrame R} {t n : Nat}
      (hpc : s.producer = .writeSlot f t n) :
      RingMove movedFrom s .producer
        { s with buf := setSlot s.buf t f, producer := .storeTail f n }
  | store {f : TelemetryFrame R} {n : Nat}
      (hpc : s.producer = .storeTail f n) :
      RingMove movedFrom s .producer
        { s with
          tail := n
          producer := .idle
          pushed := s.pushed ++ [f] }
  | pop (hpc : s.consumer = .idle) :
      RingMove movedFrom s .pop { s with consumer := .loadTail s.head }
  | miss {h : Nat} (hpc : s.consumer = .loadTail h) (hempty : h = s.tail) :
      RingMove movedFrom s .consumer
        { s with
          consumer := .idle
          emptyAt := s.emptyAt ++ [s.unpopped] }
  | find {h : Nat} (hpc : s.consumer = .loadTail h) (hframe : h ≠ s.tail) :
      RingMove movedFrom s .consumer { s with consumer := .readSlot h }
  | read {h : Nat} (hpc : s.consumer = .readSlot h) :
      RingMove movedFrom s .consumer
        { s with
          buf := setSlot s.buf h (movedFrom (s.buf h))
          consumer := .storeHead h (s.buf h) }
  | release {h : Nat} {out : TelemetryFrame R}
      (hpc : s.consumer = .storeHead h out) :
      RingMove movedFrom s .consumer
        { s with
          head := (h + 1) % capacity
          consumer := .idle
          popped := s.popped ++ [out] }

theorem step_move {a : RxAct R} (h : step movedFrom a s = some s') :
    RingMove movedFrom s a s' := by
  cases a with
  | push f =>
      simp only [step] at h
      split at h
      next hpc => exact Option.some.inj h ▸ .push hpc
      next => cases h
  | producer =>
      simp only [step, pushStep] at h
      split at h
      next => cases h
      next hpc =>
        split at h
        next hfull => exact Option.some.inj h ▸ .refuse hpc hfull
        next hroom => exact Option.some.inj h ▸ .accept hpc hroom
      next hpc => exact Option.some.inj h ▸ .count hpc
      next hpc => exact Option.some.inj h ▸ .write hpc
      next hpc => exact Option.some.inj h ▸ .store hpc
  | pop =>
      simp only [step] at h
      split at h
      next hpc => exact Option.some.inj h ▸ .pop hpc
      next => cases h
  | consumer =>
      simp only [step, popStep] at h
      split at h
      next => cases h
      next hpc =>
        split at h
        next hempty => exact Option.some.inj h ▸ .miss hpc hempty
        next hframe => exact Option.some.inj h ▸ .find hpc hframe
      next hpc => exact Option.some.inj h ▸ .read hpc
      next hpc => exact Option.some.inj h ▸ .release hpc

-- ====================================================== the producer moves

/-- `push` is called and loads `tail_`. -/
theorem ringInv_push {f : TelemetryFrame R} (hi : RingInv s) :
    RingInv { s with producer := .loadHead f s.tail } :=
  ⟨hi.head, hi.tail, hi.le, hi.room, hi.slots, rfl, hi.consumer, hi.full,
    hi.empty, hi.dropped⟩

/-- A load of `head_` that finds the next index there has seen a full
ring. -/
theorem unpopped_of_full (hi : RingInv s)
    (h : (s.tail + 1) % capacity = s.head) :
    s.unpopped = capacity - 1 := by
  have hle := hi.le
  have hroom := hi.room
  rw [hi.tail, hi.head, succ_mod] at h
  unfold unpopped
  -- a lap would be missing otherwise: the two counters share a slot
  by_cases hlap : s.pushed.length + 1 < s.popped.length + capacity
  · exact absurd h.symm (mod_ne_of_lt (by omega) hlap)
  · omega

/-- A load of `head_` that finds another index has seen room. -/
theorem room_of_not_full (hi : RingInv s)
    (h : (s.tail + 1) % capacity ≠ s.head) :
    s.pushed.length + 1 < s.popped.length + capacity := by
  have hroom := hi.room
  rw [hi.tail, hi.head, succ_mod] at h
  by_cases hlap : s.pushed.length + 1 < s.popped.length + capacity
  · exact hlap
  · have heq : s.pushed.length + 1 = s.popped.length + capacity := by omega
    rw [heq, Nat.add_mod_right] at h
    exact absurd rfl h

/-- The slot written is behind every frame in flight. -/
theorem slots_written (hi : RingInv s)
    (hroom : s.pushed.length + 1 < s.popped.length + capacity)
    (f : TelemetryFrame R) :
    ∀ i g, s.firstSlot ≤ i → s.pushed[i]? = some g →
      setSlot s.buf s.tail f (i % capacity) = g := by
  intro i g hle hg
  have hlt : i < s.pushed.length := by
    obtain ⟨hlt, -⟩ := List.getElem?_eq_some_iff.mp hg
    exact hlt
  have hpop : s.popped.length ≤ i :=
    Nat.le_trans (popped_le_firstSlot s) hle
  have hne : i % capacity ≠ s.tail := by
    rw [hi.tail]
    exact mod_ne_of_lt hlt (by omega)
  rw [setSlot_ne _ _ hne]
  exact hi.slots i g hle hg

/-- Once counted, the new frame is in the slot just written, and the
others are where they were. -/
theorem slots_pushed {f : TelemetryFrame R} (hi : RingInv s)
    (hbuf : s.buf s.tail = f) :
    ∀ i g, s.firstSlot ≤ i → (s.pushed ++ [f])[i]? = some g →
      s.buf (i % capacity) = g := by
  intro i g hle hg
  by_cases hnew : i < s.pushed.length
  · rw [List.getElem?_append_left hnew] at hg
    exact hi.slots i g hle hg
  · rw [List.getElem?_append_right (by omega)] at hg
    have hi0 : i - s.pushed.length = 0 := by
      obtain ⟨hlt, -⟩ := List.getElem?_eq_some_iff.mp hg
      rw [List.length_singleton] at hlt
      omega
    rw [hi0] at hg
    simp only [List.getElem?_cons_zero, Option.some.injEq] at hg
    have hieq : i = s.pushed.length := by omega
    rw [hieq, ← hi.tail, hbuf, hg]

theorem ringInv_refuse {f : TelemetryFrame R} {t : Nat} (hi : RingInv s)
    (hpc : s.producer = .loadHead f t)
    (hfull : (t + 1) % capacity = s.head) :
    RingInv { s with producer := .bumpDropped s.unpopped } := by
  have hp := hi.producer
  rw [hpc] at hp
  subst hp
  exact ⟨hi.head, hi.tail, hi.le, hi.room, hi.slots,
    unpopped_of_full hi hfull, hi.consumer, hi.full, hi.empty, hi.dropped⟩

theorem ringInv_accept {f : TelemetryFrame R} {t : Nat} (hi : RingInv s)
    (hpc : s.producer = .loadHead f t)
    (hroom : (t + 1) % capacity ≠ s.head) :
    RingInv { s with producer := .writeSlot f t ((t + 1) % capacity) } := by
  have hp := hi.producer
  rw [hpc] at hp
  subst hp
  have hseen := room_of_not_full hi hroom
  exact ⟨hi.head, hi.tail, hi.le, hi.room, hi.slots, ⟨rfl, rfl, hseen⟩,
    hi.consumer, hi.full, hi.empty, hi.dropped⟩

theorem ringInv_count {n : Nat} (hi : RingInv s)
    (hpc : s.producer = .bumpDropped n) :
    RingInv { s with
      dropped := (s.dropped + 1) % 2 ^ 64
      producer := .idle
      fullAt := s.fullAt ++ [n] } := by
  have hp := hi.producer
  rw [hpc] at hp
  refine ⟨hi.head, hi.tail, hi.le, hi.room, hi.slots, trivial,
    hi.consumer, ?_, hi.empty, ?_⟩
  · intro m hm
    rcases List.mem_append.mp hm with hold | hnew
    · exact hi.full m hold
    · rw [List.mem_singleton.mp hnew, hp]
  · show (s.dropped + 1) % 2 ^ 64 = (s.fullAt ++ [n]).length % 2 ^ 64
    rw [hi.dropped, List.length_append, List.length_singleton, succ_mod]

theorem ringInv_write {f : TelemetryFrame R} {t n : Nat} (hi : RingInv s)
    (hpc : s.producer = .writeSlot f t n) :
    RingInv { s with
      buf := setSlot s.buf t f
      producer := .storeTail f n } := by
  have hp := hi.producer
  rw [hpc] at hp
  obtain ⟨rfl, rfl, hroom⟩ := hp
  exact ⟨hi.head, hi.tail, hi.le, hi.room, slots_written hi hroom f,
    ⟨rfl, hroom, setSlot_self _ _ _⟩, hi.consumer, hi.full, hi.empty,
    hi.dropped⟩

theorem ringInv_store {f : TelemetryFrame R} {n : Nat} (hi : RingInv s)
    (hpc : s.producer = .storeTail f n) :
    RingInv { s with
      tail := n
      producer := .idle
      pushed := s.pushed ++ [f] } := by
  have hp := hi.producer
  rw [hpc] at hp
  obtain ⟨rfl, hroom, hbuf⟩ := hp
  have hlen : (s.pushed ++ [f]).length = s.pushed.length + 1 := by
    rw [List.length_append, List.length_singleton]
  refine ⟨hi.head, ?_, ?_, ?_, slots_pushed hi hbuf, trivial,
    consumerInv_frame hi.consumer rfl rfl (List.prefix_append _ _),
    hi.full, hi.empty, hi.dropped⟩
  · show (s.tail + 1) % capacity = (s.pushed ++ [f]).length % capacity
    rw [hlen, hi.tail, succ_mod]
  · show s.popped.length ≤ (s.pushed ++ [f]).length
    have := hi.le
    omega
  · show (s.pushed ++ [f]).length < s.popped.length + capacity
    omega

-- ====================================================== the consumer moves

/-- `pop` is called and loads `head_`. -/
theorem ringInv_pop (hi : RingInv s) (hidle : s.consumer = .idle) :
    RingInv { s with consumer := .loadTail s.head } := by
  refine ⟨hi.head, hi.tail, hi.le, hi.room, ?_, hi.producer, rfl, hi.full,
    hi.empty, hi.dropped⟩
  intro i f hle hf
  have hfirst : s.firstSlot = s.popped.length := by
    simp only [firstSlot, hidle]
  exact hi.slots i f (hfirst ▸ hle) hf

/-- A load of `tail_` that finds `head_` there has seen an empty ring. -/
theorem unpopped_of_empty (hi : RingInv s) (h : s.head = s.tail) :
    s.unpopped = 0 := by
  have hle := hi.le
  rw [hi.head, hi.tail] at h
  unfold unpopped
  by_cases hlt : s.popped.length < s.pushed.length
  · exact absurd h (mod_ne_of_lt hlt hi.room)
  · omega

/-- A load of `tail_` that finds another index has seen a frame. -/
theorem frame_of_not_empty (hi : RingInv s) (h : s.head ≠ s.tail) :
    s.popped.length < s.pushed.length := by
  have hle := hi.le
  rw [hi.head, hi.tail] at h
  by_cases hlt : s.popped.length < s.pushed.length
  · exact hlt
  · have heq : s.popped.length = s.pushed.length := by omega
    rw [heq] at h
    exact absurd rfl h

/-- Moving out of the front slot spares all the later ones. -/
theorem slots_moved (hi : RingInv s)
    (hslots : ∀ i f, s.popped.length ≤ i → s.pushed[i]? = some f →
      s.buf (i % capacity) = f) (f : TelemetryFrame R) :
    ∀ i g, s.popped.length + 1 ≤ i → s.pushed[i]? = some g →
      setSlot s.buf s.head f (i % capacity) = g := by
  intro i g hle hg
  have hroom := hi.room
  have hlt : i < s.pushed.length := by
    obtain ⟨hlt, -⟩ := List.getElem?_eq_some_iff.mp hg
    exact hlt
  have hne : i % capacity ≠ s.head := by
    rw [hi.head]
    exact (mod_ne_of_lt (by omega) (by omega)).symm
  rw [setSlot_ne _ _ hne]
  exact hslots i g (by omega) hg

theorem ringInv_miss {h : Nat} (hi : RingInv s)
    (hpc : s.consumer = .loadTail h) (hempty : h = s.tail) :
    RingInv { s with
      consumer := .idle
      emptyAt := s.emptyAt ++ [s.unpopped] } := by
  have hc := hi.consumer
  have hslots := hi.slots
  rw [hpc] at hc
  simp only [firstSlot, hpc] at hslots
  subst hc
  refine ⟨hi.head, hi.tail, hi.le, hi.room, hslots, hi.producer, trivial,
    hi.full, ?_, hi.dropped⟩
  intro m hm
  rcases List.mem_append.mp hm with hold | hnew
  · exact hi.empty m hold
  · rw [List.mem_singleton.mp hnew]
    exact unpopped_of_empty hi hempty

theorem ringInv_find {h : Nat} (hi : RingInv s)
    (hpc : s.consumer = .loadTail h) (hframe : h ≠ s.tail) :
    RingInv { s with consumer := .readSlot h } := by
  have hc := hi.consumer
  have hslots := hi.slots
  rw [hpc] at hc
  simp only [firstSlot, hpc] at hslots
  subst hc
  have hseen := frame_of_not_empty hi hframe
  exact ⟨hi.head, hi.tail, hi.le, hi.room, hslots, hi.producer,
    ⟨rfl, hseen⟩, hi.full, hi.empty, hi.dropped⟩

theorem ringInv_read {h : Nat} (hi : RingInv s)
    (hpc : s.consumer = .readSlot h) :
    RingInv { s with
      buf := setSlot s.buf h (movedFrom (s.buf h))
      consumer := .storeHead h (s.buf h) } := by
  have hc := hi.consumer
  have hslots := hi.slots
  rw [hpc] at hc
  simp only [firstSlot, hpc] at hslots
  obtain ⟨rfl, hlt⟩ := hc
  have hfront := List.getElem?_eq_getElem hlt
  have hread : s.buf s.head = s.pushed[s.popped.length] := by
    rw [hi.head]
    exact hslots _ _ (Nat.le_refl _) hfront
  refine ⟨hi.head, hi.tail, hi.le, hi.room, slots_moved hi hslots _, ?_,
    ?_, hi.full, hi.empty, hi.dropped⟩
  · -- the slot the producer may have filled is not the one moved out of
    have hne : s.tail ≠ s.head := by
      rw [hi.head, hi.tail]
      exact (mod_ne_of_lt hlt hi.room).symm
    exact producerInv_frame hi.producer rfl rfl (Nat.le_refl _)
      (setSlot_ne _ _ hne)
  · refine ⟨rfl, ?_⟩
    show s.pushed[s.popped.length]? = some (s.buf s.head)
    rw [hfront, hread]

theorem ringInv_release {h : Nat} {out : TelemetryFrame R} (hi : RingInv s)
    (hpc : s.consumer = .storeHead h out) :
    RingInv { s with
      head := (h + 1) % capacity
      consumer := .idle
      popped := s.popped ++ [out] } := by
  have hc := hi.consumer
  have hslots := hi.slots
  rw [hpc] at hc
  simp only [firstSlot, hpc] at hslots
  obtain ⟨rfl, hout⟩ := hc
  obtain ⟨hlt, -⟩ := List.getElem?_eq_some_iff.mp hout
  have hroom := hi.room
  have hlen : (s.popped ++ [out]).length = s.popped.length + 1 := by
    rw [List.length_append, List.length_singleton]
  refine ⟨?_, hi.tail, ?_, ?_, ?_, ?_, trivial, hi.full, hi.empty,
    hi.dropped⟩
  · show (s.head + 1) % capacity = (s.popped ++ [out]).length % capacity
    rw [hlen, hi.head, succ_mod]
  · show (s.popped ++ [out]).length ≤ s.pushed.length
    omega
  · show s.pushed.length < (s.popped ++ [out]).length + capacity
    omega
  · intro i g hle hg
    change (s.popped ++ [out]).length ≤ i at hle
    exact hslots i g (by omega) hg
  · exact producerInv_frame hi.producer rfl rfl (by rw [hlen]; omega) rfl

-- ============================================================== every run

/-- Every access of either thread keeps the invariant. -/
theorem ringInv_move {a : RxAct R} (hi : RingInv s)
    (hm : RingMove movedFrom s a s') : RingInv s' := by
  cases hm with
  | push _ => exact ringInv_push hi
  | refuse hpc hfull => exact ringInv_refuse hi hpc hfull
  | accept hpc hroom => exact ringInv_accept hi hpc hroom
  | count hpc => exact ringInv_count hi hpc
  | write hpc => exact ringInv_write hi hpc
  | store hpc => exact ringInv_store hi hpc
  | pop hpc => exact ringInv_pop hi hpc
  | miss hpc hempty => exact ringInv_miss hi hpc hempty
  | find hpc hframe => exact ringInv_find hi hpc hframe
  | read hpc => exact ringInv_read hi hpc
  | release hpc => exact ringInv_release hi hpc

theorem ringInv_step {a : RxAct R} (hi : RingInv s)
    (h : step movedFrom a s = some s') : RingInv s' :=
  ringInv_move hi (step_move h)

theorem ringInv_reachable {blank : TelemetryFrame R}
    (hr : Reachable (step movedFrom) (init blank) s) : RingInv s :=
  hr.invariant (ringInv_init blank) ringInv_step

-- ================================================== what an access pops

/-- Accesses of the producer pop nothing. -/
theorem popped_push {f : TelemetryFrame R}
    (h : step movedFrom (.push f) s = some s') : s'.popped = s.popped := by
  cases step_move h
  rfl

theorem popped_producer (h : step movedFrom .producer s = some s') :
    s'.popped = s.popped := by
  cases step_move h <;> rfl

theorem popped_pop (h : step movedFrom .pop s = some s') :
    s'.popped = s.popped := by
  cases step_move h
  rfl

/-- What an access of `pop` from one state to the next hands out: a frame
at its last store, nothing at any other. -/
def handedOut (before after : TelemetryReceiver R) :
    List (TelemetryFrame R) :=
  match after.consumer with
  | .idle =>
      match before.consumer with
      | .storeHead _ out => [out]
      | _ => []
  | _ => []

theorem popped_handedOut (h : step movedFrom .consumer s = some s') :
    s'.popped = s.popped ++ handedOut s s' := by
  unfold handedOut
  cases step_move h with
  | miss hpc _ =>
      rw [hpc]
      exact (List.append_nil _).symm
  | find _ _ => exact (List.append_nil _).symm
  | read _ => exact (List.append_nil _).symm
  | release hpc => rw [hpc]

-- ========================================================== the refinement

/-- The move of the abstract queue an access performs. -/
def queueMove (s : TelemetryReceiver R) :
    RxAct R → Option (FifoAct (TelemetryFrame R))
  | .producer =>
      match s.producer with
      | .loadHead _ t =>
          if (t + 1) % capacity = s.head then some .full else none
      | .storeTail f _ => some (.put f)
      | _ => none
  | .consumer =>
      match s.consumer with
      | .loadTail h => if h = s.tail then some .empty else none
      | .storeHead _ _ => some .take
      | _ => none
  | _ => none

/-- The abstract queue a state of the ring stands for. -/
structure Represents (s : TelemetryReceiver R)
    (q : Fifo (TelemetryFrame R)) : Prop where
  inv : RingInv s
  accepted : q.accepted = s.pushed
  taken : q.taken = s.popped
  queue : q.queue = s.pushed.drop s.popped.length

theorem Represents.queue_length {q : Fifo (TelemetryFrame R)}
    (hrep : Represents s q) : q.queue.length = s.unpopped := by
  rw [hrep.queue, List.length_drop]
  rfl

/-- An access that touches neither history is invisible. -/
theorem Represents.frame {q : Fifo (TelemetryFrame R)}
    (hrep : Represents s q) (hi : RingInv s')
    (hpushed : s'.pushed = s.pushed) (hpopped : s'.popped = s.popped) :
    Represents s' q :=
  ⟨hi, hpushed ▸ hrep.accepted, hpopped ▸ hrep.taken,
    by rw [hpushed, hpopped]; exact hrep.queue⟩

/-- The store of `tail_` puts the frame in the queue. -/
theorem Represents.store {q : Fifo (TelemetryFrame R)}
    {f : TelemetryFrame R} {n : Nat} (hrep : Represents s q)
    (hpc : s.producer = .storeTail f n) :
    Follows (Fifo.step (capacity - 1))
      (Represents { s with
        tail := n, producer := .idle, pushed := s.pushed ++ [f] }) q
      (some (.put f)) := by
  have hi := hrep.inv
  have hp := hi.producer
  have hle := hi.le
  rw [hpc] at hp
  obtain ⟨-, hroom, -⟩ := hp
  have hlen : q.queue.length < capacity - 1 := by
    rw [hrep.queue_length]
    unfold unpopped
    omega
  refine ⟨_, if_pos hlen, ringInv_store hi hpc, ?_, hrep.taken, ?_⟩
  · show q.accepted ++ [f] = s.pushed ++ [f]
    rw [hrep.accepted]
  · show q.queue ++ [f] = (s.pushed ++ [f]).drop s.popped.length
    rw [hrep.queue]
    exact (List.drop_append_of_le_length hle).symm

/-- The store of `head_` takes the queue's front. -/
theorem Represents.release {q : Fifo (TelemetryFrame R)} {h : Nat}
    {out : TelemetryFrame R} (hrep : Represents s q)
    (hpc : s.consumer = .storeHead h out) :
    Follows (Fifo.step (capacity - 1))
      (Represents { s with
        head := (h + 1) % capacity
        consumer := .idle
        popped := s.popped ++ [out] }) q
      (some .take) := by
  have hi := hrep.inv
  have hc := hi.consumer
  rw [hpc] at hc
  obtain ⟨-, hout⟩ := hc
  obtain ⟨hlt, hget⟩ := List.getElem?_eq_some_iff.mp hout
  have hfront : q.queue = out :: s.pushed.drop (s.popped.length + 1) := by
    rw [hrep.queue, List.drop_eq_getElem_cons hlt, hget]
  refine ⟨{ q with queue := s.pushed.drop (s.popped.length + 1)
                   taken := q.taken ++ [out] },
    by simp only [Fifo.step, hfront], ringInv_release hi hpc, hrep.accepted,
    ?_, ?_⟩
  · show q.taken ++ [out] = s.popped ++ [out]
    rw [hrep.taken]
  · show _ = s.pushed.drop (s.popped ++ [out]).length
    rw [List.length_append, List.length_singleton]

/-- The ring simulates the bounded FIFO of capacity `CAPACITY - 1`. -/
theorem receiver_simulates :
    Simulates (step movedFrom) (Fifo.step (capacity - 1)) queueMove
      (Represents (R := R)) := by
  intro s s' q a hrep h
  have hi := hrep.inv
  have hi' := ringInv_step hi h
  cases step_move h with
  | push _ => exact hrep.frame hi' rfl rfl
  | refuse hpc hfull =>
      simp only [queueMove, hpc, if_pos hfull]
      have hp := hi.producer
      rw [hpc] at hp
      subst hp
      have hlen : q.queue.length = capacity - 1 := by
        rw [hrep.queue_length]
        exact unpopped_of_full hi hfull
      exact ⟨q, if_pos hlen, hrep.frame hi' rfl rfl⟩
  | accept hpc hroom =>
      simp only [queueMove, hpc, if_neg hroom]
      exact hrep.frame hi' rfl rfl
  | count hpc =>
      simp only [queueMove, hpc]
      exact hrep.frame hi' rfl rfl
  | write hpc =>
      simp only [queueMove, hpc]
      exact hrep.frame hi' rfl rfl
  | store hpc =>
      simp only [queueMove, hpc]
      exact hrep.store hpc
  | pop _ => exact hrep.frame hi' rfl rfl
  | miss hpc hempty =>
      simp only [queueMove, hpc, if_pos hempty]
      have hc := hi.consumer
      rw [hpc] at hc
      subst hc
      have hnil : q.queue = [] := by
        apply List.eq_nil_of_length_eq_zero
        rw [hrep.queue_length]
        exact unpopped_of_empty hi hempty
      exact ⟨q, by simp only [Fifo.step, hnil], hrep.frame hi' rfl rfl⟩
  | find hpc hframe =>
      simp only [queueMove, hpc, if_neg hframe]
      exact hrep.frame hi' rfl rfl
  | read hpc =>
      simp only [queueMove, hpc]
      exact hrep.frame hi' rfl rfl
  | release hpc =>
      simp only [queueMove, hpc]
      exact hrep.release hpc

/-- Every reachable ring stands for a reachable queue. -/
theorem represents_reachable {blank : TelemetryFrame R}
    (hr : Reachable (step movedFrom) (init blank) s) :
    ∃ q, Reachable (Fifo.step (capacity - 1)) {} q ∧ Represents s q :=
  reachable_simulates receiver_simulates
    ⟨ringInv_init blank, rfl, rfl, rfl⟩ hr

/-- Frames come out in the order they went in. -/
theorem popped_prefix_pushed {blank : TelemetryFrame R}
    (hr : Reachable (step movedFrom) (init blank) s) :
    s.popped <+: s.pushed := by
  obtain ⟨q, hq, hrep⟩ := represents_reachable hr
  rw [← hrep.accepted, ← hrep.taken]
  exact (Fifo.inv_reachable hq).taken_pre

-- ============================================================ the contract

/-- `TelemetryReceiver` is a bounded FIFO of capacity 1023, whatever the
interleaving of the two threads' accesses. In every reachable state:
some run of the abstract queue has accepted and handed out the same
frames; (a) the frames popped are a prefix of the frames pushed; (b) at
most 1023 accepted frames are unpopped; (c) every push that returned
false saw 1023 of them at its load of `head_`, every pop that returned
false saw none at its load of `tail_`; (d) a slot about to be written by
the producer is a slot of the ring, and not the one the consumer is
about to read; (e) `dropped()` is the number of pushes that returned
false, as long as that fits 64 bits. -/
theorem receiver_refines_fifo {blank : TelemetryFrame R}
    (hr : Reachable (step movedFrom) (init blank) s) :
    (∃ q, Reachable (Fifo.step 1023) {} q
      ∧ q.accepted = s.pushed ∧ q.taken = s.popped)
    ∧ s.popped <+: s.pushed
    ∧ s.pushed.length ≤ s.popped.length + 1023
    ∧ (∀ n ∈ s.fullAt, n = 1023) ∧ (∀ n ∈ s.emptyAt, n = 0)
    ∧ (∀ f t n, s.producer = .writeSlot f t n →
      t < 1024 ∧ ∀ h, s.consumer = .readSlot h → h < 1024 ∧ t ≠ h)
    ∧ (s.fullAt.length < 2 ^ 64 → s.dropped = s.fullAt.length) := by
  have hi := ringInv_reachable hr
  obtain ⟨q, hq, hrep⟩ := represents_reachable hr
  refine ⟨⟨q, hq, hrep.accepted, hrep.taken⟩, popped_prefix_pushed hr, ?_,
    hi.full, hi.empty, ?_, ?_⟩
  · rw [← hrep.accepted, ← hrep.taken]
    exact (Fifo.inv_reachable hq).untaken_le
  · intro f t n hpc
    have hp := hi.producer
    rw [hpc] at hp
    obtain ⟨rfl, -, -⟩ := hp
    refine ⟨hi.tail ▸ Nat.mod_lt _ (by decide), fun h hpc' => ?_⟩
    have hc := hi.consumer
    rw [hpc'] at hc
    obtain ⟨rfl, hlt⟩ := hc
    refine ⟨hi.head ▸ Nat.mod_lt _ (by decide), ?_⟩
    rw [hi.tail, hi.head]
    exact (mod_ne_of_lt hlt hi.room).symm
  · intro hlt
    rw [hi.dropped, Nat.mod_eq_of_lt hlt]

/-- `f` is pushed; then the accesses of a `push` of `g` and of a `pop`
alternate. -/
def interleaved (f g : TelemetryFrame R) : List (RxAct R) :=
  [.push f, .producer, .producer, .producer, .push g, .pop, .producer,
    .consumer, .consumer, .producer, .consumer, .producer]

/-- The contract there: while `g` is about to be written and `f` to be
read, the two slots differ; in the end an abstract queue has accepted both
frames and handed out the first. -/
theorem receiver_refines_fifo_two :
    let run : List (RxAct Nat) :=
      interleaved ⟨"sensor0", 42, 7⟩ ⟨"sensor1", 43, 8⟩
    (∃ s, exec (step id) (run.take 8) (init ⟨"", 0, 0⟩) = some s
      ∧ s.producer = .writeSlot ⟨"sensor1", 43, 8⟩ 1 2
      ∧ s.consumer = .readSlot 0 ∧ (1 < 1024 ∧ 0 < 1024 ∧ 1 ≠ 0))
    ∧ ∃ s, exec (step id) run (init ⟨"", 0, 0⟩) = some s
      ∧ s.pushed = [⟨"sensor0", 42, 7⟩, ⟨"sensor1", 43, 8⟩]
      ∧ s.popped = [⟨"sensor0", 42, 7⟩]
      ∧ ∃ q, Reachable (Fifo.step 1023) {} q
        ∧ q.accepted = s.pushed ∧ q.taken = s.popped := by
  intro run
  constructor
  · have hrun : exec (step id) (run.take 8) (init ⟨"", 0, 0⟩) = some _ := rfl
    have hslots := (receiver_refines_fifo (reachable_of_exec hrun)).2.2.2.2.2.1
    obtain ⟨hwrite, hread⟩ := hslots ⟨"sensor1", 43, 8⟩ 1 2 rfl
    exact ⟨_, hrun, rfl, rfl, hwrite, hread 0 rfl⟩
  · have hrun : exec (step id) run (init ⟨"", 0, 0⟩) = some _ := rfl
    exact ⟨_, hrun, rfl, rfl, (receiver_refines_fifo
      (reachable_of_exec hrun)).1⟩

end EdgeIpc.Daemon.TelemetryReceiver
