/-
What becomes of a snapshot in the drop-oldest queue, over every run of
pushes and pops.

Entries only join at the back and only leave at the front, popped or
pushed out, so the numbers inside are always the latest ones pushed
(`queue_numbers`) and those that have left are all the earlier ones. Each
of these has left in one way: the popped numbers and the evicted ones
together are the numbers gone, each once (`QueueInv.fate`). A number that
leaves is larger than all that left before, which puts the pops in order
whichever call makes them.
-/
import EdgeIpc.Sdn.Proofs.Stream

namespace EdgeIpc.Sdn.StreamQueue

open Lib

variable {S : Type} {s s' : StreamQueue S}

-- =========================================================== what is popped

/-- The number a step pops: the front entry's, if there is one. -/
def poppedBy (s : StreamQueue S) : StreamAct S → List Nat
  | .pop _ _ => (s.queue.take 1).map Prod.fst
  | _ => []

-- ============================================================ the invariant

/-- `gone` are the entries that have left the queue, `popped` the numbers
popped so far. -/
structure QueueInv (s : StreamQueue S) (gone : List (Nat × S))
    (popped : List Nat) : Prop where
  books : StreamInv s gone
  room : s.queue.length ≤ streamQueueCap
  order : popped.Pairwise (· < ·)
  fate : (popped ++ s.evicted).Perm (List.range gone.length)

theorem queueInv_init : QueueInv (init : StreamQueue S) [] [] :=
  ⟨streamInv_init, Nat.zero_le _, .nil, .nil⟩

/-- The queue holds the latest numbers pushed. -/
theorem queue_numbers {gone : List (Nat × S)} (hi : StreamInv s gone) :
    s.queue.map Prod.fst = List.range' gone.length s.queue.length := by
  apply List.ext_getElem
  · rw [List.length_map, List.length_range']
  · intro i hi₁ hi₂
    rw [List.length_map] at hi₁
    have hpush : s.pushed[gone.length + i]? = some s.queue[i] := by
      rw [hi.split, List.getElem?_append_right (Nat.le_add_right _ _),
        Nat.add_sub_cancel_left, List.getElem?_eq_getElem hi₁]
    rw [List.getElem_map, List.getElem_range', hi.numbered _ _ hpush,
      Nat.one_mul]

/-- The next number to leave joins either list of those that have. -/
theorem range_snoc_perm {popped evicted : List Nat} {n : Nat}
    (h : (popped ++ evicted).Perm (List.range n)) :
    (popped ++ (evicted ++ [n])).Perm (List.range (n + 1))
      ∧ (popped ++ [n] ++ evicted).Perm (List.range (n + 1)) := by
  have hback : (popped ++ (evicted ++ [n])).Perm (List.range (n + 1)) := by
    rw [List.range_succ, ← List.append_assoc]
    exact h.append_right [n]
  refine ⟨hback, ?_⟩
  rw [List.append_assoc]
  exact (List.Perm.append_left popped List.perm_append_comm).trans hback

-- ============================================================= step by step

/-- The front entry is pushed out of a full queue. -/
theorem queueInv_push {gone : List (Nat × S)} {popped : List Nat}
    (hi : QueueInv s gone popped) (snap : S) :
    QueueInv (s.pushSnapshot snap) (gone ++ pushedOut s) popped := by
  have hbooks := streamInv_push hi.books snap
  have hroom := hi.room
  rcases pushSnapshot_cases s snap with ⟨hlt, hout, hqueue, hev⟩
    | ⟨entry, rest, -, hq, hout, hqueue, hev⟩
  · refine ⟨hbooks, ?_, hi.order, ?_⟩
    · rw [hqueue, List.length_append, List.length_singleton]
      exact hlt
    · rw [hev, hout, List.append_nil]
      exact hi.fate
  · refine ⟨hbooks, ?_, hi.order, ?_⟩
    · rw [hq, List.length_cons] at hroom
      rw [hqueue, List.length_append, List.length_singleton]
      exact hroom
    · rw [hev, hout, List.length_append, List.length_singleton,
        hi.books.front hq]
      exact (range_snoc_perm hi.fate).1

/-- The front entry is popped. -/
theorem queueInv_pop {gone : List (Nat × S)} {popped : List Nat}
    (hi : QueueInv s gone popped) {c : Nat} {entry : Nat × S}
    {rest : List (Nat × S)} (hc : s.calls c = .popping)
    (hq : s.queue = entry :: rest) :
    QueueInv (({ s with queue := rest }).goto c (.writing entry))
      (gone ++ [entry]) (popped ++ [entry.1]) := by
  have hfront := hi.books.front hq
  refine ⟨(due_pop hi.books hc hq).1, ?_, ?_, ?_⟩
  · have hroom := hi.room
    rw [hq, List.length_cons] at hroom
    exact Nat.le_of_succ_le hroom
  · refine List.pairwise_append.mpr ⟨hi.order, List.pairwise_singleton _ _, ?_⟩
    intro n hn m hm
    have hmem := hi.fate.mem_iff.mp (List.mem_append_left _ hn)
    rw [List.mem_singleton.mp hm, hfront]
    exact List.mem_range.mp hmem
  · rw [List.length_append, hfront]
    exact (range_snoc_perm hi.fate).2

theorem queueInv_step {popped : List Nat} {a : StreamAct S}
    (hi : ∃ gone, QueueInv s gone popped) (h : step a s = some s') :
    ∃ gone, QueueInv s' gone (popped ++ poppedBy s a) := by
  obtain ⟨gone, hi⟩ := hi
  cases step_move h with
  | push =>
      refine ⟨gone ++ pushedOut s, ?_⟩
      show QueueInv _ _ (popped ++ [])
      rw [List.append_nil]
      exact queueInv_push hi _
  | connect _ =>
      refine ⟨gone, ?_⟩
      show QueueInv _ _ (popped ++ [])
      rw [List.append_nil]
      exact ⟨streamInv_connect hi.books, hi.room, hi.order, hi.fate⟩
  | subscribe _ =>
      refine ⟨gone, ?_⟩
      show QueueInv _ _ (popped ++ [])
      rw [List.append_nil]
      exact ⟨streamInv_subscribe hi.books, hi.room, hi.order, hi.fate⟩
  | @pop c giveUp entry rest hc hq =>
      refine ⟨gone ++ [entry], ?_⟩
      rw [poppedBy, hq]
      exact queueInv_pop hi hc hq
  | pass hp hempty =>
      -- a pop that returned nothing found the queue empty
      have hnone : poppedBy s a = [] := by
        cases a with
        | pop c giveUp => rw [poppedBy, hempty c giveUp rfl]; rfl
        | _ => rfl
      refine ⟨gone, streamInv_passes hi.books hp, ?_, ?_, ?_⟩
      · rw [hp.queue]
        exact hi.room
      · rw [hnone, List.append_nil]
        exact hi.order
      · rw [hnone, List.append_nil, hp.evicted]
        exact hi.fate

-- ================================================================= evictions

/-- A step that evicts nothing, or a push that finds the queue full and
evicts its oldest entry. -/
def EvictsOldest (s : StreamQueue S) (a : StreamAct S)
    (s' : StreamQueue S) : Prop :=
  s'.evicted = s.evicted
    ∨ ∃ snap entry rest, a = .push snap ∧ s.queue.length = streamQueueCap
      ∧ s.queue = entry :: rest ∧ s'.evicted = s.evicted ++ [entry.1]

theorem evictsOldest_step {a : StreamAct S}
    (hroom : s.queue.length ≤ streamQueueCap) (h : step a s = some s') :
    EvictsOldest s a s' := by
  cases step_move h with
  | push =>
      rcases pushSnapshot_cases s _ with ⟨-, -, -, hev⟩
        | ⟨entry, rest, hfull, hq, -, -, hev⟩
      · exact .inl hev
      · exact .inr ⟨_, entry, rest, rfl, Nat.le_antisymm hroom hfull, hq, hev⟩
  | connect _ => exact .inl rfl
  | subscribe _ => exact .inl rfl
  | pop _ _ => exact .inl rfl
  | pass hp _ => exact .inl hp.evicted

-- ================================================================= every run

/-- Drop-oldest queue, for every interleaving of pushes and pops by any
number of calls. Snapshots are numbered in the order of their pushes. The
queue never holds more than 256; it holds the latest numbers pushed,
without a gap; the popped numbers increase, whichever calls pop them; and
every snapshot is popped, evicted or queued, in one of these ways and
once, where the only snapshot ever evicted is the oldest of 256 queued
ones when another is pushed. -/
theorem drop_oldest_queue {as : List (StreamAct S)}
    (h : exec step as init = some s) :
    (∀ (i : Nat) (e : Nat × S), s.pushed[i]? = some e → e.1 = i)
      ∧ s.queue.length ≤ 256
      ∧ (∃ first, first + s.queue.length = s.pushed.length
        ∧ s.queue.map Prod.fst = List.range' first s.queue.length)
      ∧ (collect step poppedBy as init).Pairwise (· < ·)
      ∧ (collect step poppedBy as init ++ s.evicted
          ++ s.queue.map Prod.fst).Perm (List.range s.pushed.length)
      ∧ AllSteps step EvictsOldest as init := by
  obtain ⟨gone, hi⟩ := exec_collect
    (fun popped s => ∃ gone, QueueInv s gone popped) queueInv_step
    ⟨[], queueInv_init⟩ h
  rw [List.nil_append] at hi
  have hlen : gone.length + s.queue.length = s.pushed.length := by
    rw [hi.books.split, List.length_append]
  have hnums := queue_numbers hi.books
  refine ⟨hi.books.numbered, hi.room, ⟨gone.length, hlen, hnums⟩, hi.order,
    ?_, ?_⟩
  · rw [hnums, ← hlen, List.range_eq_range', ← List.range'_append_1,
      Nat.zero_add, ← List.range_eq_range']
    exact hi.fate.append_right _
  · refine allSteps_of_invariant
      (fun s => ∃ gone popped, QueueInv s gone popped) ?_
      ⟨[], [], queueInv_init⟩
    rintro s s' a ⟨gone, popped, hi⟩ hstep
    refine ⟨evictsOldest_step hi.room hstep, ?_⟩
    obtain ⟨gone', hi'⟩ := queueInv_step ⟨gone, hi⟩ hstep
    exact ⟨gone', _, hi'⟩

/-- Call 0 pops the first snapshot; 258 more are pushed, two over the
bound; call 1 pops. -/
def overfull : List (StreamAct Nat) :=
  [.connect 0, .connect 1, .check 0 true, .check 1 true, .push 7,
    .pop 0 false]
    ++ (List.range 258).map .push ++ [.pop 1 false]

/-- Numbers 1 and 2 are evicted, 0 and 3 popped, and these with the 255
queued ones are all of the 259. -/
theorem drop_oldest_queue_overfull :
    ∃ s, exec step overfull init = some s ∧ s.evicted = [1, 2]
      ∧ s.queue.length = 255
      ∧ collect step poppedBy overfull init = [0, 3]
      ∧ ([0, 3] ++ [1, 2] ++ s.queue.map Prod.fst).Perm (List.range 259)
      ∧ AllSteps step EvictsOldest overfull init := by
  have hrun : (exec step overfull init).map
      (fun s => (s.evicted, s.queue.length, s.pushed.length))
        = some ([1, 2], 255, 259) := by
    decide +kernel
  have hpopped : collect step poppedBy overfull init = [0, 3] := by
    decide +kernel
  obtain ⟨s, hs, hend⟩ := Option.map_eq_some_iff.mp hrun
  simp only [Prod.mk.injEq] at hend
  obtain ⟨hevicted, hqueue, hpushed⟩ := hend
  obtain ⟨-, -, -, -, hfate, holdest⟩ := drop_oldest_queue hs
  rw [hpopped, hevicted, hpushed] at hfate
  exact ⟨s, hs, hevicted, hqueue, hpopped, hfate, holdest⟩

end EdgeIpc.Sdn.StreamQueue
