/-
What the readers of the OPC UA server's nodes can see of the update loop,
under relaxed accesses.

# The values

A node's location holds the zero of the loader and then one value for
each round, in the order of the rounds (`LoopInv.nodes`): what the node's
simulator computes from the tick of that round and from a seed that only
the number of the round decides, for each sensor draws twice from its own
`rand_r` sequence, whatever the time (`sample_seed`). In the middle of a
round the nodes still to be set are one round behind.

# The readers

A thread's loads of a location do not go backwards, so a reader sees the
rounds of a node in their order. Across nodes nothing is promised while
the loop runs. Whoever joins the update thread has seen all it did
(`LoopInv.owner`).

The step is taken apart once (`LoopMove`).
-/
import EdgeIpc.Lib.Run
import EdgeIpc.Opcua.UpdateLoop
import Mathlib.Data.Nat.Basic
import Mathlib.Data.Rat.Floor
import Mathlib.Logic.Function.Iterate
import Mathlib.Order.Basic

namespace EdgeIpc.Opcua

open Lib

-- ============================================================== the sensors

namespace Libm

variable {D : Type} (L : Libm D)

/-- What a sample does to its seed. -/
def advance (idx : CncNodeIdx) (seed : UInt32) : UInt32 :=
  match idx with
  | .axisX => seed
  | .axisY => seed
  | .axisZ => seed
  | _ => (L.randR (L.randR seed).2).2

/-- The seed of the `n`-th sample of a sensor. -/
def seedAt (idx : CncNodeIdx) (n : Nat) : UInt32 :=
  (L.advance idx)^[n] (gSeeds idx)

theorem seedAt_succ (idx : CncNodeIdx) (n : Nat) :
    L.seedAt idx (n + 1) = L.advance idx (L.seedAt idx n) :=
  Function.iterate_succ_apply' _ _ _

variable [Add D] [Sub D] [Mul D] [Div D] [Neg D] [OfScientific D]

/-- What a node is set to in round `n`. -/
def roundValue (idx : CncNodeIdx) (n tick : Nat) : Float32Bits :=
  (L.sample idx (L.seconds tick) (L.seedAt idx n)).1

/-- All a node is set to in rounds at the given ticks, behind the zero of
the loader. -/
def values (idx : CncNodeIdx) (rounds : List Nat) : List Float32Bits :=
  0#32 :: rounds.mapIdx (L.roundValue idx)

/-- The time does not enter into the seed. -/
theorem sample_seed (idx : CncNodeIdx) (t : D) (seed : UInt32) :
    (L.sample idx t seed).2 = L.advance idx seed := by
  cases idx <;> rfl

theorem values_snoc (idx : CncNodeIdx) (rounds : List Nat) (tick : Nat) :
    L.values idx (rounds ++ [tick])
      = L.values idx rounds ++ [L.roundValue idx rounds.length tick] := by
  simp [values, List.mapIdx_concat]

theorem values_pre {rounds more : List Nat} (idx : CncNodeIdx)
    (h : rounds <+: more) : L.values idx rounds <+: L.values idx more := by
  obtain ⟨rest, rfl⟩ := h
  simp [values, List.mapIdx_append]

end Libm

namespace UpdateLoop

variable {D : Type} [Add D] [Sub D] [Mul D] [Div D] [Neg D]
  [OfScientific D] {L : Libm D} {s s' : UpdateLoop}

-- ================================================================ the moves

/-- What a step does, and where its thread stood. -/
inductive LoopMove (L : Libm D) (s : UpdateLoop) : UpdateLoop → Prop
  | start (hc : s.control = .idle) (ht : s.thread = .absent) :
      LoopMove L s
        { s with
          mem := s.mem.store (.client 0) .running true
          control := .startTicks }
  | stop (hc : s.control = .idle) (ht : s.thread ≠ .absent) :
      LoopMove L s
        { s with
          mem := s.mem.store (.client 0) .running false
          control := .join }
  | ticks (hc : s.control = .startTicks) :
      LoopMove L s
        { s with
          mem := s.mem.store (.client 0) .tickCount (0 : Nat)
          elapsed := []
          control := .create }
  | create (hc : s.control = .create) :
      LoopMove L s
        { s with
          mem := s.mem.sync (.client 0) .update
          thread := .boot
          control := .idle }
  | refused (hc : s.control = .create) :
      LoopMove L s { s with control := .idle }
  | join (hc : s.control = .join) (ht : s.thread = .finished) :
      LoopMove L s
        { s with
          mem := s.mem.sync .update (.client 0)
          thread := .absent
          control := .idle }
  | boot (ht : s.thread = .boot) :
      LoopMove L s { s with thread := .check 0 }
  | noTimer (ht : s.thread = .boot) :
      LoopMove L s { s with thread := .finished }
  | check {tick back : Nat} {g : Bool} {mem : Memory Thread Loc.Val}
      (ht : s.thread = .check tick)
      (hg : s.mem.load .update .running back = some (g, mem)) :
      LoopMove L s { s with mem, thread := afterCheck tick g }
  | early {tick : Nat} (ht : s.thread = .read tick) :
      LoopMove L s { s with thread := .check tick }
  | begin {tick n : Nat} (ht : s.thread = .read tick) :
      LoopMove L s
        { s with
          thread := .sets updateOrder ((tick + n) % 2 ^ 64)
          rounds := s.rounds ++ [(tick + n) % 2 ^ 64]
          elapsed := s.elapsed ++ [n] }
  | set {idx : CncNodeIdx} {todo : List CncNodeIdx} {tick : Nat}
      (ht : s.thread = .sets (idx :: todo) tick) :
      LoopMove L s { s.setNode L idx tick with thread := .sets todo tick }
  | count {tick : Nat} (ht : s.thread = .sets [] tick) :
      LoopMove L s
        { s with
          mem := s.mem.store .update .tickCount tick
          thread := .check tick }
  | get {client back : Nat} {idx : CncNodeIdx} {v : Float32Bits}
      {mem : Memory Thread Loc.Val}
      (hg : s.mem.load (.client client) (.node idx) back = some (v, mem)) :
      LoopMove L s
        { s with
          mem
          reads := s.reads
            ++ [⟨client, idx, mem.view (.client client) (.node idx), v⟩] }
  | tickCount {client back n : Nat} {mem : Memory Thread Loc.Val}
      (hg : s.mem.load (.client client) .tickCount back = some (n, mem)) :
      LoopMove L s { s with mem }

theorem controlStep_move {created : Bool}
    (h : s.controlStep created = some s') : LoopMove L s s' := by
  unfold controlStep at h
  split at h
  next => cases h
  next hc => exact Option.some.inj h ▸ .ticks hc
  next hc =>
    split at h
    · exact Option.some.inj h ▸ .create hc
    · exact Option.some.inj h ▸ .refused hc
  next hc =>
    split at h
    next ht => exact Option.some.inj h ▸ .join hc ht
    next => cases h

theorem threadStep_move {opened : Bool} {back : Nat} {exp : Option Nat}
    (h : s.threadStep L opened back exp = some s') : LoopMove L s s' := by
  unfold threadStep at h
  split at h
  next => cases h
  next ht =>
    cases opened
    · exact Option.some.inj h ▸ .noTimer ht
    · exact Option.some.inj h ▸ .boot ht
  next tick ht =>
    obtain ⟨⟨g, mem⟩, hg, rfl⟩ := Option.map_eq_some_iff.mp h
    exact .check ht hg
  next tick ht =>
    split at h
    next => exact Option.some.inj h ▸ .early ht
    next n => exact Option.some.inj h ▸ .begin ht
  next idx todo tick ht => exact Option.some.inj h ▸ .set ht
  next tick ht => exact Option.some.inj h ▸ .count ht
  next => cases h

theorem step_move {a : LoopAct} (h : step L a s = some s') :
    LoopMove L s s' := by
  cases a with
  | start =>
      simp only [step] at h
      split at h
      next hc ht => exact Option.some.inj h ▸ .start hc ht
      next => cases h
  | stop =>
      simp only [step] at h
      split at h
      next => cases h
      next hc hne =>
        exact Option.some.inj h ▸ .stop hc hne
      next => cases h
  | control created => exact controlStep_move h
  | thread opened back exp => exact threadStep_move h
  | get client idx back =>
      obtain ⟨⟨v, t⟩, hget, rfl⟩ := Option.map_eq_some_iff.mp h
      obtain ⟨⟨w, mem⟩, hg, heq⟩ := Option.map_eq_some_iff.mp hget
      injection heq with hv ht
      subst hv ht
      exact .get hg
  | tickCount client back =>
      obtain ⟨⟨n, t⟩, hget, rfl⟩ := Option.map_eq_some_iff.mp h
      obtain ⟨⟨w, mem⟩, hg, heq⟩ := Option.map_eq_some_iff.mp hget
      injection heq with hv ht
      subst hv ht
      exact .tickCount hg

-- ============================================================== the threads

/-- There is no update thread while one is being started, and there is
one while it is being stopped. -/
structure Placed (s : UpdateLoop) : Prop where
  starting : s.control = .startTicks ∨ s.control = .create →
    s.thread = .absent
  stopping : s.control = .join → s.thread ≠ .absent

/-- A move of an update thread that is there. -/
theorem Placed.goto (hp : Placed s) (hold : s.thread ≠ .absent)
    (hcontrol : s'.control = s.control) (hnew : s'.thread ≠ .absent) :
    Placed s' := by
  refine ⟨fun hc => ?_, fun _ => hnew⟩
  rw [hcontrol] at hc
  exact absurd (hp.starting hc) hold

theorem placed_move (hp : Placed s) (hm : LoopMove L s s') : Placed s' := by
  cases hm with
  | start hc ht => exact ⟨fun _ => ht, by simp⟩
  | stop hc ht => exact ⟨by simp, fun _ => ht⟩
  | ticks hc => exact ⟨fun _ => hp.starting (.inl hc), by simp⟩
  | create | refused | join => exact ⟨by simp, by simp⟩
  | boot ht | noTimer ht | early ht | begin ht | set ht | count ht =>
      exact hp.goto (by simp [ht]) rfl (by simp)
  | @check tick back g mem ht hg =>
      exact hp.goto (by simp [ht]) rfl (by cases g <;> simp [afterCheck])
  | get | tickCount => exact ⟨hp.starting, hp.stopping⟩

-- =============================================================== the values

/-- The nodes the current round has not come to. -/
def todo : ThreadPc → List CncNodeIdx
  | .sets todo _ => todo
  | _ => []

/-- Outside `update_all_nodes`. -/
def Between : ThreadPc → Prop
  | .sets _ _ => False
  | _ => True

/-- The rounds a node has been set in. -/
def settled (s : UpdateLoop) (idx : CncNodeIdx) : List Nat :=
  if idx ∈ todo s.thread then s.rounds.dropLast else s.rounds

theorem todo_between {p : ThreadPc} (h : Between p) : todo p = [] := by
  cases p <;> first | rfl | cases h

theorem settled_between (h : todo s.thread = []) (idx : CncNodeIdx) :
    s.settled idx = s.rounds := by
  rw [settled, h]
  exact if_neg List.not_mem_nil

/-- The rounds a node has been set in are the first ones. -/
theorem settled_pre (s : UpdateLoop) (idx : CncNodeIdx) :
    s.settled idx <+: s.rounds := by
  unfold settled
  split
  · exact List.dropLast_prefix _
  · exact List.prefix_rfl

theorem mem_updateOrder (idx : CncNodeIdx) : idx ∈ updateOrder := by
  cases idx <;> decide

/-- What the nodes hold, and where the seeds are. -/
structure Sampled (L : Libm D) (s : UpdateLoop) : Prop where
  nodes : ∀ idx, s.mem.hist (.node idx) = L.values idx (s.settled idx)
  seeds : ∀ idx, s.seeds idx = L.seedAt idx (s.settled idx).length
  round : ∀ todo tick, s.thread = .sets todo tick →
    todo.Nodup ∧ s.rounds = s.rounds.dropLast ++ [tick]

/-- Moves that sample nothing. -/
theorem Sampled.frame (hi : Sampled L s)
    (hhist : ∀ idx, s'.mem.hist (.node idx) = s.mem.hist (.node idx))
    (hseeds : s'.seeds = s.seeds) (hrounds : s'.rounds = s.rounds)
    (hthread : s'.thread = s.thread
      ∨ (todo s.thread = [] ∧ Between s'.thread)) : Sampled L s' := by
  have hsettled : ∀ idx, s'.settled idx = s.settled idx := by
    intro idx
    rcases hthread with h | ⟨hold, hnew⟩
    · simp only [settled, h, hrounds]
    · rw [settled_between hold, settled_between (todo_between hnew), hrounds]
  refine ⟨?_, ?_, ?_⟩
  · intro idx
    rw [hhist, hsettled]
    exact hi.nodes idx
  · intro idx
    rw [hseeds, hsettled]
    exact hi.seeds idx
  · intro todo tick ht
    rcases hthread with h | ⟨-, hnew⟩
    · rw [hrounds]
      exact hi.round todo tick (h ▸ ht)
    · rw [ht] at hnew
      cases hnew

/-- A round begins: every node is one round behind. -/
theorem sampled_begin {tick n : Nat} (hi : Sampled L s)
    (ht : s.thread = .read tick) :
    Sampled L
      { s with
        thread := .sets updateOrder ((tick + n) % 2 ^ 64)
        rounds := s.rounds ++ [(tick + n) % 2 ^ 64]
        elapsed := s.elapsed ++ [n] } := by
  have hbetween : todo s.thread = [] := by rw [ht]; rfl
  have hsettled : ∀ idx, settled
      { s with
        thread := .sets updateOrder ((tick + n) % 2 ^ 64)
        rounds := s.rounds ++ [(tick + n) % 2 ^ 64]
        elapsed := s.elapsed ++ [n] } idx = s.settled idx := by
    intro idx
    rw [settled_between hbetween]
    exact (if_pos (mem_updateOrder idx)).trans List.dropLast_concat
  refine ⟨?_, ?_, ?_⟩
  · intro idx
    rw [hsettled]
    exact hi.nodes idx
  · intro idx
    rw [hsettled]
    exact hi.seeds idx
  · intro todo tick' ht'
    injection ht' with htodo htick
    subst htodo htick
    exact ⟨by decide, by rw [List.dropLast_concat]⟩

/-- A node is set: it has caught up with the round. -/
theorem sampled_set {idx : CncNodeIdx} {rest : List CncNodeIdx} {tick : Nat}
    (hi : Sampled L s) (ht : s.thread = .sets (idx :: rest) tick) :
    Sampled L { s.setNode L idx tick with thread := .sets rest tick } := by
  obtain ⟨hnodup, hrounds⟩ := hi.round _ _ ht
  obtain ⟨hfresh, hrest⟩ := List.nodup_cons.mp hnodup
  have hbehind : s.settled idx = s.rounds.dropLast := by
    rw [settled, ht]
    exact if_pos List.mem_cons_self
  have hself : settled { s.setNode L idx tick with thread := .sets rest tick }
      idx = s.rounds := if_neg hfresh
  have hother : ∀ i, i ≠ idx →
      settled { s.setNode L idx tick with thread := .sets rest tick } i
        = s.settled i := by
    intro i hne
    simp only [settled, ht, todo, setNode, List.mem_cons, hne, false_or]
  refine ⟨?_, ?_, ?_⟩
  · intro i
    by_cases h : i = idx
    · subst h
      rw [hself, hrounds, L.values_snoc, ← hbehind, ← hi.nodes,
        Libm.roundValue, ← hi.seeds]
      exact Memory.hist_store_self _ _ _ _
    · rw [hother i h, ← hi.nodes]
      exact Memory.hist_store_ne _ _ _ (by simpa using h)
  · intro i
    by_cases h : i = idx
    · subst h
      have hlen : s.rounds.length = (s.settled i).length + 1 := by
        rw [hrounds, List.length_append, hbehind]
        rfl
      rw [hself, hlen, L.seedAt_succ, ← hi.seeds, ← L.sample_seed]
      exact if_pos rfl
    · rw [hother i h, ← hi.seeds]
      exact if_neg h
  · intro todo' tick' ht'
    injection ht' with htodo htick
    subst htodo htick
    exact ⟨hrest, hrounds⟩

theorem sampled_move (hp : Placed s) (hi : Sampled L s)
    (hm : LoopMove L s s') : Sampled L s' := by
  -- a store elsewhere leaves the nodes alone
  have hnode : ∀ (t : Thread) {l : Loc} (v : l.Val) (idx : CncNodeIdx),
      Loc.node idx ≠ l →
      (s.mem.store t l v).hist (.node idx) = s.mem.hist (.node idx) :=
    fun t _ v _ hne => Memory.hist_store_ne s.mem t v hne
  cases hm with
  | start | stop | ticks =>
      exact hi.frame (fun idx => hnode _ _ idx (by simp)) rfl rfl (.inl rfl)
  | create hc =>
      have ht := hp.starting (.inr hc)
      exact hi.frame (fun _ => rfl) rfl rfl (.inr ⟨by rw [ht]; rfl, trivial⟩)
  | refused => exact hi.frame (fun _ => rfl) rfl rfl (.inl rfl)
  | join _ ht | boot ht | noTimer ht | early ht =>
      exact hi.frame (fun _ => rfl) rfl rfl (.inr ⟨by rw [ht]; rfl, trivial⟩)
  | @check tick back g mem ht hg =>
      have hb : Between (afterCheck tick g) := by cases g <;> trivial
      exact hi.frame (fun _ => congrFun (Memory.hist_load hg) _) rfl rfl
        (.inr ⟨by rw [ht]; rfl, hb⟩)
  | begin ht => exact sampled_begin hi ht
  | set ht => exact sampled_set hi ht
  | count ht =>
      exact hi.frame (fun idx => hnode _ _ idx (by simp)) rfl rfl
        (.inr ⟨by rw [ht]; rfl, trivial⟩)
  | get hg | tickCount hg =>
      exact hi.frame (fun _ => congrFun (Memory.hist_load hg) _) rfl rfl
        (.inl rfl)

-- ================================================================ the ticks

/-- What the update thread knows of the time where it stands. -/
def OnTime (s : UpdateLoop) : ThreadPc → Prop
  | .boot => s.elapsed = []
  | .check tick => tick = s.elapsed.sum % 2 ^ 64
  | .read tick => tick = s.elapsed.sum % 2 ^ 64
  | .sets _ tick => tick = s.elapsed.sum % 2 ^ 64
  | _ => True

/-- Where the time stands, and the tick count between the rounds. -/
structure Timed (s : UpdateLoop) : Prop where
  thread : OnTime s s.thread
  created : s.control = .create → s.elapsed = []
  count : Between s.thread →
    (s.mem.hist .tickCount).getLast? = some (s.elapsed.sum % 2 ^ 64)

/-- Moves that leave the time and the tick count alone. -/
theorem Timed.frame (hi : Timed s)
    (hhist : s'.mem.hist .tickCount = s.mem.hist .tickCount)
    (hel : s'.elapsed = s.elapsed)
    (hcontrol : s'.control = .create → s'.elapsed = [])
    (hthread : OnTime s s'.thread)
    (hbetween : Between s'.thread → Between s.thread) : Timed s' := by
  refine ⟨?_, hcontrol, fun hb => ?_⟩
  · revert hthread
    cases s'.thread <;> simp only [OnTime, hel] <;> exact id
  · rw [hhist, hel]
    exact hi.count (hbetween hb)

theorem timed_move (hp : Placed s) (hi : Timed s) (hm : LoopMove L s s') :
    Timed s' := by
  have hcount : ∀ (t : Thread) {l : Loc} (v : l.Val), Loc.tickCount ≠ l →
      (s.mem.store t l v).hist .tickCount = s.mem.hist .tickCount :=
    fun t _ v hne => Memory.hist_store_ne s.mem t v hne
  have hthread := hi.thread
  cases hm with
  | start | stop =>
      exact hi.frame (hcount _ _ (by simp)) rfl (by simp) hthread id
  | ticks hc =>
      have ht := hp.starting (.inl hc)
      refine ⟨?_, fun _ => rfl, fun _ => ?_⟩
      · show OnTime _ s.thread
        rw [ht]
        trivial
      · exact Memory.getLast_store s.mem (.client 0) .tickCount (0 : Nat)
  | create hc =>
      have ht := hp.starting (.inr hc)
      exact hi.frame rfl rfl (by simp) (hi.created hc) (by rw [ht]; exact id)
  | refused => exact hi.frame rfl rfl (by simp) hthread id
  | join _ ht => exact hi.frame rfl rfl (by simp) trivial (by rw [ht]; exact id)
  | boot ht =>
      rw [ht] at hthread
      refine hi.frame rfl rfl hi.created ?_ (by rw [ht]; exact id)
      show 0 = s.elapsed.sum % 2 ^ 64
      rw [hthread]
      rfl
  | noTimer ht =>
      exact hi.frame rfl rfl hi.created trivial (by rw [ht]; exact id)
  | @check tick back g mem ht hg =>
      rw [ht] at hthread
      refine hi.frame (congrFun (Memory.hist_load hg) _) rfl hi.created ?_
        (by rw [ht]; exact fun _ => trivial)
      cases g
      · trivial
      · exact hthread
  | early ht =>
      rw [ht] at hthread
      exact hi.frame rfl rfl hi.created hthread (by rw [ht]; exact id)
  | @begin tick n ht =>
      rw [ht] at hthread
      refine ⟨?_, fun hc => ?_, fun hb => hb.elim⟩
      · show (tick + n) % 2 ^ 64 = (s.elapsed ++ [n]).sum % 2 ^ 64
        rw [List.sum_append, hthread]
        simp
      · have habsent := hp.starting (.inr hc)
        rw [ht] at habsent
        cases habsent
  | set ht =>
      rw [ht] at hthread
      exact hi.frame (hcount _ _ (by simp)) rfl hi.created hthread
        (fun hb => hb.elim)
  | @count tick ht =>
      rw [ht] at hthread
      refine ⟨hthread, hi.created, fun _ => ?_⟩
      exact (Memory.getLast_store s.mem .update .tickCount tick).trans
        (congrArg some hthread)
  | get hg | tickCount hg =>
      exact hi.frame (congrFun (Memory.hist_load hg) _) rfl hi.created hthread
        id

-- ============================================================ what is seen

/-- Who stores to the nodes and the tick count: the update thread, as
long as there is one. -/
def owner : ThreadPc → Thread
  | .absent => .client 0
  | _ => .update

/-- Who stores to a location has seen all of it. -/
structure Seen (s : UpdateLoop) : Prop where
  valid : s.mem.Valid
  flag : s.mem.Caught (.client 0) .running
  owned : ∀ l, l ≠ .running → s.mem.Caught (owner s.thread) l

/-- Moves that load or do not touch the memory. -/
theorem Seen.frame (hi : Seen s) (hv : s'.mem.Valid)
    (hc : ∀ u l, s.mem.Caught u l → s'.mem.Caught u l)
    (howner : owner s'.thread = owner s.thread) : Seen s' := by
  refine ⟨hv, hc _ _ hi.flag, fun l hl => ?_⟩
  rw [howner]
  exact hc _ _ (hi.owned l hl)

/-- Stores by the owner. -/
theorem Seen.store (hi : Seen s) {l : Loc} (v : l.Val) (hl : l ≠ .running)
    (hmem : s'.mem = s.mem.store (owner s.thread) l v)
    (howner : owner s'.thread = owner s.thread) : Seen s' := by
  refine ⟨?_, ?_, fun l' hl' => ?_⟩
  · rw [hmem]
    exact hi.valid.store _ _ _
  · rw [hmem]
    exact hi.flag.store_ne _ v hl.symm
  · rw [hmem, howner]
    by_cases h : l' = l
    · subst h
      exact Memory.Caught.store_self _ _ _ _
    · exact (hi.owned l' hl').store_ne _ v h

/-- A store of `g_running`. -/
theorem Seen.raise (hi : Seen s) {g : Bool}
    (hmem : s'.mem = s.mem.store (.client 0) .running g)
    (hthread : s'.thread = s.thread) : Seen s' := by
  refine ⟨?_, ?_, fun l hl => ?_⟩
  · rw [hmem]
    exact hi.valid.store _ _ _
  · rw [hmem]
    exact Memory.Caught.store_self _ _ _ _
  · rw [hmem, hthread]
    exact (hi.owned l hl).store_ne _ _ hl

theorem seen_move (hp : Placed s) (hi : Seen s) (hm : LoopMove L s s') :
    Seen s' := by
  cases hm with
  | start | stop => exact hi.raise rfl rfl
  | ticks hc =>
      have ht : owner s.thread = .client 0 := by
        rw [hp.starting (.inl hc)]
        rfl
      exact hi.store (l := .tickCount) (0 : Nat) (by simp) (by rw [ht]) rfl
  | create hc =>
      have ht := hp.starting (.inr hc)
      refine ⟨hi.valid.sync _ _, hi.flag.sync_of hi.valid _ _, fun l hl => ?_⟩
      have howned := hi.owned l hl
      rw [ht] at howned
      exact howned.sync hi.valid _
  | refused => exact hi.frame hi.valid (fun _ _ => id) rfl
  | join _ ht =>
      refine ⟨hi.valid.sync _ _, hi.flag.sync_of hi.valid _ _, fun l hl => ?_⟩
      have howned := hi.owned l hl
      rw [ht] at howned
      exact howned.sync hi.valid _
  | boot ht | noTimer ht | early ht | begin ht =>
      exact hi.frame hi.valid (fun _ _ => id) (by rw [ht]; rfl)
  | @check tick back g mem ht hg =>
      refine hi.frame (hi.valid.load hg) (fun _ _ hc => hc.load hi.valid hg) ?_
      rw [ht]
      cases g <;> rfl
  | @set idx rest tick ht =>
      refine hi.store (l := .node idx)
        (L.sample idx (L.seconds tick) (s.seeds idx)).1 (by simp) ?_
        (by rw [ht]; rfl)
      rw [ht]
      rfl
  | @count tick ht =>
      refine hi.store (l := .tickCount) tick (by simp) ?_ (by rw [ht]; rfl)
      rw [ht]
      rfl
  | get hg | tickCount hg =>
      exact hi.frame (hi.valid.load hg) (fun _ _ hc => hc.load hi.valid hg) rfl

-- ================================================================ the reads

/-- What has been read: each value is that of a round, by its position,
and no reader goes backwards in a node. -/
structure ReadsInv (L : Libm D) (s : UpdateLoop) : Prop where
  seen : ∀ e ∈ s.reads,
    e.position ≤ s.mem.view (.client e.client) (.node e.idx)
  value : ∀ e ∈ s.reads,
    (L.values e.idx s.rounds)[e.position]? = some e.value
  order : s.reads.Pairwise fun d e =>
    d.client = e.client → d.idx = e.idx → d.position ≤ e.position

/-- Moves that read no node. -/
theorem ReadsInv.frame (hi : ReadsInv L s) (hreads : s'.reads = s.reads)
    (hview : ∀ n idx, s.mem.view (.client n) (.node idx)
      ≤ s'.mem.view (.client n) (.node idx))
    (hrounds : s.rounds <+: s'.rounds) : ReadsInv L s' := by
  refine ⟨?_, ?_, ?_⟩
  · intro e he
    rw [hreads] at he
    exact (hi.seen e he).trans (hview _ _)
  · intro e he
    rw [hreads] at he
    obtain ⟨more, hmore⟩ := L.values_pre e.idx hrounds
    have hold := hi.value e he
    obtain ⟨hlt, -⟩ := List.getElem?_eq_some_iff.mp hold
    rw [← hmore, List.getElem?_append_left hlt]
    exact hold
  · rw [hreads]
    exact hi.order

/-- A node is read. -/
theorem readsInv_get {client back : Nat} {idx : CncNodeIdx} {v : Float32Bits}
    {mem : Memory Thread Loc.Val} (hs : Sampled L s) (hi : ReadsInv L s)
    (hg : s.mem.load (.client client) (.node idx) back = some (v, mem)) :
    ReadsInv L
      { s with
        mem
        reads := s.reads
          ++ [⟨client, idx, mem.view (.client client) (.node idx), v⟩] } := by
  have hle := Memory.view_load_le hg
  refine ⟨?_, ?_, ?_⟩
  · intro e he
    rcases List.mem_append.mp he with hold | hnew
    · exact (hi.seen e hold).trans (hle _ _)
    · obtain rfl := List.mem_singleton.mp hnew
      exact Nat.le_refl _
  · intro e he
    rcases List.mem_append.mp he with hold | hnew
    · exact hi.value e hold
    · obtain rfl := List.mem_singleton.mp hnew
      obtain ⟨-, hget, rfl⟩ := Memory.load_some hg
      obtain ⟨more, hmore⟩ := L.values_pre idx (s.settled_pre idx)
      rw [hs.nodes] at hget
      obtain ⟨hlt, -⟩ := List.getElem?_eq_some_iff.mp hget
      simp only [Memory.see, and_self, if_true]
      rw [← hmore, List.getElem?_append_left hlt]
      exact hget
  · refine List.pairwise_append.mpr ⟨hi.order, List.pairwise_singleton _ _, ?_⟩
    intro d hd e he hclient hidx
    obtain rfl := List.mem_singleton.mp he
    have hseen := hi.seen d hd
    rw [hclient, hidx] at hseen
    exact hseen.trans (hle _ _)

theorem readsInv_move (hs : Sampled L s) (hi : ReadsInv L s)
    (hm : LoopMove L s s') : ReadsInv L s' := by
  -- a store of another location, or by the update thread, moves no client
  have hstore : ∀ (t : Thread) {l : Loc} (v : l.Val) (n : Nat)
      (idx : CncNodeIdx), ¬ (Thread.client n = t ∧ Loc.node idx = l) →
      s.mem.view (.client n) (.node idx)
        ≤ (s.mem.store t l v).view (.client n) (.node idx) :=
    fun _ _ v _ _ h => (Memory.view_store_ne s.mem v h).ge
  cases hm with
  | start | stop | ticks | set | count =>
      exact hi.frame rfl (fun n idx => hstore _ _ n idx (by simp))
        List.prefix_rfl
  | create | join =>
      refine hi.frame rfl (fun n idx => ?_) List.prefix_rfl
      exact Memory.view_sync_le s.mem _ _ _ _
  | refused | boot | noTimer | early =>
      exact hi.frame rfl (fun _ _ => Nat.le_refl _) List.prefix_rfl
  | begin =>
      exact hi.frame rfl (fun _ _ => Nat.le_refl _) (List.prefix_append _ _)
  | check _ hg | tickCount hg =>
      exact hi.frame rfl (fun n idx => Memory.view_load_le hg _ _)
        List.prefix_rfl
  | get hg => exact readsInv_get hs hi hg

-- ============================================================= the theorems

/-- The invariant of the loop. -/
structure LoopInv (L : Libm D) (s : UpdateLoop) : Prop where
  placed : Placed s
  sampled : Sampled L s
  timed : Timed s
  seen : Seen s
  reads : ReadsInv L s

theorem loopInv_init (L : Libm D) : LoopInv L init where
  placed := ⟨fun _ => rfl, by simp [init]⟩
  sampled := ⟨fun _ => rfl, fun _ => rfl, by simp [init]⟩
  timed := ⟨trivial, fun _ => rfl, fun _ => rfl⟩
  seen := ⟨Memory.valid_start _, rfl, fun _ _ => rfl⟩
  reads := ⟨by simp [init], by simp [init], .nil⟩

theorem loopInv_step {a : LoopAct} (hi : LoopInv L s)
    (h : step L a s = some s') : LoopInv L s' := by
  have hm := step_move h
  exact ⟨placed_move hi.placed hm, sampled_move hi.placed hi.sampled hm,
    timed_move hi.placed hi.timed hm, seen_move hi.placed hi.seen hm,
    readsInv_move hi.sampled hi.reads hm⟩

theorem loopInv_reachable (hr : Reachable (step L) init s) : LoopInv L s :=
  hr.invariant (loopInv_init L) loopInv_step

/-- What readers see, in every reachable state, with any number of them,
any interleaving and loads that return old values. Each value read from a
node is the zero of the loader or what the node's simulator computed in
some round, from the round's tick and the seed of that round's number. No
reader sees the rounds of a node out of order. The nodes themselves are
at most one round apart: one that is still to be set has the rounds
before the last, the others have all. -/
theorem reads_in_order (hr : Reachable (step L) init s) :
    (∀ e ∈ s.reads, (L.values e.idx s.rounds)[e.position]? = some e.value)
    ∧ (s.reads.Pairwise fun d e =>
      d.client = e.client → d.idx = e.idx → d.position ≤ e.position)
    ∧ ∀ idx, s.mem.hist (.node idx) = L.values idx
      (if idx ∈ todo s.thread then s.rounds.dropLast else s.rounds) := by
  have hi := loopInv_reachable hr
  exact ⟨hi.reads.value, hi.reads.order, hi.sampled.nodes⟩

/-- A C library on rationals that can be run: no trigonometry, and seeds
that count. -/
def toyLibm : Libm ℚ where
  ofNat := fun n => n
  float := id
  cast := fun x => BitVec.ofInt 32 x.floor
  pi := 3
  sin := id
  cos := id
  exp := id
  log := id
  sqrt := id
  randR := fun seed => (seed.toNat % 8, seed + 1)
  randMax := 7

/-- A start and one round. -/
def oneRound : List LoopAct :=
  [.start, .control true, .control true, .thread true 0 none,
    .thread true 0 none, .thread true 0 (some 1)]
  ++ List.replicate 10 (.thread true 0 none)

/-- A reader that sees the old value of a node first, then the new
one. -/
theorem reads_in_order_oneRound :
    ∃ s, exec (step toyLibm)
        (oneRound ++ [.get 7 .axisY 1, .get 7 .axisY 0]) init = some s
      ∧ s.reads.map NodeRead.position = [0, 1]
      ∧ (∀ e ∈ s.reads,
        (toyLibm.values e.idx s.rounds)[e.position]? = some e.value) := by
  have hrun : (exec (step toyLibm)
      (oneRound ++ [.get 7 .axisY 1, .get 7 .axisY 0]) init).map
      (fun s => s.reads.map NodeRead.position) = some [0, 1] := by
    decide +kernel
  obtain ⟨s, hs, hpos⟩ := Option.map_eq_some_iff.mp hrun
  exact ⟨s, hs, hpos, (reads_in_order (reachable_of_exec hs)).1⟩

/-- After a stop. Whenever there is no update thread, the thread that
starts and stops the loop can read the nodes and the tick count, and
whatever its relaxed loads return is what the last round left: in all
nine nodes the value of that round, and the sum of the expirations since
the last start. -/
theorem snapshot_when_stopped (hr : Reachable (step L) init s)
    (ht : s.thread = .absent) :
    (∀ idx, ∃ v t, s.dataSourceGet 0 idx 0 = some (v, t))
    ∧ (∀ idx back v t, s.dataSourceGet 0 idx back = some (v, t) →
      (L.values idx s.rounds).getLast? = some v)
    ∧ ∀ back n t, s.updateLoopTickCount 0 back = some (n, t) →
      n = s.elapsed.sum % 2 ^ 64 := by
  have hi := loopInv_reachable hr
  have hcaught : ∀ l, l ≠ .running → s.mem.Caught (.client 0) l := by
    intro l hl
    have howned := hi.seen.owned l hl
    rw [ht] at howned
    exact howned
  have hsettled : ∀ idx, s.mem.hist (.node idx) = L.values idx s.rounds := by
    intro idx
    rw [hi.sampled.nodes, settled_between (by rw [ht]; rfl)]
  refine ⟨?_, ?_, ?_⟩
  · intro idx
    obtain ⟨v, mem, hload⟩ :=
      Memory.exists_load hi.seen.valid (.client 0) (.node idx)
    exact ⟨v, _, by simp only [dataSourceGet, hload]; rfl⟩
  · intro idx back v t hget
    obtain ⟨⟨w, mem⟩, hload, heq⟩ := Option.map_eq_some_iff.mp hget
    injection heq with hv
    subst hv
    rw [← hsettled]
    exact Memory.load_caught hi.seen.valid (hcaught _ (by simp)) hload
  · intro back n t hget
    obtain ⟨⟨w, mem⟩, hload, heq⟩ := Option.map_eq_some_iff.mp hget
    injection heq with hn
    subst hn
    have hlast := Memory.load_caught hi.seen.valid (hcaught _ (by simp)) hload
    rw [hi.timed.count (by rw [ht]; trivial)] at hlast
    exact (Option.some.inj hlast).symm

/-- A start, one round, and a stop. -/
def oneRoundStopped : List LoopAct :=
  oneRound ++ [.stop, .thread true 0 none, .control true]

/-- What is read behind it is of that round. -/
theorem snapshot_when_stopped_oneRound :
    ∃ s, exec (step toyLibm) oneRoundStopped init = some s
      ∧ s.rounds = [1]
      ∧ ∀ idx back v t, s.dataSourceGet 0 idx back = some (v, t) →
        (toyLibm.values idx [1]).getLast? = some v := by
  have hrun : (exec (step toyLibm) oneRoundStopped init).map
      (fun s => (s.rounds, s.thread)) = some ([1], .absent) := by
    decide +kernel
  obtain ⟨s, hs, heq⟩ := Option.map_eq_some_iff.mp hrun
  injection heq with hrounds ht
  have hsnap := (snapshot_when_stopped (reachable_of_exec hs) ht).2.1
  rw [hrounds] at hsnap
  exact ⟨s, hs, hrounds, hsnap⟩

end UpdateLoop

end EdgeIpc.Opcua
