/-
What the producer thread of a node knows at each point of its loop.

# The tally

What the snapshot law is about is gathered in a `Tally`: the frames
processed, the snapshots pushed, the count, the FSM's state and where the
producer stands inside it. Only the producer's own steps change it, as
long as its thread exists, so every other step is a frame by `rfl`.

What a step of the producer can be is said once (`ProducerMove`), and
each of the facts below is read off it, move by move.

`At` says, point by point, what the tally looks like. Between two frames
everything processed has been counted and pushed (`Settled`). From
`process` to the push one frame is under way (`Pending`): first the FSM
still answers for the frames before it, after the alarm check for that
frame as well. In between stands the call of `fault`, which nobody
disturbs (`Raising`): the control thread enters the state machine only
before the thread exists and after it is joined.

`Snapshots` is the law itself, for the snapshots pushed so far.
-/
import EdgeIpc.Daemon.Proofs.Calls
import EdgeIpc.Daemon.Proofs.Processor
import EdgeIpc.Daemon.Proofs.Receiver
import EdgeIpc.Sdn.TelemetryNode

namespace EdgeIpc.Sdn.TelemetryNode

open Lib Daemon StateManager ThresholdDetector

variable {K : Type} {s s' : TelemetryNode K}
  {movedFrom : TelemetryFrame K → TelemetryFrame K}

-- ============================================================= the samples

/-- The frame popped and not yet processed. -/
def inHand : ProducerPc K → List (TelemetryFrame K)
  | .process f => [f]
  | _ => []

/-- After an access of `pop`, what the producer has in hand is what the
access handed out. -/
theorem popped_afterPop {r r' : TelemetryReceiver K}
    (h : r.step movedFrom .consumer = some r') :
    r'.popped = r.popped ++ inHand (afterPop r r') := by
  have hhand : inHand (afterPop r r') = r.handedOut r' := by
    unfold afterPop TelemetryReceiver.handedOut
    cases r'.consumer with
    | idle => cases r.consumer <;> rfl
    | _ => rfl
  rw [hhand]
  exact TelemetryReceiver.popped_handedOut h

variable [Field K] [LinearOrder K]

/-- The processed frames are the popped ones, and the processor is where
they put it. -/
structure Sampled (movedFrom : TelemetryFrame K → TelemetryFrame K)
    (blank : TelemetryFrame K) (s : TelemetryNode K) : Prop where
  ring : Reachable (TelemetryReceiver.step movedFrom) (.init blank) s.receiver
  popped : s.receiver.popped = s.processed ++ inHand s.producer
  proc : ProcessorInv s.processor 10 80.0 20.0 3 (samples s.processed)

/-- The metric of frame `f` after the frames `fs`. -/
structure MetricFor (fs : List (TelemetryFrame K)) (f : TelemetryFrame K)
    (m : ProcessedMetric K) : Prop where
  filtered : m.filteredValue = mean 10 (samples (fs ++ [f]))
  alarm : m.alarmFlag = true ↔ Alarming (fs ++ [f])

/-- Some frame so far ended a run of three out of band. -/
def Faulted (fs : List (TelemetryFrame K)) : Prop :=
  ∃ gs, gs <+: fs ∧ Alarming gs

theorem not_faulted_nil : ¬ Faulted ([] : List (TelemetryFrame K)) := by
  rintro ⟨gs, hpre, hlen, -⟩
  rw [List.prefix_nil.mp hpre] at hlen
  exact absurd hlen (Nat.not_succ_le_zero 2)

theorem faulted_snoc (fs : List (TelemetryFrame K)) (f : TelemetryFrame K) :
    Faulted (fs ++ [f]) ↔ Faulted fs ∨ Alarming (fs ++ [f]) := by
  constructor
  · rintro ⟨gs, hpre, hal⟩
    rcases List.prefix_concat_iff.mp hpre with rfl | hpre
    · exact .inr hal
    · exact .inl ⟨gs, hpre, hal⟩
  · rintro (⟨gs, hpre, hal⟩ | hal)
    · exact ⟨gs, hpre.trans (List.prefix_append _ _), hal⟩
    · exact ⟨_, List.prefix_refl _, hal⟩

-- =============================================================== the tally

/-- What the snapshot law speaks about. -/
structure Tally (K : Type) where
  nodeId : String
  processed : List (TelemetryFrame K)
  pushed : List (Nat × ProcessedSnapshot K)
  count : Nat
  state : DaemonState
  pc : Pc K

omit [Field K] [LinearOrder K] in
def tally (s : TelemetryNode K) : Tally K :=
  ⟨s.nodeId, s.processed, s.stream.pushed, s.processedCount, s.fsm.state,
    s.fsm.pc producerTid⟩

variable {t : Tally K}

/-- The FSM answers for the frames `fs`. -/
def FsmFor (t : Tally K) (fs : List (TelemetryFrame K)) : Prop :=
  (t.state = .fault ∧ Faulted fs) ∨ (t.state = .running ∧ ¬ Faulted fs)

/-- The snapshot of frame `f` after the frames `fs`. -/
structure SnapshotFor (nodeId : String) (fs : List (TelemetryFrame K))
    (f : TelemetryFrame K) (snap : ProcessedSnapshot K) : Prop where
  nodeId : snap.nodeId = nodeId
  raw : snap.rawValue = f.value
  filtered : snap.filteredValue = mean 10 (samples (fs ++ [f]))
  alarm : snap.alarmActive = true ↔ Alarming (fs ++ [f])
  state : (snap.fsmState = "FAULT" ∧ Faulted (fs ++ [f]))
    ∨ (snap.fsmState = "RUNNING" ∧ ¬ Faulted (fs ++ [f]))

/-- The law for the snapshots pushed so far: the `i`-th is that of the
`i`-th frame processed. -/
def Snapshots (t : Tally K) : Prop :=
  ∀ (i : Nat) (e : Nat × ProcessedSnapshot K), t.pushed[i]? = some e →
    ∃ fs f, fs ++ [f] <+: t.processed ∧ fs.length = i
      ∧ SnapshotFor t.nodeId fs f e.2

/-- Everything processed has been counted and pushed. -/
structure Settled (t : Tally K) : Prop where
  pushed : t.pushed.length = t.processed.length
  count : t.count = t.processed.length % 2 ^ 64
  fsm : FsmFor t t.processed
  pc : t.pc = .idle

/-- Frame `f` is processed and not yet pushed; the frames before it are
`fs`. -/
structure Pending (t : Tally K) (fs : List (TelemetryFrame K))
    (f : TelemetryFrame K) : Prop where
  processed : t.processed = fs ++ [f]
  pushed : t.pushed.length = fs.length

/-- What holds at each point of the loop. -/
def At (t : Tally K) : ProducerPc K → Prop
  | .absent => False
  | .check => Settled t
  | .read => Settled t
  | .pushing => Settled t
  | .pop => Settled t
  | .popping => Settled t
  | .process _ => Settled t
  | .finished => Settled t
  | .store f m => ∃ fs, Pending t fs f ∧ MetricFor fs f m
      ∧ t.count = fs.length % 2 ^ 64 ∧ FsmFor t fs ∧ t.pc = .idle
  | .loadState f m => ∃ fs, Pending t fs f ∧ MetricFor fs f m
      ∧ t.count = fs.length % 2 ^ 64 ∧ FsmFor t fs ∧ t.pc = .idle
      ∧ m.alarmFlag = true
  | .faulting f m => ∃ fs, Pending t fs f ∧ MetricFor fs f m
      ∧ t.count = fs.length % 2 ^ 64 ∧ Raising t.pc t.state
      ∧ m.alarmFlag = true
  | .count f m => ∃ fs, Pending t fs f ∧ MetricFor fs f m
      ∧ t.count = fs.length % 2 ^ 64 ∧ FsmFor t (fs ++ [f]) ∧ t.pc = .idle
  | .snapState f m => ∃ fs, Pending t fs f ∧ MetricFor fs f m
      ∧ t.count = (fs.length + 1) % 2 ^ 64 ∧ FsmFor t (fs ++ [f])
      ∧ t.pc = .idle
  | .push snap => ∃ fs f, Pending t fs f
      ∧ t.count = (fs.length + 1) % 2 ^ 64 ∧ FsmFor t (fs ++ [f])
      ∧ t.pc = .idle ∧ SnapshotFor t.nodeId fs f snap

theorem FsmFor.state {fs : List (TelemetryFrame K)} (h : FsmFor t fs) :
    t.state = .running ∨ t.state = .fault :=
  h.elim (fun h => .inr h.1) fun h => .inl h.1

/-- While the thread exists the FSM is in RUNNING or FAULT. -/
theorem At.state {p : ProducerPc K} (h : At t p) :
    t.state = .running ∨ t.state = .fault := by
  cases p with
  | absent => cases h
  | check => exact h.fsm.state
  | read => exact h.fsm.state
  | pushing => exact h.fsm.state
  | pop => exact h.fsm.state
  | popping => exact h.fsm.state
  | process f => exact h.fsm.state
  | finished => exact h.fsm.state
  | store f m =>
      obtain ⟨fs, -, -, -, hfsm, -⟩ := h
      exact hfsm.state
  | loadState f m =>
      obtain ⟨fs, -, -, -, hfsm, -⟩ := h
      exact hfsm.state
  | faulting f m =>
      obtain ⟨fs, -, -, -, hraise, -⟩ := h
      generalize t.pc = pc at hraise
      generalize t.state = st at hraise ⊢
      cases pc with
      | faultCas a => exact .inl hraise
      | copyStateCb n p a => exact .inr hraise.2
      | callStateCb n p c a => exact .inr hraise.2
      | copyAlarmCb a => exact .inr hraise
      | callAlarmCb a c => exact .inr hraise
      | _ => cases hraise
  | count f m =>
      obtain ⟨fs, -, -, -, hfsm, -⟩ := h
      exact hfsm.state
  | snapState f m =>
      obtain ⟨fs, -, -, -, hfsm, -⟩ := h
      exact hfsm.state
  | push snap =>
      obtain ⟨fs, f, -, -, hfsm, -⟩ := h
      exact hfsm.state

/-- A frame without an alarm leaves the FSM's answer as it is. -/
theorem FsmFor.calm {fs : List (TelemetryFrame K)} {f : TelemetryFrame K}
    (h : FsmFor t fs) (hcalm : ¬ Alarming (fs ++ [f])) :
    FsmFor t (fs ++ [f]) := by
  unfold FsmFor at h ⊢
  rw [faulted_snoc]
  simpa only [hcalm, or_false] using h

/-- Once in FAULT, the answer stays right. -/
theorem FsmFor.of_fault {fs : List (TelemetryFrame K)}
    {f : TelemetryFrame K} (h : FsmFor t fs) (hst : t.state ≠ .running) :
    FsmFor t (fs ++ [f]) := by
  rcases h with ⟨hf, hfs⟩ | ⟨hr, -⟩
  · exact .inl ⟨hf, (faulted_snoc fs f).mpr (.inl hfs)⟩
  · exact absurd hr hst

-- ========================================================== the producer

/-- Points of the loop with no frame under way. -/
def Between : ProducerPc K → Prop
  | .check | .read | .pushing | .pop | .popping => True
  | _ => False

/-- What a step of the producer can be. -/
inductive ProducerMove (movedFrom : TelemetryFrame K → TelemetryFrame K)
    (now : Int) (s : TelemetryNode K) : TelemetryNode K → Prop
  /-- around the loop, with or without an access of the ring -/
  | around {rx : TelemetryReceiver K} {p : ProducerPc K}
      (hp : Between s.producer) (hp' : Between p)
      (hring : rx = s.receiver ∨ ∃ a, s.receiver.step movedFrom a = some rx)
      (hpop : rx.popped = s.receiver.popped) :
      ProducerMove movedFrom now s { s with receiver := rx, producer := p }
  | finish (hp : s.producer = .check) (hrun : s.running = false) :
      ProducerMove movedFrom now s { s with producer := .finished }
  | take {rx : TelemetryReceiver K} {f : TelemetryFrame K}
      (hp : Between s.producer)
      (hring : s.receiver.step movedFrom .consumer = some rx)
      (hpop : rx.popped = s.receiver.popped ++ [f]) :
      ProducerMove movedFrom now s
        { s with receiver := rx, producer := .process f }
  | process {f : TelemetryFrame K} (hp : s.producer = .process f) :
      ProducerMove movedFrom now s (s.processFrame f)
  | alarm {f : TelemetryFrame K} {m : ProcessedMetric K}
      (hp : s.producer = .store f m) (hal : m.alarmFlag = true) :
      ProducerMove movedFrom now s
        { s with lastFiltered := m.filteredValue, producer := .loadState f m }
  | calm {f : TelemetryFrame K} {m : ProcessedMetric K}
      (hp : s.producer = .store f m) (hal : ¬ m.alarmFlag = true) :
      ProducerMove movedFrom now s
        { s with lastFiltered := m.filteredValue, producer := .count f m }
  | raise {f : TelemetryFrame K} {m : ProcessedMetric K} (a : Alarm K)
      (hp : s.producer = .loadState f m) (hrun : s.fsm.state = .running) :
      ProducerMove movedFrom now s
        { s with
          fsm := s.fsm.goto producerTid (.faultCas a)
          producer := .faulting f m }
  | stand {f : TelemetryFrame K} {m : ProcessedMetric K}
      (hp : s.producer = .loadState f m) (hrun : s.fsm.state ≠ .running) :
      ProducerMove movedFrom now s { s with producer := .count f m }
  /-- inside `fault`, and out of it when the call is over -/
  | fault {f : TelemetryFrame K} {m : ProcessedMetric K}
      {fsm : StateManager K} {p : Pc K} {es : List (Event K)}
      {next : DaemonState} (hp : s.producer = .faulting f m)
      (hm : Moves s.fsm producerTid p es next fsm) :
      ProducerMove movedFrom now s
        { s with
          fsm
          producer := match fsm.pc producerTid with
            | .idle => .count f m
            | _ => .faulting f m }
  | count {f : TelemetryFrame K} {m : ProcessedMetric K}
      (hp : s.producer = .count f m) :
      ProducerMove movedFrom now s
        { s with
          processedCount := (s.processedCount + 1) % 2 ^ 64
          producer := .snapState f m }
  | snap {f : TelemetryFrame K} {m : ProcessedMetric K}
      (hp : s.producer = .snapState f m) :
      ProducerMove movedFrom now s
        { s with producer := .push (s.snapshot f m now) }
  | push {snap : ProcessedSnapshot K} (hp : s.producer = .push snap) :
      ProducerMove movedFrom now s
        { s with stream := s.stream.pushSnapshot snap, producer := .pop }

/-- After an access of `pop` the producer has a frame in hand, or is
between two frames. -/
theorem afterPop_move {now : Int} {rx : TelemetryReceiver K}
    (hp : Between s.producer)
    (hrx : s.receiver.step movedFrom .consumer = some rx) :
    ProducerMove movedFrom now s
      { s with receiver := rx, producer := afterPop s.receiver rx } := by
  have hpop := popped_afterPop hrx
  cases hafter : afterPop s.receiver rx with
  | process f =>
      rw [hafter] at hpop
      exact .take hp hrx hpop
  | check | popping =>
      rw [hafter] at hpop
      exact .around hp trivial (.inr ⟨_, hrx⟩)
        (hpop.trans (List.append_nil _))
  | _ =>
      unfold afterPop at hafter
      cases hc : rx.consumer <;> rw [hc] at hafter <;>
        cases hb : s.receiver.consumer <;> rw [hb] at hafter <;> cases hafter

theorem producerStep_move {frame : Option (TelemetryFrame K)} {now : Int}
    (h : s.producerStep movedFrom frame now = some s') :
    ProducerMove movedFrom now s s' := by
  unfold producerStep at h
  split at h
  next => cases h
  next hp =>
    injection h with h
    subst h
    split
    next => exact .around (by rw [hp]; trivial) trivial (.inl rfl) rfl
    next hrun => exact .finish hp (Bool.eq_false_iff.mpr hrun)
  next hp =>
    have hb : Between s.producer := by rw [hp]; trivial
    split at h
    next =>
      injection h with h
      subst h
      exact .around hb trivial (.inl rfl) rfl
    next f =>
      obtain ⟨rx, hrx, rfl⟩ := Option.map_eq_some_iff.mp h
      exact .around hb trivial (.inr ⟨_, hrx⟩)
        (TelemetryReceiver.popped_push hrx)
  next hp =>
    obtain ⟨rx, hrx, rfl⟩ := Option.map_eq_some_iff.mp h
    refine .around (by rw [hp]; trivial) ?_ (.inr ⟨_, hrx⟩)
      (TelemetryReceiver.popped_producer hrx)
    cases rx.producer <;> trivial
  next hp =>
    obtain ⟨rx, hrx, rfl⟩ := Option.map_eq_some_iff.mp h
    exact .around (by rw [hp]; trivial) trivial (.inr ⟨_, hrx⟩)
      (TelemetryReceiver.popped_pop hrx)
  next hp =>
    obtain ⟨rx, hrx, rfl⟩ := Option.map_eq_some_iff.mp h
    exact afterPop_move (by rw [hp]; trivial) hrx
  next f hp =>
    injection h with h
    subst h
    exact .process hp
  next f m hp =>
    injection h with h
    subst h
    split
    next hal => exact .alarm hp hal
    next hal => exact .calm hp hal
  next f m hp =>
    split at h
    next hrun =>
      obtain ⟨fsm, hfsm, rfl⟩ := Option.map_eq_some_iff.mp h
      obtain ⟨-, rfl⟩ := call_enters hfsm
      exact .raise _ hp hrun
    next hrun =>
      injection h with h
      subst h
      exact .stand hp hrun
  next f m hp =>
    obtain ⟨fsm, hfsm, rfl⟩ := Option.map_eq_some_iff.mp h
    obtain ⟨p, es, next, hm⟩ := threadStep_moves hfsm
    exact .fault hp hm
  next f m hp =>
    injection h with h
    subst h
    exact .count hp
  next f m hp =>
    injection h with h
    subst h
    exact .snap hp
  next snap hp =>
    obtain ⟨stream, hstream, rfl⟩ := Option.map_eq_some_iff.mp h
    injection hstream with hstream
    subst hstream
    exact .push hp
  next => cases h

/-- What a step of the producer leaves alone; its thread stays in the
loop while the node runs, it touches the FSM only inside `fault`, and it
pushes only where it has a snapshot to push. -/
structure Aside (s s' : TelemetryNode K) : Prop where
  nodeId : s'.nodeId = s.nodeId
  control : s'.control = s.control
  running : s'.running = s.running
  server : s'.server = s.server
  entry : s'.entry = s.entry
  starts : s'.starts = s.starts
  pc : s'.fsm.pc controlTid = s.fsm.pc controlTid
  thread : s.running = true → thread s.producer = .looping →
    thread s'.producer = .looping
  fsm : s'.fsm.state = s.fsm.state
    ∨ ∃ f m p es next, s.producer = .faulting f m
      ∧ Moves s.fsm producerTid p es next s'.fsm
  pushed : (s'.stream.pushed = s.stream.pushed
      ∧ s.processed <+: s'.processed)
    ∨ ∃ snap, s.producer = .push snap ∧ s'.producer = .pop
      ∧ s'.processed = s.processed
      ∧ s'.stream.pushed
        = s.stream.pushed ++ [(s.stream.pushed.length, snap)]

omit [Field K] [LinearOrder K] in
/-- A step inside the producer's own code, or in the ring. -/
theorem aside_local {rx : TelemetryReceiver K} {proc : DataProcessor K}
    {n : Nat} {x : K} {p : ProducerPc K} {fs : List (TelemetryFrame K)}
    (hpre : s.processed <+: fs)
    (hthread : s.running = true → thread p = .looping) :
    Aside s { s with
      receiver := rx, processor := proc, processedCount := n,
      lastFiltered := x, processed := fs, producer := p } :=
  ⟨rfl, rfl, rfl, rfl, rfl, rfl, rfl, fun hrun _ => hthread hrun, .inl rfl,
    .inl ⟨rfl, hpre⟩⟩

omit [Field K] [LinearOrder K] in
theorem thread_between {p : ProducerPc K} (h : Between p) :
    thread p = .looping := by
  cases p <;> first | rfl | cases h

theorem producerStep_aside {frame : Option (TelemetryFrame K)} {now : Int}
    (h : s.producerStep movedFrom frame now = some s') : Aside s s' := by
  have hrefl := List.prefix_refl s.processed
  cases producerStep_move h with
  | around hp hp' => exact aside_local hrefl fun _ => thread_between hp'
  | finish hp hrun =>
      refine aside_local hrefl fun htrue => ?_
      rw [hrun] at htrue
      cases htrue
  | process hp => exact aside_local (List.prefix_append _ _) fun _ => rfl
  | take | alarm | calm | stand | count | snap =>
      exact aside_local hrefl fun _ => rfl
  | raise a hp hrun =>
      exact ⟨rfl, rfl, rfl, rfl, rfl, rfl, goto_pc_ne _ _ (by decide),
        fun _ _ => rfl, .inl rfl, .inl ⟨rfl, hrefl⟩⟩
  | @fault f m fsm p es next hp hm =>
      refine ⟨rfl, rfl, rfl, rfl, rfl, rfl, hm.others _ (by decide),
        fun _ _ => ?_, .inr ⟨f, m, p, es, next, hp, hm⟩, .inl ⟨rfl, hrefl⟩⟩
      dsimp only
      cases fsm.pc producerTid <;> rfl
  | @push snap hp =>
      exact ⟨rfl, rfl, rfl, rfl, rfl, rfl, rfl, fun _ _ => rfl, .inl rfl,
        .inr ⟨snap, hp, rfl, rfl, rfl⟩⟩

/-- Only a thread that exists takes steps. -/
theorem producerStep_exists {frame : Option (TelemetryFrame K)} {now : Int}
    (h : s.producerStep movedFrom frame now = some s') :
    s.producer ≠ .absent := by
  intro hp
  simp only [producerStep, hp] at h
  cases h

/-- Steps that pop and process nothing. -/
theorem Sampled.frame {blank : TelemetryFrame K}
    (hi : Sampled movedFrom blank s)
    (hring : Reachable (TelemetryReceiver.step movedFrom) (.init blank)
      s'.receiver)
    (hpop : s'.receiver.popped = s.receiver.popped)
    (hproc : s'.processor = s.processor)
    (hdone : s'.processed = s.processed)
    (hhand : inHand s'.producer = inHand s.producer) :
    Sampled movedFrom blank s' := by
  refine ⟨hring, ?_, ?_⟩
  · rw [hpop, hdone, hhand]
    exact hi.popped
  · rw [hproc, hdone]
    exact hi.proc

/-- A step of the producer between two points with no frame in hand, the
ring and the processor untouched. -/
theorem Sampled.advance {blank : TelemetryFrame K}
    (hi : Sampled movedFrom blank s) {fsm : StateManager K}
    {stream : StreamQueue (ProcessedSnapshot K)} {n : Nat} {x : K}
    {p : ProducerPc K} (hold : inHand s.producer = [])
    (hnew : inHand p = []) :
    Sampled movedFrom blank
      { s with fsm, stream, processedCount := n, lastFiltered := x,
               producer := p } :=
  hi.frame hi.ring rfl rfl rfl (hnew.trans hold.symm)

omit [Field K] [LinearOrder K] in
theorem inHand_between {p : ProducerPc K} (h : Between p) : inHand p = [] := by
  cases p <;> first | rfl | cases h

theorem sampled_producer {blank : TelemetryFrame K}
    {frame : Option (TelemetryFrame K)} {now : Int}
    (hi : Sampled movedFrom blank s)
    (h : s.producerStep movedFrom frame now = some s') :
    Sampled movedFrom blank s' := by
  have hpopped := hi.popped
  cases producerStep_move h with
  | around hp hp' hring hpop =>
      refine hi.frame ?_ hpop rfl rfl
        ((inHand_between hp').trans (inHand_between hp).symm)
      rcases hring with heq | ⟨a, ha⟩
      · exact heq ▸ hi.ring
      · exact .step a hi.ring ha
  | take hp hring hpop =>
      rw [inHand_between hp, List.append_nil] at hpopped
      refine ⟨.step _ hi.ring hring, ?_, hi.proc⟩
      rw [hpop, hpopped]
      rfl
  | @process f hp =>
      obtain ⟨hproc, -, -, -⟩ := process_spec (by decide) hi.proc f
      rw [← samples_snoc] at hproc
      refine ⟨hi.ring, ?_, hproc⟩
      rw [hp] at hpopped
      show s.receiver.popped = s.processed ++ [f] ++ []
      rw [List.append_nil]
      exact hpopped
  | fault hp hm =>
      refine hi.advance (by rw [hp]; rfl) ?_
      split <;> rfl
  | finish hp | alarm hp | calm hp | raise _ hp | stand hp | count hp
  | snap hp | push hp => exact hi.advance (by rw [hp]; rfl) rfl

-- ============================================= the tally, step by step

/-- `process` takes up one more frame. -/
theorem at_process {blank : TelemetryFrame K}
    (hi : Sampled movedFrom blank s) (h : Settled s.tally)
    (f : TelemetryFrame K) :
    At (s.processFrame f).tally (s.processFrame f).producer := by
  obtain ⟨-, -, -, hflag⟩ := process_spec (by decide) hi.proc f
  have hval := process_mean (by decide) hi.proc f
  rw [← samples_snoc] at hval hflag
  exact ⟨s.processed, ⟨rfl, h.pushed⟩, ⟨hval, hflag⟩, h.count, h.fsm, h.pc⟩

/-- The snapshot taken is the one the law asks for. -/
theorem snapshotFor_snapshot {fs : List (TelemetryFrame K)}
    {f : TelemetryFrame K} {m : ProcessedMetric K} (now : Int)
    (hm : MetricFor fs f m) (hfsm : FsmFor s.tally (fs ++ [f])) :
    SnapshotFor s.nodeId fs f (s.snapshot f m now) := by
  refine ⟨rfl, rfl, hm.filtered, hm.alarm, ?_⟩
  rcases hfsm with ⟨hst, hf⟩ | ⟨hst, hf⟩
  · exact .inl ⟨congrArg stateToString hst, hf⟩
  · exact .inr ⟨congrArg stateToString hst, hf⟩

/-- A push of the pending frame's snapshot settles the tally. -/
theorem settled_push {fs : List (TelemetryFrame K)} {f : TelemetryFrame K}
    (hp : Pending s.tally fs f)
    (hcount : s.processedCount = (fs.length + 1) % 2 ^ 64)
    (hfsm : FsmFor s.tally (fs ++ [f]))
    (hpc : s.fsm.pc producerTid = .idle) (snap : ProcessedSnapshot K)
    (p : ProducerPc K) :
    Settled
      ({ s with stream := s.stream.pushSnapshot snap, producer := p } :
        TelemetryNode K).tally := by
  have hdone : s.processed = fs ++ [f] := hp.processed
  have hpushed : s.stream.pushed.length = fs.length := hp.pushed
  refine ⟨?_, ?_, ?_, hpc⟩
  · show (s.stream.pushed ++ [_]).length = s.processed.length
    rw [hdone, List.length_append, List.length_append, hpushed]
    rfl
  · show s.processedCount = s.processed.length % 2 ^ 64
    rw [hcount, hdone, List.length_append]
    rfl
  · show FsmFor s.tally s.processed
    rw [hdone]
    exact hfsm

/-- The fault is on its way until the call returns, and then it is in. -/
theorem at_faulting {f : TelemetryFrame K} {m : ProcessedMetric K}
    {fsm : StateManager K} {p : Pc K} {es : List (Event K)}
    {next : DaemonState} (hat : At s.tally (.faulting f m))
    (hmv : Moves s.fsm producerTid p es next fsm) :
    At ({ s with
          fsm
          producer := match fsm.pc producerTid with
            | .idle => .count f m
            | _ => .faulting f m } : TelemetryNode K).tally
      (match fsm.pc producerTid with
        | .idle => .count f m
        | _ => .faulting f m) := by
  obtain ⟨fs, ⟨hdone, hpushed⟩, hm, hcount, hraise, hal⟩ := hat
  rcases move_raising hmv.move hraise with hgo | ⟨rfl, rfl⟩
  · have hr : Raising (fsm.pc producerTid) fsm.state := by
      rw [hmv.self, hmv.state]
      exact hgo
    have hbusy : fsm.pc producerTid ≠ .idle := fun hidle => by
      rw [hidle] at hr
      cases hr
    split
    next hidle => exact absurd hidle hbusy
    next => exact ⟨fs, ⟨hdone, hpushed⟩, hm, hcount, hr, hal⟩
  · rw [hmv.self]
    refine ⟨fs, ⟨hdone, hpushed⟩, hm, hcount, .inl ⟨hmv.state, ?_⟩,
      hmv.self⟩
    exact (faulted_snoc fs f).mpr (.inr (hm.alarm.mp hal))

theorem at_between {p : ProducerPc K} (h : Between p) :
    At t p ↔ Settled t := by
  cases p <;> first | rfl | cases h

/-- Every step of the producer leads from one point's facts to the
next's. -/
theorem at_producer {blank : TelemetryFrame K}
    {frame : Option (TelemetryFrame K)} {now : Int}
    (hi : Sampled movedFrom blank s) (hat : At s.tally s.producer)
    (h : s.producerStep movedFrom frame now = some s') :
    At s'.tally s'.producer := by
  cases producerStep_move h with
  | around hp hp' => exact (at_between hp').mpr ((at_between hp).mp hat)
  | finish hp =>
      rw [hp] at hat
      exact hat
  | take hp => exact (at_between hp).mp hat
  | @process f hp =>
      rw [hp] at hat
      exact at_process hi hat f
  | alarm hp hal =>
      rw [hp] at hat
      obtain ⟨fs, hpend, hm, hcount, hfsm, hpc⟩ := hat
      exact ⟨fs, hpend, hm, hcount, hfsm, hpc, hal⟩
  | @calm f m hp hal =>
      rw [hp] at hat
      obtain ⟨fs, hpend, hm, hcount, hfsm, hpc⟩ := hat
      have hcalm : ¬ Alarming (fs ++ [f]) := fun hc => hal (hm.alarm.mpr hc)
      exact ⟨fs, hpend, hm, hcount, hfsm.calm hcalm, hpc⟩
  | raise a hp hrun =>
      rw [hp] at hat
      obtain ⟨fs, hpend, hm, hcount, -, -, hal⟩ := hat
      refine ⟨fs, ⟨hpend.processed, hpend.pushed⟩, hm, hcount, ?_, hal⟩
      show Raising ((s.fsm.goto producerTid _).pc producerTid) s.fsm.state
      rw [goto_pc_self]
      exact hrun
  | stand hp hrun =>
      rw [hp] at hat
      obtain ⟨fs, hpend, hm, hcount, hfsm, hpc, -⟩ := hat
      exact ⟨fs, ⟨hpend.processed, hpend.pushed⟩, hm, hcount,
        hfsm.of_fault hrun, hpc⟩
  | fault hp hm =>
      rw [hp] at hat
      exact at_faulting hat hm
  | count hp =>
      rw [hp] at hat
      obtain ⟨fs, ⟨hdone, hpushed⟩, hm, hcount, hfsm, hpc⟩ := hat
      refine ⟨fs, ⟨hdone, hpushed⟩, hm, ?_, hfsm, hpc⟩
      show (s.processedCount + 1) % 2 ^ 64 = _
      rw [show s.processedCount = fs.length % 2 ^ 64 from hcount,
        Nat.mod_add_mod]
  | @snap f m hp =>
      rw [hp] at hat
      obtain ⟨fs, hpend, hm, hcount, hfsm, hpc⟩ := hat
      exact ⟨fs, f, hpend, hcount, hfsm, hpc,
        snapshotFor_snapshot now hm hfsm⟩
  | @push snap hp =>
      rw [hp] at hat
      obtain ⟨fs, f, hpend, hcount, hfsm, hpc, -⟩ := hat
      exact settled_push hpend hcount hfsm hpc snap _

/-- The law survives as long as no snapshot is added. -/
theorem Snapshots.mono {t t' : Tally K} (h : Snapshots t)
    (hid : t'.nodeId = t.nodeId) (hpushed : t'.pushed = t.pushed)
    (hpre : t.processed <+: t'.processed) : Snapshots t' := by
  intro i e he
  rw [hpushed] at he
  obtain ⟨fs, f, hfs, hlen, hsnap⟩ := h i e he
  exact ⟨fs, f, hfs.trans hpre, hlen, hid ▸ hsnap⟩

/-- A pushed snapshot is the one the law asks for. -/
theorem snapshots_producer {frame : Option (TelemetryFrame K)} {now : Int}
    (hs : Snapshots s.tally) (hat : At s.tally s.producer)
    (h : s.producerStep movedFrom frame now = some s') :
    Snapshots s'.tally := by
  have ha := producerStep_aside h
  rcases ha.pushed with ⟨hpushed, hpre⟩ | ⟨snap, hp, -, hdone, hpushed⟩
  · exact hs.mono ha.nodeId hpushed hpre
  · rw [hp] at hat
    obtain ⟨fs, f, hpend, -, -, -, hsnap⟩ := hat
    have hfs : s.processed = fs ++ [f] := hpend.processed
    have hlen : s.stream.pushed.length = fs.length := hpend.pushed
    intro i e he
    change s'.stream.pushed[i]? = some e at he
    show ∃ fs f, fs ++ [f] <+: s'.processed ∧ fs.length = i
      ∧ SnapshotFor s'.nodeId fs f e.2
    rw [hdone, ha.nodeId]
    rw [hpushed] at he
    by_cases hlt : i < s.stream.pushed.length
    · rw [List.getElem?_append_left hlt] at he
      exact hs i e he
    · obtain ⟨hle, hget⟩ := List.getElem?_eq_some_iff.mp he
      rw [List.length_append, List.length_singleton] at hle
      obtain rfl : i = s.stream.pushed.length := by omega
      rw [List.getElem?_concat_length] at he
      injection he with he
      subst he
      exact ⟨fs, f, hfs ▸ List.prefix_refl _, hlen.symm, hsnap⟩

end EdgeIpc.Sdn.TelemetryNode
