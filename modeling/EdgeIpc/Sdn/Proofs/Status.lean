/-
What a `GetNodeStatus` answer tells. The three loads of the call are
apart, and the producer is under way between any two of them, so an
answer is in general the picture of no one moment. It is still bounded by
two: the count was true when it was loaded, and the value and the fault
are those of a moment no earlier.

# The two marks

Along a run the frames processed only grow, and so do how many of them
have been counted (`counted`) and how many have had their filtered value
stored (`stored`), with at most one frame between the two. `Figures` says
what the two atomics hold in those terms. A call in progress (`Asked`)
has a lower bound for its count; an answer (`Tells`) then has a mark `k`,
the frames its count counts, and a mark `j`, the frames its value is
from, and `k ≤ j`.
-/
import EdgeIpc.Lib.Marked
import EdgeIpc.Sdn.Proofs.Snapshots

namespace EdgeIpc.Sdn.TelemetryNode

open Lib Daemon StateManager

variable {K : Type} {s s' : TelemetryNode K}
  {movedFrom : TelemetryFrame K → TelemetryFrame K}

-- ============================================================== the marks

/-- Frames processed whose value is still to be stored. -/
def unstored : ProducerPc K → Nat
  | .store _ _ => 1
  | _ => 0

/-- Frames processed and still to be counted. -/
def uncounted : ProducerPc K → Nat
  | .store _ _ => 1
  | .loadState _ _ => 1
  | .faulting _ _ => 1
  | .count _ _ => 1
  | _ => 0

/-- The frames whose filtered value has been stored. -/
def stored (s : TelemetryNode K) : Nat :=
  s.processed.length - unstored s.producer

/-- The frames that have been counted. -/
def counted (s : TelemetryNode K) : Nat :=
  s.processed.length - uncounted s.producer

theorem unstored_le (p : ProducerPc K) : unstored p ≤ uncounted p := by
  cases p <;> simp [unstored, uncounted]

theorem counted_le_stored (s : TelemetryNode K) : counted s ≤ stored s :=
  Nat.sub_le_sub_left (unstored_le s.producer) _

theorem stored_le_length (s : TelemetryNode K) :
    stored s ≤ s.processed.length :=
  Nat.sub_le _ _

theorem uncounted_between {p : ProducerPc K} (h : Between p) :
    uncounted p = 0 := by
  cases p <;> first | rfl | cases h

theorem unstored_between {p : ProducerPc K} (h : Between p) :
    unstored p = 0 := by
  have hle := unstored_le p
  rw [uncounted_between h] at hle
  exact Nat.le_zero.mp hle

/-- The frames and the marks only grow. -/
structure Grows (s s' : TelemetryNode K) : Prop where
  processed : s.processed <+: s'.processed
  stored : stored s ≤ stored s'
  counted : counted s ≤ counted s'

theorem Grows.refl (s : TelemetryNode K) : Grows s s :=
  ⟨List.prefix_refl _, Nat.le_refl _, Nat.le_refl _⟩

/-- The frames stay and none of the two tests gets a new frame. -/
theorem grows_of_pc (hdone : s'.processed = s.processed)
    (hst : unstored s'.producer ≤ unstored s.producer)
    (hct : uncounted s'.producer ≤ uncounted s.producer) : Grows s s' := by
  refine ⟨hdone ▸ List.prefix_refl _, ?_, ?_⟩
  · show s.processed.length - _ ≤ s'.processed.length - _
    rw [hdone]
    exact Nat.sub_le_sub_left hst _
  · show s.processed.length - _ ≤ s'.processed.length - _
    rw [hdone]
    exact Nat.sub_le_sub_left hct _

/-- What was stored before is found where it was. -/
theorem Grows.take (h : Grows s s') {j : Nat} (hj : j ≤ s.processed.length) :
    s'.processed.take j = s.processed.take j := by
  obtain ⟨rest, hrest⟩ := h.processed
  rw [← hrest, List.take_append_of_le_length hj]

-- ============================================================ the figures

variable [Field K] [LinearOrder K]

/-- A fault among the first frames stays one among more of them. -/
theorem Faulted.take_mono {fs : List (TelemetryFrame K)} {i j : Nat}
    (h : Faulted (fs.take i)) (hij : i ≤ j) : Faulted (fs.take j) := by
  obtain ⟨gs, hpre, hal⟩ := h
  exact ⟨gs, hpre.trans (List.take_prefix_take_left hij), hal⟩

/-- What the atomics and the FSM hold, told by the frames. -/
structure Figures (s : TelemetryNode K) : Prop where
  room : uncounted s.producer ≤ s.processed.length
  metric : ∀ f m, s.producer = .store f m →
    m.filteredValue = mean 10 (samples s.processed)
  value : s.lastFiltered = mean 10 (samples (s.processed.take (stored s)))
  count : s.processedCount = counted s % 2 ^ 64
  fault : s.fsm.state = .fault → Faulted (s.processed.take (stored s))

omit [LinearOrder K] in
/-- Before the first frame the mean is the zero the atomic starts with. -/
theorem mean_nil : mean 10 (samples ([] : List (TelemetryFrame K))) = 0 := by
  show ([] : List K).sum / (([] : List K).length : K) = 0
  rw [List.sum_nil, zero_div]

theorem figures_init (nodeId : String) (blank : TelemetryFrame K) :
    Figures (init nodeId blank) := by
  refine ⟨Nat.le_refl _, ?_, ?_, rfl, ?_⟩
  · intro f m hp
    cases hp
  · exact mean_nil.symm
  · intro hst
    cases hst

/-- Where the producer stands still, only the FSM's state can matter. -/
theorem Figures.congr (hi : Figures s) (hdone : s'.processed = s.processed)
    (hprod : s'.producer = s.producer)
    (hval : s'.lastFiltered = s.lastFiltered)
    (hcount : s'.processedCount = s.processedCount)
    (hfault : s'.fsm.state = .fault → s.fsm.state = .fault) : Figures s' := by
  have hstored : stored s' = stored s := by
    unfold stored
    rw [hdone, hprod]
  have hcounted : counted s' = counted s := by
    unfold counted
    rw [hdone, hprod]
  refine ⟨?_, ?_, ?_, ?_, fun hst => ?_⟩
  · rw [hprod, hdone]
    exact hi.room
  · rw [hprod, hdone]
    exact hi.metric
  · rw [hval, hdone, hstored]
    exact hi.value
  · rw [hcount, hcounted]
    exact hi.count
  · rw [hdone, hstored]
    exact hi.fault (hfault hst)

/-- A step that leaves the figures, and neither raises a fault nor has a
frame in the store, keeps what they are told by. -/
theorem Figures.frame (hi : Figures s) (hdone : s'.processed = s.processed)
    (hst : unstored s'.producer = 0 ∧ unstored s.producer = 0)
    (hct : uncounted s'.producer = uncounted s.producer)
    (hval : s'.lastFiltered = s.lastFiltered)
    (hcount : s'.processedCount = s.processedCount)
    (hfault : s'.fsm.state = .fault → s.fsm.state = .fault
      ∨ Faulted s.processed) : Figures s' := by
  have hstored : stored s' = stored s := by
    unfold stored
    rw [hdone, hst.1, hst.2]
  have hcounted : counted s' = counted s := by
    unfold counted
    rw [hdone, hct]
  refine ⟨?_, ?_, ?_, ?_, ?_⟩
  · rw [hct, hdone]
    exact hi.room
  · intro f m hp
    have hone := hst.1
    rw [hp] at hone
    cases hone
  · rw [hval, hdone, hstored]
    exact hi.value
  · rw [hcount, hcounted]
    exact hi.count
  · intro hst'
    rw [hdone, hstored]
    rcases hfault hst' with hf | hf
    · exact hi.fault hf
    · have hall : s.processed.take (stored s) = s.processed := by
        unfold stored
        rw [hst.2, Nat.sub_zero, List.take_length]
      rw [hall]
      exact hf

/-- A frame under way whose alarm is being raised has ended a run out of
band. -/
theorem faulted_of_faulting {f : TelemetryFrame K} {m : ProcessedMetric K}
    (hat : At s.tally (.faulting f m)) : Faulted s.processed := by
  obtain ⟨fs, hpend, hm, -, -, hal⟩ := hat
  have hdone : s.processed = fs ++ [f] := hpend.processed
  rw [hdone]
  exact ⟨_, List.prefix_refl _, hm.alarm.mp hal⟩

-- ========================================================== the producer

/-- `process` makes a frame whose value is to be stored. -/
theorem figures_process {blank : TelemetryFrame K}
    (hsamp : Sampled movedFrom blank s) (hi : Figures s)
    {f : TelemetryFrame K} (hp : s.producer = .process f) :
    Figures (s.processFrame f) ∧ Grows s (s.processFrame f) := by
  have hval := process_mean (by decide) hsamp.proc f
  rw [← samples_snoc] at hval
  have hlen : (s.processed ++ [f]).length = s.processed.length + 1 := by
    rw [List.length_append, List.length_singleton]
  have hstored : stored s = s.processed.length := by
    unfold stored
    rw [hp]
    rfl
  have hcounted : counted s = s.processed.length := by
    unfold counted
    rw [hp]
    rfl
  have hstored' : stored (s.processFrame f) = s.processed.length := by
    show (s.processed ++ [f]).length - 1 = _
    rw [hlen]
    rfl
  have hcounted' : counted (s.processFrame f) = s.processed.length := by
    show (s.processed ++ [f]).length - 1 = _
    rw [hlen]
    rfl
  have htake : (s.processed ++ [f]).take s.processed.length
      = s.processed.take s.processed.length :=
    List.take_append_of_le_length (Nat.le_refl _)
  refine ⟨⟨?_, ?_, ?_, ?_, ?_⟩, List.prefix_append _ _, ?_, ?_⟩
  · show 1 ≤ (s.processed ++ [f]).length
    rw [hlen]
    exact Nat.le_add_left 1 _
  · intro f' m hstore
    have hm : m = (s.processor.process f).2 := by
      injection hstore with _ hm
      exact hm.symm
    rw [hm]
    exact hval
  · show s.lastFiltered = mean 10 (samples ((s.processed ++ [f]).take _))
    rw [hstored', htake, ← hstored]
    exact hi.value
  · show s.processedCount = _
    rw [hcounted', ← hcounted]
    exact hi.count
  · intro hst
    show Faulted ((s.processed ++ [f]).take _)
    rw [hstored', htake, ← hstored]
    exact hi.fault hst
  · rw [hstored, hstored']
  · rw [hcounted, hcounted']

/-- The store makes the value that of all frames. -/
theorem figures_store {f : TelemetryFrame K} {m : ProcessedMetric K}
    (hi : Figures s) (hp : s.producer = .store f m) {p : ProducerPc K}
    (hst : unstored p = 0) (hct : uncounted p = 1) :
    Figures { s with lastFiltered := m.filteredValue, producer := p }
      ∧ Grows s { s with lastFiltered := m.filteredValue, producer := p } := by
  have hroom := hi.room
  have hfault := hi.fault
  have hcount := hi.count
  unfold counted at hcount
  rw [hp] at hroom hcount
  refine ⟨⟨?_, ?_, ?_, ?_, ?_⟩, grows_of_pc rfl ?_ ?_⟩
  · show uncounted p ≤ _
    rw [hct]
    exact hroom
  · intro f' m' hp'
    have hnone : unstored p = 1 := congrArg unstored hp'
    rw [hst] at hnone
    cases hnone
  · show m.filteredValue = mean 10 (samples (s.processed.take
      (s.processed.length - unstored p)))
    rw [hst, Nat.sub_zero, List.take_length]
    exact hi.metric f m hp
  · show s.processedCount = (s.processed.length - uncounted p) % 2 ^ 64
    rw [hct]
    exact hcount
  · intro hf
    show Faulted (s.processed.take (s.processed.length - unstored p))
    refine (hfault hf).take_mono ?_
    rw [hst]
    exact stored_le_length s
  · show unstored p ≤ _
    rw [hst]
    exact Nat.zero_le _
  · show uncounted p ≤ _
    rw [hct, hp]
    exact Nat.le_refl _

/-- Counting a frame. -/
theorem figures_count {f : TelemetryFrame K} {m : ProcessedMetric K}
    (hi : Figures s) (hp : s.producer = .count f m) {n : Nat}
    (hn : n = (s.processedCount + 1) % 2 ^ 64) :
    Figures { s with processedCount := n, producer := .snapState f m }
      ∧ Grows s
        { s with processedCount := n, producer := .snapState f m } := by
  have hroom := hi.room
  have hvalue := hi.value
  have hfault := hi.fault
  have hcount := hi.count
  unfold counted at hcount
  unfold stored at hvalue hfault
  rw [hp] at hroom hcount hvalue hfault
  refine ⟨⟨Nat.zero_le _, ?_, hvalue, ?_, hfault⟩, grows_of_pc rfl ?_ ?_⟩
  · intro f' m' hp'
    cases hp'
  · show n = (s.processed.length - 0) % 2 ^ 64
    have hlen : s.processed.length - 1 + 1 = s.processed.length :=
      Nat.sub_add_cancel hroom
    change s.processedCount = (s.processed.length - 1) % 2 ^ 64 at hcount
    rw [hn, hcount, Nat.mod_add_mod, hlen, Nat.sub_zero]
  · show unstored (.snapState f m) ≤ _
    rw [hp]
    exact Nat.le_refl _
  · show uncounted (.snapState f m) ≤ _
    exact Nat.zero_le _

/-- A producer step that touches neither the frames nor the figures. -/
theorem figures_same {rx : TelemetryReceiver K} {fsm : StateManager K}
    {stream : StreamQueue (ProcessedSnapshot K)} {p : ProducerPc K}
    (hi : Figures s) (hst : unstored p = 0 ∧ unstored s.producer = 0)
    (hct : uncounted p = uncounted s.producer)
    (hfault : fsm.state = .fault → s.fsm.state = .fault
      ∨ Faulted s.processed) :
    Figures { s with receiver := rx, fsm, stream, producer := p }
      ∧ Grows s { s with receiver := rx, fsm, stream, producer := p } := by
  refine ⟨hi.frame rfl hst hct rfl rfl hfault, grows_of_pc rfl ?_ ?_⟩
  · exact le_of_eq (hst.1.trans hst.2.symm)
  · exact le_of_eq hct

theorem figures_producer {blank : TelemetryFrame K}
    {frame : Option (TelemetryFrame K)} {now : Int}
    (hsamp : Sampled movedFrom blank s) (hat : At s.tally s.producer)
    (hi : Figures s) (h : s.producerStep movedFrom frame now = some s') :
    Figures s' ∧ Grows s s' := by
  cases producerStep_move h with
  | around hp hp' =>
      refine figures_same hi ⟨unstored_between hp', unstored_between hp⟩ ?_
        .inl
      rw [uncounted_between hp, uncounted_between hp']
  | take hp =>
      exact figures_same hi ⟨rfl, unstored_between hp⟩
        (uncounted_between hp).symm .inl
  | process hp => exact figures_process hsamp hi hp
  | alarm hp => exact figures_store hi hp rfl rfl
  | calm hp => exact figures_store hi hp rfl rfl
  | count hp => exact figures_count hi hp rfl
  | @fault f m fsm p es next hp hm =>
      have hf : Faulted s.processed := by
        rw [hp] at hat
        exact faulted_of_faulting hat
      refine figures_same hi ⟨?_, by rw [hp]; rfl⟩ ?_ fun _ => .inr hf
      · split <;> rfl
      · rw [hp]
        split <;> rfl
  | finish hp | raise _ hp | stand hp | snap hp | push hp =>
      exact figures_same hi ⟨rfl, by rw [hp]; rfl⟩ (by rw [hp]; rfl) .inl

-- ======================================================= the other steps

/-- What the control thread does to what a status call reads: it lets the
producer be, or it comes or goes with no frame under way. -/
structure Spares (s s' : TelemetryNode K) : Prop where
  value : s'.lastFiltered = s.lastFiltered
  calls : s'.calls = s.calls
  statuses : s'.statuses = s.statuses
  producer : s'.producer = s.producer
    ∨ (uncounted s'.producer = 0 ∧ uncounted s.producer = 0)

omit [Field K] [LinearOrder K] in
theorem controlStep_spares {spurious : Bool}
    (h : s.controlStep spurious = some s') : Spares s s' := by
  cases controlStep_arm h with
  | inStart hc s' hstart =>
      obtain ⟨fsm, -, rfl⟩ := Option.map_eq_some_iff.mp hstart
      refine ⟨?_, ?_, ?_, .inl ?_⟩ <;>
        split <;> first | rfl | (split <;> rfl)
  | spawns hc hp =>
      exact ⟨rfl, rfl, rfl, .inr ⟨rfl, by rw [hp]; rfl⟩⟩
  | joins hc hp =>
      refine ⟨rfl, rfl, rfl, .inr ⟨rfl, ?_⟩⟩
      rcases hp with hp | hp
      · rw [hp]
        rfl
      · rw [hp]
        rfl
  | running | starts | callsStart | builds | stops | stopsServer
  | callsShutdown | inShutdown => exact ⟨rfl, rfl, rfl, .inl rfl⟩

/-- The control thread never brings the FSM to FAULT. -/
theorem fault_of_control {spurious : Bool} {w : Bool} (hi : Life w s.core)
    (h : s.controlStep spurious = some s') (hst : s'.fsm.state = .fault) :
    s.fsm.state = .fault := by
  rcases (controlStep_governs h).fsm with hsame | ⟨hctl, sp, hstart⟩
    | ⟨hctl, hshut⟩
  · exact hsame ▸ hst
  · obtain ⟨old, -, hstarting, ho, -⟩ := hi.of_inStart hctl
    obtain ⟨fsm, -, hgo | ⟨-, -, -, hdown, rfl⟩ | ⟨-, -, hrun, rfl⟩⟩ :=
      startFsm_cases hstarting ho hstart
    · obtain ⟨hgo, -, rfl⟩ := hgo
      exact absurd hst (Starting.not_fault hgo ho)
    · cases hdown.symm.trans hst
    · cases hrun.symm.trans hst
  · obtain ⟨-, hdown, -⟩ := inShutdown_cases (hi.of_inShutdown hctl) hshut
    cases hdown.symm.trans hst

theorem figures_control {spurious : Bool} {w : Bool} (hlife : Life w s.core)
    (hi : Figures s) (h : s.controlStep spurious = some s') :
    Figures s' ∧ Grows s s' := by
  have hg := controlStep_governs h
  have hsp := controlStep_spares h
  have hfault := fault_of_control hlife h
  rcases hsp.producer with hp | ⟨hp', hp⟩
  · refine ⟨hi.congr hg.processed hp hsp.value hg.count hfault,
      grows_of_pc hg.processed ?_ ?_⟩
    · rw [hp]
    · rw [hp]
  · have hst' : unstored s'.producer = 0 :=
      Nat.le_zero.mp (hp' ▸ unstored_le s'.producer)
    have hst : unstored s.producer = 0 :=
      Nat.le_zero.mp (hp ▸ unstored_le s.producer)
    refine ⟨hi.frame hg.processed ⟨hst', hst⟩ (hp'.trans hp.symm) hsp.value
      hg.count fun hf => .inl (hfault hf), grows_of_pc hg.processed ?_ ?_⟩
    · rw [hst', hst]
    · rw [hp', hp]

-- ============================================================== the calls

/-- What a step does to the calls of `GetNodeStatus`: one arrives, one
takes its next load, or all stay where they are. -/
inductive CallMove (s s' : TelemetryNode K) : NodeAct K → Prop
  | asks (c : Nat) (hc : s.calls c = .absent)
      (hs : s' = { s with
        calls := fun d => if d = c then .readState else s.calls d }) :
      CallMove s s' (.getNodeStatus c)
  | goes (c : Nat) (h : s.statusStep c = some s') : CallMove s s' (.status c)
  | stays {a : NodeAct K} (hcalls : s'.calls = s.calls)
      (hst : s'.statuses = s.statuses) : CallMove s s' a

theorem step_callMove {a : NodeAct K} (h : step movedFrom a s = some s') :
    CallMove s s' a := by
  cases a with
  | start =>
      simp only [step] at h
      split at h
      next => exact Option.some.inj h ▸ .stays rfl rfl
      next => cases h
  | stop =>
      simp only [step] at h
      split at h
      next => exact Option.some.inj h ▸ .stays rfl rfl
      next => cases h
  | control spurious =>
      have hsp := controlStep_spares h
      exact .stays hsp.calls hsp.statuses
  | producer frame now =>
      cases producerStep_move h <;> exact .stays rfl rfl
  | stream a =>
      simp only [step] at h
      split at h
      next => cases h
      next =>
        obtain ⟨stream, -, rfl⟩ := Option.map_eq_some_iff.mp h
        exact .stays rfl rfl
  | getNodeStatus c =>
      simp only [step] at h
      split at h
      next hc => exact .asks c hc (Option.some.inj h).symm
      next => cases h
  | status c => exact .goes c h

/-- Steps beside the producer and the FSM. -/
theorem figures_aside (hi : Figures s) {calls : Nat → StatusPc}
    {sts : List (NodeStatus K)} {stream : StreamQueue (ProcessedSnapshot K)}
    {p : ControlPc} {entry : NodeView} :
    Figures { s with
      calls, statuses := sts, stream, control := p, entry }
    ∧ Grows s { s with
      calls, statuses := sts, stream, control := p, entry } :=
  ⟨hi.congr rfl rfl rfl rfl id,
    grows_of_pc rfl (Nat.le_refl _) (Nat.le_refl _)⟩

/-- A step of the node keeps the figures told by the frames, and the
frames and marks only grow. -/
theorem figures_step {blank : TelemetryFrame K} {w : Bool} {a : NodeAct K}
    (hn : NodeInv movedFrom blank w s) (hi : Figures s)
    (h : step movedFrom a s = some s') : Figures s' ∧ Grows s s' := by
  cases a with
  | start =>
      simp only [step] at h
      split at h
      next => exact Option.some.inj h ▸ figures_aside hi
      next => cases h
  | stop =>
      simp only [step] at h
      split at h
      next => exact Option.some.inj h ▸ figures_aside hi
      next => cases h
  | control spurious => exact figures_control hn.life hi h
  | producer frame now =>
      exact figures_producer hn.sampled
        (hn.life.of_thread (producerStep_exists h)) hi h
  | stream a =>
      simp only [step] at h
      split at h
      next => cases h
      next =>
        obtain ⟨stream, -, rfl⟩ := Option.map_eq_some_iff.mp h
        exact figures_aside hi
  | getNodeStatus c =>
      simp only [step] at h
      split at h
      next => exact Option.some.inj h ▸ figures_aside hi
      next => cases h
  | status c =>
      simp only [step, statusStep] at h
      split at h
      next => cases h
      all_goals exact Option.some.inj h ▸ figures_aside hi

-- ======================================================= what a call knows

/-- A state name says FAULT only of frames that ended a run out of
band. -/
def Warned (s : TelemetryNode K) (st : String) : Prop :=
  st = "FAULT" → Faulted (s.processed.take (stored s))

/-- What a call has loaded so far was true, and the count it has or will
load is of `lo` frames at least. -/
def Asked (s : TelemetryNode K) (lo : Nat) : StatusPc → Prop
  | .absent => True
  | .readState => lo ≤ counted s
  | .readCount st => lo ≤ counted s ∧ Warned s st
  | .readValue st n => Warned s st
      ∧ ∃ k, lo ≤ k ∧ k ≤ counted s ∧ n = k % 2 ^ 64

theorem Warned.grows {st : String} (h : Warned s st) (hg : Grows s s') :
    Warned s' st := by
  intro hst
  refine Faulted.take_mono ?_ hg.stored
  rw [hg.take (stored_le_length s)]
  exact h hst

theorem Asked.grows {lo : Nat} {p : StatusPc} (h : Asked s lo p)
    (hg : Grows s s') : Asked s' lo p := by
  cases p with
  | absent => trivial
  | readState => exact Nat.le_trans h hg.counted
  | readCount st => exact ⟨Nat.le_trans h.1 hg.counted, h.2.grows hg⟩
  | readValue st n =>
      obtain ⟨hw, k, hlo, hk, hn⟩ := h
      exact ⟨hw.grows hg, k, hlo, Nat.le_trans hk hg.counted, hn⟩

/-- What an answer tells of the frames `fs`: `k` of them had been counted
when it was asked, and its value and its fault are those of the first
`j`. -/
structure Tells (fs : List (TelemetryFrame K)) (k j : Nat)
    (st : NodeStatus K) : Prop where
  order : k ≤ j
  known : j ≤ fs.length
  count : st.processedCount = k % 2 ^ 64
  value : st.lastValue = mean 10 (samples (fs.take j))
  fault : st.fsmState = "FAULT" → Faulted (fs.take j)

theorem Tells.grows {k j : Nat} {st : NodeStatus K}
    (h : Tells s.processed k j st) (hg : Grows s s') :
    Tells s'.processed k j st := by
  have htake := hg.take h.known
  refine ⟨h.order, h.known.trans hg.processed.length_le, h.count, ?_, ?_⟩
  · rw [htake]
    exact h.value
  · rw [htake]
    exact h.fault

/-- The next load of a call, and with the last one its answer. -/
theorem asked_status {c lo : Nat} (hi : Figures s)
    (hask : Asked s lo (s.calls c)) (h : s.statusStep c = some s') :
    (s'.calls c ≠ .absent ∧ Asked s' lo (s'.calls c)
      ∧ s'.statuses = s.statuses)
    ∨ (s'.calls c = .absent ∧ ∃ st k, s'.statuses = s.statuses ++ [st]
      ∧ st.nodeId = s.nodeId ∧ lo ≤ k ∧ k ≤ counted s
      ∧ Tells s.processed k (stored s) st) := by
  simp only [statusStep] at h
  split at h
  next => cases h
  next hc =>
    -- the state: FAULT is what `Figures.fault` is about
    rw [hc] at hask
    obtain rfl := Option.some.inj h
    have hw : Warned s (stateToString s.fsm.state) := by
      intro hst
      refine hi.fault ?_
      generalize s.fsm.state = d at hst
      cases d <;> first | rfl | exact absurd hst (by decide)
    refine .inl ⟨?_, ?_, rfl⟩
    · show (if c = c then _ else _) ≠ StatusPc.absent
      rw [if_pos rfl]
      intro hno
      cases hno
    · show Asked _ lo (if c = c then _ else _)
      rw [if_pos rfl]
      exact ⟨hask, hw⟩
  next st hc =>
    rw [hc] at hask
    obtain rfl := Option.some.inj h
    refine .inl ⟨?_, ?_, rfl⟩
    · show (if c = c then _ else _) ≠ StatusPc.absent
      rw [if_pos rfl]
      intro hno
      cases hno
    · show Asked _ lo (if c = c then _ else _)
      rw [if_pos rfl]
      exact ⟨hask.2, counted s, hask.1, Nat.le_refl _, hi.count⟩
  next st n hc =>
    rw [hc] at hask
    obtain rfl := Option.some.inj h
    obtain ⟨hw, k, hlo, hk, hn⟩ := hask
    refine .inr ⟨if_pos rfl, _, k, rfl, rfl, hlo, hk, ?_⟩
    exact ⟨hk.trans (counted_le_stored s), stored_le_length s, hn, hi.value,
      hw⟩

-- ============================================================ whole runs

variable {blank : TelemetryFrame K} {nodeId : String}

/-- Answers of the node `nodeId` in the order of their values. -/
def Ordered (nodeId : String) (s : TelemetryNode K)
    (sts : List (NodeStatus K)) : Prop :=
  Marked (fun st m => st.nodeId = nodeId ∧ Tells s.processed m.1 m.2 st)
    (fun m m' : Nat × Nat => m.2 ≤ m'.2) (fun m => m.2 ≤ stored s) sts

theorem Ordered.grows {sts : List (NodeStatus K)}
    (h : Ordered nodeId s sts) (hg : Grows s s') : Ordered nodeId s' sts :=
  h.mono (fun _ _ hm => ⟨hm.1, hm.2.grows hg⟩)
    fun _ hm => Nat.le_trans hm hg.stored

/-- The figures, the calls in progress and the answers given. -/
structure StatusInv (movedFrom : TelemetryFrame K → TelemetryFrame K)
    (blank : TelemetryFrame K) (nodeId : String) (s : TelemetryNode K) :
    Prop where
  node : NodeInv movedFrom blank true s
  named : s.nodeId = nodeId
  figures : Figures s
  calls : ∀ c, Asked s 0 (s.calls c)
  statuses : Ordered nodeId s s.statuses

theorem nodeId_step {a : NodeAct K} (h : step movedFrom a s = some s') :
    s'.nodeId = s.nodeId := by
  rcases step_cases h with ⟨-, -, rfl⟩ | ⟨-, -, rfl⟩
    | ⟨spurious, rfl, hc⟩ | ⟨frame, now, -, hp⟩ | hby
  · rfl
  · rfl
  · exact (controlStep_governs hc).nodeId
  · exact (producerStep_aside hp).nodeId
  · exact congrArg (fun c => c.tally.nodeId) hby.core

/-- A call that arrives has made none of its loads. -/
theorem getNodeStatus_calls {c : Nat}
    (h : step movedFrom (.getNodeStatus c) s = some s') (d : Nat) :
    s'.calls d = if d = c then .readState else s.calls d := by
  simp only [step] at h
  split at h
  next => rw [← Option.some.inj h]
  next => cases h

omit [Field K] [LinearOrder K] in
/-- A call other than the one that moves stays where it is. -/
theorem statusStep_calls {c d : Nat} (h : s.statusStep c = some s')
    (hd : d ≠ c) : s'.calls d = s.calls d := by
  simp only [statusStep] at h
  split at h
  next => cases h
  all_goals
    obtain rfl := Option.some.inj h
    exact if_neg hd

theorem statusInv_step {a : NodeAct K}
    (hi : StatusInv movedFrom blank nodeId s)
    (h : step movedFrom a s = some s') :
    StatusInv movedFrom blank nodeId s' := by
  have hnode := nodeInv_step hi.node h (.inl rfl)
  have hid := (nodeId_step h).trans hi.named
  obtain ⟨hfig, hg⟩ := figures_step hi.node hi.figures h
  have hsts := hi.statuses.grows hg
  cases step_callMove h with
  | asks c hc hs =>
      refine ⟨hnode, hid, hfig, fun d => ?_, ?_⟩
      · by_cases hd : d = c
        · rw [hs, hd]
          show Asked _ 0 (if c = c then _ else _)
          rw [if_pos rfl]
          exact Nat.zero_le _
        · have hask := (hi.calls d).grows hg
          rw [hs] at hask ⊢
          show Asked _ 0 (if d = c then _ else _)
          rw [if_neg hd]
          exact hask
      · have hsame : s'.statuses = s.statuses := by rw [hs]
        rw [hsame]
        exact hsts
  | goes c hstep =>
      have hothers : ∀ d, d ≠ c → Asked s' 0 (s'.calls d) := by
        intro d hd
        rw [statusStep_calls hstep hd]
        exact (hi.calls d).grows hg
      rcases asked_status hi.figures (hi.calls c) hstep with
        ⟨-, hask, hsame⟩ | ⟨habsent, st, k, hsame, hname, -, -, htells⟩
      · refine ⟨hnode, hid, hfig, fun d => ?_, hsame ▸ hsts⟩
        by_cases hd : d = c
        · exact hd ▸ hask
        · exact hothers d hd
      · refine ⟨hnode, hid, hfig, fun d => ?_, ?_⟩
        · by_cases hd : d = c
          · rw [hd, habsent]
            trivial
          · exact hothers d hd
        · rw [hsame]
          -- the new answer's value is of this moment, so none is later
          have hnow : Ordered nodeId s (s.statuses ++ [st]) :=
            hi.statuses.snoc (m := (k, stored s))
              ⟨hname.trans hi.named, htells⟩ (fun _ hm' => hm')
              (Nat.le_refl _)
          exact hnow.grows hg
  | stays hcalls hsame =>
      refine ⟨hnode, hid, hfig, fun d => ?_, hsame ▸ hsts⟩
      rw [hcalls]
      exact (hi.calls d).grows hg

theorem statusInv_reachable
    (hr : Reachable (step movedFrom) (init nodeId blank) s) :
    StatusInv movedFrom blank nodeId s :=
  hr.invariant
    ⟨nodeInv_init true nodeId blank, rfl, figures_init nodeId blank,
      fun _ => trivial, marked_nil⟩
    statusInv_step

/-- Every answer of `GetNodeStatus`, in every reachable state of a node
and whatever ran between the call's three loads, has two marks `k ≤ j`
among the frames processed: its count is `k` (64 bits), its value is the
mean of the last ten samples up to the `j`-th frame, and it says FAULT
only if some frame up to the `j`-th ended a run of three out of band. The
marks `j` of the answers, in the order they were given, never go back. -/
theorem statuses_in_order
    (hr : Reachable (step movedFrom) (init nodeId blank) s) :
    ∃ marks : List (Nat × Nat),
      List.Forall₂ (fun st m => st.nodeId = nodeId
        ∧ Tells s.processed m.1 m.2 st) s.statuses marks
      ∧ marks.Pairwise fun m m' => m.2 ≤ m'.2 := by
  obtain ⟨marks, hfits, hord, -⟩ := (statusInv_reachable hr).statuses
  exact ⟨marks, hfits, hord⟩

/-- A call that loads its count after the first sample and its value
after the second. -/
def straddling : List (NodeAct ℚ) :=
  [[.start], controls 8, oneSample 90 0,
    [.getNodeStatus 0, .status 0, .status 0], oneSample 50 0,
    [.status 0]].flatten

/-- Its answer, one frame counted and the mean of two, is the picture of
no moment, and has its marks all the same. -/
theorem statuses_in_order_straddling :
    ∃ s, exec (step id) straddling (init "worker1" ⟨"", 0, 0⟩) = some s
      ∧ s.statuses = [⟨"worker1", "RUNNING", 1, 70⟩]
      ∧ ∃ marks : List (Nat × Nat),
        List.Forall₂ (fun st m => st.nodeId = "worker1"
          ∧ Tells s.processed m.1 m.2 st) s.statuses marks
        ∧ marks.Pairwise fun m m' => m.2 ≤ m'.2 := by
  have hrun : (exec (step id) straddling (init "worker1" ⟨"", 0, 0⟩)).map
      (fun s => s.statuses) = some [⟨"worker1", "RUNNING", 1, 70⟩] := by
    decide +kernel
  obtain ⟨s, hs, hsts⟩ := Option.map_eq_some_iff.mp hrun
  exact ⟨s, hs, hsts, statuses_in_order (reachable_of_exec hs)⟩

end EdgeIpc.Sdn.TelemetryNode
