/-
From the source to the processor: what becomes of every frame that
`source->read()` hands out, in every run of the daemon.

# The fates

A frame taken from the source is in `push` until the ring decides on it.
It is accepted by the store of `tail_` or refused by the load of `head_`;
`Fates` keeps the decisions in the order of the frames. The accepted ones
are the frames the ring has pushed, and from there the invariant of the
main loop takes over: popped in order, each handed to `process` once. The
refused ones are counted, one access after the decision.

Only the ring's own moves matter (`fates_move`); a step of the daemon
makes one of them or leaves the ring alone (`ring_of_step`).
-/
import EdgeIpc.Daemon.Proofs.MainLoop

namespace EdgeIpc.Daemon

open Lib

namespace TelemetryReceiver

variable {R : Type} {r r' : TelemetryReceiver R}
  {movedFrom : TelemetryFrame R → TelemetryFrame R}

-- ================================================================ the fates

/-- The frame `push` was handed and the ring has not decided on. -/
def inPush : PushPc R → List (TelemetryFrame R)
  | .loadHead f _ => [f]
  | .writeSlot f _ _ => [f]
  | .storeTail f _ => [f]
  | _ => []

/-- The refusals `dropped_` does not count yet. -/
def uncounted : PushPc R → Nat
  | .bumpDropped _ => 1
  | _ => 0

/-- The frames a move hands to `push`. -/
def handedIn : RxAct R → List (TelemetryFrame R)
  | .push f => [f]
  | _ => []

/-- The frames that were accepted. -/
def accepted (fates : List (TelemetryFrame R × Bool)) :
    List (TelemetryFrame R) :=
  (fates.filter fun e => e.2).map Prod.fst

/-- The frames that were refused. -/
def refused (fates : List (TelemetryFrame R × Bool)) :
    List (TelemetryFrame R) :=
  (fates.filter fun e => !e.2).map Prod.fst

theorem accepted_snoc (fates : List (TelemetryFrame R × Bool))
    (f : TelemetryFrame R) (ok : Bool) :
    accepted (fates ++ [(f, ok)])
      = accepted fates ++ if ok then [f] else [] := by
  cases ok <;> simp [accepted]

theorem refused_snoc (fates : List (TelemetryFrame R × Bool))
    (f : TelemetryFrame R) (ok : Bool) :
    refused (fates ++ [(f, ok)])
      = refused fates ++ if ok then [] else [f] := by
  cases ok <;> simp [refused]

/-- The fates of the frames `offered`, in their order; the last may still
be open. -/
structure Fates (offered : List (TelemetryFrame R))
    (fates : List (TelemetryFrame R × Bool)) (r : TelemetryReceiver R) :
    Prop where
  offered : fates.map Prod.fst ++ inPush r.producer = offered
  accepted : accepted fates = r.pushed
  refused : (refused fates).length
    = r.fullAt.length + uncounted r.producer

/-- A move of the ring that decides nothing. -/
theorem Fates.frame {offered more : List (TelemetryFrame R)}
    {fates : List (TelemetryFrame R × Bool)} (hf : Fates offered fates r)
    (hin : inPush r'.producer = inPush r.producer ++ more)
    (hpushed : r'.pushed = r.pushed)
    (hfull : r'.fullAt.length + uncounted r'.producer
      = r.fullAt.length + uncounted r.producer) :
    Fates (offered ++ more) fates r' := by
  refine ⟨?_, hf.accepted.trans hpushed.symm, hf.refused.trans hfull.symm⟩
  rw [hin, ← List.append_assoc, hf.offered]

/-- A move that decides on the frame in `push`. -/
theorem Fates.decide {offered : List (TelemetryFrame R)}
    {fates : List (TelemetryFrame R × Bool)} (f : TelemetryFrame R)
    (ok : Bool) (hf : Fates offered fates r)
    (hin : inPush r.producer = [f]) (hin' : inPush r'.producer = [])
    (hpushed : r'.pushed = r.pushed ++ if ok then [f] else [])
    (hfull : r'.fullAt.length + uncounted r'.producer
      = r.fullAt.length + uncounted r.producer + if ok then 0 else 1) :
    Fates offered (fates ++ [(f, ok)]) r' := by
  refine ⟨?_, ?_, ?_⟩
  · rw [hin', List.append_nil, List.map_append, ← hf.offered, hin]
    rfl
  · rw [accepted_snoc, hf.accepted, hpushed]
  · rw [refused_snoc, List.length_append, hf.refused, hfull]
    cases ok <;> rfl

/-- Every move of the ring keeps the account. -/
theorem fates_move {a : RxAct R} {offered : List (TelemetryFrame R)}
    {fates : List (TelemetryFrame R × Bool)} (hf : Fates offered fates r)
    (hm : RingMove movedFrom r a r') :
    ∃ fates', Fates (offered ++ handedIn a) fates' r' := by
  -- the moves of `pop` touch nothing the account speaks of
  have hpop : ∀ {t : TelemetryReceiver R}, t.producer = r.producer →
      t.pushed = r.pushed → t.fullAt = r.fullAt →
      ∃ fates', Fates (offered ++ []) fates' t := by
    intro t hp hpushed hfull
    refine ⟨fates, hf.frame ?_ hpushed ?_⟩
    · rw [hp, List.append_nil]
    · rw [hp, hfull]
  cases hm with
  | push hpc => exact ⟨fates, hf.frame (by rw [hpc]; rfl) rfl (by rw [hpc]; rfl)⟩
  | @refuse f t hpc hfull =>
      rw [show handedIn (.producer : RxAct R) = [] from rfl, List.append_nil]
      refine ⟨_, hf.decide f false (by rw [hpc]; rfl) rfl ?_ ?_⟩
      · exact (List.append_nil _).symm
      · rw [hpc]
        rfl
  | accept hpc hroom =>
      refine ⟨fates, hf.frame ?_ rfl (by rw [hpc]; rfl)⟩
      rw [hpc]
      rfl
  | @count n hpc =>
      refine ⟨fates, hf.frame (by rw [hpc]; rfl) rfl ?_⟩
      rw [hpc, List.length_append]
      rfl
  | write hpc =>
      refine ⟨fates, hf.frame ?_ rfl (by rw [hpc]; rfl)⟩
      rw [hpc]
      rfl
  | @store f n hpc =>
      rw [show handedIn (.producer : RxAct R) = [] from rfl, List.append_nil]
      refine ⟨_, hf.decide f true (by rw [hpc]; rfl) rfl rfl ?_⟩
      rw [hpc]
      rfl
  | pop hpc => exact hpop rfl rfl rfl
  | miss hpc hempty => exact hpop rfl rfl rfl
  | find hpc hframe => exact hpop rfl rfl rfl
  | read hpc => exact hpop rfl rfl rfl
  | release hpc => exact hpop rfl rfl rfl

end TelemetryReceiver

namespace EdgeDaemon

open TelemetryReceiver

variable {K : Type} {s s' : EdgeDaemon K}
  {movedFrom : TelemetryFrame K → TelemetryFrame K}

-- ============================================================= the daemon

/-- The frame a move takes from the source. -/
def taken (s : EdgeDaemon K) : DaemonAct K → List (TelemetryFrame K)
  | .producer (some f) => if s.producer = .read then [f] else []
  | _ => []

/-- What a move does to the ring: nothing, or one of the ring's own
moves, which hands in what the move takes from the source. -/
def RingFollows (movedFrom : TelemetryFrame K → TelemetryFrame K)
    (s : EdgeDaemon K) (frames : List (TelemetryFrame K))
    (s' : EdgeDaemon K) : Prop :=
  (s'.rx = s.rx ∧ frames = [])
  ∨ ∃ b, s.rx.step movedFrom b = some s'.rx ∧ frames = handedIn b

theorem ringFollows_producer {frame : Option (TelemetryFrame K)}
    (h : s.producerStep movedFrom frame = some s') :
    RingFollows movedFrom s (s.taken (.producer frame)) s' := by
  -- nothing is taken except at the read
  have hnone : s.producer ≠ .read → s.taken (.producer frame) = [] := by
    intro hne
    cases frame with
    | none => rfl
    | some f => exact if_neg hne
  unfold producerStep at h
  split at h
  next hp =>
    injection h with h
    subst h
    exact .inl ⟨rfl, hnone (by rw [hp]; decide)⟩
  next hp =>
    split at h
    next =>
      injection h with h
      subst h
      exact .inl ⟨rfl, rfl⟩
    next f =>
      obtain ⟨rx, hrx, rfl⟩ := Option.map_eq_some_iff.mp h
      exact .inr ⟨_, hrx, if_pos hp⟩
  next hp =>
    obtain ⟨rx, hrx, rfl⟩ := Option.map_eq_some_iff.mp h
    exact .inr ⟨_, hrx, hnone (by rw [hp]; decide)⟩
  next => cases h

variable [Add K] [Sub K] [Div K] [NatCast K] [LT K] [DecidableLT K]
  [OfScientific K]

theorem ringFollows_main (h : s.mainStep movedFrom = some s') :
    RingFollows movedFrom s [] s' := by
  unfold mainStep at h
  split at h
  case h_2 | h_3 =>
    obtain ⟨rx, hrx, rfl⟩ := Option.map_eq_some_iff.mp h
    exact .inr ⟨_, hrx, rfl⟩
  case h_4 f _ =>
    refine .inl ⟨?_, rfl⟩
    unfold processFrame at h
    dsimp only at h
    split at h
    · obtain ⟨sm, -, rfl⟩ := Option.map_eq_some_iff.mp h
      rfl
    · injection h with h
      subst h
      rfl
  case h_5 | h_8 | h_9 | h_10 | h_11 =>
    obtain ⟨sm, -, rfl⟩ := Option.map_eq_some_iff.mp h
    exact .inl ⟨rfl, rfl⟩
  case h_1 | h_6 =>
    injection h with h
    subst h
    exact .inl ⟨rfl, rfl⟩
  case h_7 | h_12 =>
    split at h
    · injection h with h
      subst h
      exact .inl ⟨rfl, rfl⟩
    · cases h
  case h_13 => cases h

theorem ring_of_step {a : DaemonAct K} (h : step movedFrom a s = some s') :
    RingFollows movedFrom s (s.taken a) s' := by
  cases a with
  | signal =>
      injection h with h
      subst h
      exact .inl ⟨rfl, rfl⟩
  | producer frame => exact ringFollows_producer h
  | main => exact ringFollows_main h
  | method m =>
      simp only [step] at h
      split at h
      next => cases h
      next =>
        obtain ⟨sm, -, rfl⟩ := Option.map_eq_some_iff.mp h
        exact .inl ⟨rfl, rfl⟩
  | bus spurious =>
      obtain ⟨sm, -, rfl⟩ := Option.map_eq_some_iff.mp h
      exact .inl ⟨rfl, rfl⟩

/-- Every step of the daemon keeps the account of what the source handed
out. -/
theorem fates_step {a : DaemonAct K} {offered : List (TelemetryFrame K)}
    (hf : ∃ fates, Fates offered fates s.rx)
    (h : step movedFrom a s = some s') :
    ∃ fates, Fates (offered ++ s.taken a) fates s'.rx := by
  obtain ⟨fates, hf⟩ := hf
  rcases ring_of_step h with ⟨hrx, htaken⟩ | ⟨b, hb, htaken⟩
  · rw [htaken, List.append_nil, hrx]
    exact ⟨fates, hf⟩
  · rw [htaken]
    exact fates_move hf (step_move hb)

variable [Zero K]

/-- The popped frames are a prefix of the pushed ones, in the daemon as in
the ring. -/
theorem popped_pre {blank : TelemetryFrame K}
    (hr : Reachable (step movedFrom) (init blank) s) :
    s.rx.popped <+: s.rx.pushed := by
  have hring : Reachable (TelemetryReceiver.step movedFrom) (.init blank)
      s.rx := by
    induction hr with
    | init => exact .init
    | step a _ hs ih =>
        rcases ring_of_step hs with ⟨hrx, -⟩ | ⟨b, hb, -⟩
        · rw [hrx]
          exact ih
        · exact ih.step b hb
  exact popped_prefix_pushed hring

-- ============================================================= the theorem

/-- No frame is lost, repeated or overtaken between the source and the
processor. In every run of the daemon each frame the source handed out
has been accepted or refused, the last possibly being decided on. The
accepted ones are, in this order, those handed to `process`, the one in
`main`'s hand, and at most 1023 waiting in the ring. Those refused were
refused with 1023 waiting, and `dropped_` counts them, modulo its width,
but for one about to be counted. -/
theorem source_to_processor {blank : TelemetryFrame K}
    {as : List (DaemonAct K)}
    (h : exec (step movedFrom) as (init blank) = some s) :
    ∃ fates waiting,
      fates.map Prod.fst ++ inPush s.rx.producer
        = collect (step movedFrom) taken as (init blank)
      ∧ accepted fates = s.processed ++ inHand s.main ++ waiting
      ∧ waiting.length ≤ 1023
      ∧ (∀ n ∈ s.rx.fullAt, n = 1023)
      ∧ (refused fates).length
        = s.rx.fullAt.length + uncounted s.rx.producer
      ∧ s.rx.dropped = s.rx.fullAt.length % 2 ^ 64 := by
  have hr := reachable_of_exec h
  have hi := (daemonInv_reachable hr).sampled
  have hinit : ∃ fates, Fates [] fates (init blank : EdgeDaemon K).rx :=
    ⟨[], rfl, rfl, rfl⟩
  obtain ⟨fates, hf⟩ := exec_collect
    (fun offered t => ∃ fates, Fates offered fates t.rx) fates_step hinit h
  obtain ⟨waiting, hwaiting⟩ := popped_pre hr
  refine ⟨fates, waiting, hf.offered, ?_, ?_, hi.ring.full, hf.refused,
    hi.ring.dropped⟩
  · rw [hf.accepted, ← hwaiting, hi.popped]
  · have hroom := hi.ring.room
    rw [← hwaiting, List.length_append, capacity] at hroom
    omega

/-- Two frames: the first goes all the way, the second is in the ring. -/
def twoFrames (f g : TelemetryFrame ℚ) : List (DaemonAct ℚ) :=
  let sample (f : TelemetryFrame ℚ) : List (DaemonAct ℚ) :=
    [.producer none, .producer (some f), .producer none, .producer none,
      .producer none]
  sample f ++ sample g ++ List.replicate 6 .main

/-- Both are accounted for, in their order. -/
theorem source_to_processor_two :
    ∃ (s : EdgeDaemon ℚ) (fates : List (TelemetryFrame ℚ × Bool))
      (waiting : List (TelemetryFrame ℚ)),
      exec (step id) (twoFrames ⟨"sensor0", 42, 7⟩ ⟨"sensor0", 43, 8⟩)
        (init ⟨"", 0, 0⟩) = some s
      ∧ s.processed = [⟨"sensor0", 42, 7⟩]
      ∧ accepted fates = s.processed ++ inHand s.main ++ waiting
      ∧ fates.map Prod.fst ++ inPush s.rx.producer
        = [⟨"sensor0", 42, 7⟩, ⟨"sensor0", 43, 8⟩] := by
  have hrun : (exec (step id)
      (twoFrames ⟨"sensor0", 42, 7⟩ ⟨"sensor0", 43, 8⟩)
      (init ⟨"", 0, 0⟩)).map (fun s => s.processed)
      = some [⟨"sensor0", 42, 7⟩] := by
    decide +kernel
  have htaken : collect (step id) taken
      (twoFrames ⟨"sensor0", 42, 7⟩ ⟨"sensor0", 43, 8⟩) (init ⟨"", 0, 0⟩)
      = [⟨"sensor0", 42, 7⟩, ⟨"sensor0", 43, 8⟩] := by
    decide +kernel
  obtain ⟨s, hs, hdone⟩ := Option.map_eq_some_iff.mp hrun
  obtain ⟨fates, waiting, hoffered, haccepted, -⟩ := source_to_processor hs
  exact ⟨s, fates, waiting, hs, hdone, haccepted, hoffered.trans htaken⟩

end EdgeDaemon

end EdgeIpc.Daemon
