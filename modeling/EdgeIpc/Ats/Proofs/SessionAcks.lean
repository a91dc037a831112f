/-
What an ACK of the telemetry loop says about the reading it answers.

# The law and its condition

The protocol's session flow has the server answer each TELEMETRY frame,
and the n-th such ACK is meant to say that the n-th reading is stored.
In the loop the ACK is not guarded by the insert: a payload under 20
bytes has no row, nothing is stored, and the ACK goes out all the same
(`shortReading_acked`). Nothing else breaks the law: an insert that
throws ends the session before its ACK. So the law holds along a run
exactly when no step of it acknowledges a frame under 20 bytes
(`acked_stored_iff`).

# The argument

The history of a session is an AUTH exchange, rounds that each end in an
ACK, and a tail without one (`AckView`). Every ACK therefore closes a
round, and cutting the history before it (`split_rounds`) leaves the
rows and the ACKs of the rounds up to there, one ACK a round, one row a
round that has one. At any one state the law is therefore about the
payloads of the frames acknowledged so far (`ackedStored_iff_long`), and
a step adds to these the frame it answers (`acknowledged_step`).
-/
import EdgeIpc.Ats.Proofs.SessionSafety

namespace EdgeIpc.Ats

open Lib

-- ================================================================ the law

/-- The telemetry rows in the database. -/
def storedRows (es : List Effect) : List TelemetryRow :=
  es.filterMap fun
    | .insertTelemetry row db => if db.committed then some row else none
    | _ => none

/-- The ACK frames handed to `async_write`. -/
def ackCount (es : List Effect) : Nat := (outgoing es).count ackFrame

/-- The TELEMETRY frames read. -/
def Session.telemetryFrames (s : Session) : List Frame :=
  s.frames.filter fun f => f.msgType = .telemetry

/-- The subject the first frame's token validated for. -/
def subjectOf (cfg : SessionCfg) : List Frame → String
  | [] => ""
  | f :: _ => (cfg.validate f.payload).subject

/-- The TELEMETRY frames acknowledged: as many as there are ACKs beyond
the one that answers AUTH. -/
def Session.acknowledged (s : Session) : List Frame :=
  s.telemetryFrames.take (ackCount s.effects - 1)

/-- The TELEMETRY frame a step acknowledges: at the ACK of the loop, the
frame read last. -/
def Session.answered (s : Session) : SessionAct → Option Frame
  | .run _ _ =>
      match s.pc with
      | .writeAck _ => s.frames.getLast?
      | _ => none
  | .arrive _ | .close _ => none

/-- The step acknowledges no frame whose payload is under 20 bytes. -/
def Session.NoShortAck (s : Session) (a : SessionAct) (_ : Session) : Prop :=
  ∀ t, s.answered a = some t → 20 ≤ t.payload.length

/-- An acknowledged reading is a stored reading. Before any ACK there are
`n = ackCount pre` others; the first answers AUTH, so this is the n-th of
the telemetry loop. By then `n` rows are stored, and they are the rows of
the first `n` TELEMETRY frames, in order, each of which has one. -/
def Session.AckedStored (cfg : SessionCfg) (s : Session) : Prop :=
  ∀ pre io post, s.effects = pre ++ .write ackFrame io :: post →
    (storedRows pre).length = ackCount pre
      ∧ (storedRows pre).map some
        = (s.telemetryFrames.take (ackCount pre)).map
          fun t => telemetryRow? t.payload (subjectOf cfg s.frames)

-- ============================================================= the rounds

/-- Rounds of the telemetry loop, with how their ACKs were written. -/
def rounds (subject : String) (ps : List (Frame × Option SysError)) :
    List Effect :=
  ps.flatMap fun p => roundTrace subject p.1 p.2

/-- The row of the round's frame. -/
def rowOf (subject : String) (p : Frame × Option SysError) :
    Option TelemetryRow :=
  telemetryRow? p.1.payload subject

theorem storedRows_append (es es' : List Effect) :
    storedRows (es ++ es') = storedRows es ++ storedRows es' :=
  List.filterMap_append

theorem ackCount_append (es es' : List Effect) :
    ackCount (es ++ es') = ackCount es + ackCount es' := by
  rw [ackCount, outgoing, List.filterMap_append, List.count_append]
  rfl

theorem storedRows_store (subject : String) (t : Frame) :
    storedRows (storeTrace subject t)
      = (telemetryRow? t.payload subject).toList := by
  unfold storeTrace
  cases telemetryRow? t.payload subject <;> rfl

theorem ackCount_store (subject : String) (t : Frame) :
    ackCount (storeTrace subject t) = 0 := by
  unfold storeTrace
  cases telemetryRow? t.payload subject <;> rfl

theorem rounds_cons (subject : String) (p : Frame × Option SysError)
    (ps : List (Frame × Option SysError)) :
    rounds subject (p :: ps) = storeTrace subject p.1
      ++ .write ackFrame p.2 :: rounds subject ps := by
  simp [rounds, roundTrace]

theorem storedRows_rounds (subject : String)
    (ps : List (Frame × Option SysError)) :
    storedRows (rounds subject ps) = ps.filterMap (rowOf subject) := by
  induction ps with
  | nil => rfl
  | cons p ps ih =>
      rw [rounds_cons, storedRows_append, storedRows_store]
      show _ ++ storedRows (rounds subject ps) = _
      rw [ih, List.filterMap_cons, rowOf]
      cases telemetryRow? p.1.payload subject <;> rfl

theorem ackCount_rounds (subject : String)
    (ps : List (Frame × Option SysError)) :
    ackCount (rounds subject ps) = ps.length := by
  induction ps with
  | nil => rfl
  | cons p ps ih =>
      rw [rounds_cons, ackCount_append, ackCount_store,
        ← List.singleton_append, ackCount_append, ih, List.length_cons,
        show ackCount [.write ackFrame p.2] = 1 from rfl]
      omega

theorem write_notMem_store (subject : String) (t f : Frame)
    (io : Option SysError) : .write f io ∉ storeTrace subject t := by
  unfold storeTrace
  cases telemetryRow? t.payload subject <;> simp

/-- Every ACK closes a round. -/
theorem split_rounds {subject : String} {tail : List Effect}
    (htail : ∀ io, .write ackFrame io ∉ tail) :
    ∀ {ps : List (Frame × Option SysError)} {pre post : List Effect}
      {io : Option SysError},
      rounds subject ps ++ tail = pre ++ .write ackFrame io :: post →
      ∃ ps₁ p ps₂, ps = ps₁ ++ p :: ps₂
        ∧ pre = rounds subject ps₁ ++ storeTrace subject p.1
  | [], pre, post, io, h => by
      refine absurd ?_ (htail io)
      rw [show tail = _ from h]
      simp
  | p :: ps, pre, post, io, h => by
      rw [rounds_cons, List.append_assoc, List.cons_append] at h
      -- the ACK is this round's, or it lies behind it
      rcases List.append_eq_append_iff.mp h with
        ⟨mid, hpre, hmid⟩ | ⟨mid, hstore, hmid⟩
      · cases mid with
        | nil => exact ⟨[], p, ps, rfl, by simp [hpre, rounds]⟩
        | cons x mid =>
            injection hmid with hx hmid
            obtain ⟨ps₁, q, ps₂, rfl, rfl⟩ := split_rounds htail hmid
            refine ⟨p :: ps₁, q, ps₂, rfl, ?_⟩
            rw [hpre, ← hx, rounds_cons, List.append_assoc, List.cons_append]
      · cases mid with
        | nil => exact ⟨[], p, ps, rfl, by simp [hstore, rounds]⟩
        | cons x mid =>
            injection hmid with hx hmid
            refine absurd ?_ (write_notMem_store subject p.1 ackFrame io)
            rw [hstore, hx]
            simp

/-- The other way: every round has its ACK. -/
theorem rounds_split (subject : String)
    (ps₁ ps₂ : List (Frame × Option SysError))
    (p : Frame × Option SysError) (tail : List Effect) :
    rounds subject (ps₁ ++ p :: ps₂) ++ tail
      = (rounds subject ps₁ ++ storeTrace subject p.1)
        ++ .write ackFrame p.2 :: (rounds subject ps₂ ++ tail) := by
  have hcons := rounds_cons subject p ps₂
  simp only [rounds, List.flatMap_append] at hcons ⊢
  rw [hcons]
  simp

/-- All of a list of values are there exactly when dropping the missing
ones drops none. -/
theorem map_some_filterMap_eq_iff {α β : Type _} (g : α → Option β)
    (l : List α) :
    (l.filterMap g).map some = l.map g ↔ ∀ x ∈ l, (g x).isSome = true := by
  induction l with
  | nil => simp
  | cons a l ih =>
      cases hg : g a with
      | none =>
          -- a list of `some`s does not begin with `none`
          have hne : (l.filterMap g).map some ≠ none :: l.map g := by
            cases l.filterMap g <;> simp
          simp [hg, hne]
      | some b => simp [hg, ih]

-- =============================================================== the view

/-- A history as the ACKs divide it: none at all, or the AUTH exchange,
rounds, and a tail without an ACK. `ts` are the TELEMETRY frames. -/
inductive AckView (subject : String) : List Frame → List Effect → Prop
  | none {ts : List Frame} {es : List Effect}
      (h : ∀ io, .write ackFrame io ∉ es) : AckView subject ts es
  | rounds (row : AuthLogRow) (io : Option SysError)
      (ps : List (Frame × Option SysError)) {more : List Frame}
      {tail : List Effect} (htail : ∀ io, .write ackFrame io ∉ tail) :
      AckView subject (ps.map Prod.fst ++ more)
        (.insertAuthLog row .ok :: .write ackFrame io
          :: (Ats.rounds subject ps ++ tail))

theorem ackCount_eq_zero {es : List Effect}
    (h : ∀ io, .write ackFrame io ∉ es) : ackCount es = 0 := by
  refine List.count_eq_zero.mpr fun hmem => ?_
  obtain ⟨e, he, heq⟩ := List.mem_filterMap.mp hmem
  cases e with
  | write f io =>
      injection heq with heq
      subst heq
      exact h io he
  | insertAuthLog | insertTelemetry | log => cases heq

/-- The history before the ACK of round `p`: a row for each frame so far
that has one, an ACK for each frame so far. -/
theorem before_ack (row : AuthLogRow) (io : Option SysError)
    (subject : String) (ps : List (Frame × Option SysError))
    (p : Frame × Option SysError) :
    let pre := .insertAuthLog row .ok :: .write ackFrame io
      :: (rounds subject ps ++ storeTrace subject p.1)
    storedRows pre = (ps ++ [p]).filterMap (rowOf subject)
      ∧ ackCount pre = (ps ++ [p]).length := by
  refine ⟨?_, ?_⟩
  · show storedRows (rounds subject ps ++ storeTrace subject p.1) = _
    rw [storedRows_append, storedRows_rounds, storedRows_store,
      List.filterMap_append]
    congr 1
  · show ackCount ([.insertAuthLog row .ok, .write ackFrame io]
      ++ (rounds subject ps ++ storeTrace subject p.1)) = _
    rw [ackCount_append, ackCount_append, ackCount_rounds, ackCount_store,
      List.length_append, show ackCount
        [.insertAuthLog row .ok, .write ackFrame io] = 1 from rfl]
    simp only [List.length_singleton]
    omega

theorem telemetryRow?_isSome {payload : List Byte} {subject : String} :
    (telemetryRow? payload subject).isSome = true ↔ 20 ≤ payload.length := by
  unfold telemetryRow?
  split <;> simp_all

/-- Rows and frames agree before an ACK exactly when every frame up to
there has a row. -/
theorem stored_before_ack {subject : String} {more : List Frame}
    (qs ps₂ : List (Frame × Option SysError)) :
    ((qs.filterMap (rowOf subject)).length = qs.length
      ∧ (qs.filterMap (rowOf subject)).map some
        = ((((qs ++ ps₂).map Prod.fst ++ more).take qs.length).map
          fun t => telemetryRow? t.payload subject))
      ↔ ∀ p ∈ qs, 20 ≤ p.1.payload.length := by
  have htake : ((qs ++ ps₂).map Prod.fst ++ more).take qs.length
      = qs.map Prod.fst := by
    rw [List.map_append, List.append_assoc,
      List.take_left' (List.length_map _)]
  have hmap : (qs.map Prod.fst).map (fun t => telemetryRow? t.payload subject)
      = qs.map (rowOf subject) := by
    rw [List.map_map]
    rfl
  rw [htake, hmap]
  have hiff := map_some_filterMap_eq_iff (rowOf subject) qs
  constructor
  · rintro ⟨-, hrows⟩ p hp
    exact telemetryRow?_isSome.mp (hiff.mp hrows p hp)
  · intro hlong
    have hrows := hiff.mpr fun p hp => telemetryRow?_isSome.mpr (hlong p hp)
    refine ⟨?_, hrows⟩
    have hlen := congrArg List.length hrows
    rwa [List.length_map, List.length_map] at hlen

theorem ackCount_view (row : AuthLogRow) (io : Option SysError)
    (subject : String) (ps : List (Frame × Option SysError))
    {tail : List Effect} (htail : ∀ io, .write ackFrame io ∉ tail) :
    ackCount (.insertAuthLog row .ok :: .write ackFrame io
      :: (rounds subject ps ++ tail)) = ps.length + 1 := by
  show ackCount ([.insertAuthLog row .ok, .write ackFrame io]
    ++ (rounds subject ps ++ tail)) = _
  rw [ackCount_append, ackCount_append, ackCount_rounds,
    ackCount_eq_zero htail, show ackCount
      [.insertAuthLog row .ok, .write ackFrame io] = 1 from rfl]
  omega

/-- No more telemetry ACKs than TELEMETRY frames. -/
theorem AckView.count_le {subject : String} {ts : List Frame}
    {es : List Effect} (h : AckView subject ts es) :
    ackCount es - 1 ≤ ts.length := by
  cases h with
  | none hno =>
      rw [ackCount_eq_zero hno]
      omega
  | rounds row io ps htail =>
      rw [ackCount_view row io subject ps htail, List.length_append,
        List.length_map]
      omega

theorem AckView.stored_iff {subject : String} {ts : List Frame}
    {es : List Effect} (h : AckView subject ts es) :
    (∀ pre io post, es = pre ++ .write ackFrame io :: post →
      (storedRows pre).length = ackCount pre
        ∧ (storedRows pre).map some = (ts.take (ackCount pre)).map
          fun t => telemetryRow? t.payload subject)
      ↔ ∀ t ∈ ts.take (ackCount es - 1), 20 ≤ t.payload.length := by
  cases h with
  | none hno =>
      rw [ackCount_eq_zero hno]
      refine ⟨fun _ => nofun, fun _ pre io post hes => ?_⟩
      exact absurd (by simp [hes]) (hno io)
  | @rounds row io ps more tail htail =>
      rw [ackCount_view row io subject ps htail, Nat.add_sub_cancel,
        List.take_left' (List.length_map _)]
      constructor
      · intro hstored t ht
        obtain ⟨p, hp, rfl⟩ := List.mem_map.mp ht
        obtain ⟨ps₁, ps₂, rfl⟩ := List.append_of_mem hp
        have hat := hstored (.insertAuthLog row .ok :: .write ackFrame io
          :: (Ats.rounds subject ps₁ ++ storeTrace subject p.1)) p.2
          (Ats.rounds subject ps₂ ++ tail)
          (by rw [rounds_split]; rfl)
        obtain ⟨hrows, hacks⟩ := before_ack row io subject ps₁ p
        rw [hrows, hacks, List.append_cons ps₁ p ps₂] at hat
        exact (stored_before_ack _ ps₂).mp hat p (by simp)
      · intro hlong pre io' post hes
        match pre, hes with
        | [], hes => cases hes
        | [x], hes =>
            injection hes with hx hes
            rw [← hx]
            exact ⟨rfl, rfl⟩
        | x :: y :: pre', hes =>
            injection hes with hx hes
            injection hes with hy hes
            obtain ⟨ps₁, p, ps₂, rfl, rfl⟩ := split_rounds htail hes
            rw [← hx, ← hy]
            obtain ⟨hrows, hacks⟩ := before_ack row io subject ps₁ p
            rw [hrows, hacks, List.append_cons ps₁ p ps₂]
            refine (stored_before_ack _ ps₂).mpr fun q hq => ?_
            refine hlong q.1 (List.mem_map_of_mem ?_)
            rw [List.append_cons]
            exact List.mem_append_left _ hq

-- ===================================================== from the grammar

variable {cfg : SessionCfg}

/-- Log lines are no ACK. -/
theorem OnlyLogs.noAck {es : List Effect} (h : OnlyLogs es)
    (io : Option SysError) : .write ackFrame io ∉ es := by
  intro hmem
  obtain ⟨text, htext⟩ := h _ hmem
  cases htext

/-- Nor is one among an effect that is none and log lines. -/
theorem OnlyLogs.noAck_cons {e : Effect} {es : List Effect}
    (h : OnlyLogs es) (he : ∀ io, .write ackFrame io ≠ e)
    (io : Option SysError) : .write ackFrame io ∉ e :: es := by
  intro hmem
  rcases List.mem_cons.mp hmem with heq | hmem
  · exact he io heq
  · exact h.noAck io hmem

theorem ack_ne_error (io io' : Option SysError) :
    Effect.write ackFrame io ≠ .write errorFrame io' := by
  intro heq
  injection heq with heq
  cases heq

/-- Rounds, in the form the view has them. -/
theorem Rounds.view {subject : String} {fs : List Frame}
    {es : List Effect} (h : Rounds cfg subject fs es) :
    ∃ row ps, fs.filter (fun f => f.msgType = .telemetry) = ps.map Prod.fst
      ∧ es = .insertAuthLog row .ok :: .write ackFrame none
        :: rounds subject ps := by
  induction h with
  | @auth f ha =>
      refine ⟨_, [], ?_, rfl⟩
      simp [ha.auth, MsgType.auth, MsgType.telemetry]
  | @round fs es t h ht ih =>
      obtain ⟨row, ps, hts, rfl⟩ := ih
      refine ⟨row, ps ++ [(t, none)], ?_, ?_⟩
      · simp [List.filter_append, hts, ht]
      · simp [rounds]

theorem Rounds.subjectOf {subject : String} {fs : List Frame}
    {es : List Effect} (h : Rounds cfg subject fs es) (more : List Frame) :
    subjectOf cfg (fs ++ more) = subject := by
  obtain ⟨f, fs', -, rfl, ha, -, -⟩ := h.outline
  exact ha.subject

/-- Rounds and a last one not acknowledged. -/
theorem Rounds.ackView {subject : String} {fs : List Frame}
    {es : List Effect} (h : Rounds cfg subject fs es) (last : List Frame)
    {tail : List Effect} (htail : ∀ io, .write ackFrame io ∉ tail) :
    AckView (Ats.subjectOf cfg (fs ++ last))
      ((fs ++ last).filter fun f => f.msgType = .telemetry) (es ++ tail) := by
  rw [h.subjectOf, List.filter_append]
  obtain ⟨row, ps, hts, rfl⟩ := h.view
  rw [hts]
  exact .rounds row none ps htail

/-- Rounds and a last one whose ACK could not be written. -/
theorem Rounds.ackView_lost {subject : String} {fs : List Frame}
    {es logs : List Effect} {t : Frame} (h : Rounds cfg subject fs es)
    (ht : t.msgType = .telemetry) (io : Option SysError)
    (hl : OnlyLogs logs) :
    AckView (Ats.subjectOf cfg (fs ++ [t]))
      ((fs ++ [t]).filter fun f => f.msgType = .telemetry)
      (es ++ (roundTrace subject t io ++ logs)) := by
  rw [h.subjectOf]
  obtain ⟨row, ps, hts, rfl⟩ := h.view
  have hframes : (fs ++ [t]).filter (fun f => f.msgType = .telemetry)
      = (ps ++ [(t, io)]).map Prod.fst ++ [] := by
    simp [List.filter_append, hts, ht]
  have heffects : Effect.insertAuthLog row .ok :: .write ackFrame none
        :: rounds subject ps ++ (roundTrace subject t io ++ logs)
      = .insertAuthLog row .ok :: .write ackFrame none
        :: (rounds subject (ps ++ [(t, io)]) ++ logs) := by
    simp [rounds]
  rw [hframes, heffects]
  exact .rounds row none _ hl.noAck

/-- Every history of the grammar is one the view describes. -/
theorem Shape.ackView {pc : SessionPc} {fs : List Frame}
    {es : List Effect} (h : Shape cfg pc fs es) :
    AckView (subjectOf cfg fs)
      (fs.filter fun f => f.msgType = .telemetry) es := by
  have hnil : ∀ io, Effect.write ackFrame io ∉ ([] : List Effect) := nofun
  cases h with
  | readAuth | wrongType | insertAuth | authOutOfBounds => exact .none nofun
  | rejected | accepted => exact .none (by simp)
  | loop h =>
      have hv := h.ackView [] hnil
      rwa [List.append_nil, List.append_nil] at hv
  | @storing _ _ _ t _ h =>
      have hv := h.ackView [t] hnil
      rwa [List.append_nil] at hv
  | acking h => exact h.ackView _ (write_notMem_store _ _ _)
  | noAuth hl => exact .none hl.noAck
  | refused hf hl => exact .none (hl.noAck_cons fun io => ack_ne_error io _)
  | authThrew hf hl => exact .none (hl.noAck_cons nofun)
  | turnedAway hf hv hl =>
      refine .none fun io hmem => ?_
      rcases List.mem_cons.mp hmem with heq | hmem
      · cases heq
      · exact hl.noAck_cons (fun io => ack_ne_error io _) io hmem
  | @authAckLost f subject e logs ha hl =>
      have hframes : [f].filter (fun f => f.msgType = .telemetry)
          = ([] : List (Frame × Option SysError)).map Prod.fst ++ [] := by
        simp [ha.auth, MsgType.auth, MsgType.telemetry]
      rw [hframes]
      exact .rounds _ (some e) [] hl.noAck
  | cut h hl =>
      have hv := h.ackView [] hl.noAck
      rwa [List.append_nil] at hv
  | @goodbye _ _ _ t h =>
      have hv := h.ackView [t] hnil
      rwa [List.append_nil] at hv
  | storeThrew h ht hrow hl => exact h.ackView _ (hl.noAck_cons nofun)
  | ackLost h ht hl => exact h.ackView_lost ht _ hl
  | loopOutOfBounds h =>
      have hv := h.ackView [] hnil
      rwa [List.append_nil, List.append_nil] at hv

-- ============================================================== the steps

namespace Session

variable {s s' : Session}

/-- At one state the law is about the frames acknowledged so far. -/
theorem ackedStored_iff_long (hi : SessionInv cfg s) :
    s.AckedStored cfg ↔ ∀ t ∈ s.acknowledged, 20 ≤ t.payload.length :=
  hi.shape.ackView.stored_iff

/-- A step that hands out no ACK acknowledges nothing. -/
theorem acknowledged_quiet {more : List Frame} {new : List Effect}
    (hi : SessionInv cfg s) (hframes : s'.frames = s.frames ++ more)
    (heffects : s'.effects = s.effects ++ new)
    (hnew : ∀ io, .write ackFrame io ∉ new) :
    s'.acknowledged = s.acknowledged := by
  have hle := hi.shape.ackView.count_le
  unfold acknowledged telemetryFrames
  rw [hframes, heffects, List.filter_append, ackCount_append,
    ackCount_eq_zero hnew, Nat.add_zero, List.take_append_of_le_length hle]

theorem acknowledged_read {k : Frame → SessionPc} (hi : SessionInv cfg s)
    (h : s.read cfg k = some s') : s'.acknowledged = s.acknowledged := by
  cases read_cases h with
  | frame hsize hin =>
      exact acknowledged_quiet hi rfl (List.append_nil _).symm nofun
  | fail he hclosed hl =>
      exact acknowledged_quiet hi (List.append_nil _).symm rfl hl.noAck
  | outOfBounds => rfl

theorem acknowledged_call {e : Effect} {db : DbOutcome} {next : SessionPc}
    (hi : SessionInv cfg s) (he : ∀ io, .write ackFrame io ≠ e) :
    (s.call cfg e db next).acknowledged = s.acknowledged := by
  rcases call_eq cfg e db next s with ⟨-, heq⟩ | ⟨_, _, logs, -, hl, heq⟩
  · rw [heq]
    exact acknowledged_quiet hi (List.append_nil _).symm rfl
      (OnlyLogs.noAck_cons nofun he)
  · rw [heq]
    exact acknowledged_quiet hi (List.append_nil _).symm rfl
      (hl.noAck_cons he)

theorem acknowledged_writeError {io : Option SysError}
    (hi : SessionInv cfg s) :
    (s.write cfg errorFrame io .done).acknowledged = s.acknowledged := by
  rcases write_eq cfg (f := errorFrame) rfl io .done s with
    ⟨-, heq⟩ | ⟨e, logs, -, hl, heq⟩
  · rw [heq]
    exact acknowledged_quiet hi (List.append_nil _).symm rfl
      (OnlyLogs.noAck_cons nofun fun io => ack_ne_error io none)
  · rw [heq]
    exact acknowledged_quiet hi (List.append_nil _).symm rfl
      (hl.noAck_cons fun io => ack_ne_error io (some e))

/-- Writing an ACK adds one to the count, written or lost. -/
theorem acknowledged_writeAck {io : Option SysError} {next : SessionPc} :
    (s.write cfg ackFrame io next).acknowledged
      = s.telemetryFrames.take (ackCount s.effects) := by
  rcases write_eq cfg (f := ackFrame) rfl io next s with
    ⟨-, heq⟩ | ⟨e, logs, -, hl, heq⟩
  · rw [heq]
    unfold acknowledged
    rw [ackCount_append]
    rfl
  · rw [heq]
    unfold acknowledged
    rw [ackCount_append, ← List.singleton_append, ackCount_append,
      ackCount_eq_zero hl.noAck]
    rfl

theorem acknowledged_feed {bs : List Byte} {e : Option SysError}
    (h : s.feed bs e = some s') : s'.acknowledged = s.acknowledged := by
  unfold feed at h
  split at h
  next => cases h
  next =>
    injection h with h
    rw [← h]
    rfl

/-- The ACK of a reading is for that reading: those before it have had
theirs. -/
theorem acknowledged_acking {subject : String} {fs : List Frame}
    {es : List Effect} {t : Frame} {io : Option SysError} {next : SessionPc}
    (hr : Rounds cfg subject fs es) (ht : t.msgType = .telemetry)
    (hfs : s.frames = fs ++ [t])
    (hes : s.effects = es ++ storeTrace subject t) :
    (s.write cfg ackFrame io next).acknowledged
      = s.acknowledged ++ [t] := by
  obtain ⟨row, ps, hts, rfl⟩ := hr.view
  have hframes : s.telemetryFrames = ps.map Prod.fst ++ [t] := by
    simp [telemetryFrames, hfs, List.filter_append, hts, ht]
  have hcount : ackCount s.effects = ps.length + 1 := by
    rw [hes]
    exact ackCount_view row none subject ps
      (write_notMem_store subject t ackFrame)
  rw [acknowledged_writeAck, acknowledged, hcount, hframes]
  simp

/-- A step adds to the frames acknowledged the one it answers. -/
theorem acknowledged_step {a : SessionAct} (hi : SessionInv cfg s)
    (h : step cfg a s = some s') :
    s'.acknowledged = s.acknowledged ++ (s.answered a).toList := by
  cases a with
  | arrive bs =>
      rw [acknowledged_feed h]
      exact (List.append_nil _).symm
  | close e =>
      rw [acknowledged_feed h]
      exact (List.append_nil _).symm
  | run io db =>
      have hshape := hi.shape
      generalize hpc : s.pc = pc at hshape
      generalize hfs : s.frames = fs at hshape
      generalize hes : s.effects = es at hshape
      simp only [step, run, hpc] at h
      cases hshape with
      | readAuth | loop =>
          rw [acknowledged_read hi h]
          simp [answered, hpc]
      | wrongType | rejected =>
          injection h with h
          subst h
          rw [acknowledged_writeError hi]
          simp [answered, hpc]
      | insertAuth | storing =>
          injection h with h
          subst h
          rw [acknowledged_call hi]
          · simp [answered, hpc]
          · intro io heq
            cases heq
      | accepted =>
          -- the ACK of the AUTH frame answers no reading
          injection h with h
          subst h
          rw [acknowledged_writeAck, hes]
          simp [answered, hpc, acknowledged, hes, ackCount, outgoing]
      | @acking subject fs es t hr ht =>
          injection h with h
          subst h
          rw [acknowledged_acking hr ht hfs hes]
          simp [answered, hpc, hfs]
      | noAuth | refused | authThrew | turnedAway | authAckLost | cut
      | goodbye | storeThrew | ackLost | authOutOfBounds | loopOutOfBounds =>
          cases h

/-- What a run without short ACKs keeps. -/
structure LongInv (cfg : SessionCfg) (s : Session) : Prop where
  inv : SessionInv cfg s
  long : ∀ t ∈ s.acknowledged, 20 ≤ t.payload.length

theorem longInv_step {a : SessionAct} (hi : LongInv cfg s)
    (h : step cfg a s = some s') (hok : NoShortAck s a s') :
    LongInv cfg s' := by
  refine ⟨sessionInv_step hi.inv h, fun t ht => ?_⟩
  rw [acknowledged_step hi.inv h] at ht
  rcases List.mem_append.mp ht with ht | ht
  · exact hi.long t ht
  · exact hok t (Option.mem_toList.mp ht)

theorem LongInv.stored (hi : LongInv cfg s) : s.AckedStored cfg :=
  (ackedStored_iff_long hi.inv).mpr hi.long

theorem noShortAck_of_stored {a : SessionAct} (hi : SessionInv cfg s)
    (h : step cfg a s = some s') (hstored : s'.AckedStored cfg) :
    NoShortAck s a s' := by
  have hlong := (ackedStored_iff_long (sessionInv_step hi h)).mp hstored
  rw [acknowledged_step hi h] at hlong
  intro t ht
  apply hlong
  rw [ht]
  simp

end Session

-- ============================================================= the theorem

/-- Along every run of a session, on either server, whatever arrives and
whatever fails: the n-th telemetry ACK is written only after the n-th
TELEMETRY frame was stored as exactly one row, for every `n` and at every
state, iff each time the loop writes an ACK the frame it answers has a
payload of 20 bytes or more. -/
theorem acked_stored_iff (cfg : SessionCfg) (as : List SessionAct) :
    AllStates (Session.step cfg) (Session.AckedStored cfg) as
        TcpServer.handleSession
      ↔ AllSteps (Session.step cfg) Session.NoShortAck as
        TcpServer.handleSession := by
  constructor
  · intro h
    refine AllSteps.mono (Session.SessionInv cfg) ?_ Session.sessionInv_init
      h.ends
    rintro s s' a hi hs ⟨-, hstored⟩
    exact ⟨Session.noShortAck_of_stored hi hs hstored,
      Session.sessionInv_step hi hs⟩
  · exact allStates_of_allSteps Session.longInv_step Session.LongInv.stored
      ⟨Session.sessionInv_init, nofun⟩

/-- A reading without payload is acknowledged and not stored. -/
theorem shortReading_acked :
    ∃ s, exec (Session.step ⟨.tcp, openDoor, "127.0.0.1"⟩) (oneReading [] 5)
        TcpServer.handleSession = some s
      ∧ storedRows s.effects = [] ∧ ackCount s.effects = 2
      ∧ ¬ s.AckedStored ⟨.tcp, openDoor, "127.0.0.1"⟩ := by
  have hrun : (exec (Session.step ⟨.tcp, openDoor, "127.0.0.1"⟩)
      (oneReading [] 5) TcpServer.handleSession).map Session.effects
      = some [.insertAuthLog ⟨"sensor", "AUTH_OK", "127.0.0.1"⟩ .ok,
        .write ackFrame none, .write ackFrame none] := by
    decide +kernel
  obtain ⟨s, hs, hes⟩ := Option.map_eq_some_iff.mp hrun
  refine ⟨s, hs, by rw [hes]; rfl, by rw [hes]; rfl, fun h => ?_⟩
  -- before the second ACK: one ACK, no row
  have hcount := (h (_ :: _ :: []) none [] hes).1
  cases hcount

end EdgeIpc.Ats
