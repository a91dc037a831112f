/-
The shape of a session: which control point it can be at after which
frames, with which effects behind it.

# The grammar

`Shape` is the protocol's session flow as the server runs it, every way
out included: one constructor for each control point and one for each
way a session ends. It speaks about frames, not bytes, and about no
schedule. `Rounds` is the part between the AUTH exchange and the next
frame: the telemetry rounds so far, each a stored row (when the payload
has one) and an ACK.

# The refinement

`sessionInv_reachable`: whatever arrives, in whatever portions, and
however writes and repository calls come out, the session is always at a
`Shape` whose frames are exactly the frames the bytes so far begin with
(`SessionInv.stream`), and it has given up on the first frame only if
the bytes have none (`SessionInv.noFrame`). What the laws say about the
session they then read off `Shape`.

# The end

On a stream that has ended the session never waits, and each of its
steps comes closer to the end (`run_closed`), so it gets there
(`session_ends`).
-/
import EdgeIpc.Ats.Proofs.Framing
import EdgeIpc.Ats.Session
import EdgeIpc.Lib.Run

namespace EdgeIpc.Ats

open Lib

-- ============================================================ the grammar

/-- Log lines only. -/
def OnlyLogs (es : List Effect) : Prop := ∀ e ∈ es, ∃ text, e = .log text

/-- The frame is an AUTH whose token the validator accepts, for this
subject. -/
structure Accepted (cfg : SessionCfg) (f : Frame) (subject : String) :
    Prop where
  auth : f.msgType = .auth
  ok : (cfg.validate f.payload).ok = true
  subject : (cfg.validate f.payload).subject = subject

/-- What an accepted AUTH leaves: its row, its ACK. -/
def authTrace (cfg : SessionCfg) (f : Frame) : List Effect :=
  [.insertAuthLog (cfg.authRow f.payload) .ok, .write ackFrame none]

/-- What storing a TELEMETRY frame leaves: its row, if it has one. -/
def storeTrace (subject : String) (t : Frame) : List Effect :=
  match telemetryRow? t.payload subject with
  | some row => [.insertTelemetry row .ok]
  | none => []

/-- One round of the telemetry loop. -/
def roundTrace (subject : String) (t : Frame) (io : Option SysError) :
    List Effect :=
  storeTrace subject t ++ [.write ackFrame io]

/-- An accepted AUTH and the telemetry rounds after it. -/
inductive Rounds (cfg : SessionCfg) (subject : String) :
    List Frame → List Effect → Prop
  | auth {f : Frame} (h : Accepted cfg f subject) :
      Rounds cfg subject [f] (authTrace cfg f)
  | round {fs : List Frame} {es : List Effect} {t : Frame}
      (h : Rounds cfg subject fs es) (ht : t.msgType = .telemetry) :
      Rounds cfg subject (fs ++ [t]) (es ++ roundTrace subject t none)

/-- The session flow: the control point, the frames read and the effects
so far. The constructors from `noAuth` on are the ways a session ends. -/
inductive Shape (cfg : SessionCfg) :
    SessionPc → List Frame → List Effect → Prop
  | readAuth : Shape cfg .readAuth [] []
  | wrongType {f : Frame} (hf : f.msgType ≠ .auth) :
      Shape cfg .writeError [f] []
  | insertAuth {f : Frame} (hf : f.msgType = .auth) :
      Shape cfg (.insertAuth f.payload) [f] []
  | rejected {f : Frame} (hf : f.msgType = .auth)
      (hv : (cfg.validate f.payload).ok = false) :
      Shape cfg .writeError [f]
        [.insertAuthLog (cfg.authRow f.payload) .ok]
  | accepted {f : Frame} {subject : String}
      (ha : Accepted cfg f subject) :
      Shape cfg (.writeAuthAck subject) [f]
        [.insertAuthLog (cfg.authRow f.payload) .ok]
  | loop {subject : String} {fs : List Frame} {es : List Effect}
      (h : Rounds cfg subject fs es) :
      Shape cfg (.readTelemetry subject) fs es
  | storing {subject : String} {fs : List Frame} {es : List Effect}
      {t : Frame} {row : TelemetryRow} (h : Rounds cfg subject fs es)
      (ht : t.msgType = .telemetry)
      (hrow : telemetryRow? t.payload subject = some row) :
      Shape cfg (.insertTelemetry subject row) (fs ++ [t]) es
  | acking {subject : String} {fs : List Frame} {es : List Effect}
      {t : Frame} (h : Rounds cfg subject fs es)
      (ht : t.msgType = .telemetry) :
      Shape cfg (.writeAck subject) (fs ++ [t]) (es ++ storeTrace subject t)
  | noAuth {logs : List Effect} (hl : OnlyLogs logs) :
      Shape cfg .done [] logs
  | refused {f : Frame} {io : Option SysError} {logs : List Effect}
      (hf : f.msgType ≠ .auth) (hl : OnlyLogs logs) :
      Shape cfg .done [f] (.write errorFrame io :: logs)
  | authThrew {f : Frame} {what : String} {stored : Bool}
      {logs : List Effect} (hf : f.msgType = .auth) (hl : OnlyLogs logs) :
      Shape cfg .done [f]
        (.insertAuthLog (cfg.authRow f.payload) (.threw what stored) :: logs)
  | turnedAway {f : Frame} {io : Option SysError} {logs : List Effect}
      (hf : f.msgType = .auth)
      (hv : (cfg.validate f.payload).ok = false) (hl : OnlyLogs logs) :
      Shape cfg .done [f]
        (.insertAuthLog (cfg.authRow f.payload) .ok
          :: .write errorFrame io :: logs)
  | authAckLost {f : Frame} {subject : String} {e : SysError}
      {logs : List Effect} (ha : Accepted cfg f subject)
      (hl : OnlyLogs logs) :
      Shape cfg .done [f]
        (.insertAuthLog (cfg.authRow f.payload) .ok
          :: .write ackFrame (some e) :: logs)
  | cut {subject : String} {fs : List Frame} {es logs : List Effect}
      (h : Rounds cfg subject fs es) (hl : OnlyLogs logs) :
      Shape cfg .done fs (es ++ logs)
  | goodbye {subject : String} {fs : List Frame} {es : List Effect}
      {t : Frame} (h : Rounds cfg subject fs es)
      (ht : t.msgType ≠ .telemetry) :
      Shape cfg .done (fs ++ [t]) es
  | storeThrew {subject : String} {fs : List Frame}
      {es logs : List Effect} {t : Frame} {row : TelemetryRow}
      {what : String} {stored : Bool} (h : Rounds cfg subject fs es)
      (ht : t.msgType = .telemetry)
      (hrow : telemetryRow? t.payload subject = some row)
      (hl : OnlyLogs logs) :
      Shape cfg .done (fs ++ [t])
        (es ++ .insertTelemetry row (.threw what stored) :: logs)
  | ackLost {subject : String} {fs : List Frame}
      {es logs : List Effect} {t : Frame} {e : SysError}
      (h : Rounds cfg subject fs es) (ht : t.msgType = .telemetry)
      (hl : OnlyLogs logs) :
      Shape cfg .done (fs ++ [t])
        (es ++ (roundTrace subject t (some e) ++ logs))
  | authOutOfBounds : Shape cfg .undefined [] []
  | loopOutOfBounds {subject : String} {fs : List Frame}
      {es : List Effect} (h : Rounds cfg subject fs es) :
      Shape cfg .undefined fs es

namespace Session

variable {cfg : SessionCfg} {s s' : Session}

-- ================================================== what the pieces do

theorem throwSystem_eq (cfg : SessionCfg) (e : SysError) (s : Session) :
    ∃ logs, OnlyLogs logs ∧ s.throwSystem cfg e
      = { s with pc := .done, effects := s.effects ++ logs } := by
  refine ⟨_, ?_, rfl⟩
  cases e <;> simp [OnlyLogs]

theorem throwStd_eq (cfg : SessionCfg) (what : String) (s : Session) :
    ∃ logs, OnlyLogs logs ∧ s.throwStd cfg what
      = { s with pc := .done, effects := s.effects ++ logs } := by
  refine ⟨_, ?_, rfl⟩
  simp [OnlyLogs]

/-- A frame without payload is always written whole. -/
theorem writeFrame_empty (sv : Server) {f : Frame} (h : f.payload = []) :
    sv.endpoint.writeFrame f = some f.wire := by
  rw [sv.endpoint.writeFrame_eq, serialize_eq_wire (by simp [h])]

/-- A write that succeeds goes on, one that fails ends the session. -/
theorem write_eq (cfg : SessionCfg) {f : Frame} (hf : f.payload = [])
    (io : Option SysError) (next : SessionPc) (s : Session) :
    (io = none ∧ s.write cfg f io next
        = { s with pc := next, outbox := s.outbox ++ f.wire,
                   effects := s.effects ++ [.write f none] })
      ∨ ∃ e logs, io = some e ∧ OnlyLogs logs ∧ s.write cfg f io next
        = { s with pc := .done, effects := s.effects ++ .write f (some e) :: logs } := by
  unfold write
  rw [writeFrame_empty cfg.server hf]
  cases io with
  | none => exact .inl ⟨rfl, rfl⟩
  | some e =>
      obtain ⟨logs, hl, heq⟩ := throwSystem_eq cfg e
        { s with effects := s.effects ++ [Effect.write f (some e)] }
      refine .inr ⟨e, logs, rfl, hl, ?_⟩
      show throwSystem _ _ _ = _
      rw [heq, List.append_assoc]
      rfl

/-- A repository call that returns goes on, one that throws ends the
session. -/
theorem call_eq (cfg : SessionCfg) (e : Effect) (db : DbOutcome)
    (next : SessionPc) (s : Session) :
    (db = .ok ∧ s.call cfg e db next
        = { s with pc := next, effects := s.effects ++ [e] })
      ∨ ∃ what stored logs, db = .threw what stored ∧ OnlyLogs logs
        ∧ s.call cfg e db next
          = { s with pc := .done, effects := s.effects ++ e :: logs } := by
  unfold call
  cases db with
  | ok => exact .inl ⟨rfl, rfl⟩
  | threw what stored =>
      obtain ⟨logs, hl, heq⟩ := throwStd_eq cfg what
        { s with effects := s.effects ++ [e] }
      refine .inr ⟨what, stored, logs, rfl, hl, ?_⟩
      show throwStd _ _ _ = _
      rw [heq, List.append_assoc]
      rfl

/-- What a read can do: take the frame the inbox begins with, give up on
an inbox that begins with none, or leave the buffer. -/
inductive ReadStep (k : Frame → SessionPc) (s : Session) : Session → Prop
  | frame {f : Frame} {rest : List Byte}
      (hsize : 12 + f.payload.length < 2 ^ 32)
      (hin : s.inbox = f.wire ++ rest) :
      ReadStep k s
        { s with pc := k f, inbox := rest, frames := s.frames ++ [f] }
  | fail {e : ReadError} {logs : List Effect}
      (he : readFrameOn s.inbox = .error e)
      (hclosed : e = .eof → s.closed.isSome = true) (hl : OnlyLogs logs) :
      ReadStep k s { s with pc := .done, effects := s.effects ++ logs }
  | outOfBounds : ReadStep k s { s with pc := .undefined }

theorem read_cases {k : Frame → SessionPc} (h : s.read cfg k = some s') :
    ReadStep k s s' := by
  unfold read at h
  rw [Endpoint.readFrame_eq] at h
  split at h
  next f rest hr =>
    injection h with h
    subst h
    obtain ⟨hsize, hin⟩ := readFrameOn_ok_iff.mp hr
    exact .frame hsize hin
  next hr =>
    obtain ⟨e, hc, rfl⟩ := Option.map_eq_some_iff.mp h
    obtain ⟨logs, hl, heq⟩ := throwSystem_eq cfg e s
    rw [heq]
    exact .fail hr (fun _ => by rw [hc]; rfl) hl
  next what hr =>
    injection h with h
    subst h
    obtain ⟨logs, hl, heq⟩ := throwStd_eq cfg what s
    rw [heq]
    exact .fail hr nofun hl
  next =>
    injection h with h
    subst h
    exact .outOfBounds

-- ========================================================== the invariant

/-- The session is at a shape of the grammar, and its frames are the
frames the bytes received begin with. -/
structure SessionInv (cfg : SessionCfg) (s : Session) : Prop where
  shape : Shape cfg s.pc s.frames s.effects
  stream : s.received = wires s.frames ++ s.inbox
  sizes : ∀ f ∈ s.frames, 12 + f.payload.length < 2 ^ 32
  noFrame : s.pc = .done → s.frames = [] →
    ∃ e, readFrameOn s.received = .error e
      ∧ (e = .eof → s.closed.isSome = true)

theorem sessionInv_init : SessionInv cfg TcpServer.handleSession :=
  ⟨.readAuth, rfl, nofun, nofun⟩

theorem sessionInv_feed {bs : List Byte} {e : Option SysError}
    (hi : SessionInv cfg s) (h : s.feed bs e = some s') :
    SessionInv cfg s' := by
  unfold feed at h
  split at h
  next => cases h
  next hopen =>
    injection h with h
    subst h
    rw [not_or] at hopen
    refine ⟨hi.shape, ?_, hi.sizes, ?_⟩
    · show s.received ++ bs = wires s.frames ++ (s.inbox ++ bs)
      rw [hi.stream, List.append_assoc]
    · intro hd hnil
      -- the stream was open, so the failure was not its end
      obtain ⟨err, herr, heof⟩ := hi.noFrame hd hnil
      have hne : err ≠ .eof := fun h => hopen.2 (heof h)
      exact ⟨err, readFrameOn_append_error herr hne bs,
        fun h => absurd h hne⟩

/-- Taking a frame off the inbox keeps the account of the stream. -/
theorem sessionInv_frame {f : Frame} {rest : List Byte} {pc : SessionPc}
    (hi : SessionInv cfg s) (hsize : 12 + f.payload.length < 2 ^ 32)
    (hin : s.inbox = f.wire ++ rest)
    (hshape : Shape cfg pc (s.frames ++ [f]) s.effects) :
    SessionInv cfg
      { s with pc := pc, inbox := rest, frames := s.frames ++ [f] } := by
  refine ⟨hshape, ?_, ?_, fun _ hnil => ?_⟩
  · show s.received = wires (s.frames ++ [f]) ++ rest
    rw [hi.stream, hin]
    simp [wires]
  · intro g hg
    rcases List.mem_append.mp hg with hg | hg
    · exact hi.sizes g hg
    · rw [List.mem_singleton.mp hg]
      exact hsize
  · exact absurd hnil (by simp)

/-- A step after the first frame that reads nothing keeps it too. -/
theorem sessionInv_move {pc : SessionPc} {out : List Byte}
    {es : List Effect} (hi : SessionInv cfg s) (hne : s.frames ≠ [])
    (hshape : Shape cfg pc s.frames es) :
    SessionInv cfg { s with pc := pc, outbox := out, effects := es } :=
  ⟨hshape, hi.stream, hi.sizes, fun _ hnil => absurd hnil hne⟩

theorem onAuthFrame_shape (f : Frame) :
    Shape cfg (onAuthFrame f) [f] [] := by
  unfold onAuthFrame
  split
  next hf => exact .wrongType hf
  next hf => exact .insertAuth (Decidable.not_not.mp hf)

theorem onVerdict_shape {f : Frame} (hf : f.msgType = .auth) :
    Shape cfg (onVerdict (cfg.validate f.payload)) [f]
      [.insertAuthLog (cfg.authRow f.payload) .ok] := by
  unfold onVerdict
  split
  next hv => exact .accepted ⟨hf, hv, rfl⟩
  next hv => exact .rejected hf (Bool.not_eq_true _ ▸ hv)

theorem onTelemetryFrame_shape {subject : String} {fs : List Frame}
    {es : List Effect} (h : Rounds cfg subject fs es) (t : Frame) :
    Shape cfg (onTelemetryFrame subject t) (fs ++ [t]) es := by
  unfold onTelemetryFrame
  split
  next ht => exact .goodbye h ht
  next ht =>
    have ht := Decidable.not_not.mp ht
    split
    next row hrow => exact .storing h ht hrow
    next hrow =>
      have hack := Shape.acking h ht
      rw [storeTrace, hrow, List.append_nil] at hack
      exact hack

/-- Giving up on a frame, or leaving the buffer at one, where the
grammar has an end for it. -/
theorem sessionInv_read {k : Frame → SessionPc} (hi : SessionInv cfg s)
    (h : s.read cfg k = some s')
    (hk : ∀ f, Shape cfg (k f) (s.frames ++ [f]) s.effects)
    (hfail : ∀ logs, OnlyLogs logs →
      Shape cfg .done s.frames (s.effects ++ logs))
    (hub : Shape cfg .undefined s.frames s.effects) :
    SessionInv cfg s' := by
  cases read_cases h with
  | frame hsize hin => exact sessionInv_frame hi hsize hin (hk _)
  | @fail e logs he hclosed hl =>
      refine ⟨hfail logs hl, hi.stream, hi.sizes, fun _ hnil => ?_⟩
      -- nothing was read, so the inbox is all there ever was
      have hall : s.received = s.inbox := by
        rw [hi.stream, show s.frames = [] from hnil]
        rfl
      exact ⟨e, hall ▸ he, hclosed⟩
  | outOfBounds => exact ⟨hub, hi.stream, hi.sizes, nofun⟩

/-- A write, where the grammar has a place for both its outcomes. -/
theorem sessionInv_write {f : Frame} {io : Option SysError}
    {next : SessionPc} (hi : SessionInv cfg s) (hne : s.frames ≠ [])
    (hf : f.payload = [])
    (hok : Shape cfg next s.frames (s.effects ++ [.write f none]))
    (hfail : ∀ e logs, OnlyLogs logs →
      Shape cfg .done s.frames (s.effects ++ .write f (some e) :: logs)) :
    SessionInv cfg (s.write cfg f io next) := by
  rcases write_eq cfg hf io next s with ⟨-, heq⟩ | ⟨e, logs, -, hl, heq⟩
  · rw [heq]
    exact sessionInv_move hi hne hok
  · rw [heq]
    exact sessionInv_move hi hne (hfail e logs hl)

/-- A repository call, likewise. -/
theorem sessionInv_call {e : DbOutcome → Effect} {db : DbOutcome}
    {next : SessionPc} (hi : SessionInv cfg s) (hne : s.frames ≠ [])
    (hok : Shape cfg next s.frames (s.effects ++ [e .ok]))
    (hfail : ∀ what stored logs, OnlyLogs logs →
      Shape cfg .done s.frames
        (s.effects ++ e (.threw what stored) :: logs)) :
    SessionInv cfg (s.call cfg (e db) db next) := by
  rcases call_eq cfg (e db) db next s with
    ⟨rfl, heq⟩ | ⟨what, stored, logs, rfl, hl, heq⟩
  · rw [heq]
    exact sessionInv_move hi hne hok
  · rw [heq]
    exact sessionInv_move hi hne (hfail what stored logs hl)

/-- The session's own step, control point by control point. -/
theorem sessionInv_run {io : Option SysError} {db : DbOutcome}
    (hi : SessionInv cfg s) (h : s.run cfg io db = some s') :
    SessionInv cfg s' := by
  have hshape := hi.shape
  generalize hpc : s.pc = pc at hshape
  generalize hfs : s.frames = fs at hshape
  generalize hes : s.effects = es at hshape
  unfold run at h
  rw [hpc] at h
  cases hshape with
  | readAuth =>
      refine sessionInv_read hi h ?_ ?_ ?_ <;> rw [hfs, hes]
      · exact onAuthFrame_shape
      · exact fun logs hl => .noAuth hl
      · exact .authOutOfBounds
  | wrongType hf =>
      injection h with h
      subst h
      refine sessionInv_write hi (by simp [hfs]) rfl ?_ ?_ <;> rw [hfs, hes]
      · exact .refused hf nofun
      · exact fun e logs hl => .refused hf hl
  | insertAuth hf =>
      injection h with h
      subst h
      refine sessionInv_call hi (by simp [hfs]) ?_ ?_ <;> rw [hfs, hes]
      · exact onVerdict_shape hf
      · exact fun what stored logs hl => .authThrew hf hl
  | rejected hf hv =>
      injection h with h
      subst h
      refine sessionInv_write hi (by simp [hfs]) rfl ?_ ?_ <;> rw [hfs, hes]
      · exact .turnedAway hf hv nofun
      · exact fun e logs hl => .turnedAway hf hv hl
  | accepted ha =>
      injection h with h
      subst h
      refine sessionInv_write hi (by simp [hfs]) rfl ?_ ?_ <;> rw [hfs, hes]
      · exact .loop (.auth ha)
      · exact fun e logs hl => .authAckLost ha hl
  | loop hr =>
      refine sessionInv_read hi h ?_ ?_ ?_ <;> rw [hfs, hes]
      · exact onTelemetryFrame_shape hr
      · exact fun logs hl => .cut hr hl
      · exact .loopOutOfBounds hr
  | storing hr ht hrow =>
      injection h with h
      subst h
      refine sessionInv_call hi (by simp [hfs]) ?_ ?_ <;> rw [hfs, hes]
      · have hack := Shape.acking hr ht
        rw [storeTrace, hrow] at hack
        exact hack
      · exact fun what stored logs hl => .storeThrew hr ht hrow hl
  | acking hr ht =>
      injection h with h
      subst h
      refine sessionInv_write hi (by simp [hfs]) rfl ?_ ?_ <;> rw [hfs, hes]
      · have hloop := Shape.loop (hr.round ht)
        rw [roundTrace, ← List.append_assoc] at hloop
        exact hloop
      · intro e logs hl
        have hlost := Shape.ackLost (e := e) hr ht hl
        simp only [roundTrace, List.append_assoc, List.singleton_append] at hlost
        rw [List.append_assoc]
        exact hlost
  | noAuth | refused | authThrew | turnedAway | authAckLost | cut | goodbye
  | storeThrew | ackLost | authOutOfBounds | loopOutOfBounds => cases h

theorem sessionInv_step {a : SessionAct} (hi : SessionInv cfg s)
    (h : step cfg a s = some s') : SessionInv cfg s' := by
  cases a with
  | arrive bs => exact sessionInv_feed hi h
  | close e => exact sessionInv_feed hi h
  | run io db => exact sessionInv_run hi h

/-- The refinement: every state a session can get into, past the
handshake, is at a shape of the grammar. -/
theorem sessionInv_reachable
    (hr : Reachable (step cfg) TcpServer.handleSession s) :
    SessionInv cfg s :=
  hr.invariant sessionInv_init sessionInv_step

-- ================================================================ the end

/-- The session takes no more steps of its own. -/
def ended (s : Session) : Bool :=
  match s.pc with
  | .done | .undefined => true
  | _ => false

/-- How far the control point is from reading on. -/
def pcRank : SessionPc → Nat
  | .handshake => 5
  | .readAuth => 4
  | .insertAuth _ => 3
  | .writeError => 1
  | .writeAuthAck _ => 2
  | .readTelemetry _ => 1
  | .insertTelemetry _ _ => 3
  | .writeAck _ => 2
  | .done | .undefined => 0

/-- What is left to do: the bytes still to be read, then the way to the
next read. A frame is 12 bytes at least, so a round pays for itself. -/
def toGo (s : Session) : Nat := s.inbox.length + pcRank s.pc

theorem toGo_write_lt {f : Frame} (hf : f.payload = [])
    (io : Option SysError) {next : SessionPc}
    (hnext : pcRank next < pcRank s.pc) :
    (s.write cfg f io next).toGo < s.toGo
      ∧ (s.write cfg f io next).closed = s.closed := by
  rcases write_eq cfg hf io next s with ⟨-, heq⟩ | ⟨e, logs, -, -, heq⟩
  · rw [heq]
    exact ⟨Nat.add_lt_add_left hnext _, rfl⟩
  · rw [heq]
    exact ⟨Nat.add_lt_add_left (Nat.zero_lt_of_lt hnext) _, rfl⟩

theorem toGo_call_lt {e : Effect} (db : DbOutcome) {next : SessionPc}
    (hnext : pcRank next < pcRank s.pc) :
    (s.call cfg e db next).toGo < s.toGo
      ∧ (s.call cfg e db next).closed = s.closed := by
  rcases call_eq cfg e db next s with ⟨-, heq⟩ | ⟨_, _, logs, -, -, heq⟩
  · rw [heq]
    exact ⟨Nat.add_lt_add_left hnext _, rfl⟩
  · rw [heq]
    exact ⟨Nat.add_lt_add_left (Nat.zero_lt_of_lt hnext) _, rfl⟩

/-- On a stream that has ended a read never waits. -/
theorem read_closed {k : Frame → SessionPc} {e : SysError}
    (hc : s.closed = some e) (hpos : 0 < pcRank s.pc)
    (hk : ∀ f, pcRank (k f) < pcRank s.pc + 12) :
    ∃ s', s.read cfg k = some s' ∧ s'.toGo < s.toGo
      ∧ s'.closed = s.closed := by
  have hsome : ∃ s', s.read cfg k = some s' := by
    unfold read
    rw [hc]
    split <;> exact ⟨_, rfl⟩
  obtain ⟨s', hs'⟩ := hsome
  refine ⟨s', hs', ?_⟩
  cases read_cases hs' with
  | @frame f rest hsize hin =>
      refine ⟨?_, rfl⟩
      have hlen := congrArg List.length hin
      have hrank := hk f
      rw [List.length_append, wire_length] at hlen
      simp only [toGo]
      omega
  | fail => exact ⟨Nat.add_lt_add_left hpos _, rfl⟩
  | outOfBounds => exact ⟨Nat.add_lt_add_left hpos _, rfl⟩

theorem pcRank_onTelemetryFrame (subject : String) (f : Frame) :
    pcRank (onTelemetryFrame subject f) ≤ 3 := by
  unfold onTelemetryFrame
  split
  next => decide
  next => split <;> simp [pcRank]

/-- On a stream that has ended every step of the session is enabled,
whatever the outside answers, and comes closer to the end. -/
theorem run_closed {e : SysError} (hc : s.closed = some e)
    (hended : s.ended = false) (io : Option SysError) (db : DbOutcome) :
    ∃ s', s.run cfg io db = some s' ∧ s'.toGo < s.toGo
      ∧ s'.closed = s.closed := by
  unfold ended at hended
  unfold run
  cases hpc : s.pc with
  | handshake =>
      cases io with
      | none =>
          refine ⟨_, rfl, ?_, rfl⟩
          simp only [toGo, hpc, pcRank]
          omega
      | some e' =>
          refine ⟨_, rfl, ?_, rfl⟩
          simp only [toGo, hpc, throwSystem, pcRank]
          omega
  | readAuth =>
      refine read_closed hc (by simp [hpc, pcRank]) fun f => ?_
      rw [hpc]
      unfold onAuthFrame
      split <;> simp [pcRank]
  | insertAuth token =>
      refine ⟨_, rfl, toGo_call_lt db ?_⟩
      rw [hpc]
      unfold onVerdict
      split <;> simp [pcRank]
  | writeError =>
      exact ⟨_, rfl, toGo_write_lt rfl io (by simp [hpc, pcRank])⟩
  | writeAuthAck subject =>
      exact ⟨_, rfl, toGo_write_lt rfl io (by simp [hpc, pcRank])⟩
  | readTelemetry subject =>
      refine read_closed hc (by simp [hpc, pcRank]) fun f => ?_
      have hrank := pcRank_onTelemetryFrame subject f
      omega
  | insertTelemetry subject row =>
      exact ⟨_, rfl, toGo_call_lt db (by simp [hpc, pcRank])⟩
  | writeAck subject =>
      exact ⟨_, rfl, toGo_write_lt rfl io (by simp [hpc, pcRank])⟩
  | done => simp [hpc] at hended
  | undefined => simp [hpc] at hended

/-- Once the stream has ended the session ends, after finitely many steps
whatever the outside answers to them. -/
theorem session_ends {e : SysError} (hc : s.closed = some e)
    (answers : Nat → Option SysError × DbOutcome) :
    ∃ n s', exec (step cfg) ((List.range n).map fun i =>
        .run (answers i).1 (answers i).2) s = some s' ∧ s'.ended = true := by
  refine ends_of_measure (fun s => s.closed = some e)
    (fun s => s.ended = true) (fun a => ∃ io db, a = SessionAct.run io db)
    toGo ?_ _ (fun i => ⟨_, _, rfl⟩) hc
  rintro s a hc hended ⟨io, db, rfl⟩
  obtain ⟨s', hs, hlt, hc'⟩ :=
    run_closed hc (Bool.not_eq_true _ ▸ hended) io db
  exact ⟨s', hs, hc' ▸ hc, hlt⟩

end Session

end EdgeIpc.Ats
