/-
The client and the server session in lockstep: an invariant of the link
between them, kept by every step of either side and by every delivery.

# The phases

At any time at most one frame is under way, and where it is decides what
both sides are about to do. `Phase` lists the possibilities: the AUTH
exchange, the four stages of a telemetry round, the two ends. It speaks
about `View`, which joins the bytes a side has received with those still
on their way to it, so a delivery changes nothing in it, however the
bytes are cut.

# Tokens beyond the length field

A token near `2 ^ 32` bytes does not survive its AUTH frame (`Codec`):
either the client's buffer overruns (`lost`), or the server reads a
frame that is not the client's and may turn it away (`refusing`,
`refused`). These phases carry `¬ cfg.Fits`. Nothing has been sent or
stored in them, and for a token that fits they do not occur.

# The steps

A call of the server's changes the view in one place: `phase_write` and
`phase_call` say where, and the reads have a lemma for each frame.
-/
import EdgeIpc.Ats.Proofs.Client

namespace EdgeIpc.Ats

open Lib

-- ============================================================= the phases

/-- The AUTH frame can carry the token. -/
def LinkCfg.Fits (cfg : LinkCfg) : Prop := 12 + cfg.token.length < 2 ^ 32

/-- A subject the session may store rows under: the token's, if the
token has reached the validator. -/
def LinkCfg.Granted (cfg : LinkCfg) (subject : String) : Prop :=
  cfg.Fits → subject = (cfg.validate cfg.token).subject

/-- What the phases speak about: where the two sides are, the bytes each
has yet to read, and the account so far. -/
structure View where
  client : ClientPc
  server : SessionPc
  toServer : List Byte
  toClient : List Byte
  sent : List SensorFrame
  acks : Nat
  rows : List TelemetryRow

def Link.view (l : Link) : View :=
  { client := l.client.pc
    server := l.server.pc
    toServer := l.server.inbox ++ l.up
    toClient := l.client.inbox ++ l.down
    sent := l.client.sent
    acks := l.client.acks
    rows := storedRows l.server.effects }

/-- The protocol, one constructor for each place the one frame under way
can be. `before` are the readings of the finished rounds. -/
inductive Phase (cfg : LinkCfg) : View → Prop
  | opening : Phase cfg ⟨.writeAuth, .readAuth, [], [], [], 0, []⟩
  | asking (hw : 12 + (authFrame cfg.token).plen < 2 ^ 32) :
      Phase cfg ⟨.readAuthAck, .readAuth, (authFrame cfg.token).image, [],
        [], 0, []⟩
  | judging {token : List Byte} (ht : cfg.Fits → token = cfg.token) :
      Phase cfg ⟨.readAuthAck, .insertAuth token, [], [], [], 0, []⟩
  | granting {subject : String} (hs : cfg.Granted subject) :
      Phase cfg ⟨.readAuthAck, .writeAuthAck subject, [], [], [], 0, []⟩
  | granted {subject : String} (hs : cfg.Granted subject) :
      Phase cfg ⟨.readAuthAck, .readTelemetry subject, [], ackFrame.wire,
        [], 0, []⟩
  | ready {subject : String} {before todo : List SensorFrame}
      (hs : cfg.Granted subject) (hr : before ++ todo = cfg.readings) :
      Phase cfg ⟨Client.next todo, .readTelemetry subject, [], [],
        before, before.length, before.map (·.row subject)⟩
  | telling {subject : String} {before todo : List SensorFrame}
      {sf : SensorFrame} (hs : cfg.Granted subject)
      (hr : before ++ sf :: todo = cfg.readings) :
      Phase cfg ⟨.readAck todo, .readTelemetry subject,
        (telemetryFrame sf.bytes).wire, [], before ++ [sf], before.length,
        before.map (·.row subject)⟩
  | storing {subject : String} {before todo : List SensorFrame}
      {sf : SensorFrame} (hs : cfg.Granted subject)
      (hr : before ++ sf :: todo = cfg.readings) :
      Phase cfg ⟨.readAck todo, .insertTelemetry subject (sf.row subject),
        [], [], before ++ [sf], before.length, before.map (·.row subject)⟩
  | answering {subject : String} {before todo : List SensorFrame}
      {sf : SensorFrame} (hs : cfg.Granted subject)
      (hr : before ++ sf :: todo = cfg.readings) :
      Phase cfg ⟨.readAck todo, .writeAck subject, [], [], before ++ [sf],
        before.length, (before ++ [sf]).map (·.row subject)⟩
  | answered {subject : String} {before todo : List SensorFrame}
      {sf : SensorFrame} (hs : cfg.Granted subject)
      (hr : before ++ sf :: todo = cfg.readings) :
      Phase cfg ⟨.readAck todo, .readTelemetry subject, [], ackFrame.wire,
        before ++ [sf], before.length, (before ++ [sf]).map (·.row subject)⟩
  | ended {subject : String} (hs : cfg.Granted subject) :
      Phase cfg ⟨.done, .done, [], [], cfg.readings, cfg.readings.length,
        cfg.readings.map (·.row subject)⟩
  | lost (hn : ¬ cfg.Fits) :
      Phase cfg ⟨.undefined, .readAuth, [], [], [], 0, []⟩
  | refusing (hn : ¬ cfg.Fits) :
      Phase cfg ⟨.readAuthAck, .writeError, [], [], [], 0, []⟩
  | refused {bs : List Byte} {answer : List Byte} (hn : ¬ cfg.Fits)
      (ha : answer = [] ∨ answer = errorFrame.wire) :
      Phase cfg ⟨.readAuthAck, .done, bs, answer, [], 0, []⟩
  | rejected {bs answer : List Byte} {e : Thrown} (hn : ¬ cfg.Fits) :
      Phase cfg ⟨.threw e, .done, bs, answer, [], 0, []⟩

/-- The phase, and that a stream ends only after its writer. -/
structure LinkInv (cfg : LinkCfg) (l : Link) : Prop where
  phase : Phase cfg l.view
  upEnds : l.server.closed.isSome = true → l.client.finished = true
  downEnds : l.client.closed.isSome = true → l.server.pc = .done

namespace Link

variable {cfg : LinkCfg} {l l' : Link}

/-- The link after a step of the client. -/
def clientTo (l : Link) (c : Client) : Link :=
  { l with client := c, up := l.up ++ written l.client.outbox c.outbox }

/-- The link after a step of the server. -/
def serverTo (l : Link) (s : Session) : Link :=
  { l with server := s, down := l.down ++ written l.server.outbox s.outbox }

/-- What the client writes onto an empty channel is all there is to
read. -/
theorem toServer_clientTo {c : Client} {bs : List Byte}
    (hout : c.outbox = l.client.outbox ++ bs)
    (hup : l.server.inbox ++ l.up = []) :
    (l.clientTo c).server.inbox ++ (l.clientTo c).up = bs := by
  have hw : written l.client.outbox c.outbox = bs := by
    rw [hout, written, List.drop_left]
  rw [clientTo, hw, ← List.append_assoc, hup, List.nil_append]

theorem toServer_clientTo_quiet {c : Client} {v : List Byte}
    (hout : c.outbox = l.client.outbox)
    (hup : l.server.inbox ++ l.up = v) :
    (l.clientTo c).server.inbox ++ (l.clientTo c).up = v := by
  have hw : written l.client.outbox c.outbox = [] := by
    rw [hout, written, List.drop_length]
  rw [clientTo, hw, List.append_nil, hup]

@[inherit_doc toServer_clientTo]
theorem toClient_serverTo {s : Session} {bs : List Byte}
    (hout : s.outbox = l.server.outbox ++ bs)
    (hdown : l.client.inbox ++ l.down = []) :
    (l.serverTo s).client.inbox ++ (l.serverTo s).down = bs := by
  have hw : written l.server.outbox s.outbox = bs := by
    rw [hout, written, List.drop_left]
  rw [serverTo, hw, ← List.append_assoc, hdown, List.nil_append]

theorem toClient_serverTo_quiet {s : Session} {v : List Byte}
    (hout : s.outbox = l.server.outbox)
    (hdown : l.client.inbox ++ l.down = v) :
    (l.serverTo s).client.inbox ++ (l.serverTo s).down = v := by
  have hw : written l.server.outbox s.outbox = [] := by
    rw [hout, written, List.drop_length]
  rw [serverTo, hw, List.append_nil, hdown]

/-- Nothing to read and no end of the stream: the client waits. -/
theorem client_waits {k : Frame → Client → Client}
    (hin : l.client.inbox ++ l.down = []) (hopen : l.client.closed = none) :
    l.client.read k = none := by
  refine Client.read_waits (readFrameOn_short ?_) hopen
  rw [(List.append_eq_nil_iff.mp hin).1]
  decide

theorem server_waits {scfg : SessionCfg} {k : Frame → SessionPc}
    (hin : l.server.inbox ++ l.up = []) (hopen : l.server.closed = none) :
    l.server.read scfg k = none := by
  refine Session.read_waits (readFrameOn_short ?_) hopen
  rw [(List.append_eq_nil_iff.mp hin).1]
  decide

theorem downOpen (hi : LinkInv cfg l) (hs : l.server.pc ≠ .done) :
    l.client.closed = none := by
  cases hc : l.client.closed with
  | none => rfl
  | some e => exact absurd (hi.downEnds (by rw [hc]; rfl)) hs

theorem upOpen (hi : LinkInv cfg l) (hc : l.client.finished = false) :
    l.server.closed = none := by
  cases hs : l.server.closed with
  | none => rfl
  | some e =>
      have h := hi.upEnds (by rw [hs]; rfl)
      rw [hc] at h
      cases h

/-- Effects that store nothing leave the rows. -/
theorem storedRows_quiet {es es' : List Effect} {rows : List TelemetryRow}
    (hrows : storedRows es = rows) (hquiet : storedRows es' = []) :
    storedRows (es ++ es') = rows := by
  rw [storedRows_append, hrows, hquiet, List.append_nil]

/-- A phase, from the seven facts it states about a link. -/
theorem phase_of {v : View} (h : Phase cfg v) (hc : l.client.pc = v.client)
    (hs : l.server.pc = v.server)
    (hup : l.server.inbox ++ l.up = v.toServer)
    (hdown : l.client.inbox ++ l.down = v.toClient)
    (hsent : l.client.sent = v.sent) (hacks : l.client.acks = v.acks)
    (hrows : storedRows l.server.effects = v.rows) : Phase cfg l.view := by
  have hv : l.view = v := by
    unfold view
    rw [hc, hs, hup, hdown, hsent, hacks, hrows]
  exact hv ▸ h

/-- Whatever a client that has been turned away reads, it throws. -/
theorem client_rejected {c : Client} {answer : List Byte}
    (hin : l.client.inbox ++ l.down = answer)
    (ha : answer = [] ∨ answer = errorFrame.wire)
    (h : l.client.read (Client.onAuthAck cfg.toClientCfg) = some c) :
    ∃ e rest, c = { l.client with pc := .threw e, inbox := rest } := by
  have hr : readFrameOn l.client.inbox = .error .eof
      ∨ readFrameOn l.client.inbox = .ok (errorFrame, []) := by
    rcases ha with rfl | rfl
    · refine .inl (readFrameOn_short ?_)
      rw [(List.append_eq_nil_iff.mp hin).1]
      decide
    · rcases readFrameOn_arriving (by decide) hin with ⟨-, hr⟩ | ⟨-, hr⟩
      · exact .inr hr
      · exact .inl hr
  unfold Client.read TelemetryClient.readFramePlain at h
  rcases hr with hr | hr
  · simp only [hr] at h
    obtain ⟨e, -, rfl⟩ := Option.map_eq_some_iff.mp h
    exact ⟨_, _, rfl⟩
  · simp only [hr] at h
    injection h with h
    exact ⟨_, _, h.symm⟩

/-- The client has written its AUTH frame, or overrun the buffer it was
building it in. -/
theorem phase_opened {c : Client}
    (hview : l.view = ⟨.writeAuth, .readAuth, [], [], [], 0, []⟩)
    (h : l.client.run cfg.toClientCfg none = some c) :
    Phase cfg (l.clientTo c).view := by
  obtain ⟨hc, hs, hup, hdown, hsent, hacks, hrows⟩ := View.mk.inj hview
  unfold Client.run at h
  rw [hc] at h
  injection h with h
  cases hser : (authFrame cfg.token).serialize with
  | none =>
      rw [Client.write_none hser] at h
      subst h
      have hn : ¬ cfg.Fits := by
        intro hf
        have hwire := serialize_eq_wire (f := authFrame cfg.token) hf
        rw [hwire] at hser
        cases hser
      exact phase_of (.lost hn) rfl hs (toServer_clientTo_quiet rfl hup)
        hdown hsent hacks hrows
  | some bytes =>
      rw [Client.write_some hser] at h
      subst h
      obtain ⟨hw, rfl⟩ := serialize_eq_some_iff.mp hser
      exact phase_of (.asking hw) rfl hs (toServer_clientTo rfl hup)
        hdown hsent hacks hrows

/-- The client's step takes the protocol to its next phase. -/
theorem phase_client {c : Client} (hi : LinkInv cfg l)
    (h : l.client.run cfg.toClientCfg none = some c) :
    Phase cfg (l.clientTo c).view := by
  have hp := hi.phase
  generalize hv : l.view = v at hp
  cases hp with
  | opening => exact phase_opened hv h
  | asking | judging | granting | refusing | telling | storing
  | answering =>
      obtain ⟨hc, hs, -, hdown, -⟩ := View.mk.inj hv
      unfold Client.run at h
      rw [hc] at h
      simp only [client_waits hdown (downOpen hi (by simp [hs]))] at h
      cases h
  | granted hg =>
      obtain ⟨hc, hs, hup, hdown, hsent, hacks, hrows⟩ := View.mk.inj hv
      unfold Client.run at h
      rw [hc] at h
      obtain ⟨hnil, rfl⟩ := Client.read_arriving (by decide) hdown
        (fun _ => downOpen hi (by simp [hs])) h
      exact phase_of (.ready hg (List.nil_append _)) rfl hs
        (toServer_clientTo_quiet rfl hup) hnil hsent hacks hrows
  | @ready subject before todo hg hr =>
      obtain ⟨hc, hs, hup, hdown, hsent, hacks, hrows⟩ := View.mk.inj hv
      cases todo with
      | nil =>
          unfold Client.run at h
          rw [hc] at h
          cases h
      | cons sf todo =>
          rw [Client.run_writeTelemetry hc] at h
          injection h with h
          subst h
          exact phase_of (.telling hg hr) rfl hs (toServer_clientTo rfl hup)
            hdown (congrArg (· ++ [sf]) hsent) hacks hrows
  | @answered subject before todo sf hg hr =>
      obtain ⟨hc, hs, hup, hdown, hsent, hacks, hrows⟩ := View.mk.inj hv
      unfold Client.run at h
      rw [hc] at h
      obtain ⟨hnil, rfl⟩ := Client.read_arriving (by decide) hdown
        (fun _ => downOpen hi (by simp [hs])) h
      have hr' : (before ++ [sf]) ++ todo = cfg.readings := by
        rw [← hr, List.append_assoc]
        rfl
      refine phase_of (.ready hg hr') rfl hs
        (toServer_clientTo_quiet rfl hup) hnil hsent ?_ hrows
      show l.client.acks + 1 = (before ++ [sf]).length
      rw [hacks, List.length_append]
      rfl
  | ended | lost | rejected =>
      unfold Client.run at h
      rw [(View.mk.inj hv).1] at h
      cases h
  | refused hn ha =>
      obtain ⟨hc, hs, hup, hdown, hsent, hacks, hrows⟩ := View.mk.inj hv
      unfold Client.run at h
      rw [hc] at h
      obtain ⟨e, rest, rfl⟩ := client_rejected hdown ha h
      exact phase_of (.rejected hn) rfl hs rfl rfl hsent hacks hrows

/-- The first frame, as the server reads it: the client's, if the token
fits. -/
theorem server_reads_auth {s : Session}
    (hw : 12 + (authFrame cfg.token).plen < 2 ^ 32)
    (hin : l.server.inbox ++ l.up = (authFrame cfg.token).image)
    (hopen : l.server.closed = none)
    (h : l.server.read cfg.session Session.onAuthFrame = some s) :
    (∃ f, (cfg.Fits → f = authFrame cfg.token) ∧ l.up = []
        ∧ s = { l.server with pc := Session.onAuthFrame f, inbox := [],
                              frames := l.server.frames ++ [f] })
      ∨ ¬ cfg.Fits ∧ ∃ what, s = l.server.throwStd cfg.session what := by
  by_cases hup : l.up = []
  · rw [hup, List.append_nil] at hin
    have hread := readFrameOn_image hw
    rw [← hin] at hread
    unfold finishFrame at hread
    split at hread
    next f hd =>
      rw [Session.read_ok hread] at h
      injection h with h
      refine .inl ⟨f, fun hfits => ?_, hup, h.symm⟩
      -- the image is the wire image, and decodes to what it is the image of
      have hlen : (authFrame cfg.token).payload.length < 2 ^ 32 :=
        Nat.lt_of_le_of_lt (Nat.le_add_left ..) hfits
      have hwire := deserialize_wire [] hlen
      rw [List.append_nil, ← image_eq_wire hlen, ← hin, hd] at hwire
      injection hwire
    next what hd =>
      refine .inr ⟨fun hfits => ?_, what, ?_⟩
      · have hlen : (authFrame cfg.token).payload.length < 2 ^ 32 :=
          Nat.lt_of_le_of_lt (Nat.le_add_left ..) hfits
        have hwire := deserialize_wire [] hlen
        rw [List.append_nil, ← image_eq_wire hlen, ← hin, hd] at hwire
        cases hwire
      · unfold Session.read at h
        rw [Endpoint.readFrame_eq, hread] at h
        injection h with h
        exact h.symm
  · have heof := readFrameOn_image_cut hw hin.symm hup
    rw [Session.read_waits heof hopen] at h
    cases h

/-- A frame written onto the empty stream is under way. -/
theorem phase_write {f : Frame} {next : SessionPc} {v : View}
    (hview : l.view = v) (hf : f.payload = []) (hnone : v.toClient = [])
    (hnext : Phase cfg { v with server := next, toClient := f.wire }) :
    Phase cfg (l.serverTo (l.server.write cfg.session f none next)).view := by
  subst hview
  rw [Session.write_ok hf]
  exact phase_of hnext rfl rfl rfl (toClient_serverTo rfl hnone) rfl rfl
    (storedRows_quiet rfl rfl)

/-- A call of the database that succeeds adds the rows it stores. -/
theorem phase_call {e : Effect} {next : SessionPc} {v : View}
    (hview : l.view = v)
    (hnext : Phase cfg
      { v with server := next, rows := v.rows ++ storedRows [e] }) :
    Phase cfg (l.serverTo (l.server.call cfg.session e .ok next)).view := by
  subst hview
  exact phase_of hnext rfl rfl rfl (toClient_serverTo_quiet rfl rfl) rfl rfl
    (storedRows_append ..)

/-- The server has read the first frame. -/
theorem phase_asked {s : Session}
    (hw : 12 + (authFrame cfg.token).plen < 2 ^ 32)
    (hview : l.view = ⟨.readAuthAck, .readAuth,
      (authFrame cfg.token).image, [], [], 0, []⟩)
    (hopen : l.server.closed = none)
    (h : l.server.read cfg.session Session.onAuthFrame = some s) :
    Phase cfg (l.serverTo s).view := by
  obtain ⟨hc, -, hup, hdown, hsent, hacks, hrows⟩ := View.mk.inj hview
  rcases server_reads_auth hw hup hopen h with
    ⟨f, hf, hnil, rfl⟩ | ⟨hn, what, rfl⟩
  · by_cases hauth : f.msgType = .auth
    · have hpc : Session.onAuthFrame f = .insertAuth f.payload :=
        if_neg (by simp [hauth])
      refine phase_of (.judging fun hfits => ?_) hc hpc hnil
        (toClient_serverTo_quiet rfl hdown) hsent hacks hrows
      rw [hf hfits]
      rfl
    · have hpc : Session.onAuthFrame f = .writeError := if_pos hauth
      have hn : ¬ cfg.Fits := by
        intro hfits
        rw [hf hfits] at hauth
        exact hauth rfl
      exact phase_of (.refusing hn) hc hpc hnil
        (toClient_serverTo_quiet rfl hdown) hsent hacks hrows
  · exact phase_of (.refused hn (.inl rfl)) hc rfl rfl
      (toClient_serverTo_quiet rfl hdown) hsent hacks
      (storedRows_quiet hrows rfl)

/-- What the verdict on a token leads to. -/
theorem phase_judged {token : List Byte}
    (hv : (cfg.validate cfg.token).ok = true)
    (ht : cfg.Fits → token = cfg.token) :
    Phase cfg ⟨.readAuthAck, Session.onVerdict (cfg.validate token),
      [], [], [], 0, []⟩ := by
  unfold Session.onVerdict
  split
  · exact .granting fun hfits => by rw [ht hfits]
  next hok =>
    refine .refusing fun hfits => ?_
    rw [ht hfits] at hok
    exact hok hv

/-- Between rounds the server moves only on the end of the stream, and
the client is through by then. -/
theorem phase_left {s : Session} {subject : String}
    {before todo : List SensorFrame} (hi : LinkInv cfg l)
    (hg : cfg.Granted subject) (hr : before ++ todo = cfg.readings)
    (hview : l.view = ⟨Client.next todo, .readTelemetry subject,
      [], [], before, before.length, before.map (·.row subject)⟩)
    (h : l.server.read cfg.session (Session.onTelemetryFrame subject)
      = some s) :
    Phase cfg (l.serverTo s).view := by
  obtain ⟨hc, -, hup, hdown, hsent, hacks, hrows⟩ := View.mk.inj hview
  cases hcl : l.server.closed with
  | none =>
      rw [server_waits hup hcl] at h
      cases h
  | some e =>
      -- the client is over, so it has nothing left to do
      have hfin := hi.upEnds (by rw [hcl]; rfl)
      unfold Client.finished at hfin
      rw [hc] at hfin
      cases todo with
      | cons sf todo => cases hfin
      | nil =>
          have hall : before = cfg.readings := by rw [← hr, List.append_nil]
          subst hall
          have heof : readFrameOn l.server.inbox = .error .eof := by
            refine readFrameOn_short ?_
            rw [(List.append_eq_nil_iff.mp hup).1]
            decide
          unfold Session.read at h
          simp only [Endpoint.readFrame_eq, heof, hcl] at h
          injection h with h
          subst h
          refine phase_of (.ended hg) hc rfl hup
            (toClient_serverTo_quiet rfl hdown) hsent hacks
            (storedRows_quiet hrows ?_)
          cases e <;> rfl

/-- A reading that has arrived is on its way to the store. -/
theorem phase_told {s : Session} {subject : String}
    {before todo : List SensorFrame} {sf : SensorFrame}
    (hg : cfg.Granted subject) (hr : before ++ sf :: todo = cfg.readings)
    (hview : l.view = ⟨.readAck todo, .readTelemetry subject,
      (telemetryFrame sf.bytes).wire, [], before ++ [sf], before.length,
      before.map (·.row subject)⟩)
    (hopen : l.server.closed = none)
    (h : l.server.read cfg.session (Session.onTelemetryFrame subject)
      = some s) :
    Phase cfg (l.serverTo s).view := by
  obtain ⟨hc, -, hup, hdown, hsent, hacks, hrows⟩ := View.mk.inj hview
  obtain ⟨hnil, rfl⟩ := Session.read_arriving
    (by simp [telemetryFrame]) hup hopen h
  have hpc : Session.onTelemetryFrame subject (telemetryFrame sf.bytes)
      = .insertTelemetry subject (sf.row subject) := by
    unfold Session.onTelemetryFrame
    rw [if_neg (by simp [telemetryFrame])]
    simp only [telemetryFrame, telemetryRow?_bytes]
  exact phase_of (.storing hg hr) hc hpc hnil
    (toClient_serverTo_quiet rfl hdown) hsent hacks hrows

/-- The server's step takes the protocol to its next phase. -/
theorem phase_server {s : Session} (hv : (cfg.validate cfg.token).ok = true)
    (hi : LinkInv cfg l) (h : l.server.run cfg.session none .ok = some s) :
    Phase cfg (l.serverTo s).view := by
  have hp := hi.phase
  generalize hview : l.view = v at hp
  unfold Session.run at h
  cases hp with
  | opening | lost | granted | answered =>
      obtain ⟨hc, hs, hup, -⟩ := View.mk.inj hview
      have hopen := upOpen hi (by unfold Client.finished; rw [hc])
      rw [hs] at h
      simp only [server_waits hup hopen] at h
      cases h
  | asking hw =>
      obtain ⟨hc, hs, -⟩ := View.mk.inj hview
      rw [hs] at h
      exact phase_asked hw hview
        (upOpen hi (by unfold Client.finished; rw [hc])) h
  | judging ht =>
      rw [(View.mk.inj hview).2.1] at h
      injection h with h
      subst h
      exact phase_call hview (phase_judged hv ht)
  | granting hg =>
      rw [(View.mk.inj hview).2.1] at h
      injection h with h
      subst h
      exact phase_write hview rfl rfl (.granted hg)
  | ready hg hr =>
      rw [(View.mk.inj hview).2.1] at h
      exact phase_left hi hg hr hview h
  | telling hg hr =>
      obtain ⟨hc, hs, -⟩ := View.mk.inj hview
      rw [hs] at h
      exact phase_told hg hr hview
        (upOpen hi (by unfold Client.finished; rw [hc])) h
  | storing hg hr =>
      rw [(View.mk.inj hview).2.1] at h
      injection h with h
      subst h
      have hnext := Phase.answering hg hr
      rw [List.map_append] at hnext
      exact phase_call hview hnext
  | answering hg hr =>
      rw [(View.mk.inj hview).2.1] at h
      injection h with h
      subst h
      exact phase_write hview rfl rfl (.answered hg hr)
  | refusing hn =>
      rw [(View.mk.inj hview).2.1] at h
      injection h with h
      subst h
      exact phase_write hview rfl rfl (.refused hn (.inr rfl))
  | ended | refused | rejected =>
      rw [(View.mk.inj hview).2.1] at h
      cases h

theorem linkInv_init : LinkInv cfg init :=
  ⟨.opening, (by rintro ⟨⟩), (by rintro ⟨⟩)⟩

theorem linkInv_clientTo {c : Client} (hi : LinkInv cfg l)
    (h : l.client.run cfg.toClientCfg none = some c) :
    LinkInv cfg (l.clientTo c) := by
  refine ⟨phase_client hi h, fun hcl => ?_, fun hcl => ?_⟩
  · -- a client that is over takes no step
    rw [Client.run_finished (hi.upEnds hcl)] at h
    cases h
  · exact hi.downEnds (Client.run_keeps_closed h ▸ hcl)

theorem linkInv_serverTo {s : Session}
    (hv : (cfg.validate cfg.token).ok = true) (hi : LinkInv cfg l)
    (h : l.server.run cfg.session none .ok = some s) :
    LinkInv cfg (l.serverTo s) := by
  refine ⟨phase_server hv hi h, fun hcl => ?_, fun hcl => ?_⟩
  · exact hi.upEnds (Session.run_keeps_closed h ▸ hcl)
  · unfold Session.run at h
    rw [hi.downEnds hcl] at h
    cases h

/-- Bytes delivered to the server, or the end of its stream, change only
where the bytes are. -/
theorem linkInv_feedUp {bs more : List Byte} {e : Option SysError}
    {s : Session} (hi : LinkInv cfg l) (hbs : bs ++ more = l.up)
    (he : e.isSome = true → l.client.finished = true)
    (h : l.server.feed bs e = some s) :
    LinkInv cfg { l with server := s, up := more } := by
  unfold Session.feed at h
  split at h
  next => cases h
  next =>
    injection h with h
    subst h
    refine ⟨?_, he, hi.downEnds⟩
    have hview : view { l with
        server := { l.server with
          inbox := l.server.inbox ++ bs
          received := l.server.received ++ bs
          closed := e }
        up := more } = l.view := by
      simp only [view, List.append_assoc, hbs]
    exact hview ▸ hi.phase

@[inherit_doc linkInv_feedUp]
theorem linkInv_feedDown {bs more : List Byte} {e : Option SysError}
    {c : Client} (hi : LinkInv cfg l) (hbs : bs ++ more = l.down)
    (he : e.isSome = true → l.server.pc = .done)
    (h : l.client.feed bs e = some c) :
    LinkInv cfg { l with client := c, down := more } := by
  unfold Client.feed at h
  split at h
  next => cases h
  next =>
    injection h with h
    subst h
    refine ⟨?_, hi.upEnds, he⟩
    have hview : view { l with
        client := { l.client with
          inbox := l.client.inbox ++ bs, closed := e }
        down := more } = l.view := by
      simp only [view, List.append_assoc, hbs]
    exact hview ▸ hi.phase

theorem linkInv_step {a : LinkAct} (hv : (cfg.validate cfg.token).ok = true)
    (hi : LinkInv cfg l) (h : step cfg a l = some l') : LinkInv cfg l' := by
  cases a with
  | client =>
      obtain ⟨c, hc, rfl⟩ := Option.map_eq_some_iff.mp h
      exact linkInv_clientTo hi hc
  | server =>
      obtain ⟨s, hs, rfl⟩ := Option.map_eq_some_iff.mp h
      exact linkInv_serverTo hv hi hs
  | deliverUp n =>
      obtain ⟨s, hs, rfl⟩ := Option.map_eq_some_iff.mp h
      exact linkInv_feedUp hi (List.take_append_drop n l.up)
        (by rintro ⟨⟩) hs
  | deliverDown n =>
      obtain ⟨c, hc, rfl⟩ := Option.map_eq_some_iff.mp h
      exact linkInv_feedDown hi (List.take_append_drop n l.down)
        (by rintro ⟨⟩) hc
  | closeUp e =>
      simp only [step] at h
      split at h
      next hfin =>
        obtain ⟨s, hs, rfl⟩ := Option.map_eq_some_iff.mp h
        exact linkInv_feedUp hi (List.nil_append _) (fun _ => hfin.1) hs
      next => cases h
  | closeDown e =>
      simp only [step] at h
      split at h
      next hdone =>
        obtain ⟨c, hc, rfl⟩ := Option.map_eq_some_iff.mp h
        exact linkInv_feedDown hi (List.nil_append _) (fun _ => hdone.1) hc
      next => cases h

theorem linkInv_reachable (hv : (cfg.validate cfg.token).ok = true)
    (hr : Reachable (step cfg) init l) : LinkInv cfg l :=
  hr.invariant linkInv_init (linkInv_step hv)
end Link

end EdgeIpc.Ats
