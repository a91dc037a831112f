/-
The client and the server session agree: what the one has sent is what
the other has stored, and between them they never stand still.

# The law

The two run in lockstep (`Lockstep`), so at any point of any run the
link is in one of a handful of phases, and `Agreement` is read off them:
`account_of_phase` for what has been stored, `moves_of_phase` for what
can still happen.
-/
import EdgeIpc.Ats.Proofs.Lockstep

namespace EdgeIpc.Ats

open Lib

-- ============================================================ the account

namespace Link

/-- The rows in the database. -/
def rows (l : Link) : List TelemetryRow := storedRows l.server.effects

/-- One side has come to its end. -/
def Ended (l : Link) : Prop :=
  l.client.finished = true ∨ l.client.pc = .undefined ∨ l.server.pc = .done

end Link

/-- The fields of a row that come from the reading. -/
def TelemetryRow.reading (row : TelemetryRow) : SensorFrame :=
  { sensorId := row.sensorId
    timestampUs := row.timestampUs
    value := row.value }

/-- What a view says about readings, rows and ACKs. -/
structure Account (cfg : LinkCfg) (v : View) : Prop where
  sent : v.sent <+: cfg.readings
  stored : v.rows.map TelemetryRow.reading = v.sent.take v.rows.length
  subject : cfg.Fits →
    ∀ row ∈ v.rows, row.clientSubject = (cfg.validate cfg.token).subject
  acks : v.acks ≤ v.rows.length ∧ v.rows.length ≤ v.acks + 1

/-- The account after the rounds `before`, with `more` sent since. -/
theorem account_of {cfg : LinkCfg} {subject : String} {v : View}
    {before more : List SensorFrame} (hg : cfg.Granted subject)
    (hr : before ++ more <+: cfg.readings) (hsent : v.sent = before ++ more)
    (hrows : v.rows = before.map (·.row subject))
    (hacks : v.acks ≤ before.length ∧ before.length ≤ v.acks + 1) :
    Account cfg v := by
  have hlen : v.rows.length = before.length := by
    rw [hrows, List.length_map]
  refine ⟨hsent ▸ hr, ?_, fun hfits row hmem => ?_, hlen ▸ hacks⟩
  · rw [hlen, hsent, List.take_left, hrows, List.map_map]
    exact List.map_id _
  · rw [hrows] at hmem
    obtain ⟨sf, -, rfl⟩ := List.mem_map.mp hmem
    exact hg hfits

theorem account_nothing {cfg : LinkCfg} {v : View} (hsent : v.sent = [])
    (hrows : v.rows = []) (hacks : v.acks = 0) : Account cfg v := by
  refine ⟨?_, ?_, fun _ row hmem => ?_, ?_⟩
  · rw [hsent]
    exact List.nil_prefix
  · rw [hrows, hsent]
    rfl
  · rw [hrows] at hmem
    cases hmem
  · rw [hrows, hacks]
    exact ⟨Nat.le_refl _, Nat.zero_le _⟩

theorem account_of_phase {cfg : LinkCfg} {v : View} (h : Phase cfg v) :
    Account cfg v := by
  cases h with
  | opening | asking | judging | granting | granted =>
      exact account_nothing rfl rfl rfl
  | lost | refusing | refused | rejected =>
      exact account_nothing rfl rfl rfl
  | @ready subject before todo hg hr =>
      refine account_of hg ?_ (List.append_nil _).symm rfl
        ⟨Nat.le_refl _, Nat.le_succ _⟩
      rw [List.append_nil]
      exact ⟨todo, hr⟩
  | @telling subject before todo sf hg hr
  | @storing subject before todo sf hg hr =>
      refine account_of hg ⟨todo, ?_⟩ rfl rfl ⟨Nat.le_refl _, Nat.le_succ _⟩
      rw [List.append_assoc]
      exact hr
  | @answering subject before todo sf hg hr
  | @answered subject before todo sf hg hr =>
      refine account_of hg ⟨todo, ?_⟩ (List.append_nil _).symm rfl ?_
      · rw [List.append_nil, List.append_assoc]
        exact hr
      · rw [List.length_append]
        exact ⟨Nat.le_succ _, Nat.le_refl _⟩
  | ended hg =>
      refine account_of hg ?_ (List.append_nil _).symm rfl
        ⟨Nat.le_refl _, Nat.le_succ _⟩
      rw [List.append_nil]

namespace Link

variable {cfg : LinkCfg} {l : Link}

/-- A client at the end of its loop has sent everything, and everything
is stored. -/
theorem complete_of_phase (h : Phase cfg l.view)
    (hd : l.client.pc = .done) :
    l.rows.map TelemetryRow.reading = cfg.readings := by
  have hacc := (account_of_phase h).stored
  generalize hv : l.view = v at h
  rw [hv] at hacc
  have hc : v.client = .done := by rw [← hv]; exact hd
  have hrows : l.rows = v.rows := by rw [← hv]; rfl
  rw [hrows]
  cases h with
  | @ready subject before todo hg hr =>
      cases todo with
      | nil =>
          rw [List.append_nil] at hr
          rw [hacc, ← hr, List.length_map, List.take_length]
      | cons sf todo => cases hc
  | ended hg => rw [hacc, List.length_map, List.take_length]
  | _ => cases hc

/-- For a token that fits, the session comes to its end with the
client's loop. -/
theorem done_of_ended (h : Phase cfg l.view) (hfits : cfg.Fits)
    (he : l.Ended) : l.client.pc = .done := by
  generalize hv : l.view = v at h
  have hc : l.client.pc = v.client := by rw [← hv]; rfl
  have hs : l.server.pc = v.server := by rw [← hv]; rfl
  unfold Ended Client.finished at he
  rw [hs, hc] at he
  rw [hc]
  cases h with
  | @ready subject before todo hg hr =>
      cases todo with
      | nil => rfl
      | cons sf todo => simp [Client.next] at he
  | ended => rfl
  | lost hn | refusing hn | refused hn | rejected hn => exact absurd hfits hn
  | _ => simp at he

/-- A server with more than a cut frame to read reads. -/
theorem server_reads {k : Frame → SessionPc}
    (h : readFrameOn l.server.inbox ≠ .error .eof) :
    ∃ s, l.server.read cfg.session k = some s := by
  unfold Session.read
  rw [Endpoint.readFrame_eq]
  split
  next => exact ⟨_, rfl⟩
  next heof => exact absurd heof h
  next => exact ⟨_, rfl⟩
  next => exact ⟨_, rfl⟩

/-- With nothing under way, one of the two has something to do. -/
theorem moves_of_phase (h : Phase cfg l.view) (hup : l.up = [])
    (hdown : l.down = []) (he : ¬ l.Ended) :
    (∃ c, l.client.run cfg.toClientCfg none = some c)
      ∨ ∃ s, l.server.run cfg.session none .ok = some s := by
  generalize hv : l.view = v at h
  have hc : l.client.pc = v.client := by rw [← hv]; rfl
  have hs : l.server.pc = v.server := by rw [← hv]; rfl
  have hsin : l.server.inbox = v.toServer := by
    rw [← hv, view, hup, List.append_nil]
  have hcin : l.client.inbox = v.toClient := by
    rw [← hv, view, hdown, List.append_nil]
  cases h with
  | opening =>
      refine .inl ?_
      unfold Client.run
      rw [hc]
      exact ⟨_, rfl⟩
  | asking hw =>
      refine .inr ?_
      unfold Session.run
      rw [hs]
      refine server_reads ?_
      rw [hsin, readFrameOn_image hw]
      unfold finishFrame
      split <;> simp
  | judging | granting | storing | answering | refusing =>
      refine .inr ?_
      unfold Session.run
      rw [hs]
      exact ⟨_, rfl⟩
  | granted | answered =>
      refine .inl ?_
      unfold Client.run
      rw [hc]
      exact ⟨_, Client.read_wire (by decide) hcin⟩
  | @ready subject before todo hg hr =>
      cases todo with
      | nil =>
          refine absurd (.inl ?_) he
          unfold Client.finished
          rw [hc]
          rfl
      | cons sf todo => exact .inl ⟨_, Client.run_writeTelemetry hc⟩
  | @telling subject before todo sf hg hr =>
      refine .inr ?_
      unfold Session.run
      rw [hs]
      refine server_reads ?_
      have hread : readFrameOn l.server.inbox
          = .ok (telemetryFrame sf.bytes, []) :=
        readFrameOn_ok_iff.mpr
          ⟨by simp [telemetryFrame], by rw [hsin, List.append_nil]⟩
      rw [hread]
      simp
  | ended | refused | rejected => exact absurd (.inr (.inr hs)) he
  | lost => exact absurd (.inr (.inl hc)) he

end Link

-- ================================================================ the law

/-- Client and server agree. The rows stored are the first readings sent,
field for field and in order, and nobody else's; the ACKs consumed are
as many, or one behind. With nothing under way one side can go on,
unless the session has come to its end, and then everything is stored.
A token that fits its frame is never refused: the session ends with the
client's loop. -/
structure Agreement (cfg : LinkCfg) (l : Link) : Prop where
  sent : l.client.sent <+: cfg.readings
  stored : l.rows.map TelemetryRow.reading
    = l.client.sent.take l.rows.length
  subject : cfg.Fits →
    ∀ row ∈ l.rows, row.clientSubject = (cfg.validate cfg.token).subject
  acks : l.client.acks ≤ l.rows.length
    ∧ l.rows.length ≤ l.client.acks + 1
  live : l.up = [] → l.down = [] → ¬ l.Ended →
    (∃ l', Link.step cfg .client l = some l')
      ∨ ∃ l', Link.step cfg .server l = some l'
  complete : l.client.pc = .done →
    l.rows.map TelemetryRow.reading = cfg.readings
  ends : cfg.Fits → l.Ended → l.client.pc = .done

/-- Every client and server session, on reliable channels with any
chunking and interleaving, agree in every state they reach. -/
theorem client_server_agreement (cfg : LinkCfg)
    (hv : (cfg.validate cfg.token).ok = true) {l : Link}
    (hr : Reachable (Link.step cfg) Link.init l) : Agreement cfg l := by
  have hi := Link.linkInv_reachable hv hr
  have hacc := account_of_phase hi.phase
  refine ⟨hacc.sent, hacc.stored, hacc.subject, hacc.acks, ?_,
    Link.complete_of_phase hi.phase, Link.done_of_ended hi.phase⟩
  intro hup hdown he
  rcases Link.moves_of_phase hi.phase hup hdown he with ⟨c, hc⟩ | ⟨s, hs⟩
  · refine .inl ⟨l.clientTo c, ?_⟩
    simp only [Link.step, hc]
    rfl
  · refine .inr ⟨l.serverTo s, ?_⟩
    simp only [Link.step, hs]
    rfl

/-- A client with one reading, admitted under the name "edge". -/
def edgeLink : LinkCfg :=
  { token := [0x74#8]
    readings := [{ sensorId := 1#32, timestampUs := 7#64, value := 9#64 }]
    validate := fun _ => { ok := true, subject := "edge" }
    peerIp := "127.0.0.1" }

/-- One session, its bytes arriving in pieces. -/
def edgeRun : List LinkAct :=
  [.client, .deliverUp 5, .deliverUp 8, .server, .server, .server,
    .deliverDown 11, .deliverDown 1, .client, .client, .deliverUp 13,
    .deliverUp 40, .server, .server, .server, .deliverDown 12, .client,
    .closeUp .eof, .server]

/-- The session runs to its end, and the reading is stored. -/
theorem client_server_agreement_one :
    (edgeLink.validate edgeLink.token).ok = true
      ∧ ∃ l, exec (Link.step edgeLink) edgeRun Link.init = some l
        ∧ l.client.pc = .done ∧ l.server.pc = .done
        ∧ l.rows.map TelemetryRow.reading = edgeLink.readings
        ∧ Agreement edgeLink l := by
  have hv : (edgeLink.validate edgeLink.token).ok = true := rfl
  have hrun : (exec (Link.step edgeLink) edgeRun Link.init).map
      (fun l => (l.client.pc, l.server.pc)) = some (.done, .done) := by
    decide +kernel
  obtain ⟨l, hl, hpcs⟩ := Option.map_eq_some_iff.mp hrun
  obtain ⟨hc, hs⟩ := Prod.mk.inj hpcs
  have hag := client_server_agreement edgeLink hv (reachable_of_exec hl)
  exact ⟨hv, l, hl, hc, hs, hag.complete hc, hag⟩

end EdgeIpc.Ats
