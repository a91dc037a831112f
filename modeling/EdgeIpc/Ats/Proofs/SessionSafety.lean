/-
Nothing is stored for a peer that was not authenticated, and what is
stored carries the subject that was.

`session_safety` reads the law off the grammar (`Shape`) by way of
`Outline`, which forgets the control points and keeps the seven kinds of
history a session can have. It holds for both servers; the second half
of the theorem says why one proof is enough: erase the log lines and the
two are the same machine (`seen_step`).
-/
import EdgeIpc.Ats.Proofs.SessionShape

namespace EdgeIpc.Ats

open Lib

-- ====================================================== reading histories

/-- The `insert_auth_log` calls, with how they came out. -/
def authCalls (es : List Effect) : List (AuthLogRow × DbOutcome) :=
  es.filterMap fun
    | .insertAuthLog row db => some (row, db)
    | _ => none

/-- The `insert_telemetry` calls. -/
def telemetryCalls (es : List Effect) : List (TelemetryRow × DbOutcome) :=
  es.filterMap fun
    | .insertTelemetry row db => some (row, db)
    | _ => none

/-- The frames handed to `async_write`. -/
def outgoing (es : List Effect) : List Frame :=
  es.filterMap fun
    | .write f _ => some f
    | _ => none

/-- A reading that skips the log lines finds nothing else in them. -/
theorem OnlyLogs.filterMap_eq_nil {α : Type} {es : List Effect}
    (h : OnlyLogs es) {g : Effect → Option α}
    (hg : ∀ text, g (.log text) = none) : es.filterMap g = [] := by
  refine List.filterMap_eq_nil_iff.mpr fun e he => ?_
  obtain ⟨text, rfl⟩ := h e he
  exact hg text

theorem OnlyLogs.authCalls {es : List Effect} (h : OnlyLogs es) :
    authCalls es = [] :=
  h.filterMap_eq_nil fun _ => rfl

theorem OnlyLogs.telemetryCalls {es : List Effect} (h : OnlyLogs es) :
    telemetryCalls es = [] :=
  h.filterMap_eq_nil fun _ => rfl

theorem OnlyLogs.outgoing {es : List Effect} (h : OnlyLogs es) :
    outgoing es = [] :=
  h.filterMap_eq_nil fun _ => rfl

/-- An effect other than a log line. -/
def Effect.visible : Effect → Bool
  | .log _ => false
  | _ => true

theorem OnlyLogs.visible {es : List Effect} (h : OnlyLogs es) :
    es.filter Effect.visible = [] := by
  refine List.filter_eq_nil_iff.mpr fun e he => ?_
  obtain ⟨text, rfl⟩ := h e he
  exact Bool.false_ne_true

/-- The effects of the telemetry loop, for one subject: no further row in
the auth log, and every row stored is the subject's. -/
structure LoopEffects (subject : String) (es : List Effect) : Prop where
  auth : authCalls es = []
  rows : ∀ row db, .insertTelemetry row db ∈ es →
    row.clientSubject = subject

theorem telemetryRow?_subject {payload : List Byte} {subject : String}
    {row : TelemetryRow} (h : telemetryRow? payload subject = some row) :
    row.clientSubject = subject := by
  unfold telemetryRow? at h
  split at h
  next =>
    injection h with h
    rw [← h]
  next => cases h

theorem loopEffects_nil {subject : String} : LoopEffects subject [] :=
  ⟨rfl, nofun⟩

theorem loopEffects_logs {subject : String} {es : List Effect}
    (h : OnlyLogs es) : LoopEffects subject es := by
  refine ⟨h.authCalls, fun row db hm => ?_⟩
  obtain ⟨text, htext⟩ := h _ hm
  cases htext

theorem LoopEffects.append {subject : String} {es es' : List Effect}
    (h : LoopEffects subject es) (h' : LoopEffects subject es') :
    LoopEffects subject (es ++ es') := by
  refine ⟨?_, fun row db hm => ?_⟩
  · rw [authCalls, List.filterMap_append]
    exact List.append_eq_nil_iff.mpr ⟨h.auth, h'.auth⟩
  · rcases List.mem_append.mp hm with hm | hm
    · exact h.rows row db hm
    · exact h'.rows row db hm

theorem loopEffects_insert {subject : String} {payload : List Byte}
    {row : TelemetryRow} (hrow : telemetryRow? payload subject = some row)
    (db : DbOutcome) : LoopEffects subject [.insertTelemetry row db] := by
  refine ⟨rfl, fun row' db' hm => ?_⟩
  rw [List.mem_singleton] at hm
  injection hm with hr
  rw [hr]
  exact telemetryRow?_subject hrow

theorem loopEffects_store (subject : String) (t : Frame) :
    LoopEffects subject (storeTrace subject t) := by
  unfold storeTrace
  split
  next row hrow => exact loopEffects_insert hrow _
  next => exact loopEffects_nil

theorem loopEffects_round (subject : String) (t : Frame)
    (io : Option SysError) : LoopEffects subject (roundTrace subject t io) :=
  (loopEffects_store subject t).append ⟨rfl, by simp⟩

-- ============================================================ the outline

/-- The seven kinds of history. The control point matters only in that
an answer still owed is no longer owed at the end. -/
inductive Outline (cfg : SessionCfg) (pc : SessionPc) :
    List Frame → List Effect → Prop
  | silent {es : List Effect} (hl : OnlyLogs es) : Outline cfg pc [] es
  | refused {f : Frame} {es : List Effect} (hf : f.msgType ≠ .auth)
      (hes : (pc ≠ .done ∧ es = [])
        ∨ ∃ io logs, OnlyLogs logs ∧ es = .write errorFrame io :: logs) :
      Outline cfg pc [f] es
  | pending {f : Frame} (hf : f.msgType = .auth) (hpc : pc ≠ .done) :
      Outline cfg pc [f] []
  | threw {f : Frame} {what : String} {stored : Bool} {logs : List Effect}
      (hf : f.msgType = .auth) (hl : OnlyLogs logs) :
      Outline cfg pc [f]
        (.insertAuthLog (cfg.authRow f.payload) (.threw what stored) :: logs)
  | rejected {f : Frame} {es : List Effect} (hf : f.msgType = .auth)
      (hv : (cfg.validate f.payload).ok = false)
      (hes : (pc ≠ .done ∧ es = [])
        ∨ ∃ io logs, OnlyLogs logs ∧ es = .write errorFrame io :: logs) :
      Outline cfg pc [f]
        (.insertAuthLog (cfg.authRow f.payload) .ok :: es)
  | accepted {f : Frame} {subject : String} {es : List Effect}
      (ha : Accepted cfg f subject)
      (hes : es = [] ∨ ∃ e logs, OnlyLogs logs
        ∧ es = .write ackFrame (some e) :: logs) :
      Outline cfg pc [f]
        (.insertAuthLog (cfg.authRow f.payload) .ok :: es)
  | looped {f : Frame} {fs : List Frame} {subject : String}
      {es : List Effect} (ha : Accepted cfg f subject)
      (hes : LoopEffects subject es) :
      Outline cfg pc (f :: fs) (authTrace cfg f ++ es)

variable {cfg : SessionCfg}

theorem Rounds.outline {subject : String} {fs : List Frame}
    {es : List Effect} (h : Rounds cfg subject fs es) :
    ∃ f fs' es', fs = f :: fs' ∧ Accepted cfg f subject
      ∧ es = authTrace cfg f ++ es' ∧ LoopEffects subject es' := by
  induction h with
  | @auth f ha =>
      exact ⟨f, [], [], rfl, ha, (List.append_nil _).symm, loopEffects_nil⟩
  | @round fs es t h ht ih =>
      obtain ⟨f, fs', es', rfl, ha, rfl, hes⟩ := ih
      exact ⟨f, fs' ++ [t], es' ++ roundTrace subject t none, rfl, ha,
        List.append_assoc .., hes.append (loopEffects_round _ _ _)⟩

/-- Rounds, then frames and effects of an unfinished or last round. -/
theorem Rounds.looped {subject : String} {fs : List Frame}
    {es last : List Effect} (h : Rounds cfg subject fs es)
    (more : List Frame) (hl : LoopEffects subject last) (pc : SessionPc) :
    Outline cfg pc (fs ++ more) (es ++ last) := by
  obtain ⟨f, fs', es', rfl, ha, rfl, hes⟩ := h.outline
  rw [List.append_assoc]
  exact .looped ha (hes.append hl)

theorem Shape.outline {pc : SessionPc} {fs : List Frame}
    {es : List Effect} (h : Shape cfg pc fs es) : Outline cfg pc fs es := by
  cases h with
  | readAuth => exact .silent nofun
  | wrongType hf => exact .refused hf (.inl ⟨nofun, rfl⟩)
  | insertAuth hf => exact .pending hf nofun
  | rejected hf hv => exact .rejected hf hv (.inl ⟨nofun, rfl⟩)
  | accepted ha => exact .accepted ha (.inl rfl)
  | @loop subject fs es h =>
      have ho := h.looped [] loopEffects_nil (.readTelemetry subject)
      rwa [List.append_nil, List.append_nil] at ho
  | @storing subject fs es t row h ht hrow =>
      have ho := h.looped [t] loopEffects_nil (.insertTelemetry subject row)
      rwa [List.append_nil] at ho
  | acking h ht => exact h.looped [_] (loopEffects_store _ _) _
  | noAuth hl => exact .silent hl
  | refused hf hl => exact .refused hf (.inr ⟨_, _, hl, rfl⟩)
  | authThrew hf hl => exact .threw hf hl
  | turnedAway hf hv hl => exact .rejected hf hv (.inr ⟨_, _, hl, rfl⟩)
  | authAckLost ha hl => exact .accepted ha (.inr ⟨_, _, hl, rfl⟩)
  | cut h hl =>
      have ho := h.looped [] (loopEffects_logs hl) .done
      rwa [List.append_nil] at ho
  | @goodbye subject fs es t h ht =>
      have ho := h.looped [t] loopEffects_nil .done
      rwa [List.append_nil] at ho
  | storeThrew h ht hrow hl =>
      exact h.looped [_] ((loopEffects_insert hrow _).append
        (loopEffects_logs hl)) _
  | ackLost h ht hl =>
      exact h.looped [_] ((loopEffects_round _ _ _).append
        (loopEffects_logs hl)) _
  | authOutOfBounds => exact .silent nofun
  | loopOutOfBounds h =>
      have ho := h.looped [] loopEffects_nil .undefined
      rwa [List.append_nil, List.append_nil] at ho

-- ================================================= laws of the histories

theorem mem_telemetryCalls {es : List Effect} {row : TelemetryRow}
    {db : DbOutcome} :
    (row, db) ∈ telemetryCalls es ↔ .insertTelemetry row db ∈ es := by
  rw [telemetryCalls, List.mem_filterMap]
  constructor
  · rintro ⟨e, he, heq⟩
    cases e with
    | insertTelemetry row' db' =>
        injection heq with heq
        injection heq with hr hd
        rw [← hr, ← hd]
        exact he
    | insertAuthLog | write | log => cases heq
  · exact fun h => ⟨_, h, rfl⟩

/-- Telemetry is stored in the loop only, and there nothing else is. -/
theorem Outline.quiet_or_looped {pc : SessionPc} {fs : List Frame}
    {es : List Effect} (h : Outline cfg pc fs es) :
    telemetryCalls es = [] ∨ ∃ f fs' subject es', fs = f :: fs'
      ∧ Accepted cfg f subject ∧ es = authTrace cfg f ++ es'
      ∧ LoopEffects subject es' := by
  cases h with
  | silent hl => exact .inl hl.telemetryCalls
  | refused hf hes =>
      rcases hes with ⟨-, rfl⟩ | ⟨io, logs, hl, rfl⟩
      · exact .inl rfl
      · exact .inl hl.telemetryCalls
  | pending hf hpc => exact .inl rfl
  | threw hf hl => exact .inl hl.telemetryCalls
  | rejected hf hv hes =>
      rcases hes with ⟨-, rfl⟩ | ⟨io, logs, hl, rfl⟩
      · exact .inl rfl
      · exact .inl hl.telemetryCalls
  | accepted ha hes =>
      rcases hes with rfl | ⟨e, logs, hl, rfl⟩
      · exact .inl rfl
      · exact .inl hl.telemetryCalls
  | looped ha hes => exact .inr ⟨_, _, _, _, rfl, ha, rfl, hes⟩

theorem Outline.telemetry_after {pc : SessionPc} {fs : List Frame}
    {es pre post : List Effect} {row : TelemetryRow} {db : DbOutcome}
    (h : Outline cfg pc fs es)
    (hes : es = pre ++ .insertTelemetry row db :: post) :
    ∃ f fs', fs = f :: fs' ∧ Accepted cfg f row.clientSubject
      ∧ authTrace cfg f <+: pre := by
  have hmem : .insertTelemetry row db ∈ es := by simp [hes]
  rcases h.quiet_or_looped with hq | ⟨f, fs', subject, es', rfl, ha, rfl, hl⟩
  · rw [← mem_telemetryCalls, hq] at hmem
    cases hmem
  have hrow : .insertTelemetry row db ∈ es' := by
    simpa [authTrace] using hmem
  refine ⟨f, fs', rfl, (hl.rows row db hrow).symm ▸ ha, ?_⟩
  -- neither of the two effects of the AUTH exchange is an insert
  match pre, hes with
  | [], hes => cases hes
  | [x], hes => cases hes
  | x :: y :: pre', hes =>
      injection hes with hx hes
      injection hes with hy hes
      exact ⟨pre', by rw [← hx, ← hy]; rfl⟩

/-- The auth log has no row of this session, or one, for its first frame,
which is then an AUTH frame. -/
theorem Outline.authCalls {pc : SessionPc} {fs : List Frame}
    {es : List Effect} (h : Outline cfg pc fs es) :
    authCalls es = [] ∨ ∃ f fs' db, fs = f :: fs' ∧ f.msgType = .auth
      ∧ authCalls es = [(cfg.authRow f.payload, db)] := by
  cases h with
  | silent hl => exact .inl hl.authCalls
  | refused hf hes =>
      rcases hes with ⟨-, rfl⟩ | ⟨io, logs, hl, rfl⟩
      · exact .inl rfl
      · exact .inl hl.authCalls
  | pending hf hpc => exact .inl rfl
  | threw hf hl =>
      exact .inr ⟨_, _, _, rfl, hf, congrArg (_ :: ·) hl.authCalls⟩
  | rejected hf hv hes =>
      refine .inr ⟨_, _, _, rfl, hf, congrArg (_ :: ·) ?_⟩
      rcases hes with ⟨-, rfl⟩ | ⟨io, logs, hl, rfl⟩
      · rfl
      · exact hl.authCalls
  | accepted ha hes =>
      refine .inr ⟨_, _, _, rfl, ha.auth, congrArg (_ :: ·) ?_⟩
      rcases hes with rfl | ⟨e, logs, hl, rfl⟩
      · rfl
      · exact hl.authCalls
  | looped ha hes =>
      exact .inr ⟨_, _, _, rfl, ha.auth, congrArg (_ :: ·) hes.auth⟩

/-- At the end, an AUTH frame has its row in the auth log. -/
theorem Outline.authCalls_ne_nil {f : Frame} {fs : List Frame}
    {es : List Effect} (h : Outline cfg .done (f :: fs) es)
    (hf : f.msgType = .auth) : Ats.authCalls es ≠ [] := by
  cases h with
  | refused hne => exact absurd hf hne
  | pending hf hpc => exact absurd rfl hpc
  | threw | rejected | accepted | looped => exact List.cons_ne_nil _ _

theorem Outline.refused_outgoing {pc : SessionPc} {f : Frame}
    {fs : List Frame} {es : List Effect} (h : Outline cfg pc (f :: fs) es)
    (hf : f.msgType ≠ .auth) :
    outgoing es <+: [errorFrame]
      ∧ (pc = .done → outgoing es = [errorFrame]) := by
  cases h with
  | refused _ hes =>
      rcases hes with ⟨hpc, rfl⟩ | ⟨io, logs, hl, rfl⟩
      · exact ⟨List.nil_prefix, fun h => absurd h hpc⟩
      · have hout : outgoing (.write errorFrame io :: logs) = [errorFrame] :=
          congrArg (_ :: ·) hl.outgoing
        rw [hout]
        exact ⟨List.prefix_rfl, fun _ => rfl⟩
  | pending ha | threw ha | rejected ha => exact absurd ha hf
  | accepted ha | looped ha => exact absurd ha.auth hf

theorem Outline.rejected_outgoing {pc : SessionPc} {f : Frame}
    {fs : List Frame} {es : List Effect} (h : Outline cfg pc (f :: fs) es)
    (hf : f.msgType = .auth) (hv : (cfg.validate f.payload).ok = false) :
    outgoing es <+: [errorFrame]
      ∧ (pc = .done → (cfg.authRow f.payload, .ok) ∈ Ats.authCalls es →
        outgoing es = [errorFrame]) := by
  cases h with
  | refused hne => exact absurd hf hne
  | pending => exact ⟨List.nil_prefix, fun _ hm => by cases hm⟩
  | @threw _ what stored logs _ hl =>
      have hcalls : Ats.authCalls (.insertAuthLog (cfg.authRow f.payload)
          (.threw what stored) :: logs) = [(_, .threw what stored)] :=
        congrArg (_ :: ·) hl.authCalls
      have hout : outgoing (.insertAuthLog (cfg.authRow f.payload)
          (.threw what stored) :: logs) = [] := hl.outgoing
      rw [hcalls, hout]
      refine ⟨List.nil_prefix, fun _ hm => ?_⟩
      cases List.mem_singleton.mp hm
  | rejected _ _ hes =>
      rcases hes with ⟨hpc, rfl⟩ | ⟨io, logs, hl, rfl⟩
      · exact ⟨List.nil_prefix, fun h => absurd h hpc⟩
      · have hout : outgoing (.insertAuthLog (cfg.authRow f.payload) .ok
            :: .write errorFrame io :: logs) = [errorFrame] :=
          congrArg (_ :: ·) hl.outgoing
        rw [hout]
        exact ⟨List.prefix_rfl, fun _ _ => rfl⟩
  | accepted ha | looped ha =>
      have hok := ha.ok
      rw [hv] at hok
      cases hok

/-- Only an accepted AUTH is followed by telemetry. -/
theorem Outline.telemetryCalls_nil {pc : SessionPc} {fs : List Frame}
    {es : List Effect} (h : Outline cfg pc fs es)
    (hno : ∀ f fs', fs = f :: fs' → f.msgType = .auth →
      (cfg.authRow f.payload, .ok) ∈ Ats.authCalls es →
      (cfg.validate f.payload).ok = false) :
    Ats.telemetryCalls es = [] := by
  rcases h.quiet_or_looped with hq | ⟨f, fs', subject, es', rfl, ha, rfl, -⟩
  · exact hq
  · have hfalse := hno f fs' rfl ha.auth List.mem_cons_self
    rw [ha.ok] at hfalse
    cases hfalse

namespace Session

variable {s : Session}

-- ======================================================== the first frame

/-- The first frame read is the frame the stream begins with. -/
theorem first_of_frames {f : Frame} {fs : List Frame}
    (hi : SessionInv cfg s) (hfs : s.frames = f :: fs) :
    ∃ rest, readFrameOn s.received = .ok (f, rest) := by
  have hsize := hi.sizes f (by simp [hfs])
  refine ⟨wires fs ++ s.inbox, readFrameOn_ok_iff.mpr ⟨hsize, ?_⟩⟩
  rw [hi.stream, hfs]
  simp [wires]

/-- A frame the stream begins with is the first read, if any is, and at
the end one has been. -/
theorem frames_of_first {f : Frame} {rest : List Byte}
    (hi : SessionInv cfg s) (h : readFrameOn s.received = .ok (f, rest)) :
    (s.frames = [] ∧ s.pc ≠ .done) ∨ ∃ fs, s.frames = f :: fs := by
  cases hfs : s.frames with
  | nil =>
      refine .inl ⟨rfl, fun hpc => ?_⟩
      obtain ⟨e, he, -⟩ := hi.noFrame hpc hfs
      rw [h] at he
      cases he
  | cons g fs =>
      obtain ⟨rest', hg⟩ := first_of_frames hi hfs
      rw [h] at hg
      injection hg with hg
      injection hg with hfg
      exact .inr ⟨fs, by rw [hfg]⟩

-- ========================================================= authentication

/-- The law of authentication, for one state of a session. -/
structure SessionSafe (cfg : SessionCfg) (s : Session) : Prop where
  /-- Telemetry is stored only after the first frame was an AUTH whose
  token validated, its AUTH_OK row was inserted and an ACK was written,
  and carries exactly the validated subject. -/
  telemetry : ∀ pre row db post,
    s.effects = pre ++ .insertTelemetry row db :: post →
    ∃ f rest authRow, readFrameOn s.received = .ok (f, rest)
      ∧ f.msgType = .auth ∧ (cfg.validate f.payload).ok = true
      ∧ (cfg.validate f.payload).subject = row.clientSubject
      ∧ authRow.event = "AUTH_OK"
      ∧ [.insertAuthLog authRow .ok, .write ackFrame none] <+: pre
  /-- The auth log is written for a well-formed first AUTH frame only,
  at most once, -/
  authLog : authCalls s.effects = [] ∨ ∃ f rest db,
    readFrameOn s.received = .ok (f, rest) ∧ f.msgType = .auth
      ∧ authCalls s.effects = [(cfg.authRow f.payload, db)]
  /-- and by the end exactly once. -/
  authLogged : ∀ f rest, readFrameOn s.received = .ok (f, rest) →
    f.msgType = .auth → s.pc = .done → (authCalls s.effects).length = 1
  /-- A first frame of another type is answered by one empty ERROR. -/
  refused : ∀ f rest, readFrameOn s.received = .ok (f, rest) →
    f.msgType ≠ .auth →
    telemetryCalls s.effects = [] ∧ outgoing s.effects <+: [errorFrame]
      ∧ (s.pc = .done → outgoing s.effects = [errorFrame])
  /-- So is a rejected token, once its row is in the auth log. -/
  rejected : ∀ f rest, readFrameOn s.received = .ok (f, rest) →
    f.msgType = .auth → (cfg.validate f.payload).ok = false →
    telemetryCalls s.effects = [] ∧ outgoing s.effects <+: [errorFrame]
      ∧ (s.pc = .done →
        (cfg.authRow f.payload, .ok) ∈ authCalls s.effects →
        outgoing s.effects = [errorFrame])
  /-- An auth log insert that throws ends it. -/
  threw : ∀ row what stored,
    (row, .threw what stored) ∈ authCalls s.effects →
    telemetryCalls s.effects = []

theorem sessionSafe_of_inv (hi : SessionInv cfg s) : SessionSafe cfg s where
  telemetry pre row db post hes := by
    obtain ⟨f, fs, hfs, ha, hpre⟩ := hi.shape.outline.telemetry_after hes
    obtain ⟨rest, hfirst⟩ := first_of_frames hi hfs
    have hevent : (cfg.authRow f.payload).event = "AUTH_OK" := by
      simp [SessionCfg.authRow, ha.ok]
    exact ⟨f, rest, _, hfirst, ha.auth, ha.ok, ha.subject, hevent, hpre⟩
  authLog := by
    rcases hi.shape.outline.authCalls with hnil | ⟨f, fs, db, hfs, hf, hc⟩
    · exact .inl hnil
    · obtain ⟨rest, hfirst⟩ := first_of_frames hi hfs
      exact .inr ⟨f, rest, db, hfirst, hf, hc⟩
  authLogged f rest hfirst hf hpc := by
    have ho := hi.shape.outline
    rcases frames_of_first hi hfirst with ⟨-, hne⟩ | ⟨fs, hfs⟩
    · exact absurd hpc hne
    rcases ho.authCalls with hnil | ⟨g, gs, db, -, -, hc⟩
    · rw [hpc, hfs] at ho
      exact absurd hnil (ho.authCalls_ne_nil hf)
    · rw [hc]
      rfl
  refused f rest hfirst hf := by
    have ho := hi.shape.outline
    rcases frames_of_first hi hfirst with ⟨hnil, hne⟩ | ⟨fs, hfs⟩
    · rw [hnil] at ho
      cases ho with
      | silent hl =>
          rw [hl.telemetryCalls, hl.outgoing]
          exact ⟨rfl, List.nil_prefix, fun h => absurd h hne⟩
    · rw [hfs] at ho
      refine ⟨ho.telemetryCalls_nil ?_, ho.refused_outgoing hf⟩
      rintro g gs heq hg -
      injection heq with heq
      exact absurd (heq ▸ hg) hf
  rejected f rest hfirst hf hv := by
    have ho := hi.shape.outline
    rcases frames_of_first hi hfirst with ⟨hnil, hne⟩ | ⟨fs, hfs⟩
    · rw [hnil] at ho
      cases ho with
      | silent hl =>
          rw [hl.telemetryCalls, hl.outgoing]
          exact ⟨rfl, List.nil_prefix, fun h => absurd h hne⟩
    · rw [hfs] at ho
      refine ⟨ho.telemetryCalls_nil ?_, ho.rejected_outgoing hf hv⟩
      rintro g gs heq - -
      injection heq with heq
      exact heq ▸ hv
  threw row what stored hm := by
    have ho := hi.shape.outline
    refine ho.telemetryCalls_nil fun f fs hfs hf hok => ?_
    -- there is one call, so it cannot have come out both ways
    rcases ho.authCalls with hnil | ⟨g, gs, db, -, -, hc⟩
    · rw [hnil] at hm
      cases hm
    · rw [hc, List.mem_singleton] at hm hok
      rw [← hok] at hm
      cases hm

-- ====================================================== one machine, twice

/-- The session without its log lines. -/
def seen (s : Session) : Session :=
  { s with effects := s.effects.filter Effect.visible }

theorem seen_seen (s : Session) : s.seen.seen = s.seen := by
  simp [seen]

/-- However a session is left by an exception, what is seen of it is
that it is over. -/
theorem seen_done {logs : List Effect} (hl : OnlyLogs logs) (s : Session) :
    ({ s with pc := .done, effects := s.effects ++ logs } : Session).seen
      = { s.seen with pc := .done } := by
  simp [seen, hl.visible]

theorem seen_throwSystem (cfg : SessionCfg) (e : SysError) (s : Session) :
    (s.throwSystem cfg e).seen = { s.seen with pc := .done } := by
  obtain ⟨logs, hl, heq⟩ := throwSystem_eq cfg e s
  rw [heq, seen_done hl]

theorem seen_throwStd (cfg : SessionCfg) (what : String) (s : Session) :
    (s.throwStd cfg what).seen = { s.seen with pc := .done } := by
  obtain ⟨logs, hl, heq⟩ := throwStd_eq cfg what s
  rw [heq, seen_done hl]

theorem seen_read (c c' : SessionCfg) (k : Frame → SessionPc)
    (s : Session) :
    (s.read c k).map seen = (s.seen.read c' k).map seen := by
  unfold read
  rw [Endpoint.readFrame_eq, Endpoint.readFrame_eq, show s.seen.inbox = s.inbox from rfl]
  cases readFrameOn s.inbox with
  | ok p => simp [seen]
  | error e =>
      cases e with
      | eof =>
          show (s.closed.map _).map seen = (s.closed.map _).map seen
          cases s.closed with
          | none => rfl
          | some e => simp [seen_throwSystem, seen_seen]
      | invalidArgument what => simp [seen_throwStd, seen_seen]
      | outOfBounds => simp [seen]

theorem seen_write (c c' : SessionCfg) {f : Frame} (hf : f.payload = [])
    (io : Option SysError) (next : SessionPc) (s : Session) :
    (s.write c f io next).seen = (s.seen.write c' f io next).seen := by
  unfold write
  rw [writeFrame_empty c.server hf, writeFrame_empty c'.server hf]
  cases io with
  | none => simp [seen]
  | some e =>
      show (throwSystem _ _ _).seen = (throwSystem _ _ _).seen
      rw [seen_throwSystem, seen_throwSystem]
      simp [seen]

theorem seen_call (c c' : SessionCfg) (e : Effect) (db : DbOutcome)
    (next : SessionPc) (s : Session) :
    (s.call c e db next).seen = (s.seen.call c' e db next).seen := by
  unfold call
  cases db with
  | ok => simp [seen]
  | threw what stored =>
      show (throwStd _ _ _).seen = (throwStd _ _ _).seen
      rw [seen_throwStd, seen_throwStd]
      simp [seen]

/-- What is seen of a step depends on what was seen before it and not on
the server. -/
theorem seen_step (sv sv' : Server)
    (validate : List Byte → ValidationResult) (peerIp : String)
    (a : SessionAct) (s : Session) :
    (step ⟨sv, validate, peerIp⟩ a s).map seen
      = (step ⟨sv', validate, peerIp⟩ a s.seen).map seen := by
  have hfeed : ∀ bs e, (s.feed bs e).map seen = (s.seen.feed bs e).map seen := by
    intro bs e
    unfold feed
    rw [show s.seen.pc = s.pc from rfl, show s.seen.closed = s.closed from rfl]
    split <;> simp [seen]
  cases a with
  | arrive bs => exact hfeed bs none
  | close e => exact hfeed [] (some e)
  | run io db =>
      simp only [step, run]
      rw [show s.seen.pc = s.pc from rfl]
      cases s.pc with
      | handshake =>
          cases io with
          | none => simp [seen]
          | some e => simp [seen_throwSystem, seen_seen]
      | readAuth => exact seen_read _ _ _ _
      | insertAuth token => exact congrArg some (seen_call _ _ _ _ _ _)
      | writeError => exact congrArg some (seen_write _ _ rfl _ _ _)
      | writeAuthAck subject => exact congrArg some (seen_write _ _ rfl _ _ _)
      | readTelemetry subject => exact seen_read _ _ _ _
      | insertTelemetry subject row =>
          exact congrArg some (seen_call _ _ _ _ _ _)
      | writeAck subject => exact congrArg some (seen_write _ _ rfl _ _ _)
      | done => rfl
      | undefined => rfl

/-- Along every schedule the two servers show the same frames and the
same repository calls. -/
theorem seen_exec (sv sv' : Server)
    (validate : List Byte → ValidationResult) (peerIp : String)
    (as : List SessionAct) (s : Session) :
    (exec (step ⟨sv, validate, peerIp⟩) as s).map seen
      = (exec (step ⟨sv', validate, peerIp⟩) as s).map seen := by
  refine exec_observe seen (fun {a s t} heq => ?_) as rfl
  rw [seen_step sv sv', heq, ← seen_step sv' sv']

-- ================================================================ the law

/-- Authenticated-session safety, for every validator and peer address,
every input stream in every portioning, and every pattern of failing
writes and repository calls. For both servers every state of a session
past the handshake is safe, and once the stream has ended the session
comes to an end; a TLS session is a handshake followed by the TCP
session, and along every schedule the two are seen to do the same. -/
theorem session_safety (validate : List Byte → ValidationResult)
    (peerIp : String) :
    (∀ sv s, Reachable (step ⟨sv, validate, peerIp⟩)
        TcpServer.handleSession s → SessionSafe ⟨sv, validate, peerIp⟩ s)
      ∧ (∀ sv (s : Session) e (answers : Nat → Option SysError × DbOutcome),
        s.closed = some e → ∃ n s',
        exec (step ⟨sv, validate, peerIp⟩) ((List.range n).map fun i =>
            .run (answers i).1 (answers i).2) s = some s'
          ∧ s'.ended = true)
      ∧ (∀ db, step ⟨.tls, validate, peerIp⟩ (.run none db)
          TlsServer.handleTlsSession = some TcpServer.handleSession)
      ∧ ∀ as, (exec (step ⟨.tls, validate, peerIp⟩) as
            TcpServer.handleSession).map seen
          = (exec (step ⟨.tcp, validate, peerIp⟩) as
            TcpServer.handleSession).map seen := by
  refine ⟨fun sv s hr => ?_, fun sv s e answers hc => ?_, fun db => rfl,
    fun as => ?_⟩
  · exact sessionSafe_of_inv (sessionInv_reachable hr)
  · exact session_ends hc answers
  · exact seen_exec .tls .tcp validate peerIp as _

end Session

/-- The validator with a token library that takes every token. -/
def openDoor : List Byte → ValidationResult :=
  JwtValidator.validate (some "secret") fun _ _ _ _ => .ok "sensor"

/-- An AUTH frame and one TELEMETRY frame arrive, and the session takes
`n` steps. -/
def oneReading (payload : List Byte) (n : Nat) : List SessionAct :=
  .arrive (Frame.wire ⟨.auth, [0x65#8, 0x79#8]⟩
      ++ Frame.wire ⟨.telemetry, payload⟩)
    :: List.replicate n (.run none .ok)

/-- A session that stores a reading is safe. -/
theorem session_safety_one_reading :
    ∃ s, exec (Session.step ⟨.tcp, openDoor, "127.0.0.1"⟩)
        (oneReading (List.replicate 20 0x00#8) 6) TcpServer.handleSession
          = some s
      ∧ telemetryCalls s.effects = [(⟨0, 0, 0, "sensor"⟩, .ok)]
      ∧ Session.SessionSafe ⟨.tcp, openDoor, "127.0.0.1"⟩ s := by
  have hrun : (exec (Session.step ⟨.tcp, openDoor, "127.0.0.1"⟩)
      (oneReading (List.replicate 20 0x00#8) 6) TcpServer.handleSession).map
        (fun s => telemetryCalls s.effects)
      = some [(⟨0, 0, 0, "sensor"⟩, .ok)] := by
    decide +kernel
  obtain ⟨s, hs, hcalls⟩ := Option.map_eq_some_iff.mp hrun
  exact ⟨s, hs, hcalls,
    (Session.session_safety openDoor "127.0.0.1").1 .tcp s
      (reachable_of_exec hs)⟩

-- =========================================================== the validator

/-- The repository's validator accepts no token without a subject. -/
theorem JwtValidator.subject_ne_empty {env : Option String}
    {jwt : String → String → Nat → List Byte → Except String String}
    {token : List Byte} (h : (validate env jwt token).ok = true) :
    (validate env jwt token).subject ≠ "" := by
  unfold validate at h ⊢
  cases env with
  | none => cases h
  | some secret =>
      dsimp only at h ⊢
      cases hjwt : jwt secret issuer leewayS token with
      | error what =>
          rw [hjwt] at h
          cases h
      | ok sub =>
          simp only [hjwt] at h ⊢
          by_cases hsub : sub = ""
          · rw [if_pos hsub] at h
            cases h
          · rw [if_neg hsub]
            exact hsub

/-- With it, no telemetry is ever stored without one. -/
theorem Session.stored_subject_ne_empty {sv : Server} {env : Option String}
    {jwt : String → String → Nat → List Byte → Except String String}
    {peerIp : String} {s : Session}
    (hr : Reachable (step ⟨sv, JwtValidator.validate env jwt, peerIp⟩)
      TcpServer.handleSession s)
    {row : TelemetryRow} {db : DbOutcome}
    (hm : .insertTelemetry row db ∈ s.effects) : row.clientSubject ≠ "" := by
  obtain ⟨pre, post, hes⟩ := List.append_of_mem hm
  obtain ⟨f, _, _, -, -, hok, hsubject, -⟩ :=
    (sessionSafe_of_inv (sessionInv_reachable hr)).telemetry pre row db post hes
  rw [← hsubject]
  exact JwtValidator.subject_ne_empty hok

end EdgeIpc.Ats
