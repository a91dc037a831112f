/-
What the coordinator knows of a worker. `last_status` is written by one
poller, which has one call under way at a time; calls may be lost, and a
call whose deadline has passed may still be served. What is assigned is
then a selection of the answers the worker gave, in the worker's order,
and neither the count nor the value shown ever goes back (`Got`).

# The argument

The frames counted when a call is made are a lower bound for its count
(`Asked`, Proofs/Status.lean), and what has been shown so far is within
that bound, since it was counted before. So the answer's marks are later
than all marks shown (`Marked.snoc`), and an answer nobody waits for is
never looked at. `LinkInv` carries this through the moves of a link, each
worker's part being that of the worker alone (`statusInv_step`).
-/
import EdgeIpc.Sdn.Cluster
import EdgeIpc.Sdn.Proofs.Health
import EdgeIpc.Sdn.Proofs.Status

namespace EdgeIpc.Sdn

open Lib Daemon TelemetryNode

variable {K : Type} [Field K] [LinearOrder K]
  {movedFrom : TelemetryFrame K → TelemetryFrame K}
  {blank : TelemetryFrame K} {name : String}
  {node node' : TelemetryNode K} {sts : List (NodeStatus K)}

-- ============================================================= the answers

/-- Answers of the worker `name` in the order of their counts and of
their values; the counts are of at most `lo` frames. -/
def Polled (name : String) (node : TelemetryNode K) (lo : Nat)
    (sts : List (NodeStatus K)) : Prop :=
  Marked (fun st m => st.nodeId = name ∧ Tells node.processed m.1 m.2 st)
    (fun m m' : Nat × Nat => m.1 ≤ m'.1 ∧ m.2 ≤ m'.2)
    (fun m => m.1 ≤ lo ∧ m.2 ≤ stored node) sts

theorem Polled.grows {lo lo' : Nat} (h : Polled name node lo sts)
    (hg : Grows node node') (hlo : lo ≤ lo') : Polled name node' lo' sts := by
  apply h.mono
  · intro st m hm
    exact ⟨hm.1, hm.2.grows hg⟩
  · intro m hm
    exact ⟨hm.1.trans hlo, hm.2.trans hg.stored⟩

/-- Answers the coordinator has: in order, and among those given. -/
structure Got (name : String) (node : TelemetryNode K)
    (sts : List (NodeStatus K)) : Prop where
  polled : Polled name node (counted node) sts
  given : sts.Sublist node.statuses

/-- The answers a worker has given only grow. -/
theorem statuses_step {a : NodeAct K}
    (h : TelemetryNode.step movedFrom a node = some node') :
    node.statuses <+: node'.statuses := by
  cases step_callMove h with
  | asks c hc hs =>
      rw [hs]
  | goes c hstep =>
      simp only [statusStep] at hstep
      split at hstep
      next => cases hstep
      next =>
        obtain rfl := Option.some.inj hstep
        exact List.prefix_refl _
      next =>
        obtain rfl := Option.some.inj hstep
        exact List.prefix_refl _
      next =>
        obtain rfl := Option.some.inj hstep
        exact List.prefix_append _ _
  | stays hcalls hst => rw [hst]

theorem Got.grows (h : Got name node sts) (hg : Grows node node')
    (hst : node.statuses <+: node'.statuses) : Got name node' sts :=
  ⟨h.polled.grows hg hg.counted, h.given.trans hst.sublist⟩

/-- The next answer is later than all there are. -/
theorem Got.snoc {lo k : Nat} {st : NodeStatus K}
    (hpolled : Polled name node lo sts) (hgiven : sts.Sublist node.statuses)
    (hg : Grows node node') (hst : node'.statuses = node.statuses ++ [st])
    (hname : st.nodeId = name) (hlo : lo ≤ k) (hk : k ≤ counted node)
    (htells : Tells node.processed k (stored node) st) :
    Got name node' (sts ++ [st]) := by
  have hwithin : Polled name node k sts := hpolled.grows (Grows.refl node) hlo
  have hnext : Polled name node k (sts ++ [st]) := by
    apply hwithin.snoc (m := (k, stored node)) ⟨hname, htells⟩
    · intro m hm
      exact hm
    · exact ⟨Nat.le_refl _, Nat.le_refl _⟩
  refine ⟨hnext.grows hg (hk.trans hg.counted), ?_⟩
  rw [hst]
  exact hgiven.append (List.Sublist.refl _)

-- ================================================================ the link

/-- The call the poller waits for: served, its count will be later than
what is shown; answered, its answer is. -/
def Awaits (name : String) (node : TelemetryNode K)
    (sts : List (NodeStatus K)) : CallPc K → StatusPc → Prop
  | .served, p => ∃ lo, Polled name node lo sts ∧ Asked node lo p
  | .answered st, _ => Got name node (sts ++ [st])
  | _, _ => True

/-- What the poller has in hand. -/
def PollerAt (name : String) (node : TelemetryNode K)
    (sts : List (NodeStatus K)) (calls : Nat → CallPc K) : PollPc K → Prop
  | .await c => Awaits name node sts (calls c) (node.calls c)
  | .update (some st) => Got name node (sts ++ [st])
  | _ => True

/-- A worker, its poller and its calls. -/
structure LinkInv (movedFrom : TelemetryFrame K → TelemetryFrame K)
    (blank : TelemetryFrame K) (name : String) (l : Link K) : Prop where
  node : StatusInv movedFrom blank name l.node
  got : Got name l.node l.shown
  served : ∀ c, l.node.calls c ≠ .absent → l.calls c = .served
  fresh : ∀ c, l.next ≤ c → l.calls c = .unmade
  poller : PollerAt name l.node l.shown l.calls l.poller

theorem Awaits.grows {p : CallPc K} {q : StatusPc}
    (h : Awaits name node sts p q) (hg : Grows node node')
    (hst : node.statuses <+: node'.statuses) :
    Awaits name node' sts p q := by
  cases p with
  | unmade => trivial
  | sent => trivial
  | served =>
      obtain ⟨lo, hpolled, hask⟩ := h
      exact ⟨lo, hpolled.grows hg (Nat.le_refl _), hask.grows hg⟩
  | answered st => exact Got.grows h hg hst

/-- The poller's part, where only the call it may wait for is in
question. -/
theorem PollerAt.grows {calls calls' : Nat → CallPc K} {p : PollPc K}
    (h : PollerAt name node sts calls p) (hg : Grows node node')
    (hst : node.statuses <+: node'.statuses)
    (hcall : ∀ c, Awaits name node sts (calls c) (node.calls c) →
      Awaits name node' sts (calls' c) (node'.calls c)) :
    PollerAt name node' sts calls' p := by
  cases p with
  | await c => exact hcall c h
  | update resp =>
      cases resp with
      | none => trivial
      | some st => exact Got.grows h hg hst
  | _ => trivial

theorem linkInv_init (name : String) :
    LinkInv movedFrom blank name { node := .init name blank } := by
  refine ⟨statusInv_reachable .init, ⟨marked_nil, List.Sublist.refl _⟩,
    ?_, fun _ _ => rfl, trivial⟩
  intro c hc
  exact absurd rfl hc

variable {l l' : Link K}

/-- A poller that starts, or is done, has nothing in hand. -/
theorem LinkInv.withPoller (hi : LinkInv movedFrom blank name l)
    {p : PollPc K} (hp : PollerAt name l.node l.shown l.calls p) :
    LinkInv movedFrom blank name { l with poller := p } :=
  ⟨hi.node, hi.got, hi.served, hi.fresh, hp⟩

-- -------------------------------------------------------------- the poller

theorem linkInv_poll {running : Bool} (hi : LinkInv movedFrom blank name l)
    (h : l.pollStep running = some l') :
    LinkInv movedFrom blank name l' := by
  unfold Link.pollStep at h
  split at h
  next => cases h
  next =>
    obtain rfl := Option.some.inj h
    apply hi.withPoller
    cases running <;> trivial
  next =>
    -- a number nobody has used: the worker has no call under it
    obtain rfl := Option.some.inj h
    refine ⟨hi.node, hi.got, ?_, ?_, ?_⟩
    · intro c hc
      show (if c = l.next then _ else _) = _
      by_cases hnext : c = l.next
      · have hserved := hi.served c hc
        rw [hi.fresh c hnext.ge] at hserved
        cases hserved
      · rw [if_neg hnext]
        exact hi.served c hc
    · intro c hc
      change l.next + 1 ≤ c at hc
      show (if c = l.next then _ else _) = _
      rw [if_neg (by omega)]
      exact hi.fresh c (by omega)
    · show Awaits name l.node l.shown (if l.next = l.next then _ else _) _
      rw [if_pos rfl]
      trivial
  next => cases h
  next resp hp =>
    obtain rfl := Option.some.inj h
    have hhand := hi.poller
    rw [hp] at hhand
    refine ⟨hi.node, ?_, hi.served, hi.fresh, trivial⟩
    cases resp with
    | none =>
        show Got name l.node (l.shown ++ [])
        rw [List.append_nil]
        exact hi.got
    | some st => exact hhand
  next => cases h

-- ---------------------------------------------------------- calls arriving

/-- A call arrives: whatever is shown was counted before. -/
theorem linkInv_arrive {c next : Nat} (hi : LinkInv movedFrom blank name l)
    (hnext : l.next ≤ next) (hc : c < next)
    (h : ({ l with next } : Link K).arrive movedFrom c = some l') :
    LinkInv movedFrom blank name l' := by
  unfold Link.arrive at h
  split at h
  next =>
    obtain ⟨node', hnode, rfl⟩ := Option.map_eq_some_iff.mp h
    change TelemetryNode.step movedFrom (.getNodeStatus c) l.node = _ at hnode
    obtain ⟨-, hg⟩ := figures_step hi.node.node hi.node.figures hnode
    have hst := statuses_step hnode
    have hcalls := getNodeStatus_calls hnode
    refine ⟨statusInv_step hi.node hnode, hi.got.grows hg hst, ?_, ?_, ?_⟩
    · intro d hd
      change node'.calls d ≠ _ at hd
      rw [hcalls] at hd
      show (if d = c then _ else _) = _
      by_cases hdc : d = c
      · exact if_pos hdc
      · rw [if_neg hdc] at hd ⊢
        exact hi.served d hd
    · intro d hd
      change next ≤ d at hd
      show (if d = c then _ else _) = _
      rw [if_neg (by omega)]
      exact hi.fresh d (hnext.trans hd)
    · apply hi.poller.grows hg hst
      intro d hawait
      show Awaits name node' l.shown (if d = c then _ else _) _
      by_cases hdc : d = c
      · rw [if_pos hdc, hcalls, if_pos hdc]
        exact ⟨_, hi.got.polled.grows hg (Nat.le_refl _), hg.counted⟩
      · rw [if_neg hdc, hcalls, if_neg hdc]
        exact hawait.grows hg hst
  next => cases h

-- --------------------------------------------------------------- the worker

/-- A step of the worker that lets its calls be. -/
theorem linkInv_aside {a : NodeAct K} (hi : LinkInv movedFrom blank name l)
    (h : TelemetryNode.step movedFrom a l.node = some node')
    (hcalls : node'.calls = l.node.calls) :
    LinkInv movedFrom blank name { l with node := node' } := by
  obtain ⟨-, hg⟩ := figures_step hi.node.node hi.node.figures h
  have hst := statuses_step h
  refine ⟨statusInv_step hi.node h, hi.got.grows hg hst, ?_, hi.fresh, ?_⟩
  · intro c hc
    change node'.calls c ≠ _ at hc
    rw [hcalls] at hc
    exact hi.served c hc
  · apply hi.poller.grows hg hst
    intro c hawait
    show Awaits name node' l.shown (l.calls c) (node'.calls c)
    rw [hcalls]
    exact hawait.grows hg hst

/-- A call that loads has been delivered. -/
theorem LinkInv.served_of_status {c : Nat}
    (hi : LinkInv movedFrom blank name l)
    (h : l.node.statusStep c = some node') : l.calls c = .served := by
  apply hi.served
  intro habsent
  simp only [statusStep, habsent] at h
  cases h

/-- A load of call `c` after which the call goes on. -/
theorem linkInv_status_on {c : Nat} (hi : LinkInv movedFrom blank name l)
    (h : TelemetryNode.step movedFrom (.status c) l.node = some node')
    (hgo : node'.calls c ≠ .absent) :
    LinkInv movedFrom blank name { l with node := node' } := by
  have hstep : l.node.statusStep c = some node' := h
  obtain ⟨-, hg⟩ := figures_step hi.node.node hi.node.figures h
  have hst := statuses_step h
  have hserved := hi.served_of_status hstep
  refine ⟨statusInv_step hi.node h, hi.got.grows hg hst, ?_, hi.fresh, ?_⟩
  · intro d hd
    by_cases hdc : d = c
    · rw [hdc]
      exact hserved
    · change node'.calls d ≠ _ at hd
      rw [statusStep_calls hstep hdc] at hd
      exact hi.served d hd
  · apply hi.poller.grows hg hst
    intro d hawait
    show Awaits name node' l.shown (l.calls d) (node'.calls d)
    by_cases hdc : d = c
    · rw [hdc, hserved] at hawait ⊢
      obtain ⟨lo, hpolled, hask⟩ := hawait
      refine ⟨lo, hpolled.grows hg (Nat.le_refl _), ?_⟩
      rcases asked_status hi.node.figures hask hstep with
        ⟨-, hask', -⟩ | ⟨hno, -⟩
      · exact hask'
      · exact absurd hno hgo
    · rw [statusStep_calls hstep hdc]
      exact hawait.grows hg hst

/-- The last load of call `c`: the answer goes to the call that was
made. -/
theorem linkInv_status_last {c : Nat} {st : NodeStatus K}
    (hi : LinkInv movedFrom blank name l)
    (h : TelemetryNode.step movedFrom (.status c) l.node = some node')
    (habsent : node'.calls c = .absent)
    (hsts : node'.statuses = l.node.statuses ++ [st]) :
    LinkInv movedFrom blank name
      (({ l with node := node' } : Link K).setCall c (.answered st)) := by
  have hstep : l.node.statusStep c = some node' := h
  obtain ⟨-, hg⟩ := figures_step hi.node.node hi.node.figures h
  have hst := statuses_step h
  have hserved := hi.served_of_status hstep
  refine ⟨statusInv_step hi.node h, hi.got.grows hg hst, ?_, ?_, ?_⟩
  · intro d hd
    change node'.calls d ≠ _ at hd
    show (if d = c then _ else _) = _
    by_cases hdc : d = c
    · rw [hdc] at hd
      exact absurd habsent hd
    · rw [if_neg hdc]
      rw [statusStep_calls hstep hdc] at hd
      exact hi.served d hd
  · intro d hd
    show (if d = c then _ else _) = _
    by_cases hdc : d = c
    · have hunmade := hi.fresh d hd
      rw [hdc, hserved] at hunmade
      cases hunmade
    · rw [if_neg hdc]
      exact hi.fresh d hd
  · apply hi.poller.grows hg hst
    intro d hawait
    show Awaits name node' l.shown (if d = c then _ else _) _
    by_cases hdc : d = c
    · rw [hdc, hserved] at hawait
      rw [if_pos hdc]
      obtain ⟨lo, hpolled, hask⟩ := hawait
      rcases asked_status hi.node.figures hask hstep with
        ⟨hgo, -⟩ | ⟨-, st', k, hsts', hname, hlo, hk, htells⟩
      · exact absurd habsent hgo
      · obtain rfl : st' = st := by
          have hsame := List.append_cancel_left (hsts'.symm.trans hsts)
          exact List.singleton_inj.mp hsame
        exact Got.snoc hpolled hi.got.given hg hsts
          (hname.trans hi.node.named) hlo hk htells
    · rw [if_neg hdc, statusStep_calls hstep hdc]
      exact hawait.grows hg hst

theorem linkInv_status {c : Nat} (hi : LinkInv movedFrom blank name l)
    (h : TelemetryNode.step movedFrom (.status c) l.node = some node') :
    LinkInv movedFrom blank name (l.answer c node') := by
  unfold Link.answer
  rcases asked_status hi.node.figures (hi.node.calls c) h with
    ⟨hgo, -, -⟩ | ⟨habsent, st, -, hsts, -⟩
  · split
    next hno _ => exact absurd hno hgo
    next => exact linkInv_status_on hi h hgo
  · rw [habsent, hsts, List.getLast?_concat]
    exact linkInv_status_last hi h habsent hsts

theorem linkInv_work {a : NodeAct K} (hi : LinkInv movedFrom blank name l)
    (h : l.workStep movedFrom a = some l') :
    LinkInv movedFrom blank name l' := by
  unfold Link.workStep at h
  split at h
  next => cases h
  next c =>
    obtain ⟨node', hnode, rfl⟩ := Option.map_eq_some_iff.mp h
    exact linkInv_status hi hnode
  next hask hgo =>
    obtain ⟨node', hnode, rfl⟩ := Option.map_eq_some_iff.mp h
    refine linkInv_aside hi hnode ?_
    cases step_callMove hnode with
    | asks c => exact absurd rfl (hask c)
    | goes c => exact absurd rfl (hgo c)
    | stays hcalls => exact hcalls

/-- Every move on a link. -/
theorem linkInv_step {running : Bool} {a : LinkAct K}
    (hi : LinkInv movedFrom blank name l)
    (h : l.step movedFrom running a = some l') :
    LinkInv movedFrom blank name l' := by
  unfold Link.step at h
  split at h
  next => exact linkInv_poll hi h
  next c =>
    split at h
    next hsent =>
      refine linkInv_arrive hi (Nat.le_refl l.next) ?_ h
      -- a call that was sent has a number below the next one
      by_contra hle
      rw [hi.fresh c (Nat.le_of_not_lt hle)] at hsent
      cases hsent
    next => cases h
  next => exact linkInv_arrive hi (Nat.le_succ _) (Nat.lt_succ_self _) h
  next => exact linkInv_work hi h
  next =>
    split at h
    next c hp =>
      split at h
      next st hans =>
        obtain rfl := Option.some.inj h
        have hhand := hi.poller
        rw [hp] at hhand
        change Awaits _ _ _ (l.calls c) _ at hhand
        rw [hans] at hhand
        exact hi.withPoller hhand
      next => cases h
    next => cases h
  next =>
    split at h
    next =>
      obtain rfl := Option.some.inj h
      exact hi.withPoller trivial
    next => cases h

-- ============================================================= the cluster

namespace Cluster

variable {s s' : Cluster K} {ids : List String} {names : Nat → String}

/-- What `last_status` is after the answers `sts`: the last of them, or
the default message. -/
def lastShown (sts : List (NodeStatus K)) : NodeStatus K :=
  sts.getLast?.getD ⟨"", "", 0, 0⟩

/-- Only the poller's update shows anything. -/
theorem shown_step {running : Bool} {a : LinkAct K}
    (h : l.step movedFrom running a = some l')
    (hup : ∀ resp, a = .poll → l.poller ≠ .update resp) :
    l'.shown = l.shown := by
  unfold Link.step at h
  split at h
  next =>
    unfold Link.pollStep at h
    split at h
    next => cases h
    next => rw [← Option.some.inj h]
    next =>
      rw [← Option.some.inj h]
      rfl
    next => cases h
    next resp hp => exact absurd hp (hup resp rfl)
    next => cases h
  next =>
    split at h
    next =>
      unfold Link.arrive at h
      split at h
      next =>
        obtain ⟨node', -, rfl⟩ := Option.map_eq_some_iff.mp h
        rfl
      next => cases h
    next => cases h
  next =>
    unfold Link.arrive at h
    split at h
    next =>
      obtain ⟨node', -, rfl⟩ := Option.map_eq_some_iff.mp h
      rfl
    next => cases h
  next =>
    unfold Link.workStep at h
    split at h
    next => cases h
    next c =>
      obtain ⟨node', -, rfl⟩ := Option.map_eq_some_iff.mp h
      unfold Link.answer
      split <;> rfl
    next =>
      obtain ⟨node', -, rfl⟩ := Option.map_eq_some_iff.mp h
      rfl
  next =>
    split at h
    next =>
      split at h
      next => rw [← Option.some.inj h]
      next => cases h
    next => cases h
  next =>
    split at h
    next => rw [← Option.some.inj h]
    next => cases h

/-- What a move on a link does: an update shows its answer and writes the
entry, every other move leaves both. -/
inductive LinkMove (s : Cluster K) (idx : Nat) (link : Link K) :
    Cluster K → Prop
  | update (resp : Option (NodeStatus K)) (coord : Coordinator K)
      (hcoord : s.coord.step (.poll idx resp) = some coord)
      (hshown : link.shown = (s.links idx).shown ++ resp.toList) :
      LinkMove s idx link (({ s with coord }).setLink idx link)
  | quiet (hshown : link.shown = (s.links idx).shown) :
      LinkMove s idx link (s.setLink idx link)

omit [Field K] [LinearOrder K] in
theorem writeEntry_cases {idx : Nat} {a : LinkAct K} {p : PollPc K}
    {coord coord' : Coordinator K}
    (h : writeEntry idx a p coord = some coord') :
    (∃ resp, a = .poll ∧ p = .update resp
      ∧ coord.step (.poll idx resp) = some coord')
    ∨ (coord' = coord ∧ ∀ resp, a = .poll → p ≠ .update resp) := by
  unfold writeEntry at h
  split at h
  next resp => exact .inl ⟨resp, rfl, rfl, h⟩
  next hno => exact .inr ⟨(Option.some.inj h).symm, hno⟩

theorem linkStep_move {idx : Nat} {a : LinkAct K}
    (h : s.linkStep movedFrom idx a = some s') :
    ∃ link, (s.links idx).step movedFrom s.running a = some link
      ∧ LinkMove s idx link s' := by
  unfold linkStep at h
  obtain ⟨link, hlink, hrest⟩ := Option.bind_eq_some_iff.mp h
  obtain ⟨coord, hcoord, hs⟩ := Option.bind_eq_some_iff.mp hrest
  rw [← Option.some.inj hs]
  refine ⟨link, hlink, ?_⟩
  rcases writeEntry_cases hcoord with ⟨resp, rfl, hp, hpoll⟩ | ⟨rfl, hno⟩
  · refine .update resp coord hpoll ?_
    simp only [Link.step, Link.pollStep, hp, Option.some.injEq] at hlink
    rw [← hlink]
  · exact .quiet (shown_step hlink hno)

omit [Field K] [LinearOrder K] in
theorem setLink_self (s : Cluster K) (idx : Nat) (l : Link K) :
    (s.setLink idx l).links idx = l :=
  if_pos rfl

omit [Field K] [LinearOrder K] in
theorem setLink_ne (s : Cluster K) {idx j : Nat} (l : Link K)
    (h : j ≠ idx) : (s.setLink idx l).links j = s.links j :=
  if_neg h

/-- The main thread starts and joins pollers; that is all it does to the
links. -/
structure Oversees (s s' : Cluster K) : Prop where
  coord : s'.coord = s.coord
  links : ∀ j, s'.links j = s.links j
    ∨ ∃ p, (p = .check ∨ p = .absent)
      ∧ s'.links j = { s.links j with poller := p }

omit [Field K] [LinearOrder K] in
theorem oversees_setPoller (s : Cluster K) (i : Nat) {p : PollPc K}
    (hp : p = .check ∨ p = .absent) (pc : MainPc) :
    Oversees s (({ s with main := pc } : Cluster K).setPoller i p) := by
  refine ⟨rfl, fun j => ?_⟩
  by_cases hj : j = i
  · rw [hj]
    exact .inr ⟨p, hp, setLink_self _ i _⟩
  · exact .inl (setLink_ne _ _ hj)

omit [Field K] [LinearOrder K] in
theorem mainStep_oversees (h : s.mainStep = some s') : Oversees s s' := by
  unfold mainStep at h
  split at h
  next => exact Option.some.inj h ▸ ⟨rfl, fun _ => .inl rfl⟩
  next i _ =>
    split at h
    next => exact Option.some.inj h ▸ oversees_setPoller s i (.inl rfl) _
    next => exact Option.some.inj h ▸ ⟨rfl, fun _ => .inl rfl⟩
  next =>
    split at h
    next => exact Option.some.inj h ▸ ⟨rfl, fun _ => .inl rfl⟩
    next => exact Option.some.inj h ▸ ⟨rfl, fun _ => .inl rfl⟩
  next =>
    split at h
    next => exact Option.some.inj h ▸ ⟨rfl, fun _ => .inl rfl⟩
    next => exact Option.some.inj h ▸ ⟨rfl, fun _ => .inl rfl⟩
    next => cases h
  next => exact Option.some.inj h ▸ ⟨rfl, fun _ => .inl rfl⟩
  next i _ =>
    split at h
    next =>
      split at h
      next => exact Option.some.inj h ▸ ⟨rfl, fun _ => .inl rfl⟩
      next => exact Option.some.inj h ▸ oversees_setPoller s i (.inr rfl) _
      next => cases h
    next => exact Option.some.inj h ▸ ⟨rfl, fun _ => .inl rfl⟩
  next => cases h

omit [Field K] [LinearOrder K] in
theorem Oversees.shown (h : Oversees s s') (j : Nat) :
    (s'.links j).shown = (s.links j).shown := by
  rcases h.links j with hl | ⟨p, -, hl⟩ <;> rw [hl]

-- =========================================================== the entries

/-- The links, and the coordinator's entries: each holds the last answer
shown. -/
structure ClusterInv (movedFrom : TelemetryFrame K → TelemetryFrame K)
    (blank : TelemetryFrame K) (ids : List String) (names : Nat → String)
    (s : Cluster K) : Prop where
  links : ∀ j, LinkInv movedFrom blank (names j) (s.links j)
  ids : s.coord.workers.map WorkerConn.nodeId = ids
  entries : ∀ j w, s.coord.workers[j]? = some w →
    w.lastStatus = lastShown (s.links j).shown

theorem clusterInv_init :
    ClusterInv movedFrom blank ids names (init ids names blank) := by
  refine ⟨fun j => linkInv_init (names j), ?_, ?_⟩
  · show (ids.map _).map _ = ids
    rw [List.map_map]
    exact List.map_id ids
  · intro j w hw
    change (ids.map _)[j]? = some w at hw
    rw [List.getElem?_map] at hw
    obtain ⟨id, -, rfl⟩ := Option.map_eq_some_iff.mp hw
    rfl

omit [Field K] [LinearOrder K] in
/-- A poller's update, entry by entry. -/
theorem poll_workers {idx : Nat} {resp : Option (NodeStatus K)}
    {c c' : Coordinator K} (h : c.step (.poll idx resp) = some c') :
    c'.workers = c.workers.modify idx fun w => w.update resp := by
  simp only [Coordinator.step] at h
  split at h
  next => rw [← Option.some.inj h]
  next => cases h

omit [LinearOrder K] in
/-- The entry written is the last answer shown. -/
theorem update_lastShown {w : WorkerConn K} {sts : List (NodeStatus K)}
    (hw : w.lastStatus = lastShown sts) (resp : Option (NodeStatus K)) :
    (w.update resp).lastStatus = lastShown (sts ++ resp.toList) := by
  cases resp with
  | none =>
      show w.lastStatus = lastShown (sts ++ [])
      rw [List.append_nil]
      exact hw
  | some st =>
      show st = (sts ++ [st]).getLast?.getD _
      rw [List.getLast?_concat]
      rfl

omit [Field K] [LinearOrder K] in
/-- The request's own steps leave the entries. -/
theorem request_workers {a : CoordAct K} {c c' : Coordinator K}
    (h : c.step a = some c') (ha : ∀ idx resp, a ≠ .poll idx resp) :
    c'.workers = c.workers := by
  cases a with
  | poll idx resp => exact absurd rfl (ha idx resp)
  | get =>
      simp only [Coordinator.step] at h
      split at h
      next => rw [← Option.some.inj h]
      next => rw [← Option.some.inj h]
      next => cases h
  | health =>
      simp only [Coordinator.step, Coordinator.healthStep] at h
      split at h
      next => rw [← Option.some.inj h]
      next => rw [← Option.some.inj h]
      next => rw [← Option.some.inj h]
      next => cases h

/-- A move on a link, with the entry it writes. -/
theorem clusterInv_link {idx : Nat} {a : LinkAct K}
    (hi : ClusterInv movedFrom blank ids names s)
    (h : s.linkStep movedFrom idx a = some s') :
    ClusterInv movedFrom blank ids names s' := by
  obtain ⟨link, hlink, hm⟩ := linkStep_move h
  have hnew := linkInv_step (hi.links idx) hlink
  have hlinks : ∀ c : Cluster K, c.links = s.links → ∀ j,
      LinkInv movedFrom blank (names j) ((c.setLink idx link).links j) := by
    intro c hc j
    by_cases hj : j = idx
    · rw [hj, setLink_self]
      exact hnew
    · rw [setLink_ne _ _ hj, hc]
      exact hi.links j
  cases hm with
  | update resp coord hcoord hshown =>
      have hws := poll_workers hcoord
      refine ⟨hlinks _ rfl, ?_, fun j w hw => ?_⟩
      · show coord.workers.map _ = ids
        rw [hws, Coordinator.nodeIds_modify]
        exact hi.ids
      · change coord.workers[j]? = some w at hw
        rw [hws, List.getElem?_modify] at hw
        obtain ⟨w', hw', rfl⟩ := Option.map_eq_some_iff.mp hw
        by_cases hj : j = idx
        · subst hj
          rw [if_pos rfl, setLink_self, hshown]
          exact update_lastShown (hi.entries j w' hw') resp
        · rw [if_neg (Ne.symm hj), setLink_ne _ _ hj]
          exact hi.entries j w' hw'
  | quiet hshown =>
      refine ⟨hlinks _ rfl, hi.ids, fun j w hw => ?_⟩
      by_cases hj : j = idx
      · subst hj
        rw [setLink_self, hshown]
        exact hi.entries j w hw
      · rw [setLink_ne _ _ hj]
        exact hi.entries j w hw

/-- A step of the request. -/
theorem clusterInv_request {a : CoordAct K} {coord : Coordinator K}
    (hi : ClusterInv movedFrom blank ids names s)
    (h : s.coord.step a = some coord) (ha : ∀ idx resp, a ≠ .poll idx resp) :
    ClusterInv movedFrom blank ids names { s with coord } := by
  have hws := request_workers h ha
  refine ⟨hi.links, ?_, ?_⟩
  · show coord.workers.map _ = ids
    rw [hws]
    exact hi.ids
  · intro j w hw
    change coord.workers[j]? = some w at hw
    rw [hws] at hw
    exact hi.entries j w hw

theorem clusterInv_step {a : ClusterAct K}
    (hi : ClusterInv movedFrom blank ids names s)
    (h : step movedFrom a s = some s') :
    ClusterInv movedFrom blank ids names s' := by
  cases a with
  | main =>
      have ho := mainStep_oversees h
      refine ⟨fun j => ?_, ?_, fun j w hw => ?_⟩
      · rcases ho.links j with hl | ⟨p, hp, hl⟩
        · rw [hl]
          exact hi.links j
        · rw [hl]
          apply (hi.links j).withPoller
          rcases hp with rfl | rfl <;> trivial
      · rw [ho.coord]
        exact hi.ids
      · rw [ho.shown]
        rw [ho.coord] at hw
        exact hi.entries j w hw
  | signal =>
      rw [← Option.some.inj h]
      exact ⟨hi.links, hi.ids, hi.entries⟩
  | get =>
      simp only [step] at h
      split at h
      next =>
        obtain ⟨coord, hcoord, rfl⟩ := Option.map_eq_some_iff.mp h
        exact clusterInv_request hi hcoord fun _ _ hno => by cases hno
      next => cases h
  | health =>
      obtain ⟨coord, hcoord, rfl⟩ := Option.map_eq_some_iff.mp h
      exact clusterInv_request hi hcoord fun _ _ hno => by cases hno
  | link idx a => exact clusterInv_link hi h

theorem clusterInv_reachable
    (hr : Reachable (step movedFrom) (init ids names blank) s) :
    ClusterInv movedFrom blank ids names s :=
  hr.invariant clusterInv_init clusterInv_step

/-- What the coordinator holds of a worker, in every reachable state of
the two processes and whatever calls were lost, late or given up: its
entry is the last of the answers shown or the default message, the
answers shown are answers the worker gave, none twice and in the worker's
order, and the frames their counts are of and the frames their values are
of never go back. -/
theorem polled_in_order
    (hr : Reachable (step movedFrom) (init ids names blank) s) (j : Nat)
    (hj : j < ids.length) :
    (∃ w, s.coord.workers[j]? = some w
      ∧ w.lastStatus = lastShown (s.links j).shown)
    ∧ (s.links j).shown.Sublist (s.links j).node.statuses
    ∧ ∃ marks : List (Nat × Nat),
      List.Forall₂ (fun st m => st.nodeId = names j
        ∧ Tells (s.links j).node.processed m.1 m.2 st)
        (s.links j).shown marks
      ∧ marks.Pairwise fun m m' => m.1 ≤ m'.1 ∧ m.2 ≤ m'.2 := by
  have hi := clusterInv_reachable hr
  have hlen : j < s.coord.workers.length := by
    have hids := congrArg List.length hi.ids
    rw [List.length_map] at hids
    omega
  have hw : s.coord.workers[j]? = some s.coord.workers[j] :=
    List.getElem?_eq_getElem hlen
  obtain ⟨marks, hfits, hord, -⟩ := (hi.links j).got.polled
  exact ⟨⟨_, hw, hi.entries j _ hw⟩, (hi.links j).got.given, marks, hfits,
    hord⟩

/-- Worker 0 started and one sample of 90 processed, two pollers up; the
first call is served and given up, the second is answered, and then the
first one's answer comes. -/
def lateAnswer : List (ClusterAct ℚ) :=
  let work := List.map fun a => ClusterAct.link 0 (.work a)
  [List.replicate 4 .main,
    work ([[.start], controls 8, oneSample 90 0].flatten),
    [.link 0 .poll, .link 0 .poll, .link 0 (.deliver 0)],
    work [.status 0, .status 0],
    [.link 0 .expire, .link 0 .poll, .link 0 .poll, .link 0 .poll],
    work (oneSample 50 0),
    [.link 0 (.deliver 1)],
    work [.status 1, .status 1, .status 1, .status 0],
    [.link 0 .receive, .link 0 .poll]].flatten

/-- The ids the two workers give for themselves. -/
def workerName : Nat → String
  | 0 => "worker1"
  | _ => "worker2"

/-- The worker gave two answers, the second to a call nobody waits for;
what is shown and held is the first, and it has its marks. -/
theorem polled_in_order_late :
    ∃ s, exec (step id) lateAnswer
        (init ["worker1", "worker2"] workerName ⟨"", 0, 0⟩) = some s
      ∧ (s.links 0).node.statuses = [⟨"worker1", "RUNNING", 2, 70⟩,
        ⟨"worker1", "RUNNING", 1, 70⟩]
      ∧ (s.links 0).shown = [⟨"worker1", "RUNNING", 2, 70⟩]
      ∧ (∃ w, s.coord.workers[0]? = some w
        ∧ w.lastStatus = ⟨"worker1", "RUNNING", 2, 70⟩)
      ∧ (s.links 0).shown.Sublist (s.links 0).node.statuses
      ∧ ∃ marks : List (Nat × Nat),
        List.Forall₂ (fun st m => st.nodeId = "worker1"
          ∧ Tells (s.links 0).node.processed m.1 m.2 st)
          (s.links 0).shown marks
        ∧ marks.Pairwise fun m m' => m.1 ≤ m'.1 ∧ m.2 ≤ m'.2 := by
  have hrun : (exec (step id) lateAnswer
      (init ["worker1", "worker2"] workerName ⟨"", 0, 0⟩)).map
      (fun s => ((s.links 0).shown, (s.links 0).node.statuses)) = some
        ([⟨"worker1", "RUNNING", 2, 70⟩], [⟨"worker1", "RUNNING", 2, 70⟩,
          ⟨"worker1", "RUNNING", 1, 70⟩]) := by
    decide +kernel
  obtain ⟨s, hs, heq⟩ := Option.map_eq_some_iff.mp hrun
  obtain ⟨hshown, hgiven⟩ := Prod.mk.inj heq
  obtain ⟨⟨w, hw, hlast⟩, hsub, hmarks⟩ :=
    polled_in_order (reachable_of_exec hs) 0 (by decide)
  rw [hshown] at hlast
  exact ⟨s, hs, hgiven, hshown, ⟨w, hw, hlast⟩, hsub, hmarks⟩

end Cluster

end EdgeIpc.Sdn
