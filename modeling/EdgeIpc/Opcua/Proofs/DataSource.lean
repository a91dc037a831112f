/-
Is the pooled data source observationally equal to the copying one?

The copying build serialises, for each read, the node's value at that
read (`faithful_naive`). The pooled build hands out references to one
cell a node, which the next read of the node overwrites: what it
serialises is what the last read of the node found (`PoolInv.scalars`).
So the two agree on a serialisation exactly if the read it belongs to and
the node's last read found the same value (`Undisturbed`), and on a run
exactly if that holds at each of its serialisations (`pooled_equal_iff`).
A set alone does no harm: the cells are written by reads only.
-/
import EdgeIpc.Lib.Run
import EdgeIpc.Opcua.DataSource

namespace EdgeIpc.Opcua.Server

open Lib

variable {s t s' t' : Server} {a : ServerAct}

-- ============================================================== one step

theorem step_read {b : Build} (idx : CncNodeIdx) (now : Int) :
    step b (.read idx now) s = some { s with
      ds := (s.ds.read b idx now).1
      returned := s.returned ++ [(s.ds.read b idx now).2]
      reads := s.reads ++ [(idx, s.ds.gNodeValues idx)] } := rfl

-- ================================================================ the law

/-- Everything serialised for a read is the node's value at that
read. -/
def Faithful (s : Server) : Prop :=
  ∀ e ∈ s.sent, ∃ idx, s.reads[e.1]? = some (idx, e.2)

/-- The value the last read of a node found. -/
def lastRead (reads : List (CncNodeIdx × Float32Bits)) (idx : CncNodeIdx) :
    Option Float32Bits :=
  (reads.reverse.find? fun r => r.1 = idx).map Prod.snd

/-- What is serialised belongs to a read that found the same value as
the node's last one. -/
def Undisturbed (s : Server) (a : ServerAct) (_ : Server) : Prop :=
  match a with
  | .serialise n => ∀ r, s.reads[n]? = some r → lastRead s.reads r.1 = some r.2
  | _ => True

instance Undisturbed.decidable (s : Server) (a : ServerAct) (s' : Server) :
    Decidable (Undisturbed s a s') :=
  match a with
  | .set _ _ => .isTrue trivial
  | .read _ _ => .isTrue trivial
  | .serialise n =>
      match h : s.reads[n]? with
      | none => .isTrue fun r hr => by rw [h] at hr; cases hr
      | some r =>
          decidable_of_iff (lastRead s.reads r.1 = some r.2) <| by
            simp only [Undisturbed, h, Option.some.injEq, forall_eq']

theorem lastRead_append (reads : List (CncNodeIdx × Float32Bits))
    (idx i : CncNodeIdx) (v : Float32Bits) :
    lastRead (reads ++ [(idx, v)]) i
      = if i = idx then some v else lastRead reads i := by
  unfold lastRead
  rw [List.reverse_append, List.reverse_singleton, List.singleton_append,
    List.find?_cons]
  by_cases hi : i = idx
  · simp [hi]
  · simp [hi, Ne.symm hi]

theorem exists_lastRead {reads : List (CncNodeIdx × Float32Bits)}
    {r : CncNodeIdx × Float32Bits} (hr : r ∈ reads) :
    ∃ v, lastRead reads r.1 = some v := by
  unfold lastRead
  rw [← Option.isSome_iff_exists, Option.isSome_map, List.find?_isSome]
  exact ⟨r, List.mem_reverse.mpr hr, by simp⟩

/-- A serialisation adds one entry to be asked about. -/
theorem faithful_sent {e : Nat × Float32Bits} (hreads : s'.reads = s.reads)
    (hsent : s'.sent = s.sent ++ [e]) :
    Faithful s' ↔ Faithful s ∧ ∃ idx, s.reads[e.1]? = some (idx, e.2) := by
  unfold Faithful
  rw [hreads, hsent, List.forall_mem_append, List.forall_mem_singleton]

/-- A read adds no entry, and does not change what the earlier reads
found. -/
theorem faithful_read {r : CncNodeIdx × Float32Bits}
    (hnames : ∀ e ∈ s.sent, e.1 < s.reads.length)
    (hreads : s'.reads = s.reads ++ [r]) (hsent : s'.sent = s.sent) :
    Faithful s' ↔ Faithful s := by
  unfold Faithful
  rw [hsent]
  refine forall₂_congr fun e he => ?_
  rw [hreads, List.getElem?_append_left (hnames e he)]

/-- A set leaves both as they are. -/
theorem faithful_set (hreads : s'.reads = s.reads) (hsent : s'.sent = s.sent) :
    Faithful s' ↔ Faithful s := by
  unfold Faithful
  rw [hreads, hsent]

/-- What has been serialised is then determined by which reads it was
serialised for. -/
theorem Faithful.sent_eq (h : Faithful s) :
    s.sent = (s.sent.map Prod.fst).map
      fun n => (n, (s.reads[n]?.map Prod.snd).getD 0#32) := by
  rw [List.map_map]
  refine (List.map_id _).symm.trans (List.map_congr_left fun e he => ?_)
  obtain ⟨idx, hidx⟩ := h e he
  simp [hidx]

-- ================================================================ answers

/-- Each read has been answered, by a variant of the build's kind, and
only answers are serialised. -/
structure Answered (kind : CncNodeIdx × Float32Bits → Variant)
    (s : Server) : Prop where
  returned : s.returned.map DataValue.value = s.reads.map kind
  sent : ∀ e ∈ s.sent, e.1 < s.reads.length

variable {kind : CncNodeIdx × Float32Bits → Variant} {b : Build}

/-- A value handed out is of the build's kind. -/
theorem Answered.value (h : Answered kind s) {n : Nat}
    {dataValue : DataValue} (hn : s.returned[n]? = some dataValue) :
    ∃ r, s.reads[n]? = some r ∧ dataValue.value = kind r := by
  have hmap := congrArg (fun vs => vs[n]?) h.returned
  simp only [List.getElem?_map, hn, Option.map_some] at hmap
  obtain ⟨r, hr, hkind⟩ := Option.map_eq_some_iff.mp hmap.symm
  exact ⟨r, hr, hkind.symm⟩

/-- Each read has a value handed out for it. -/
theorem Answered.exists_returned (h : Answered kind s) {n : Nat}
    {r : CncNodeIdx × Float32Bits} (hr : s.reads[n]? = some r) :
    ∃ dataValue, s.returned[n]? = some dataValue := by
  have hmap := congrArg (fun vs => vs[n]?) h.returned
  simp only [List.getElem?_map, hr, Option.map_some] at hmap
  obtain ⟨dataValue, hn, -⟩ := Option.map_eq_some_iff.mp hmap
  exact ⟨dataValue, hn⟩

theorem answered_step (h : Answered kind s)
    (hkind : ∀ idx now, (s.ds.read b idx now).2.value
      = kind (idx, s.ds.gNodeValues idx))
    (hs : step b a s = some s') : Answered kind s' := by
  cases a with
  | set idx val =>
      injection hs with hs
      subst hs
      exact ⟨h.returned, h.sent⟩
  | read idx now =>
      rw [step_read] at hs
      injection hs with hs
      subst hs
      refine ⟨?_, fun e he => ?_⟩
      · rw [List.map_append, List.map_append, h.returned, List.map_singleton,
          List.map_singleton, hkind]
      · have := h.sent e he
        simp only [List.length_append]
        omega
  | serialise n =>
      obtain ⟨dataValue, hn, hs⟩ := Option.map_eq_some_iff.mp hs
      obtain ⟨r, hr, -⟩ := h.value hn
      obtain ⟨hlt, -⟩ := List.getElem?_eq_some_iff.mp hr
      subst hs
      refine ⟨h.returned, ?_⟩
      rw [List.forall_mem_append, List.forall_mem_singleton]
      exact ⟨h.sent, hlt⟩

-- ====================================================== the copying build

/-- A copy of what the read found. -/
def copied (r : CncNodeIdx × Float32Bits) : Variant := .data r.2

/-- The copying build serialises what the reads found. -/
theorem faithful_naive_step (h : Answered copied s) (hf : Faithful s)
    (hs : step .naive a s = some s') : Faithful s' := by
  cases a with
  | set idx val =>
      injection hs with hs
      exact (faithful_set (by rw [← hs]) (by rw [← hs])).mpr hf
  | read idx now =>
      rw [step_read] at hs
      injection hs with hs
      exact (faithful_read h.sent (by rw [← hs]) (by rw [← hs])).mpr hf
  | serialise n =>
      obtain ⟨dataValue, hn, hs⟩ := Option.map_eq_some_iff.mp hs
      obtain ⟨r, hr, hval⟩ := h.value hn
      refine (faithful_sent (by rw [← hs]) (by rw [← hs])).mpr ⟨hf, r.1, ?_⟩
      rw [hval]
      exact hr

-- ======================================================= the pooled build

/-- A reference to the node's cell. -/
def pooled (r : CncNodeIdx × Float32Bits) : Variant := .dataNoDelete r.1

/-- Each value handed out leads to its node's cell, which holds what the
node's last read found. -/
structure PoolInv (t : Server) : Prop where
  variants : t.ds.nodeVariants = .dataNoDelete
  answered : Answered pooled t
  scalars : ∀ idx v, lastRead t.reads idx = some v →
    t.ds.variantScalars idx = v

theorem poolInv_step (h : PoolInv t) (hs : step .optimised a t = some t') :
    PoolInv t' := by
  have ha : Answered pooled t' := by
    refine answered_step h.answered (fun idx now => ?_) hs
    exact congrFun h.variants idx
  cases a with
  | set idx val =>
      injection hs with hs
      subst hs
      exact ⟨h.variants, ha, h.scalars⟩
  | read idx now =>
      rw [step_read] at hs
      injection hs with hs
      subst hs
      refine ⟨h.variants, ha, fun i v hi => ?_⟩
      rw [lastRead_append] at hi
      simp only [DataSource.read, DataSource.cncReadCallbackOpt]
      split at hi
      next heq =>
          injection hi with hi
          rw [if_pos heq, hi]
      next hne =>
          rw [if_neg hne]
          exact h.scalars i v hi
  | serialise n =>
      obtain ⟨dataValue, -, hs⟩ := Option.map_eq_some_iff.mp hs
      subst hs
      exact ⟨h.variants, ha, h.scalars⟩

/-- Its node's cell holds what the read found exactly if the node's last
read found the same. -/
theorem PoolInv.scalar_eq (h : PoolInv t) {n : Nat}
    {r : CncNodeIdx × Float32Bits} (hr : t.reads[n]? = some r) :
    t.ds.variantScalars r.1 = r.2 ↔ lastRead t.reads r.1 = some r.2 := by
  obtain ⟨v, hv⟩ := exists_lastRead (List.mem_of_getElem? hr)
  rw [h.scalars r.1 v hv, hv, Option.some.injEq]

/-- The pooled build stays faithful at a step exactly if the step is
undisturbed. -/
theorem faithful_optimised_step (h : PoolInv t)
    (hs : step .optimised a t = some t') :
    Faithful t' ↔ Faithful t ∧ Undisturbed t a t' := by
  cases a with
  | set idx val =>
      injection hs with hs
      rw [faithful_set (s := t) (by rw [← hs]) (by rw [← hs])]
      exact (and_iff_left trivial).symm
  | read idx now =>
      rw [step_read] at hs
      injection hs with hs
      rw [faithful_read h.answered.sent (by rw [← hs]) (by rw [← hs])]
      exact (and_iff_left trivial).symm
  | serialise n =>
      obtain ⟨dataValue, hn, hs⟩ := Option.map_eq_some_iff.mp hs
      obtain ⟨r, hr, hval⟩ := h.answered.value hn
      rw [faithful_sent (s := t) (by rw [← hs]) (by rw [← hs])]
      refine and_congr_right fun _ => ?_
      simp only [hval, hr, pooled, DataSource.deref, Undisturbed,
        Option.some.injEq, forall_eq', ← h.scalar_eq hr]
      constructor
      · rintro ⟨idx, heq⟩
        exact (congrArg Prod.snd heq).symm
      · intro heq
        exact ⟨r.1, by rw [heq]⟩

-- =============================================================== lockstep

/-- The two builds side by side: whatever they hand out, they have the
node values in common, the reads, and which of these have been
serialised. -/
structure Twin (s t : Server) : Prop where
  copying : Answered copied s
  pooling : PoolInv t
  faithful : Faithful s
  values : s.ds.gNodeValues = t.ds.gNodeValues
  reads : s.reads = t.reads
  serialised : s.sent.map Prod.fst = t.sent.map Prod.fst

theorem twin_init : Twin init init where
  copying := ⟨rfl, nofun⟩
  pooling := ⟨rfl, ⟨rfl, nofun⟩, nofun⟩
  faithful := nofun
  values := rfl
  reads := rfl
  serialised := rfl

theorem twin_step (h : Twin s t) (hs : step .naive a s = some s') :
    ∃ t', step .optimised a t = some t' ∧ Twin s' t' := by
  have hcopy : Answered copied s' := answered_step h.copying (fun _ _ => rfl) hs
  have hf : Faithful s' := faithful_naive_step h.copying h.faithful hs
  cases a with
  | set idx val =>
      injection hs with hs
      have ht : step .optimised (.set idx val) t = some { t with
          ds := t.ds.set idx val } := rfl
      refine ⟨_, ht, hcopy, poolInv_step h.pooling ht, hf, ?_, ?_, ?_⟩
      · rw [← hs]
        simp only [DataSource.set, h.values]
      · rw [← hs]
        exact h.reads
      · rw [← hs]
        exact h.serialised
  | read idx now =>
      rw [step_read] at hs
      injection hs with hs
      have ht := step_read (s := t) (b := .optimised) idx now
      refine ⟨_, ht, hcopy, poolInv_step h.pooling ht, hf, ?_, ?_, ?_⟩
      · rw [← hs]
        exact h.values
      · rw [← hs, h.reads, h.values]
      · rw [← hs]
        exact h.serialised
  | serialise n =>
      obtain ⟨dataValue, hn, hs⟩ := Option.map_eq_some_iff.mp hs
      obtain ⟨r, hr, -⟩ := h.copying.value hn
      rw [h.reads] at hr
      obtain ⟨dataValue', hn'⟩ := h.pooling.answered.exists_returned hr
      have ht : step .optimised (.serialise n) t = some { t with
          sent := t.sent ++ [(n, t.ds.deref dataValue'.value)] } := by
        simp only [step, hn', Option.map_some]
      refine ⟨_, ht, hcopy, poolInv_step h.pooling ht, hf, ?_, ?_, ?_⟩
      · rw [← hs]
        exact h.values
      · rw [← hs]
        exact h.reads
      · rw [← hs]
        simp [h.serialised]

/-- Side by side, the pooled build serialises the same exactly if it is
faithful. -/
theorem Twin.sent_eq_iff (h : Twin s t) : t.sent = s.sent ↔ Faithful t := by
  constructor
  · intro heq
    exact (faithful_set h.reads.symm heq).mpr h.faithful
  · intro hf
    rw [hf.sent_eq, h.faithful.sent_eq, h.serialised, h.reads]

/-- When is the pooled data source observationally equal to the copying
one? For every sequence of sets, reads and later serialisations that the
copying build can make: the pooled build can make it too, the copying one
serialises for each read the node's value at the read, and the pooled one
serialises the same exactly if at each serialisation the node's last read
had found the same value as the read that is serialised. -/
theorem pooled_equal_iff (as : List ServerAct)
    (hs : exec (step .naive) as init = some s) :
    ∃ t, exec (step .optimised) as init = some t ∧ Faithful s
      ∧ (t.sent = s.sent ∧ Faithful t
        ↔ AllSteps (step .optimised) Undisturbed as init) := by
  obtain ⟨t, ht, htwin⟩ := exec_lockstep twin_step twin_init hs
  refine ⟨t, ht, htwin.faithful, ?_⟩
  have hinit : Faithful init := nofun
  have hrun : Faithful t ↔ Faithful init
      ∧ AllSteps (step .optimised) Undisturbed as init :=
    exec_iff_allSteps (fun hi hstep =>
      ⟨poolInv_step hi hstep, faithful_optimised_step hi hstep⟩)
      twin_init.pooling ht
  rw [htwin.sent_eq_iff, and_self_iff, hrun]
  exact and_iff_right hinit

/-- A request that reads a node twice with no update in between, answered
in the reverse order. -/
def rereadRun : List ServerAct :=
  [.set .axisX 1#32, .read .axisX 0, .read .axisX 1, .set .axisX 2#32,
    .serialise 1, .serialise 0]

theorem pooled_equal_reread :
    ∃ t, exec (step .optimised) rereadRun init = some t
      ∧ t.sent = [(1, 1#32), (0, 1#32)] := by
  obtain ⟨t, ht, -, hiff⟩ := pooled_equal_iff rereadRun rfl
  have hok : AllSteps (step .optimised) Undisturbed rereadRun init := by
    decide
  exact ⟨t, ht, (hiff.mpr hok).1⟩

/-- A request that names a node twice, with an update between its two
reads: the pooled build answers both with the second value. -/
def twiceRun : List ServerAct :=
  [.set .axisX 1#32, .read .axisX 0, .set .axisX 2#32, .read .axisX 1,
    .serialise 0, .serialise 1]

theorem pooled_reads_second_value :
    (exec (step .naive) twiceRun init).map Server.sent
        = some [(0, 1#32), (1, 2#32)]
      ∧ (exec (step .optimised) twiceRun init).map Server.sent
        = some [(0, 2#32), (1, 2#32)] := by
  decide

end EdgeIpc.Opcua.Server
