import PocketKv.Replication.Served

/-!
# The stream that a served replica receives
-/

namespace PocketKv.Replication

open Library Resp Persistence List

/-! ### Segments of the stream -/

section Segments

variable {α : Type*} {xs ys s : List α} {i : ℕ}

lemma prefix_drop_append (h : xs <+: s.drop i) (ys : List α) : xs <+: (s ++ ys).drop i := by
  rw [drop_append]
  exact h.trans (prefix_append _ _)

lemma append_prefix_drop (hx : xs <+: s.drop i) (hy : ys <+: s.drop (i + xs.length)) : xs ++ ys <+: s.drop i := by
  obtain ⟨rest, hrest⟩ := hx
  rw [← drop_drop, ← hrest, drop_left] at hy
  rw [← hrest]
  exact (prefix_append_right_inj xs).mpr hy

end Segments

/-- The node is a piece of the stream. -/
structure Segment (stream : Bytes) (n : FwdNode) : Prop where
  le : n.buf.length ≤ n.endOffset
  bytes : n.buf <+: stream.drop (n.endOffset - n.buf.length)

variable {n : FwdNode} {raw stream : Bytes} {counted : Bool} {H : History}

lemma Segment.append (h : Segment stream n) (raw : Bytes) : Segment (stream ++ raw) n :=
  ⟨h.le, prefix_drop_append h.bytes raw⟩

lemma Segment.start_eq (h : Segment stream n) : n.start = n.endOffset - n.buf.length := by
  unfold FwdNode.start
  have := h.le
  split <;> omega

lemma Segment.drop (h : Segment stream n) (w : ℕ) : n.buf.drop (w - n.start) <+: stream.drop (max n.start w) := by
  have hdrop := h.bytes.drop (w - n.start)
  rw [drop_drop, ← h.start_eq, show n.start + (w - n.start) = max n.start w by omega] at hdrop
  exact hdrop

/-! ### The out ring -/

@[simp] lemma ofStream_append (xs ys : OutRing) : ofStream (xs ++ ys) = ofStream xs ++ ofStream ys :=
  filterMap_append

@[simp] lemma ofStream_map_some (bs : Bytes) : ofStream (bs.map some) = bs := by
  change (bs.map some).filterMap id = bs
  simp

@[simp] lemma ofStream_map_none (bs : Bytes) : ofStream (bs.map fun _ => none) = [] := by
  change (bs.map fun _ => none).filterMap id = []
  simp

@[simp] lemma ofStream_replicate_none (n : ℕ) : ofStream (List.replicate n none) = [] := by
  change (List.replicate n none).filterMap id = []
  simp

lemma ofStream_prefix {xs ys : OutRing} (h : xs <+: ys) : ofStream xs <+: ofStream ys := h.filterMap id

lemma sendContinue_spec (h : H.Ok) {replid : Bytes} {off : ℕ} (hcan : H.canContinue replid off = true)
    (ring : OutRing) :
    ∃ sent, sent <+: H.stream.drop off ∧ ofStream (sendContinue H off H.offset ring) = ofStream ring ++ sent := by
  obtain ⟨sent, hsent, hring⟩ := (h.queued_sendContinueUpto hcan (fun _ => none) some ring).sent
  have hprefix := ofStream_prefix hsent
  rw [ofStream_append, ofStream_map_none, ofStream_map_some, nil_append] at hprefix
  exact ⟨ofStream sent, hprefix, by rw [sendContinue, hring, ofStream_append]⟩

/-! ### The thread's buffer -/

lemma appendNode_spec (n : FwdNode) (st : Option SendState) :
    (appendNode n st).buf = (st.getD {}).buf ++
        (if (st.getD {}).takes n then n.buf.drop ((st.getD {}).watermark - n.start) else []) ∧
      (appendNode n st).watermark = if (st.getD {}).takes n then n.endOffset else (st.getD {}).watermark := by
  unfold appendNode
  generalize st.getD {} = st
  unfold SendState.takes replFwdAppend
  have hcovered : (if n.start < st.watermark then st.watermark - n.start else 0) = st.watermark - n.start := by
    split <;> omega
  simp only [hcovered]
  cases hdropped : st.dropped with
  | true => simp
  | false =>
    cases hstalled : st.stalled with
    | true => simp
    | false =>
      rcases eq_or_ne n.buf [] with hnil | hne
      · simp [hnil]
      simp only [hne, Bool.or_self, Bool.false_eq_true, decide_false, if_false, Bool.not_false, Bool.true_and,
        Bool.and_eq_true, decide_eq_true_eq]
      by_cases hend : n.endOffset ≤ st.watermark
      · rw [if_pos hend, if_neg (by omega), if_neg (by omega), append_nil]
        exact ⟨rfl, rfl⟩
      rw [if_neg hend]
      by_cases hlen : n.buf.length ≤ st.watermark - n.start
      · rw [if_pos hlen, if_neg (by omega), if_neg (by omega), append_nil]
        exact ⟨rfl, rfl⟩
      rw [if_neg hlen]
      by_cases hroom : maxFwdSendBufBytes < st.buf.length + (n.buf.length - (st.watermark - n.start))
      · rw [if_pos hroom, if_neg (by omega), if_neg (by omega), append_nil]
        exact ⟨rfl, rfl⟩
      · have htakes : (st.watermark < n.endOffset ∧ st.watermark - n.start < n.buf.length) ∧
            st.buf.length + (n.buf.length - (st.watermark - n.start)) ≤ maxFwdSendBufBytes := by omega
        rw [if_neg hroom, if_pos htakes, if_pos htakes]
        exact ⟨rfl, rfl⟩

lemma dropped_appendNode (n : FwdNode) (st : Option SendState) :
    (appendNode n st).dropped = (st.getD {}).dropped := by
  unfold appendNode
  dsimp only
  split
  · rfl
  · exact dropped_replFwdAppend _ _ _ _

lemma replFwdAppend_watermark {st : SendState} {bytes : Bytes} (hdropped : st.dropped = false)
    (hstalled : st.stalled = false) (hne : bytes ≠ []) :
    ∃ added, (replFwdAppend bytes st.watermark (st.watermark + bytes.length) st).buf = st.buf ++ added ∧
      (replFwdAppend bytes st.watermark (st.watermark + bytes.length) st).watermark = st.watermark + added.length ∧
      (added = [] ∨ added = bytes ∧ st.buf.length + bytes.length ≤ maxFwdSendBufBytes) := by
  have hpos := length_pos_of_ne_nil hne
  simp only [replFwdAppend, hdropped, hstalled, hne, Bool.or_self, Bool.false_eq_true, decide_false, if_false,
    lt_self_iff_false, Nat.sub_zero, drop_zero]
  rw [if_neg (by omega), if_neg (by omega)]
  split
  · exact ⟨[], by simp, rfl, .inl rfl⟩
  · exact ⟨bytes, rfl, rfl, .inr ⟨rfl, by omega⟩⟩

lemma replFwdRefill_spec {B : ReplBacklog} (hB : B.Ok) (inProgress : Bool) (st : SendState) :
    ∃ added, (replFwdRefill inProgress B st).buf = st.buf ++ added ∧
      (replFwdRefill inProgress B st).watermark = st.watermark + added.length ∧
      (replFwdRefill inProgress B st).dropped = st.dropped ∧
      (added = [] ∨ st.refills inProgress B = true ∧ B.copyRange st.watermark = some added) := by
  unfold replFwdRefill
  split
  · exact ⟨[], by simp, rfl, rfl, .inl rfl⟩
  rename_i hdropped
  split
  · exact ⟨[], by simp, rfl, rfl, .inl rfl⟩
  rename_i hprogress
  -- from here on the state differs in the flag only
  generalize hst' : (if (st.stalled && decide (st.buf.length < maxFwdSendBufBytes / 2)) = true then
    { st with stalled := false } else st) = st'
  have hsame : st'.buf = st.buf ∧ st'.watermark = st.watermark ∧ st'.dropped = st.dropped := by
    rw [← hst']
    split <;> exact ⟨rfl, rfl, rfl⟩
  have hunstalled : st'.stalled = false → st.stalled = false ∨ st.buf.length < maxFwdSendBufBytes / 2 := by
    rw [← hst']
    split
    · rename_i h
      simp only [Bool.and_eq_true, decide_eq_true_eq] at h
      exact fun _ => .inr h.2
    · exact .inl
  obtain ⟨hbuf, hwm, hdrop⟩ := hsame
  have hnothing : ∃ added, st'.buf = st.buf ++ added ∧ st'.watermark = st.watermark + added.length ∧
      st'.dropped = st.dropped ∧
      (added = [] ∨ st.refills inProgress B = true ∧ B.copyRange st.watermark = some added) :=
    ⟨[], by simp [hbuf], hwm, hdrop, .inl rfl⟩
  dsimp only
  split
  · exact hnothing
  rename_i hstalled
  split
  · exact hnothing
  split
  · exact hnothing
  rename_i hend
  split
  · exact hnothing
  rename_i bytes hcopy
  split
  · exact hnothing
  rename_i hne
  obtain ⟨added, hadded, hwater, hcases⟩ :=
    replFwdAppend_watermark (hdrop.trans (by simpa using hdropped)) (by simpa using hstalled) hne
  rw [hbuf] at hadded hcases
  refine ⟨added, hadded, by rw [hwater, hwm], by rw [dropped_replFwdAppend, hdrop], ?_⟩
  rcases hcases with hnil | ⟨rfl, hroom⟩
  · exact .inl hnil
  · obtain ⟨hstart, hlen, -⟩ := ReplBacklog.copyRange_eq hB hcopy
    have hring := ReplBacklog.isSome_ring_of_copyRange hcopy
    rw [hwm] at hcopy hstart hlen hend
    refine .inr ⟨?_, hcopy⟩
    have hflag := hunstalled (by simpa using hstalled)
    simp only [SendState.refills, Bool.and_eq_true, Bool.or_eq_true, Bool.not_eq_true', decide_eq_true_eq, hring]
    exact ⟨⟨⟨⟨⟨⟨by simpa using hdropped, by simpa using hprogress⟩, hflag⟩, trivial⟩, hstart⟩, by omega⟩, by omega⟩

lemma watermark_replFwdDrainSend (inProgress : Bool) (rs : List WriteResult) (st : SendState) :
    (replFwdDrainSend inProgress rs st).1.watermark = st.watermark := by
  unfold replFwdDrainSend
  repeat' split
  all_goals rfl

lemma Served.drain_spec (S : Served) (rs : List WriteResult) (hstate : ∀ st ∈ S.state, st.dropped = false) :
    ∃ rest, S.buffer = (drainState S.inProgress rs S.state).2.1 ++ rest ∧
      (S.fails rs = false → ((drainState S.inProgress rs S.state).1.getD {}).buf = rest) ∧
      (S.inProgress = true → (drainState S.inProgress rs S.state).2.1 = []) := by
  unfold Served.buffer Served.fails drainState
  cases hst : S.state with
  | none => exact ⟨[], rfl, fun _ => rfl, fun _ => rfl⟩
  | some st =>
    have hdropped := hstate st hst
    simp only [Option.getD_some]
    unfold replFwdDrainSend
    split
    · exact ⟨st.buf, rfl, fun _ => rfl, fun _ => rfl⟩
    rename_i hne
    split
    · exact ⟨st.buf, rfl, fun _ => rfl, fun _ => rfl⟩
    rename_i hprogress
    rw [if_neg (by simp [hdropped])]
    have hwrite := writeLoop_append rs st.buf
    split
    · rename_i written rest heq
      rw [heq] at hwrite
      exact ⟨rest, hwrite.symm, fun _ => rfl, fun h => absurd h hprogress⟩
    · rename_i written rest heq
      rw [heq] at hwrite
      refine ⟨rest, hwrite.symm, fun hfails => ?_, fun h => absurd h hprogress⟩
      simp [hne, hprogress, hdropped, heq] at hfails

lemma Served.watermark_drain (S : Served) (rs : List WriteResult) : (S.drain rs).watermark = S.watermark := by
  unfold Served.watermark Served.drain
  cases hst : S.state with
  | none => rfl
  | some st => simp [drainState, watermark_replFwdDrainSend, dropped_replFwdDrainSend]

lemma Served.dropped_drain {S : Served} (hstate : ∀ st ∈ S.state, st.dropped = false) (rs : List WriteResult) :
    ∀ st ∈ (S.drain rs).state, st.dropped = false := by
  unfold Served.drain
  cases hst : S.state with
  | none => nofun
  | some st =>
    intro st' hst'
    have heq : (replFwdDrainSend S.inProgress (if S.broken then [.failed] else rs) st).1 = st' := Option.some.inj hst'
    rw [← heq, dropped_replFwdDrainSend, hstate st hst]

lemma drainState_failed (inProgress : Bool) (st : Option SendState) :
    (drainState inProgress [.failed] st).2.1 = [] := by
  unfold drainState
  cases st with
  | none => rfl
  | some st =>
    dsimp only
    unfold replFwdDrainSend
    repeat' split
    all_goals simp_all [writeLoop]

/-! ### The history -/

namespace History

lemma UpToDate.write (h : H.UpToDate) (hok : H.Ok) (hne : H.replicas ≠ [])
    (hraw : raw ≠ []) (hlen : raw.length ≤ inbufCap) (alloc : Bool) : (H.step (.write raw alloc)).UpToDate := by
  have hsmall : raw.length < replBacklogSize := by
    unfold inbufCap at hlen
    unfold replBacklogSize
    omega
  have hput : ∀ (r : RingBuffer UInt8) (B : ReplBacklog), r.cap = replBacklogSize → B.contiguous = true →
      B.endOffset = H.offset → (B.put r raw).contiguous = true ∧ (B.put r raw).endOffset = H.offset + raw.length := by
    intro r B hcap hcont hend
    unfold ReplBacklog.put
    rw [if_neg (by omega)]
    exact ⟨hcont, by rw [← hend]⟩
  have hreplicas : (!H.replicas.isEmpty) = true := by simp [hne]
  suffices hfeed : (H.backlog.feed true alloc H.offset raw).contiguous = true ∧
      ((H.backlog.feed true alloc H.offset raw).ring.isSome = true →
        (H.backlog.feed true alloc H.offset raw).endOffset = H.offset + raw.length) by
    simp only [History.step, hreplicas]
    exact ⟨hfeed.1, hfeed.2⟩
  unfold ReplBacklog.feed
  rw [if_neg hraw, if_neg (by simp)]
  unfold ReplBacklog.ensure
  cases hring : H.backlog.ring with
  | some r =>
    obtain ⟨hcont, hend⟩ := hput r H.backlog (hok.backlog.ring r hring).2 h.contiguous
      (h.endOffset (by rw [hring]; rfl))
    exact ⟨hcont, fun _ => hend⟩
  | none =>
    cases alloc with
    | true =>
      obtain ⟨hcont, hend⟩ := hput ReplBacklog.newRing
        { H.backlog with ring := some ReplBacklog.newRing, startOffset := H.offset, endOffset := H.offset }
        rfl h.contiguous rfl
      exact ⟨hcont, fun _ => hend⟩
    | false => exact ⟨h.contiguous, fun hsome => by simp [hring] at hsome⟩

lemma attach_eq (H : History) (c : ℕ) :
    ∃ rs, c ∈ rs ∧ H.replicas ⊆ rs ∧ H.step (.attach c) = { H with replicas := rs } := by
  unfold History.step
  dsimp only
  split
  · exact ⟨_, ‹_›, List.Subset.refl _, rfl⟩
  · exact ⟨_, mem_cons_self, subset_cons_self _ _, rfl⟩

lemma UpToDate.fullsync (H : History) : (H.step .fullsync).UpToDate := ⟨rfl, fun _ => rfl⟩

end History

/-! ### The invariant -/

/-- What was sent, and what will be sent before anything that is handed over from now on. -/
def Served.inFlight (S : Served) : Bytes := S.delivered ++ S.ringBytes ++ S.buffer

/-- The connection is served, and what is on its way follows what it was synchronised to. -/
structure Serving (H : History) (queue : List (FwdNode × Bool)) (flight : Bytes) (handedTo b : ℕ) : Prop where
  attached : 0 ∈ H.replicas
  upToDate : H.UpToDate
  nodes : ∀ x ∈ queue, x.2 = true → Segment H.stream x.1
  inFlight : flight <+: H.stream.drop b
  handed : b + flight.length = handedTo

/-- The invariant of the runs. -/
structure Served.Sound (S : Served) : Prop where
  history : S.history.Ok
  job : ∀ raw, S.job = some (raw, true) → Segment S.history.stream ⟨raw, S.history.offset⟩
  draining : S.draining = true → S.broken = true
  state : ∀ st ∈ S.state, st.dropped = false
  serving : ∀ b ∈ S.base, S.broken = false → Serving S.history S.queue S.inFlight S.handedTo b
  delivered : ∀ b ∈ S.base, S.delivered <+: S.history.stream.drop b

namespace Serving

variable {queue : List (FwdNode × Bool)} {flight : Bytes} {handed b : ℕ}

variable (h : Serving H queue flight handed b)
include h

lemma write (hok : H.Ok) (hraw : raw ≠ [])
    (hlen : raw.length ≤ inbufCap) (alloc : Bool) : Serving (H.step (.write raw alloc)) queue flight handed b where
  attached := h.attached
  upToDate := h.upToDate.write hok (ne_nil_of_mem h.attached) hraw hlen alloc
  nodes x hx hcounted := (h.nodes x hx hcounted).append raw
  inFlight := prefix_drop_append h.inFlight raw
  handed := h.handed

lemma attach (c : ℕ) : Serving (H.step (.attach c)) queue flight handed b := by
  obtain ⟨rs, -, hsub, heq⟩ := H.attach_eq c
  rw [heq]
  exact ⟨hsub h.attached, ⟨h.upToDate.1, h.upToDate.2⟩, h.nodes, h.inFlight, h.handed⟩

lemma detach (c : ℕ) : Serving (H.step (.detach (c + 1))) queue flight handed b :=
  ⟨(mem_erase_of_ne (by omega)).mpr h.attached, ⟨h.upToDate.1, h.upToDate.2⟩, h.nodes, h.inFlight, h.handed⟩

lemma fullsync : Serving (H.step .fullsync) queue flight handed b :=
  ⟨h.attached, .fullsync H, h.nodes, h.inFlight, h.handed⟩

lemma enqueue
    (hn : counted = true → Segment H.stream n) : Serving H (queue ++ [(n, counted)]) flight handed b := by
  refine ⟨h.attached, h.upToDate, fun x hx => ?_, h.inFlight, h.handed⟩
  rcases mem_append.mp hx with hx | hx
  · exact h.nodes x hx
  · rw [mem_singleton.mp hx]
    exact hn

lemma extend {queue' : List (FwdNode × Bool)} (hqueue : queue' ⊆ queue)
    {added : Bytes} (hadded : added <+: H.stream.drop handed) :
    Serving H queue' (flight ++ added) (handed + added.length) b where
  attached := h.attached
  upToDate := h.upToDate
  nodes x hx := h.nodes x (hqueue hx)
  inFlight := append_prefix_drop h.inFlight (by rwa [h.handed])
  handed := by rw [length_append, ← Nat.add_assoc, h.handed]

end Serving

namespace Served.Sound

variable {S : Served}

lemma start (masterId : Bytes) (kind : TransportKind) : (Served.start masterId kind).Sound :=
  ⟨History.ok_start masterId, nofun, nofun, nofun, nofun, nofun⟩

/-! ### The steps of the reactor -/

variable (h : S.Sound)
include h

lemma write (hraw : raw ≠ []) (hlen : raw.length ≤ inbufCap) (alloc : Bool) :
    (S.step (.write raw alloc)).Sound where
  history := h.history.step (.write raw alloc)
  job raw' hjob := by
    cases hjob
    refine ⟨Nat.le_add_left _ _, ?_⟩
    show raw <+: (S.history.stream ++ raw).drop (S.history.offset + raw.length - raw.length)
    rw [Nat.add_sub_cancel, h.history.offset, drop_left]
  draining := h.draining
  state := h.state
  serving b hb hlive := (h.serving b hb hlive).write h.history hraw hlen alloc
  delivered b hb := prefix_drop_append (h.delivered b hb) raw

lemma record (i : History.Input) (hstream : (S.history.step i).stream = S.history.stream)
    (hoffset : (S.history.step i).offset = S.history.offset)
    (hserving : ∀ {queue inFlight handed b}, Serving S.history queue inFlight handed b →
      Serving (S.history.step i) queue inFlight handed b) : (S.record i).Sound where
  history := h.history.step i
  job raw hjob := by
    rw [show (S.record i).history = S.history.step i from rfl, hstream, hoffset]
    exact h.job raw hjob
  draining := h.draining
  state := h.state
  serving b hb hlive := hserving (h.serving b hb hlive)
  delivered b hb := by
    rw [show (S.record i).history = S.history.step i from rfl, hstream]
    exact h.delivered b hb

lemma attach (c : ℕ) : (S.record (.attach c)).Sound := by
  obtain ⟨rs, -, -, heq⟩ := S.history.attach_eq c
  exact h.record _ (by rw [heq]) (by rw [heq]) (·.attach c)

lemma setProgress (flag : Bool) : Served.Sound { S with inProgress := flag } :=
  { h with }

lemma setPending (flag : Bool) : Served.Sound { S with fullsyncPending := flag } :=
  { h with }

lemma broken : Served.Sound { S with broken := true } :=
  ⟨h.history, h.job, fun _ => rfl, h.state, nofun, h.delivered⟩

lemma reject : S.reject.Sound :=
  ⟨h.history, h.job, fun _ => rfl, h.state, nofun, h.delivered⟩

lemma enqueue
    (hn : ∀ b ∈ S.base, S.broken = false → counted = true → Segment S.history.stream n) :
    (S.enqueue n counted).Sound :=
  ⟨h.history, h.job, h.draining, h.state, fun b hb hlive => (h.serving b hb hlive).enqueue (hn b hb hlive), h.delivered⟩

lemma visitWith
    (hraw : counted = true → Segment S.history.stream ⟨raw, S.history.offset⟩) : (S.visitWith raw counted).Sound := by
  unfold Served.visitWith
  split
  · rcases broadcastTo_cases S.inProgress S.history.offset raw
        { kind := S.kind, draining := S.draining, fullsyncPending := S.fullsyncPending, stalled := S.stalled } with
      ⟨hdraining, hnone⟩ | ⟨-, hsame | hmore⟩
    · rw [hnone]
      have hbroken := h.draining hdraining
      refine ⟨h.history.step (.detach 0), h.job, h.draining, h.state, fun b hb hlive => ?_, h.delivered⟩
      exact absurd hlive (by rw [show (S.record (.detach 0)).broken = S.broken from rfl, hbroken]; nofun)
    · rw [hsame]
      dsimp only
      rw [map_nil, append_nil]
      exact h
    · rw [hmore]
      exact h.enqueue fun _ _ _ => hraw
  · exact h

lemma visit : (S.step .visit).Sound := by
  unfold Served.step
  dsimp only
  split
  · exact h
  rename_i raw counted hjob
  have hidle : Served.Sound { S with job := none } := ⟨h.history, nofun, h.draining, h.state, h.serving, h.delivered⟩
  refine hidle.visitWith fun hcounted => ?_
  rw [hcounted] at hjob
  exact h.job raw hjob

lemma addSlave (pending : Bool) : (S.addSlave pending).Sound := by
  have hattach := h.attach 0
  exact ⟨hattach.history, hattach.job, nofun, hattach.state, hattach.serving, hattach.delivered⟩

end Served.Sound

/-- Nothing waits to be sent on the connection, and nothing was forwarded beyond the offset. -/
structure Served.Quiet (S : Served) (off : ℕ) : Prop where
  ring : S.ringBytes = []
  buffer : S.buffer = []
  queue : S.queue = []
  watermark : S.watermark ≤ off

namespace Served.Sound

variable {S : Served}

variable (h : S.Sound)
include h

lemma resume {replid : Bytes} {off : ℕ} (hcan : S.history.canContinue replid off = true)
    (hattached : 0 ∈ S.history.replicas) (hquiet : S.Quiet off) : (S.resume off).Sound := by
  obtain ⟨sent, hsent, hring⟩ := sendContinue_spec h.history hcan S.outRing
  rw [show ofStream S.outRing = [] from hquiet.ring, nil_append] at hring
  have hflight : (S.resume off).inFlight = sent := by
    show [] ++ ofStream (sendContinue S.history off S.history.offset S.outRing) ++ S.buffer = sent
    rw [hring, hquiet.buffer, nil_append, append_nil]
  have hsynced : (S.resume off).syncedTo = off + sent.length := by
    show off + ((ofStream (sendContinue S.history off S.history.offset S.outRing)).length -
      (ofStream S.outRing).length) = _
    rw [hring, show ofStream S.outRing = [] from hquiet.ring, length_nil, Nat.sub_zero]
  refine ⟨h.history, h.job, h.draining, h.state, fun b hb _ => ?_, fun b hb => nil_prefix⟩
  obtain rfl : off = b := Option.some.inj hb
  refine ⟨hattached, (h.history.upToDate_of_canContinue hcan).1, fun x hx => ?_, by rwa [hflight], ?_⟩
  · rw [show (S.resume off).queue = S.queue from rfl, hquiet.queue] at hx
    cases hx
  · have hwater : (S.resume off).watermark ≤ off := hquiet.watermark
    unfold Served.handedTo
    rw [hflight, hsynced]
    omega

lemma sendSnapshot (hattached : 0 ∈ S.history.replicas) (hquiet : S.Quiet S.history.offset)
    (snapshot : Bool) : (S.sendSnapshot snapshot).Sound := by
  have hreset := (h.record .fullsync rfl rfl (·.fullsync)).setProgress true
  unfold Served.sendSnapshot
  split
  · refine ⟨hreset.history, hreset.job, hreset.draining, hreset.state, fun b hb _ => ?_, fun b hb => nil_prefix⟩
    obtain rfl : S.history.offset = b := Option.some.inj hb
    have hflight : [] ++ S.ringBytes ++ S.buffer = [] := by rw [hquiet.ring, hquiet.buffer]; rfl
    refine ⟨hattached, .fullsync S.history, fun x hx => ?_, ?_, ?_⟩
    · have hx : x ∈ S.queue := hx
      rw [hquiet.queue] at hx
      cases hx
    · show [] ++ S.ringBytes ++ S.buffer <+: _
      rw [hflight]
      exact nil_prefix
    · show S.history.offset + ([] ++ S.ringBytes ++ S.buffer).length = max S.watermark S.history.offset
      rw [hflight, max_eq_right hquiet.watermark]
      rfl
  · exact hreset.reject

lemma replsync (asked : Option (Bytes × ℕ)) (barrier snapshot : Bool)
    (hturn : S.inTurn (.replsync asked barrier snapshot) = true) : (S.replsync asked barrier snapshot).Sound := by
  unfold Served.replsync
  split
  · exact h.reject
  rename_i hbarrier
  have hempty : S.ringBytes = [] ∧ S.buffer = [] ∧ S.queue = [] ∧
      S.watermark ≤ (S.continuesFrom asked).getD S.history.offset := by
    simpa [Served.inTurn, hbarrier, and_assoc] using hturn
  have hquiet : ∀ pending, (S.addSlave pending).Quiet ((S.continuesFrom asked).getD S.history.offset) :=
    fun _ => ⟨hempty.1, hempty.2.1, hempty.2.2.1, hempty.2.2.2⟩
  obtain ⟨rs, hmem, -, heq⟩ := S.history.attach_eq 0
  have hhistory (pending : Bool) : (S.addSlave pending).history = { S.history with replicas := rs } := heq
  have hattached (pending : Bool) : 0 ∈ (S.addSlave pending).history.replicas := by
    rw [hhistory]
    exact hmem
  split
  · rename_i off hoff
    rw [hoff] at hquiet
    unfold Served.continuesFrom at hoff
    split at hoff
    · cases hoff
    · split at hoff
      · rename_i replid off' hcan
        obtain rfl : off' = off := Option.some.inj hoff
        have hcan' : (S.addSlave false).history.canContinue replid off' = true := by
          rw [hhistory]
          exact hcan
        exact (h.addSlave false).resume hcan' (hattached false) (hquiet false)
      · cases hoff
  · rename_i hfull
    rw [hfull, Option.getD_none] at hquiet
    refine (h.addSlave true).sendSnapshot (hattached true) ?_ snapshot
    rw [hhistory]
    exact hquiet true

lemma catchUp (off : ℕ) : (S.catchUp off).Sound := by
  unfold Served.catchUp
  split
  · split
    · exact h
    rename_i bytes hcopy
    split
    · exact h
    · refine h.enqueue fun b hb hlive _ => ?_
      obtain ⟨hbytes, -⟩ := (h.serving b hb hlive).upToDate.copyRange_eq h.history hcopy
      refine ⟨Nat.le_add_left _ _, ?_⟩
      rw [Nat.add_sub_cancel, ← hbytes]
  · exact h

lemma replack (applied : ℕ) : (S.replack applied).Sound := by
  unfold Served.replack
  split
  · exact h.catchUp _
  · exact h

lemma repldone : S.repldone.Sound := by
  have hdone : S.syncDone.Sound := (h.setPending false).setProgress false
  unfold Served.repldone
  split
  · dsimp only
    split
    · exact hdone.catchUp _
    · exact hdone
  · exact h

lemma reply (n : ℕ) : (S.step (.reply n)).Sound := by
  have hring : (S.step (.reply n)).ringBytes = S.ringBytes := by
    unfold Served.ringBytes Served.step queueBytes
    dsimp only
    split
    · rfl
    split
    · rfl
    · simp
  have hflight : (S.step (.reply n)).inFlight = S.inFlight := by
    show S.delivered ++ (S.step (.reply n)).ringBytes ++ S.buffer = _
    rw [hring]
    rfl
  refine ⟨h.history, h.job, h.draining, h.state, fun b hb hlive => ?_, h.delivered⟩
  rw [hflight]
  exact h.serving b hb hlive

lemma flush (n : ℕ) : (S.flush n).Sound := by
  unfold Served.flush
  split
  · exact h
  rename_i hlive
  have hlive : S.broken = false := by simpa using hlive
  have hring : ofStream (S.outRing.take n) ++ ofStream (S.outRing.drop n) = S.ringBytes := by
    rw [← ofStream_append, take_append_drop]
    rfl
  have hflight : (S.delivered ++ ofStream (S.outRing.take n)) ++ ofStream (S.outRing.drop n) ++ S.buffer =
      S.inFlight := by
    rw [append_assoc S.delivered, hring]
    rfl
  refine ⟨h.history, h.job, h.draining, h.state, fun b hb _ => ?_, fun b hb => ?_⟩
  · show Serving S.history S.queue
      ((S.delivered ++ ofStream (S.outRing.take n)) ++ ofStream (S.outRing.drop n) ++ S.buffer) S.handedTo b
    rw [hflight]
    exact h.serving b hb hlive
  · refine List.IsPrefix.trans ?_ (h.serving b hb hlive).inFlight
    rw [← hflight, append_assoc _ (ofStream (S.outRing.drop n))]
    exact prefix_append _ _

/-! ### The steps of the thread -/

lemma watermark_eq : S.watermark = (S.state.getD {}).watermark := by
  unfold Served.watermark
  cases hst : S.state with
  | none => rfl
  | some st => simp [h.state st hst]

lemma dropped_eq : (S.state.getD {}).dropped = false := by
  cases hst : S.state with
  | none => rfl
  | some st => exact h.state st hst

lemma append (hturn : S.inTurn .append = true) : S.append.Sound := by
  unfold Served.append
  split
  · exact h
  rename_i n counted queue hqueue
  obtain ⟨hbuf, hwater⟩ := appendNode_spec n S.state
  have hdropped : (appendNode n S.state).dropped = false := by rw [dropped_appendNode, h.dropped_eq]
  refine ⟨h.history, h.job, h.draining, ?_, fun b hb hlive => ?_, h.delivered⟩
  · rintro st ⟨⟩
    exact hdropped
  have hlive : S.broken = false := hlive
  have hb : S.base = some b := hb
  have hserving := h.serving b hb hlive
  have hsub : queue ⊆ S.queue := by
    rw [hqueue]
    exact subset_cons_self _ _
  show Serving S.history queue (S.delivered ++ S.ringBytes ++ (appendNode n S.state).buf)
    (max (if (appendNode n S.state).dropped then 0 else (appendNode n S.state).watermark) S.syncedTo) b
  rw [if_neg (by simp [hdropped]), hbuf, hwater, ← append_assoc, ← h.watermark_eq]
  split
  · rename_i htakes
    simp only [Served.inTurn, hb, hqueue, hlive, htakes, Bool.not_true, Bool.or_self, Bool.false_or,
      Bool.and_eq_true, decide_eq_true_eq] at hturn
    obtain ⟨⟨hcounted, hgap⟩, hrepeat⟩ := hturn
    have hsegment : Segment S.history.stream n :=
      hserving.nodes (n, counted) (by rw [hqueue]; exact mem_cons_self) hcounted
    have hstart := hsegment.start_eq
    have hle := hsegment.le
    have hnext : max n.start S.watermark = S.handedTo := by
      unfold Served.handedTo at hgap ⊢
      omega
    simp only [SendState.takes, ← h.watermark_eq, Bool.and_eq_true, decide_eq_true_eq] at htakes
    have hend : max n.endOffset S.syncedTo =
        S.handedTo + (n.buf.drop (S.watermark - n.start)).length := by
      rw [length_drop, ← hnext]
      omega
    rw [hend]
    exact hserving.extend hsub (hnext ▸ hsegment.drop S.watermark)
  · exact hserving.extend hsub nil_prefix

lemma refill (hturn : S.inTurn .refill = true) : (S.step .refill).Sound := by
  cases hstate : S.state with
  | none =>
    have hsame : S.step .refill = S := by
      unfold Served.step
      rw [hstate, Option.map_none, ← hstate]
    rw [hsame]
    exact h
  | some st =>
    have hwater := h.watermark_eq
    have hst := h.state st hstate
    rw [hstate, Option.getD_some] at hwater
    obtain ⟨added, hbuf, hwater', hdropped, hadded⟩ := replFwdRefill_spec h.history.backlog S.inProgress st
    have hstep : S.step .refill = { S with state := some (replFwdRefill S.inProgress S.history.backlog st) } := by
      unfold Served.step
      rw [hstate, Option.map_some]
    rw [hstep]
    generalize replFwdRefill S.inProgress S.history.backlog st = st' at hbuf hwater' hdropped
    refine ⟨h.history, h.job, h.draining, ?_, fun b hb hlive => ?_, h.delivered⟩
    · rintro _ ⟨⟩
      rw [hdropped, hst]
    have hlive : S.broken = false := hlive
    have hb : S.base = some b := hb
    have hserving := h.serving b hb hlive
    have hbuffer : S.buffer = st.buf := by
      unfold Served.buffer
      rw [hstate, Option.getD_some]
    show Serving S.history S.queue (S.delivered ++ S.ringBytes ++ st'.buf)
      (max (if st'.dropped then 0 else st'.watermark) S.syncedTo) b
    rw [hdropped, hst, if_neg (by simp), hbuf, hwater', ← hwater, ← hbuffer, ← append_assoc]
    rcases hadded with rfl | ⟨hrefills, hcopy⟩
    · exact hserving.extend (List.Subset.refl _) nil_prefix
    · simp only [Served.inTurn, hb, hstate, hlive, hrefills, Bool.not_true, Bool.or_self, Bool.false_or,
        decide_eq_true_eq] at hturn
      obtain ⟨hbytes, -⟩ := hserving.upToDate.copyRange_eq h.history hcopy
      have hhanded : S.handedTo = S.watermark := max_eq_left hturn
      rw [show max (S.watermark + added.length) S.syncedTo = S.handedTo + added.length by rw [hhanded]; omega]
      refine hserving.extend (List.Subset.refl _) ?_
      rw [hbytes, hhanded, hwater]

lemma drain (rs : List WriteResult) (hturn : S.inTurn (.drain rs) = true) : (S.drain rs).Sound := by
  have hstate := Served.dropped_drain h.state rs
  have hhanded : (S.drain rs).handedTo = S.handedTo := by
    unfold Served.handedTo
    rw [S.watermark_drain]
    rfl
  have hbroken' : (S.drain rs).broken = (S.broken || S.fails (if S.broken then [.failed] else rs)) := rfl
  cases hbroken : S.broken with
  | true =>
    -- the first call of `write` fails
    have hdelivered : (S.drain rs).delivered = S.delivered := by
      unfold Served.drain
      dsimp only
      rw [if_pos hbroken, drainState_failed, append_nil]
    refine ⟨h.history, h.job, fun _ => by rw [hbroken', hbroken]; rfl, hstate, fun b hb hlive => ?_, fun b hb => ?_⟩
    · rw [hbroken', hbroken] at hlive
      cases hlive
    · rw [hdelivered]
      exact h.delivered b hb
  | false =>
    obtain ⟨rest, hbuffer, hkept, hheld⟩ := S.drain_spec rs h.state
    have hdrained : S.drain rs = { S with
        state := (drainState S.inProgress rs S.state).1
        delivered := S.delivered ++ (drainState S.inProgress rs S.state).2.1
        broken := S.fails rs } := by
      unfold Served.drain
      rw [if_neg (by simp [hbroken]), hbroken]
      rfl
    generalize hwritten : (drainState S.inProgress rs S.state).2.1 = written at hbuffer hheld hdrained
    have hnext : written = [] ∨ S.ringBytes = [] := by
      simp only [Served.inTurn, hbroken, Bool.false_or, Bool.or_eq_true, List.isEmpty_iff] at hturn
      rcases hturn with (hprogress | hempty) | hring
      · exact .inl (hheld hprogress)
      · rw [hempty] at hbuffer
        exact .inl (append_eq_nil_iff.mp hbuffer.symm).1
      · exact .inr hring
    have hflight : S.delivered ++ written ++ S.ringBytes ++ rest = S.inFlight := by
      unfold Served.inFlight
      rw [hbuffer]
      rcases hnext with hnil | hring
      · simp [hnil]
      · simp [hring]
    refine ⟨h.history, h.job, fun hd => ?_, hstate, fun b hb hlive => ?_, fun b hb => ?_⟩
    · rw [h.draining hd] at hbroken
      cases hbroken
    · rw [hhanded, hdrained]
      rw [hdrained] at hlive
      show Serving S.history S.queue
        (S.delivered ++ written ++ S.ringBytes ++ ((drainState S.inProgress rs S.state).1.getD {}).buf) S.handedTo b
      rw [hkept hlive, hflight]
      exact h.serving b hb hbroken
    · refine List.IsPrefix.trans ?_ (h.serving b hb hbroken).inFlight
      rw [hdrained, ← hflight, append_assoc _ S.ringBytes]
      exact prefix_append _ _

lemma step (i : ServedInput) (hproper : S.proper i = true) (hturn : S.inTurn i = true) : (S.step i).Sound := by
  cases i with
  | write raw alloc =>
    simp only [Served.proper, Bool.and_eq_true, bne_iff_ne, decide_eq_true_eq] at hproper
    exact h.write hproper.1.2 hproper.2 alloc
  | broadcast raw => exact ⟨h.history, nofun, h.draining, h.state, h.serving, h.delivered⟩
  | visit => exact h.visit
  | attach c => exact h.attach (c + 1)
  | detach c => exact h.record _ rfl rfl (·.detach c)
  | otherFullsync => exact (h.record .fullsync rfl rfl (·.fullsync)).setProgress true
  | otherDone => exact h.setProgress false
  | replsync asked barrier snapshot => exact h.replsync asked barrier snapshot hturn
  | replack applied => exact h.replack applied
  | repldone => exact h.repldone
  | reply n => exact h.reply n
  | flush n => exact h.flush n
  | hangup => exact h.broken
  | append => exact h.append hturn
  | drain rs => exact h.drain rs hturn
  | refill => exact h.refill hturn

end Served.Sound

/-- **The forwarded stream is contiguous** in every run in which the thread takes only bytes that come next, and
does not overtake a replay: what was sent is the master's stream from the offset that the replica was synchronised
to. -/
theorem forwarded_stream_contiguous (masterId : Bytes) (kind : TransportKind) (is : List ServedInput)
    (hrun : GuardedRun Served.step (fun S i => S.proper i = true ∧ S.inTurn i = true)
      (Served.start masterId kind) is) :
    ∀ js, js <+: is →
      let S := js.foldl Served.step (Served.start masterId kind)
      ∀ b ∈ S.base, S.delivered <+: S.history.stream.drop b := by
  intro js hjs
  have hsound : (js.foldl Served.step (Served.start masterId kind)).Sound :=
    (hrun.of_prefix hjs).invariant (fun S i (h : S.Sound) hguard => h.step i hguard.1 hguard.2)
      (Served.Sound.start masterId kind)
  exact hsound.delivered

/-- A full synchronisation, and writes during and after it. -/
def servedAfterFullsync : List ServedInput :=
  [.write (str "SET a 1\n") true, .visit, .replsync none true true, .write (str "SET b 2\n") true, .visit,
    .repldone, .append, .drain [.took 100], .refill, .write (str "SET c 3\n") true, .visit, .append, .drain [.took 3, .again],
    .drain [.took 100]]

theorem forwarded_stream_contiguous_after_fullsync :
    let S := servedAfterFullsync.foldl Served.step (Served.start (str "id") .ebpf)
    S.base = some 8 ∧ S.delivered = str "SET b 2\nSET c 3\n" ∧ S.delivered <+: S.history.stream.drop 8 :=
  ⟨by decide, by decide,
    forwarded_stream_contiguous (str "id") .ebpf servedAfterFullsync (by decide) servedAfterFullsync prefix_rfl 8
      (by decide)⟩

/-- A partial synchronisation, and the acknowledgement with which the replica answers it. -/
def servedPartially : List ServedInput :=
  [.attach 0, .otherFullsync, .otherDone, .write (str "SET a 1\n") true, .visit, .replsync (some (str "id", 0)) true true,
    .flush 100, .replack 0, .append, .drain [.took 100], .refill]

/-- A write during the full synchronisation of another replica, and one after it. -/
def servedBeside : List ServedInput :=
  [.replsync none true true, .repldone, .write (str "SET a 1\n") true, .visit, .append, .drain [.took 100], .refill,
    .otherFullsync, .write (str "SET b 2\n") true, .visit, .otherDone, .write (str "SET c 3\n") true, .visit, .append,
    .drain [.took 100], .refill]

/-- The replay of a partial synchronisation is sent twice, and a write that was not broadcast is never sent. -/
theorem forwarded_stream_broken :
    let S := servedPartially.foldl Served.step (Served.start (str "id") .ebpf)
    let T := servedBeside.foldl Served.step (Served.start (str "id") .ebpf)
    (GuardedRun Served.step (fun S i => S.proper i = true) (Served.start (str "id") .ebpf) servedPartially ∧
      S.base = some 0 ∧ S.history.stream = str "SET a 1\n" ∧ S.delivered = str "SET a 1\nSET a 1\n") ∧
    GuardedRun Served.step (fun S i => S.proper i = true) (Served.start (str "id") .ebpf) servedBeside ∧
      T.base = some 0 ∧ T.history.stream = str "SET a 1\nSET b 2\nSET c 3\n" ∧
      T.delivered = str "SET a 1\nSET c 3\n" :=
  ⟨⟨by decide, by decide, by decide, by decide⟩, by decide, by decide, by decide, by decide⟩

end PocketKv.Replication
