import PocketKv.Replication.Contiguity
import PocketKv.Replication.Intake

/-!
# Catching up from the backlog
-/

namespace PocketKv.Replication

open Library Resp List

/-! ### The backlog of a run -/

namespace Served

variable {S : Served}

lemma ok_visitWith (h : S.history.Ok) (raw : Bytes) (counted : Bool) : (S.visitWith raw counted).history.Ok := by
  unfold Served.visitWith
  split
  · split
    · exact h.step (.detach 0)
    · exact h
  · exact h

lemma ok_replsync (h : S.history.Ok) (asked : Option (Bytes × ℕ)) (barrier snapshot : Bool) :
    (S.replsync asked barrier snapshot).history.Ok := by
  unfold Served.replsync
  split
  · exact h
  split
  · exact h.step (.attach 0)
  · unfold Served.sendSnapshot
    split
    · exact (h.step (.attach 0)).step .fullsync
    · exact (h.step (.attach 0)).step .fullsync

lemma history_catchUp (S : Served) (off : ℕ) : (S.catchUp off).history = S.history := by
  unfold Served.catchUp
  repeat' split
  all_goals rfl

lemma history_replack (S : Served) (applied : ℕ) : (S.replack applied).history = S.history := by
  unfold Served.replack
  split
  · exact history_catchUp S _
  · rfl

lemma history_repldone (S : Served) : S.repldone.history = S.history := by
  unfold Served.repldone
  split
  · dsimp only
    split
    · exact history_catchUp S.syncDone _
    · rfl
  · rfl

lemma ok_step (h : S.history.Ok) (i : ServedInput) : (S.step i).history.Ok := by
  cases i with
  | write raw alloc => exact h.step (.write raw alloc)
  | visit =>
    unfold Served.step
    dsimp only
    split
    · exact h
    · exact ok_visitWith (S := { S with job := none }) h _ _
  | attach c => exact h.step (.attach (c + 1))
  | detach c => exact h.step (.detach (c + 1))
  | otherFullsync => exact h.step .fullsync
  | replsync asked barrier snapshot => exact ok_replsync h asked barrier snapshot
  | replack applied => exact (history_replack S applied).symm ▸ h
  | repldone => exact (history_repldone S).symm ▸ h
  | flush n =>
    unfold Served.step Served.flush
    dsimp only
    split <;> exact h
  | append =>
    unfold Served.step Served.append
    dsimp only
    split <;> exact h
  | broadcast | otherDone | reply | hangup | drain | refill => exact h

end Served

/-- What `repl_fwd_refill` finds when the buffer is drained and the replica is behind. -/
structure Served.Lagging (S : Served) (st : SendState) : Prop where
  state : S.state = some st
  live : st.dropped = false
  drained : st.buf = []
  idle : S.inProgress = false
  kept : S.history.backlog.startOffset ≤ st.watermark
  behind : st.watermark < S.history.backlog.endOffset

/-- The watermark went forward, over the bytes of the backlog that were appended. -/
structure SendState.Advanced (B : ReplBacklog) (st st' : SendState) : Prop where
  forward : st.watermark < st'.watermark
  appended : st'.buf = st.buf ++
    (B.toBacklog.hist.drop (st.watermark - B.startOffset)).take (st'.watermark - st.watermark)

/-! ### A refill -/

lemma replFwdRefill_empty {B : ReplBacklog} (hB : B.Ok) {st : SendState} (hlive : st.dropped = false)
    (hbuf : st.buf = []) (hkept : B.startOffset ≤ st.watermark) (hbehind : st.watermark < B.endOffset) :
    replFwdRefill false B st =
      if maxFwdSendBufBytes < B.endOffset - st.watermark then { st with stalled := true }
      else { st with
        buf := B.toBacklog.hist.drop (st.watermark - B.startOffset), watermark := B.endOffset, stalled := false } := by
  obtain ⟨buf, watermark, stalled, dropped⟩ := st
  dsimp only at hlive hbuf hkept hbehind ⊢
  subst hlive hbuf
  have hspan := hB.span
  obtain ⟨bytes, hcopy⟩ := hB.exists_copyRange (by omega) hkept hbehind.le
  obtain ⟨-, hlen, hbytes⟩ := ReplBacklog.copyRange_eq hB hcopy
  have hpos : 0 < bytes.length := by omega
  have hne : bytes ≠ [] := ne_nil_of_length_pos hpos
  -- the flag is cleared, as the buffer is empty
  have hstall : (if stalled && decide (0 < maxFwdSendBufBytes / 2) then
      { watermark := watermark : SendState } else { watermark := watermark, stalled := stalled }) =
      { watermark := watermark } := by
    cases stalled <;> rfl
  have happend : replFwdAppend bytes watermark (watermark + bytes.length) { watermark := watermark } =
      if maxFwdSendBufBytes < bytes.length then { watermark := watermark, stalled := true }
      else { buf := bytes, watermark := watermark + bytes.length } := by
    simp only [replFwdAppend, hne, Bool.or_self, decide_false, Bool.false_eq_true, if_false, lt_self_iff_false,
      Nat.sub_zero, drop_zero, length_nil, Nat.zero_add, nil_append]
    rw [if_neg (by omega), if_neg (by omega)]
  simp only [replFwdRefill, Bool.false_eq_true, if_false, hstall, length_nil]
  rw [if_neg (by decide), if_neg (by omega)]
  simp only [hcopy, hne, if_false, happend]
  rw [← hbytes, ← hlen, Nat.add_sub_cancel_left]

lemma replFwdRefill_advanced_iff {B : ReplBacklog} (hB : B.Ok) {st : SendState} (hlive : st.dropped = false)
    (hbuf : st.buf = []) (hkept : B.startOffset ≤ st.watermark) (hbehind : st.watermark < B.endOffset) :
    st.Advanced B (replFwdRefill false B st) ↔ B.endOffset - st.watermark ≤ maxFwdSendBufBytes := by
  rw [replFwdRefill_empty hB hlive hbuf hkept hbehind]
  split
  · rename_i hlong
    refine iff_of_false (fun hadvanced => ?_) (by omega)
    exact absurd hadvanced.forward (lt_irrefl _)
  · rename_i hshort
    refine iff_of_true ⟨hbehind, ?_⟩ (by omega)
    have hspan := hB.span
    have hlen : (B.toBacklog.hist.drop (st.watermark - B.startOffset)).length ≤ B.endOffset - st.watermark := by
      rw [length_drop]
      omega
    rw [hbuf, nil_append]
    exact (take_of_length_le hlen).symm

/-- **A slow replica catches up** just if what it misses fits into a send buffer: `repl_fwd_refill` for a live
connection with an empty buffer moves the watermark forward just if the backlog ends at most
`MAX_FWD_SEND_BUF_BYTES` behind it. -/
theorem refill_progress_iff (masterId : Bytes) (kind : TransportKind) (is : List ServedInput) (st : SendState)
    (hlag : (is.foldl Served.step (Served.start masterId kind)).Lagging st) :
    let S := is.foldl Served.step (Served.start masterId kind)
    (∃ st', (S.step .refill).state = some st' ∧ st.Advanced S.history.backlog st') ↔
      S.history.backlog.endOffset - st.watermark ≤ maxFwdSendBufBytes := by
  intro S
  have hok : S.history.Ok := by
    apply List.foldlRecOn (motive := fun S : Served => S.history.Ok)
    · exact History.ok_start masterId
    · exact fun S h i _ => Served.ok_step h i
  have hrefill : (S.step .refill).state = some (replFwdRefill false S.history.backlog st) := by
    show S.state.map _ = _
    rw [hlag.state, hlag.idle]
    rfl
  rw [← replFwdRefill_advanced_iff hok.backlog hlag.live hlag.drained hlag.kept hlag.behind]
  constructor
  · rintro ⟨st', hstate, hadvanced⟩
    rw [hrefill] at hstate
    cases hstate
    exact hadvanced
  · exact fun hadvanced => ⟨_, hrefill, hadvanced⟩

/-- A write that the thread has not taken yet. -/
def servedBehind : List ServedInput :=
  [.replsync none true true, .repldone, .write (str "SET a 1\n") true, .visit, .append, .drain [.took 100], .refill,
    .write (str "SET b 2\n") true]

theorem refill_progress_behind :
    let S := servedBehind.foldl Served.step (Served.start (str "id") .ebpf)
    ∃ st, S.Lagging st ∧ S.history.backlog.endOffset - st.watermark = 8 ∧
      ∃ st', (S.step .refill).state = some st' ∧ st.Advanced S.history.backlog st' := by
  have hlag : (servedBehind.foldl Served.step (Served.start (str "id") .ebpf)).Lagging { watermark := 8 } :=
    ⟨by decide, by decide, by decide, by decide, by decide, by decide⟩
  exact ⟨_, hlag, by decide, (refill_progress_iff (str "id") .ebpf servedBehind _ hlag).mpr (by decide)⟩

/-! ### A replica that does not catch up -/

section Stuck

variable {raw : Bytes} {S : Served}

/-- A run in which the reactor keeps its order. -/
abbrev Served.ProperRun (S : Served) (is : List ServedInput) : Prop :=
  GuardedRun Served.step (fun S i => S.proper i = true) S is

/-- Writes while the replica loads. -/
def loadingRun (raw : Bytes) (k : ℕ) : List ServedInput := (List.replicate k [.write raw true, .visit]).flatten

lemma write_while_loading (hjob : S.job = none) (hattached : S.attached = true)
    (hdraining : S.draining = false) (hpending : S.fullsyncPending = true) (raw : Bytes) :
    (S.step (.write raw true)).step .visit = { S with history := S.history.step (.write raw true) } := by
  obtain ⟨kind, history, inProgress, job, pending, draining, broken, ring, queue, state, base, syncedTo, delivered⟩ := S
  subst hjob hdraining hpending
  simp only [Served.attached, decide_eq_true_eq] at hattached
  have hstays : 0 ∈ (history.step (.write raw true)).replicas := hattached
  simp [Served.step, Served.record, Served.visitWith, Served.attached, hstays, broadcastTo]

/-- The backlog after that many writes of the same length, the first at the offset 0. -/
structure History.Filled (n k : ℕ) (H : History) : Prop where
  ok : H.Ok
  attached : 0 ∈ H.replicas
  offset : H.offset = k * n
  start : H.backlog.startOffset = 0
  length : H.backlog.toBacklog.hist.length = k * n

lemma History.Filled.write {k : ℕ} {H : History} (h : H.Filled raw.length k) (hraw : raw ≠ [])
    (hroom : (k + 1) * raw.length < replBacklogSize) :
    (H.step (.write raw true)).Filled raw.length (k + 1) := by
  have hlen := h.length
  have hmul : (k + 1) * raw.length = k * raw.length + raw.length := Nat.succ_mul k raw.length
  have hattached : (!H.replicas.isEmpty) = true := by
    cases hr : H.replicas with
    | nil => exact absurd h.attached (by simp [hr])
    | cons => rfl
  have hfeed : (H.backlog.feed true true H.offset raw).toBacklog =
      replBacklogFeed true H.offset raw H.backlog.toBacklog := ReplBacklog.toBacklog_feed h.ok.backlog
  -- the ring is allocated now, or it was before
  have hensure : (H.backlog.toBacklog.ensure H.offset).hist.length = k * raw.length ∧
      (H.backlog.toBacklog.ensure H.offset).start = 0 := by
    unfold Backlog.ensure
    cases hring : H.backlog.ring with
    | some r => exact ⟨by simpa [ReplBacklog.toBacklog, hring] using hlen, by simp [ReplBacklog.toBacklog, hring, h.start]⟩
    | none =>
      have hzero : k * raw.length = 0 := by
        rw [← hlen]
        simp [ReplBacklog.toBacklog, hring]
      have hoffset : H.offset = 0 := h.offset.trans hzero
      simp [ReplBacklog.toBacklog, hring, hoffset, hzero]
  have hfed : (replBacklogFeed true H.offset raw H.backlog.toBacklog).hist.length = (k + 1) * raw.length ∧
      (replBacklogFeed true H.offset raw H.backlog.toBacklog).start = 0 := by
    unfold replBacklogFeed
    rw [if_neg hraw, if_neg (by simp)]
    rw [if_neg (by omega), show (H.backlog.toBacklog.ensure H.offset).hist.length + raw.length - replBacklogSize = 0 by
      omega]
    simp only [drop_zero, length_append, Backlog.endOffset]
    omega
  rw [← hfeed] at hfed
  refine ⟨h.ok.step _, h.attached, ?_, ?_, ?_⟩
  · show H.offset + raw.length = _
    rw [h.offset, hmul]
  · simp only [History.step, hattached]
    exact hfed.2
  · simp only [History.step, hattached]
    exact hfed.1

/-- The replica loads, after `k` writes. -/
structure Served.LoadingAt (n k : ℕ) (S : Served) : Prop where
  filled : S.history.Filled n k
  kind : S.kind ≠ .ebpfTcp
  job : S.job = none
  draining : S.draining = false
  pending : S.fullsyncPending = true
  queue : S.queue = []
  state : S.state = none

lemma Served.LoadingAt.run (h : S.LoadingAt raw.length 0) (hraw : raw ≠ [])
    (hfits : raw.length ≤ inbufCap) (k : ℕ) (hroom : k * raw.length < replBacklogSize) :
    S.ProperRun (loadingRun raw k) ∧
      ((loadingRun raw k).foldl Served.step S).LoadingAt raw.length k := by
  induction k with
  | zero => exact ⟨trivial, h⟩
  | succ k ih =>
    rw [Nat.succ_mul] at hroom
    obtain ⟨hrun, hk⟩ := ih (by omega)
    have hsplit : loadingRun raw (k + 1) = loadingRun raw k ++ [.write raw true, .visit] := by
      simp [loadingRun, replicate_succ']
    have hattached : ((loadingRun raw k).foldl Served.step S).attached = true := by
      simp only [Served.attached, hk.filled.attached, decide_true]
    have hstep := write_while_loading hk.job hattached hk.draining hk.pending raw
    rw [hsplit, foldl_append]
    refine ⟨hrun.append ⟨?_, rfl, trivial⟩, ?_⟩
    · simp [Served.proper, hk.job, hraw, hfits]
    · simp only [List.foldl_cons, foldl_nil, hstep]
      exact { hk with filled := hk.filled.write hraw (by rw [Nat.succ_mul]; omega) }

lemma Served.LoadingAt.stuck {n k : ℕ} (h : S.LoadingAt n k) (hlong : maxFwdSendBufBytes < k * n) :
    (S.repldone.step .append).Lagging { stalled := true } ∧
      (S.repldone.step .append).step .refill = S.repldone.step .append := by
  have hok := h.filled.ok.backlog
  have hspan := hok.span
  rw [h.filled.start, h.filled.length, Nat.zero_add] at hspan
  have hpos : 0 < k * n := lt_of_le_of_lt (Nat.zero_le _) hlong
  have hlt : S.history.backlog.startOffset < S.history.backlog.endOffset := by
    rw [h.filled.start, hspan]
    exact hpos
  obtain ⟨r, hring⟩ := hok.exists_ring hlt
  have hlen : r.len = k * n := by
    rw [← h.filled.length]
    simp [ReplBacklog.toBacklog, hring]
  obtain ⟨bytes, hcopy⟩ := hok.exists_copyRange hlt h.filled.start.le (Nat.zero_le _)
  have hbytes : bytes.length = k * n := by
    have hcopied := (ReplBacklog.copyRange_eq hok hcopy).2.1
    omega
  have hne : bytes ≠ [] := ne_nil_of_length_pos (by omega)
  have hattached : S.attached = true := by simp only [Served.attached, h.filled.attached, decide_true]
  have hcatch : S.repldone = S.syncDone.enqueue ⟨bytes, bytes.length⟩ true := by
    have hwatermark : S.syncDone.watermark = 0 := by simp [Served.watermark, Served.syncDone, h.state]
    unfold Served.repldone
    rw [if_pos hattached]
    rw [if_pos ⟨h.kind, by simp [Served.syncDone, hring, hlen, hpos], by
      simp [Served.syncDone, h.filled.start, h.filled.offset, hpos]⟩, hwatermark]
    unfold Served.catchUp
    rw [show S.syncDone.history = S.history from rfl, h.filled.start, Nat.max_self, if_pos (by omega), hcopy]
    simp [hne]
  have happend : appendNode ⟨bytes, bytes.length⟩ none = { stalled := true } := by
    have hlength : maxFwdSendBufBytes < bytes.length := by omega
    simp [appendNode, FwdNode.start, replFwdAppend, hne, hlength]
  have hstate : (S.repldone.step .append).state = some { stalled := true } := by
    simp [hcatch, Served.step, Served.append, Served.enqueue, Served.syncDone, h.queue, h.state, happend]
  have hafter : (S.repldone.step .append).history = S.history := by
    simp [hcatch, Served.step, Served.append, Served.enqueue, Served.syncDone, h.queue]
  have hidle : (S.repldone.step .append).inProgress = false := by
    simp [hcatch, Served.step, Served.append, Served.enqueue, Served.syncDone, h.queue]
  have hlag : (S.repldone.step .append).Lagging { stalled := true } :=
    ⟨hstate, rfl, rfl, hidle, by rw [hafter, h.filled.start], by rw [hafter, hspan]; exact hpos⟩
  refine ⟨hlag, ?_⟩
  generalize S.repldone.step .append = T at hlag hafter
  have hrefill : replFwdRefill T.inProgress T.history.backlog { stalled := true } = { stalled := true } := by
    rw [hlag.idle, hafter, replFwdRefill_empty hok rfl rfl (Nat.le_of_eq h.filled.start) (by rw [hspan]; exact hpos),
      if_pos (by rw [hspan]; exact hlong)]
  show { T with state := T.state.map (replFwdRefill T.inProgress T.history.backlog) } = T
  rw [hlag.state, Option.map_some, hrefill, ← hlag.state]

/-- A full synchronisation with five writes in it. -/
def stuckRun (raw : Bytes) : List ServedInput :=
  [.replsync none true true] ++ loadingRun raw 5 ++ [.repldone, .append]

lemma stuckRun_stuck (hlong : maxFwdSendBufBytes < 5 * raw.length) (hfits : raw.length ≤ inbufCap) :
    let S := (stuckRun raw).foldl Served.step (Served.start (str "id") .ebpf)
    (Served.start (str "id") .ebpf).ProperRun (stuckRun raw) ∧ S.Lagging { stalled := true } ∧ S.step .refill = S := by
  have hraw : raw ≠ [] := by
    rintro rfl
    simp at hlong
  set S₀ := (Served.start (str "id") .ebpf).step (.replsync none true true) with hS₀
  have hoffset : S₀.history.offset = 0 := by decide
  have hhist : S₀.history.backlog.toBacklog.hist = [] := by decide
  have hfilled : S₀.history.Filled raw.length 0 :=
    ⟨Served.ok_step (History.ok_start _) _, by decide, by rw [hoffset, Nat.zero_mul], by decide, by
      rw [hhist, Nat.zero_mul]; rfl⟩
  have hloading : S₀.LoadingAt raw.length 0 :=
    ⟨hfilled, by decide, by decide, by decide, by decide, by decide, by decide⟩
  have hroom : 5 * raw.length < replBacklogSize := by
    unfold inbufCap at hfits
    unfold replBacklogSize
    omega
  obtain ⟨hrun, hfive⟩ := hloading.run hraw hfits 5 hroom
  have hS : (stuckRun raw).foldl Served.step (Served.start (str "id") .ebpf) =
      ((loadingRun raw 5).foldl Served.step S₀).repldone.step .append := by
    have hdone (T : Served) : T.step .repldone = T.repldone := rfl
    simp only [stuckRun, foldl_append, List.foldl_cons, foldl_nil, hdone, ← hS₀]
  have hfirst : (Served.start (str "id") .ebpf).ProperRun [.replsync none true true] := by decide
  have hlast : ((loadingRun raw 5).foldl Served.step S₀).ProperRun [.repldone, .append] :=
    ⟨Option.isNone_iff_eq_none.mpr hfive.job, rfl, trivial⟩
  have hmost := hfirst.append hrun
  rw [hS]
  refine ⟨hmost.append ?_, hfive.stuck hlong⟩
  rw [foldl_append]
  exact hlast

end Stuck

/-- With five writes of 900000 bytes. -/
theorem replica_stuck :
    let raw := (setCmd (List.replicate 900000 120)).raw
    let S := (stuckRun raw).foldl Served.step (Served.start (str "id") .ebpf)
    raw.length < inbufCap ∧
      GuardedRun Served.step (fun S i => S.proper i = true) (Served.start (str "id") .ebpf) (stuckRun raw) ∧
      S.Lagging { stalled := true } ∧ S.step .refill = S := by
  have hlength := length_setCmd (v := List.replicate 900000 120) (by rw [length_replicate]; omega)
  rw [length_replicate] at hlength
  generalize (setCmd (List.replicate 900000 120)).raw = raw at hlength
  have hfits : raw.length < inbufCap := hlength.2.trans (by decide)
  refine ⟨hfits, stuckRun_stuck ?_ hfits.le⟩
  unfold maxFwdSendBufBytes
  omega

end PocketKv.Replication
