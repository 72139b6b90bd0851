import PocketKv.CommitGate.Accounts

/-!
# The master's side of the commit gate
-/

namespace PocketKv.CommitGate

open Resp List

variable {M M' : Publisher}

/-- The fields of a `conn_t` that the gate reads. -/
structure Conn where
  /-- `repl_parsed_seq`, and during a command `cur_cmd_seq`: how many commands were dispatched. -/
  parsedSeq : ℕ := 0
  /-- `cur_cmd_committed`: the command has had its descriptor. -/
  committed : Bool := false
  /-- `is_replica`. -/
  isReplica : Bool := false
  /-- `in_len`: how many bytes of a command that is not complete have come. -/
  inLen : ℕ := 0
  deriving DecidableEq

/-- A command is dispatched; those of a replica are not numbered. -/
def Conn.dispatch (c : Conn) : Conn :=
  if c.isReplica then c else { c with parsedSeq := c.parsedSeq + 1, committed := false }

/-- The state of `kvs_commit.c`. -/
structure Publisher where
  /-- `g_commit_session`; 0 if there is none. -/
  session : ℕ := 0
  /-- `g_global_seq`. -/
  globalSeq : ℕ := 0
  /-- `g_batch`. -/
  batch : List CommitDesc := []
  /-- `g_commit_fd` is a descriptor. -/
  connected : Bool := true
  /-- The connections, by their cookies. -/
  conns : AList (fun _ : ℕ => Conn) := ∅

/-- The connection with this cookie changes. -/
def Publisher.setConn (M : Publisher) (k : ℕ) (c : Conn) : Publisher := { M with conns := M.conns.insert k c }

/-- `commit_send_locked`: without a channel nothing is sent. -/
def commitSend (m : Msg) (M : Publisher) : List Msg := if M.connected then [m] else []

/-- `commit_flush_locked`. -/
def commitFlush (M : Publisher) : Publisher × List Msg :=
  if M.batch.isEmpty then (M, []) else ({ M with batch := [] }, commitSend (.batch M.session M.batch) M)

/-- `commit_batch_add`. -/
def commitBatchAdd (d : CommitDesc) (M : Publisher) : Publisher × List Msg :=
  let M := { M with batch := M.batch ++ [d] }
  if replCommitBatchMax ≤ M.batch.length then commitFlush M else (M, [])

/-- `commit_eligible`, in the mode in which the gate is used. -/
def commitEligible (k : ℕ) (c : Conn) : Bool := !c.isReplica && k != 0

/-- What `repl_commit_publish_write` and `repl_commit_publish_skip` do: a command gets one descriptor at most, and
none if there is no channel. -/
def commitPublish (write : Bool) (k : ℕ) (raw : Bytes) (M : Publisher) : Publisher × List Msg :=
  match M.conns.lookup k with
  | none => (M, [])
  | some c =>
    if !commitEligible k c || c.committed || c.parsedSeq == 0 || M.session == 0 then (M, [])
    else
      let M := M.setConn k { c with committed := true }
      if !M.connected then (M, [])
      else if write then
        commitBatchAdd ⟨k, c.parsedSeq, M.globalSeq + 1, kvsCmdCrc64 raw, raw.length, true⟩
          { M with globalSeq := M.globalSeq + 1 }
      else commitBatchAdd ⟨k, c.parsedSeq, 0, kvsCmdCrc64 raw, raw.length, false⟩ M

/-- `repl_commit_publish_write`. -/
def replCommitPublishWrite : ℕ → Bytes → Publisher → Publisher × List Msg := commitPublish true

/-- `repl_commit_publish_skip`. -/
def replCommitPublishSkip : ℕ → Bytes → Publisher → Publisher × List Msg := commitPublish false

/-- `repl_commit_baseline`. -/
def replCommitBaseline (k : ℕ) (c : Conn) (M : Publisher) : List Msg :=
  if commitEligible k c then commitSend (.baseline M.session k (c.parsedSeq + 1)) M else []

/-- `repl_commit_ignore`. -/
def replCommitIgnore (k : ℕ) (M : Publisher) : List Msg :=
  if k = 0 then [] else commitSend (.ignore M.session k) M

/-- `repl_commit_forget`. -/
def replCommitForget (k : ℕ) (M : Publisher) : List Msg := if k = 0 then [] else commitSend (.forget 0 k) M

/-- `repl_commit_resume`. -/
def replCommitResume (marker : ℕ) (M : Publisher) : List Msg :=
  if M.session = 0 then [] else commitSend (.resume M.session marker) M

/-- Every connection between two commands gets a BASELINE (one in the middle of a command is shut down). -/
def replCommitSessionBegin (sid : ℕ) (M : Publisher) : Publisher × List Msg :=
  let M := { M with session := sid }
  (M, M.conns.entries.flatMap fun e => if e.2.inLen = 0 then replCommitBaseline e.1 e.2 M else [])

/-- `repl_commit_session_end`. -/
def replCommitSessionEnd (M : Publisher) : Publisher := { M with session := 0, batch := [] }

/-- What happens on the master's connections; `write` and `accepted` tell how the handler ends. -/
inductive ClientEvent where
  | accept (k : ℕ)
  | command (k : ℕ) (raw : Bytes) (write : Bool)
  | replsync (k : ℕ) (raw : Bytes) (accepted : Bool)
  | close (k : ℕ)
  | flush
  | resume (marker : ℕ)

/-- The master afterwards, and what it sends to the proxy. -/
def Publisher.step (M : Publisher) : ClientEvent → Publisher × List Msg
  | .accept k => (M.setConn k {}, replCommitBaseline k {} M)
  | .command k raw write =>
    match M.conns.lookup k with
    | none => (M, [])
    | some c =>
      let M := M.setConn k c.dispatch
      let r := if write then replCommitPublishWrite k raw M else (M, [])
      let t := replCommitPublishSkip k raw r.1
      (t.1, r.2 ++ t.2)
  | .replsync k raw accepted =>
    match M.conns.lookup k with
    | none => (M, [])
    | some c =>
      let M := M.setConn k { c.dispatch with isReplica := c.isReplica || accepted }
      let r := replCommitPublishSkip k raw M
      (r.1, replCommitIgnore k M ++ r.2)
  | .close k => ({ M with conns := M.conns.erase k }, replCommitForget k M)
  | .flush => commitFlush M
  | .resume marker => (M, replCommitResume marker M)

/-- A list of events. -/
def Publisher.run (M : Publisher) : List ClientEvent → Publisher × List Msg
  | [] => (M, [])
  | e :: es =>
    let r := M.step e
    let t := r.1.run es
    (t.1, r.2 ++ t.2)

/-- A session: its begin, and then a list of events. -/
def Publisher.sessionRun (sid : ℕ) (M : Publisher) (es : List ClientEvent) : Publisher × List Msg :=
  let r := replCommitSessionBegin sid M
  let t := r.1.run es
  (t.1, r.2 ++ t.2)

/-! ### The numbers of the writes -/

/-- The descriptors of messages. -/
def descsOf (ms : List Msg) : List CommitDesc := ms.flatMap Msg.descs

@[simp] lemma descsOf_nil : descsOf [] = [] := rfl

@[simp] lemma descsOf_cons (m : Msg) (ms : List Msg) : descsOf (m :: ms) = m.descs ++ descsOf ms := rfl

@[simp] lemma descsOf_append (ms ms' : List Msg) : descsOf (ms ++ ms') = descsOf ms ++ descsOf ms' := by
  simp [descsOf]

/-- Without a channel no descriptors are collected. -/
def Publisher.Idle (M : Publisher) : Prop := M.connected = false → M.batch = []

/-- The output adds the descriptors `ds`, whose writes have the next numbers. -/
structure Publishes (M : Publisher) (out : Publisher × List Msg) (ds : List CommitDesc) : Prop where
  descs : descsOf out.2 ++ out.1.batch = M.batch ++ ds
  numbers : (writesOf ds).map (·.global) = List.range' (M.globalSeq + 1) (writesOf ds).length
  globalSeq : out.1.globalSeq = M.globalSeq + (writesOf ds).length
  noHello : Msg.hello ∉ out.2
  idle : M.Idle → out.1.Idle

lemma Publishes.trans {r t : Publisher × List Msg} {ds ds' : List CommitDesc}
    (h : Publishes M r ds) (h' : Publishes r.1 t ds') : Publishes M (t.1, r.2 ++ t.2) (ds ++ ds') := by
  refine ⟨?_, ?_, ?_, ?_, fun hM => h'.idle (h.idle hM)⟩
  · rw [descsOf_append, append_assoc, h'.descs, ← append_assoc, h.descs, append_assoc]
  · rw [writesOf_append, map_append, h.numbers, h'.numbers, h.globalSeq, length_append,
      ← range'_append_1, Nat.add_right_comm]
  · rw [h'.globalSeq, h.globalSeq, writesOf_append, length_append, Nat.add_assoc]
  · simpa using ⟨h.noHello, h'.noHello⟩

/-- Messages without descriptors. -/
def Quiet (ms : List Msg) : Prop := ∀ m ∈ ms, m.descs = [] ∧ m ≠ .hello

/-- Neither the descriptors nor their numbers nor the channel differ. -/
structure SameQueue (M M' : Publisher) : Prop where
  batch : M'.batch = M.batch
  globalSeq : M'.globalSeq = M.globalSeq
  connected : M'.connected = M.connected

lemma SameQueue.refl (M : Publisher) : SameQueue M M := ⟨rfl, rfl, rfl⟩

lemma sameQueue_setConn (M : Publisher) (k : ℕ) (c : Conn) : SameQueue M (M.setConn k c) := ⟨rfl, rfl, rfl⟩

lemma SameQueue.idle (h : SameQueue M M') (hM : M.Idle) : M'.Idle := fun hc =>
  h.batch.trans (hM (h.connected ▸ hc))

lemma publishes_quiet {ms : List Msg} (h : SameQueue M M') (hq : Quiet ms) : Publishes M (M', ms) [] := by
  have hd : descsOf ms = [] := flatMap_eq_nil_iff.mpr fun m hm => (hq m hm).1
  exact ⟨by simp [hd, h.batch], by simp [writesOf], by simp [h.globalSeq, writesOf], fun hm => (hq _ hm).2 rfl,
    h.idle⟩

lemma quiet_nil : Quiet [] := fun _ hm => absurd hm not_mem_nil

lemma quiet_send {m : Msg} (hd : m.descs = []) (hne : m ≠ .hello) (M : Publisher) : Quiet (commitSend m M) := by
  intro m' hm
  unfold commitSend at hm
  split at hm
  · obtain rfl := mem_singleton.mp hm
    exact ⟨hd, hne⟩
  · exact absurd hm not_mem_nil

lemma quiet_ite {p : Prop} [Decidable p] {ms ms' : List Msg} (h : Quiet ms) (h' : Quiet ms') :
    Quiet (if p then ms else ms') := by
  split
  · exact h
  · exact h'

lemma quiet_baseline (k : ℕ) (c : Conn) (M : Publisher) : Quiet (replCommitBaseline k c M) :=
  quiet_ite (quiet_send (by rfl) (by nofun) M) quiet_nil

lemma quiet_ignore (k : ℕ) (M : Publisher) : Quiet (replCommitIgnore k M) :=
  quiet_ite quiet_nil (quiet_send (by rfl) (by nofun) M)

lemma quiet_forget (k : ℕ) (M : Publisher) : Quiet (replCommitForget k M) :=
  quiet_ite quiet_nil (quiet_send (by rfl) (by nofun) M)

lemma quiet_resume (marker : ℕ) (M : Publisher) : Quiet (replCommitResume marker M) :=
  quiet_ite quiet_nil (quiet_send (by rfl) (by nofun) M)

lemma commitFlush_publishes (hM : M.Idle) : Publishes M (commitFlush M) [] := by
  unfold commitFlush
  split
  · exact publishes_quiet (.refl M) quiet_nil
  · rename_i hne
    have hconn : M.connected = true := by
      by_contra hc
      exact hne (by simp [hM (by simpa using hc)])
    exact ⟨by simp [commitSend, hconn, Msg.descs], by simp [writesOf], by simp [writesOf], by simp [commitSend, hconn],
      fun _ _ => rfl⟩

lemma commitBatchAdd_publishes {d : CommitDesc} (hb : M'.batch = M.batch) (hconn : M'.connected = true)
    (hd : d.write = true ∧ d.global = M.globalSeq + 1 ∧ M'.globalSeq = M.globalSeq + 1 ∨
      d.write = false ∧ M'.globalSeq = M.globalSeq) :
    Publishes M (commitBatchAdd d M') [d] := by
  have hidle : Publisher.Idle { M' with batch := M'.batch ++ [d] } := fun hc => absurd (hconn.symm.trans hc) nofun
  have hadd : Publishes M ({ M' with batch := M'.batch ++ [d] }, []) [d] := by
    refine ⟨by simp [hb], ?_, ?_, by simp, fun _ => hidle⟩
    · rcases hd with ⟨hw, hg, -⟩ | ⟨hw, -⟩ <;> simp [writesOf, hw]
      exact hg
    · rcases hd with ⟨hw, -, hg⟩ | ⟨hw, hg⟩ <;> simp [writesOf, hw, hg]
  unfold commitBatchAdd
  simp only
  split
  · exact hadd.trans (commitFlush_publishes hidle)
  · exact hadd

lemma commitBatchAdd_keeps (d : CommitDesc) (M : Publisher) :
    (commitBatchAdd d M).1.session = M.session ∧ (commitBatchAdd d M).1.conns = M.conns ∧
      (commitBatchAdd d M).1.connected = M.connected := by
  unfold commitBatchAdd commitFlush
  simp only
  split
  · split <;> exact ⟨rfl, rfl, rfl⟩
  · exact ⟨rfl, rfl, rfl⟩

/-- The command of this connection gets a descriptor. -/
def Publisher.takes (M : Publisher) (k : ℕ) (c : Conn) : Bool :=
  commitEligible k c && !c.committed && c.parsedSeq != 0 && M.session != 0

lemma commitPublish_of_takes {k : ℕ} {c : Conn} (hc : M.conns.lookup k = some c) (ht : M.takes k c = true)
    (w : Bool) (raw : Bytes) : commitPublish w k raw M =
      if !M.connected then (M.setConn k { c with committed := true }, [])
      else commitBatchAdd ⟨k, c.parsedSeq, if w then M.globalSeq + 1 else 0, kvsCmdCrc64 raw, raw.length, w⟩
        { M.setConn k { c with committed := true } with globalSeq := M.globalSeq + if w then 1 else 0 } := by
  simp only [Publisher.takes, Bool.and_eq_true, Bool.not_eq_true', bne_iff_ne] at ht
  have hguard : (!commitEligible k c || c.committed || c.parsedSeq == 0 || M.session == 0) = false := by
    simp [ht.1.1.1, ht.1.1.2, ht.1.2, ht.2]
  unfold commitPublish
  rw [hc]
  simp only [hguard, Bool.false_eq_true, if_false]
  cases w <;> rfl

lemma commitPublish_of_not_takes {k : ℕ} {c : Conn} (hc : M.conns.lookup k = some c) (ht : M.takes k c = false)
    (w : Bool) (raw : Bytes) : commitPublish w k raw M = (M, []) := by
  have hguard : (!commitEligible k c || c.committed || c.parsedSeq == 0 || M.session == 0) = true := by
    simpa [Publisher.takes, or_assoc, imp_iff_not_or] using ht
  unfold commitPublish
  rw [hc]
  simp only [hguard, if_true]

lemma commitPublish_twice (k : ℕ) (raw : Bytes) (M : Publisher) (w w' : Bool) :
    commitPublish w' k raw (commitPublish w k raw M).1 = ((commitPublish w k raw M).1, []) := by
  cases hc : M.conns.lookup k with
  | none => simp [commitPublish, hc]
  | some c =>
    cases ht : M.takes k c with
    | false => rw [commitPublish_of_not_takes hc ht, commitPublish_of_not_takes hc ht]
    | true =>
      have hconns : (commitPublish w k raw M).1.conns.lookup k = some { c with committed := true } := by
        rw [commitPublish_of_takes hc ht]
        split
        · exact AList.lookup_insert _
        · rw [(commitBatchAdd_keeps _ _).2.1]
          exact AList.lookup_insert _
      exact commitPublish_of_not_takes hconns (by simp [Publisher.takes]) w' raw

lemma command_eq {k : ℕ} {c : Conn} (hc : M.conns.lookup k = some c) (raw : Bytes) (w : Bool) :
    M.step (.command k raw w) = commitPublish w k raw (M.setConn k c.dispatch) := by
  simp only [Publisher.step, hc, replCommitPublishSkip, replCommitPublishWrite]
  cases w with
  | false => rfl
  | true =>
    simp only [if_true, commitPublish_twice, append_nil]

lemma commitPublish_publishes (M : Publisher) (w : Bool) (k : ℕ) (raw : Bytes) :
    ∃ ds, (w = false → writesOf ds = []) ∧ Publishes M (commitPublish w k raw M) ds := by
  have hnone : ∀ M', SameQueue M M' → ∃ ds, (w = false → writesOf ds = []) ∧ Publishes M (M', []) ds := fun M' h =>
    ⟨[], fun _ => rfl, publishes_quiet h quiet_nil⟩
  cases hc : M.conns.lookup k with
  | none =>
    have hsame : commitPublish w k raw M = (M, []) := by simp [commitPublish, hc]
    rw [hsame]
    exact hnone M (.refl M)
  | some c =>
    cases ht : M.takes k c with
    | false =>
      rw [commitPublish_of_not_takes hc ht]
      exact hnone M (.refl M)
    | true =>
      rw [commitPublish_of_takes hc ht]
      split
      · exact hnone _ (sameQueue_setConn ..)
      · rename_i hconn
        have hconn : M.connected = true := by simpa using hconn
        cases w with
        | true => exact ⟨_, nofun, commitBatchAdd_publishes rfl hconn (.inl ⟨rfl, rfl, rfl⟩)⟩
        | false => exact ⟨_, fun _ => rfl, commitBatchAdd_publishes rfl hconn (.inr ⟨rfl, rfl⟩)⟩

/-- It is a client's connection with a cookie. -/
def Publisher.Eligible (M : Publisher) (k : ℕ) : Prop :=
  k ≠ 0 ∧ ∃ c, M.conns.lookup k = some c ∧ c.isReplica = false

lemma command_write_publishes {k : ℕ} (raw : Bytes) (hk : M.Eligible k) (hs : M.session ≠ 0)
    (hconn : M.connected = true) : ∃ seq, Publishes M (M.step (.command k raw true))
      [⟨k, seq, M.globalSeq + 1, kvsCmdCrc64 raw, raw.length, true⟩] := by
  obtain ⟨hk, c, hc, hr⟩ := hk
  have hlookup : (M.setConn k c.dispatch).conns.lookup k = some c.dispatch := AList.lookup_insert _
  have htakes : (M.setConn k c.dispatch).takes k c.dispatch = true := by
    simp [Publisher.takes, commitEligible, Conn.dispatch, hr, hk, hs, Publisher.setConn]
  rw [command_eq hc, commitPublish_of_takes hlookup htakes, if_neg (by simp [Publisher.setConn, hconn])]
  exact ⟨_, commitBatchAdd_publishes rfl hconn (.inl ⟨rfl, rfl, rfl⟩)⟩

lemma command_publishes (M : Publisher) (k : ℕ) (raw : Bytes) (w : Bool) :
    ∃ ds, (w = false → writesOf ds = []) ∧ Publishes M (M.step (.command k raw w)) ds := by
  cases hc : M.conns.lookup k with
  | none => exact ⟨[], fun _ => rfl, by simpa [Publisher.step, hc] using publishes_quiet (.refl M) quiet_nil⟩
  | some c =>
    rw [command_eq hc]
    obtain ⟨ds, hds, h⟩ := commitPublish_publishes (M.setConn k c.dispatch) w k raw
    exact ⟨ds, hds, { h with }⟩

lemma isReplica_dispatch (c : Conn) : c.dispatch.isReplica = c.isReplica := by
  unfold Conn.dispatch
  split <;> rfl

lemma command_silent {k : ℕ} (h : ¬ (M.Eligible k ∧ M.connected = true)) (raw : Bytes) (w : Bool) :
    ∃ M', SameQueue M M' ∧ M.step (.command k raw w) = (M', []) := by
  cases hc : M.conns.lookup k with
  | none => exact ⟨M, .refl M, by simp [Publisher.step, hc]⟩
  | some c =>
    have hlookup : (M.setConn k c.dispatch).conns.lookup k = some c.dispatch := AList.lookup_insert _
    rw [command_eq hc]
    cases ht : (M.setConn k c.dispatch).takes k c.dispatch with
    | false =>
      rw [commitPublish_of_not_takes hlookup ht]
      exact ⟨_, sameQueue_setConn .., rfl⟩
    | true =>
      simp only [Publisher.takes, commitEligible, Bool.and_eq_true, Bool.not_eq_true', bne_iff_ne] at ht
      have helig : M.Eligible k := ⟨ht.1.1.1.2, c, hc, isReplica_dispatch c ▸ ht.1.1.1.1⟩
      have hconn : M.connected = false := by simpa using not_and.mp h helig
      rw [commitPublish_of_takes hlookup (by simp [Publisher.takes, commitEligible, ht]),
        if_pos (by simp [Publisher.setConn, hconn])]
      exact ⟨(M.setConn k c.dispatch).setConn k { c.dispatch with committed := true }, ⟨rfl, rfl, rfl⟩, rfl⟩

/-- The session, the channel and the connections that have descriptors stay. -/
structure SameGate (M M' : Publisher) : Prop where
  session : M'.session = M.session
  connected : M'.connected = M.connected
  eligible : ∀ j, M.Eligible j → M'.Eligible j

lemma sameGate_setConn {k : ℕ} {c c' : Conn} (hc : M.conns.lookup k = some c) (hr : c'.isReplica = c.isReplica) :
    SameGate M (M.setConn k c') := by
  refine ⟨rfl, rfl, ?_⟩
  rintro j ⟨hj, d, hd, hd'⟩
  by_cases hjk : j = k
  · subst hjk
    cases hc.symm.trans hd
    exact ⟨hj, c', AList.lookup_insert _, hr.trans hd'⟩
  · exact ⟨hj, d, (AList.lookup_insert_ne hjk).trans hd, hd'⟩

lemma SameGate.trans {M'' : Publisher} (h : SameGate M M') (h' : SameGate M' M'') : SameGate M M'' :=
  ⟨h'.session.trans h.session, h'.connected.trans h.connected, fun j hj => h'.eligible j (h.eligible j hj)⟩

lemma commitPublish_sameGate (M : Publisher) (w : Bool) (k : ℕ) (raw : Bytes) : SameGate M (commitPublish w k raw M).1 := by
  cases hc : M.conns.lookup k with
  | none => exact ⟨by simp [commitPublish, hc], by simp [commitPublish, hc], by simp [commitPublish, hc]⟩
  | some c =>
    cases ht : M.takes k c with
    | false =>
      rw [commitPublish_of_not_takes hc ht]
      exact ⟨rfl, rfl, fun _ => id⟩
    | true =>
      have hset : SameGate M (M.setConn k { c with committed := true }) := sameGate_setConn hc rfl
      rw [commitPublish_of_takes hc ht]
      split
      · exact hset
      · obtain ⟨hs, hcs, hconn⟩ := commitBatchAdd_keeps
          ⟨k, c.parsedSeq, if w then M.globalSeq + 1 else 0, kvsCmdCrc64 raw, raw.length, w⟩
          { M.setConn k { c with committed := true } with globalSeq := M.globalSeq + if w then 1 else 0 }
        refine ⟨hs, hconn, fun j hj => ?_⟩
        rw [Publisher.Eligible, hcs]
        exact hset.eligible j hj

lemma command_sameGate (M : Publisher) (k : ℕ) (raw : Bytes) (w : Bool) : SameGate M (M.step (.command k raw w)).1 := by
  cases hc : M.conns.lookup k with
  | none => exact ⟨by simp [Publisher.step, hc], by simp [Publisher.step, hc], by simp [Publisher.step, hc]⟩
  | some c =>
    rw [command_eq hc]
    exact (sameGate_setConn hc (isReplica_dispatch c)).trans (commitPublish_sameGate ..)

lemma step_publishes (hM : M.Idle) (e : ClientEvent) : ∃ ds, Publishes M (M.step e) ds := by
  cases e with
  | accept k => exact ⟨[], publishes_quiet (sameQueue_setConn ..) (quiet_baseline k {} M)⟩
  | command k raw write =>
    obtain ⟨ds, -, h⟩ := command_publishes M k raw write
    exact ⟨ds, h⟩
  | replsync k raw accepted =>
    simp only [Publisher.step]
    split
    · exact ⟨[], publishes_quiet (.refl M) quiet_nil⟩
    · rename_i c _
      generalize ({ c.dispatch with isReplica := c.isReplica || accepted } : Conn) = c'
      have hignore : Publishes M (M.setConn k c', replCommitIgnore k (M.setConn k c')) [] :=
        publishes_quiet (sameQueue_setConn ..) (quiet_ignore _ _)
      obtain ⟨ds, -, hskip⟩ := commitPublish_publishes (M.setConn k c') false k raw
      exact ⟨_, hignore.trans hskip⟩
  | close k => exact ⟨[], publishes_quiet ⟨rfl, rfl, rfl⟩ (quiet_forget k M)⟩
  | flush => exact ⟨[], commitFlush_publishes hM⟩
  | resume marker => exact ⟨[], publishes_quiet (.refl M) (quiet_resume marker M)⟩

lemma run_publishes (hM : M.Idle) (es : List ClientEvent) : ∃ ds, Publishes M (M.run es) ds := by
  induction es generalizing M with
  | nil => exact ⟨[], publishes_quiet (.refl M) quiet_nil⟩
  | cons e es ih =>
    obtain ⟨ds, hstep⟩ := step_publishes hM e
    obtain ⟨ds', hrun⟩ := ih (hstep.idle hM)
    exact ⟨ds ++ ds', hstep.trans hrun⟩

lemma sessionRun_publishes (sid : ℕ) (hM : M.Idle) (es : List ClientEvent) :
    ∃ ds, Publishes M (M.sessionRun sid es) ds := by
  have hbegin : Publishes M (replCommitSessionBegin sid M) [] := by
    refine publishes_quiet ⟨rfl, rfl, rfl⟩ fun m hm => ?_
    obtain ⟨e, -, hm⟩ := mem_flatMap.mp hm
    split at hm
    · exact quiet_baseline _ _ _ m hm
    · exact absurd hm not_mem_nil
  obtain ⟨ds, hrun⟩ := run_publishes (hbegin.idle hM) es
  exact ⟨_, hbegin.trans hrun⟩

lemma numbered_of_prefix {f : ℕ} {ws ws' : List CommitDesc} (h : ws <+: ws')
    (hn : ws'.map (·.global) = List.range' f ws'.length) : ws.map (·.global) = List.range' f ws.length := by
  obtain ⟨rest, rfl⟩ := h
  rw [map_append, length_append, ← range'_append_1] at hn
  exact (append_inj hn (by simp)).1

lemma sent_numbered (sid : ℕ) (hb : M.batch = []) (es : List ClientEvent) :
    Msg.hello ∉ (M.sessionRun sid es).2 ∧ (writesOf (descsOf (M.sessionRun sid es).2)).map (·.global) =
      List.range' (M.globalSeq + 1) (writesOf (descsOf (M.sessionRun sid es).2)).length := by
  obtain ⟨ds, h⟩ := sessionRun_publishes sid (fun _ => hb) es
  refine ⟨h.noHello, numbered_of_prefix ⟨writesOf (M.sessionRun sid es).1.batch, ?_⟩ h.numbers⟩
  rw [← writesOf_append, h.descs, hb, nil_append]

end PocketKv.CommitGate
