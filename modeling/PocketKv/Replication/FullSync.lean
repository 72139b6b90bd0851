import PocketKv.Persistence.Aof
import PocketKv.Persistence.Dump
import PocketKv.Resp.Build

/-!
# Full synchronisation, the replica's side
-/

namespace PocketKv.Replication

open Library Resp Store Persistence

/-- What a `REPLDONE` stands for. -/
structure Done where
  file : Option Bytes
  dump : Option Bytes
  /-- The master's snapshot in the attempt that the `REPLDONE` ends. -/
  attempt : Bytes
  deriving DecidableEq

/-- A replica, as far as full synchronisation goes. -/
structure Slave where
  /-- `g_slave_loading_fullsync`. -/
  loading : Bool := false
  /-- `g_slave_fullsync_target_bytes`. -/
  targetBytes : ℕ := 0
  /-- `g_slave_fullsync_loaded_bytes`. -/
  loadedBytes : ℕ := 0
  /-- `g_slave_fullsync_finish_done`. -/
  finishDone : Bool := false
  /-- The temporary file, if `g_slave_fullsync_tmp_fd` is open. -/
  tmp : Option Bytes := none
  /-- `transfer_id` of the target. -/
  tid : ℕ := 0
  target : Option Bytes := none
  mapped : Bool := false
  /-- `expected_bytes` of the target. -/
  expected : ℕ := 0
  /-- `complete` of the target. -/
  complete : Bool := false
  /-- `g_slave_fullsync_aborted_tid`. -/
  abortedTid : ℕ := 0
  /-- `repl_rdma_write_buf_max_mb`, in bytes. -/
  writeBufMax : ℕ := 256 * 1024 * 1024
  ready : Bool := true
  /-- `g_repl_rdma_ctx.connected`. -/
  connected : Bool := true
  db : Db := Db.empty
  /-- The file at `dump_path`. -/
  dump : Option Bytes := none
  aof : Aof := {}
  offered : Bytes := []
  /-- History: the snapshot of the attempt whose `+FULLRESYNC` was taken last. -/
  attempt : Bytes := []
  landed : List (ℕ × ℕ) := []
  /-- History: the `REPLDONE`s that were sent. -/
  repldone : List Done := []

namespace Slave

/-- The file that `repl_slave_finish_fullsync` loads. -/
def received (S : Slave) : Option Bytes := S.target <|> S.tmp

/-- The target is mapped but its descriptor was closed; `repl_rdma_slave_target_cleanup` takes it for heap memory
then. -/
def leaked (S : Slave) : Bool := S.mapped && S.target.isNone

/-- `repl_rdma_slave_target_cleanup`. -/
def targetCleanup (S : Slave) : Slave :=
  { S with tid := 0, target := none, mapped := false, expected := 0, complete := false }

/-- The target file is mapped. -/
def openTarget (totalBytes : ℕ) (S : Slave) : Slave :=
  { S with
    target := some (List.replicate totalBytes 0), mapped := true, expected := totalBytes, tmp := none
    landed := [] }

/-- `repl_rdma_slave_prepare_target` gets past its checks. -/
def accepts (tid totalBytes : ℕ) (S : Slave) : Bool :=
  decide (totalBytes ≠ 0 ∧ tid ≠ 0 ∧ totalBytes ≤ S.writeBufMax ∧ S.abortedTid ≠ tid)

/-- `repl_rdma_slave_prepare_target`. -/
def prepareTarget (tid totalBytes : ℕ) (S : Slave) : Slave :=
  let S := S.targetCleanup
  if S.accepts tid totalBytes then
    let S := { S with tid := tid }
    if S.ready then S.openTarget totalBytes else S
  else S

/-- `repl_rdma_slave_abort_target`. -/
def abortTarget (tid : ℕ) (S : Slave) : Slave :=
  if S.tid ≠ 0 ∧ S.tid ≠ tid then S
  else
    let S := { S with abortedTid := tid }
    if !S.mapped && S.target.isNone then S else S.targetCleanup

/-- `repl_rdma_slave_finalize_signal`. -/
def finalizeSignal (tid : ℕ) (S : Slave) : Slave :=
  if S.tid ≠ 0 ∧ S.tid ≠ tid then S
  else if S.mapped || S.target.isSome then { S with complete := true }
  else S

/-- `repl_slave_set_sync_state`. -/
def setSyncState (fullsyncLoading : Bool) (fullsyncTargetBytes : ℕ) (S : Slave) : Slave :=
  { S with
    loading := fullsyncLoading
    targetBytes := if fullsyncLoading then fullsyncTargetBytes else 0
    loadedBytes := 0
    finishDone := if fullsyncLoading then false else S.finishDone
    -- a file that is open already is not emptied
    tmp := if fullsyncLoading then some (S.tmp.getD []) else none }

/-- A `+FULLRESYNC` line is taken. -/
def startFullsync (target tid : ℕ) (S : Slave) : Slave :=
  let S := { S.setSyncState true target with attempt := S.offered }
  if 0 < target then S.prepareTarget tid target else S

/-- The file is loaded and becomes the dump. -/
def adopt (now : ℤ) (file : Bytes) (S : Slave) : Slave :=
  { S with
    db := (replayDumpFile now file S.db).2
    dump := some (kvsDumpSetAofOffset file 0)
    aof := persistAofRebase S.aof }

/-- `repl_slave_send_repldone`. -/
def sendRepldone (file : Option Bytes) (S : Slave) : Slave :=
  { S with repldone := S.repldone ++ [⟨file, S.dump, S.attempt⟩] }

/-- Loading is over. -/
def close (S : Slave) : Slave :=
  { S with
    finishDone := true, loading := false, targetBytes := 0, loadedBytes := 0, tmp := none
    target := none }

/-- `repl_slave_finish_fullsync`. Without a file, loading and renaming fail, and the `REPLDONE` is sent all the
same. -/
def finishFullsync (now : ℤ) (S : Slave) : Slave :=
  if S.finishDone then S
  else
    match S.received with
    | none => S.close.sendRepldone none
    | some file => (S.close.adopt now file).sendRepldone (some file)

/-- `repl_rdma_slave_check_write_complete`. -/
def checkWriteComplete (now : ℤ) (S : Slave) : Slave :=
  if S.complete && S.mapped && S.connected then
    finishFullsync now { S with mapped := false, loadedBytes := S.expected }
  else S

/-- Bytes of a file are replaced. -/
def overwrite (file : Bytes) (offset : ℕ) (data : Bytes) : Bytes :=
  file.take offset ++ data ++ file.drop (offset + data.length)

/-- `repl_rdma_slave_target_write`. -/
def targetWrite (data : Bytes) (loadedOffset : ℕ) (S : Slave) : Option Slave :=
  match S.target with
  | none => none
  | some file =>
    if !S.mapped || S.expected < loadedOffset + data.length then none
    else some { S with target := some (overwrite file loadedOffset data) }

/-- Snapshot bytes are put into the target, or else into the temporary file if there is one. -/
def store (data : Bytes) (S : Slave) : Slave :=
  match S.targetWrite data S.loadedBytes with
  | some S' => S'
  | none => { S with tmp := S.tmp.map (· ++ data) }

/-- The interception of `parse_resp_stream`: the new state, and the number of bytes taken. -/
def intercept (now : ℤ) (S : Slave) (xs : Bytes) : Slave × Option ℕ :=
  let n := min xs.length (S.targetBytes - S.loadedBytes)
  let S : Slave := { S.store (xs.take n) with loadedBytes := S.loadedBytes + n }
  (if 0 < S.targetBytes ∧ S.targetBytes ≤ S.loadedBytes then S.finishFullsync now else S, some n)

/-- The effect of a command on the data is not part of the transfer, but for `REPLDONE`, which a replica takes too.
-/
def handle (now : ℤ) (S : Slave) : Event → Slave
  | .control (.fullResync _ _ target (some tid)) => S.startFullsync target tid
  | .control (.fullSyncAbort tid) => S.abortTarget tid
  | .control (.fullSyncEnd tid) => S.finalizeSignal tid
  | .control (.continue ..) => S.setSyncState false 0
  | .command argv _ => if argv.head?.map asciiUpper = some (str "REPLDONE") then S.finishFullsync now else S
  | _ => S

/-- An RDMA write of the master reaches the target: the bytes of the snapshot at their place. -/
def land (offset len : ℕ) (S : Slave) : Slave :=
  match S.target with
  | none => S
  | some file =>
    { S with
      target := some (overwrite file offset ((S.attempt.drop offset).take len))
      landed := (offset, len) :: S.landed }

/-! ### What the steps leave alone -/

lemma loading_finishFullsync (now : ℤ) (S : Slave) (h : (S.finishFullsync now).loading = true) :
    S.loading = true := by
  unfold finishFullsync at h
  split at h
  · exact h
  · split at h <;> cases h

lemma loading_handle (now : ℤ) (S : Slave) (e : Event) (h : (S.handle now e).loading = true) :
    S.loading = true ∨ e.startsLoading = true := by
  unfold handle at h
  split at h
  · exact .inr rfl
  · left
    unfold abortTarget at h
    dsimp only at h
    split at h
    · exact h
    · split at h <;> exact h
  · left
    unfold finalizeSignal at h
    split at h
    · exact h
    · split at h <;> exact h
  · cases h
  · left
    split at h
    · exact loading_finishFullsync now S h
    · exact h
  · exact .inl h

end Slave

/-- The replica, for the parser. -/
def slaveHooks (now : ℤ) : Hooks Slave where
  loading := Slave.loading
  intercept := Slave.intercept now
  handle := Slave.handle now
  start := Slave.loading_handle now

end PocketKv.Replication
