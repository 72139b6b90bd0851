import PocketKv.Library.Run
import PocketKv.Replication.Backlog

/-!
# Synchronising replicas
-/

namespace PocketKv.Replication

open Library Resp Function

/-- `g_barrier_…`. -/
structure Barrier where
  /-- `g_barrier_active`. -/
  active : Bool := false
  /-- `g_barrier_ack_gated`. -/
  ackGated : Bool := false
  /-- `g_barrier_end_offset`. -/
  endOffset : ℕ := 0
  /-- `g_barrier_resume_global`. -/
  resumeGlobal : ℕ := 0
  /-- `g_barrier_resume_valid`. -/
  resumeValid : Bool := false
  /-- `g_barrier_deadline_ms`. -/
  deadline : ℕ := 0
  deriving DecidableEq

/-- What the master waits for from a replica. -/
inductive Catchup where
  /-- `REPLDONE`. -/
  | full
  /-- An applied offset of at least `catchup_end`. -/
  | upto (catchupEnd : ℕ)
  deriving DecidableEq

/-- A release of the barrier: whose message it was, whether it confirmed a catch-up, and who still
owed one. -/
structure Release where
  sender : ℕ
  confirmed : Bool
  owing : List ℕ
  deriving DecidableEq

/-- The master, as far as synchronising goes. -/
structure Resync where
  cfg : Cfg := {}
  /-- `ebpf_pin_path` is set. -/
  pinned : Bool := true
  /-- `repl_barrier_hold_max_ms`. -/
  holdMax : ℕ := 15000
  /-- The backlog, the offset, and `g_replicas`. -/
  history : History
  conns : ℕ → Replica := fun _ => { kind := .tcp }
  /-- `g_repl_fullsync_in_progress`. -/
  inProgress : Bool := false
  barrier : Barrier := {}
  /-- `FULLSYNC_STATE` in the control map. -/
  fullsyncState : Bool := false
  /-- The replica's snapshot was begun, and it has not sent `REPLDONE`. -/
  syncing : ℕ → Bool := fun _ => false
  owed : ℕ → Option Catchup := fun _ => none
  releases : List Release := []

/-- What `REPLSYNC` meets. -/
structure SyncEnv where
  handshake : Bool := true
  /-- `queue_snapshot` returns 0. -/
  snapshot : Bool := true
  /-- `repl_commit_resume` returns 0. -/
  resume : Bool := true
  /-- `repl_commit_global_seq`. -/
  globalSeq : ℕ := 0
  /-- `kvs_now_ms`. -/
  now : ℕ := 0

namespace Resync

/-- `g_replicas`. -/
def replicas (M : Resync) : List ℕ := M.history.replicas

/-- The state of a connection is set. -/
def setConn (c : ℕ) (r : Replica) (M : Resync) : Resync := { M with conns := update M.conns c r }

/-- `repl_proxy_barrier_needed`. -/
def replProxyBarrierNeeded (M : Resync) : Bool :=
  M.pinned && (named "ebpf+tcp" M.cfg.realtime || named "ebpf+tcp" M.cfg.backend)

/-- What a replica owes is set. -/
def setOwed (c : ℕ) (x : Option Catchup) (M : Resync) : Resync := { M with owed := update M.owed c x }

/-- The other replicas that owe a catch-up. -/
def othersOwing (M : Resync) (c : ℕ) : List ℕ := M.replicas.filter fun d => d ≠ c && (M.owed d).isSome

/-- `repl_session_invalidate`: the replicas that the proxy serves are shut down. -/
def replSessionInvalidate (M : Resync) : Resync :=
  { M with
    conns := fun c =>
      if c ∈ M.replicas ∧ (M.conns c).kind = .ebpfTcp then { M.conns c with draining := true } else M.conns c }

/-- `repl_reject_replica`. -/
def replRejectReplica (c : ℕ) (M : Resync) : Resync :=
  M.setConn c { M.conns c with draining := true, fullsyncPending := false }

/-- The barrier is put up. -/
def raised (env : SyncEnv) (M : Resync) : Resync :=
  { M with
    barrier := { active := true, endOffset := M.history.offset, resumeGlobal := env.globalSeq, resumeValid := true }
    fullsyncState := true
    owed := fun _ => none }

/-- `repl_barrier_begin`, and whether it returns 0. A barrier that is up already stays as it is. -/
def replBarrierBegin (env : SyncEnv) (M : Resync) : Resync × Bool :=
  if !M.replProxyBarrierNeeded then (M, true)
  else if M.barrier.active then (M, true)
  else if env.handshake then (M.raised env, true)
  else
    ({ M with barrier := { M.barrier with resumeGlobal := 0, resumeValid := false }, fullsyncState := false }, false)

/-- RESUME is sent, or need not be. -/
def resumes (M : Resync) (resume : Bool) : Bool :=
  !(commitActiveMode M.cfg && M.barrier.resumeValid) || resume

/-- `repl_barrier_release`, for a message of the connection `c`. -/
def replBarrierRelease (c : ℕ) (confirmed resume : Bool) (M : Resync) : Resync :=
  if !M.barrier.active then M
  else
    let down : Barrier := { endOffset := M.barrier.endOffset }
    if M.replProxyBarrierNeeded then
      if M.resumes resume then
        { M with
          barrier := down, fullsyncState := false
          releases := M.releases ++ [⟨c, confirmed, M.othersOwing c⟩] }
      else { M.replSessionInvalidate with barrier := down }
    else { M with barrier := down }

/-- `repl_barrier_cancel`. -/
def replBarrierCancel (M : Resync) : Resync :=
  if !M.barrier.active && !M.barrier.resumeValid then M
  else { M with barrier := { endOffset := M.barrier.endOffset } }

/-- `repl_barrier_gate_on_ack`. -/
def replBarrierGateOnAck (now : ℕ) (M : Resync) : Resync :=
  if !M.barrier.active then M
  else { M with barrier := { M.barrier with ackGated := true, deadline := now + M.holdMax } }

/-- `repl_barrier_note_applied`. -/
def replBarrierNoteApplied (c applied : ℕ) (confirmed resume : Bool) (M : Resync) : Resync :=
  if !M.barrier.active || !M.barrier.ackGated then M
  else if M.barrier.endOffset ≤ applied then M.replBarrierRelease c confirmed resume
  else M

/-- `repl_barrier_tick`. -/
def replBarrierTick (now : ℕ) (M : Resync) : Resync :=
  if !M.barrier.active || !M.barrier.ackGated || M.barrier.deadline = 0 then M
  else if now < M.barrier.deadline then M
  else M.replBarrierCancel.replSessionInvalidate

/-- `repl_add_slave`. -/
def replAddSlave (c : ℕ) (M : Resync) : Resync :=
  { M.setConn c { M.conns c with draining := false, fullsyncPending := false, fwdHealthy := false } with
    history := M.history.step (.attach c) }

/-- `repl_unlink_replica_locked`; if none is left the session ends, and with it the barrier. -/
def unlink (gone : ℕ → Bool) (M : Resync) : Resync :=
  let left := M.replicas.filter fun c => !gone c
  let M' : Resync :=
    { M with
      history := { M.history with replicas := left }
      conns := fun c =>
        if gone c then { M.conns c with draining := false, fullsyncPending := false, fwdHealthy := false }
        else M.conns c
      syncing := fun c => !gone c && M.syncing c }
  if left = [] ∧ M.replicas ≠ [] then M'.replBarrierCancel else M'

/-- `close_conn`; a connection that is accepted later at this address begins anew. -/
def closeConn (c : ℕ) (M : Resync) : Resync :=
  let M := if c ∈ M.replicas then M.unlink (· = c) else M
  M.setConn c { kind := .tcp }

/-- What `repl_broadcast` does with a replica. -/
def served (raw : Bytes) (M : Resync) (c : ℕ) : Option Replica :=
  broadcastTo M.inProgress M.history.offset raw (M.conns c)

/-- Each replica is served. -/
def serve (raw : Bytes) (M : Resync) : Resync :=
  { M with conns := fun c => if c ∈ M.replicas then (M.served raw c).getD (M.conns c) else M.conns c }

/-- `repl_broadcast`. -/
def replBroadcast (raw : Bytes) (M : Resync) : Resync :=
  (M.serve raw).unlink fun c => c ∈ M.replicas && (M.served raw c).isNone

/-- `queue_snapshot`, if it returns what `env` says. -/
def queueSnapshot (c : ℕ) (env : SyncEnv) (M : Resync) : Resync :=
  { M with
    inProgress := true
    history := M.history.step .fullsync
    syncing := update M.syncing c env.snapshot }

/-- The `REPLSYNC` of a connection whose barrier is up or not needed. -/
def startSync (c : ℕ) (canContinue : Bool) (reqOffset : ℕ) (env : SyncEnv) (M : Resync) : Resync :=
  let catchupEnd := M.history.offset
  let M := M.replAddSlave c
  let M := M.setConn c { M.conns c with fullsyncPending := !canContinue }
  if canContinue then
    if catchupEnd ≤ reqOffset then (M.setOwed c none).replBarrierRelease c true env.resume
    else (M.setOwed c (some (.upto catchupEnd))).replBarrierGateOnAck env.now
  else
    let M := (M.setOwed c (some .full)).queueSnapshot c env
    if env.snapshot then M else (M.replRejectReplica c).replBarrierRelease c false env.resume

/-- `REPLSYNC` can be answered from the backlog; not without an offset. -/
def continues (M : Resync) (replid : Bytes) (off : Option ℕ) : Bool := off.any fun o => M.history.canContinue replid o

/-- The handler of `REPLSYNC`. -/
def replsync (c : ℕ) (replid : Bytes) (off : Option ℕ) (env : SyncEnv) (M : Resync) : Resync :=
  let canContinue := M.continues replid off
  let M := M.setConn c { M.conns c with kind := replsyncKind M.cfg (M.conns c).kind }
  match M.replBarrierBegin env with
  | (M, false) => M.replRejectReplica c
  | (M, true) => M.startSync c canContinue (off.getD 0) env

/-- The offset ends the catch-up that the replica owes. -/
def caughtUp (M : Resync) (c applied : ℕ) : Bool :=
  match M.owed c with
  | some (.upto catchupEnd) => catchupEnd ≤ applied
  | _ => false

/-- `REPLACK`; `cacheInvalid` tells that the proxy has given up its cache. -/
def replack (c applied : ℕ) (cacheInvalid resume : Bool) (M : Resync) : Resync :=
  let confirmed := M.caughtUp c applied
  let M := M.setOwed c (if confirmed then none else M.owed c)
  if (M.conns c).kind = .ebpfTcp && cacheInvalid then M.replRejectReplica c
  else M.replBarrierNoteApplied c applied confirmed resume

/-- The full sync of a replica is over. -/
def endSync (c : ℕ) (M : Resync) : Resync :=
  { M with inProgress := false, syncing := update M.syncing c false }

/-- The handler of `REPLDONE`. -/
def repldone (c : ℕ) (resume : Bool) (M : Resync) : Resync :=
  if c ∈ M.replicas then
    let confirmed := decide (M.owed c = some .full)
    let M := M.setOwed c (if confirmed then none else M.owed c)
    let M := M.setConn c { M.conns c with fullsyncPending := false }
    (M.endSync c).replBarrierRelease c confirmed resume
  else M

/-- What happens on the master. -/
inductive Input where
  /-- `REPLSYNC`. -/
  | replsync (c : ℕ) (replid : Bytes) (off : Option ℕ) (env : SyncEnv)
  /-- `REPLACK`. -/
  | replack (c applied : ℕ) (cacheInvalid resume : Bool)
  /-- `REPLDONE`. -/
  | repldone (c : ℕ) (resume : Bool)
  | write (raw : Bytes) (alloc : Bool)
  | broadcast (raw : Bytes)
  | close (c : ℕ)
  | tick (now : ℕ)
  /-- `repl_commit_rearm_tick` finds that the proxy failed. -/
  | proxyFailed

/-- A step. -/
def step (M : Resync) : Input → Resync
  | .replsync c replid off env => M.replsync c replid off env
  | .replack c applied cacheInvalid resume => M.replack c applied cacheInvalid resume
  | .repldone c resume => M.repldone c resume
  | .write raw alloc => { M with history := M.history.step (.write raw alloc) }.replBroadcast raw
  | .broadcast raw => M.replBroadcast raw
  | .close c => M.closeConn c
  | .tick now => M.replBarrierTick now
  | .proxyFailed => M.replSessionInvalidate

/-- The master when it starts. -/
def start (cfg : Cfg) (pinned : Bool) (holdMax : ℕ) (masterId : Bytes) : Resync where
  cfg := cfg
  pinned := pinned
  holdMax := holdMax
  history := { replid := masterId }

/-- `REPLSYNC` goes on: the barrier is not needed, up already, or confirmed. -/
def admits (M : Resync) (env : SyncEnv) : Bool :=
  !M.replProxyBarrierNeeded || M.barrier.active || env.handshake

/-! ### What the operations leave alone -/

/-- The list, and who is in a full sync, are the same. -/
structure SamePhases (M M' : Resync) : Prop where
  inProgress : M'.inProgress = M.inProgress
  replicas : M'.replicas = M.replicas
  syncing : M'.syncing = M.syncing

section

variable {M M' M'' : Resync} {c : ℕ}

lemma SamePhases.refl (M : Resync) : SamePhases M M := ⟨rfl, rfl, rfl⟩

lemma SamePhases.trans (h : SamePhases M M') (h' : SamePhases M' M'') : SamePhases M M'' :=
  ⟨h'.inProgress.trans h.inProgress, h'.replicas.trans h.replicas, h'.syncing.trans h.syncing⟩

lemma samePhases_setConn (c : ℕ) (r : Replica) (M : Resync) : SamePhases M (M.setConn c r) := ⟨rfl, rfl, rfl⟩

lemma samePhases_setOwed (c : ℕ) (x : Option Catchup) (M : Resync) : SamePhases M (M.setOwed c x) := ⟨rfl, rfl, rfl⟩

lemma samePhases_serve (raw : Bytes) (M : Resync) : SamePhases M (M.serve raw) := ⟨rfl, rfl, rfl⟩

lemma samePhases_begin (env : SyncEnv) (M : Resync) : SamePhases M (M.replBarrierBegin env).1 := by
  unfold replBarrierBegin
  repeat' split
  all_goals exact ⟨rfl, rfl, rfl⟩

lemma samePhases_release (c : ℕ) (confirmed resume : Bool) (M : Resync) :
    SamePhases M (M.replBarrierRelease c confirmed resume) := by
  unfold replBarrierRelease
  repeat' split
  all_goals exact ⟨rfl, rfl, rfl⟩

lemma samePhases_cancel (M : Resync) : SamePhases M M.replBarrierCancel := by
  unfold replBarrierCancel
  split <;> exact ⟨rfl, rfl, rfl⟩

lemma samePhases_gate (now : ℕ) (M : Resync) : SamePhases M (M.replBarrierGateOnAck now) := by
  unfold replBarrierGateOnAck
  split <;> exact ⟨rfl, rfl, rfl⟩

lemma samePhases_noteApplied (c applied : ℕ) (confirmed resume : Bool) (M : Resync) :
    SamePhases M (M.replBarrierNoteApplied c applied confirmed resume) := by
  unfold replBarrierNoteApplied
  split
  · exact .refl M
  split
  · exact samePhases_release c confirmed resume M
  · exact .refl M

lemma samePhases_invalidate (M : Resync) : SamePhases M M.replSessionInvalidate := ⟨rfl, rfl, rfl⟩

lemma samePhases_tick (now : ℕ) (M : Resync) : SamePhases M (M.replBarrierTick now) := by
  unfold replBarrierTick
  split
  · exact .refl M
  split
  · exact .refl M
  · exact (samePhases_cancel M).trans (samePhases_invalidate _)

lemma samePhases_replack (c applied : ℕ) (cacheInvalid resume : Bool) (M : Resync) :
    SamePhases M (M.replack c applied cacheInvalid resume) := by
  unfold replack
  dsimp only
  generalize (if M.caughtUp c applied = true then none else M.owed c) = x
  split
  · exact (samePhases_setOwed ..).trans (samePhases_setConn ..)
  · exact (samePhases_setOwed ..).trans (samePhases_noteApplied ..)

end

end Resync

end PocketKv.Replication
