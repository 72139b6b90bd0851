import Mathlib.Data.List.AList
import PocketKv.Resp.Framer

/-!
# The commit gate of the eBPF proxy
-/

namespace PocketKv.CommitGate

open Resp

/-- `PC_MAX_CTX`. -/
def pcMaxCtx : ℕ := 4096

/-- `PC_CTX_BUF_CAP`. -/
def pcCtxBufCap : ℕ := 2 * 1024 * 1024

/-- `PC_MEMORY_MAX`, for what is pending and what is in the recovery buffer together. -/
def pcMemoryMax : ℕ := 256 * 1024 * 1024

/-- `PC_TIMEOUT_MS`. -/
def pcTimeoutMs : ℕ := 2000

/-- `REPL_COMMIT_BATCH_MAX`. -/
def replCommitBatchMax : ℕ := 64

/-- `kvs_cmd_crc64`, FNV-1a over the raw bytes of a command. -/
def kvsCmdCrc64 (raw : Bytes) : UInt64 :=
  raw.foldl (fun h b => (h ^^^ b.toUInt64) * 1099511628211) 1469598103934665603

/-- A command cut out of a connection's bytes (`pc_cmd_t`). -/
structure Cmd where
  seq : ℕ
  global : ℕ
  data : Bytes
  created : ℕ
  deriving DecidableEq

/-- What the master reports about a command (`repl_commit_desc_t`). -/
structure CommitDesc where
  cookie : ℕ
  seq : ℕ
  global : ℕ
  crc : UInt64
  len : ℕ
  /-- The command is a committed write (`REPL_COMMIT_FLAG_WRITE`). -/
  write : Bool
  deriving DecidableEq

/-- A descriptor waiting for its command (`pc_desc_t`). -/
structure Desc where
  desc : CommitDesc
  created : ℕ
  deriving DecidableEq

/-- A committed write in the recovery buffer (`pc_rec_t`), or passed on. -/
structure Rec where
  global : ℕ
  data : Bytes
  deriving DecidableEq

/-- A call of `emit`, with the fault at that moment. -/
structure Call where
  fault : Option ℕ
  write : Rec
  deriving DecidableEq

/-- The state kept for one connection (`pc_ctx_t`). -/
structure Ctx where
  buf : Bytes := []
  baseline : Bool := false
  ignored : Bool := false
  nextSeq : ℕ := 0
  lastRecv : Option ℕ := none
  cmds : List Cmd := []
  descs : List Desc := []
  /-- The commands that were framed, with their numbers. -/
  frames : List (Bytes × ℕ) := []
  deriving DecidableEq

/-- What the connections share. -/
structure Gate where
  /-- `g_next_global`: the number of the next write to pass on; 0 takes the first one that is ready. -/
  nextGlobal : ℕ := 0
  ready : List Cmd := []
  /-- `g_buffering`. -/
  buffering : Bool := false
  /-- `g_wait_resume` with its time. -/
  waitResume : Option ℕ := none
  recovery : List Rec := []
  /-- `g_pending_bytes`. -/
  pendingBytes : ℕ := 0
  fault : Option ℕ := none
  /-- What was handed over, to the recovery buffer or to `emit`. -/
  handed : List Rec := []
  /-- What `emit` accepted. -/
  emitted : List Rec := []
  /-- The calls of `emit`. -/
  calls : List Call := []
  deriving DecidableEq

/-- The time of a step, and what `emit` says to a write. -/
structure Env where
  /-- `pc_now_ms()`. -/
  now : ℕ
  /-- `g_emit` accepts the write. -/
  emit : Rec → Bool

/-! ### The gate -/

/-- `g_rec_bytes`. -/
def Gate.recBytes (g : Gate) : ℕ := (g.recovery.map (·.data.length)).sum

/-- `pc_fault`: only the first fault counts. -/
@[simps]
def Gate.raise (g : Gate) (reason : ℕ) : Gate :=
  { g with fault := g.fault.or (some reason) }

/-- The ready list is replaced. -/
@[simps]
def Gate.setReady (g : Gate) (rs : List Cmd) : Gate := { g with ready := rs }

/-- `g_next_global` is set. -/
@[simps]
def Gate.setNext (g : Gate) (n : ℕ) : Gate := { g with nextGlobal := n }

/-- `g_pending_bytes` is set. -/
@[simps]
def Gate.setPending (g : Gate) (n : ℕ) : Gate := { g with pendingBytes := n }

/-- A write is about to be passed on. -/
@[simps]
def Gate.hand (g : Gate) (r : Rec) : Gate := { g with handed := g.handed ++ [r] }

/-- A write is appended to the recovery buffer. -/
@[simps]
def Gate.toRecovery (g : Gate) (r : Rec) : Gate := { g with recovery := g.recovery ++ [r] }

/-- `emit` is called. -/
@[simps]
def Gate.call (g : Gate) (r : Rec) : Gate := { g with calls := g.calls ++ [⟨g.fault, r⟩] }

/-- A write is accepted by `emit`. -/
@[simps]
def Gate.toReplica (g : Gate) (r : Rec) : Gate := { g with emitted := g.emitted ++ [r] }

/-- `pc_cmd_free`. -/
def Gate.free (g : Gate) (c : Cmd) : Gate :=
  g.setPending (if c.data.length ≤ g.pendingBytes then g.pendingBytes - c.data.length else g.pendingBytes)

/-- The write of a command. -/
def Cmd.toRec (c : Cmd) : Rec := ⟨c.global, c.data⟩

/-- `pc_ready_insert`: the ready list is ordered by global number. -/
def pcReadyInsert (c : Cmd) : List Cmd → List Cmd
  | [] => [c]
  | d :: ds => if d.global < c.global then d :: pcReadyInsert c ds else c :: d :: ds

/-- `pc_recovery_append`. -/
def pcRecoveryAppend (c : Cmd) (g : Gate) : Gate :=
  let g := g.toRecovery c.toRec
  if pcMemoryMax < g.pendingBytes + g.recBytes then g.raise 5 else g

/-- Writes go to the recovery buffer: the replica is being synchronised, or a RESUME is awaited. -/
def Gate.diverts (g : Gate) : Bool := g.buffering || g.waitResume.isSome || 0 < g.recBytes

/-- `pc_emit_cmd`, with whether it returned 0. -/
def pcEmitCmd (env : Env) (c : Cmd) (g : Gate) : Gate × Bool :=
  let g := g.hand c.toRec
  if g.diverts then
    let g := pcRecoveryAppend c g
    (g, g.fault.isNone)
  else
    let g := g.call c.toRec
    if env.emit c.toRec then (g.toReplica c.toRec, true) else (g.raise 1, false)

/-- The loop of `pc_drain_ready`, with the length of the ready list for its fuel. -/
def drainLoop (env : Env) : ℕ → Gate → Gate
  | 0, g => g
  | fuel + 1, g =>
    match g.ready with
    | [] => g
    | c :: cs =>
      let g := if g.nextGlobal = 0 then g.setNext c.global else g
      if c.global < g.nextGlobal then g.raise 2
      else if g.nextGlobal < c.global then g
      else
        let r := pcEmitCmd env c (g.setReady cs)
        let g := r.1.free c
        if r.2 then drainLoop env fuel (g.setNext (g.nextGlobal + 1)) else g

/-- `pc_drain_ready`. -/
def pcDrainReady (env : Env) (g : Gate) : Gate := drainLoop env g.ready.length g

/-! ### Matching -/

/-- The comparison in `pc_try_match`. -/
def Cmd.matches (c : Cmd) (d : CommitDesc) : Bool :=
  c.seq == d.seq && c.data.length == d.len && kvsCmdCrc64 c.data == d.crc

/-- The two queues of a context, and the gate. -/
structure Flow where
  cmds : List Cmd
  descs : List Desc
  gate : Gate

/-- The loop of `pc_try_match` over the two queues. -/
def matchLoop (env : Env) : List Cmd → List Desc → Gate → Flow
  | c :: cs, d :: ds, g =>
    if c.matches d.desc then
      if d.desc.write then
        let c := { c with global := d.desc.global }
        matchLoop env cs ds (pcDrainReady env (g.setReady (pcReadyInsert c g.ready)))
      else matchLoop env cs ds (g.free c)
    else ⟨c :: cs, d :: ds, g.raise 2⟩
  | cs, ds, g => ⟨cs, ds, g⟩

/-- Something has waited for more than `PC_TIMEOUT_MS`. -/
def waitedTooLong (now : ℕ) (created : Option ℕ) : Bool :=
  created.any fun t => pcTimeoutMs < now - t

/-- `pc_try_match` gives up. -/
def Ctx.timedOut (now : ℕ) (c : Ctx) : Bool :=
  (c.descs.isEmpty && waitedTooLong now (c.cmds.head?.map (·.created))) ||
    (c.cmds.isEmpty && waitedTooLong now (c.descs.head?.map (·.created)))

/-- `pc_try_match`. -/
def pcTryMatch (env : Env) (c : Ctx) (g : Gate) : Ctx × Gate :=
  let r := matchLoop env c.cmds c.descs g
  let c := { c with cmds := r.cmds, descs := r.descs }
  (c, if c.timedOut env.now then r.gate.raise 1 else r.gate)

/-- `pc_frame_one`. -/
def pcFrameOne (env : Env) (s : Ctx × Gate) (raw : Bytes) : Ctx × Gate :=
  let cmd : Cmd := ⟨s.1.nextSeq, 0, raw, env.now⟩
  let c := { s.1 with
    nextSeq := s.1.nextSeq + 1, cmds := s.1.cmds ++ [cmd], frames := s.1.frames ++ [(raw, s.1.nextSeq)] }
  let g := s.2.setPending (s.2.pendingBytes + raw.length)
  if pcMemoryMax < g.pendingBytes + g.recBytes then (c, g.raise 1) else pcTryMatch env c g

/-- `pc_frame_ctx`: the commands in the buffered bytes are framed one after the other. -/
def pcFrame (env : Env) (c : Ctx) (g : Gate) : Ctx × Gate :=
  if c.baseline then
    let r := pcFrameCtx c.buf
    r.1.foldl (pcFrameOne env) ({ c with buf := r.2 }, g)
  else (c, g)

/-! ### The table of contexts -/

/-- The state of `proxy_commit.c`. -/
structure Proxy where
  ctxs : AList (fun _ : ℕ => Ctx) := ∅
  gate : Gate := {}
  /-- `g_session_epoch`. -/
  sessionEpoch : ℕ := 0

/-- `pc_get_ctx` with `create`: nothing if the table is full. -/
def Proxy.getCtx (P : Proxy) (k : ℕ) : Option Ctx :=
  match P.ctxs.lookup k with
  | some c => some c
  | none => if pcMaxCtx ≤ P.ctxs.entries.length then none else some {}

/-- A context is stored. -/
def Proxy.put (P : Proxy) (k : ℕ) (s : Ctx × Gate) : Proxy :=
  { P with ctxs := P.ctxs.insert k s.1, gate := s.2 }

/-- `pc_fault`. -/
def Proxy.raise (P : Proxy) (reason : ℕ) : Proxy := { P with gate := P.gate.raise reason }

/-- `pc_on_desc`. -/
def pcOnDesc (env : Env) (P : Proxy) (d : CommitDesc) : Proxy :=
  if P.gate.fault.isSome then P
  else
    match P.getCtx d.cookie with
    | none => P.raise 1
    | some c =>
      if c.ignored then P
      else
        let c := { c with descs := c.descs ++ [⟨d, env.now⟩] }
        P.put d.cookie (if c.baseline then pcTryMatch env c P.gate else (c, P.gate))

/-- `proxy_commit_on_record`. -/
def proxyCommitOnRecord (env : Env) (P : Proxy) (k recvSeq : ℕ) (payload : Bytes) : Proxy :=
  if P.gate.fault.isSome then P
  else
    match P.getCtx k with
    | none => P.raise 1
    | some c =>
      if c.ignored then P
      else if c.lastRecv.any (recvSeq ≠ · + 1) then P.raise 3
      else
        let c := { c with lastRecv := some recvSeq }
        if pcCtxBufCap < c.buf.length + payload.length then P.put k (c, P.gate.raise 1)
        else
          let c := { c with buf := c.buf ++ payload }
          P.put k (if c.baseline then pcFrame env c P.gate else pcTryMatch env c P.gate)

/-- `pc_cmd_free` for each command. -/
def Gate.freeAll (g : Gate) (cs : List Cmd) : Gate := cs.foldl Gate.free g

/-- A context after a BASELINE: bytes are kept only if it is the connection's first one. -/
def Ctx.rebase (c : Ctx) (nextSeq : ℕ) : Ctx where
  buf := if c.baseline then [] else c.buf
  baseline := true
  nextSeq := if nextSeq = 0 then 1 else nextSeq
  frames := c.frames

/-- `pc_on_baseline`. -/
def pcOnBaseline (env : Env) (P : Proxy) (k nextSeq : ℕ) : Proxy :=
  match P.getCtx k with
  | none => P.raise 1
  | some c =>
    let s := pcFrame env (c.rebase nextSeq) (P.gate.freeAll c.cmds)
    P.put k (pcTryMatch env s.1 s.2)

/-- `pc_on_ignore`. -/
def pcOnIgnore (P : Proxy) (k : ℕ) : Proxy :=
  match P.getCtx k with
  | none => P
  | some c => P.put k ({ ignored := true }, P.gate.freeAll c.cmds)

/-- `pc_on_forget`. -/
def pcOnForget (P : Proxy) (k : ℕ) : Proxy :=
  match P.ctxs.lookup k with
  | none => P
  | some c => { P with ctxs := P.ctxs.erase k, gate := P.gate.freeAll c.cmds }

/-- The loop of `pc_on_resume`: what `emit` is called with, and whether it accepted all of it. -/
def resumeLoop (env : Env) (marker : ℕ) : List Rec → List Rec × Bool
  | [] => ([], true)
  | r :: rs =>
    if r.global ≤ marker then resumeLoop env marker rs
    else if env.emit r then
      let t := resumeLoop env marker rs
      (r :: t.1, t.2)
    else ([r], false)

/-- `pc_on_resume`. -/
def pcOnResume (env : Env) (marker : ℕ) (g : Gate) : Gate :=
  let r := resumeLoop env marker g.recovery
  let g := { g with
    recovery := [], waitResume := none, emitted := g.emitted ++ r.1.filter env.emit
    calls := g.calls ++ r.1.map (⟨g.fault, ·⟩) }
  if r.2 then g else g.raise 1

/-! ### Messages and polls -/

/-- What the master sends (`repl_commit_msg_t`). -/
inductive Msg where
  | hello
  | baseline (epoch k nextSeq : ℕ)
  | ignore (epoch k : ℕ)
  | forget (epoch k : ℕ)
  | resume (epoch marker : ℕ)
  | batch (epoch : ℕ) (ds : List CommitDesc)
  deriving DecidableEq

/-- `proxy_commit_purge`; the buffering flag stays. -/
def proxyCommitPurge (P : Proxy) : Proxy :=
  { P with ctxs := ∅, gate := { buffering := P.gate.buffering } }

/-- `pc_epoch_stale`. -/
def Proxy.epochStale (P : Proxy) (epoch : ℕ) : Bool :=
  epoch ≠ 0 && P.sessionEpoch ≠ 0 && epoch ≠ P.sessionEpoch

/-- `pc_process_msg`. -/
def pcProcessMsg (env : Env) (P : Proxy) : Msg → Proxy
  | .hello => proxyCommitPurge { P with sessionEpoch := 0 }
  | .baseline epoch k nextSeq => pcOnBaseline env { P with sessionEpoch := epoch } k nextSeq
  | .ignore epoch k => if P.epochStale epoch then P else pcOnIgnore P k
  | .forget epoch k => if P.epochStale epoch then P else pcOnForget P k
  | .resume epoch marker =>
    if P.epochStale epoch then P else { P with gate := pcOnResume env marker P.gate }
  | .batch epoch ds =>
    if P.epochStale epoch then P
    else if replCommitBatchMax < ds.length then P.raise 2
    else ds.foldl (pcOnDesc env) P

/-- `proxy_commit_poll`: if buffering ends with the recovery buffer not empty, a RESUME is awaited. -/
def Gate.setBuffering (env : Env) (buffering : Bool) (g : Gate) : Gate :=
  if buffering = g.buffering then g
  else
    { g with
      buffering := buffering
      waitResume := if !buffering && 0 < g.recBytes && g.waitResume.isNone then some env.now else g.waitResume }

/-- `proxy_commit_poll` after the socket has been read. -/
def proxyCommitPoll (env : Env) (buffering : Bool) (P : Proxy) : Proxy :=
  let P := { P with gate := P.gate.setBuffering env buffering }
  let g := P.gate
  if waitedTooLong env.now g.waitResume then P.raise 1
  else if g.nextGlobal ≠ 0 &&
      g.ready.head?.any (fun c => g.nextGlobal < c.global && waitedTooLong env.now (some c.created)) then P.raise 1
  else if P.ctxs.entries.any (fun e => !e.2.ignored && e.2.timedOut env.now) then P.raise 1
  else P

/-- What the proxy sees. -/
inductive Input where
  | record (k recvSeq : ℕ) (payload : Bytes)
  | msg (m : Msg)
  | poll (buffering : Bool)
  deriving DecidableEq

/-- A step of the proxy. -/
def proxyStep (P : Proxy) (i : Env × Input) : Proxy :=
  match i.2 with
  | .record k recvSeq payload => proxyCommitOnRecord i.1 P k recvSeq payload
  | .msg m => pcProcessMsg i.1 P m
  | .poll buffering => proxyCommitPoll i.1 buffering P

end PocketKv.CommitGate
