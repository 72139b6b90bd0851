import PocketKv.Persistence.Dump
import PocketKv.Replication.Delivery
import PocketKv.Replication.Forwarding

/-!
# A replica served by the forwarding thread
-/

namespace PocketKv.Replication

open Library Resp Persistence

/-! ### The out ring -/

/-- What the out ring holds. -/
abbrev OutRing := List (Option UInt8)

/-- The bytes of the stream in it. -/
def ofStream (ring : OutRing) : Bytes := ring.reduceOption

/-- `repl_backlog_send_continue_upto`, whose result the handler does not look at. -/
def sendContinue (H : History) (off upto : ℕ) (ring : OutRing) : OutRing :=
  (H.sendContinueUpto (fun _ => none) some off upto ring).1

/-! ### The connection -/

/-- One replica, and the master as it sees it. -/
structure Served where
  /-- `repl_transport_kind`. -/
  kind : TransportKind
  history : History
  /-- `g_repl_fullsync_in_progress`. -/
  inProgress : Bool := false
  job : Option (Bytes × Bool) := none
  /-- `repl_fullsync_pending`. -/
  fullsyncPending : Bool := false
  /-- `repl_draining`. -/
  draining : Bool := false
  broken : Bool := false
  /-- `out_ring`. -/
  outRing : OutRing := []
  queue : List (FwdNode × Bool) := []
  state : Option SendState := none
  base : Option ℕ := none
  syncedTo : ℕ := 0
  delivered : Bytes := []

/-- What happens to it. -/
inductive ServedInput where
  /-- A write is fed into the backlog and counted; `alloc` tells whether there is memory for the ring. -/
  | write (raw : Bytes) (alloc : Bool)
  | broadcast (raw : Bytes)
  /-- `repl_broadcast` gets to this connection. -/
  | visit
  | attach (c : ℕ)
  | detach (c : ℕ)
  | otherFullsync
  /-- Another replica sends `REPLDONE`. -/
  | otherDone
  /-- The replica sends `REPLSYNC`, maybe with an identity and an offset; `barrier` and `snapshot` tell whether
  `repl_barrier_begin` and `queue_snapshot` succeed. -/
  | replsync (asked : Option (Bytes × ℕ)) (barrier snapshot : Bool)
  /-- The replica sends `REPLACK`. -/
  | replack (applied : ℕ)
  /-- The replica sends `REPLDONE`. -/
  | repldone
  | reply (n : ℕ)
  | flush (n : ℕ)
  | hangup
  | append
  | drain (rs : List WriteResult)
  | refill
  deriving DecidableEq

namespace Served

/-- The connection before `REPLSYNC`. -/
def start (masterId : Bytes) (kind : TransportKind) : Served where
  kind := kind
  history := { replid := masterId }

/-- `is_replica`. -/
def attached (S : Served) : Bool := decide (0 ∈ S.history.replicas)

/-- `repl_fwd_get_watermark`. -/
def watermark (S : Served) : ℕ :=
  match S.state with
  | none => 0
  | some st => if st.dropped then 0 else st.watermark

/-- `repl_fwd_is_stalled`. -/
def stalled (S : Served) : Bool :=
  match S.state with
  | none => false
  | some st => !st.dropped && st.stalled

/-- The history takes an input. -/
def record (S : Served) (i : History.Input) : Served := { S with history := S.history.step i }

/-- `repl_fwd_enqueue`. -/
def enqueue (S : Served) (n : FwdNode) (counted : Bool) : Served := { S with queue := S.queue ++ [(n, counted)] }

/-- What `repl_broadcast` does with this connection. -/
def visitWith (S : Served) (raw : Bytes) (counted : Bool) : Served :=
  if S.attached then
    match broadcastTo S.inProgress S.history.offset raw
        { kind := S.kind, draining := S.draining, fullsyncPending := S.fullsyncPending, stalled := S.stalled } with
    | none => S.record (.detach 0)
    | some r => { S with queue := S.queue ++ r.queue.map (·, counted) }
  else S

/-- `repl_reject_replica`. -/
def reject (S : Served) : Served := { S with draining := true, fullsyncPending := false, broken := true }

/-- The handler of `REPLSYNC` puts the replay into the out ring. -/
def resume (S : Served) (off : ℕ) : Served :=
  { S with
    base := some off, delivered := []
    outRing := sendContinue S.history off S.history.offset S.outRing
    syncedTo := off + ((ofStream (sendContinue S.history off S.history.offset S.outRing)).length -
      (ofStream S.outRing).length) }

/-- The handler of `REPLSYNC` sends a snapshot. -/
def sendSnapshot (S : Served) (snapshot : Bool) : Served :=
  let S := { S.record .fullsync with inProgress := true }
  if snapshot then { S with base := some S.history.offset, delivered := [], syncedTo := S.history.offset }
  else S.reject

/-- `repl_add_slave`, and what is set after it. -/
def addSlave (S : Served) (pending : Bool) : Served :=
  { S.record (.attach 0) with draining := false, fullsyncPending := pending }

/-- `repl_backlog_can_continue`. -/
def continuesFrom (S : Served) (asked : Option (Bytes × ℕ)) : Option ℕ :=
  match asked with
  | none => none
  | some (replid, off) => if S.history.canContinue replid off then some off else none

/-- The handler of `REPLSYNC`. -/
def replsync (S : Served) (asked : Option (Bytes × ℕ)) (barrier snapshot : Bool) : Served :=
  if !barrier then S.reject
  else
    match S.continuesFrom asked with
    | some off => (S.addSlave false).resume off
    | none => (S.addSlave true).sendSnapshot snapshot

/-- The backlog from an offset on is queued. -/
def catchUp (S : Served) (off : ℕ) : Served :=
  if off < S.history.backlog.endOffset then
    match S.history.backlog.copyRange off with
    | none => S
    | some bytes => if bytes = [] then S else S.enqueue ⟨bytes, off + bytes.length⟩ true
  else S

/-- The handler of `REPLACK`. -/
def replack (S : Served) (applied : ℕ) : Served :=
  if S.kind ≠ .ebpfTcp ∧ applied < S.history.offset ∧ S.history.backlog.startOffset ≤ applied ∧
      applied ≤ S.history.backlog.endOffset then
    S.catchUp (max applied S.watermark)
  else S

/-- The full synchronisation is over. -/
def syncDone (S : Served) : Served := { S with fullsyncPending := false, inProgress := false }

/-- The handler of `REPLDONE`. -/
def repldone (S : Served) : Served :=
  if S.attached then
    let S := S.syncDone
    if S.kind ≠ .ebpfTcp ∧ 0 < (S.history.backlog.ring.map (·.len)).getD 0 ∧
        S.history.backlog.startOffset < S.history.offset then
      S.catchUp (max S.history.backlog.startOffset S.watermark)
    else S
  else S

/-- `on_write`: the socket takes that many bytes. -/
def flush (S : Served) (n : ℕ) : Served :=
  if S.broken then S
  else { S with outRing := S.outRing.drop n, delivered := S.delivered ++ ofStream (S.outRing.take n) }

/-- The thread takes a node. -/
def append (S : Served) : Served :=
  match S.queue with
  | [] => S
  | (n, _) :: queue => { S with queue := queue, state := some (appendNode n S.state) }

/-- A call of `write` in `repl_fwd_drain_send` fails. -/
def fails (S : Served) (rs : List WriteResult) : Bool :=
  match S.state with
  | none => false
  | some st => st.buf != [] && !S.inProgress && !st.dropped && (writeLoop rs st.buf).2.2

/-- The thread sends. -/
def drain (S : Served) (rs : List WriteResult) : Served :=
  let rs := if S.broken then [.failed] else rs
  { S with
    state := (drainState S.inProgress rs S.state).1
    delivered := S.delivered ++ (drainState S.inProgress rs S.state).2.1
    broken := S.broken || S.fails rs }

/-- A step. -/
def step (S : Served) : ServedInput → Served
  | .write raw alloc => { S.record (.write raw alloc) with job := some (raw, true) }
  | .broadcast raw => { S with job := some (raw, false) }
  | .visit =>
    match S.job with
    | none => S
    | some (raw, counted) => { S with job := none }.visitWith raw counted
  | .attach c => S.record (.attach (c + 1))
  | .detach c => S.record (.detach (c + 1))
  | .otherFullsync => { S.record .fullsync with inProgress := true }
  | .otherDone => { S with inProgress := false }
  | .replsync asked barrier snapshot => S.replsync asked barrier snapshot
  | .replack applied => S.replack applied
  | .repldone => S.repldone
  | .reply n => { S with outRing := ((queueBytes (List.replicate n none) S.outRing).getD S.outRing) }
  | .flush n => S.flush n
  | .hangup => { S with broken := true }
  | .append => S.append
  | .drain rs => S.drain rs
  | .refill => { S with state := S.state.map (replFwdRefill S.inProgress S.history.backlog) }

/-- A command is handled only when the broadcast of the one before is over, and fits into the receive buffer. -/
def proper (S : Served) : ServedInput → Bool
  | .write raw _ => S.job.isNone && raw != [] && raw.length ≤ inbufCap
  | .broadcast _ | .attach _ | .detach _ | .otherFullsync | .otherDone | .replsync _ _ _ | .replack _ | .repldone
  | .reply _ | .flush _ | .hangup => S.job.isNone
  | .visit | .append | .drain _ | .refill => true

/-! ### What is on its way -/

/-- The bytes of the stream in the out ring. -/
def ringBytes (S : Served) : Bytes := ofStream S.outRing

/-- The send buffer of the thread. -/
def buffer (S : Served) : Bytes := (S.state.getD {}).buf

/-- The offset up to which bytes were handed over, to the reactor or to the thread. -/
def handedTo (S : Served) : ℕ := max S.watermark S.syncedTo

end Served

/-- `repl_fwd_append` takes some bytes of the node. -/
def SendState.takes (st : SendState) (n : FwdNode) : Bool :=
  !st.dropped && !st.stalled && st.watermark < n.endOffset && st.watermark - n.start < n.buf.length &&
    st.buf.length + (n.buf.length - (st.watermark - n.start)) ≤ maxFwdSendBufBytes

/-- `repl_fwd_refill` takes some bytes of the backlog. -/
def SendState.refills (st : SendState) (inProgress : Bool) (B : ReplBacklog) : Bool :=
  !st.dropped && !inProgress && (!st.stalled || st.buf.length < maxFwdSendBufBytes / 2) &&
    B.ring.isSome && B.startOffset ≤ st.watermark && st.watermark < B.endOffset &&
    st.buf.length + (B.endOffset - st.watermark) ≤ maxFwdSendBufBytes

/-- What the code does not see to: the thread takes bytes of a node only if they were counted, the node does not
begin behind all that was handed over, and the synchronisation handed over none of them; bytes of the backlog only
if the synchronisation handed over nothing behind the watermark; it does not send while a replay is in the out ring;
and a synchronisation begins when nothing waits to be sent, and not before the watermark. -/
def Served.inTurn (S : Served) : ServedInput → Bool
  | .append =>
    match S.base, S.queue with
    | some _, (n, counted) :: _ =>
      S.broken || !(S.state.getD {}).takes n ||
        counted && n.start ≤ S.handedTo && S.syncedTo ≤ max n.start S.watermark
    | _, _ => true
  | .refill =>
    match S.base, S.state with
    | some _, some st => S.broken || !st.refills S.inProgress S.history.backlog || S.syncedTo ≤ S.watermark
    | _, _ => true
  | .drain _ => S.broken || S.inProgress || S.buffer.isEmpty || S.ringBytes.isEmpty
  | .replsync asked barrier _ =>
    !barrier || S.ringBytes.isEmpty && S.buffer.isEmpty && S.queue.isEmpty &&
      S.watermark ≤ (S.continuesFrom asked).getD S.history.offset
  | _ => true

end PocketKv.Replication
