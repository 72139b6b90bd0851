import PocketKv.Resp.Bytes

/-!
# Backlog, transports and broadcast
-/

namespace PocketKv.Replication

open Resp

/-! ### The backlog -/

/-- `KVS_REPL_BACKLOG_SIZE`. -/
def replBacklogSize : ℕ := 10 * 1024 * 1024

/-- `g_repl_backlog`. -/
structure Backlog where
  ready : Bool := false
  hist : Bytes := []
  /-- `start_offset`. -/
  start : ℕ := 0
  /-- `g_repl_backlog_contiguous`. -/
  contiguous : Bool := true
  deriving DecidableEq

/-- `end_offset`. -/
def Backlog.endOffset (B : Backlog) : ℕ := B.start + B.hist.length

/-- `ensure_repl_backlog`. -/
def Backlog.ensure (offset : ℕ) (B : Backlog) : Backlog :=
  if B.ready then B else { B with ready := true, hist := [], start := offset }

/-- `repl_backlog_feed`, with `attached` telling whether there is a replica. -/
def replBacklogFeed (attached : Bool) (offset : ℕ) (raw : Bytes) (B : Backlog) : Backlog :=
  if raw = [] then B
  else if !attached then { B with contiguous := false }
  else
    let B := B.ensure offset
    if replBacklogSize ≤ raw.length then
      { B with hist := raw.drop (raw.length - replBacklogSize), start := B.endOffset }
    else
      let hist := (B.hist ++ raw).drop (B.hist.length + raw.length - replBacklogSize)
      { B with hist := hist, start := B.endOffset + raw.length - hist.length }

/-! ### Transports -/

/-- The transports that are configured. -/
structure Cfg where
  /-- `repl_realtime_transport`. -/
  realtime : Bytes := str "tcp"
  /-- `repl_transport_backend`. -/
  backend : Bytes := str "tcp"
  /-- The forwarding thread was started: the network backend is the reactor, and the server was
  started as a master. -/
  fwdThread : Bool := true
  deriving DecidableEq

/-- `strcasecmp(s, name) == 0`. -/
def named (name : String) (s : Bytes) : Bool := asciiUpper s == asciiUpper (str name)

/-- `parse_repl_transport_backend`: the names that the configuration accepts. -/
def parseReplTransportBackend (s : Bytes) : Bool :=
  ["tcp", "rdma", "ebpf", "sockmap", "kprobe-rdma", "ebpf+tcp"].any (named · s)

/-- `repl_transport_kind`. -/
inductive TransportKind where
  /-- `KVS_REPL_TRANSPORT_TCP`, as every connection begins. -/
  | tcp
  /-- `KVS_REPL_TRANSPORT_EBPF`. -/
  | ebpf
  /-- `KVS_REPL_TRANSPORT_KPROBE_RDMA`. -/
  | kprobeRdma
  /-- `KVS_REPL_TRANSPORT_EBPF_TCP`. -/
  | ebpfTcp
  deriving DecidableEq

/-- What `REPLSYNC` makes of a connection's kind. The last name that fits decides. -/
def replsyncKind (cfg : Cfg) (kind : TransportKind) : TransportKind :=
  let kind :=
    if named "ebpf" cfg.realtime || named "sockmap" cfg.realtime || named "ebpf" cfg.backend ||
        named "sockmap" cfg.backend then .ebpf else kind
  let kind :=
    if named "kprobe-rdma" cfg.realtime || named "kprobe-rdma" cfg.backend then .kprobeRdma else kind
  if named "ebpf+tcp" cfg.realtime || named "tcp" cfg.realtime then .ebpfTcp else kind

/-- `commit_active_mode` of a master. -/
def commitActiveMode (cfg : Cfg) : Bool := decide (str "ebpf+tcp" <:+: cfg.realtime)

/-! ### Replicas -/

/-- A node of the forwarding queue. -/
structure FwdNode where
  buf : Bytes
  endOffset : ℕ
  deriving DecidableEq

/-- The fields of a replica's `conn_t`, and its part of the forwarding queue. -/
structure Replica where
  /-- Tells the replicas apart. -/
  id : ℕ := 0
  /-- `repl_transport_kind`. -/
  kind : TransportKind
  /-- `repl_draining`. -/
  draining : Bool := false
  /-- `repl_fullsync_pending`. -/
  fullsyncPending : Bool := false
  /-- `fwd_healthy`. -/
  fwdHealthy : Bool := false
  /-- `stalled` of its send state: the send buffer is full. -/
  stalled : Bool := false
  queue : List FwdNode := []
  deriving DecidableEq

/-- What `repl_broadcast` does with one replica; a draining one is unlinked. -/
def broadcastTo (inProgress : Bool) (offset : ℕ) (raw : Bytes) (r : Replica) : Option Replica :=
  if r.draining then none
  else if r.fullsyncPending then some r
  else if inProgress then some r
  else if r.kind = .ebpfTcp then some r
  else if r.fwdHealthy then some r
  else if r.stalled then some r
  else some { r with queue := r.queue ++ [⟨raw, offset⟩] }

/-- `repl_broadcast`. -/
def replBroadcast (inProgress : Bool) (offset : ℕ) (raw : Bytes) (rs : List Replica) : List Replica :=
  rs.filterMap (broadcastTo inProgress offset raw)

lemma broadcastTo_cases (inProgress : Bool) (offset : ℕ) (raw : Bytes) (r : Replica) :
    r.draining = true ∧ broadcastTo inProgress offset raw r = none ∨ r.draining = false ∧
      (broadcastTo inProgress offset raw r = some r ∨
        broadcastTo inProgress offset raw r = some { r with queue := r.queue ++ [⟨raw, offset⟩] }) := by
  unfold broadcastTo
  split
  · exact .inl ⟨‹_›, rfl⟩
  rename_i hdraining
  refine .inr ⟨by simpa using hdraining, ?_⟩
  repeat' split
  all_goals first
    | exact .inl rfl
    | exact .inr rfl

lemma replBroadcast_stays (inProgress : Bool) (offset : ℕ) (raw : Bytes) {rs : List Replica}
    (h : ∃ x ∈ rs, x.draining = false) : ∃ x ∈ replBroadcast inProgress offset raw rs, x.draining = false := by
  obtain ⟨x, hx, hd⟩ := h
  rcases broadcastTo_cases inProgress offset raw x with ⟨hd', -⟩ | ⟨-, hx' | hx'⟩
  · cases hd.symm.trans hd'
  · exact ⟨x, List.mem_filterMap.mpr ⟨x, hx, hx'⟩, hd⟩
  · exact ⟨_, List.mem_filterMap.mpr ⟨x, hx, hx'⟩, hd⟩

end PocketKv.Replication
