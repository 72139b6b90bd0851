import PocketKv.Client.Output
import PocketKv.Replication.CommandLog

/-!
# What a connection can do before it is authenticated
-/

namespace PocketKv.Client

open Library Resp Store

/-! ### The server around a connection -/

/-- `g_slave_mr`, and the two flags that go with it. -/
structure SlaveMr where
  /-- `rkey`. -/
  rkey : ℕ := 0
  /-- `remote_data_base`. -/
  dataBase : ℕ := 0
  /-- `remote_head_addr`. -/
  headAddr : ℕ := 0
  /-- `slot_count`. -/
  slotCount : ℕ := 0
  /-- `slot_capacity`. -/
  slotCapacity : ℕ := 0
  /-- `g_kprobe_running`. -/
  running : Bool := false
  /-- `g_master_forward_started`. -/
  forwardStarted : Bool := false
  deriving DecidableEq

/-- `repl_kprobe_rdma_parse_mr_info_direct`; the thread can be created. -/
def replKprobeRdmaParseMrInfoDirect (rkey addr slotCount slotCapacity : ℕ) : SlaveMr where
  rkey := rkey % 2 ^ 32
  dataBase := (addr + 16) % 2 ^ 64
  headAddr := addr
  slotCount := slotCount
  slotCapacity := slotCapacity
  running := true
  forwardStarted := true

/-- What `g_repl_rdma_ctx` holds for a transfer by RDMA writes. -/
structure WriteMr where
  /-- `transfer_id`; 0 if there is no transfer. -/
  transferId : ℕ := 0
  /-- `write_total_size`. -/
  totalSize : ℕ := 0
  /-- `remote_write_addr`. -/
  addr : ℕ := 0
  /-- `remote_write_rkey`. -/
  rkey : ℕ := 0
  /-- `remote_capacity`. -/
  capacity : ℕ := 0
  /-- `use_write_mode`. -/
  writeMode : Bool := false
  deriving DecidableEq

/-- `repl_rdma_set_remote_write_mr_info`. -/
def replRdmaSetRemoteWriteMrInfo (tid addr rkey cap : ℕ) (R : WriteMr) : WriteMr :=
  if R.transferId = 0 ∨ tid ≠ R.transferId then R
  else if addr = 0 ∨ rkey % 2 ^ 32 = 0 ∨ cap < R.totalSize then R
  else { R with addr := addr, rkey := rkey % 2 ^ 32, capacity := cap, writeMode := true }

/-- What was published to the proxy. -/
structure Published where
  /-- `g_commit_session`; 0 if there is none. -/
  session : ℕ := 0
  descs : List CommitGate.CommitDesc := []
  deriving DecidableEq

/-- The server without the connection. -/
@[ext]
structure Side (σ : Type*) where
  kprobe : SlaveMr := {}
  rdma : WriteMr := {}
  gate : Published := {}
  world : σ

/-- A connection. -/
structure Peer where
  /-- `authed`. -/
  authed : Bool := false
  out : Bytes := []
  seq : CommitGate.Conn := {}
  inbuf : Bytes := []
  deriving DecidableEq

/-- `queue_bytes` on the connection. -/
def Peer.queue (P : Peer) (piece : Option Bytes) : Peer := { P with out := queuePiece P.out piece }

/-- An error reply. -/
def Peer.error (P : Peer) (text : String) : Peer := P.queue (some (RespReply.error (str text)).encode)

/-- A connection and the server. -/
structure Host (σ : Type*) where
  peer : Peer
  side : Side σ

/-- The configuration. -/
structure ServerCfg where
  /-- The role is `ROLE_SLAVE`. -/
  slave : Bool := false
  /-- `requirepass`, without a NUL; empty if no password is set. -/
  requirepass : Bytes := []
  repl : Replication.Cfg := {}
  deriving DecidableEq

/-- `repl_realtime_transport_name`. -/
def replRealtimeTransportName (cfg : Replication.Cfg) : Bytes :=
  if cfg.realtime ≠ [] then cfg.realtime
  else if Replication.named "ebpf" cfg.backend || Replication.named "sockmap" cfg.backend then str "ebpf"
  else if Replication.named "kprobe-rdma" cfg.backend then str "kprobe-rdma"
  else str "tcp"

/-- The realtime transport is `ebpf+tcp`. -/
def ServerCfg.ebpfTcp (cfg : ServerCfg) : Bool :=
  Replication.named "ebpf+tcp" (replRealtimeTransportName cfg.repl)

/-! ### The head of `handle_parsed_command` -/

/-- The names in `is_readonly_slave_blocked`. -/
def readonlyCmds : List String :=
  ["GET", "MGET", "TTL", "EXIST", "OWNER", "RGET", "RMGET", "RTTL", "REXIST", "HGET", "HMGET", "HTTL", "HEXIST",
    "XGET", "XMGET", "XTTL", "XEXIST", "INFO", "MEMSTAT", "MEMORY_PURGE", "PING", "ECHO", "QUIT", "SLAVEOF", "ROLE",
    "DOCGET", "DOCGETALL", "DOCEXIST", "DOCCOUNT"]

/-- `is_readonly_slave_blocked`. -/
def isReadonlySlaveBlocked (cmd : Bytes) : Bool := readonlyCmds.all fun c => cmd != str c

/-- The argument is the word of four letters, in any case. -/
def isWord (word : String) (arg : Bytes) : Bool := arg.length == 4 && asciiUpper arg == str word

/-- The handler of `AUTH`. -/
def Peer.auth (cfg : ServerCfg) (argv : List Bytes) (P : Peer) : Peer :=
  if argv.length ≠ 2 then P.error "wrong number of arguments"
  else if cfg.requirepass = [] then P.error "Client sent AUTH, but no password is set"
  else if argv.getD 1 [] ≠ cfg.requirepass then P.error "invalid password"
  else { P with authed := true }.queue (some (RespReply.simple (str "OK")).encode)

/-- `handle_parsed_command` up to `AUTH`; nothing if it goes on. -/
def Peer.answered (cfg : ServerCfg) (argv : List Bytes) (P : Peer) : Option Peer :=
  let name := argv.getD 0 []
  let arg := argv.getD 1 []
  let cmd := cmdName argv
  if cfg.requirepass ≠ [] ∧ P.authed = false ∧ isWord "AUTH" name = false ∧ isWord "QUIT" name = false then
    some (P.queue (some (str "-NOAUTH Authentication required.\r\n")))
  else if isWord "ECHO" name ∧ argv.length = 2 ∧ arg ≠ [] then some (P.queue (some (bulkBytes (some arg))))
  else if isWord "PING" name then
    some (P.queue (some (if arg ≠ [] then bulkBytes (some arg) else str "+PONG\r\n")))
  else if cfg.slave ∧ cfg.ebpfTcp = false ∧ isReadonlySlaveBlocked cmd then some (P.error "read only slave")
  -- a name with a NUL after its fourth letter comes here
  else if cmd = str "PING" then
    some (P.queue (if 2 ≤ argv.length then bulkPiece (some arg) else some (RespReply.simple (str "PONG")).encode))
  else if cmd = str "ECHO" ∧ argv.length = 2 then some (P.queue (bulkPiece (some arg)))
  else if cmd = str "QUIT" then some (P.queue (some (RespReply.simple (str "OK")).encode))
  else if cmd = str "AUTH" then some (P.auth cfg argv)
  else none

/-- What `handle_parsed_command` does after `AUTH`, and whether it published a write; it does not touch `authed`. -/
abbrev Rest (σ : Type*) := List Bytes → Bytes → Host σ → Host σ × Bool

section Dispatch

variable {σ : Type*} (rest : Rest σ) (cfg : ServerCfg) (cookie : ℕ)

/-- `handle_parsed_command`; with it, whether a write was published. -/
def Host.handleParsedCommand (argv : List Bytes) (raw : Bytes) (S : Host σ) : Host σ × Bool :=
  match S.peer.answered cfg argv with
  | some P => ({ S with peer := P }, false)
  | none =>
    let r := rest argv raw S
    ({ r.1 with peer := { r.1.peer with authed := S.peer.authed } }, r.2)

/-- `repl_commit_publish_skip` has something to publish. -/
def Host.publishes (S : Host σ) : Bool :=
  !cfg.slave && Replication.commitActiveMode cfg.repl && CommitGate.commitEligible cookie S.peer.seq &&
    S.side.gate.session != 0

/-- `repl_commit_publish_skip`. -/
def Host.publishSkip (raw : Bytes) (S : Host σ) : Host σ :=
  if S.publishes cfg cookie then
    let desc : CommitGate.CommitDesc := ⟨cookie, S.peer.seq.parsedSeq, 0, CommitGate.kvsCmdCrc64 raw, raw.length, false⟩
    { S with side := { S.side with gate := { S.side.gate with descs := S.side.gate.descs ++ [desc] } } }
  else S

/-- The command is counted. -/
def Peer.number (P : Peer) : Peer :=
  if P.seq.isReplica then P else { P with seq := { P.seq with parsedSeq := P.seq.parsedSeq + 1 } }

/-- A command; it gets a descriptor if its handler has published none. -/
def Host.command (argv : List Bytes) (raw : Bytes) (S : Host σ) : Host σ :=
  let r := Host.handleParsedCommand rest cfg argv raw { S with peer := S.peer.number }
  if r.2 then r.1 else r.1.publishSkip cfg cookie raw

/-- What is done with an event. -/
def Host.handle (S : Host σ) : Event → Host σ
  | .command argv raw => S.command rest cfg cookie argv raw
  | .control (.kprobeRdma rkey addr _ slotCount slotCapacity) =>
    { S with side := { S.side with kprobe := replKprobeRdmaParseMrInfoDirect rkey addr slotCount slotCapacity } }
  | .control (.fullResyncWr tid addr rkey cap) =>
    { S with side := { S.side with rdma := replRdmaSetRemoteWriteMrInfo tid addr rkey cap S.side.rdma } }
  -- the other lines are for the replication link
  | .control _ => S
  | .reply text => { S with peer := S.peer.error text }

/-- How a client's bytes are parsed. -/
def clientCaller : Caller where
  conn := true
  fromReplication := false
  master := !cfg.slave

/-- Nothing is loaded or intercepted. -/
def clientHooks : Hooks (Host σ) where
  loading := fun _ => false
  intercept := fun S _ => (S, none)
  handle := Host.handle rest cfg cookie
  start := fun _ _ h => absurd h (by simp)

/-- Bytes of the client come in. -/
def Host.receive (S : Host σ) (chunks : List Bytes) : Host σ :=
  let r := recvLoop (clientHooks rest cfg cookie) (clientCaller cfg) S S.peer.inbuf chunks
  { r.1 with peer := { r.1.peer with inbuf := r.2.2 } }

/-- The events in them. -/
def Host.events (S : Host σ) (chunks : List Bytes) : List Event :=
  ((respScanner (clientCaller cfg)).feed S.peer.inbuf chunks).1

/-! ### A connection that is not authenticated -/

variable {rest cfg cookie} {S : Host σ} {P P' : Peer} {argv : List Bytes} {raw : Bytes} {T : Host σ} {es : List Event}

/-- What the head of `handle_parsed_command` leaves as it is. -/
structure Peer.Frame (P P' : Peer) : Prop where
  seq : P'.seq = P.seq
  authed : P.authed = true → P'.authed = true

lemma Peer.Frame.queue (P : Peer) (piece : Option Bytes) : P.Frame (P.queue piece) := ⟨rfl, id⟩

lemma Peer.Frame.auth (cfg : ServerCfg) (argv : List Bytes) (P : Peer) : P.Frame (P.auth cfg argv) := by
  rw [Peer.auth]
  split_ifs
  · exact .queue P _
  · exact .queue P _
  · exact .queue P _
  · exact ⟨rfl, fun _ => rfl⟩

lemma Peer.Frame.ite {p : Prop} [Decidable p] {a : Peer} {b : Option Peer} (ha : P.Frame a)
    (hb : ∀ P' ∈ b, P.Frame P') : ∀ P' ∈ (if p then some a else b), P.Frame P' := by
  split
  · rintro _ ⟨rfl⟩
    exact ha
  · exact hb

lemma Peer.answered_frame (cfg : ServerCfg) (argv : List Bytes) (P : Peer) :
    ∀ P' ∈ P.answered cfg argv, P.Frame P' := by
  refine .ite (.queue P _) (.ite (.queue P _) (.ite (.queue P _) (.ite (.queue P _) (.ite (.queue P _) ?_))))
  refine .ite (.queue P _) (.ite (.queue P _) (.ite (.auth cfg argv P) ?_))
  rintro _ ⟨⟩

lemma cmdName_of_isWord {word : String} (hw : 0 ∉ str word) (h : isWord word (argv.getD 0 []) = true) :
    cmdName argv = str word := by
  obtain ⟨_, hupper⟩ : (argv.getD 0 []).length = 4 ∧ asciiUpper (argv.getD 0 []) = str word := by
    simpa [isWord] using h
  have hnul : ∀ b ∈ argv.getD 0 [], b ≠ 0 := by
    rintro _ hb rfl
    rw [← hupper] at hw
    exact hw (List.mem_map.mpr ⟨0, hb, rfl⟩)
  rw [cmdName, cstr_eq_self hnul, hupper]

lemma isWord_inj {word word' : String} {arg : Bytes} (hne : str word ≠ str word') (h : isWord word arg = true) :
    isWord word' arg = false := by
  simp only [isWord, Bool.and_eq_true, beq_iff_eq] at h
  simp [isWord, h, hne]

lemma Peer.answered_auth {name pass : Bytes} (hname : isWord "AUTH" name = true) :
    P.answered cfg [name, pass] =
      some (if cfg.slave = true ∧ cfg.ebpfTcp = false then P.error "read only slave" else P.auth cfg [name, pass]) := by
  have hcmd : cmdName [name, pass] = str "AUTH" := cmdName_of_isWord (by decide) hname
  have hblocked : isReadonlySlaveBlocked (str "AUTH") = true := by decide
  have hecho : isWord "ECHO" name = false := isWord_inj (by decide) hname
  have hping : isWord "PING" name = false := isWord_inj (by decide) hname
  simp only [answered, List.getD_cons_zero, hname, hecho, hping, hcmd, hblocked, Bool.true_eq_false,
    Bool.false_eq_true, false_and, and_false, if_false, and_true, if_true]
  split
  · rfl
  · rw [if_neg (by decide), if_neg (fun h => absurd h.1 (by decide)), if_neg (by decide)]

lemma Peer.answered_isSome (argv : List Bytes) (hpass : cfg.requirepass ≠ []) (hP : P.authed = false) :
    ∃ P', P.answered cfg argv = some P' := by
  by_cases hauth : isWord "AUTH" (argv.getD 0 []) = true
  · have hcmd := cmdName_of_isWord (by decide) hauth
    simp only [answered, hcmd, if_true]
    split_ifs <;> exact ⟨_, rfl⟩
  by_cases hquit : isWord "QUIT" (argv.getD 0 []) = true
  · have hcmd := cmdName_of_isWord (by decide) hquit
    simp only [answered, hcmd, if_true]
    split_ifs <;> exact ⟨_, rfl⟩
  · rw [answered, if_pos ⟨hpass, hP, Bool.not_eq_true _ ▸ hauth, Bool.not_eq_true _ ▸ hquit⟩]
    exact ⟨_, rfl⟩

@[simp] lemma Peer.number_authed (P : Peer) : P.number.authed = P.authed := by
  rw [number]
  split <;> rfl

@[simp] lemma Peer.number_isReplica (P : Peer) : P.number.seq.isReplica = P.seq.isReplica := by
  rw [number]
  split <;> rfl

@[simp] lemma Host.publishSkip_peer : (S.publishSkip cfg cookie raw).peer = S.peer := by
  rw [publishSkip]
  split <;> rfl

lemma Host.publishes_congr (hpeer : T.peer.seq.isReplica = S.peer.seq.isReplica)
    (hside : T.side = S.side) : T.publishes cfg cookie = S.publishes cfg cookie := by
  simp only [publishes, CommitGate.commitEligible, hpeer, hside]

lemma Host.publishSkip_side_iff :
    (S.publishSkip cfg cookie raw).side = S.side ↔ S.publishes cfg cookie = false := by
  rw [publishSkip]
  split
  · rename_i hpub
    refine iff_of_false (fun h => ?_) (by simp [hpub])
    have hlen := congrArg (fun s : Side σ => s.gate.descs.length) h
    simp at hlen
  · rename_i hpub
    simpa using hpub

lemma Host.command_unauthed (rest : Rest σ) (cookie : ℕ) (argv : List Bytes) (raw : Bytes)
    (hpass : cfg.requirepass ≠ []) (hS : S.peer.authed = false) :
    ∃ P', S.peer.number.answered cfg argv = some P' ∧
      S.command rest cfg cookie argv raw = Host.publishSkip cfg cookie raw ⟨P', S.side⟩ := by
  obtain ⟨P', hP'⟩ := Peer.answered_isSome argv hpass (S.peer.number_authed.trans hS)
  refine ⟨P', hP', ?_⟩
  simp [command, handleParsedCommand, hP', Bool.false_eq_true]

/-- The event changes nothing of the server. -/
def Host.Harmless (cfg : ServerCfg) (cookie : ℕ) (S : Host σ) : Event → Prop
  | .command _ _ => S.publishes cfg cookie = false
  | .control (.kprobeRdma rkey addr _ slotCount slotCapacity) =>
    S.side.kprobe = replKprobeRdmaParseMrInfoDirect rkey addr slotCount slotCapacity
  | .control (.fullResyncWr tid addr rkey cap) =>
    (S.side.rdma.transferId = 0 ∨ tid ≠ S.side.rdma.transferId) ∨
      (addr = 0 ∨ rkey % 2 ^ 32 = 0 ∨ cap < S.side.rdma.totalSize) ∨
      (S.side.rdma.addr = addr ∧ S.side.rdma.rkey = rkey % 2 ^ 32 ∧ S.side.rdma.capacity = cap ∧
        S.side.rdma.writeMode = true)
  | _ => True

lemma replRdmaSetRemoteWriteMrInfo_eq_iff {tid addr rkey cap : ℕ} {R : WriteMr} :
    replRdmaSetRemoteWriteMrInfo tid addr rkey cap R = R ↔
      (R.transferId = 0 ∨ tid ≠ R.transferId) ∨ (addr = 0 ∨ rkey % 2 ^ 32 = 0 ∨ cap < R.totalSize) ∨
        (R.addr = addr ∧ R.rkey = rkey % 2 ^ 32 ∧ R.capacity = cap ∧ R.writeMode = true) := by
  obtain ⟨transferId, totalSize, addr', rkey', capacity, writeMode⟩ := R
  rw [replRdmaSetRemoteWriteMrInfo]
  split
  · rename_i hidle
    exact iff_of_true rfl (.inl hidle)
  · rename_i hactive
    rw [or_iff_right hactive]
    split
    · rename_i hbad
      exact iff_of_true rfl (.inl hbad)
    · rename_i hgood
      rw [or_iff_right hgood]
      simp only [WriteMr.mk.injEq, true_and]
      constructor
      · rintro ⟨rfl, rfl, rfl, rfl⟩
        exact ⟨rfl, rfl, rfl, rfl⟩
      · rintro ⟨rfl, rfl, rfl, rfl⟩
        exact ⟨rfl, rfl, rfl, rfl⟩

lemma Host.handle_side_iff (hpass : cfg.requirepass ≠ []) (hS : S.peer.authed = false) (e : Event) :
    (S.handle rest cfg cookie e).side = S.side ↔ S.Harmless cfg cookie e := by
  cases e with
  | command argv raw =>
    obtain ⟨P', hP', hcommand⟩ := S.command_unauthed rest cookie argv raw hpass hS
    have hframe := Peer.answered_frame cfg argv _ P' hP'
    have hreplica : P'.seq.isReplica = S.peer.seq.isReplica := by rw [hframe.seq, Peer.number_isReplica]
    rw [handle, hcommand, Harmless, ← Host.publishes_congr (T := ⟨P', S.side⟩) hreplica rfl]
    exact publishSkip_side_iff
  | reply text => exact iff_of_true rfl trivial
  | control c =>
    cases c with
    | kprobeRdma rkey addr a3 a4 a5 =>
      simp only [handle, Harmless, Side.ext_iff, and_true]
      exact eq_comm
    | fullResyncWr tid addr rkey cap =>
      simp only [handle, Harmless, Side.ext_iff, true_and, and_true]
      exact replRdmaSetRemoteWriteMrInfo_eq_iff
    | _ => exact iff_of_true rfl trivial

lemma Host.handle_peer_congr (hpass : cfg.requirepass ≠ []) (hS : S.peer.authed = false)
    (hT : T.peer = S.peer) (e : Event) :
    (T.handle rest cfg cookie e).peer = (S.handle rest cfg cookie e).peer := by
  cases e with
  | command argv raw =>
    obtain ⟨P', hP', hcommand⟩ := S.command_unauthed rest cookie argv raw hpass hS
    obtain ⟨Q', hQ', hcommand'⟩ := T.command_unauthed rest cookie argv raw hpass (hT ▸ hS)
    rw [hT, hP'] at hQ'
    obtain rfl := Option.some.inj hQ'
    rw [handle, handle, hcommand, hcommand', publishSkip_peer, publishSkip_peer]
  | reply text => simp only [handle, hT]
  | control c => cases c <;> exact hT

lemma Host.authed_handle (hS : S.peer.authed = true) (e : Event) :
    (S.handle rest cfg cookie e).peer.authed = true := by
  cases e with
  | command argv raw =>
    have hnumber : S.peer.number.authed = true := S.peer.number_authed.trans hS
    have hhandled : (handleParsedCommand rest cfg argv raw { S with peer := S.peer.number }).1.peer.authed = true := by
      rw [handleParsedCommand]
      split
      · rename_i P' hP'
        exact (Peer.answered_frame cfg argv _ P' hP').authed hnumber
      · exact hnumber
    rw [handle, command]
    split
    · exact hhandled
    · rwa [publishSkip_peer]
  | reply text => exact hS
  | control c => cases c <;> exact hS

/-! ### A stream of bytes -/

lemma Host.unauthed_run
    (h : (es.foldl (Host.handle rest cfg cookie) S).peer.authed = false) :
    S.peer.authed = false ∧
      GuardedRun (Host.handle rest cfg cookie) (fun T e => (T.handle rest cfg cookie e).peer.authed = false) S es := by
  induction es generalizing S with
  | nil => exact ⟨h, trivial⟩
  | cons e es ih =>
    obtain ⟨hnext, hrun⟩ := ih h
    refine ⟨?_, hnext, hrun⟩
    by_contra hauthed
    rw [authed_handle (Bool.not_eq_false _ ▸ hauthed)] at hnext
    cases hnext

lemma Host.foldl_peer_congr (hpass : cfg.requirepass ≠ [])
    (h : (es.foldl (Host.handle rest cfg cookie) S).peer.authed = false) (hT : T.peer = S.peer) :
    (es.foldl (Host.handle rest cfg cookie) T).peer = (es.foldl (Host.handle rest cfg cookie) S).peer := by
  induction es generalizing S T with
  | nil => exact hT
  | cons e es ih =>
    have hall : ((e :: es).foldl (Host.handle rest cfg cookie) S).peer.authed = false := h
    have hS := (unauthed_run hall).1
    exact ih h (handle_peer_congr hpass hS hT e)

lemma Host.receive_eq (S : Host σ) (chunks : List Bytes) :
    (S.receive rest cfg cookie chunks) =
      let T := (S.events cfg chunks).foldl (Host.handle rest cfg cookie) S
      { T with peer := { T.peer with inbuf := ((respScanner (clientCaller cfg)).feed S.peer.inbuf chunks).2 } } := by
  have hout : OutsideLoading (clientHooks rest cfg cookie) (clientCaller cfg) S (S.events cfg chunks) := by
    intro hreplication
    cases hreplication
  rw [receive, recvLoop_outside hout]
  rfl

/-- **Before it is authenticated a connection reaches the server only through the control lines and the commit
gate**, its output never depends on the server, and the right password is accepted on masters and with `ebpf+tcp`.
-/
theorem auth_isolates (rest : Rest σ) (cfg : ServerCfg) (cookie : ℕ) (S : Host σ) (hpass : cfg.requirepass ≠ [])
    (hS : S.peer.authed = false) :
    (∀ chunks, (S.receive rest cfg cookie chunks).peer.authed = false →
      ((∀ es, es <+: S.events cfg chunks → (es.foldl (Host.handle rest cfg cookie) S).side = S.side) ↔
        GuardedRun (Host.handle rest cfg cookie) (Host.Harmless cfg cookie) S (S.events cfg chunks)) ∧
      ∀ side, (Host.receive rest cfg cookie ⟨S.peer, side⟩ chunks).peer = (S.receive rest cfg cookie chunks).peer) ∧
    ∀ name raw, isWord "AUTH" name = true →
      ((S.handle rest cfg cookie (.command [name, cfg.requirepass] raw)).peer.authed = true ↔
        cfg.slave = false ∨ cfg.ebpfTcp = true) := by
  refine ⟨fun chunks hunauthed => ?_, fun name raw hname => ?_⟩
  · rw [Host.receive_eq] at hunauthed
    have hrun := (Host.unauthed_run hunauthed).2
    constructor
    · have hstep (T : Host σ) (e : Event) (hT : T.peer.authed = false)
          (_ : (T.handle rest cfg cookie e).peer.authed = false) (hside : T.side = S.side) :
          T.Harmless cfg cookie e ↔ (T.handle rest cfg cookie e).side = S.side := by
        rw [← hside]
        exact (T.handle_side_iff hpass hT e).symm
      have hkeep (T : Host σ) (e : Event) (_ : T.peer.authed = false)
          (hnext : (T.handle rest cfg cookie e).peer.authed = false) :
          (T.handle rest cfg cookie e).peer.authed = false := hnext
      rw [iff_comm]
      refine GuardedRun.iff_forall_prefix (K := fun T => T.peer.authed = false) hkeep hstep hS ?_ hrun
      rfl
    · intro side
      rw [Host.receive_eq, Host.receive_eq]
      have hpeer := Host.foldl_peer_congr (T := ⟨S.peer, side⟩) hpass hunauthed rfl
      simp only [Host.events] at hpeer ⊢
      rw [hpeer]
  · obtain ⟨P', hP', hcommand⟩ := S.command_unauthed rest cookie [name, cfg.requirepass] raw hpass hS
    rw [Host.handle, hcommand, Host.publishSkip_peer]
    rw [Peer.answered_auth hname, Option.some.injEq] at hP'
    rw [← hP']
    split
    · rename_i hslave
      refine iff_of_false ?_ (by simp [hslave])
      rw [Peer.error, Peer.queue, Peer.number_authed, hS]
      exact Bool.false_ne_true
    · rename_i hopen
      rw [Peer.auth, if_neg (by simp), if_neg hpass, if_neg (by simp)]
      refine iff_of_true rfl ?_
      cases hslave : cfg.slave with
      | false => exact .inl rfl
      | true => exact .inr (by simpa [hslave] using hopen)

end Dispatch

/-- A master with a password. -/
def locked : ServerCfg := { requirepass := str "pw" }

/-- A new connection. -/
def stranger : Host Unit := ⟨{}, { world := () }⟩

/-- Nothing else is done. -/
def noRest : Rest Unit := fun _ _ S => (S, false)

/-- A stranger's bytes. -/
def probes : List Bytes := [str "GET a\r\nAU", str "TH x\r\n+FULLRESYNCWR 1 2 3 4\r\n"]

theorem auth_isolates_probes :
    locked.requirepass ≠ [] ∧ stranger.peer.authed = false ∧
      (stranger.receive noRest locked 1 probes).peer.authed = false ∧
      (∀ es, es <+: stranger.events locked probes →
        (es.foldl (Host.handle noRest locked 1) stranger).side = stranger.side) ∧
      (stranger.handle noRest locked 1 (.command [str "auth", str "pw"] (str "auth pw\r\n"))).peer.authed = true := by
  have hpass : locked.requirepass ≠ [] := by decide
  have hunauthed : (stranger.receive noRest locked 1 probes).peer.authed = false := by decide +kernel
  have hevents : stranger.events locked probes =
      [.command [str "GET", str "a"] (str "GET a\r\n"), .command [str "AUTH", str "x"] (str "AUTH x\r\n"),
        .control (.fullResyncWr 1 2 3 4)] := by decide +kernel
  obtain ⟨hstream, hauth⟩ := auth_isolates noRest locked 1 stranger hpass rfl
  refine ⟨hpass, rfl, hunauthed, (hstream probes hunauthed).1.mpr ?_, (hauth _ _ (by decide)).mpr (.inl rfl)⟩
  exact ⟨rfl, rfl, .inl (.inl rfl), trivial⟩

/-- A stranger's line sets the memory region of a master's writes, and a replica refuses the right password. -/
theorem kprobe_before_auth :
    (let S := stranger.receive noRest locked 1 [str "+KPROBERDMA 1 4096 0 8 64\r\n"];
      S.peer.authed = false ∧ S.side.kprobe ≠ stranger.side.kprobe) ∧
    (stranger.handle noRest { locked with slave := true } 1
      (.command [str "AUTH", str "pw"] (str "AUTH pw\r\n"))).peer.authed = false := by
  decide +kernel

end PocketKv.Client
