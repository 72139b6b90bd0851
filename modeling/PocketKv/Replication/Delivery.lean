import PocketKv.Replication.CommandLog

/-!
# The path of a write to a replica
-/

namespace PocketKv.Replication

open CommitGate Master Resp Store List

/-! ### The two paths -/

/-- `INBUF_CAP`: a longer command does not get through a connection's buffer. -/
def inbufCap : ℕ := 1024 * 1024

/-- `repl_fwd_append`: what of a node is new after `watermark`. -/
def newBytes (watermark : ℕ) (n : FwdNode) : Bytes :=
  if n.endOffset ≤ watermark then [] else n.buf.drop (watermark - (n.endOffset - n.buf.length))

/-- `REPLACK`, `REPLDONE` and the forwarding thread send it from the backlog what it has not got. -/
def catchesUp (x : Replica) : Bool := x.kind ≠ .ebpfTcp

/-- The thread runs, and either the node that `repl_broadcast` queued is all new when everything before it has been
handed over, or the write is counted and in the backlog from which the replica is served. -/
def ByQueue (M : Master) (r : Request) (x : Replica) : Prop :=
  M.cfg.fwdThread = true ∧
    ∃ x' ∈ (M.step r).1.replicas,
      broadcastTo M.inProgress (M.step r).1.offset r.raw x = some x' ∧
      ((x'.queue = x.queue ++ [⟨r.raw, (M.step r).1.offset⟩] ∧
          newBytes M.offset ⟨r.raw, (M.step r).1.offset⟩ = r.raw) ∨
        (catchesUp x = true ∧ r.raw <:+ (M.step r).1.backlog.hist ∧ (M.step r).1.offset = M.offset + r.raw.length))

instance (M : Master) (r : Request) (x : Replica) : Decidable (ByQueue M r x) := by
  unfold ByQueue
  infer_instance

/-- The write gets a WRITE descriptor, and the proxy, which has one target, is connected to the replica. -/
def ByProxy (M : Master) (r : Request) (x : Replica) : Prop :=
  (M.step r).1.published.length = M.published.length + 1 ∧ M.proxySlave = some x.id

instance (M : Master) (r : Request) (x : Replica) : Decidable (ByProxy M r x) := by
  unfold ByProxy
  infer_instance

/-- It came by `REPLSYNC`, is not draining and is past its sync; the kprobe path does not serve it. -/
structure Synced (M : Master) (x : Replica) : Prop where
  mem : x ∈ M.replicas
  /-- Its kind is what `REPLSYNC` made of it. -/
  kind : x.kind = replsyncKind M.cfg .tcp
  draining : x.draining = false
  pending : x.fullsyncPending = false
  inProgress : M.inProgress = false
  kprobe : x.fwdHealthy = false

/-! ### Names -/

lemma named_iff {name : String} {s : Bytes} : named name s = true ↔ asciiUpper s = asciiUpper (str name) := by
  simp [named]

/-- A transport for which the thread forwards. -/
def forwarded (realtime : Bytes) : Bool :=
  named "rdma" realtime || named "ebpf" realtime || named "sockmap" realtime

lemma length_asciiUpper (s : Bytes) : (asciiUpper s).length = s.length := by simp [asciiUpper]

lemma commitActiveMode_iff {cfg : Cfg} (h : parseReplTransportBackend cfg.realtime = true) :
    commitActiveMode cfg = true ↔ cfg.realtime = str "ebpf+tcp" := by
  simp only [commitActiveMode, decide_eq_true_eq]
  constructor
  swap
  · rintro h
    rw [h]
  intro hin
  have hup : asciiUpper (str "ebpf+tcp") <:+: asciiUpper cfg.realtime := hin.map _
  simp only [parseReplTransportBackend, any_cons, any_nil, Bool.or_false, Bool.or_eq_true, named_iff] at h
  rcases h with h | h | h | h | h | h
  all_goals rw [h] at hup
  on_goal 6 =>
    have hlen : cfg.realtime.length = (str "ebpf+tcp").length := by
      rw [← length_asciiUpper, h, length_asciiUpper]
    exact (hin.eq_of_length hlen.symm).symm
  all_goals exact absurd hup (by decide)

lemma replsyncKind_iff (cfg : Cfg) : replsyncKind cfg .tcp = .ebpfTcp ↔
    named "ebpf+tcp" cfg.realtime = true ∨ named "tcp" cfg.realtime = true := by
  unfold replsyncKind
  simp only
  split
  · rename_i h
    simpa using h
  · rename_i h
    refine iff_of_false ?_ (by simpa using h)
    split
    · simp
    · split <;> simp

lemma named_disjoint {a b : String} {s : Bytes} (ha : named a s = true) (hb : named b s = true) :
    asciiUpper (str a) = asciiUpper (str b) := by
  rw [named_iff] at ha hb
  exact ha.symm.trans hb

lemma replsyncKind_forwarded {cfg : Cfg} (h : parseReplTransportBackend cfg.realtime = true)
    (hk : named "kprobe-rdma" cfg.realtime = false) :
    replsyncKind cfg .tcp ≠ .ebpfTcp ↔ forwarded cfg.realtime = true := by
  rw [ne_eq, replsyncKind_iff]
  simp only [parseReplTransportBackend, any_cons, any_nil, Bool.or_false, Bool.or_eq_true, hk,
    Bool.false_eq_true, false_or] at h
  simp only [forwarded, Bool.or_eq_true]
  constructor
  · tauto
  · rintro ((h1 | h1) | h1) (h2 | h2)
    all_goals exact absurd (named_disjoint h1 h2) (by decide)

/-! ### Which path takes a write -/

lemma feed_suffix {raw : Bytes} (hne : raw ≠ []) (hlen : raw.length < replBacklogSize) (offset : ℕ)
    (B : Backlog) : raw <:+ (replBacklogFeed true offset raw B).hist := by
  unfold replBacklogFeed
  rw [if_neg hne, if_neg (by simp)]
  rw [if_neg (by omega)]
  rw [drop_append_of_le_length (by omega)]
  exact suffix_append _ _

variable {x : Replica} {M : Master} {r : Request}

lemma synced_broadcast (hx : Synced M x) (offset : ℕ) (raw : Bytes) :
    ∃ x', broadcastTo M.inProgress offset raw x = some x' ∧
      (x.kind = .ebpfTcp → x'.queue = x.queue) := by
  unfold broadcastTo
  rw [hx.inProgress, hx.draining, hx.pending, hx.kprobe]
  simp only [Bool.false_eq_true, if_false]
  split
  · exact ⟨x, rfl, fun _ => rfl⟩
  · rename_i hk
    split
    · exact ⟨x, rfl, fun _ => rfl⟩
    · exact ⟨_, rfl, fun h => absurd h hk⟩

lemma byQueue_iff (hx : Synced M x) (hw : (M.step r).2.2 = true)
    (hne : r.raw ≠ []) (hlen : r.raw.length ≤ inbufCap) :
    ByQueue M r x ↔
      M.cfg.fwdThread = true ∧ x.kind ≠ .ebpfTcp ∧ (decode r.argv).engineWrite = true := by
  obtain ⟨db, aof, -, heq⟩ := step_wrote ⟨x, hx.mem, hx.draining⟩ hw
  have hoff : (M.step r).1.offset = (M.fedBy r).2 := by rw [heq]
  have hback : (M.step r).1.backlog = (M.fedBy r).1 := by rw [heq]
  obtain ⟨x', hx', hqueue⟩ := synced_broadcast hx (M.fedBy r).2 r.raw
  have hmem : x' ∈ (M.step r).1.replicas := by
    rw [heq]
    exact mem_filterMap.mpr ⟨x, hx.mem, hx'⟩
  unfold ByQueue
  rw [hoff, hback]
  refine and_congr_right fun _ => ?_
  constructor
  · rintro ⟨y, -, hy, hcase⟩
    cases hx'.symm.trans hy
    by_cases hfed : (decode r.argv).engineWrite = true
    · refine ⟨fun hk => ?_, hfed⟩
      rcases hcase with ⟨hq, -⟩ | ⟨hc, -⟩
      · rw [hqueue hk] at hq
        simp at hq
      · simp [catchesUp, hk] at hc
    · have hsame : M.fedBy r = (M.backlog, M.offset) := by rw [Master.fedBy, if_neg hfed]
      rw [hsame] at hcase
      rcases hcase with ⟨-, hnew⟩ | ⟨-, -, hcount⟩
      · exact absurd (by simpa [newBytes] using hnew.symm) hne
      · exact absurd (length_eq_zero_iff.mp (by omega)) hne
  · rintro ⟨hk, hfed⟩
    have hfedBy : M.fedBy r = (replBacklogFeed true M.offset r.raw M.backlog, M.offset + r.raw.length) := by
      rw [Master.fedBy, if_pos hfed]
    refine ⟨x', hmem, hx', .inr ⟨by simpa [catchesUp] using hk, ?_, ?_⟩⟩
    · rw [hfedBy]
      exact feed_suffix hne (by unfold inbufCap at hlen; unfold replBacklogSize; omega) _ _
    · rw [hfedBy]

lemma byProxy_iff (hx : Synced M x) (hs : M.pub.session ≠ 0) (hw : (M.step r).2.2 = true) :
    ByProxy M r x ↔
      (commitActiveMode M.cfg = true ∧ M.pub.Eligible r.cookie ∧ M.pub.connected = true) ∧
        M.proxySlave = some x.id := by
  obtain ⟨db, aof, -, heq⟩ := step_wrote ⟨x, hx.mem, hx.draining⟩ hw
  have hpub : (M.step r).1.published = (Master.publish { M with db := db, aof := aof } r true).published := by
    rw [heq]
    rfl
  unfold ByProxy
  rw [hpub]
  refine and_congr_left fun _ => ?_
  by_cases hc : commitActiveMode M.cfg = true
  · by_cases he : M.pub.Eligible r.cookie ∧ M.pub.connected = true
    · have h := publish_write (M := { M with db := db, aof := aof }) (r := r) hs he.2 hc he.1
      have hlen := congrArg List.length h
      simp only [length_map, length_append, length_singleton] at hlen
      exact iff_of_true hlen ⟨hc, he⟩
    · refine iff_of_false ?_ fun h => he h.2
      obtain ⟨pub, hsame, hstep⟩ := command_silent he r.raw true
      have h := published_of_publishes (M := { M with db := db, aof := aof }) (publishes_quiet hsame quiet_nil)
      simp only [Master.publish, hc, if_true, hstep]
      rw [h]
      simp [Master.published, writesOf]
  · refine iff_of_false ?_ fun h => hc h.1
    rw [Master.publish, if_neg hc]
    simp [Master.published]

/-- The condition under which one path takes the write to this replica. -/
def OnePath (M : Master) (r : Request) (x : Replica) : Prop :=
  (M.cfg.realtime = str "ebpf+tcp" ∧ M.pub.Eligible r.cookie ∧ M.pub.connected = true ∧ M.proxySlave = some x.id) ∨
    (forwarded M.cfg.realtime = true ∧ M.cfg.fwdThread = true ∧ (decode r.argv).engineWrite = true)

/-- A master whose thread forwards. -/
def sockmapMaster : Master where
  cfg := { realtime := str "sockmap" }
  replicas := [{ kind := .ebpf }]
  pub := { session := 7, conns := AList.singleton 1 {} }

/-- A master as it is configured by default, with one replica and one client. -/
def tcpMaster : Master where
  replicas := [{ kind := .ebpfTcp }]
  proxySlave := some 0
  pub := { session := 7, conns := AList.singleton 1 {} }

end PocketKv.Replication
