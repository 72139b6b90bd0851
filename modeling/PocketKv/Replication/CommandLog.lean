import PocketKv.CommitGate.Publisher
import PocketKv.Persistence.Aof
import PocketKv.Replication.Broadcast
import PocketKv.Store.Steps

/-!
# The logs of a master
-/

namespace PocketKv.Replication

open CommitGate Persistence Resp Store List

variable {M : Master} {r : Request} {rs : List Request}

/-- The store of a master, with its logs. -/
structure Master where
  cfg : Cfg := {}
  db : Db := .empty
  aof : Aof := {}
  backlog : Backlog := {}
  /-- `g_master_repl_offset`. -/
  offset : ℕ := 0
  /-- `g_replicas`. -/
  replicas : List Replica := []
  /-- `g_repl_fullsync_in_progress`. -/
  inProgress : Bool := false
  /-- `g_slave` of the proxy: the one replica to which it is connected. -/
  proxySlave : Option ℕ := none
  /-- The state of the commit gate. -/
  pub : Publisher := {}
  /-- What was sent to the proxy. -/
  sent : List Msg := []

/-- What a client is answered. -/
inductive Answer where
  /-- `-NOAUTH Authentication required.` -/
  | noauth
  /-- The reply of the command's handler. -/
  | reply (o : Reply)
  deriving DecidableEq

/-- It is not an error. -/
def Answer.success : Answer → Bool
  | .noauth => false
  | .reply o => o.success

@[simp] lemma Answer.success_reply (o : Reply) : (Answer.reply o).success = o.success := rfl

/-- A command that the parser has read. -/
structure Request where
  now : ℤ
  cookie : ℕ
  authed : Bool := true
  argv : List Bytes
  raw : Bytes

namespace Master

/-- The commit gate is told of a command. -/
def publish (M : Master) (r : Request) (write : Bool) : Master :=
  if commitActiveMode M.cfg then
    let p := M.pub.step (.command r.cookie r.raw write)
    { M with pub := p.1, sent := M.sent ++ p.2 }
  else M

/-- `repl_backlog_feed` and `repl_note_broadcast`. -/
def feed (M : Master) (raw : Bytes) : Master :=
  { M with
    backlog := replBacklogFeed (!M.replicas.isEmpty) M.offset raw M.backlog
    offset := M.offset + raw.length }

/-- `repl_broadcast`; the session ends with the last replica. -/
def broadcast (M : Master) (raw : Bytes) : Master :=
  let rs := replBroadcast M.inProgress M.offset raw M.replicas
  { M with
    replicas := rs
    pub := if !M.replicas.isEmpty && rs.isEmpty then replCommitSessionEnd M.pub else M.pub }

/-- A write goes to the gate, the backlog and the replicas. -/
def logWrite (M : Master) (r : Request) : Master :=
  let M := M.publish r true
  let M := if (decode r.argv).engineWrite then M.feed r.raw else M
  M.broadcast r.raw

/-- A command of a client: the master afterwards, the answer, and whether it was logged as a write. -/
def step (M : Master) (r : Request) : Master × Answer × Bool :=
  if !r.authed then (M.publish r false, .noauth, false)
  else
    let o := exec r.now M.db (decode r.argv)
    let M := { M with db := o.db }
    if o.wrote then
      match persistAppendPrepare r.raw M.aof with
      | none => (M.publish r false, .reply (.err "AOF write failed"), false)
      | some aof => (({ M with aof := aof } : Master).logWrite r, .reply o.reply, true)
    else (M.publish r false, .reply o.reply, false)

/-- Command by command. -/
def run (M : Master) (rs : List Request) : Master := rs.foldl (fun M r => (M.step r).1) M

/-- The commands that are logged as writes. -/
def writes (M : Master) : List Request → List Request
  | [] => []
  | r :: rs => (if (M.step r).2.2 then [r] else []) ++ writes (M.step r).1 rs

/-- The WRITE descriptors so far. -/
def published (M : Master) : List CommitDesc := writesOf (descsOf M.sent ++ M.pub.batch)

/-! ### One command -/

/-- The file takes what is appended, a replica stays, there is a session, and the proxy is connected. -/
structure Logging (M : Master) : Prop where
  on : M.aof.On
  replica : ∃ x ∈ M.replicas, x.draining = false
  session : M.pub.session ≠ 0
  channel : M.pub.connected = true

/-- What a descriptor says about its command. -/
def keyOf (d : CommitDesc) : ℕ × UInt64 × ℕ := (d.cookie, d.crc, d.len)

/-- What its descriptor is to say. -/
def keyOfRequest (r : Request) : ℕ × UInt64 × ℕ :=
  (r.cookie, kvsCmdCrc64 r.raw, r.raw.length)

/-- What every command keeps. -/
structure Keeps (M M' : Master) : Prop where
  logging : M.Logging → M'.Logging
  eligible : ∀ k, M.pub.Eligible k → M'.pub.Eligible k
  cfg : M'.cfg = M.cfg

/-- The backlog and the offset after a write: only a command of the engines is fed and counted. -/
def fedBy (M : Master) (r : Request) : Backlog × ℕ :=
  if (decode r.argv).engineWrite then (replBacklogFeed true M.offset r.raw M.backlog, M.offset + r.raw.length)
  else (M.backlog, M.offset)

/-- Its bytes are appended to the file, it gets a WRITE descriptor, and a command of the engines is fed and counted.
-/
structure Logs (M : Master) (r : Request) (M' : Master) : Prop where
  aof : M'.aof.content = M.aof.content ++ r.raw
  desc : commitActiveMode M.cfg = true → M.pub.Eligible r.cookie →
    M'.published.map keyOf = M.published.map keyOf ++ [keyOfRequest r]
  fed : (M'.backlog, M'.offset) = M.fedBy r

/-- The logs are the same. -/
structure Leaves (M M' : Master) : Prop where
  aof : M'.aof.content = M.aof.content
  desc : M'.published = M.published
  backlog : M'.backlog = M.backlog
  offset : M'.offset = M.offset

lemma published_of_publishes {out : Publisher × List Msg} {ds : List CommitDesc}
    (h : Publishes M.pub out ds) :
    published { M with pub := out.1, sent := M.sent ++ out.2 } = M.published ++ writesOf ds := by
  simp only [published, descsOf_append, append_assoc, h.descs]
  rw [← append_assoc, writesOf_append]

lemma publish_eq (M : Master) (r : Request) (w : Bool) :
    ∃ pub sent, M.publish r w = { M with pub := pub, sent := sent } := by
  unfold publish
  split
  · exact ⟨_, _, rfl⟩
  · exact ⟨M.pub, M.sent, rfl⟩

lemma publish_keeps (M : Master) (r : Request) (w : Bool) : Keeps M (M.publish r w) := by
  unfold publish
  split
  · have hstays := command_sameGate M.pub r.cookie r.raw w
    exact ⟨fun h => ⟨h.on, h.replica, hstays.session ▸ h.session, hstays.connected.trans h.channel⟩,
      hstays.eligible, rfl⟩
  · exact ⟨id, fun _ => id, rfl⟩

lemma publish_leaves (M : Master) (r : Request) : Leaves M (M.publish r false) := by
  unfold publish
  split
  · obtain ⟨ds, hds, hp⟩ := command_publishes M.pub r.cookie r.raw false
    exact ⟨rfl, by rw [published_of_publishes hp, hds rfl, append_nil], rfl, rfl⟩
  · exact ⟨rfl, rfl, rfl, rfl⟩

lemma publish_write (hs : M.pub.session ≠ 0) (hconn : M.pub.connected = true)
    (hc : commitActiveMode M.cfg = true) (he : M.pub.Eligible r.cookie) :
    (M.publish r true).published.map keyOf = M.published.map keyOf ++ [keyOfRequest r] := by
  obtain ⟨seq, hp⟩ := command_write_publishes r.raw he hs hconn
  unfold publish
  rw [if_pos hc]
  simp only [published_of_publishes hp, map_append]
  rfl

lemma broadcast_eq (h : ∃ x ∈ M.replicas, x.draining = false) (raw : Bytes) :
    M.broadcast raw = { M with replicas := replBroadcast M.inProgress M.offset raw M.replicas } := by
  obtain ⟨x, hx, -⟩ := replBroadcast_stays M.inProgress M.offset raw h
  have hne : (replBroadcast M.inProgress M.offset raw M.replicas).isEmpty = false := by
    simpa [isEmpty_eq_false_iff] using ne_nil_of_mem hx
  simp [broadcast, hne]

lemma feed_eq (h : ∃ x ∈ M.replicas, x.draining = false) (raw : Bytes) :
    M.feed raw = { M with backlog := replBacklogFeed true M.offset raw M.backlog,
                          offset := M.offset + raw.length } := by
  obtain ⟨x, hx, -⟩ := h
  have hne : M.replicas.isEmpty = false := by
    simpa [isEmpty_eq_false_iff] using ne_nil_of_mem hx
  simp [feed, hne]

lemma logWrite_eq (h : ∃ x ∈ M.replicas, x.draining = false) (r : Request) :
    M.logWrite r =
      { M.publish r true with
        backlog := (M.fedBy r).1
        offset := (M.fedBy r).2
        replicas := replBroadcast M.inProgress (M.fedBy r).2 r.raw M.replicas } := by
  obtain ⟨pub, sent, hp⟩ := publish_eq M r true
  unfold logWrite fedBy
  rw [hp]
  simp only
  split
  · rw [feed_eq (M := { M with pub := pub, sent := sent }) h]
    exact broadcast_eq (M := { M with
      pub := pub, sent := sent, backlog := replBacklogFeed true M.offset r.raw M.backlog,
      offset := M.offset + r.raw.length }) h r.raw
  · exact broadcast_eq (M := { M with pub := pub, sent := sent }) h r.raw

lemma step_wrote (hreplica : ∃ x ∈ M.replicas, x.draining = false) (h : (M.step r).2.2 = true) :
    ∃ db aof, persistAppendPrepare r.raw M.aof = some aof ∧
      (M.step r).1 =
        { ({ M with db := db, aof := aof } : Master).publish r true with
          backlog := (M.fedBy r).1
          offset := (M.fedBy r).2
          replicas := replBroadcast M.inProgress (M.fedBy r).2 r.raw M.replicas } := by
  unfold step at h ⊢
  split at h
  · cases h
  rename_i hauth
  rw [if_neg hauth]
  simp only at h ⊢
  split at h
  swap
  · cases h
  rename_i hwrote
  rw [if_pos hwrote]
  cases ha : persistAppendPrepare r.raw M.aof with
  | none => simp [ha] at h
  | some aof =>
    exact ⟨_, aof, rfl, logWrite_eq (M := { M with db := (exec r.now M.db (decode r.argv)).db, aof := aof }) hreplica r⟩

lemma step_logs (hM : M.Logging) (h : (M.step r).2.2 = true) : Keeps M (M.step r).1 ∧ Logs M r (M.step r).1 := by
  obtain ⟨db, aof, ha, heq⟩ := step_wrote hM.replica h
  obtain ⟨hon, hcontent⟩ := persistAppendPrepare_appends hM.on ha
  obtain ⟨pub, sent, hp⟩ := publish_eq { M with db := db, aof := aof } r true
  have hkeeps := publish_keeps { M with db := db, aof := aof } r true
  have hlog := hkeeps.logging ⟨hon, hM.replica, hM.session, hM.channel⟩
  have hdesc := publish_write (M := { M with db := db, aof := aof }) (r := r) hM.session hM.channel
  rw [hp] at heq hkeeps hlog hdesc
  rw [heq]
  exact ⟨⟨fun _ => ⟨hon, replBroadcast_stays _ _ _ hM.replica, hlog.session, hlog.channel⟩, hkeeps.eligible, rfl⟩,
    ⟨hcontent, hdesc, rfl⟩⟩

lemma step_unlogged (h : (M.step r).2.2 = false) :
    ∃ db, (M.step r).1 = ({ M with db := db } : Master).publish r false ∧
      (db = if r.authed then (exec r.now M.db (decode r.argv)).db else M.db) ∧
      ((M.step r).2.1.success = true → Expires r.now M.db db) := by
  refine ⟨_, ?_, rfl, ?_⟩
  all_goals
    cases hauth : r.authed with
    | false => simp [step, hauth, Answer.success]
    | true =>
      by_cases hwrote : (exec r.now M.db (decode r.argv)).wrote = true
      · cases ha : persistAppendPrepare r.raw M.aof with
        | none => simp [step, hauth, hwrote, ha, Reply.success]
        | some aof => simp [step, hauth, hwrote, ha] at h
      · simp only [step, hauth, hwrote, Bool.not_true, Bool.false_eq_true, if_false, if_true]
        try exact fun hs => exec_expires hs (by simpa using hwrote)

lemma step_leaves (h : (M.step r).2.2 = false) :
    Keeps M (M.step r).1 ∧ Leaves M (M.step r).1 ∧
      ((M.step r).2.1.success = true → Expires r.now M.db (M.step r).1.db) := by
  obtain ⟨db, heq, -, hexpires⟩ := step_unlogged h
  have hk := publish_keeps { M with db := db } r false
  have hl := publish_leaves { M with db := db } r
  obtain ⟨pub, sent, hp⟩ := publish_eq { M with db := db } r false
  rw [heq]
  refine ⟨⟨fun h => hk.logging { h with }, hk.eligible, hk.cfg⟩, { hl with }, ?_⟩
  rwa [hp]

/-! ### Runs -/

lemma step_keeps (hM : M.Logging) (r : Request) : Keeps M (M.step r).1 := by
  cases h : (M.step r).2.2 with
  | true => exact (step_logs hM h).1
  | false => exact (step_leaves h).1

lemma run_cons (M : Master) (r : Request) (rs : List Request) : M.run (r :: rs) = (M.step r).1.run rs := rfl

lemma writes_cons_true (h : (M.step r).2.2 = true) (rs : List Request) :
    M.writes (r :: rs) = r :: (M.step r).1.writes rs := by
  simp [writes, h]

lemma writes_cons_false (h : (M.step r).2.2 = false) (rs : List Request) :
    M.writes (r :: rs) = (M.step r).1.writes rs := by
  simp [writes, h]

lemma writes_append (M : Master) (rs rs' : List Request) :
    M.writes (rs ++ rs') = M.writes rs ++ (M.run rs).writes rs' := by
  induction rs generalizing M with
  | nil => rfl
  | cons r rs ih =>
    rw [cons_append, writes, writes, ih, append_assoc]
    rfl

lemma run_aof (hM : M.Logging) (rs : List Request) :
    (M.run rs).aof.content = M.aof.content ++ ((M.writes rs).map (·.raw)).flatten := by
  induction rs generalizing M with
  | nil => simp [run, writes]
  | cons r rs ih =>
    rw [run_cons, ih ((step_keeps hM r).logging hM)]
    cases h : (M.step r).2.2 with
    | true =>
      rw [(step_logs hM h).2.aof, writes_cons_true h]
      simp
    | false => rw [(step_leaves h).2.1.aof, writes_cons_false h]

lemma run_published (hM : M.Logging) (hc : commitActiveMode M.cfg = true)
    (he : ∀ r ∈ rs, M.pub.Eligible r.cookie) :
    (M.run rs).published.map keyOf = M.published.map keyOf ++ (M.writes rs).map keyOfRequest := by
  induction rs generalizing M with
  | nil => simp [run, writes]
  | cons r rs ih =>
    have hkeeps := step_keeps hM r
    have he' : ∀ x ∈ rs, (M.step r).1.pub.Eligible x.cookie := fun x hx =>
      hkeeps.eligible _ (he x (mem_cons_of_mem r hx))
    rw [run_cons, ih (hkeeps.logging hM) (hkeeps.cfg ▸ hc) he']
    cases h : (M.step r).2.2 with
    | true =>
      rw [(step_logs hM h).2.desc hc (he r mem_cons_self), writes_cons_true h]
      simp
    | false => rw [(step_leaves h).2.1.desc, writes_cons_false h]

/-- A command is fed and counted. -/
def feedOne (b : Backlog × ℕ) (r : Request) : Backlog × ℕ :=
  (replBacklogFeed true b.2 r.raw b.1, b.2 + r.raw.length)

/-- The writes by commands of the engines. -/
def engineWrites (M : Master) (rs : List Request) : List Request :=
  (M.writes rs).filter fun r => (decode r.argv).engineWrite

lemma run_fed (hM : M.Logging) (rs : List Request) :
    ((M.run rs).backlog, (M.run rs).offset) = (M.engineWrites rs).foldl feedOne (M.backlog, M.offset) := by
  induction rs generalizing M with
  | nil => rfl
  | cons r rs ih =>
    have hlog := (step_keeps hM r).logging hM
    rw [run_cons, ih hlog, engineWrites, engineWrites]
    cases h : (M.step r).2.2 with
    | true =>
      rw [writes_cons_true h, filter_cons, (step_logs hM h).2.fed, fedBy]
      split <;> rfl
    | false =>
      rw [writes_cons_false h, (step_leaves h).2.1.backlog, (step_leaves h).2.1.offset]

end Master

open Master

/-- A master with a replica that the proxy serves. -/
def gateMaster : Master where
  cfg := { realtime := str "ebpf+tcp" }
  replicas := [{ kind := .ebpfTcp }]
  proxySlave := some 0
  pub := { session := 7, conns := AList.singleton 1 {} }

/-- An inline command. -/
def asks (now : ℤ) (line : String) : Request where
  now := now
  cookie := 1
  argv := splitInlineArgv (str line) 32
  raw := str line ++ [cr, lf]

end PocketKv.Replication
