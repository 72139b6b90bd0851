import PocketKv.Replication.Suppression

/-!
# The life of a replication session
-/

namespace PocketKv.Replication

open Library Resp List Function

/-- The number of a session: the loop of `repl_session_begin` goes on until it is not 0. -/
abbrev SessionId := { n : ℕ // n ≠ 0 }

/-- The last values of `repl_ebpf_client_ctl_set`. A map that cannot be opened keeps what it has. -/
structure ClientCtl where
  /-- `KVS_CTL_SESSION_ID`. -/
  sessionId : Option ℕ := none
  /-- `KVS_CTL_CACHE_INVALID`. -/
  cacheInvalid : Option ℕ := none
  /-- `KVS_CTL_SESSION_VALID`. -/
  sessionValid : Option ℕ := none
  /-- `KVS_CTL_CAPTURE_ENABLE`. -/
  captureEnable : Option ℕ := none

/-- The master with its sessions. -/
structure Lifecycle where
  sync : Resync
  /-- `is_replica`. -/
  isReplica : ℕ → Bool := fun _ => false
  /-- `g_repl_session_id`. -/
  sessionId : ℕ := 0
  ctl : ClientCtl := {}
  /-- The number of calls of `repl_session_begin`. -/
  begins : ℕ := 0
  /-- The number of calls of `repl_session_end`. -/
  ends : ℕ := 0

namespace Lifecycle

/-- `g_replicas`. -/
def replicas (L : Lifecycle) : List ℕ := L.sync.replicas

/-- A step of the synchronising. -/
def onSync (f : Resync → Resync) (L : Lifecycle) : Lifecycle := { L with sync := f L.sync }

/-! ### The session -/

/-- `repl_session_begin`. -/
def replSessionBegin (sid : SessionId) (L : Lifecycle) : Lifecycle :=
  { L with sessionId := sid, begins := L.begins + 1 }

/-- `repl_session_end`. -/
def replSessionEnd (L : Lifecycle) : Lifecycle := { L with sessionId := 0, ends := L.ends + 1 }

/-- `repl_notify_ebpf_proxy_session`. -/
def replNotifyEbpfProxySession (valid : Bool) (sid : ℕ) (L : Lifecycle) : Lifecycle :=
  { L with
    ctl :=
      if valid then { sessionId := some sid, cacheInvalid := some 0, sessionValid := some 1, captureEnable := some 1 }
      else { sessionId := some 0, cacheInvalid := some 1, sessionValid := some 0, captureEnable := some 0 } }

/-- `repl_end_session_notify`. -/
def replEndSessionNotify (L : Lifecycle) : Lifecycle :=
  (L.onSync Resync.replBarrierCancel).replSessionEnd.replNotifyEbpfProxySession false 0

/-- `repl_session_invalidate`. -/
def replSessionInvalidate (L : Lifecycle) : Lifecycle :=
  { L.onSync Resync.replSessionInvalidate with ctl := { L.ctl with captureEnable := some 0 } }

/-! ### The list -/

/-- `repl_add_slave`. -/
def replAddSlave (c : ℕ) (sid : SessionId) (L : Lifecycle) : Lifecycle :=
  let L' := { L.onSync (·.replAddSlave c) with isReplica := update L.isReplica c true }
  if c ∈ L.replicas then L'
  else if L.replicas = [] then (L'.replSessionBegin sid).replNotifyEbpfProxySession true sid
  else L'

/-- `repl_unlink_replica_locked`, and whether it returns 1. -/
def replUnlinkReplicaLocked (c : ℕ) (L : Lifecycle) : Lifecycle × Bool :=
  let left := L.replicas.erase c
  ({ L with
      sync := { L.sync with
        history := { L.sync.history with replicas := left }
        conns := update L.sync.conns c
          { L.sync.conns c with draining := false, fullsyncPending := false, fwdHealthy := false }
        syncing := update L.sync.syncing c false }
      isReplica := update L.isReplica c false },
    decide (c ∈ L.replicas) && left.isEmpty)

/-- The session ends if the last replica has gone. -/
def endIf (x : Lifecycle × Bool) : Lifecycle := if x.2 then x.1.replEndSessionNotify else x.1

/-- `repl_remove_slave`. -/
def replRemoveSlave (c : ℕ) (L : Lifecycle) : Lifecycle := endIf (L.replUnlinkReplicaLocked c)

/-- `close_conn`; a connection that is accepted later at this address begins anew. -/
def closeConn (c : ℕ) (L : Lifecycle) : Lifecycle :=
  let L := if L.isReplica c then L.replRemoveSlave c else L
  { L.onSync (·.setConn c { kind := .tcp }) with isReplica := update L.isReplica c false }

/-- The loop of `repl_broadcast` over the list, with `session_ended`. -/
def broadcastLoop (raw : Bytes) : List ℕ → Lifecycle → Lifecycle × Bool
  | [], L => (L, false)
  | c :: todo, L =>
    if (L.sync.conns c).draining then
      let x := L.replUnlinkReplicaLocked c
      let y := broadcastLoop raw todo x.1
      (y.1, x.2 || y.2)
    else
      broadcastLoop raw todo
        (L.onSync fun M => M.setConn c ((broadcastTo M.inProgress M.history.offset raw (M.conns c)).getD (M.conns c)))

/-- `repl_broadcast`. -/
def replBroadcast (raw : Bytes) (L : Lifecycle) : Lifecycle :=
  if L.replicas = [] then L else endIf (broadcastLoop raw L.replicas L)

/-! ### The barrier -/

/-- `repl_barrier_release`. -/
def replBarrierRelease (c : ℕ) (confirmed resume : Bool) (L : Lifecycle) : Lifecycle :=
  { L.onSync (·.replBarrierRelease c confirmed resume) with
    ctl :=
      if L.sync.barrier.active && L.sync.replProxyBarrierNeeded && !L.sync.resumes resume then
        { L.ctl with captureEnable := some 0 }
      else L.ctl }

/-- `repl_barrier_note_applied`. -/
def replBarrierNoteApplied (c applied : ℕ) (confirmed resume : Bool) (L : Lifecycle) : Lifecycle :=
  if !L.sync.barrier.active || !L.sync.barrier.ackGated then L
  else if L.sync.barrier.endOffset ≤ applied then L.replBarrierRelease c confirmed resume
  else L

/-- `repl_barrier_tick`. -/
def replBarrierTick (now : ℕ) (L : Lifecycle) : Lifecycle :=
  if !L.sync.barrier.active || !L.sync.barrier.ackGated || L.sync.barrier.deadline = 0 then L
  else if now < L.sync.barrier.deadline then L
  else (L.onSync Resync.replBarrierCancel).replSessionInvalidate

/-! ### The handlers -/

/-- The `REPLSYNC` of a connection whose barrier is up or not needed. -/
def startSync (c : ℕ) (canContinue : Bool) (reqOffset : ℕ) (env : SyncEnv) (sid : SessionId) (L : Lifecycle) :
    Lifecycle :=
  let catchupEnd := L.sync.history.offset
  let L := L.replAddSlave c sid
  let L := L.onSync fun M => M.setConn c { M.conns c with fullsyncPending := !canContinue }
  if canContinue then
    if catchupEnd ≤ reqOffset then (L.onSync (·.setOwed c none)).replBarrierRelease c true env.resume
    else L.onSync fun M => (M.setOwed c (some (.upto catchupEnd))).replBarrierGateOnAck env.now
  else
    let L := L.onSync fun M => (M.setOwed c (some .full)).queueSnapshot c env
    if env.snapshot then L else (L.onSync (·.replRejectReplica c)).replBarrierRelease c false env.resume

/-- The handler of `REPLSYNC`. -/
def replsync (c : ℕ) (replid : Bytes) (off : Option ℕ) (env : SyncEnv) (sid : SessionId) (L : Lifecycle) : Lifecycle :=
  let canContinue := L.sync.continues replid off
  let M := L.sync.setConn c { L.sync.conns c with kind := replsyncKind L.sync.cfg (L.sync.conns c).kind }
  match M.replBarrierBegin env with
  | (M, false) => { L with sync := M.replRejectReplica c }
  | (M, true) => Lifecycle.startSync c canContinue (off.getD 0) env sid { L with sync := M }

/-- The handler of `REPLACK`. -/
def replack (c applied : ℕ) (cacheInvalid resume : Bool) (L : Lifecycle) : Lifecycle :=
  let confirmed := L.sync.caughtUp c applied
  let L := L.onSync (·.setOwed c (if confirmed then none else L.sync.owed c))
  if (L.sync.conns c).kind = .ebpfTcp && cacheInvalid then
    { L.onSync (·.replRejectReplica c) with ctl := { L.ctl with cacheInvalid := some 0 } }
  else L.replBarrierNoteApplied c applied confirmed resume

/-- The handler of `REPLDONE`. -/
def repldone (c : ℕ) (resume : Bool) (L : Lifecycle) : Lifecycle :=
  if L.isReplica c then
    let confirmed := decide (L.sync.owed c = some .full)
    let L := L.onSync fun M => M.setOwed c (if confirmed then none else M.owed c)
    let L := L.onSync fun M => (M.setConn c { M.conns c with fullsyncPending := false }).endSync c
    L.replBarrierRelease c confirmed resume
  else L

/-- What happens on the master. -/
inductive Input where
  /-- What happens to `Resync`; `sid` is the number of the session that begins. -/
  | sync (i : Resync.Input) (sid : SessionId)
  /-- `repl_add_slave`. -/
  | attach (c : ℕ) (sid : SessionId)
  /-- `repl_reject_replica`. -/
  | reject (c : ℕ)
  /-- `repl_remove_slave`, of a replica or of another connection. -/
  | remove (c : ℕ)

/-- A step. -/
def step (L : Lifecycle) : Input → Lifecycle
  | .sync (.replsync c replid off env) sid => L.replsync c replid off env sid
  | .sync (.replack c applied cacheInvalid resume) _ => L.replack c applied cacheInvalid resume
  | .sync (.repldone c resume) _ => L.repldone c resume
  | .sync (.write raw alloc) _ =>
    (L.onSync fun M => { M with history := M.history.step (.write raw alloc) }).replBroadcast raw
  | .sync (.broadcast raw) _ => L.replBroadcast raw
  | .sync (.close c) _ => L.closeConn c
  | .sync (.tick now) _ => L.replBarrierTick now
  | .sync .proxyFailed _ => L.replSessionInvalidate
  | .attach c sid => L.replAddSlave c sid
  | .reject c => L.onSync (·.replRejectReplica c)
  | .remove c => L.replRemoveSlave c

/-- The master when it starts. -/
def start (cfg : Cfg) (pinned : Bool) (holdMax : ℕ) (masterId : Bytes) : Lifecycle where
  sync := .start cfg pinned holdMax masterId

/-! ### What a session is -/

/-- The list, the flags and the session fit together. -/
structure Linked (L : Lifecycle) : Prop where
  nodup : L.replicas.Nodup
  /-- `is_replica` tells who is in it. -/
  isReplica : ∀ c, L.isReplica c = true ↔ c ∈ L.replicas
  session : L.sessionId ≠ 0 ↔ L.replicas ≠ []
  sessionValid : L.replicas = [] → L.ctl.sessionValid.getD 0 = 0
  captureEnable : L.replicas = [] → L.ctl.captureEnable.getD 0 = 0

/-- While the list is empty no barrier is up. -/
structure Healthy (L : Lifecycle) : Prop extends Linked L where
  barrier : L.replicas = [] → L.sync.barrier.active = false

/-- A session begins with the first replica and ends with the last. -/
structure Counted (L L' : Lifecycle) : Prop where
  begins : L'.begins = L.begins + if L.replicas = [] ∧ L'.replicas ≠ [] then 1 else 0
  ends : L'.ends = L.ends + if L.replicas ≠ [] ∧ L'.replicas = [] then 1 else 0

/-- At most the capture is switched off and the barrier taken down. -/
structure Kept (L L' : Lifecycle) : Prop where
  replicas : L'.replicas = L.replicas
  isReplica : L'.isReplica = L.isReplica
  sessionId : L'.sessionId = L.sessionId
  begins : L'.begins = L.begins
  ends : L'.ends = L.ends
  sessionValid : L'.ctl.sessionValid = L.ctl.sessionValid
  captureEnable : L'.ctl.captureEnable = L.ctl.captureEnable ∨ L'.ctl.captureEnable = some 0
  barrier : L'.sync.barrier.active = true → L.sync.barrier.active = true

section

variable {L L' L'' L₀ : Lifecycle} {c : ℕ} {todo : List ℕ} {b : Bool} {raw : Bytes}

lemma Kept.refl (L : Lifecycle) : Kept L L := ⟨rfl, rfl, rfl, rfl, rfl, rfl, .inl rfl, id⟩

lemma Kept.trans (h : Kept L L') (h' : Kept L' L'') : Kept L L'' where
  replicas := h'.replicas.trans h.replicas
  isReplica := h'.isReplica.trans h.isReplica
  sessionId := h'.sessionId.trans h.sessionId
  begins := h'.begins.trans h.begins
  ends := h'.ends.trans h.ends
  sessionValid := h'.sessionValid.trans h.sessionValid
  captureEnable := by
    rcases h'.captureEnable with heq | hoff
    · rw [heq]
      exact h.captureEnable
    · exact .inr hoff
  barrier := fun hup => h.barrier (h'.barrier hup)

lemma Linked.congr (hl : Linked L) (hreplicas : L'.replicas = L.replicas) (hflag : L'.isReplica = L.isReplica)
    (hid : L'.sessionId = L.sessionId) (hvalid : L'.ctl.sessionValid = L.ctl.sessionValid)
    (hcapture : L'.ctl.captureEnable = L.ctl.captureEnable ∨ L'.ctl.captureEnable = some 0) : Linked L' := by
  refine ⟨?_, ?_, ?_, ?_, fun hnil => ?_⟩
  · rw [hreplicas]
    exact hl.nodup
  · rw [hreplicas, hflag]
    exact hl.isReplica
  · rw [hreplicas, hid]
    exact hl.session
  · rw [hreplicas, hvalid]
    exact hl.sessionValid
  · rcases hcapture with heq | hoff
    · rw [heq]
      exact hl.captureEnable (hreplicas ▸ hnil)
    · rw [hoff]
      rfl

lemma Kept.healthy (h : Kept L L') (hl : Healthy L) : Healthy L' where
  toLinked := hl.toLinked.congr h.replicas h.isReplica h.sessionId h.sessionValid h.captureEnable
  barrier := by
    intro hnil
    rw [h.replicas] at hnil
    have hdown := hl.barrier hnil
    cases hup : L'.sync.barrier.active with
    | false => rfl
    | true => rw [h.barrier hup] at hdown; exact hdown

lemma Kept.counted (h : Kept L L') : Counted L L' where
  begins := by rw [h.begins, h.replicas, if_neg fun hn => hn.2 hn.1, Nat.add_zero]
  ends := by rw [h.ends, h.replicas, if_neg fun hn => hn.1 hn.2, Nat.add_zero]

/-! ### What leaves the list alone -/

lemma kept_onSync {f : Resync → Resync} (hreplicas : (f L.sync).replicas = L.replicas)
    (hbarrier : (f L.sync).barrier.active = true → L.sync.barrier.active = true) : Kept L (L.onSync f) :=
  ⟨hreplicas, rfl, rfl, rfl, rfl, rfl, .inl rfl, hbarrier⟩

lemma kept_invalidate (L : Lifecycle) : Kept L L.replSessionInvalidate :=
  ⟨rfl, rfl, rfl, rfl, rfl, rfl, .inr rfl, id⟩

lemma active_cancel (M : Resync) : M.replBarrierCancel.barrier.active = false := by
  unfold Resync.replBarrierCancel
  split
  · simp_all
  · rfl

lemma active_release (c : ℕ) (confirmed resume : Bool) (M : Resync) :
    (M.replBarrierRelease c confirmed resume).barrier.active = false := by
  unfold Resync.replBarrierRelease
  split
  · simp_all
  · split
    · split <;> rfl
    · rfl

lemma active_refused {env : SyncEnv} {M M' : Resync} (h : M.replBarrierBegin env = (M', false)) :
    M'.barrier.active = true ↔ M.barrier.active = true := by
  unfold Resync.replBarrierBegin at h
  split at h
  · cases h
  split at h
  · cases h
  split at h
  · cases h
  · cases h
    rfl

lemma active_gate (now : ℕ) (M : Resync) : (M.replBarrierGateOnAck now).barrier.active = M.barrier.active := by
  unfold Resync.replBarrierGateOnAck
  split <;> rfl

lemma kept_release (c : ℕ) (confirmed resume : Bool) (L : Lifecycle) :
    Kept L (L.replBarrierRelease c confirmed resume) where
  replicas := (Resync.samePhases_release c confirmed resume L.sync).replicas
  isReplica := rfl
  sessionId := rfl
  begins := rfl
  ends := rfl
  sessionValid := by
    unfold replBarrierRelease
    split <;> rfl
  captureEnable := by
    unfold replBarrierRelease
    split
    · exact .inr rfl
    · exact .inl rfl
  barrier := by
    intro hup
    have hdown := active_release c confirmed resume L.sync
    rw [show (L.replBarrierRelease c confirmed resume).sync = L.sync.replBarrierRelease c confirmed resume from rfl,
      hdown] at hup
    cases hup

lemma kept_noteApplied (c applied : ℕ) (confirmed resume : Bool) (L : Lifecycle) :
    Kept L (L.replBarrierNoteApplied c applied confirmed resume) := by
  unfold replBarrierNoteApplied
  split
  · exact .refl L
  split
  · exact kept_release c confirmed resume L
  · exact .refl L

lemma kept_tick (now : ℕ) (L : Lifecycle) : Kept L (L.replBarrierTick now) := by
  unfold replBarrierTick
  split
  · exact .refl L
  split
  · exact .refl L
  · have hcancel : Kept L (L.onSync Resync.replBarrierCancel) := by
      apply kept_onSync (Resync.samePhases_cancel L.sync).replicas
      intro hup
      rw [active_cancel] at hup
      cases hup
    exact hcancel.trans (kept_invalidate _)

lemma kept_replack (c applied : ℕ) (cacheInvalid resume : Bool) (L : Lifecycle) :
    Kept L (L.replack c applied cacheInvalid resume) := by
  unfold replack
  dsimp only
  generalize (if L.sync.caughtUp c applied = true then none else L.sync.owed c) = owed
  split
  · exact ⟨rfl, rfl, rfl, rfl, rfl, rfl, .inl rfl, id⟩
  · have howed : Kept L (L.onSync (·.setOwed c owed)) := kept_onSync rfl id
    exact howed.trans (kept_noteApplied c applied _ resume _)

lemma kept_repldone (c : ℕ) (resume : Bool) (L : Lifecycle) : Kept L (L.repldone c resume) := by
  unfold repldone
  split
  · refine Kept.trans ?_ (kept_release c _ resume _)
    exact ⟨rfl, rfl, rfl, rfl, rfl, rfl, .inl rfl, id⟩
  · exact .refl L

/-! ### Somebody comes -/

lemma replAddSlave_eq (c : ℕ) (sid : SessionId) (L : Lifecycle) :
    L.replAddSlave c sid =
      { sync := L.sync.replAddSlave c
        isReplica := update L.isReplica c true
        sessionId := if L.replicas = [] then sid.1 else L.sessionId
        ctl := if L.replicas = [] then ⟨some sid.1, some 0, some 1, some 1⟩ else L.ctl
        begins := L.begins + if L.replicas = [] then 1 else 0
        ends := L.ends } := by
  unfold replAddSlave
  by_cases hnil : L.replicas = []
  · simp only [hnil, not_mem_nil, if_false, if_true]
    rfl
  · simp only [hnil, if_false, ite_self]
    rfl

lemma replicas_addSlave (c : ℕ) (sid : SessionId) (L : Lifecycle) :
    (L.replAddSlave c sid).replicas = if c ∈ L.replicas then L.replicas else c :: L.replicas := by
  rw [replAddSlave_eq]
  change (L.sync.history.step (.attach c)).replicas = if c ∈ L.sync.history.replicas then _ else c :: _
  by_cases hc : c ∈ L.sync.history.replicas
  · rw [History.step, if_pos hc, if_pos hc]
    rfl
  · rw [History.step, if_neg hc, if_neg hc]
    rfl

lemma replicas_addSlave_ne_nil (c : ℕ) (sid : SessionId) (L : Lifecycle) : (L.replAddSlave c sid).replicas ≠ [] := by
  rw [replicas_addSlave]
  split
  · rename_i hc
    exact ne_nil_of_mem hc
  · exact cons_ne_nil c _

lemma Linked.isReplica_addSlave (hl : Linked L) (sid : SessionId) (d : ℕ) :
    (L.replAddSlave c sid).isReplica d = true ↔ d ∈ (L.replAddSlave c sid).replicas := by
  rw [replicas_addSlave, replAddSlave_eq]
  rcases eq_or_ne d c with rfl | hd
  · dsimp only
    rw [update_self]
    split <;> simp_all
  · dsimp only
    rw [update_of_ne hd, hl.isReplica]
    split
    · rfl
    · simp [hd]

lemma Linked.addSlave (hl : Linked L) (c : ℕ) (sid : SessionId) :
    Healthy (L.replAddSlave c sid) ∧ Counted L (L.replAddSlave c sid) := by
  have hne := replicas_addSlave_ne_nil c sid L
  refine ⟨⟨⟨?_, hl.isReplica_addSlave sid, ?_, (absurd · hne), (absurd · hne)⟩, (absurd · hne)⟩, ?_, ?_⟩
  · rw [replicas_addSlave]
    split
    · exact hl.nodup
    · rename_i hc
      exact nodup_cons.mpr ⟨hc, hl.nodup⟩
  · refine ⟨fun _ => hne, fun _ => ?_⟩
    rw [replAddSlave_eq]
    split
    · exact sid.2
    · rename_i hsome
      exact hl.session.mpr hsome
  · simp only [ne_eq, hne, not_false_eq_true, and_true]
    rw [replAddSlave_eq]
  · rw [if_neg fun hn => hne hn.2, replAddSlave_eq, Nat.add_zero]

/-! ### Somebody goes -/

/-- Replicas are being taken out of the list; `ended` tells that the last one was among them. -/
structure Unlinking (L₀ L : Lifecycle) (ended : Bool) : Prop where
  nodup : L.replicas.Nodup
  /-- `is_replica` tells who is in it. -/
  isReplica : ∀ c, L.isReplica c = true ↔ c ∈ L.replicas
  fewer : L₀.replicas = [] → L.replicas = []
  ended : ended = true ↔ L₀.replicas ≠ [] ∧ L.replicas = []
  sessionId : L.sessionId = L₀.sessionId
  ctl : L.ctl = L₀.ctl
  begins : L.begins = L₀.begins
  ends : L.ends = L₀.ends
  barrier : L.sync.barrier = L₀.sync.barrier

lemma Linked.unlinking (hl : Linked L) : Unlinking L L false where
  nodup := hl.nodup
  isReplica := hl.isReplica
  fewer := id
  ended := ⟨fun h => (Bool.false_ne_true h).elim, fun h => absurd h.2 h.1⟩
  sessionId := rfl
  ctl := rfl
  begins := rfl
  ends := rfl
  barrier := rfl

lemma Unlinking.unlink (h : Unlinking L₀ L b) (c : ℕ) :
    Unlinking L₀ (L.replUnlinkReplicaLocked c).1 (b || (L.replUnlinkReplicaLocked c).2) where
  nodup := h.nodup.erase c
  isReplica := by
    intro d
    change update L.isReplica c false d = true ↔ d ∈ L.replicas.erase c
    rw [h.nodup.mem_erase_iff]
    rcases eq_or_ne d c with rfl | hd
    · simp
    · rw [update_of_ne hd, h.isReplica]
      simp [hd]
  fewer := by
    intro hnil
    change L.replicas.erase c = []
    rw [h.fewer hnil]
    rfl
  ended := by
    change (b || (decide (c ∈ L.replicas) && (L.replicas.erase c).isEmpty)) = true ↔
      L₀.replicas ≠ [] ∧ L.replicas.erase c = []
    rw [Bool.or_eq_true, h.ended]
    by_cases hnil : L.replicas = []
    · simp [hnil]
    -- Here the list was not empty before: it is empty now just if this was its only connection.
    · have hsome : L₀.replicas ≠ [] := fun h₀ => hnil (h.fewer h₀)
      have hmem : L.replicas.erase c = [] → c ∈ L.replicas := by
        intro hleft
        by_contra hc
        exact hnil (by rwa [erase_of_not_mem hc] at hleft)
      simp only [ne_eq, hsome, not_false_eq_true, hnil, and_false, false_or, true_and, Bool.and_eq_true,
        decide_eq_true_eq, List.isEmpty_iff]
      exact ⟨And.right, fun hleft => ⟨hmem hleft, hleft⟩⟩
  sessionId := h.sessionId
  ctl := h.ctl
  begins := h.begins
  ends := h.ends
  barrier := h.barrier

lemma Unlinking.loop (raw : Bytes) (todo : List ℕ) (h : Unlinking L₀ L b) :
    Unlinking L₀ (broadcastLoop raw todo L).1 (b || (broadcastLoop raw todo L).2) := by
  induction todo generalizing L b with
  | nil =>
    rw [broadcastLoop, Bool.or_false]
    exact h
  | cons c todo ih =>
    rw [broadcastLoop]
    split
    · have hnext := ih (h.unlink c)
      rwa [Bool.or_assoc] at hnext
    · exact ih { h with }

lemma Unlinking.endIf (h : Unlinking L₀ L b) (h₀ : Healthy L₀) :
    Healthy (Lifecycle.endIf (L, b)) ∧ Counted L₀ (Lifecycle.endIf (L, b)) := by
  cases b with
  | true =>
    obtain ⟨hsome, hnil⟩ := h.ended.mp rfl
    have hreplicas : L.replEndSessionNotify.replicas = [] := (Resync.samePhases_cancel L.sync).replicas.trans hnil
    have hflag : ∀ c, L.replEndSessionNotify.isReplica c = true ↔ c ∈ L.replEndSessionNotify.replicas := by
      intro c
      rw [hreplicas, ← hnil]
      exact h.isReplica c
    refine ⟨⟨⟨?_, hflag, ?_, fun _ => rfl, fun _ => rfl⟩, fun _ => active_cancel L.sync⟩, ?_, ?_⟩
    · rw [Lifecycle.endIf, if_pos rfl, hreplicas]
      exact nodup_nil
    · exact ⟨fun hid => (hid rfl).elim, fun hne => (hne hreplicas).elim⟩
    · rw [if_neg fun hn => hsome hn.1, Nat.add_zero]
      exact h.begins
    · rw [if_pos ⟨hsome, hreplicas⟩, ← h.ends]
      rfl
  | false =>
    have hempty : L.replicas = [] ↔ L₀.replicas = [] := by
      refine ⟨fun hnil => ?_, h.fewer⟩
      by_contra hsome
      exact Bool.false_ne_true (h.ended.mpr ⟨hsome, hnil⟩)
    have hstay : Lifecycle.endIf (L, false) = L := if_neg Bool.false_ne_true
    rw [hstay]
    refine ⟨⟨⟨h.nodup, h.isReplica, ?_, ?_, ?_⟩, ?_⟩, ?_, ?_⟩
    · rw [h.sessionId, ne_eq L.replicas, hempty]
      exact h₀.session
    · rw [h.ctl, hempty]
      exact h₀.sessionValid
    · rw [h.ctl, hempty]
      exact h₀.captureEnable
    · rw [h.barrier, hempty]
      exact h₀.barrier
    · rw [h.begins, if_neg fun hn => hn.2 (hempty.mpr hn.1), Nat.add_zero]
    · rw [h.ends, if_neg fun hn => hn.1 (hempty.mp hn.2), Nat.add_zero]

lemma Healthy.removeSlave (hl : Healthy L) (c : ℕ) :
    Healthy (L.replRemoveSlave c) ∧ Counted L (L.replRemoveSlave c) :=
  (hl.toLinked.unlinking.unlink c).endIf hl

lemma Healthy.broadcast (hl : Healthy L) (raw : Bytes) :
    Healthy (L.replBroadcast raw) ∧ Counted L (L.replBroadcast raw) := by
  unfold replBroadcast
  split
  · exact ⟨hl, (Kept.refl L).counted⟩
  · exact (hl.toLinked.unlinking.loop raw L.replicas).endIf hl

lemma Counted.kept (h : Counted L L') (h' : Kept L' L'') : Counted L L'' where
  begins := by rw [h'.begins, h'.replicas, h.begins]
  ends := by rw [h'.ends, h'.replicas, h.ends]

lemma Kept.counts (h : Kept L L') (h' : Counted L' L'') : Counted L L'' where
  begins := by rw [h'.begins, h.begins, h.replicas]
  ends := by rw [h'.ends, h.ends, h.replicas]

lemma not_mem_removeSlave (hl : Linked L) (c : ℕ) : c ∉ (L.replRemoveSlave c).replicas := by
  have hleft : c ∉ L.replicas.erase c := fun hc => (hl.nodup.mem_erase_iff.mp hc).1 rfl
  unfold replRemoveSlave endIf
  split
  · rw [replicas, show (replEndSessionNotify (L.replUnlinkReplicaLocked c).1).sync.replicas =
      (L.replUnlinkReplicaLocked c).1.sync.replicas from (Resync.samePhases_cancel _).replicas]
    exact hleft
  · exact hleft

lemma Healthy.closeConn (hl : Healthy L) (c : ℕ) : Healthy (L.closeConn c) ∧ Counted L (L.closeConn c) := by
  -- A connection that is not, or no longer, in the list is freed.
  have hfree : ∀ {L' : Lifecycle}, Healthy L' → c ∉ L'.replicas →
      Kept L' { L'.onSync (·.setConn c { kind := .tcp }) with isReplica := update L'.isReplica c false } := by
    intro L' hl' hc
    have hflag : update L'.isReplica c false = L'.isReplica := by
      rw [update_eq_self_iff]
      cases hflag : L'.isReplica c with
      | false => rfl
      | true => exact absurd ((hl'.isReplica c).mp hflag) hc
    exact ⟨rfl, hflag, rfl, rfl, rfl, rfl, .inl rfl, id⟩
  unfold Lifecycle.closeConn
  split
  · obtain ⟨hl', hcount⟩ := hl.removeSlave c
    have hkept := hfree hl' (not_mem_removeSlave hl.toLinked c)
    exact ⟨hkept.healthy hl', hcount.kept hkept⟩
  · rename_i hnot
    have hkept := hfree hl fun hc => hnot ((hl.isReplica c).mpr hc)
    exact ⟨hkept.healthy hl, hkept.counted⟩

/-! ### All steps -/

lemma kept_startSync (c : ℕ) (canContinue : Bool) (reqOffset : ℕ) (env : SyncEnv) (sid : SessionId) (L : Lifecycle) :
    Kept (L.replAddSlave c sid) (L.startSync c canContinue reqOffset env sid) := by
  unfold startSync
  dsimp only
  generalize L.replAddSlave c sid = L₁
  have hpending : Kept L₁ (L₁.onSync fun M => M.setConn c { M.conns c with fullsyncPending := !canContinue }) :=
    kept_onSync rfl id
  refine hpending.trans ?_
  generalize (L₁.onSync fun M => M.setConn c { M.conns c with fullsyncPending := !canContinue }) = L₂
  split
  · split
    · have howed : Kept L₂ (L₂.onSync (·.setOwed c none)) := kept_onSync rfl id
      exact howed.trans (kept_release c true env.resume _)
    · refine kept_onSync (Resync.samePhases_gate env.now _).replicas fun hup => ?_
      rwa [active_gate] at hup
  · have hqueue : Kept L₂ (L₂.onSync fun M => (M.setOwed c (some .full)).queueSnapshot c env) := kept_onSync rfl id
    split
    · exact hqueue
    · refine (hqueue.trans (kept_onSync ?_ ?_)).trans (kept_release c false env.resume _)
      · rfl
      · exact id

lemma Healthy.replsync (hl : Healthy L) (replid : Bytes) (off : Option ℕ) (env : SyncEnv) (sid : SessionId) :
    Healthy (L.replsync c replid off env sid) ∧ Counted L (L.replsync c replid off env sid) := by
  unfold Lifecycle.replsync
  dsimp only
  set M := L.sync.setConn c { L.sync.conns c with kind := replsyncKind L.sync.cfg (L.sync.conns c).kind } with hM
  have hreplicas : (M.replBarrierBegin env).1.replicas = L.replicas := (Resync.samePhases_begin env M).replicas
  cases hbegin : M.replBarrierBegin env with
  | mk M' ok =>
    rw [hbegin] at hreplicas
    cases ok with
    | false =>
      have hkept : Kept L { L with sync := M'.replRejectReplica c } :=
        ⟨hreplicas, rfl, rfl, rfl, rfl, rfl, .inl rfl, (active_refused hbegin).mp⟩
      exact ⟨hkept.healthy hl, hkept.counted⟩
    | true =>
      -- The barrier may be up while the list is still empty; with the replica it is not.
      have hlinked : Linked { L with sync := M' } := hl.toLinked.congr hreplicas rfl rfl rfl (.inl rfl)
      obtain ⟨hadded, hcount⟩ := hlinked.addSlave c sid
      have hkept := kept_startSync c (L.sync.continues replid off) (off.getD 0) env sid { L with sync := M' }
      refine ⟨hkept.healthy hadded, ?_⟩
      obtain ⟨hbegins, hends⟩ := hcount.kept hkept
      exact ⟨by rw [hbegins, replicas, hreplicas], by rw [hends, replicas, hreplicas]⟩

lemma Healthy.step (hl : Healthy L) (i : Input) : Healthy (L.step i) ∧ Counted L (L.step i) := by
  have keep : ∀ {L'}, Kept L L' → Healthy L' ∧ Counted L L' := fun h => ⟨h.healthy hl, h.counted⟩
  cases i with
  | attach c sid => exact hl.toLinked.addSlave c sid
  | reject c => exact keep (kept_onSync rfl id)
  | remove c => exact hl.removeSlave c
  | sync i sid =>
    cases i with
    | replsync c replid off env => exact hl.replsync replid off env sid
    | replack c applied cacheInvalid resume => exact keep (kept_replack c applied cacheInvalid resume L)
    | repldone c resume => exact keep (kept_repldone c resume L)
    | write raw alloc =>
      have hfed : Kept L (L.onSync fun M => { M with history := M.history.step (.write raw alloc) }) := by
        apply kept_onSync
        · rfl
        · exact id
      obtain ⟨hl', hcount⟩ := (hfed.healthy hl).broadcast raw
      exact ⟨hl', hfed.counts hcount⟩
    | broadcast raw => exact hl.broadcast raw
    | close c => exact hl.closeConn c
    | tick now => exact keep (kept_tick now L)
    | proxyFailed => exact keep (kept_invalidate L)

lemma healthy_start (cfg : Cfg) (pinned : Bool) (holdMax : ℕ) (masterId : Bytes) :
    Healthy (start cfg pinned holdMax masterId) where
  nodup := nodup_nil
  isReplica := fun _ => ⟨fun h => (Bool.false_ne_true h).elim, fun h => (not_mem_nil h).elim⟩
  session := ⟨fun h => (h rfl).elim, fun h => (h rfl).elim⟩
  sessionValid := fun _ => rfl
  captureEnable := fun _ => rfl
  barrier := fun _ => rfl

lemma Healthy.run (hl : Healthy L) (is : List Input) : Healthy (is.foldl Lifecycle.step L) :=
  foldlRecOn is Lifecycle.step hl fun _ h i _ => (h.step i).1

/-! ### Without the session -/

/-- What the loop of the broadcast does with the connections of `todo`. -/
def swept (raw : Bytes) (todo : List ℕ) (M : Resync) : Resync :=
  let gone := fun c => decide (c ∈ todo) && (M.conns c).draining
  { M with
    history := { M.history with replicas := M.replicas.filter fun c => !gone c }
    conns := fun c =>
      if gone c then { M.conns c with draining := false, fullsyncPending := false, fwdHealthy := false }
      else if c ∈ todo then (M.served raw c).getD (M.conns c)
      else M.conns c
    syncing := fun c => !gone c && M.syncing c }

lemma swept_nil (raw : Bytes) (M : Resync) : swept raw [] M = M := by
  simp only [swept, not_mem_nil, decide_false, Bool.false_and, Bool.not_false, filter_true,
    Bool.false_eq_true, if_false, Bool.true_and]
  rfl

lemma swept_unlinked (hc : c ∉ todo) (hdraining : (L.sync.conns c).draining = true)
    (hl : L.replicas.Nodup) :
    swept raw todo (L.replUnlinkReplicaLocked c).1.sync = swept raw (c :: todo) L.sync := by
  have hself : (decide (c ∈ c :: todo) && (L.sync.conns c).draining) = true := by simp [hdraining]
  have hother : ∀ d, d ≠ c → decide (d ∈ c :: todo) = decide (d ∈ todo) := by
    intro d hd
    simp [hd]
  unfold swept replUnlinkReplicaLocked
  simp only [Resync.mk.injEq, History.mk.injEq, true_and, and_true]
  refine ⟨?_, ?_, ?_⟩
  · rw [Resync.replicas, hl.erase_eq_filter, filter_filter]
    refine filter_congr fun d _ => ?_
    rcases eq_or_ne d c with rfl | hd
    · simp [hdraining]
    · simp [hd]
  · funext d
    rcases eq_or_ne d c with rfl | hd
    · rw [if_pos hself]
      simp [hc]
    · simp [mem_cons, hd, false_or, Resync.served]
  · funext d
    rcases eq_or_ne d c with rfl | hd
    · simp [hdraining]
    · simp only [update_of_ne hd, hother d hd]

lemma swept_served {M : Resync} (hc : c ∉ todo) (hserved : (M.conns c).draining = false) :
    swept raw todo (M.setConn c ((M.served raw c).getD (M.conns c))) = swept raw (c :: todo) M := by
  unfold swept Resync.setConn
  simp only [Resync.mk.injEq, History.mk.injEq, true_and, and_true]
  refine ⟨?_, ?_, ?_⟩
  · refine filter_congr fun d _ => ?_
    rcases eq_or_ne d c with rfl | hd
    · simp [hc, hserved]
    · simp [hd]
  · funext d
    rcases eq_or_ne d c with rfl | hd
    · simp [hc, hserved]
    · simp [mem_cons, hd, false_or, Resync.served]
  · funext d
    rcases eq_or_ne d c with rfl | hd
    · simp [hc, hserved]
    · simp [hd]

lemma sync_broadcastLoop (raw : Bytes) (htodo : todo.Nodup) (hl : L.replicas.Nodup) :
    (broadcastLoop raw todo L).1.sync = swept raw todo L.sync := by
  induction todo generalizing L with
  | nil => rw [broadcastLoop, swept_nil]
  | cons c todo ih =>
    obtain ⟨hc, htodo⟩ := nodup_cons.mp htodo
    rw [broadcastLoop]
    split
    · rename_i hdraining
      have hleft : (L.replUnlinkReplicaLocked c).1.replicas.Nodup := hl.erase c
      exact (ih htodo hleft).trans (swept_unlinked hc hdraining hl)
    · rename_i hserved
      have hsame : (L.onSync fun M => M.setConn c ((M.served raw c).getD (M.conns c))).replicas.Nodup := hl
      exact (ih htodo hsame).trans (swept_served hc (Bool.eq_false_iff.mpr hserved))

lemma Unlinking.sync_endIf (h : Unlinking L₀ L b) :
    (Lifecycle.endIf (L, b)).sync =
      if L.replicas = [] ∧ L₀.replicas ≠ [] then L.sync.replBarrierCancel else L.sync := by
  cases b with
  | true =>
    obtain ⟨hsome, hnil⟩ := h.ended.mp rfl
    rw [if_pos ⟨hnil, hsome⟩]
    rfl
  | false =>
    rw [if_neg fun hn => Bool.false_ne_true (h.ended.mpr hn.symm)]
    rfl

lemma Linked.sync_removeSlave (hl : Linked L) (c : ℕ) : (L.replRemoveSlave c).sync = L.sync.unlink (· = c) := by
  have hsync : (L.replUnlinkReplicaLocked c).1.sync =
      { L.sync with
        history := { L.sync.history with replicas := L.sync.replicas.filter fun d => !decide (d = c) }
        conns := fun d =>
          if decide (d = c) = true then
            { L.sync.conns d with draining := false, fullsyncPending := false, fwdHealthy := false }
          else L.sync.conns d
        syncing := fun d => !decide (d = c) && L.sync.syncing d } := by
    unfold replUnlinkReplicaLocked
    simp only [Resync.mk.injEq, History.mk.injEq, true_and, and_true]
    refine ⟨?_, ?_, ?_⟩
    · rw [hl.nodup.erase_eq_filter]
      rfl
    · funext d
      rcases eq_or_ne d c with rfl | hd
      · simp
      · simp [hd]
    · funext d
      rcases eq_or_ne d c with rfl | hd
      · simp
      · simp [hd]
  have hend := (hl.unlinking.unlink c).sync_endIf
  rw [Bool.false_or] at hend
  rw [replRemoveSlave, hend, replicas, hsync]
  rfl

lemma replBroadcast_swept (raw : Bytes) (M : Resync) :
    M.replBroadcast raw =
      if (swept raw M.replicas M).replicas = [] ∧ M.replicas ≠ [] then (swept raw M.replicas M).replBarrierCancel
      else swept raw M.replicas M := by
  have hserved : ∀ c, (M.conns c).draining = true → M.served raw c = none := by
    intro c hdraining
    rw [← Option.isNone_iff_eq_none, Resync.served, Resync.broadcastTo_isNone, hdraining]
  have hconns : (fun c =>
      if (decide (c ∈ M.replicas) && (M.conns c).draining) = true then
        { (M.serve raw).conns c with draining := false, fullsyncPending := false, fwdHealthy := false }
      else (M.serve raw).conns c) = (swept raw M.replicas M).conns := by
    funext c
    simp only [Resync.serve, swept]
    by_cases hmem : c ∈ M.replicas
    · by_cases hdraining : (M.conns c).draining = true
      · simp [hmem, hdraining, hserved c hdraining]
      · simp [hmem, hdraining]
    · simp [hmem]
  rw [Resync.replBroadcast_eq, Resync.unlink]
  rw [hconns]
  rfl

lemma Linked.sync_replBroadcast (hl : Linked L) (raw : Bytes) :
    (L.replBroadcast raw).sync = L.sync.replBroadcast raw := by
  rw [replBroadcast_swept]
  unfold replBroadcast
  split
  · rename_i hnil
    have hempty : L.sync.replicas = [] := hnil
    rw [hempty, swept_nil, if_neg fun hn => hn.2 rfl]
  · have hend := (hl.unlinking.loop raw L.replicas).sync_endIf
    rw [Bool.false_or] at hend
    rw [hend, replicas, sync_broadcastLoop raw hl.nodup hl.nodup]
    rfl

lemma Linked.sync_closeConn (hl : Linked L) (c : ℕ) : (L.closeConn c).sync = L.sync.closeConn c := by
  unfold closeConn Resync.closeConn
  by_cases hc : c ∈ L.replicas
  · have hmem : c ∈ L.sync.replicas := hc
    rw [if_pos ((hl.isReplica c).mpr hc), if_pos hmem, ← hl.sync_removeSlave c]
    rfl
  · have hmem : c ∉ L.sync.replicas := hc
    rw [if_neg fun h => hc ((hl.isReplica c).mp h), if_neg hmem]
    rfl

lemma sync_startSync (c : ℕ) (canContinue : Bool) (reqOffset : ℕ) (env : SyncEnv) (sid : SessionId) (L : Lifecycle) :
    (L.startSync c canContinue reqOffset env sid).sync = L.sync.startSync c canContinue reqOffset env := by
  unfold startSync Resync.startSync
  rw [replAddSlave_eq]
  dsimp only
  split
  · split <;> rfl
  · split <;> rfl

lemma sync_replsync (c : ℕ) (replid : Bytes) (off : Option ℕ) (env : SyncEnv) (sid : SessionId) (L : Lifecycle) :
    (L.replsync c replid off env sid).sync = L.sync.replsync c replid off env := by
  unfold replsync Resync.replsync
  dsimp only
  generalize Resync.replBarrierBegin env _ = begun
  obtain ⟨M, ok⟩ := begun
  cases ok with
  | false => rfl
  | true => exact sync_startSync c _ _ env sid _

lemma sync_noteApplied (c applied : ℕ) (confirmed resume : Bool) (L : Lifecycle) :
    (L.replBarrierNoteApplied c applied confirmed resume).sync =
      L.sync.replBarrierNoteApplied c applied confirmed resume := by
  unfold replBarrierNoteApplied Resync.replBarrierNoteApplied
  split
  · rfl
  split <;> rfl

lemma sync_replack (c applied : ℕ) (cacheInvalid resume : Bool) (L : Lifecycle) :
    (L.replack c applied cacheInvalid resume).sync = L.sync.replack c applied cacheInvalid resume := by
  unfold replack Resync.replack
  generalize (if L.sync.caughtUp c applied = true then none else L.sync.owed c) = owed
  rw [apply_ite sync, sync_noteApplied]
  rfl

lemma Linked.sync_repldone (hl : Linked L) (c : ℕ) (resume : Bool) :
    (L.repldone c resume).sync = L.sync.repldone c resume := by
  unfold repldone Resync.repldone
  by_cases hc : c ∈ L.replicas
  · have hmem : c ∈ L.sync.replicas := hc
    rw [if_pos ((hl.isReplica c).mpr hc), if_pos hmem]
    rfl
  · have hmem : c ∉ L.sync.replicas := hc
    rw [if_neg fun h => hc ((hl.isReplica c).mp h), if_neg hmem]

lemma sync_tick (now : ℕ) (L : Lifecycle) : (L.replBarrierTick now).sync = L.sync.replBarrierTick now := by
  unfold replBarrierTick Resync.replBarrierTick
  split
  · rfl
  split <;> rfl

lemma Linked.sync_step (hl : Linked L) (i : Resync.Input) (sid : SessionId) :
    (L.step (.sync i sid)).sync = L.sync.step i := by
  cases i with
  | replsync c replid off env => exact sync_replsync c replid off env sid L
  | replack c applied cacheInvalid resume => exact sync_replack c applied cacheInvalid resume L
  | repldone c resume => exact hl.sync_repldone c resume
  | write raw alloc =>
    have hfed : Linked (L.onSync fun M => { M with history := M.history.step (.write raw alloc) }) := { hl with }
    exact hfed.sync_replBroadcast raw
  | broadcast raw => exact hl.sync_replBroadcast raw
  | close c => exact hl.sync_closeConn c
  | tick now => exact sync_tick now L
  | proxyFailed => rfl

lemma Healthy.sync_run (hl : Healthy L) (is : List (Resync.Input × SessionId)) :
    ((is.map fun x => Input.sync x.1 x.2).foldl Lifecycle.step L).sync = (is.map Prod.fst).foldl Resync.step L.sync := by
  induction is generalizing L with
  | nil => rfl
  | cons x is ih =>
    rw [map_cons, List.foldl_cons, ih (hl.step _).1, hl.toLinked.sync_step]
    rfl

end

/-- **The sessions do not interfere**: in any run the synchronising goes on as it does without them. -/
theorem lifecycle_refines_resync (cfg : Cfg) (pinned : Bool) (holdMax : ℕ) (masterId : Bytes)
    (is : List (Resync.Input × SessionId)) :
    ((is.map fun x => Input.sync x.1 x.2).foldl step (start cfg pinned holdMax masterId)).sync =
      (is.map Prod.fst).foldl Resync.step (.start cfg pinned holdMax masterId) :=
  (healthy_start cfg pinned holdMax masterId).sync_run is

/-- **A session lasts as long as there is a replica**: its number is not 0 just if the list is not empty; each
change from empty to non-empty, or back, begins, or ends, one session, and nothing else does; while the list is
empty, SESSION_VALID and CAPTURE_ENABLE were last set to 0, if at all, and no barrier is up. -/
theorem session_lifecycle (cfg : Cfg) (pinned : Bool) (holdMax : ℕ) (masterId : Bytes) (is : List Input) (i : Input) :
    let L := is.foldl step (start cfg pinned holdMax masterId)
    (L.sessionId ≠ 0 ↔ L.replicas ≠ []) ∧
      (L.step i).begins = L.begins + (if L.replicas = [] ∧ (L.step i).replicas ≠ [] then 1 else 0) ∧
      (L.step i).ends = L.ends + (if L.replicas ≠ [] ∧ (L.step i).replicas = [] then 1 else 0) ∧
      (L.replicas = [] →
        L.ctl.sessionValid.getD 0 = 0 ∧ L.ctl.captureEnable.getD 0 = 0 ∧ L.sync.barrier.active = false) := by
  intro L
  have hl : Healthy L := (healthy_start cfg pinned holdMax masterId).run is
  obtain ⟨-, hcount⟩ := hl.step i
  refine ⟨hl.session, hcount.begins, hcount.ends, ?_⟩
  intro hnil
  exact ⟨hl.sessionValid hnil, hl.captureEnable hnil, hl.barrier hnil⟩

end Lifecycle

end PocketKv.Replication
