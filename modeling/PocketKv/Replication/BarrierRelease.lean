import PocketKv.Replication.Suppression

/-!
# Releasing the barrier
-/

namespace PocketKv.Replication

open Library Resp

/-- Every replica that the barrier covers has confirmed its catch-up, the sender by this message. -/
def Release.Due (e : Release) : Prop := e.confirmed = true ∧ e.owing = []

namespace Resync

/-- A call of `repl_barrier_release` takes the barrier down. -/
def fires (M : Resync) (resume : Bool) : Bool :=
  M.barrier.active && M.replProxyBarrierNeeded && M.resumes resume

/-- The state after `repl_barrier_begin`, if it returns 0. -/
def begun (env : SyncEnv) (M : Resync) : Resync :=
  if !M.replProxyBarrierNeeded || M.barrier.active then M else M.raised env

/-- A partial synchronisation without a gap finds no other replica owing, and the snapshot of a full one is sent. -/
def startOrderly (M : Resync) (c : ℕ) (canContinue : Bool) (reqOffset : ℕ) (env : SyncEnv) : Bool :=
  !M.fires env.resume || if canContinue then reqOffset < M.history.offset || M.othersOwing c = [] else env.snapshot

/-- The step releases the barrier only when all have confirmed. -/
def orderly (M : Resync) : Input → Bool
  | .replsync c replid off env =>
    !M.admits env || (M.begun env).startOrderly c (M.continues replid off) (off.getD 0) env
  | .replack c applied cacheInvalid resume =>
    ((M.conns c).kind = .ebpfTcp && cacheInvalid) || !M.barrier.ackGated || applied < M.barrier.endOffset ||
      !M.fires resume || (M.caughtUp c applied && M.othersOwing c = [])
  | .repldone c resume =>
    c ∉ M.replicas || !M.fires resume || (M.owed c = some .full && M.othersOwing c = [])
  | _ => true

section

variable {M M' M'' : Resync} {c reqOffset : ℕ} {env : SyncEnv} {confirmed resume canContinue : Bool}

lemma releases_release (c : ℕ) (confirmed resume : Bool) (M : Resync) :
    (M.replBarrierRelease c confirmed resume).releases =
      M.releases ++ if M.fires resume then [⟨c, confirmed, M.othersOwing c⟩] else [] := by
  unfold replBarrierRelease fires
  split
  · simp_all
  split
  · split <;> simp_all [replSessionInvalidate]
  · simp_all

/-- As far as the release for a message of `c` goes, the states are the same. -/
structure SameBarrier (c : ℕ) (M M' : Resync) : Prop where
  barrier : M'.barrier = M.barrier
  cfg : M'.cfg = M.cfg
  /-- `ebpf_pin_path`. -/
  pinned : M'.pinned = M.pinned
  fullsyncState : M'.fullsyncState = M.fullsyncState
  releases : M'.releases = M.releases
  mem : ∀ d, d ≠ c → (d ∈ M'.replicas ↔ d ∈ M.replicas)
  owed : ∀ d, d ≠ c → M'.owed d = M.owed d

lemma SameBarrier.trans (h : SameBarrier c M M') (h' : SameBarrier c M' M'') : SameBarrier c M M'' where
  barrier := h'.barrier.trans h.barrier
  cfg := h'.cfg.trans h.cfg
  pinned := h'.pinned.trans h.pinned
  fullsyncState := h'.fullsyncState.trans h.fullsyncState
  releases := h'.releases.trans h.releases
  mem d hd := (h'.mem d hd).trans (h.mem d hd)
  owed d hd := (h'.owed d hd).trans (h.owed d hd)

lemma sameBarrier_setConn (r : Replica) (M : Resync) (d : ℕ) : SameBarrier c M (M.setConn d r) :=
  ⟨rfl, rfl, rfl, rfl, rfl, fun _ _ => Iff.rfl, fun _ _ => rfl⟩

lemma sameBarrier_reject (M : Resync) (d : ℕ) : SameBarrier c M (M.replRejectReplica d) := sameBarrier_setConn _ M d

lemma sameBarrier_setOwed (x : Option Catchup) (M : Resync) : SameBarrier c M (M.setOwed c x) :=
  ⟨rfl, rfl, rfl, rfl, rfl, fun _ _ => Iff.rfl, fun d hd => by simp [setOwed, hd]⟩

lemma sameBarrier_addSlave (M : Resync) : SameBarrier c M (M.replAddSlave c) :=
  ⟨rfl, rfl, rfl, rfl, rfl, fun _ hd => mem_replAddSlave.trans (or_iff_right hd), fun _ _ => rfl⟩

lemma sameBarrier_queueSnapshot (env : SyncEnv) (M : Resync) : SameBarrier c M (M.queueSnapshot c env) :=
  ⟨rfl, rfl, rfl, rfl, rfl, fun _ _ => Iff.rfl, fun _ _ => rfl⟩

lemma sameBarrier_endSync (M : Resync) : SameBarrier c M (M.endSync c) :=
  ⟨rfl, rfl, rfl, rfl, rfl, fun _ _ => Iff.rfl, fun _ _ => rfl⟩

lemma sameBarrier_link (r : Replica) (x : Option Catchup) (M : Resync) :
    SameBarrier c M (((M.replAddSlave c).setConn c r).setOwed c x) :=
  ((sameBarrier_addSlave M).trans (sameBarrier_setConn ..)).trans (sameBarrier_setOwed ..)

lemma SameBarrier.fires (h : SameBarrier c M M') (resume : Bool) : M'.fires resume = M.fires resume := by
  simp only [Resync.fires, resumes, replProxyBarrierNeeded, h.barrier, h.cfg, h.pinned]

lemma SameBarrier.othersOwing (h : SameBarrier c M M') : M'.othersOwing c = [] ↔ M.othersOwing c = [] := by
  simp only [Resync.othersOwing, List.filter_eq_nil_iff, Bool.and_eq_true, decide_eq_true_eq, not_and]
  constructor
  · intro hall d hd hdc
    have := hall d ((h.mem d hdc).mpr hd) hdc
    rwa [h.owed d hdc] at this
  · intro hall d hd hdc
    rw [h.owed d hdc]
    exact hall d ((h.mem d hdc).mp hd) hdc

lemma due_release (h : SameBarrier c M M') :
    (∀ e ∈ (M'.replBarrierRelease c confirmed resume).releases, e.Due) ↔
      (∀ e ∈ M.releases, e.Due) ∧ (M.fires resume = false ∨ confirmed = true ∧ M.othersOwing c = []) := by
  rw [releases_release, List.forall_mem_append, h.releases, h.fires, ← h.othersOwing]
  refine and_congr_right fun _ => ?_
  cases M.fires resume <;> simp [Release.Due]

/-- Nothing is released, and FULLSYNC_STATE is the same. -/
structure Silent (M M' : Resync) : Prop where
  releases : M'.releases = M.releases
  fullsyncState : M'.fullsyncState = M.fullsyncState

lemma Silent.due (h : Silent M M') : (∀ e ∈ M'.releases, e.Due) ↔ (∀ e ∈ M.releases, e.Due) ∧ true = true := by
  rw [h.releases, and_iff_left rfl]

lemma silent_gate (now : ℕ) (M : Resync) : Silent M (M.replBarrierGateOnAck now) := by
  unfold replBarrierGateOnAck
  split <;> exact ⟨rfl, rfl⟩

lemma silent_cancel (M : Resync) : Silent M M.replBarrierCancel := by
  unfold replBarrierCancel
  split <;> exact ⟨rfl, rfl⟩

lemma silent_unlink (gone : ℕ → Bool) (M : Resync) : Silent M (M.unlink gone) := by
  unfold Resync.unlink
  dsimp only
  split
  · exact ⟨(silent_cancel _).releases, (silent_cancel _).fullsyncState⟩
  · exact ⟨rfl, rfl⟩

lemma silent_closeConn (c : ℕ) (M : Resync) : Silent M (M.closeConn c) := by
  unfold Resync.closeConn
  split
  · exact { silent_unlink (· = c) M with }
  · exact ⟨rfl, rfl⟩

lemma silent_tick (now : ℕ) (M : Resync) : Silent M (M.replBarrierTick now) := by
  unfold replBarrierTick
  split
  · exact ⟨rfl, rfl⟩
  split
  · exact ⟨rfl, rfl⟩
  · exact { silent_cancel M with }

lemma due_startSync :
    (∀ e ∈ (M.startSync c canContinue reqOffset env).releases, e.Due) ↔
      (∀ e ∈ M.releases, e.Due) ∧ M.startOrderly c canContinue reqOffset env = true := by
  unfold startSync startOrderly
  cases canContinue with
  | true =>
    simp only [if_true]
    split
    · rename_i hle
      rw [due_release (sameBarrier_link ..)]
      simp [not_lt.mpr hle]
    · rename_i hle
      rw [(silent_gate ..).releases, (sameBarrier_link ..).releases]
      simp [not_le.mp hle]
  | false =>
    simp only [Bool.false_eq_true, if_false]
    cases hs : env.snapshot with
    | true =>
      simp only [if_true, Bool.or_true, and_true]
      rfl
    | false =>
      simp only [Bool.false_eq_true, if_false]
      rw [due_release (((sameBarrier_link ..).trans (sameBarrier_queueSnapshot ..)).trans (sameBarrier_reject ..))]
      simp

lemma begin_eq (h : M.admits env = true) : M.replBarrierBegin env = (M.begun env, true) := by
  unfold replBarrierBegin begun
  unfold admits at h
  split
  · simp_all
  split
  · simp_all
  · rw [if_pos (by simp_all), if_neg (by simp_all)]

lemma releases_begin (env : SyncEnv) (M : Resync) : (M.replBarrierBegin env).1.releases = M.releases := by
  unfold replBarrierBegin
  repeat' split
  all_goals rfl

lemma due_replsync {replid : Bytes} {off : Option ℕ} :
    (∀ e ∈ (M.replsync c replid off env).releases, e.Due) ↔
      (∀ e ∈ M.releases, e.Due) ∧ M.orderly (.replsync c replid off env) = true := by
  unfold replsync
  set M₁ := M.setConn c { M.conns c with kind := replsyncKind M.cfg (M.conns c).kind }
  have hadmits : M₁.admits env = M.admits env := rfl
  have hstart : (M₁.begun env).startOrderly c (M.continues replid off) (off.getD 0) env =
      (M.begun env).startOrderly c (M.continues replid off) (off.getD 0) env := by
    unfold begun
    have hneeded : M₁.replProxyBarrierNeeded = M.replProxyBarrierNeeded := rfl
    have hactive : M₁.barrier.active = M.barrier.active := rfl
    rw [hneeded, hactive]
    split <;> rfl
  dsimp only
  cases ha : M.admits env with
  | false =>
    have hbegin := begin_admits env M₁
    rw [hadmits, ha] at hbegin
    have hrel := releases_begin env M₁
    cases hb : M₁.replBarrierBegin env with
    | mk M₂ b =>
      rw [hb] at hbegin hrel
      cases hbegin
      simp only [orderly, ha, Bool.not_false, Bool.true_or, and_true]
      have hreject : (M₂.replRejectReplica c).releases = M.releases := hrel
      rw [hreject]
  | true =>
    have hbegun : (M₁.begun env).releases = M.releases := by
      unfold begun
      split <;> rfl
    rw [begin_eq (hadmits.trans ha)]
    simp only [due_startSync, hbegun, hstart, orderly, ha, Bool.not_true, Bool.false_or]

lemma due_repldone {resume : Bool} :
    (∀ e ∈ (M.repldone c resume).releases, e.Due) ↔
      (∀ e ∈ M.releases, e.Due) ∧ M.orderly (.repldone c resume) = true := by
  unfold repldone orderly
  split
  · rename_i hc
    rw [due_release (((sameBarrier_setOwed ..).trans (sameBarrier_setConn ..)).trans (sameBarrier_endSync _))]
    simp [hc]
  · rename_i hc
    simp [hc]

lemma due_replack {applied : ℕ} {cacheInvalid resume : Bool} :
    (∀ e ∈ (M.replack c applied cacheInvalid resume).releases, e.Due) ↔
      (∀ e ∈ M.releases, e.Due) ∧ M.orderly (.replack c applied cacheInvalid resume) = true := by
  have hsame (x : Option Catchup) : SameBarrier c M (M.setOwed c x) := sameBarrier_setOwed x M
  unfold replack orderly
  dsimp only
  have hkind (x : Option Catchup) : ((M.setOwed c x).conns c).kind = (M.conns c).kind := rfl
  rw [hkind]
  split
  · rename_i hinvalid
    simp only [hinvalid, Bool.true_or, and_true]
    rfl
  rename_i hinvalid
  unfold replBarrierNoteApplied
  rw [(hsame _).barrier]
  split
  · rename_i hgate
    have hgate : M.barrier.active = false ∨ M.barrier.ackGated = false := by simpa using hgate
    rw [(hsame _).releases]
    rcases hgate with hgate | hgate <;> simp [hgate, fires]
  rename_i hgate
  have hgate : M.barrier.active = true ∧ M.barrier.ackGated = true := by simpa using hgate
  split
  · rename_i hle
    rw [due_release (hsame _)]
    simp [hinvalid, hgate.2, not_lt.mpr hle]
  · rename_i hle
    rw [(hsame _).releases]
    simp [not_le.mp hle]

lemma due_step (M : Resync) (i : Input) :
    (∀ e ∈ (M.step i).releases, e.Due) ↔ (∀ e ∈ M.releases, e.Due) ∧ M.orderly i = true := by
  cases i with
  | replsync c replid off env => exact due_replsync
  | replack c applied cacheInvalid resume => exact due_replack
  | repldone c resume => exact due_repldone
  | write raw alloc => exact Silent.due { silent_unlink _ _ with }
  | broadcast raw => exact Silent.due { silent_unlink _ _ with }
  | close c => exact (silent_closeConn c M).due
  | tick now => exact (silent_tick now M).due
  | proxyFailed => exact Silent.due ⟨rfl, rfl⟩

lemma due_run (M : Resync) (is : List Input) :
    (∀ e ∈ (is.foldl Resync.step M).releases, e.Due) ↔
      (∀ e ∈ M.releases, e.Due) ∧ GuardedRun Resync.step (fun M i => M.orderly i = true) M is := by
  induction is generalizing M with
  | nil => simp [GuardedRun]
  | cons i is ih =>
    rw [List.foldl_cons, ih, due_step, and_assoc]
    rfl

/-! ### The log is complete -/

/-- If FULLSYNC_STATE is cleared there is a release. -/
def Logged (M M' : Resync) : Prop := M.fullsyncState = true → M'.fullsyncState = false → M'.releases ≠ M.releases

lemma Logged.of_eq (h : M'.fullsyncState = M.fullsyncState) : Logged M M' := by
  intro hs hc
  rw [h, hs] at hc
  cases hc

lemma SameBarrier.logged (h : SameBarrier c M M') : Logged M M' := .of_eq h.fullsyncState

lemma logged_release (h : SameBarrier c M M') : Logged M (M'.replBarrierRelease c confirmed resume) := by
  intro hs hc
  rw [releases_release, h.releases]
  have hfires : M'.fires resume = true := by
    rw [← h.fullsyncState] at hs
    unfold replBarrierRelease at hc
    split at hc
    · simp [hs] at hc
    split at hc
    · split at hc
      · simp_all [fires]
      · simp [replSessionInvalidate, hs] at hc
    · simp [hs] at hc
  simp [hfires]

lemma logged_startSync : Logged M (M.startSync c canContinue reqOffset env) := by
  unfold startSync
  dsimp only
  split
  · split
    · exact logged_release (sameBarrier_link ..)
    · exact .of_eq (silent_gate ..).fullsyncState
  · split
    · exact ((sameBarrier_link ..).trans (sameBarrier_queueSnapshot ..)).logged
    · exact logged_release (((sameBarrier_link ..).trans (sameBarrier_queueSnapshot ..)).trans (sameBarrier_reject ..))

lemma logged_step (hactive : M.barrier.active = true) (i : Input) : Logged M (M.step i) := by
  cases i with
  | replsync c replid off env =>
    simp only [Resync.step, replsync]
    set M₁ := M.setConn c { M.conns c with kind := replsyncKind M.cfg (M.conns c).kind }
    have hactive₁ : M₁.barrier.active = true := hactive
    have hbegin : M₁.replBarrierBegin env = (M₁, true) := by
      unfold replBarrierBegin
      simp only [hactive₁, if_true]
      split <;> rfl
    rw [hbegin]
    have hlogged : Logged M₁ (M₁.startSync c (M.continues replid off) (off.getD 0) env) := logged_startSync
    exact hlogged
  | replack c applied cacheInvalid resume =>
    simp only [Resync.step, replack]
    generalize (if M.caughtUp c applied = true then none else M.owed c) = x
    split
    · exact ((sameBarrier_setOwed ..).trans (sameBarrier_reject ..)).logged
    unfold replBarrierNoteApplied
    split
    · exact (sameBarrier_setOwed ..).logged
    split
    · exact logged_release (sameBarrier_setOwed ..)
    · exact (sameBarrier_setOwed ..).logged
  | repldone c resume =>
    simp only [Resync.step, repldone]
    split
    · exact logged_release (((sameBarrier_setOwed ..).trans (sameBarrier_setConn ..)).trans (sameBarrier_endSync _))
    · exact .of_eq rfl
  | write raw alloc => exact .of_eq (silent_unlink _ _).fullsyncState
  | broadcast raw => exact .of_eq (silent_unlink _ _).fullsyncState
  | close c => exact .of_eq (silent_closeConn c M).fullsyncState
  | tick now => exact .of_eq (silent_tick now M).fullsyncState
  | proxyFailed => exact .of_eq rfl

end

end Resync

open Resync

/-- A transport with the proxy. -/
def proxyCfg : Cfg := { realtime := str "ebpf+tcp" }

/-- Two replicas, one after the other. -/
def inTurn : List Input :=
  [.replsync 1 (str "?") none {}, .write (str "SET a 1\n") true, .repldone 1 true,
    .replsync 2 (str "?") none {}, .replack 1 8 false true, .close 1, .tick 20000, .repldone 2 true]

end PocketKv.Replication
