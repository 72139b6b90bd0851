import PocketKv.Replication.Resync

/-!
# Suppression of forwarding during full synchronisation
-/

namespace PocketKv.Replication

open Library Resp

namespace Resync

/-- Some attached replica is between the start of its snapshot and its `REPLDONE`. -/
def Synchronising (M : Resync) : Prop := ∃ c ∈ M.replicas, M.syncing c = true

/-- The flag says whether some replica is synchronised. -/
def Exact (M : Resync) : Prop := M.inProgress = true ↔ M.Synchronising

/-- Only attached replicas are. -/
def Attached (M : Resync) : Prop := ∀ c, M.syncing c = true → c ∈ M.replicas

/-- Among the replicas for which `p` holds, one is in this phase. -/
def someSyncing (M : Resync) (p : ℕ → Bool) : Bool := M.replicas.any fun c => p c && M.syncing c

/-- The step keeps the flag right. -/
def tidy (M : Resync) : Input → Bool
  | .replsync c replid off env =>
    !M.admits env || M.continues replid off || env.snapshot || M.someSyncing (· ≠ c)
  | .repldone c _ => c ∉ M.replicas || !M.someSyncing (· ≠ c)
  | .write _ _ => !M.inProgress || M.someSyncing fun c => !(M.conns c).draining
  | .broadcast _ => !M.inProgress || M.someSyncing fun c => !(M.conns c).draining
  | .close c => c ∉ M.replicas || !M.inProgress || M.someSyncing (· ≠ c)
  | _ => true

section

variable {M M' : Resync} {c reqOffset : ℕ} {env : SyncEnv} {canContinue : Bool}

lemma SamePhases.exact_iff (h : SamePhases M M') : M'.Exact ↔ M.Exact := by
  simp only [Exact, Synchronising, h.inProgress, h.replicas, h.syncing]

lemma SamePhases.attached (h : SamePhases M M') (ha : M.Attached) : M'.Attached := by
  simp only [Attached, h.replicas, h.syncing]
  exact ha

lemma someSyncing_iff {p : ℕ → Bool} : M.someSyncing p = true ↔ ∃ c ∈ M.replicas, p c = true ∧ M.syncing c = true := by
  simp [someSyncing]

/-! ### Attaching -/

lemma mem_replAddSlave {d : ℕ} : d ∈ (M.replAddSlave c).replicas ↔ d = c ∨ d ∈ M.replicas := by
  simp only [replAddSlave, replicas, History.step]
  split
  · rename_i hc
    exact ⟨.inr, fun h => h.elim (fun heq => heq ▸ hc) id⟩
  · simp

lemma Attached.addSlave (ha : M.Attached) : (M.replAddSlave c).Attached :=
  fun d hd => mem_replAddSlave.mpr (.inr (ha d hd))

lemma Attached.exact_addSlave (ha : M.Attached) : (M.replAddSlave c).Exact ↔ M.Exact := by
  have hsame : (M.replAddSlave c).Synchronising ↔ M.Synchronising := by
    constructor
    · rintro ⟨d, -, hd⟩
      exact ⟨d, ha d hd, hd⟩
    · rintro ⟨d, hmem, hd⟩
      exact ⟨d, mem_replAddSlave.mpr (.inr hmem), hd⟩
  simp only [Exact, hsame]
  rfl

lemma exact_queueSnapshot (hc : c ∈ M.replicas) :
    (M.queueSnapshot c env).Exact ↔ env.snapshot = true ∨ M.someSyncing (· ≠ c) = true := by
  rw [someSyncing_iff]
  simp only [Exact, Synchronising, queueSnapshot, true_iff]
  constructor
  · rintro ⟨d, hmem, hd⟩
    by_cases hdc : d = c
    · exact .inl (by simpa [hdc] using hd)
    · exact .inr ⟨d, hmem, by simpa using hdc, by simpa [hdc] using hd⟩
  · rintro (hs | ⟨d, hmem, hdc, hd⟩)
    · exact ⟨c, hc, by simp [hs]⟩
    · have hne : d ≠ c := by simpa using hdc
      exact ⟨d, hmem, by simp [hne, hd]⟩

lemma Attached.queueSnapshot (ha : M.Attached) (hc : c ∈ M.replicas) : (M.queueSnapshot c env).Attached := by
  intro d hd
  by_cases hdc : d = c
  · rw [hdc]
    exact hc
  · exact ha d (by simpa [Resync.queueSnapshot, hdc] using hd)

lemma startSync_phases (canContinue : Bool) (reqOffset : ℕ) (env : SyncEnv) (M : Resync) (c : ℕ) :
    SamePhases (if canContinue then M.replAddSlave c else (M.replAddSlave c).queueSnapshot c env)
      (M.startSync c canContinue reqOffset env) := by
  unfold startSync
  cases canContinue with
  | true =>
    simp only [if_true]
    split
    · exact ((samePhases_setConn ..).trans (samePhases_setOwed ..)).trans (samePhases_release ..)
    · exact ((samePhases_setConn ..).trans (samePhases_setOwed ..)).trans (samePhases_gate ..)
  | false =>
    simp only [Bool.false_eq_true, if_false]
    split
    · exact ⟨rfl, rfl, rfl⟩
    · refine .trans ?_ (samePhases_release ..)
      exact ⟨rfl, rfl, rfl⟩

lemma someSyncing_addSlave : (M.replAddSlave c).someSyncing (· ≠ c) = M.someSyncing (· ≠ c) := by
  rw [Bool.eq_iff_iff, someSyncing_iff, someSyncing_iff]
  constructor
  · rintro ⟨d, hmem, hdc, hd⟩
    exact ⟨d, (mem_replAddSlave.mp hmem).resolve_left (by simpa using hdc), hdc, hd⟩
  · rintro ⟨d, hmem, hdc, hd⟩
    exact ⟨d, mem_replAddSlave.mpr (.inr hmem), hdc, hd⟩

lemma Attached.startSync (ha : M.Attached) : (M.startSync c canContinue reqOffset env).Attached := by
  refine (startSync_phases canContinue reqOffset env M c).attached ?_
  split
  · exact ha.addSlave
  · exact ha.addSlave.queueSnapshot (mem_replAddSlave.mpr (.inl rfl))

lemma exact_startSync (ha : M.Attached) (h : M.Exact) :
    (M.startSync c canContinue reqOffset env).Exact ↔
      canContinue = true ∨ env.snapshot = true ∨ M.someSyncing (· ≠ c) = true := by
  rw [(startSync_phases canContinue reqOffset env M c).exact_iff]
  cases canContinue with
  | true => simp only [if_true, ha.exact_addSlave, h, true_or]
  | false =>
    simp only [Bool.false_eq_true, if_false, false_or]
    rw [exact_queueSnapshot (mem_replAddSlave.mpr (.inl rfl)), someSyncing_addSlave]

lemma begin_admits (env : SyncEnv) (M : Resync) : (M.replBarrierBegin env).2 = M.admits env := by
  unfold replBarrierBegin admits
  split
  · simp_all
  split
  · simp_all
  split <;> simp_all

lemma replsync_cases (c : ℕ) (replid : Bytes) (off : Option ℕ) (env : SyncEnv) (M : Resync) :
    (M.admits env = false ∧ SamePhases M (M.replsync c replid off env)) ∨
      (M.admits env = true ∧ ∃ M', SamePhases M M' ∧
        M.replsync c replid off env = M'.startSync c (M.continues replid off) (off.getD 0) env) := by
  unfold replsync
  set M₁ := M.setConn c { M.conns c with kind := replsyncKind M.cfg (M.conns c).kind } with hM₁
  have hadmits : M₁.admits env = M.admits env := rfl
  have hsame : SamePhases M (M₁.replBarrierBegin env).1 := (samePhases_setConn ..).trans (samePhases_begin env M₁)
  have hbegin := begin_admits env M₁
  dsimp only
  cases hb : M₁.replBarrierBegin env with
  | mk M₂ b =>
    rw [hb] at hsame hbegin
    cases b with
    | false => exact .inl ⟨hbegin.symm, hsame.trans (samePhases_setConn ..)⟩
    | true => exact .inr ⟨hbegin.symm, M₂, hsame, rfl⟩

/-! ### Detaching -/

lemma unlink_phases (gone : ℕ → Bool) (M : Resync) :
    (M.unlink gone).inProgress = M.inProgress ∧
      (M.unlink gone).replicas = M.replicas.filter (fun c => !gone c) ∧
      (M.unlink gone).syncing = fun c => !gone c && M.syncing c := by
  unfold unlink
  dsimp only
  split
  · have h := samePhases_cancel { M with
      history := { M.history with replicas := M.replicas.filter fun c => !gone c }
      conns := fun c =>
        if gone c then { M.conns c with draining := false, fullsyncPending := false, fwdHealthy := false }
        else M.conns c
      syncing := fun c => !gone c && M.syncing c }
    exact ⟨h.inProgress, h.replicas, h.syncing⟩
  · exact ⟨rfl, rfl, rfl⟩

lemma Attached.unlink (ha : M.Attached) (gone : ℕ → Bool) : (M.unlink gone).Attached := by
  obtain ⟨-, hreplicas, hsyncing⟩ := unlink_phases gone M
  intro d hd
  rw [hsyncing, Bool.and_eq_true] at hd
  rw [hreplicas]
  exact List.mem_filter.mpr ⟨ha d hd.2, hd.1⟩

lemma exact_unlink (h : M.Exact) (gone : ℕ → Bool) :
    (M.unlink gone).Exact ↔ M.inProgress = false ∨ M.someSyncing (fun c => !gone c) = true := by
  obtain ⟨hflag, hreplicas, hsyncing⟩ := unlink_phases gone M
  have hsome : (M.unlink gone).Synchronising ↔ M.someSyncing (fun c => !gone c) = true := by
    simp only [Synchronising, hreplicas, hsyncing, someSyncing_iff, List.mem_filter, Bool.and_eq_true]
    constructor
    · rintro ⟨d, ⟨hmem, hgone⟩, -, hd⟩
      exact ⟨d, hmem, hgone, hd⟩
    · rintro ⟨d, hmem, hgone, hd⟩
      exact ⟨d, ⟨hmem, hgone⟩, hgone, hd⟩
  rw [Exact, hflag, hsome]
  cases hp : M.inProgress with
  | true => simp
  | false =>
    have hnone : ¬ M.Synchronising := fun hs => by simp [h.mpr hs] at hp
    simp only [Bool.false_eq_true, false_iff, true_or, iff_true]
    intro hs
    obtain ⟨d, hmem, -, hd⟩ := someSyncing_iff.mp hs
    exact hnone ⟨d, hmem, hd⟩

lemma broadcastTo_isNone (inProgress : Bool) (offset : ℕ) (raw : Bytes) (r : Replica) :
    (broadcastTo inProgress offset raw r).isNone = r.draining := by
  unfold broadcastTo
  split
  · simp_all
  · repeat' split
    all_goals simp_all

lemma replBroadcast_eq (raw : Bytes) (M : Resync) :
    M.replBroadcast raw = (M.serve raw).unlink fun c => c ∈ M.replicas && (M.conns c).draining := by
  simp only [replBroadcast, served, broadcastTo_isNone]

lemma Attached.replBroadcast (ha : M.Attached) (raw : Bytes) : (M.replBroadcast raw).Attached :=
  ((samePhases_serve raw M).attached ha).unlink _

lemma exact_replBroadcast (h : M.Exact) (raw : Bytes) :
    (M.replBroadcast raw).Exact ↔
      M.inProgress = false ∨ M.someSyncing (fun c => !(M.conns c).draining) = true := by
  rw [replBroadcast_eq, exact_unlink ((samePhases_serve raw M).exact_iff.mpr h)]
  refine or_congr_right ?_
  rw [someSyncing_iff, someSyncing_iff]
  refine exists_congr fun d => and_congr_right fun hmem => ?_
  have hd : d ∈ M.replicas := hmem
  simp [hd, serve]

lemma Attached.closeConn (ha : M.Attached) (c : ℕ) : (M.closeConn c).Attached := by
  unfold Resync.closeConn
  split
  · exact (samePhases_setConn ..).attached (ha.unlink _)
  · exact (samePhases_setConn ..).attached ha

lemma exact_closeConn (h : M.Exact) (c : ℕ) :
    (M.closeConn c).Exact ↔ c ∉ M.replicas ∨ M.inProgress = false ∨ M.someSyncing (· ≠ c) = true := by
  unfold Resync.closeConn
  rw [(samePhases_setConn ..).exact_iff]
  split
  · rename_i hc
    rw [exact_unlink h]
    simp [hc]
  · rename_i hc
    simp [hc, h]

lemma Attached.endSync (ha : M.Attached) : (M.endSync c).Attached := by
  intro d hd
  by_cases hdc : d = c
  · simp [Resync.endSync, hdc] at hd
  · exact ha d (by simpa [Resync.endSync, hdc] using hd)

lemma exact_endSync : (M.endSync c).Exact ↔ M.someSyncing (· ≠ c) = false := by
  rw [← Bool.not_eq_true, someSyncing_iff]
  simp only [Exact, Resync.endSync, Bool.false_eq_true, false_iff]
  refine not_congr (exists_congr fun d => and_congr_right fun _ => ?_)
  by_cases hdc : d = c <;> simp [hdc]

lemma repldone_phases (c : ℕ) (resume : Bool) (M : Resync) :
    SamePhases (if c ∈ M.replicas then M.endSync c else M) (M.repldone c resume) := by
  unfold Resync.repldone
  split
  · refine .trans ?_ (samePhases_release ..)
    exact ⟨rfl, rfl, rfl⟩
  · exact .refl M

lemma Attached.repldone (ha : M.Attached) (c : ℕ) (resume : Bool) : (M.repldone c resume).Attached := by
  refine (repldone_phases c resume M).attached ?_
  split
  · exact ha.endSync
  · exact ha

lemma exact_repldone (h : M.Exact) (c : ℕ) (resume : Bool) :
    (M.repldone c resume).Exact ↔ c ∉ M.replicas ∨ M.someSyncing (· ≠ c) = false := by
  rw [(repldone_phases c resume M).exact_iff]
  split
  · rename_i hc
    rw [exact_endSync]
    simp [hc]
  · rename_i hc
    simp [hc, h]

lemma exact_step (ha : M.Attached) (h : M.Exact) (i : Input) : M.tidy i = true ↔ (M.step i).Exact := by
  cases i with
  | replsync c replid off env =>
    simp only [tidy, Resync.step]
    rcases replsync_cases c replid off env M with ⟨hno, hsame⟩ | ⟨hyes, M', hsame, heq⟩
    · simp [hno, hsame.exact_iff, h]
    · have hsome : M'.someSyncing (· ≠ c) = M.someSyncing (· ≠ c) := by
        simp only [someSyncing, hsame.replicas, hsame.syncing]
      rw [heq, exact_startSync (hsame.attached ha) (hsame.exact_iff.mpr h), hsome]
      simp [hyes, or_assoc]
  | replack c applied cacheInvalid resume =>
    exact iff_of_true rfl ((samePhases_replack ..).exact_iff.mpr h)
  | repldone c resume =>
    simp [tidy, Resync.step, exact_repldone h, Bool.or_eq_true]
  | write raw alloc =>
    have hsame : SamePhases M { M with history := M.history.step (.write raw alloc) } := ⟨rfl, rfl, rfl⟩
    simp only [Resync.step, exact_replBroadcast (hsame.exact_iff.mpr h)]
    simp only [tidy, Bool.or_eq_true, Bool.not_eq_true']
    rfl
  | broadcast raw =>
    simp only [Resync.step, exact_replBroadcast h]
    simp [tidy, Bool.or_eq_true]
  | close c =>
    simp [tidy, Resync.step, exact_closeConn h, Bool.or_eq_true, or_assoc]
  | tick now => exact iff_of_true rfl ((samePhases_tick ..).exact_iff.mpr h)
  | proxyFailed => exact iff_of_true rfl ((samePhases_invalidate ..).exact_iff.mpr h)

lemma Attached.step (ha : M.Attached) (i : Input) : (M.step i).Attached := by
  cases i with
  | replsync c replid off env =>
    simp only [Resync.step]
    rcases replsync_cases c replid off env M with ⟨-, hsame⟩ | ⟨-, M', hsame, heq⟩
    · exact hsame.attached ha
    · rw [heq]
      exact (hsame.attached ha).startSync
  | replack c applied cacheInvalid resume => exact (samePhases_replack ..).attached ha
  | repldone c resume => exact ha.repldone c resume
  | write raw alloc =>
    have hsame : SamePhases M { M with history := M.history.step (.write raw alloc) } := ⟨rfl, rfl, rfl⟩
    exact (hsame.attached ha).replBroadcast raw
  | broadcast raw => exact ha.replBroadcast raw
  | close c => exact ha.closeConn c
  | tick now => exact (samePhases_tick ..).attached ha
  | proxyFailed => exact (samePhases_invalidate ..).attached ha

/-! ### Forwarding -/

/-- The replica is served by forwarding, and not in the middle of its own synchronisation. -/
def Forwarded (M : Resync) (c : ℕ) : Prop :=
  (M.conns c).draining = false ∧ (M.conns c).fullsyncPending = false ∧ (M.conns c).kind ≠ .ebpfTcp ∧
    (M.conns c).fwdHealthy = false ∧ (M.conns c).stalled = false

lemma served_eq_self {raw : Bytes} (hf : M.Forwarded c) :
    M.served raw c = some (M.conns c) ↔ M.inProgress = true := by
  obtain ⟨hdrain, hpending, hkind, hhealthy, hstalled⟩ := hf
  unfold served broadcastTo
  simp only [hdrain, hpending, hhealthy, hstalled, Bool.false_eq_true, if_false, if_neg hkind]
  split
  · simp_all
  · rename_i hp
    refine iff_of_false (fun heq => ?_) hp
    have hlen := congrArg (fun r => r.queue.length) (Option.some.inj heq)
    simp at hlen

end

end Resync

open Resync

/-- **Forwarding is suspended exactly during full synchronisations**: `g_repl_fullsync_in_progress` is set exactly
while some attached replica is between the start of its snapshot and its `REPLDONE`, if and only if every step is
tidy; wherever this is so, nothing is forwarded exactly while there is such a replica. -/
theorem suppression_exact_iff (cfg : Cfg) (pinned : Bool) (holdMax : ℕ) (masterId : Bytes) (is : List Input) :
    (GuardedRun Resync.step (fun M i => M.tidy i = true) (start cfg pinned holdMax masterId) is ↔
      ∀ js, js <+: is →
        ((js.foldl Resync.step (start cfg pinned holdMax masterId)).inProgress = true ↔
          (js.foldl Resync.step (start cfg pinned holdMax masterId)).Synchronising)) ∧
    ∀ M : Resync, (M.inProgress = true ↔ M.Synchronising) → ∀ (raw : Bytes) (c : ℕ), M.Forwarded c →
      (M.served raw c = some (M.conns c) ↔ M.Synchronising) := by
  refine ⟨?_, fun M h raw c hf => (served_eq_self hf).trans h⟩
  have hproper : GuardedRun Resync.step (fun _ _ => True) (start cfg pinned holdMax masterId) is :=
    .of_forall (fun _ _ => trivial) _ _
  have hattached : (start cfg pinned holdMax masterId).Attached := fun c hc => by simp [start] at hc
  refine @GuardedRun.iff_forall_prefix _ _ _ _ _ _ _ Resync.Attached Resync.Exact (fun M i ha _ => ha.step i)
    (fun M i ha _ h => exact_step ha h i) hattached ?_ hproper
  exact iff_of_false (by simp [start]) (by rintro ⟨c, hc, -⟩; simp [start, replicas] at hc)

/-- A replica is synchronised in full, with a write while the snapshot is on its way. -/
def oneFullSync : List Input :=
  [.replsync 1 (str "?") none {}, .write (str "SET a 1\n") true, .repldone 1 true]

theorem suppression_exact_one_full_sync :
    GuardedRun Resync.step (fun M i => M.tidy i = true) (start {} true 15000 (str "id")) oneFullSync ∧
      ∀ js, js <+: oneFullSync →
        ((js.foldl Resync.step (start {} true 15000 (str "id"))).inProgress = true ↔
          (js.foldl Resync.step (start {} true 15000 (str "id"))).Synchronising) :=
  ⟨by decide, (suppression_exact_iff {} true 15000 (str "id") oneFullSync).1.mp (by decide)⟩

/-- The flag stays set when a replica goes away before its `REPLDONE` or a snapshot fails, and one replica's
`REPLDONE` ends the suppression for another. -/
theorem suppression_not_exact :
    let M (is : List Input) := is.foldl Resync.step (start { realtime := str "rdma" } false 15000 (str "id"))
    let away := M [.replsync 1 (str "?") none {}, .repldone 1 true, .replsync 2 (str "?") none {}, .close 2]
    let failed := M [.replsync 1 (str "?") none { snapshot := false }, .close 1]
    let both := M [.replsync 1 (str "?") none {}, .replsync 2 (str "?") none {}, .repldone 1 true]
    (away.inProgress = true ∧ away.replicas = [1] ∧ away.syncing 1 = false) ∧
      (failed.inProgress = true ∧ failed.replicas = []) ∧
      (both.inProgress = false ∧ 2 ∈ both.replicas ∧ both.syncing 2 = true) := by
  decide

end PocketKv.Replication
