import PocketKv.Replication.CommandLog
import PocketKv.Store.Atomic

/-!
# Commands that are answered with an error
-/

namespace PocketKv.Replication

open CommitGate Persistence Resp Store

/-- `persist_append_prepare` returns `KVS_PERSIST_ERR`. -/
def refusesAppend (raw : Bytes) (A : Aof) : Bool :=
  if A.isOpen then A.always && (A.fatal || !A.sync && decide (aofSlotMax < A.cur.length + raw.length))
  else !A.disabled

lemma persistAppendPrepare_eq_none {raw : Bytes} {A : Aof} :
    persistAppendPrepare raw A = none ↔ refusesAppend raw A = true := by
  unfold persistAppendPrepare refusesAppend
  cases A.isOpen with
  | false => cases A.disabled <;> simp
  | true =>
    cases A.always with
    | false => simp
    | true =>
      cases A.fatal with
      | true => simp
      | false =>
        cases A.sync with
        | true =>
          simp only [Bool.not_true, Bool.false_eq_true, if_false, if_true]
          split <;> simp
        | false => simp

namespace Master

/-- The logs and the replicas are the same. -/
structure Unlogged (M M' : Master) : Prop where
  aof : M'.aof = M.aof
  desc : M'.published = M.published
  backlog : M'.backlog = M.backlog
  offset : M'.offset = M.offset
  replicas : M'.replicas = M.replicas

/-- The data and the file before it permit that an error means that nothing has happened. -/
def atomic (M : Master) (r : Request) : Prop :=
  r.authed = true → (decode r.argv).harmless r.now M.db ∧
    (refusesAppend r.raw M.aof = true → (decode r.argv).accepted r.now M.db = true → (decode r.argv).idle r.now M.db)

variable {r : Request} {M : Master}

lemma unlogged_of_error (h : (M.step r).2.1.success = false) : (M.step r).2.2 = false := by
  cases hauth : r.authed with
  | false => simp [step, hauth]
  | true =>
    by_cases hwrote : (exec r.now M.db (decode r.argv)).wrote = true
    · cases ha : persistAppendPrepare r.raw M.aof with
      | none => simp [step, hauth, hwrote, ha]
      | some aof => simp [step, hauth, hwrote, ha, success_of_wrote hwrote] at h
    · simp [step, hauth, hwrote]

lemma step_error (h : (M.step r).2.1.success = false) :
    Unlogged M (M.step r).1 ∧
      (M.step r).1.db = if r.authed then (exec r.now M.db (decode r.argv)).db else M.db := by
  obtain ⟨db, heq, hdb, -⟩ := step_unlogged (unlogged_of_error h)
  obtain ⟨pub, sent, hp⟩ := publish_eq { M with db := db } r false
  have hleaves := publish_leaves { M with db := db } r
  rw [heq]
  refine ⟨⟨?_, hleaves.desc, hleaves.backlog, hleaves.offset, ?_⟩, ?_⟩
  · rw [hp]
  · rw [hp]
  · rwa [hp]

lemma error_iff (hauth : r.authed = true) : (M.step r).2.1.success = false ↔
    (exec r.now M.db (decode r.argv)).reply.success = false ∨
      (exec r.now M.db (decode r.argv)).wrote = true ∧ refusesAppend r.raw M.aof = true := by
  unfold step
  rw [if_neg (by simp [hauth]), ← persistAppendPrepare_eq_none]
  by_cases hwrote : (exec r.now M.db (decode r.argv)).wrote = true
  · rw [if_pos hwrote]
    cases ha : persistAppendPrepare r.raw M.aof with
    | none => simp [hwrote, Reply.success]
    | some aof => simp [success_of_wrote hwrote]
  · simp [hwrote]

end Master

open Master

end PocketKv.Replication
