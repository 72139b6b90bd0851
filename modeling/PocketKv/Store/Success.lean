import PocketKv.Store.Commands

/-!
# When a write succeeds
-/

namespace PocketKv.Store

open Resp

/-- The key is there and not past its deadline. -/
def live (now : ℤ) (s : Db) (e : Engine) (k : Bytes) : Bool :=
  engineExist s e k && !expireIsExpired now s e k

/-- The key is there or there is room for it. -/
def hasRoom (now : ℤ) (s : Db) (e : Engine) (k : Bytes) : Bool :=
  live now s e k || !(tryExpire now s e k).full e

/-- There is room for each pair when its turn comes. -/
def pairsFit (now : ℤ) (s : Db) (e : Engine) : List (Bytes × Bytes) → Bool
  | [] => true
  | (k, v) :: kvs => hasRoom now s e k && pairsFit now (engineUpsert now s e k v).2 e kvs

/-- The data on which the command succeeds. -/
def Cmd.succeeds (now : ℤ) (s : Db) : Cmd → Bool
  | .set e k _ => hasRoom now s e k
  | .setex e k secs _ => hasRoom now s e k && 0 < wrap64 (secs * 1000)
  | .mod e k _ => live now s e k
  | .del e k => live now s e k
  | .expire e k secs => live now s e k && 0 < wrap64 (secs * 1000)
  | .persist e k => live now s e k && (s.ttl.lookup (e, k)).isSome
  | .mset _ _ none => false
  | .mset e first (some kvs) => pairsFit now (first.elim s (tryExpire now s e)) e kvs
  | _ => false

section

variable {now : ℤ} {s : Db} {e : Engine} {k v : Bytes}

lemma engineExist_tryExpire : engineExist (tryExpire now s e k) e k = live now s e k := by
  unfold tryExpire live
  cases hx : expireIsExpired now s e k with
  | false => simp
  | true =>
    have hkv (t : Db) : (expireDel t e k).2.kv = t.kv := by
      unfold expireDel
      split <;> rfl
    simp only [if_true, Bool.not_true, Bool.and_false, engineExist, hkv]
    unfold engineDel engineExist
    cases hl : s.kv.lookup (e, k) with
    | none => simp [hl]
    | some _ => simp

lemma tryExpire_of_live (h : live now s e k = true) : tryExpire now s e k = s := by
  have hx : expireIsExpired now s e k = false := by
    simp only [live, Bool.and_eq_true, Bool.not_eq_true'] at h
    exact h.2
  simp [tryExpire, hx]

lemma engineSet_ok : (engineSet (tryExpire now s e k) e k v).1 = .ok ↔ hasRoom now s e k = true := by
  unfold engineSet hasRoom
  rw [engineExist_tryExpire]
  cases hl : live now s e k with
  | true => simp [engineMod, engineExist_tryExpire, hl]
  | false => cases hf : (tryExpire now s e k).full e <;> simp

lemma engineUpsert_ok : (engineUpsert now s e k v).1 = .ok ↔ hasRoom now s e k = true := by
  unfold engineUpsert
  simp only [engineExist_tryExpire]
  cases hl : live now s e k with
  | true => simp [hasRoom, hl]
  | false => simpa [hl] using engineSet_ok

lemma upsertAll_ok (kvs : List (Bytes × Bytes)) :
    (upsertAll now s e kvs).1 = .ok ↔ pairsFit now s e kvs = true := by
  induction kvs generalizing s with
  | nil => simp [upsertAll, pairsFit]
  | cons kv kvs ih =>
    obtain ⟨k, v⟩ := kv
    have hone : (engineUpsert now s e k v).1 = .ok ↔ hasRoom now s e k = true := engineUpsert_ok
    unfold upsertAll pairsFit
    rcases hu : engineUpsert now s e k v with ⟨rc, s'⟩
    rw [hu] at hone
    cases rc with
    | ok => simp [hone.mp rfl, ih]
    | miss => simp [show hasRoom now s e k = false by simpa using hone]
    | fail => simp [show hasRoom now s e k = false by simpa using hone]

lemma settle_wrote_iff (isSet missing : Bool) (r : Rc × Db) :
    (settle isSet missing r).wrote = true ↔ r.1 = .ok := by
  rcases r with ⟨rc, s⟩
  cases rc with
  | ok => simp [settle]
  | miss => cases missing <;> simp [settle]
  | fail => simp [settle]

lemma persisting_ok (e : Engine) (k : Bytes) (r : Rc × Db) : (persisting e k r).1 = .ok ↔ r.1 = .ok := by
  rcases r with ⟨rc, s⟩
  cases rc <;> simp [persisting]

lemma expireSet_ok (ttlMs : ℤ) : (expireSet now s e k ttlMs).1 = .ok ↔ 0 < ttlMs := by
  unfold expireSet
  split
  · simp
    omega
  · simp
    omega

lemma exec_wrote_iff {c : Cmd} (hc : c.engineWrite = true) :
    (exec now s c).wrote = true ↔ c.succeeds now s = true := by
  cases c with
  | set e k v => simp only [exec, settle_wrote_iff, persisting_ok, engineSet_ok, Cmd.succeeds]
  | mset e first kvs =>
    simp only [exec, settle_wrote_iff]
    cases kvs with
    | none => simp [Cmd.succeeds]
    | some kvs => cases first <;> simp [Cmd.succeeds, upsertAll_ok]
  | mod e k v =>
    simp only [exec, settle_wrote_iff, persisting_ok, engineMod, engineExist_tryExpire, Cmd.succeeds]
    cases live now s e k <;> simp
  | del e k =>
    simp only [exec, settle_wrote_iff, engineDel, engineExist_tryExpire, Cmd.succeeds]
    cases live now s e k <;> simp
  | expire e k secs =>
    simp only [exec, settle_wrote_iff, engineExist_tryExpire, Cmd.succeeds]
    cases hl : live now s e k <;> simp [expireSet_ok]
  | setex e k secs v =>
    simp only [exec, settle_wrote_iff, Cmd.succeeds, Bool.and_eq_true, decide_eq_true_eq, ← engineSet_ok (v := v)]
    rcases engineSet (tryExpire now s e k) e k v with ⟨rc, s'⟩
    cases rc <;> simp [expiring, expireSet_ok]
  | persist e k =>
    simp only [exec, settle_wrote_iff, engineExist_tryExpire, Cmd.succeeds]
    cases hl : live now s e k with
    | false => simp
    | true =>
      simp only [if_true, tryExpire_of_live hl, expireDel, Bool.true_and]
      cases s.ttl.lookup (e, k) <;> simp
  | _ => simp [Cmd.engineWrite] at hc

end

end PocketKv.Store
