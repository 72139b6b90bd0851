import PocketKv.Store.Cells
import PocketKv.Store.Success

/-!
# The ways in which a command can end
-/

namespace PocketKv.Store

open Library Resp

/-- The data with the deadline of the key. -/
def Db.stamp (s : Db) (e : Engine) (k : Bytes) (d : ℤ) : Db := { s with ttl := s.ttl.insert (e, k) d }

/-- The documents. -/
abbrev Docs := Table Bytes (Table Bytes Bytes)

/-- The data with other documents. -/
def Db.withDocs (s : Db) (docs : Docs) : Db := { s with docs := docs }

/-! ### The operations of the engines -/

section

variable (now : ℤ) (s : Db) (e : Engine) (k v : Bytes)

lemma expireDel_snd : (expireDel s e k).2 = s.clear e k := by
  unfold expireDel Db.clear
  cases h : s.ttl.lookup (e, k) with
  | none => simp [erase_eq_self h]
  | some d => rfl

lemma engineDel_snd : (engineDel s e k).2 = { s with kv := s.kv.erase (e, k) } := by
  unfold engineDel engineExist
  cases h : s.kv.lookup (e, k) with
  | none => simp [erase_eq_self h]
  | some w => rfl

lemma expireDel_engineDel : (expireDel (engineDel s e k).2 e k).2 = s.drop e k := by
  rw [expireDel_snd, engineDel_snd]
  rfl

lemma tryExpire_eq : tryExpire now s e k = if expireIsExpired now s e k then s.drop e k else s := by
  rw [tryExpire, expireDel_engineDel]

end

section

variable {now : ℤ} {s : Db} {e : Engine} {k v : Bytes} {P : Db → Prop}

lemma hasRoom_iff : hasRoom now s e k = true ↔
    ((tryExpire now s e k).kv.lookup (e, k)).isSome = true ∨ (tryExpire now s e k).full e = false := by
  rw [hasRoom, ← engineExist_tryExpire, engineExist, Bool.or_eq_true, Bool.not_eq_true']

lemma engineSet_of_full (h : hasRoom now s e k = false) (v : Bytes) :
    engineSet (tryExpire now s e k) e k v = (.fail, tryExpire now s e k) := by
  rw [hasRoom, ← engineExist_tryExpire, Bool.or_eq_false_iff, Bool.not_eq_false'] at h
  rw [engineSet, if_neg (by simp [h.1]), if_pos h.2]

lemma expireIsExpired_iff : expireIsExpired now s e k = true ↔ ∃ d, s.ttl.lookup (e, k) = some d ∧ d ≤ now := by
  unfold expireIsExpired
  cases s.ttl.lookup (e, k) <;> simp

lemma expireSet_of_pos {ms : ℤ} (h : 0 < ms) (s : Db) :
    expireSet now s e k ms = (.ok, s.stamp e k (wrap64 (now + ms))) := by
  rw [expireSet, if_neg (by omega)]
  rfl

lemma expireSet_of_nonpos {ms : ℤ} (h : ms ≤ 0) (s : Db) : expireSet now s e k ms = (.fail, s) := if_pos h

lemma tryExpire_induct (h : P s) (hdrop : P (s.drop e k)) : P (tryExpire now s e k) := by
  rw [tryExpire_eq]
  split
  · exact hdrop
  · exact h

lemma expireAll_induct {slots : List Slot} (h : P s)
    (hone : ∀ t x, x ∈ slots → P t → P (tryExpire now t x.1 x.2)) : P (expireAll now s slots) := by
  induction slots generalizing s with
  | nil => exact h
  | cons x slots ih => exact ih (hone s x List.mem_cons_self h) fun t y hy => hone t y (List.mem_cons_of_mem _ hy)

lemma engineUpsert_induct (h : P (tryExpire now s e k))
    (hput : hasRoom now s e k = true → P ((tryExpire now s e k).put e k v)) (hclear : ∀ t, P t → P (t.clear e k)) :
    P (engineUpsert now s e k v).2 := by
  simp only [engineUpsert, engineMod, engineExist_tryExpire]
  cases hlive : live now s e k with
  | true =>
    simp only [if_true, expireDel_snd]
    exact hclear _ (hput (by rw [hasRoom, hlive, Bool.true_or]))
  | false =>
    cases hroom : hasRoom now s e k with
    | true =>
      rw [engineSet_eq_put (hasRoom_iff.mp hroom)]
      exact hput hroom
    | false =>
      rw [engineSet_of_full hroom]
      exact h

lemma upsertAll_induct {kvs : List (Bytes × Bytes)} (h : P s)
    (hone : ∀ t kv, kv ∈ kvs → P t → P (engineUpsert now t e kv.1 kv.2).2) : P (upsertAll now s e kvs).2 := by
  induction kvs generalizing s with
  | nil => exact h
  | cons kv kvs ih =>
    have hnext := hone s kv List.mem_cons_self h
    rw [upsertAll]
    rcases hr : engineUpsert now s e kv.1 kv.2 with ⟨rc, t⟩
    rw [hr] at hnext
    cases rc with
    | ok => exact ih hnext fun t' kv' hkv' => hone t' kv' (List.mem_cons_of_mem _ hkv')
    | miss | fail => exact hnext

end

/-! ### Commands -/

lemma settle_db (isSet missing : Bool) (r : Rc × Db) : (settle isSet missing r).db = r.2 := by
  obtain ⟨rc, t⟩ := r
  cases rc with
  | ok => rfl
  | miss => cases missing <;> rfl
  | fail => rfl

section

variable (now : ℤ) (s : Db)

/-- The ways in which a command can end, with whether it wrote and the data after it. -/
inductive Ran : Cmd → Bool → Db → Prop
  | control : Ran .control false s
  | read : Ran .read false s
  | unknown (arity : Bool) : Ran (.unknown arity) false s
  | docexist (d : Bytes) : Ran (.docexist d) false s
  | doccount (d : Bytes) : Ran (.doccount d) false s
  | owner (k : Bytes) : Ran (.owner k) false (tryExpire now s .array k)
  | get (e : Engine) (k : Bytes) : Ran (.get e k) false (tryExpire now s e k)
  | exist (e : Engine) (k : Bytes) : Ran (.exist e k) false (tryExpire now s e k)
  | ttl (e : Engine) (k : Bytes) : Ran (.ttl e k) false (tryExpire now s e k)
  | mgetNone (e : Engine) : Ran (.mget e none) false s
  | mget (e : Engine) (ks : List Bytes) : Ran (.mget e (some ks)) false (expireAll now s (ks.map (e, ·)))
  | set {e : Engine} {k : Bytes} (v : Bytes) : hasRoom now s e k = true →
      Ran (.set e k v) true (((tryExpire now s e k).put e k v).clear e k)
  | setFull {e : Engine} {k : Bytes} (v : Bytes) : hasRoom now s e k = false →
      Ran (.set e k v) false (tryExpire now s e k)
  | mod {e : Engine} {k : Bytes} (v : Bytes) : live now s e k = true →
      Ran (.mod e k v) true (((tryExpire now s e k).put e k v).clear e k)
  | modMiss {e : Engine} {k : Bytes} (v : Bytes) : live now s e k = false →
      Ran (.mod e k v) false (tryExpire now s e k)
  | del (e : Engine) (k : Bytes) : Ran (.del e k) (live now s e k) ((tryExpire now s e k).drop e k)
  | setex {e : Engine} {k : Bytes} {secs : ℤ} (v : Bytes) : hasRoom now s e k = true → 0 < wrap64 (secs * 1000) →
      Ran (.setex e k secs v) true
        (((tryExpire now s e k).put e k v).stamp e k (wrap64 (now + wrap64 (secs * 1000))))
  | setexLate {e : Engine} {k : Bytes} {secs : ℤ} (v : Bytes) : hasRoom now s e k = true → wrap64 (secs * 1000) ≤ 0 →
      Ran (.setex e k secs v) false ((tryExpire now s e k).put e k v)
  | setexFull {e : Engine} {k : Bytes} (secs : ℤ) (v : Bytes) : hasRoom now s e k = false →
      Ran (.setex e k secs v) false (tryExpire now s e k)
  | expire {e : Engine} {k : Bytes} {secs : ℤ} : live now s e k = true → 0 < wrap64 (secs * 1000) →
      Ran (.expire e k secs) true ((tryExpire now s e k).stamp e k (wrap64 (now + wrap64 (secs * 1000))))
  | expireMiss {e : Engine} {k : Bytes} {secs : ℤ} : live now s e k = false ∨ wrap64 (secs * 1000) ≤ 0 →
      Ran (.expire e k secs) false (tryExpire now s e k)
  | persist {e : Engine} {k : Bytes} : live now s e k = true → (s.ttl.lookup (e, k)).isSome = true →
      Ran (.persist e k) true ((tryExpire now s e k).clear e k)
  | persistMiss {e : Engine} {k : Bytes} : Ran (.persist e k) false (tryExpire now s e k)
  | lock {k : Bytes} {ms : ℤ} (token : Bytes) : 0 < ms → live now s .array k = false → hasRoom now s .array k = true →
      Ran (.lock k token ms) true
        (((tryExpire now s .array k).put .array k token).stamp .array k (wrap64 (now + ms)))
  | lockLate {ms : ℤ} (k token : Bytes) : ms ≤ 0 → Ran (.lock k token ms) false s
  | lockMiss {k : Bytes} {ms : ℤ} (token : Bytes) : live now s .array k = true ∨ hasRoom now s .array k = false →
      Ran (.lock k token ms) false (tryExpire now s .array k)
  | unlock {k token : Bytes} : (tryExpire now s .array k).kv.lookup (.array, k) = some token →
      Ran (.unlock k token) true ((tryExpire now s .array k).drop .array k)
  | unlockMiss {k token : Bytes} : (tryExpire now s .array k).kv.lookup (.array, k) ≠ some token →
      Ran (.unlock k token) false (tryExpire now s .array k)
  | renew {k token : Bytes} {ms : ℤ} : 0 < ms → (tryExpire now s .array k).kv.lookup (.array, k) = some token →
      Ran (.renew k token ms) true ((tryExpire now s .array k).stamp .array k (wrap64 (now + ms)))
  | renewLate {ms : ℤ} (k token : Bytes) : ms ≤ 0 → Ran (.renew k token ms) false s
  | renewMiss {k token : Bytes} {ms : ℤ} : (tryExpire now s .array k).kv.lookup (.array, k) ≠ some token →
      Ran (.renew k token ms) false (tryExpire now s .array k)
  | msetNone (e : Engine) (first : Option Bytes) :
      Ran (.mset e first none) false (first.elim s (tryExpire now s e))
  | mset (e : Engine) (first : Option Bytes) (kvs : List (Bytes × Bytes)) : Ran (.mset e first (some kvs))
      (pairsFit now (first.elim s (tryExpire now s e)) e kvs) (upsertAll now (first.elim s (tryExpire now s e)) e kvs).2
  | docset {d : Bytes} (f v : Bytes) : (s.docs.lookup d).isSome = true ∨ s.docs.keys.length < docTableMax →
      Ran (.docset d f v) true (s.putField d f v)
  | docsetFull (d f v : Bytes) : Ran (.docset d f v) false s
  | docdel {d f : Bytes} {fields : Table Bytes Bytes} : s.docs.lookup d = some fields → (fields.lookup f).isSome = true →
      Ran (.docdel d f) true (s.withDocs (s.docs.insert d (fields.erase f)))
  | docdelMiss (d f : Bytes) : Ran (.docdel d f) false s
  | docdrop (d : Bytes) : Ran (.docdrop d) true (s.withDocs (s.docs.erase d))
  | docdropMiss (d : Bytes) : Ran (.docdrop d) false s

end

section

variable {now : ℤ} {s : Db} {e : Engine} {k v : Bytes}

lemma ran_set (v : Bytes) : Ran now s (.set e k v) (exec now s (.set e k v)).wrote (exec now s (.set e k v)).db := by
  by_cases hroom : hasRoom now s e k = true
  · simp only [exec, engineSet_eq_put (hasRoom_iff.mp hroom), persisting, expireDel_snd, settle]
    exact .set v hroom
  · rw [Bool.not_eq_true] at hroom
    simp only [exec, engineSet_of_full hroom, persisting, settle]
    exact .setFull v hroom

lemma ran_setex (secs : ℤ) (v : Bytes) :
    Ran now s (.setex e k secs v) (exec now s (.setex e k secs v)).wrote (exec now s (.setex e k secs v)).db := by
  by_cases hroom : hasRoom now s e k = true
  · simp only [exec, engineSet_eq_put (hasRoom_iff.mp hroom), expiring]
    by_cases hms : wrap64 (secs * 1000) ≤ 0
    · simp only [expireSet_of_nonpos hms, settle]
      exact .setexLate v hroom hms
    · simp only [expireSet_of_pos (not_le.mp hms), settle]
      exact .setex v hroom (not_le.mp hms)
  · rw [Bool.not_eq_true] at hroom
    simp only [exec, engineSet_of_full hroom, expiring, settle]
    exact .setexFull secs v hroom

lemma ran_lock (token : Bytes) (ms : ℤ) :
    Ran now s (.lock k token ms) (exec now s (.lock k token ms)).wrote (exec now s (.lock k token ms)).db := by
  simp only [exec, lockAcquire, engineExist_tryExpire]
  by_cases hms : ms ≤ 0
  · simp only [if_pos hms, settleLock]
    exact .lockLate k token hms
  simp only [if_neg hms]
  cases hlive : live now s .array k with
  | true => exact .lockMiss token (.inl hlive)
  | false =>
    cases hroom : hasRoom now s .array k with
    | true =>
      simp only [engineSet_eq_put (hasRoom_iff.mp hroom), expireSet_of_pos (not_le.mp hms)]
      exact .lock token (not_le.mp hms) hlive hroom
    | false =>
      simp only [engineSet_of_full hroom]
      exact .lockMiss token (.inr hroom)

lemma ran_renew (token : Bytes) (ms : ℤ) :
    Ran now s (.renew k token ms) (exec now s (.renew k token ms)).wrote (exec now s (.renew k token ms)).db := by
  simp only [exec, lockRenew]
  by_cases hms : ms ≤ 0
  · simp only [if_pos hms, settleLock]
    exact .renewLate k token hms
  simp only [if_neg hms]
  by_cases hget : engineGet (tryExpire now s .array k) .array k = some token
  · simp only [if_pos hget, expireSet_of_pos (not_le.mp hms)]
    exact .renew (not_le.mp hms) hget
  · simp only [if_neg hget]
    exact .renewMiss hget

lemma ran_docset (d f v : Bytes) :
    Ran now s (.docset d f v) (exec now s (.docset d f v)).wrote (exec now s (.docset d f v)).db := by
  by_cases hroom : (s.docs.lookup d).isSome = true ∨ s.docs.keys.length < docTableMax
  · simp only [exec, docSet_eq_put hroom, settleDoc]
    exact .docset f v hroom
  · obtain ⟨hnone, hfull⟩ := not_or.mp hroom
    simp only [exec, docSet, Option.not_isSome_iff_eq_none.mp hnone, if_pos (not_lt.mp hfull), settleDoc]
    exact .docsetFull d f v

lemma ran_docdel (d f : Bytes) : Ran now s (.docdel d f) (exec now s (.docdel d f)).wrote (exec now s (.docdel d f)).db := by
  simp only [exec, docDelField]
  cases hd : s.docs.lookup d with
  | none => exact .docdelMiss d f
  | some fields =>
    by_cases hf : (fields.lookup f).isSome = true
    · simp only [if_pos hf]
      exact .docdel hd hf
    · simp only [if_neg hf]
      exact .docdelMiss d f

lemma exec_ran (now : ℤ) (s : Db) (c : Cmd) : Ran now s c (exec now s c).wrote (exec now s c).db := by
  cases c with
  | control => exact .control
  | read => exact .read
  | unknown a => exact .unknown a
  | docexist d => exact .docexist d
  | doccount d => exact .doccount d
  | owner k => exact .owner k
  | get e k => exact .get e k
  | exist e k => exact .exist e k
  | ttl e k => exact .ttl e k
  | mget e ks =>
    cases ks with
    | none => exact .mgetNone e
    | some ks => exact .mget e ks
  | set e k v => exact ran_set v
  | setex e k secs v => exact ran_setex secs v
  | lock k token ms => exact ran_lock token ms
  | renew k token ms => exact ran_renew token ms
  | docset d f v => exact ran_docset d f v
  | docdel d f => exact ran_docdel d f
  | docdrop d =>
    simp only [exec, docDel]
    split
    · exact .docdrop d
    · exact .docdropMiss d
  | unlock k token =>
    simp only [exec, lockRelease, engineGet, expireDel_engineDel]
    split
    · exact .unlock ‹_›
    · exact .unlockMiss ‹_›
  | mod e k v =>
    simp only [exec, engineMod, engineExist_tryExpire]
    cases hlive : live now s e k with
    | true =>
      simp only [if_true, persisting, expireDel_snd, settle]
      exact .mod v hlive
    | false => exact .modMiss v hlive
  | del e k =>
    have hwrote : (exec now s (.del e k)).wrote = live now s e k := Bool.eq_iff_iff.mpr (exec_wrote_iff rfl)
    rw [hwrote, exec, settle_db, expireDel_engineDel]
    exact .del e k
  | expire e k secs =>
    simp only [exec, engineExist_tryExpire]
    cases hlive : live now s e k with
    | true =>
      by_cases hms : wrap64 (secs * 1000) ≤ 0
      · simp only [if_true, expireSet_of_nonpos hms]
        exact .expireMiss (.inr hms)
      · simp only [if_true, expireSet_of_pos (not_le.mp hms)]
        exact .expire hlive (not_le.mp hms)
    | false => exact .expireMiss (.inl hlive)
  | persist e k =>
    simp only [exec, engineExist_tryExpire]
    cases hlive : live now s e k with
    | true =>
      simp only [if_true, expireDel]
      cases httl : (tryExpire now s e k).ttl.lookup (e, k) with
      | none => exact .persistMiss
      | some d => exact .persist hlive (by rw [← tryExpire_of_live hlive, httl]; rfl)
    | false => exact .persistMiss
  | mset e first kvs =>
    cases kvs with
    | none => cases first <;> exact .msetNone e _
    | some kvs =>
      have hdb : (exec now s (.mset e first (some kvs))).db =
          (upsertAll now (first.elim s (tryExpire now s e)) e kvs).2 := by
        cases first <;> exact settle_db ..
      have hwrote : (exec now s (.mset e first (some kvs))).wrote =
          pairsFit now (first.elim s (tryExpire now s e)) e kvs := Bool.eq_iff_iff.mpr (exec_wrote_iff rfl)
      rw [hwrote, hdb]
      exact .mset e first kvs

/-! ### Commands that do not succeed -/

/-- The commands that store before they are refused. -/
def Cmd.hasty : Cmd → Bool
  | .setex .. | .mset .. => true
  | _ => false

variable {c : Cmd}

lemma Ran.expires_cases {wrote : Bool} {t : Db} (hran : Ran now s c wrote t) (hw : wrote = false) :
    Expires now s t ∨ c.hasty = true ∨
      ∃ e k, c = .del e k ∧ live now s e k = false ∧ t = (tryExpire now s e k).drop e k := by
  cases hran with
  | control | read | unknown | docexist | doccount | mgetNone | lockLate | renewLate | docsetFull | docdelMiss
  | docdropMiss => exact .inl (.refl now s)
  | owner | get | exist | ttl | setFull | modMiss | expireMiss | persistMiss | lockMiss | unlockMiss
  | renewMiss => exact .inl (.one now s _ _)
  | mget e ks => exact .inl ⟨_, rfl⟩
  | del e k => exact .inr (.inr ⟨e, k, rfl, hw, rfl⟩)
  | setexLate | setexFull | msetNone | mset => exact .inr (.inl rfl)
  | _ => cases hw

lemma exec_expires (hs : (exec now s c).reply.success = true) (hw : (exec now s c).wrote = false) :
    Expires now s (exec now s c).db := by
  rcases (exec_ran now s c).expires_cases hw with h | hhasty | ⟨e, k, rfl, -⟩
  · exact h
  · cases c with
    | setex | mset => exact absurd (settle_wrote hs) (Bool.eq_false_iff.mp hw)
    | _ => cases hhasty
  · exact absurd (settle_wrote hs) (Bool.eq_false_iff.mp hw)

end

end PocketKv.Store
