import PocketKv.Store.Content

/-!
# Commands on data that last
-/

namespace PocketKv.Store

open Library Resp Function

variable {m : Cell → Option Val}

/-- The deadlines are after `t`. -/
def Db.Lasts (t : ℤ) (s : Db) : Prop := ∀ x d, s.ttl.lookup x = some d → t < d

/-- The time to live that a command gives, in milliseconds. -/
def Cmd.ttlMs : Cmd → Option ℤ
  | .lock _ _ ms | .renew _ _ ms => some ms
  | .expire _ _ secs | .setex _ _ secs _ => some (wrap64 (secs * 1000))
  | _ => none

/-- What a command gives a key to live is longer than the time between the two, and the deadline does not overflow.
-/
def Cmd.lasts (t t' : ℤ) (c : Cmd) : Bool := c.ttlMs.all fun ms => t' - t < ms ∧ t' + ms < 2 ^ 63

/-- What the command writes is among the given keys and documents. -/
structure Cmd.Among (K : Finset Slot) (D : Finset Bytes) (c : Cmd) : Prop where
  array : ∀ k, (Engine.array, k) ∈ c.slots → (Engine.array, k) ∈ K
  docs : ∀ d ∈ c.docs, d ∈ D

/-- Nothing expires until `t`, and the keys are the given ones. -/
structure Db.Ready (t : ℤ) (K : Finset Slot) (D : Finset Bytes) (s : Db) : Prop where
  lasts : s.Lasts t
  within : s.Within K D

section

variable {t t' now ms : ℤ} {K : Finset Slot} {D : Finset Bytes} {s : Db} {e : Engine} {k v : Bytes}

lemma Db.Lasts.tryExpire (h : s.Lasts t') (hnow : now ≤ t') (e : Engine) (k : Bytes) :
    tryExpire now s e k = s := by
  rw [tryExpire_eq, if_neg]
  intro hexp
  obtain ⟨d, hd, hle⟩ := expireIsExpired_iff.mp hexp
  exact absurd (h _ _ hd) (not_lt.mpr (hle.trans hnow))

lemma Db.Lasts.expireAll (h : s.Lasts t') (hnow : now ≤ t') (slots : List Slot) : expireAll now s slots = s := by
  induction slots with
  | nil => rfl
  | cons x slots ih =>
    rw [Store.expireAll, List.foldl_cons, h.tryExpire hnow]
    exact ih

lemma wrap64_of_lt {x : ℤ} (h₀ : 0 ≤ x) (h : x < 2 ^ 63) : wrap64 x = x := by
  unfold wrap64
  rw [Int.bmod_eq_of_le (by omega) (by omega)]

namespace Db.Ready

variable (h : s.Ready t' K D)
include h

lemma put (hk : e = .array → (e, k) ∈ K) (v : Bytes) : (s.put e k v).Ready t' K D :=
  ⟨h.lasts, h.within.put hk v⟩

lemma clear (e : Engine) (k : Bytes) : (s.clear e k).Ready t' K D := by
  refine ⟨fun x d hx => ?_, ⟨h.within.array, h.within.docs⟩⟩
  simp only [Db.clear, lookup_erase_eq] at hx
  split at hx
  · cases hx
  · exact h.lasts x d hx

lemma erase (x : Slot) : ({ s with kv := s.kv.erase x } : Db).Ready t' K D :=
  ⟨h.lasts, ⟨fun k hk => h.within.array k (AList.mem_erase.mp hk).2, h.within.docs⟩⟩

lemma expireSet (ht : 0 ≤ t) (hnow : t ≤ now) (hnow' : now ≤ t')
    (hms : t' - t < ms ∧ t' + ms < 2 ^ 63) (e : Engine) (k : Bytes) : (expireSet now s e k ms).2.Ready t' K D := by
  unfold Store.expireSet
  rw [if_neg (by omega), wrap64_of_lt (by omega) (by omega)]
  refine ⟨fun x d hx => ?_, ⟨h.within.array, h.within.docs⟩⟩
  simp only [lookup_insert_eq] at hx
  split at hx
  · obtain rfl := Option.some.inj hx
    omega
  · exact h.lasts x d hx

lemma docDelField (d f : Bytes) : (docDelField s d f).2.Ready t' K D := by
  unfold Store.docDelField
  cases hd : s.docs.lookup d with
  | none => exact h
  | some fields =>
    simp only
    split
    · refine ⟨h.lasts, ⟨h.within.array, fun d' hd' => ?_⟩⟩
      rcases (AList.mem_insert _).mp hd' with rfl | hd'
      · exact h.within.docs d' (mem_of_lookup hd)
      · exact h.within.docs d' hd'
    · exact h

lemma docDel (d : Bytes) : (docDel s d).2.Ready t' K D := by
  unfold Store.docDel
  split
  · exact ⟨h.lasts, ⟨h.within.array, fun d' hd' => h.within.docs d' (AList.mem_erase.mp hd').2⟩⟩
  · exact h

end Db.Ready

/-- The data after an operation are ready, and the contents are the given ones. -/
def Becomes (t' : ℤ) (K : Finset Slot) (D : Finset Bytes) (s' : Db) (m : Cell → Option Val) : Prop :=
  s'.Ready t' K D ∧ s'.content = m

lemma Becomes.clear {s' : Db} (h : Becomes t' K D s' m) (e : Engine) (k : Bytes) :
    Becomes t' K D (expireDel s' e k).2 m := by
  rw [Becomes, content_expireDel, expireDel_snd]
  exact ⟨h.1.clear e k, h.2⟩

lemma persisting_becomes {r : Rc × Db} (e : Engine) (k : Bytes) (hr : Becomes t' K D r.2 m) :
    Becomes t' K D (persisting e k r).2 m := by
  obtain ⟨rc, s'⟩ := r
  cases rc with
  | ok => exact hr.clear e k
  | miss => exact hr
  | fail => exact hr

lemma Becomes.expireSet {s' : Db} (h : Becomes t' K D s' m) (ht : 0 ≤ t)
    (hnow : t ≤ now) (hnow' : now ≤ t') (hms : t' - t < ms ∧ t' + ms < 2 ^ 63) (e : Engine) (k : Bytes) :
    Becomes t' K D (expireSet now s' e k ms).2 m :=
  ⟨h.1.expireSet ht hnow hnow' hms e k, (content_expireSet now s' e k ms).trans h.2⟩

lemma Cmd.lasts_of_mem {c : Cmd} (h : c.lasts t t' = true) (hms : c.ttlMs = some ms) :
    t' - t < ms ∧ t' + ms < 2 ^ 63 := by
  simpa [Cmd.lasts, hms] using h

section

variable (h : s.Ready t' K D)
include h

lemma engineMod_becomes (e : Engine) (k v : Bytes) :
    Becomes t' K D (engineMod s e k v).2 ((Op.assignIf (.kv (e, k)) (some (.bytes v)) (·.isSome)).apply s.content) := by
  have hkey : (s.content (.kv (e, k))).isSome = engineExist s e k := Option.isSome_map
  rw [Op.assignIf_apply, Becomes, content_engineMod, hkey]
  refine ⟨?_, rfl⟩
  unfold engineMod
  split
  · rename_i hx
    refine h.put (fun he => ?_) v
    subst he
    exact h.within.array k (AList.lookup_isSome.mp hx)
  · exact h

lemma engineDel_becomes (e : Engine) (k : Bytes) :
    Becomes t' K D (expireDel (engineDel s e k).2 e k).2 (update s.content (.kv (e, k)) none) := by
  refine Becomes.clear ⟨?_, content_engineDel s e k⟩ e k
  rw [engineDel_snd]
  exact h.erase (e, k)

lemma lockRelease_becomes (hnow' : now ≤ t') (e : Engine) (k token : Bytes) :
    Becomes t' K D (lockRelease now s e k token).2
      ((Op.assignIf (.kv (e, k)) none (· == some (Val.bytes token))).apply s.content) := by
  have hkey : (s.content (.kv (e, k)) == some (Val.bytes token)) = decide (engineGet s e k = some token) := by
    rw [Db.content_kv, Bool.beq_eq_decide_eq, decide_eq_decide]
    cases hv : s.kv.lookup (e, k) <;> simp [engineGet, hv]
  rw [Op.assignIf_apply, hkey]
  unfold lockRelease
  simp only [h.lasts.tryExpire hnow', decide_eq_true_eq]
  split
  · exact engineDel_becomes h e k
  · exact ⟨h, rfl⟩

variable (hK : K.card ≤ kvsArraySize)
include hK

lemma engineSet_becomes (hk : e = .array → (e, k) ∈ K) (v : Bytes) :
    engineSet s e k v = (.ok, s.put e k v) ∧
      Becomes t' K D (s.put e k v) (update s.content (.kv (e, k)) (some (.bytes v))) :=
  ⟨engineSet_eq_put (h.within.not_full hK hk) v, h.put hk v, Db.content_put s e k v⟩

lemma engineUpsert_becomes (hnow' : now ≤ t') (hk : e = .array → (e, k) ∈ K) (v : Bytes) :
    ∃ s', engineUpsert now s e k v = (.ok, s') ∧
      Becomes t' K D s' (update s.content (.kv (e, k)) (some (.bytes v))) := by
  obtain ⟨hset, hput⟩ := engineSet_becomes h hK hk v
  unfold engineUpsert
  simp only [h.lasts.tryExpire hnow']
  split
  · rename_i hx
    refine ⟨_, rfl, Becomes.clear ?_ e k⟩
    rw [engineMod, if_pos hx]
    exact hput
  · exact ⟨_, hset, hput⟩

lemma upsertAll_becomes (hnow' : now ≤ t') {kvs : List (Bytes × Bytes)}
    (hk : ∀ kv ∈ kvs, e = .array → (e, kv.1) ∈ K) :
    Becomes t' K D (upsertAll now s e kvs).2 (applyWrites s.content (pairWrites e kvs)) := by
  induction kvs generalizing s with
  | nil => exact ⟨h, rfl⟩
  | cons kv kvs ih =>
    obtain ⟨k, v⟩ := kv
    obtain ⟨s', hs', hready, hcontent⟩ := engineUpsert_becomes h hK hnow' (hk _ List.mem_cons_self) v
    simp only [upsertAll, hs']
    rw [pairWrites, List.map_cons, applyWrites_cons, ← hcontent]
    exact ih hready fun kv hkv => hk kv (List.mem_cons_of_mem _ hkv)

lemma lockAcquire_becomes (ht : 0 ≤ t) (hnow : t ≤ now) (hnow' : now ≤ t')
    (hms : t' - t < ms ∧ t' + ms < 2 ^ 63) (hk : e = .array → (e, k) ∈ K) (token : Bytes) :
    Becomes t' K D (lockAcquire now s e k token ms).2
      ((Op.assignIf (.kv (e, k)) (some (.bytes token)) (·.isNone)).apply s.content) := by
  obtain ⟨hset, hput⟩ := engineSet_becomes h hK hk token
  have hkey : (s.content (.kv (e, k))).isNone = !engineExist s e k := by
    rw [Db.content_kv, Option.isNone_map, engineExist, Option.not_isSome]
  have hpos : ¬ms ≤ 0 := by omega
  rw [Op.assignIf_apply, hkey]
  unfold lockAcquire
  simp only [if_neg hpos, h.lasts.tryExpire hnow', hset]
  cases engineExist s e k with
  | true => exact ⟨h, rfl⟩
  | false =>
    have hexpire := hput.expireSet ht hnow hnow' hms e k
    simp only [expireSet, if_neg hpos] at hexpire ⊢
    exact hexpire

lemma exec_applies (hD : D.card ≤ docTableMax) (ht : 0 ≤ t) (hnow : t ≤ now) (hnow' : now ≤ t') {c : Cmd}
    (hc : c.Among K D) (hlasts : c.lasts t t' = true) :
    Becomes t' K D (exec now s c).db (c.op.apply s.content) := by
  have hexpire (e : Engine) (k : Bytes) : tryExpire now s e k = s := h.lasts.tryExpire hnow' e k
  have hsame : Becomes t' K D s (Op.skip.apply s.content) := ⟨h, rfl⟩
  have hslot {e : Engine} {k : Bytes} (hmem : (e, k) ∈ c.slots) : e = .array → (e, k) ∈ K := fun he => by
    subst he
    exact hc.array k hmem
  cases c with
  | control | docexist d | doccount d | read | unknown a => exact hsame
  | owner k | get e k | exist e k | ttl e k =>
    simp only [exec, hexpire]
    exact hsame
  | mget e ks =>
    cases ks with
    | none => exact hsame
    | some ks =>
      rw [exec, h.lasts.expireAll hnow']
      exact hsame
  | lock k token ms =>
    rw [exec, settleLock_db]
    exact lockAcquire_becomes h hK ht hnow hnow' (Cmd.lasts_of_mem hlasts rfl) (hslot (by simp [Cmd.slots])) token
  | unlock k token =>
    rw [exec, settleLock_db]
    exact lockRelease_becomes h hnow' .array k token
  | renew k token ms =>
    rw [exec, settleLock_db, lockRenew]
    simp only [hexpire]
    split
    · exact hsame
    split
    · exact hsame.expireSet ht hnow hnow' (Cmd.lasts_of_mem hlasts rfl) .array k
    · exact hsame
  | docset d f v =>
    have hd : d ∈ D := hc.docs d (by simp [Cmd.docs])
    rw [exec, settleDoc_db, docSet_eq_put (h.within.doc_room hD hd), Cmd.op, Op.writes_apply]
    exact ⟨⟨h.lasts, h.within.putField hd f v⟩, Db.content_putField s d f v⟩
  | docdel d f =>
    rw [exec, settleDoc_db, Cmd.op, Op.assignCell_apply]
    exact ⟨h.docDelField d f, content_docDelField s d f⟩
  | docdrop d =>
    rw [exec, settleDoc_db]
    exact ⟨h.docDel d, content_docDel s d⟩
  | set e k v =>
    obtain ⟨hset, hput⟩ := engineSet_becomes h hK (hslot (e := e) (k := k) (by simp [Cmd.slots])) v
    rw [exec, settle_db, hexpire, hset, Cmd.op, Op.assignCell_apply]
    exact persisting_becomes e k hput
  | setex e k secs v =>
    obtain ⟨hset, hput⟩ := engineSet_becomes h hK (hslot (e := e) (k := k) (by simp [Cmd.slots])) v
    rw [exec, settle_db, hexpire, hset, Cmd.op, Op.assignCell_apply]
    exact hput.expireSet ht hnow hnow' (Cmd.lasts_of_mem hlasts rfl) e k
  | mset e first kvs =>
    have hfirst : ∀ {kvs}, (exec now s (.mset e first (some kvs))).db = (upsertAll now s e kvs).2 := by
      intro kvs
      cases first with
      | none => rw [exec, settle_db]
      | some k => simp only [exec, settle_db, hexpire]
    cases kvs with
    | none =>
      cases first with
      | none => exact hsame
      | some k =>
        simp only [exec, settle_db, hexpire]
        exact hsame
    | some kvs =>
      rw [hfirst, Cmd.op, Op.writes_apply]
      exact upsertAll_becomes h hK hnow' fun kv hkv => hslot (List.mem_map.mpr ⟨kv, hkv, rfl⟩)
  | mod e k v =>
    rw [exec, settle_db, hexpire]
    exact persisting_becomes e k (engineMod_becomes h e k v)
  | del e k =>
    rw [exec, settle_db, hexpire, Cmd.op, Op.assignCell_apply]
    exact engineDel_becomes h e k
  | expire e k secs =>
    simp only [exec, settle_db, hexpire]
    split
    · exact hsame.expireSet ht hnow hnow' (Cmd.lasts_of_mem hlasts rfl) e k
    · exact hsame
  | persist e k =>
    simp only [exec, settle_db, hexpire]
    split
    · exact hsame.clear e k
    · exact hsame

end

/-- Commands one after the other, the first of them being the `i`-th, each at its own time. -/
def replay (clock : ℕ → ℤ) : ℕ → Db → List Cmd → Db
  | _, s, [] => s
  | i, s, c :: cs => replay clock (i + 1) (exec (clock i) s c).db cs

lemma replay_append (clock : ℕ → ℤ) (i : ℕ) (s : Db) (cs ds : List Cmd) :
    replay clock i s (cs ++ ds) = replay clock (i + cs.length) (replay clock i s cs) ds := by
  induction cs generalizing i s with
  | nil => rfl
  | cons c cs ih =>
    rw [List.cons_append, replay, ih, replay, List.length_cons, Nat.add_assoc, Nat.add_comm 1]

/-- The clock stays between the times. -/
def ClockWithin (t t' : ℤ) (clock : ℕ → ℤ) : Prop := ∀ i, t ≤ clock i ∧ clock i ≤ t'

lemma clockWithin_const (h : t ≤ t') : ClockWithin t t' fun _ => t := fun _ => ⟨le_refl t, h⟩

lemma replay_becomes (hK : K.card ≤ kvsArraySize) (hD : D.card ≤ docTableMax) (ht : 0 ≤ t) {clock : ℕ → ℤ}
    (hclock : ClockWithin t t' clock) {cs : List Cmd} (hcs : ∀ c ∈ cs, c.Among K D ∧ c.lasts t t' = true)
    (i : ℕ) (h : Becomes t' K D s m) :
    Becomes t' K D (replay clock i s cs) (applyAll (cs.map Cmd.op) m) := by
  induction cs generalizing i s m with
  | nil => exact h
  | cons c cs ih =>
    obtain ⟨hamong, hlasts⟩ := hcs c List.mem_cons_self
    have hone := exec_applies h.1 hK hD ht (hclock i).1 (hclock i).2 hamong hlasts
    rw [h.2] at hone
    exact ih (fun d hd => hcs d (List.mem_cons_of_mem _ hd)) (i + 1) hone

end

end PocketKv.Store
