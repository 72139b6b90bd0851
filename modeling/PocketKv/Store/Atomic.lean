import PocketKv.Store.Locks

/-!
# Commands without effect
-/

namespace PocketKv.Store

open Library Resp List

/-- Nothing has happened to the data but that keys past their deadlines have gone. -/
structure Untouched (now : ℤ) (s s' : Db) : Prop where
  keys : ∀ x, Lapses now x s s'
  docs : ∀ d, s'.read (.doc d) = s.read (.doc d)
  fields : ∀ d f, s'.read (.field d f) = s.read (.field d f)

lemma docs_expireAll (now : ℤ) (s : Db) (slots : List Slot) : (expireAll now s slots).docs = s.docs := by
  induction slots generalizing s with
  | nil => rfl
  | cons x slots ih =>
    refine (ih (tryExpire now s x.1 x.2)).trans ?_
    rw [tryExpire_eq]
    split <;> rfl

variable {now : ℤ} {c : Cmd} {s : Db} {wrote : Bool} {r : Rc × Db}

lemma Expires.untouched {s s' : Db} (h : Expires now s s') : Untouched now s s' where
  keys := h.lapses
  docs d := by
    obtain ⟨slots, rfl⟩ := h
    rw [Db.read, Db.read, docs_expireAll]
  fields d f := by
    obtain ⟨slots, rfl⟩ := h
    rw [Db.read, Db.read, docs_expireAll]

/-! ### Writes that succeed -/

/-- What the command stores is there already, with the deadlines that it gives. -/
def Cmd.idle (now : ℤ) (s : Db) (c : Cmd) : Prop :=
  c.op.overwrite s.content = s.content ∧ ∀ x ∈ c.keys, s.ttl.lookup x = c.ttlMs.map fun ms => wrap64 (now + ms)

section Idle

variable {x : Slot}

lemma not_expired_of_live {e : Engine} {k : Bytes} (h : live now s e k = true) : expireIsExpired now s e k = false := by
  simp only [live, Bool.and_eq_true, Bool.not_eq_true'] at h
  exact h.2

lemma not_expired_of_liveKv {w : Bytes} (h : s.liveKv now x = some w) : expireIsExpired now s x.1 x.2 = false := by
  unfold Db.liveKv at h
  split at h
  · cases h
  · exact Bool.eq_false_iff.mpr ‹_›

lemma Ran.found_or_stored {t : Db} (hran : Ran now s c wrote t) (hc : c.Formed) (hw : wrote = true)
    (hx : x ∈ c.keys) : expireIsExpired now s x.1 x.2 = false ∨ t.kv.lookup x ≠ none := by
  have hcell : t.content (.kv x) = c.op.overwrite s.content (.kv x) := congrFun (hran.overwrites hc hw) (.kv x)
  have hfound {k : Bytes} {w : Bytes} (hget : (tryExpire now s .array k).kv.lookup (.array, k) = some w) :
      expireIsExpired now s .array k = false :=
    not_expired_of_liveKv ((engineGet_tryExpire .array k).symm.trans hget)
  cases hran with
  | set | setex | mod | lock =>
    obtain rfl := mem_singleton.mp hx
    right
    intro hnone
    cases (AList.lookup_insert _).symm.trans hnone
  | unlock hget | renew _ hget =>
    obtain rfl := mem_singleton.mp hx
    exact .inl (hfound hget)
  | del =>
    obtain rfl := mem_singleton.mp hx
    exact .inl (not_expired_of_live hw)
  | expire hlive _ | persist hlive _ =>
    obtain rfl := mem_singleton.mp hx
    exact .inl (not_expired_of_live hlive)
  | mset e first kvs =>
    right
    intro hnone
    have hassigns : (Cmd.mset e first (some kvs)).op.assigns (.kv x) ≠ none := fun h =>
      (Cmd.assigns_kv _ x).mp h (mem_overwrites_mset hc hx)
    obtain ⟨o, ho⟩ := Option.ne_none_iff_exists'.mp hassigns
    obtain ⟨w, -, rfl⟩ := Option.map_eq_some_iff.mp ho
    rw [Op.overwrite, ho, Db.content_kv, hnone] at hcell
    cases hcell
  | docset | docdel | docdrop => cases hx
  | _ => cases hw

lemma untouched_iff_idle (hs : s.Coherent) (hc : c.Formed) (hw : (exec now s c).wrote = true) :
    Untouched now s (exec now s c).db ↔ c.idle now s := by
  have hcontent := exec_overwrites hc hw
  constructor
  · intro h
    have hagree : ∀ x, AgreeAt x s (exec now s c).db := by
      intro x
      by_cases hx : x ∈ c.keys
      · rcases h.keys x with hagree | ⟨hexp, hkv, -⟩
        · exact hagree
        · rcases (exec_ran now s c).found_or_stored hc hw hx with halive | hstored
          · rw [hexp] at halive
            cases halive
          · exact absurd hkv hstored
      · exact exec_frame now s hx
    refine ⟨?_, fun x hx => ?_⟩
    · rw [← hcontent]
      funext cell
      cases cell with
      | kv x => rw [Db.content_kv, Db.content_kv, (hagree x).1]
      | ttl x => rfl
      | doc d => exact h.docs d
      | field d f => exact h.fields d f
    · rw [← (hagree x).2, lookup_ttl_exec hs hc hw hx]
  · rintro ⟨hsame, httl⟩
    rw [hsame] at hcontent
    refine ⟨fun x => .inl ⟨?_, ?_⟩, fun d => congrFun hcontent (.doc d), fun d f => congrFun hcontent (.field d f)⟩
    · exact map_bytes_inj (congrFun hcontent (.kv x))
    · by_cases hx : x ∈ c.keys
      · rw [lookup_ttl_exec hs hc hw hx, httl x hx]
      · exact (exec_frame now s hx).2

end Idle

/-! ### The data on which a command succeeds -/

/-- The data on which the command writes. -/
def Cmd.accepted (now : ℤ) (s : Db) : Cmd → Bool
  | .lock k _ ms => 0 < ms && (s.liveKv now (.array, k)).isNone && !(tryExpire now s .array k).full .array
  | .unlock k token => s.liveKv now (.array, k) == some token
  | .renew k token ms => 0 < ms && s.liveKv now (.array, k) == some token
  | .docset d _ _ => (s.docs.lookup d).isSome || s.docs.keys.length < docTableMax
  | .docdel d f => ((s.docs.lookup d).bind (·.lookup f)).isSome
  | .docdrop d => (s.docs.lookup d).isSome
  | c => c.succeeds now s

lemma settleLock_wrote_iff (failed : String) (r : Rc × Db) : (settleLock failed r).wrote = true ↔ r.1 = .ok := by
  obtain ⟨rc, t⟩ := r
  cases rc <;> simp [settleLock]

lemma settleDoc_wrote_iff (missing failed : String) (r : Rc × Db) :
    (settleDoc missing failed r).wrote = true ↔ r.1 = .ok := by
  obtain ⟨rc, t⟩ := r
  cases rc <;> simp [settleDoc]

lemma exec_wrote_iff_accepted (now : ℤ) (s : Db) (c : Cmd) : (exec now s c).wrote = true ↔ c.accepted now s = true := by
  cases c with
  | lock k token ms =>
    rw [exec, settleLock_wrote_iff, lockAcquire_eq, Cmd.accepted]
    by_cases hms : ms ≤ 0
    · simp [hms]
    · cases s.liveKv now (.array, k) with
      | some w => simp [hms]
      | none => cases (tryExpire now s .array k).full .array <;> simp [hms, not_le.mp hms]
  | unlock k token =>
    rw [exec, settleLock_wrote_iff, lockRelease, Cmd.accepted, beq_iff_eq, ← engineGet_tryExpire]
    split <;> simp [*]
  | renew k token ms =>
    rw [exec, settleLock_wrote_iff, lockRenew, Cmd.accepted, Bool.and_eq_true, beq_iff_eq, ← engineGet_tryExpire,
      decide_eq_true_iff]
    by_cases hms : ms ≤ 0
    · simp [hms]
    · simp only [if_neg hms, not_le.mp hms, true_and]
      split <;> simp [*, expireSet_ok, not_le.mp hms]
  | docset d f v =>
    rw [exec, settleDoc_wrote_iff, docSet, Cmd.accepted]
    cases s.docs.lookup d with
    | some fields => simp
    | none =>
      simp only
      split <;> simp <;> omega
  | docdel d f =>
    rw [exec, settleDoc_wrote_iff, docDelField, Cmd.accepted]
    cases s.docs.lookup d with
    | none => simp
    | some fields =>
      simp only [Option.bind_some]
      split <;> simp [*]
  | docdrop d =>
    rw [exec, settleDoc_wrote_iff, docDel, Cmd.accepted]
    split <;> simp [*]
  | set e k v | mset e first kvs | mod e k v | del e k | expire e k secs | setex e k secs v | persist e k =>
    exact exec_wrote_iff rfl
  | control | owner k | docexist d | doccount d | read | get e k | exist e k | ttl e k | unknown a =>
    simp [exec, Cmd.accepted, Cmd.succeeds]
  | mget e ks => cases ks <;> simp [exec, Cmd.accepted, Cmd.succeeds]

lemma settle_success {isSet missing : Bool} (h : (settle isSet missing r).wrote = true) :
    (settle isSet missing r).reply.success = true := by
  obtain ⟨rc, t⟩ := r
  cases rc with
  | ok => rfl
  | miss => cases missing <;> cases h
  | fail => cases h

lemma settleDoc_success {missing failed : String} (h : (settleDoc missing failed r).wrote = true) :
    (settleDoc missing failed r).reply.success = true := by
  obtain ⟨rc, t⟩ := r
  cases rc with
  | ok => rfl
  | miss | fail => cases h

lemma success_of_wrote (h : (exec now s c).wrote = true) : (exec now s c).reply.success = true := by
  cases c with
  | lock k token ms | unlock k token | renew k token ms =>
    rw [(reply_eq_one rfl).mpr h]
    rfl
  | docset d f v | docdel d f | docdrop d => exact settleDoc_success h
  | set e k v | mset e first kvs | mod e k v | del e k | expire e k secs | setex e k secs v | persist e k =>
    exact settle_success h
  | control | owner k | docexist d | doccount d | read | get e k | exist e k | ttl e k | unknown a => cases h
  | mget e ks => cases ks <;> cases h

section Harmless

variable {e : Engine} {k v : Bytes}

lemma untouched_put_iff : Untouched now s ((tryExpire now s e k).put e k v) ↔ s.liveKv now (e, k) = some v := by
  have hkv : ((tryExpire now s e k).put e k v).kv.lookup (e, k) = some v := AList.lookup_insert _
  constructor
  · intro h
    rcases h.keys (e, k) with ⟨hsame, httl⟩ | ⟨-, hnone, -⟩
    · have halive : expireIsExpired now s e k = false := by
        by_contra hexp
        have hgone : (tryExpire now s e k).ttl.lookup (e, k) = none := by
          rw [(lookup_tryExpire ..).2, if_pos ⟨rfl, by simpa using hexp⟩]
        have hclear : s.ttl.lookup (e, k) = none := httl.symm.trans hgone
        simp [expireIsExpired, hclear] at hexp
      rw [Db.liveKv, if_neg (by simp [halive]), ← hsame, hkv]
    · rw [hkv] at hnone
      cases hnone
  · intro h
    have halive := not_expired_of_liveKv h
    have hsame : tryExpire now s e k = s := by rw [tryExpire_eq, if_neg (by simpa using halive)]
    rw [Db.liveKv, if_neg (by simp [halive])] at h
    rw [hsame]
    refine ⟨fun x => .inl ⟨?_, rfl⟩, fun d => rfl, fun d f => rfl⟩
    by_cases hx : x = (e, k)
    · subst hx
      exact (AList.lookup_insert _).trans h.symm
    · exact AList.lookup_insert_ne hx

lemma Ran.untouched_setex {secs : ℤ} {t : Db} (hran : Ran now s (.setex e k secs v) wrote t)
    (hw : wrote = false) : Untouched now s t ↔
      (wrap64 (secs * 1000) ≤ 0 → hasRoom now s e k = true → s.liveKv now (e, k) = some v) := by
  cases hran with
  | setex => cases hw
  | setexLate _ hroom hms =>
    rw [untouched_put_iff]
    exact ⟨fun h _ _ => h, fun h => h hms hroom⟩
  | setexFull _ _ hroom =>
    refine iff_of_true (Expires.one now s e k).untouched fun _ h => ?_
    rw [hroom] at h
    cases h

end Harmless

/-! ### `MSET` -/

section Mset

variable {t : Db} {e : Engine} {k v : Bytes} {kvs pre post : List (Bytes × Bytes)} {first : Option Bytes}
  {kv : Bytes × Bytes}

lemma full_congr (h : ∀ x, AgreeAt x s t) (e : Engine) : t.full e = s.full e := by
  have hmem : ∀ x, x ∈ t.kv ↔ x ∈ s.kv := fun x => by
    rw [← AList.lookup_isSome, ← AList.lookup_isSome, (h x).1]
  have hperm : t.arrayKeys.Perm s.arrayKeys := by
    have ht : t.arrayKeys.Nodup := t.kv.nodupKeys.filter _
    have hs : s.arrayKeys.Nodup := s.kv.nodupKeys.filter _
    refine (perm_ext_iff_of_nodup ht hs).mpr fun x => ?_
    rw [Db.mem_arrayKeys, Db.mem_arrayKeys, hmem]
  cases e with
  | array => rw [Db.full, Db.full, hperm.length_eq]
  | rbtree | hash | skiptable => rfl

lemma agree_tryExpire (h : ∀ x, AgreeAt x s t) (e : Engine) (k : Bytes) (x : Slot) :
    AgreeAt x (tryExpire now s e k) (tryExpire now t e k) := by
  have hexp : expireIsExpired now t e k = expireIsExpired now s e k := expireIsExpired_congr (h (e, k)).2
  obtain ⟨hkv, httl⟩ := lookup_tryExpire now s e k x
  obtain ⟨hkv', httl'⟩ := lookup_tryExpire now t e k x
  rw [AgreeAt, hkv, hkv', httl, httl', hexp, (h x).1, (h x).2]
  exact ⟨rfl, rfl⟩

lemma hasRoom_congr (h : ∀ x, AgreeAt x s t) (e : Engine) (k : Bytes) : hasRoom now t e k = hasRoom now s e k := by
  have hexp : expireIsExpired now t e k = expireIsExpired now s e k := expireIsExpired_congr (h (e, k)).2
  rw [hasRoom, hasRoom, live, live, hexp, engineExist, engineExist, (h (e, k)).1, full_congr (agree_tryExpire h e k)]

lemma tryExpire_twice (now : ℤ) (s : Db) (e : Engine) (k : Bytes) :
    tryExpire now (tryExpire now s e k) e k = tryExpire now s e k := by
  by_cases hexp : expireIsExpired now s e k = true
  · have hgone : (tryExpire now s e k).ttl.lookup (e, k) = none := by rw [(lookup_tryExpire ..).2, if_pos ⟨rfl, hexp⟩]
    rw [tryExpire_eq now (tryExpire now s e k), if_neg (by simp [expireIsExpired, hgone])]
  · rw [tryExpire_eq now s, if_neg hexp, tryExpire_eq, if_neg hexp]

lemma hasRoom_tryExpire (now : ℤ) (s : Db) (e : Engine) (k : Bytes) :
    hasRoom now (tryExpire now s e k) e k = hasRoom now s e k := by
  rw [hasRoom, hasRoom, ← engineExist_tryExpire, ← engineExist_tryExpire, tryExpire_twice]

lemma engineUpsert_refused (h : hasRoom now s e k = false) :
    engineUpsert now s e k v = (.fail, tryExpire now s e k) := by
  have hlive : live now s e k = false := (Bool.or_eq_false_iff.mp h).1
  simp only [engineUpsert, engineExist_tryExpire, hlive, engineSet_of_full h]
  rfl

lemma upsertAll_cons (h : hasRoom now s e k = true) :
    upsertAll now s e ((k, v) :: kvs) = upsertAll now (engineUpsert now s e k v).2 e kvs := by
  have hok : (engineUpsert now s e k v).1 = .ok := engineUpsert_ok.mpr h
  rw [upsertAll]
  rcases hr : engineUpsert now s e k v with ⟨rc, t⟩
  rw [hr] at hok
  obtain rfl := hok
  rfl

lemma upsertAll_cons_refused (h : hasRoom now s e k = false) :
    upsertAll now s e ((k, v) :: kvs) = (.fail, tryExpire now s e k) := by
  rw [upsertAll, engineUpsert_refused h]

lemma upsertAll_append (h : (upsertAll now s e pre).1 = .ok) :
    upsertAll now s e (pre ++ post) = upsertAll now (upsertAll now s e pre).2 e post := by
  induction pre generalizing s with
  | nil => rfl
  | cons kv pre ih =>
    obtain ⟨k, v⟩ := kv
    have hfit := (upsertAll_ok _).mp h
    rw [pairsFit, Bool.and_eq_true] at hfit
    rw [cons_append, upsertAll_cons hfit.1, upsertAll_cons hfit.1]
    rw [upsertAll_cons hfit.1] at h
    exact ih h

lemma exists_refused (h : (upsertAll now s e kvs).1 ≠ .ok) : ∃ pre k v post, kvs = pre ++ (k, v) :: post ∧
    (upsertAll now s e pre).1 = .ok ∧ hasRoom now (upsertAll now s e pre).2 e k = false := by
  induction kvs generalizing s with
  | nil => exact absurd rfl h
  | cons kv kvs ih =>
    obtain ⟨k, v⟩ := kv
    by_cases hroom : hasRoom now s e k = true
    · rw [upsertAll_cons hroom] at h
      obtain ⟨pre, k', v', post, rfl, hpre, hrefused⟩ := ih h
      refine ⟨(k, v) :: pre, k', v', post, rfl, ?_, ?_⟩
      · rw [upsertAll_cons hroom, hpre]
      · rw [upsertAll_cons hroom, hrefused]
    · exact ⟨[], k, v, kvs, rfl, rfl, Bool.eq_false_iff.mpr hroom⟩

lemma upsertAll_of_held (h : ∀ kv ∈ kvs, (s.kv.lookup (e, kv.1)).isSome = true ∧ s.ttl.lookup (e, kv.1) = none) :
    (upsertAll now s e kvs).1 = .ok := by
  induction kvs generalizing s with
  | nil => rfl
  | cons kv kvs ih =>
    obtain ⟨k, v⟩ := kv
    obtain ⟨hkv, httl⟩ := h (k, v) mem_cons_self
    have hlive : live now s e k = true := by
      rw [live, engineExist, hkv, expireIsExpired, httl]
      rfl
    have hroom : hasRoom now s e k = true := by rw [hasRoom, hlive, Bool.true_or]
    rw [upsertAll_cons hroom]
    refine ih fun kv' hkv' => ?_
    obtain ⟨hkv'', httl'⟩ := h kv' (mem_cons_of_mem _ hkv')
    rw [engineUpsert]
    simp only [tryExpire_of_live hlive, engineExist, hkv, if_true, expireDel_snd, engineMod, Db.clear, Db.put,
      lookup_erase_eq, lookup_insert_eq, httl', ite_self, and_true]
    split
    · rfl
    · exact hkv''

lemma Lapses.of_agree {s' : Db} {x : Slot} (h : AgreeAt x s t) (hl : Lapses now x t s') : Lapses now x s s' := by
  rcases hl with hagree | ⟨hexp, hkv, httl⟩
  · exact .inl (h.trans hagree)
  · rw [expireIsExpired_congr h.2] at hexp
    exact .inr ⟨hexp, hkv, httl⟩

/-- The pairs are there already, without deadlines. -/
def Idle (s : Db) (e : Engine) (pre : List (Bytes × Bytes)) : Prop :=
  ∀ kv ∈ pre, s.content (.kv (e, kv.1)) = applyWrites (fun _ => none) (pairWrites e pre) (.kv (e, kv.1)) ∧
    s.ttl.lookup (e, kv.1) = none

lemma mem_pairWrites (h : kv ∈ pre) : Cell.kv (e, kv.1) ∈ (pairWrites e pre).map Prod.fst := by
  rw [pairWrites, map_map]
  exact mem_map.mpr ⟨kv, h, rfl⟩

lemma Idle.held (h : Idle s e pre) (hkv : kv ∈ pre) :
    (s.kv.lookup (e, kv.1)).isSome = true ∧ s.ttl.lookup (e, kv.1) = none := by
  obtain ⟨hcell, httl⟩ := h kv hkv
  refine ⟨?_, httl⟩
  have hsome : s.content (.kv (e, kv.1)) ≠ none := hcell ▸ applyWrites_ne_none_of_mem (mem_pairWrites hkv) _
  rw [Option.isSome_iff_ne_none]
  intro hnone
  rw [Db.content_kv, hnone] at hsome
  exact hsome rfl

lemma Idle.content (h : Idle s e pre) : applyWrites s.content (pairWrites e pre) = s.content := by
  funext cell
  by_cases hmem : cell ∈ (pairWrites e pre).map Prod.fst
  · rw [pairWrites, map_map] at hmem
    obtain ⟨kv, hkv, rfl⟩ := mem_map.mp hmem
    exact (applyWrites_of_mem (mem_pairWrites hkv) _ _).trans (h kv hkv).1.symm
  · exact applyWrites_of_notMem hmem _

lemma Idle.upsertAll (now : ℤ) (hs : s.Coherent) (h : Idle s e pre) : (upsertAll now s e pre).1 = .ok ∧
    (upsertAll now s e pre).2.content = s.content ∧ ∀ x, AgreeAt x s (upsertAll now s e pre).2 := by
  have hok : (Store.upsertAll now s e pre).1 = .ok := upsertAll_of_held fun kv hkv => h.held hkv
  have hcontent : (Store.upsertAll now s e pre).2.content = s.content := (content_upsertAll hok).trans h.content
  refine ⟨hok, hcontent, fun x => ⟨map_bytes_inj (congrFun hcontent (.kv x)), ?_⟩⟩
  by_cases hx : ∃ kv ∈ pre, x = (e, kv.1)
  · obtain ⟨kv, hkv, rfl⟩ := hx
    rw [(h kv hkv).2]
    exact AList.lookup_eq_none.mpr (notMem_ttl_upsertAll hs hok kv hkv)
  · exact (AgreeAt.upsertAll fun kv hkv heq => hx ⟨kv, hkv, heq⟩).2

lemma idle_of_untouched {s' : Db} (hs' : s'.Coherent) (hok : (upsertAll now s' e pre).1 = .ok)
    (h : Untouched now s (tryExpire now (upsertAll now s' e pre).2 e k)) : Idle s e pre := by
  intro kv hkv
  have hcell := congrFun (content_upsertAll hok) (.kv (e, kv.1))
  have httl : (upsertAll now s' e pre).2.ttl.lookup (e, kv.1) = none :=
    AList.lookup_eq_none.mpr (notMem_ttl_upsertAll hs' hok kv hkv)
  -- the key has no deadline, and so it is still there
  have hstays : ¬ ((e, kv.1) = (e, k) ∧ expireIsExpired now (upsertAll now s' e pre).2 e k = true) := by
    rintro ⟨heq, hexp⟩
    rw [heq] at httl
    simp [expireIsExpired, httl] at hexp
  have hkept := h.keys (e, kv.1)
  rw [Lapses, AgreeAt, (lookup_tryExpire ..).1, (lookup_tryExpire ..).2, if_neg hstays, if_neg hstays, httl] at hkept
  rw [applyWrites_of_mem (mem_pairWrites hkv) _ fun _ => none] at hcell
  rcases hkept with ⟨hsame, hclear⟩ | ⟨-, hnone, -⟩
  · refine ⟨?_, hclear.symm⟩
    rw [← hcell, Db.content_kv, Db.content_kv, hsame]
  · rw [Db.content_kv, hnone] at hcell
    exact absurd hcell.symm (applyWrites_ne_none_of_mem (mem_pairWrites hkv) _)

lemma Idle.hasRoom_start (now : ℤ) (hs : s.Coherent) (h : Idle s e pre)
    (hfirst : first = (pre ++ (k, v) :: post).head?.map Prod.fst) :
    (Store.upsertAll now (first.elim s (tryExpire now s e)) e pre).1 = .ok ∧
      hasRoom now (Store.upsertAll now (first.elim s (tryExpire now s e)) e pre).2 e k = hasRoom now s e k ∧
      Untouched now s (tryExpire now (Store.upsertAll now (first.elim s (tryExpire now s e)) e pre).2 e k) := by
  subst hfirst
  cases pre with
  | nil =>
    refine ⟨rfl, hasRoom_tryExpire now s e k, ?_⟩
    have hexpires : Expires now s (tryExpire now (tryExpire now s e k) e k) := ⟨[(e, k), (e, k)], rfl⟩
    exact hexpires.untouched
  | cons kv pre =>
    have hheld := h.held mem_cons_self
    have hstart : tryExpire now s e kv.1 = s := by rw [tryExpire_eq, if_neg (by simp [expireIsExpired, hheld.2])]
    simp only [cons_append, head?_cons, Option.map_some, Option.elim_some, hstart]
    obtain ⟨hok, hcontent, hagree⟩ := h.upsertAll now hs
    refine ⟨hok, hasRoom_congr hagree e k, ?_⟩
    have hexpires := (Expires.one now (Store.upsertAll now s e (kv :: pre)).2 e k).untouched
    exact ⟨fun x => (hexpires.keys x).of_agree (hagree x), fun d => (hexpires.docs d).trans (congrFun hcontent (.doc d)),
      fun d f => (hexpires.fields d f).trans (congrFun hcontent (.field d f))⟩

lemma untouched_upsertAll (hs : s.Coherent) (hfirst : first = kvs.head?.map Prod.fst)
    (hrefused : (upsertAll now (first.elim s (tryExpire now s e)) e kvs).1 ≠ .ok) :
    Untouched now s (upsertAll now (first.elim s (tryExpire now s e)) e kvs).2 ↔
      ∃ pre k v post, kvs = pre ++ (k, v) :: post ∧ hasRoom now s e k = false ∧ Idle s e pre := by
  have hcoherent := coherent_start hs now e first
  constructor
  · intro h
    obtain ⟨pre, k, v, post, rfl, hok, hroom⟩ := exists_refused hrefused
    rw [upsertAll_append hok, upsertAll_cons_refused hroom] at h
    have hidle := idle_of_untouched hcoherent hok h
    rw [(hidle.hasRoom_start now hs hfirst).2.1] at hroom
    exact ⟨pre, k, v, post, rfl, hroom, hidle⟩
  · rintro ⟨pre, k, v, post, rfl, hroom, hidle⟩
    obtain ⟨hok, hsame, huntouched⟩ := hidle.hasRoom_start now hs hfirst
    rw [upsertAll_append hok, upsertAll_cons_refused (hsame.trans hroom)]
    exact huntouched

end Mset

/-! ### All commands -/

/-- `SETEX` without a positive time to live is refused for want of room, or stores the value that is there; `MSET`
comes to a key for which there is no room after pairs that are there already. -/
def Cmd.harmless (now : ℤ) (s : Db) : Cmd → Prop
  | .setex e k secs v => wrap64 (secs * 1000) ≤ 0 → hasRoom now s e k = true → s.liveKv now (e, k) = some v
  | .mset e first (some kvs) => pairsFit now (first.elim s (tryExpire now s e)) e kvs = false →
    ∃ pre k v post, kvs = pre ++ (k, v) :: post ∧ hasRoom now s e k = false ∧ Idle s e pre
  | _ => True

lemma harmless_of_wrote (hw : (exec now s c).wrote = true) : c.harmless now s := by
  cases c with
  | setex e k secs v =>
    intro hms
    have hpos := ttlMs_pos hw rfl
    omega
  | mset e first kvs =>
    cases kvs with
    | none => trivial
    | some kvs =>
      intro hfit
      have hsucceeds : pairsFit now (first.elim s (tryExpire now s e)) e kvs = true := (exec_wrote_iff rfl).mp hw
      rw [hsucceeds] at hfit
      cases hfit
  | _ => trivial

lemma untouched_iff_harmless (hs : s.Coherent) (hc : c.Formed)
    (hw : (exec now s c).wrote = false) : Untouched now s (exec now s c).db ↔ c.harmless now s := by
  by_cases hhasty : c.hasty = false
  · refine iff_of_true ((exec_ran now s c).expires hs hhasty hw).untouched ?_
    cases c with
    | setex e k secs v | mset e first kvs => cases hhasty
    | _ => trivial
  cases c with
  | setex e k secs v => exact (exec_ran now s _).untouched_setex hw
  | mset e first kvs =>
    cases kvs with
    | none =>
      refine iff_of_true ?_ trivial
      cases first with
      | none => exact (Expires.refl now s).untouched
      | some k => exact (Expires.one now s e k).untouched
    | some kvs =>
      have hdb : (exec now s (.mset e first (some kvs))).db = (upsertAll now (first.elim s (tryExpire now s e)) e kvs).2 := by
        simp only [exec, settle_db]
        cases first <;> rfl
      have hfit : pairsFit now (first.elim s (tryExpire now s e)) e kvs = false := by
        have hsucceeds : ¬ (Cmd.mset e first (some kvs)).succeeds now s = true := fun h => by
          rw [(exec_wrote_iff rfl).mpr h] at hw
          cases hw
        exact Bool.eq_false_iff.mpr hsucceeds
      have hrefused : (upsertAll now (first.elim s (tryExpire now s e)) e kvs).1 ≠ .ok := fun hok =>
        Bool.eq_false_iff.mp hfit ((upsertAll_ok kvs).mp hok)
      rw [hdb, untouched_upsertAll hs hc hrefused]
      exact ⟨fun h _ => h, fun h => h hfit⟩
  | _ => exact absurd rfl hhasty

end PocketKv.Store
