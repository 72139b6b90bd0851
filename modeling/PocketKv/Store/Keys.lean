import PocketKv.Store.Runs

/-!
# Commands and their keys
-/

namespace PocketKv.Store

open Library Resp List

variable {wrote : Bool} {x : Slot} {c : Cmd} {kvs : List (Bytes × Bytes)} {t : Db} {first : Option Bytes}

/-- The keys that a command names. -/
def Cmd.keys : Cmd → List Slot
  | .lock k _ _ | .unlock k _ | .renew k _ _ | .owner k => [(.array, k)]
  | .set e k _ | .setex e k _ _ | .mod e k _ | .del e k | .get e k | .exist e k | .expire e k _ | .ttl e k | .persist e k => [(e, k)]
  | .mset e first kvs => (first.toList ++ (kvs.getD []).map Prod.fst).map fun k => (e, k)
  | .mget e ks => (ks.getD []).map fun k => (e, k)
  | .control | .docset .. | .docdel .. | .docdrop _ | .docexist _ | .doccount _ | .read | .unknown _ => []

/-! ### Other keys -/

/-- The data agree on the key and its deadline. -/
def AgreeAt (x : Slot) (s s' : Db) : Prop := s'.kv.lookup x = s.kv.lookup x ∧ s'.ttl.lookup x = s.ttl.lookup x

namespace AgreeAt

variable {now : ℤ} {s s' s'' : Db} {e : Engine} {k v : Bytes}

lemma refl : AgreeAt x s s := ⟨rfl, rfl⟩

lemma trans (h : AgreeAt x s s') (h' : AgreeAt x s' s'') : AgreeAt x s s'' := ⟨h'.1.trans h.1, h'.2.trans h.2⟩

section

variable (hx : x ≠ (e, k))
include hx

lemma put : AgreeAt x s (s.put e k v) := ⟨AList.lookup_insert_ne hx, rfl⟩

lemma clear : AgreeAt x s (s.clear e k) := ⟨rfl, AList.lookup_erase_ne hx⟩

lemma drop : AgreeAt x s (s.drop e k) := ⟨AList.lookup_erase_ne hx, AList.lookup_erase_ne hx⟩

lemma stamp {d : ℤ} : AgreeAt x s (s.stamp e k d) := ⟨rfl, AList.lookup_insert_ne hx⟩

lemma tryExpire : AgreeAt x s (tryExpire now s e k) := tryExpire_induct refl (drop hx)

end

lemma upsertAll (hx : ∀ kv, kv ∈ kvs → x ≠ (e, kv.1)) : AgreeAt x s (upsertAll now s e kvs).2 :=
  upsertAll_induct refl fun _ kv hkv ht =>
    have hk := hx kv hkv
    engineUpsert_induct (ht.trans (tryExpire hk)) (fun _ => (ht.trans (tryExpire hk)).trans (put hk))
      fun _ ht' => ht'.trans (clear hk)

lemma expireAll {slots : List Slot} (hx : x ∉ slots) : AgreeAt x s (expireAll now s slots) :=
  expireAll_induct refl fun _ _ hy ht => ht.trans (tryExpire (ne_of_mem_of_not_mem hy hx).symm)

lemma start (hx : ∀ k, first = some k → x ≠ (e, k)) : AgreeAt x s (first.elim s (Store.tryExpire now s e)) := by
  cases first with
  | none => exact refl
  | some k => exact tryExpire (hx k rfl)

end AgreeAt

lemma Ran.frame {now : ℤ} {s t : Db} (h : Ran now s c wrote t) (hx : x ∉ c.keys) : AgreeAt x s t := by
  have hfirst : ∀ {e first kvs}, c = .mset e first kvs → ∀ k, first = some k → x ≠ (e, k) := by
    rintro e first kvs rfl k rfl rfl
    exact hx (by simp [Cmd.keys])
  cases h with
  | control | read | unknown | docexist | doccount | mgetNone | lockLate | renewLate | docset | docsetFull | docdel
  | docdelMiss | docdrop | docdropMiss => exact .refl
  | owner | get | exist | ttl | setFull | modMiss | setexFull | expireMiss | persistMiss | lockMiss | unlockMiss
  | renewMiss => exact .tryExpire (ne_of_not_mem_cons hx)
  | mget e ks => exact .expireAll hx
  | set | mod =>
    have hk := ne_of_not_mem_cons hx
    exact ((AgreeAt.tryExpire hk).trans (.put hk)).trans (.clear hk)
  | setexLate =>
    have hk := ne_of_not_mem_cons hx
    exact (AgreeAt.tryExpire hk).trans (.put hk)
  | setex | lock =>
    have hk := ne_of_not_mem_cons hx
    exact ((AgreeAt.tryExpire hk).trans (.put hk)).trans (.stamp hk)
  | del | unlock =>
    have hk := ne_of_not_mem_cons hx
    exact (AgreeAt.tryExpire hk).trans (.drop hk)
  | expire | renew =>
    have hk := ne_of_not_mem_cons hx
    exact (AgreeAt.tryExpire hk).trans (.stamp hk)
  | persist =>
    have hk := ne_of_not_mem_cons hx
    exact (AgreeAt.tryExpire hk).trans (.clear hk)
  | msetNone e first => exact .start (hfirst rfl)
  | mset e first kvs =>
    refine (AgreeAt.start (hfirst rfl)).trans (.upsertAll ?_)
    rintro kv hkv rfl
    exact hx (mem_map.mpr ⟨kv.1, mem_append_right _ (mem_map_of_mem hkv), rfl⟩)

lemma exec_frame (now : ℤ) (s : Db) (hx : x ∉ c.keys) : AgreeAt x s (exec now s c).db :=
  (exec_ran now s c).frame hx

/-! ### Deadlines of the keys of a command -/

section Named

variable {now : ℤ} {s : Db} {e : Engine} {k v w : Bytes}

lemma mem_overwrites_mset (hc : (Cmd.mset e first (some kvs)).Formed)
    (hx : x ∈ (Cmd.mset e first (some kvs)).keys) : x ∈ (Cmd.mset e first (some kvs)).overwrites := by
  obtain ⟨k, hk, rfl⟩ := mem_map.mp hx
  rcases mem_append.mp hk with hk | hk
  · obtain ⟨kv, hkv, hfst⟩ := Option.map_eq_some_iff.mp (hc.symm.trans (Option.mem_toList.mp hk))
    exact mem_map.mpr ⟨kv, mem_of_mem_head? hkv, by rw [hfst]⟩
  · obtain ⟨kv, hkv, rfl⟩ := mem_map.mp hk
    exact mem_map.mpr ⟨kv, hkv, rfl⟩

lemma Ran.lookup_ttl (hran : Ran now s c wrote t) (hs : s.Coherent) (hc : c.Formed)
    (h : wrote = true) (hx : x ∈ c.keys) : t.ttl.lookup x = c.ttlMs.map fun ms => wrap64 (now + ms) := by
  have hover : x ∈ c.overwrites → t.ttl.lookup x = none := fun hmem =>
    AList.lookup_eq_none.mpr (hran.notMem_ttl hs h hmem)
  cases hran with
  | set | mod => exact hover hx
  | mset e first kvs => exact hover (mem_overwrites_mset hc hx)
  | del | unlock | persist =>
    obtain rfl := mem_singleton.mp hx
    exact AList.lookup_erase _ _
  | setex | expire | lock | renew =>
    obtain rfl := mem_singleton.mp hx
    exact AList.lookup_insert _
  | docset | docdel | docdrop => cases hx
  | _ => cases h

lemma lookup_ttl_exec (hs : s.Coherent) (hc : c.Formed) (h : (exec now s c).wrote = true)
    (hx : x ∈ c.keys) : (exec now s c).db.ttl.lookup x = c.ttlMs.map fun ms => wrap64 (now + ms) :=
  (exec_ran now s c).lookup_ttl hs hc h hx

/-! ### Writes that are refused -/

/-- The command may be refused at a key with the value. -/
def Cmd.refuses (v : Bytes) : Cmd → Prop
  | .set .. | .setex .. | .mod .. | .del .. | .expire .. => False
  | .unlock _ token | .renew _ token _ => v ≠ token
  | _ => True

lemma lookup_kv_of_tryExpire (h : (tryExpire now s e k).kv.lookup x = some w) : s.kv.lookup x = some w := by
  rw [(lookup_tryExpire ..).1] at h
  split at h
  · cases h
  · exact h

lemma lookup_of_full (h : hasRoom now s e k = false) : (tryExpire now s e k).kv.lookup (e, k) = none := by
  rw [hasRoom, ← engineExist_tryExpire, Bool.or_eq_false_iff] at h
  exact Option.not_isSome_iff_eq_none.mp (Bool.eq_false_iff.mp h.1)

lemma lookup_of_not_live (h : live now s e k = false) : (tryExpire now s e k).kv.lookup (e, k) = none :=
  Option.not_isSome_iff_eq_none.mp (Bool.eq_false_iff.mp (engineExist_tryExpire.trans h))

lemma Ran.refused (hran : Ran now s c wrote t) (hw : wrote = false)
    (hms : ∀ ms, c.ttlMs = some ms → 0 < ms) (hmset : ∀ e first kvs, c ≠ .mset e first kvs) (hx : x ∈ c.keys)
    (hv : t.kv.lookup x = some w) : s.kv.lookup x = some w ∧ c.refuses w := by
  cases hran with
  | control | read | unknown | docexist | doccount | mgetNone | docsetFull | docdelMiss | docdropMiss => cases hx
  | msetNone e first | mset e first kvs => exact absurd rfl (hmset e first _)
  | owner | get | exist | ttl | persistMiss | lockMiss => exact ⟨lookup_kv_of_tryExpire hv, trivial⟩
  | mget e ks =>
    rw [(lookup_expireAll _ x).1] at hv
    split at hv
    · cases hv
    · exact ⟨hv, trivial⟩
  | setFull v hroom | setexFull secs v hroom =>
    obtain rfl := mem_singleton.mp hx
    cases (lookup_of_full hroom).symm.trans hv
  | modMiss v hlive =>
    obtain rfl := mem_singleton.mp hx
    cases (lookup_of_not_live hlive).symm.trans hv
  | del e k =>
    obtain rfl := mem_singleton.mp hx
    cases (AList.lookup_erase _ _).symm.trans hv
  | expireMiss hmiss =>
    obtain rfl := mem_singleton.mp hx
    rcases hmiss with hlive | hlate
    · cases (lookup_of_not_live hlive).symm.trans hv
    · exact absurd (hms _ rfl) (not_lt.mpr hlate)
  | setexLate v _ hlate | lockLate k token hlate | renewLate k token hlate => exact absurd (hms _ rfl) (not_lt.mpr hlate)
  | unlockMiss hget | renewMiss hget =>
    obtain rfl := mem_singleton.mp hx
    exact ⟨lookup_kv_of_tryExpire hv, fun heq => hget (heq ▸ hv)⟩
  | _ => cases hw

lemma exec_refused (hw : (exec now s c).wrote = false) (hms : ∀ ms, c.ttlMs = some ms → 0 < ms)
    (hmset : ∀ e first kvs, c ≠ .mset e first kvs) (hx : x ∈ c.keys)
    (hv : (exec now s c).db.kv.lookup x = some w) : s.kv.lookup x = some w ∧ c.refuses w :=
  (exec_ran now s c).refused hw hms hmset hx hv

lemma drop_of_not_live (hs : s.Coherent) (h : live now s e k = false) :
    (tryExpire now s e k).drop e k = tryExpire now s e k := by
  have hkv := lookup_of_not_live h
  have httl : (tryExpire now s e k).ttl.lookup (e, k) = none := AList.lookup_eq_none.mpr fun hmem =>
    AList.lookup_eq_none.mp hkv (coherent_tryExpire hs now e k _ hmem)
  rw [Db.drop, erase_eq_self hkv, erase_eq_self httl]

lemma Ran.expires (hran : Ran now s c wrote t) (hs : s.Coherent)
    (hc : c.hasty = false) (hw : wrote = false) : Expires now s t := by
  rcases hran.expires_cases hw with h | hhasty | ⟨e, k, -, hlive, rfl⟩
  · exact h
  · rw [hc] at hhasty
    cases hhasty
  · rw [drop_of_not_live hs hlive]
    exact .one now s e k

end Named

/-! ### Room -/

section Room

variable {now : ℤ} {s : Db} {e : Engine} {k v : Bytes}

lemma Db.Fits.of_within {s s' : Db} (h : s.Fits) (hkv : ∀ k, (Engine.array, k) ∈ s'.kv → (Engine.array, k) ∈ s.kv)
    (hdocs : ∀ d, d ∈ s'.docs → d ∈ s.docs) : s'.Fits := by
  have hwithin : s'.Within s.arrayKeys.toFinset s.docs.keys.toFinset :=
    ⟨fun k hk => mem_toFinset.mpr (Db.mem_arrayKeys.mpr ⟨hkv k hk, rfl⟩),
      fun d hd => mem_toFinset.mpr (AList.mem_keys.mp (hdocs d hd))⟩
  exact hwithin.fits ((toFinset_card_le _).trans h.array) ((toFinset_card_le _).trans h.docs)

section

variable (h : s.Fits)
include h

lemma Db.Fits.drop (e : Engine) (k : Bytes) : (s.drop e k).Fits :=
  h.of_within (fun _ hk => (AList.mem_erase.mp hk).2) fun _ hd => hd

lemma Db.Fits.tryExpire (now : ℤ) (e : Engine) (k : Bytes) : (tryExpire now s e k).Fits :=
  tryExpire_induct h (h.drop e k)

lemma Db.Fits.put (hroom : engineExist s e k = true ∨ s.full e = false) (v : Bytes) : (s.put e k v).Fits := by
  have hwithin : (s.put e k v).Within (insert (e, k) s.arrayKeys.toFinset) s.docs.keys.toFinset := by
    refine ⟨fun k' hk' => ?_, fun d hd => mem_toFinset.mpr (AList.mem_keys.mp hd)⟩
    rcases (AList.mem_insert _).mp hk' with heq | hold
    · exact heq ▸ Finset.mem_insert_self ..
    · exact Finset.mem_insert_of_mem (mem_toFinset.mpr (Db.mem_arrayKeys.mpr ⟨hold, rfl⟩))
  by_cases hkeep : engineExist s e k = true ∨ e ≠ .array
  · refine h.of_within (fun k' hk' => ?_) fun _ hd => hd
    rcases (AList.mem_insert _).mp hk' with heq | hold
    · obtain ⟨rfl, rfl⟩ := Prod.mk.inj heq
      exact AList.lookup_isSome.mp (hkeep.resolve_right fun hne => hne rfl)
    · exact hold
  · obtain ⟨hnew, harray⟩ := not_or.mp hkeep
    obtain rfl := not_not.mp harray
    have hlt : s.arrayKeys.length < kvsArraySize := by
      have hfull := hroom.resolve_left hnew
      rw [Db.full, decide_eq_false_iff_not] at hfull
      omega
    refine hwithin.fits ((Finset.card_insert_le _ _).trans ?_) ((toFinset_card_le _).trans h.docs)
    have := toFinset_card_le s.arrayKeys
    omega

lemma Db.Fits.of_ttl {s' : Db} (hkv : s'.kv = s.kv) (hdocs : s'.docs = s.docs) : s'.Fits :=
  h.of_within (fun _ hk => hkv ▸ hk) fun _ hd => hdocs ▸ hd

lemma Db.Fits.upsert (hroom : hasRoom now s e k = true) (v : Bytes) : ((Store.tryExpire now s e k).put e k v).Fits :=
  (h.tryExpire now e k).put (hasRoom_iff.mp hroom) v

lemma Db.Fits.upsertAll (now : ℤ) (e : Engine) (kvs : List (Bytes × Bytes)) : (upsertAll now s e kvs).2.Fits :=
  upsertAll_induct h fun _ kv _ ht =>
    engineUpsert_induct (ht.tryExpire now e kv.1) (fun hroom => ht.upsert hroom kv.2) fun _ ht' => ht'.of_ttl rfl rfl

lemma Db.Fits.withDocs {docs : Docs} (hdocs : ∀ d, d ∈ docs → d ∈ s.docs) : (s.withDocs docs).Fits :=
  h.of_within (fun _ hk => hk) hdocs

lemma Db.Fits.putField {d : Bytes}
    (hroom : (s.docs.lookup d).isSome = true ∨ s.docs.keys.length < docTableMax) (f v : Bytes) : (s.putField d f v).Fits := by
  rcases hroom with hd | hlt
  · refine h.withDocs fun d' hd' => ?_
    rcases (AList.mem_insert _).mp hd' with rfl | hold
    · exact AList.lookup_isSome.mp hd
    · exact hold
  · have hwithin : (s.putField d f v).Within s.arrayKeys.toFinset (insert d s.docs.keys.toFinset) := by
      refine ⟨fun k hk => mem_toFinset.mpr (Db.mem_arrayKeys.mpr ⟨hk, rfl⟩), fun d' hd' => ?_⟩
      rcases (AList.mem_insert _).mp hd' with rfl | hold
      · exact Finset.mem_insert_self ..
      · exact Finset.mem_insert_of_mem (mem_toFinset.mpr (AList.mem_keys.mp hold))
    refine hwithin.fits ((toFinset_card_le _).trans h.array) ((Finset.card_insert_le _ _).trans ?_)
    have := toFinset_card_le s.docs.keys
    omega

lemma Db.Fits.start (now : ℤ) (e : Engine) (first : Option Bytes) :
    (first.elim s (Store.tryExpire now s e)).Fits := by
  cases first with
  | none => exact h
  | some k => exact h.tryExpire now e k

end

lemma Ran.fits (hran : Ran now s c wrote t) (h : s.Fits) : t.Fits := by
  cases hran with
  | control | read | unknown | docexist | doccount | mgetNone | lockLate | renewLate | docsetFull | docdelMiss
  | docdropMiss => exact h
  | owner | get | exist | ttl | setFull | modMiss | setexFull | expireMiss | persistMiss | lockMiss | unlockMiss
  | renewMiss => exact h.tryExpire now _ _
  | mget e ks => exact expireAll_induct h fun _ x _ ht => ht.tryExpire now x.1 x.2
  | set v hroom | setex v hroom _ | lock v _ _ hroom => exact (h.upsert hroom v).of_ttl rfl rfl
  | setexLate v hroom _ => exact h.upsert hroom v
  | mod v hlive => exact (h.upsert (by rw [hasRoom, hlive, Bool.true_or]) v).of_ttl rfl rfl
  | del | unlock => exact (h.tryExpire now _ _).drop _ _
  | expire | persist | renew => exact (h.tryExpire now _ _).of_ttl rfl rfl
  | msetNone e first => exact h.start now e first
  | mset e first kvs => exact (h.start now e first).upsertAll now e kvs
  | docset f v hroom => exact h.putField hroom f v
  | docdel hd _ =>
    refine h.withDocs fun d' hd' => ?_
    rcases (AList.mem_insert _).mp hd' with rfl | hold
    · exact mem_of_lookup hd
    · exact hold
  | docdrop d => exact h.withDocs fun d' hd' => (AList.mem_erase.mp hd').2

lemma fits_exec (h : s.Fits) (now : ℤ) (c : Cmd) : (exec now s c).db.Fits := (exec_ran now s c).fits h

lemma full_eq_false (he : e ≠ .array) (s : Db) : s.full e = false := by
  cases e with
  | array => exact absurd rfl he
  | rbtree | hash | skiptable => rfl

lemma upsertAll_of_ne (he : e ≠ .array) (kvs : List (Bytes × Bytes)) : (upsertAll now s e kvs).1 = .ok := by
  rw [upsertAll_ok]
  induction kvs generalizing s with
  | nil => rfl
  | cons kv kvs ih => rw [pairsFit, hasRoom, full_eq_false he, Bool.not_false, Bool.or_true, Bool.true_and, ih]

lemma upsertAll_within {K : Finset Slot} {D : Finset Bytes} (hK : K.card ≤ kvsArraySize)
    (hkvs : ∀ kv, kv ∈ kvs → e = .array → (e, kv.1) ∈ K) (h : s.Within K D) : (upsertAll now s e kvs).1 = .ok := by
  induction kvs generalizing s with
  | nil => rfl
  | cons kv kvs ih =>
    have hk := hkvs kv mem_cons_self
    have hexp : (tryExpire now s e kv.1).Within K D := by
      rw [tryExpire_eq]
      split
      · exact ⟨fun k hk => h.array k (AList.mem_erase.mp hk).2, h.docs⟩
      · exact h
    have hput (w : Bytes) : ((tryExpire now s e kv.1).put e kv.1 w).Within K D := hexp.put hk w
    have hnext : (engineUpsert now s e kv.1 kv.2).1 = .ok ∧ (engineUpsert now s e kv.1 kv.2).2.Within K D := by
      unfold engineUpsert engineSet engineMod
      simp only
      split
      · rw [expireDel_snd]
        exact ⟨rfl, (hput kv.2).array, (hput kv.2).docs⟩
      · rename_i hexist
        have hfull := (hexp.not_full hK hk).resolve_left hexist
        rw [if_neg (Bool.eq_false_iff.mp hfull)]
        exact ⟨rfl, hput kv.2⟩
    rw [upsertAll]
    cases hr : engineUpsert now s e kv.1 kv.2 with
    | mk rc t =>
      rw [hr] at hnext
      obtain ⟨rfl, hwithin⟩ := hnext
      exact ih (fun kv hkv => hkvs kv (mem_cons_of_mem _ hkv)) hwithin

end Room

/-! ### Values of the keys of a command -/

section Values

variable {now now' : ℤ} {s s' : Db}

lemma Cmd.slots_subset_keys (c : Cmd) : c.slots ⊆ c.keys := by
  intro x hx
  cases c with
  | mset e first kvs =>
    cases kvs with
    | none => cases hx
    | some kvs =>
      obtain ⟨kv, hkv, rfl⟩ := mem_map.mp hx
      exact mem_map.mpr ⟨kv.1, mem_append_right _ (mem_map_of_mem hkv), rfl⟩
  | lock k token ms | unlock k token | set e k v | setex e k secs v | mod e k v | del e k => exact hx
  | _ => cases hx

lemma lookup_kv_exec (hc : c.Formed) (h : (exec now s c).wrote = true) (h' : (exec now' s' c).wrote = true)
    (hx : x ∈ c.slots) : (exec now' s' c).db.kv.lookup x = (exec now s c).db.kv.lookup x := by
  have hcell := congrFun (exec_overwrites hc h) (.kv x)
  have hcell' := congrFun (exec_overwrites hc h') (.kv x)
  obtain ⟨w, hw⟩ := Option.ne_none_iff_exists'.mp fun hnone => (c.assigns_kv x).mp hnone hx
  rw [Op.overwrite, hw] at hcell hcell'
  exact map_bytes_inj (hcell'.trans hcell.symm)

lemma lookup_kv_exec_of_notMem (hc : c.Formed) (h : (exec now s c).wrote = true) (hx : x ∉ c.slots) :
    (exec now s c).db.kv.lookup x = s.kv.lookup x := by
  have hcell := congrFun (exec_overwrites hc h) (.kv x)
  rw [Op.overwrite, (c.assigns_kv x).mpr hx] at hcell
  exact map_bytes_inj hcell

lemma Ran.held {token k : Bytes} (hran : Ran now s c wrote t) (h : wrote = true)
    (hc : c = .unlock k token ∨ ∃ ms, c = .renew k token ms) : s.kv.lookup (.array, k) = some token := by
  rcases hc with rfl | ⟨ms, rfl⟩
  · cases hran with
    | unlock hget => exact lookup_kv_of_tryExpire hget
    | unlockMiss => cases h
  · cases hran with
    | renew _ hget => exact lookup_kv_of_tryExpire hget
    | renewLate | renewMiss => cases h

lemma Ran.ttlMs_pos (hran : Ran now s c wrote t) (h : wrote = true) {ms : ℤ}
    (hms : c.ttlMs = some ms) : 0 < ms := by
  cases hran with
  | setex v _ hpos | expire _ hpos | lock token hpos _ _ | renew hpos _ => exact Option.some.inj hms ▸ hpos
  | setexLate | setexFull | expireMiss | lockLate | lockMiss | renewLate | renewMiss => cases h
  | _ => cases hms

lemma ttlMs_pos (h : (exec now s c).wrote = true) {ms : ℤ} (hms : c.ttlMs = some ms) : 0 < ms :=
  (exec_ran now s c).ttlMs_pos h hms

end Values

end PocketKv.Store
