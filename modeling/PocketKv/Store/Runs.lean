import PocketKv.Store.Reads

/-!
# The store over time
-/

namespace PocketKv.Store

open Library Resp Storage

/-- What happens to the store. -/
inductive StoreEvent where
  | command (argv : List Bytes)
  /-- `kvs_active_expire_cycle`, which comes to some keys. -/
  | cycle (slots : List Slot)

/-- The store after an event. -/
def StoreEvent.apply (now : ℤ) (s : Db) : StoreEvent → Db
  | .command argv => (exec now s (decode argv)).db
  | .cycle slots => expireAll now s slots

/-- The store after events. -/
def runEvents (evs : List (ℤ × StoreEvent)) : Db := evs.foldl (fun s ev => ev.2.apply ev.1 s) .empty

lemma runEvents_concat (evs : List (ℤ × StoreEvent)) (ev : ℤ × StoreEvent) :
    runEvents (evs ++ [ev]) = ev.2.apply ev.1 (runEvents evs) := by
  rw [runEvents, List.foldl_append]
  rfl

/-- The arguments of the commands are not longer than `n`. -/
def StoreEvent.Within (n : ℕ) : StoreEvent → Prop
  | .command argv => ∀ a, a ∈ argv → a.length ≤ n
  | .cycle _ => True

/-- The deadlines belong to keys, keys and values are as the engines store them, and deadlines are 64-bit numbers.
-/
structure Db.Sound (n : ℕ) (s : Db) : Prop where
  coherent : s.Coherent
  kv : ∀ x v, s.kv.lookup x = some v → Storable n x v
  ttl : ∀ x d, s.ttl.lookup x = some d → d < 2 ^ 63
  docs : DocsSound n s.docs

lemma sound_empty (n : ℕ) : Db.empty.Sound n where
  coherent := coherent_empty
  kv _ _ h := by cases h
  ttl _ _ h := by cases h
  docs _ _ h := by cases h

lemma wrap64_lt (x : ℤ) : wrap64 x < 2 ^ 63 := by
  have := Int.bmod_lt (x := x) (m := 2 ^ 64) (by decide)
  rw [wrap64]
  omega

lemma wrap64_le {a : ℤ} (ha : 0 ≤ a) : wrap64 a ≤ a := by
  rw [wrap64, Int.bmod_def]
  split <;> omega

variable {stores : Slot → Bytes → Prop} {redocs : Docs → Docs → Prop} {n : ℕ} {s : Db}

lemma Db.Sound.edited {s s' : Db} {gives : ℤ → Prop}
    {now : ℤ} (h : s.Sound n) (hedit : Edited stores gives redocs now s s') (hstores : ∀ x v, stores x v → Storable n x v)
    (hredocs : ∀ old new, DocsSound n old → redocs old new → DocsSound n new) : s'.Sound n where
  coherent := hedit.coherent h.coherent
  kv x v hv := (hedit.kept hv).elim (h.kv x v) (hstores x v)
  ttl x d hd := by
    rcases hedit.stamped hd with hd | ⟨ms, -, -, rfl⟩
    · exact h.ttl x d hd
    · exact wrap64_lt _
  docs := hedit.docs_kept hredocs h.docs

lemma Db.Sound.apply (h : s.Sound n) (now : ℤ) {ev : StoreEvent} (hev : ev.Within n) : (ev.apply now s).Sound n := by
  cases ev with
  | command argv => exact h.edited (exec_edited now s (decode argv)) (decode_sound hev).stores (decode_sound hev).redocs
  | cycle slots =>
    exact h.edited (.purged now s slots) (fun _ _ => False.elim) fun _ _ _ => False.elim

lemma Db.Sound.mono {n m : ℕ} (h : s.Sound n) (hnm : n ≤ m) : s.Sound m where
  coherent := h.coherent
  kv x v hv := by
    obtain ⟨hkey, hvalue, hk, hv⟩ := h.kv x v hv
    exact ⟨hkey, hvalue, hk.trans hnm, hv.trans hnm⟩
  ttl := h.ttl
  docs d fields hd := by
    obtain ⟨hcstr, hlen, hfields⟩ := h.docs d fields hd
    exact ⟨hcstr, hlen.trans hnm, hfields⟩

lemma Db.Sound.command (h : s.Sound n) (now : ℤ) (argv : List Bytes) :
    ∃ m, (exec now s (decode argv)).db.Sound m := by
  have hargs : (StoreEvent.command argv).Within (max n (argv.map List.length).sum) := fun a ha =>
    (List.le_sum_of_mem (List.mem_map_of_mem ha)).trans (le_max_right ..)
  exact ⟨_, (h.mono (le_max_left ..)).apply now hargs⟩

lemma sound_runEvents {evs : List (ℤ × StoreEvent)} (h : ∀ ev, ev ∈ evs → ev.2.Within n) : (runEvents evs).Sound n := by
  induction evs using List.reverseRecOn with
  | nil => exact sound_empty n
  | append_singleton evs ev ih =>
    rw [runEvents_concat]
    exact (ih fun e he => h e (List.mem_append_left _ he)).apply ev.1 (h ev (by simp))

lemma coherent_runEvents (evs : List (ℤ × StoreEvent)) : (runEvents evs).Coherent := by
  induction evs using List.reverseRecOn with
  | nil => exact coherent_empty
  | append_singleton evs ev ih =>
    rw [runEvents_concat]
    obtain ⟨t, ev⟩ := ev
    cases ev with
    | command argv => exact (exec_edited t _ (decode argv)).coherent ih
    | cycle slots => exact (Edited.purged t _ slots).coherent ih

/-! ### Writes that take deadlines away -/

/-- The keys that `SET`, `MSET` and `MOD` write. -/
def Cmd.overwrites : Cmd → List Slot
  | .set e k _ | .mod e k _ => [(e, k)]
  | .mset e _ (some kvs) => kvs.map fun kv => (e, kv.1)
  | _ => []

lemma Edited.ttl_subset {now : ℤ} {s s' : Db}
    (h : Edited stores (fun _ => False) redocs now s s')
    {x : Slot} (hx : x ∉ s.ttl) : x ∉ s'.ttl := by
  induction h with
  | refl => exact hx
  | put _ _ ih | docs _ _ ih => exact ih
  | drop e k _ ih | clear e k _ ih => exact fun hmem => ih (AList.mem_erase.mp hmem).2
  | stamp _ _ _ hfalse _ => exact hfalse.elim

section Overwrites

variable {now : ℤ} {e : Engine} {k v : Bytes}

lemma coherent_tryExpire (hs : s.Coherent) (now : ℤ) (e : Engine) (k : Bytes) : (tryExpire now s e k).Coherent :=
  (Edited.purged now s [(e, k)]).coherent hs

lemma coherent_start (hs : s.Coherent) (now : ℤ) (e : Engine) (first : Option Bytes) :
    (first.elim s (tryExpire now s e)).Coherent :=
  (Edited.start first : Purged now s _).coherent hs

lemma notMem_ttl_engineUpsert (hs : s.Coherent) : (e, k) ∉ (engineUpsert now s e k v).2.ttl := by
  simp only [engineUpsert, engineMod, engineExist_tryExpire]
  cases hlive : live now s e k with
  | true =>
    simp only [if_true, expireDel_snd]
    exact fun hmem => (AList.mem_erase.mp hmem).1 rfl
  | false =>
    have hfree : (e, k) ∉ (tryExpire now s e k).ttl := fun hmem => by
      have hexist := AList.lookup_isSome.mpr (coherent_tryExpire hs now e k _ hmem)
      rw [← engineExist, engineExist_tryExpire, hlive] at hexist
      cases hexist
    cases hroom : hasRoom now s e k with
    | true =>
      rw [engineSet_eq_put (hasRoom_iff.mp hroom)]
      exact hfree
    | false =>
      rw [engineSet_of_full hroom]
      exact hfree

lemma notMem_ttl_upsertAll (hs : s.Coherent) {kvs : List (Bytes × Bytes)} (h : (upsertAll now s e kvs).1 = .ok) :
    ∀ kv, kv ∈ kvs → (e, kv.1) ∉ (upsertAll now s e kvs).2.ttl := by
  induction kvs generalizing s with
  | nil => exact fun kv hkv => absurd hkv List.not_mem_nil
  | cons kv kvs ih =>
    obtain ⟨k, v⟩ := kv
    have hone : Edited (fun _ _ => True) (fun _ => False) (fun _ _ => False) now s (engineUpsert now s e k v).2 :=
      Edited.refl.engineUpsert trivial
    have hkey : (e, k) ∉ (engineUpsert now s e k v).2.ttl := notMem_ttl_engineUpsert hs
    rw [upsertAll] at h ⊢
    cases hr : engineUpsert now s e k v with
    | mk rc t =>
      rw [hr] at hone hkey h
      cases rc with
      | ok =>
        have hrest : Edited (fun _ _ => True) (fun _ => False) (fun _ _ => False) now t (upsertAll now t e kvs).2 :=
          Edited.refl.upsertAll fun _ _ => trivial
        intro kv hkv
        rcases List.mem_cons.mp hkv with rfl | hkv
        · exact hrest.ttl_subset hkey
        · exact ih (hone.coherent hs) h kv hkv
      | miss | fail => cases h

lemma Ran.notMem_ttl {t : Db} {c : Cmd} {wrote : Bool} (hran : Ran now s c wrote t) (hs : s.Coherent) (h : wrote = true)
    {x : Slot} (hx : x ∈ c.overwrites) : x ∉ t.ttl := by
  cases hran with
  | set | mod =>
    obtain rfl := List.mem_singleton.mp hx
    exact fun hmem => (AList.mem_erase.mp hmem).1 rfl
  | mset e first kvs =>
    obtain ⟨kv, hkv, rfl⟩ := List.mem_map.mp hx
    exact notMem_ttl_upsertAll (coherent_start hs now e first) ((upsertAll_ok kvs).mpr h) kv hkv
  | setFull | modMiss => cases h
  | _ => cases hx

lemma notMem_ttl_exec (hs : s.Coherent) {c : Cmd} (h : (exec now s c).wrote = true) :
    ∀ x, x ∈ c.overwrites → x ∉ (exec now s c).db.ttl :=
  fun _ hx => (exec_ran now s c).notMem_ttl hs h hx

end Overwrites

/-! ### The store of every run -/

/-- The values and the deadlines come from commands among the events. -/
structure Db.From (evs : List (ℤ × StoreEvent)) (s : Db) : Prop where
  kv : ∀ x v, s.kv.lookup x = some v → ∃ t argv, (t, .command argv) ∈ evs ∧ (decode argv).stores x v
  ttl : ∀ x d, s.ttl.lookup x = some d → ∃ t argv ms, (t, .command argv) ∈ evs ∧ (decode argv).gives ms ∧ d = wrap64 (t + ms)

lemma Db.From.append {evs : List (ℤ × StoreEvent)} (h : s.From evs) (ev : ℤ × StoreEvent) : s.From (evs ++ [ev]) where
  kv x v hv := by
    obtain ⟨t, argv, hmem, hstores⟩ := h.kv x v hv
    exact ⟨t, argv, List.mem_append_left _ hmem, hstores⟩
  ttl x d hd := by
    obtain ⟨t, argv, ms, hmem, hgives⟩ := h.ttl x d hd
    exact ⟨t, argv, ms, List.mem_append_left _ hmem, hgives⟩

/-- **Nothing comes from nowhere**: in any run a value was given for its key by a command, and a deadline is the time of a command
with what this gave as time to live. -/
theorem runEvents_from (evs : List (ℤ × StoreEvent)) : (runEvents evs).From evs := by
  induction evs using List.reverseRecOn with
  | nil => exact ⟨nofun, nofun⟩
  | append_singleton evs ev ih =>
    rw [runEvents_concat]
    have hevs := ih.append ev
    obtain ⟨t, argv | slots⟩ := ev
    · have hedit := exec_edited t (runEvents evs) (decode argv)
      exact ⟨fun x v hv => (hedit.kept hv).elim (hevs.kv x v) fun hv => ⟨t, argv, by simp, hv⟩,
        fun x d hd => (hedit.stamped hd).elim (hevs.ttl x d) fun ⟨ms, _, hms⟩ => ⟨t, argv, ms, by simp, hms⟩⟩
    · have hedit := Edited.purged t (runEvents evs) slots
      exact ⟨fun x v hv => hevs.kv x v ((hedit.kept hv).resolve_right id),
        fun x d hd => hevs.ttl x d ((hedit.stamped hd).resolve_right fun ⟨_, _, hms, _⟩ => hms)⟩

section Coherence

variable {F : Type} [LinearOrder F] (cosine : Bytes → Bytes → Option F)

/-- **Deadlines and keys go together**: each deadline belongs to a key that is there, the next command leaves the
keys that it overwrites without deadlines, and a read is answered as if the keys past their deadlines were gone; a
search, if these are outranked. -/
theorem ttl_coherence (evs : List (ℤ × StoreEvent)) (now : ℤ) (argv : List Bytes) (scan : List (Bytes × Bytes))
    (hscan : scan.Perm (runEvents evs).hashEntries)
    (hclean : isVsearch argv = true → SearchClean cosine now (runEvents evs) scan argv) :
    (∀ x, x ∈ (runEvents evs).ttl → x ∈ (runEvents evs).kv) ∧
      ((exec now (runEvents evs) (decode argv)).wrote = true → ∀ x, x ∈ (decode argv).overwrites →
        x ∉ (exec now (runEvents evs) (decode argv)).db.ttl) ∧
      ((decode argv).reads = true → ∃ scan', scan'.Perm ((runEvents evs).swept now).hashEntries ∧
        answer cosine scan now (runEvents evs) argv = answer cosine scan' now ((runEvents evs).swept now) argv) := by
  have hcoherent := coherent_runEvents evs
  refine ⟨hcoherent, notMem_ttl_exec hcoherent, fun hreads => ⟨_, perm_hashEntries_swept now hscan, ?_⟩⟩
  exact answer_swept cosine now _ hreads fun hsearch => (vsearch_swept cosine now _ hscan (hclean hsearch)).symm

end Coherence

/-- `HSETEX semcache:a 1 ...`. -/
def setVector : List Bytes := [str "HSETEX", str "semcache:a", str "1", Storage.vectorOf 0]

/-- `VSEARCH 256 ... 1`. -/
def searchVector : List Bytes := [str "VSEARCH", str "256", List.replicate 1024 0, str "1"]

/-- A search half a second after the key was set for one second. -/
theorem ttl_coherence_live_vector :
    ∃ scan, scan.Perm ((runEvents [(0, .command setVector)]).swept 500).hashEntries ∧
      answer (fun _ _ => some (0 : ℕ)) (runEvents [(0, .command setVector)]).hashEntries 500
          (runEvents [(0, .command setVector)]) searchVector =
        answer (fun _ _ => some 0) scan 500 ((runEvents [(0, .command setVector)]).swept 500) searchVector :=
  (ttl_coherence (fun _ _ => some (0 : ℕ)) [(0, .command setVector)] 500 searchVector _ (.refl _)
    fun _ _ => .inl (by decide +kernel)).2.2 (by decide +kernel)

/-- **A search exposes a key past its deadline**: the key is set for one second, and found two seconds
later. -/
theorem vsearch_exposes_expired :
    expireIsExpired 2000 (runEvents [(0, .command setVector)]) .hash (str "semcache:a") = true ∧
      answer (fun _ _ => some 0) (runEvents [(0, .command setVector)]).hashEntries 2000 (runEvents [(0, .command setVector)])
        searchVector = .found (.ok [⟨str "semcache:a", some (0 : ℕ)⟩]) := by
  decide +kernel

end PocketKv.Store
