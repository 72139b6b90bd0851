import PocketKv.Store.Lasting

/-!
# What a command can do to the data
-/

namespace PocketKv.Store

open Library Resp

variable {n : ℕ} {kvs : List (Bytes × Bytes)}

section

variable (stores : Slot → Bytes → Prop) (gives : ℤ → Prop) (redocs : Docs → Docs → Prop) (now : ℤ) (s : Db)

/-- Only given values are stored, given times to live used, and the documents change in given ways. -/
inductive Edited : Db → Prop
  | refl : Edited s
  | put {s' : Db} {e : Engine} {k v : Bytes} : Edited s' → stores (e, k) v → Edited (s'.put e k v)
  | drop {s' : Db} (e : Engine) (k : Bytes) : Edited s' → Edited (s'.drop e k)
  | clear {s' : Db} (e : Engine) (k : Bytes) : Edited s' → Edited (s'.clear e k)
  | stamp {s' : Db} {e : Engine} {k : Bytes} {ms : ℤ} :
      Edited s' → (e, k) ∈ s'.kv → 0 < ms → gives ms → Edited (s'.stamp e k (wrap64 (now + ms)))
  | docs {s' : Db} {docs : Docs} : Edited s' → redocs s'.docs docs → Edited (s'.withDocs docs)

end

/-- Keys past their deadlines have gone. -/
abbrev Purged := Edited (fun _ _ => False) (fun _ => False) (fun _ _ => False)

/-- The command stores the value under the key. -/
def Cmd.stores (c : Cmd) (x : Slot) (v : Bytes) : Prop :=
  match c with
  | .lock k token _ => x = (.array, k) ∧ v = token
  | .set e k w | .mod e k w | .setex e k _ w => x = (e, k) ∧ v = w
  | .mset e _ (some kvs) => x.1 = e ∧ (x.2, v) ∈ kvs
  | _ => False

/-- The command gives the time to live. -/
def Cmd.gives (c : Cmd) (ms : ℤ) : Prop := c.ttlMs = some ms

/-- The command changes the documents in this way. -/
def Cmd.redocs (c : Cmd) (old new : Docs) : Prop :=
  match c with
  | .docset d f v => new = old.insert d (((old.lookup d).getD ∅).insert f v)
  | .docdel d f => ∃ fields, old.lookup d = some fields ∧ new = old.insert d (fields.erase f)
  | .docdrop d => new = old.erase d
  | _ => False

namespace Edited

variable {stores : Slot → Bytes → Prop} {gives : ℤ → Prop} {redocs : Docs → Docs → Prop} {now : ℤ} {s s' : Db}
  {e : Engine} {k v : Bytes}

section

variable (h : Edited stores gives redocs now s s')
include h

lemma tryExpire (t : ℤ) (e : Engine) (k : Bytes) : Edited stores gives redocs now s (tryExpire t s' e k) :=
  tryExpire_induct h (h.drop e k)

lemma expireAll (t : ℤ) (slots : List Slot) : Edited stores gives redocs now s (expireAll t s' slots) :=
  expireAll_induct h fun _ x _ hx => hx.tryExpire t x.1 x.2

lemma engineUpsert (hv : stores (e, k) v) : Edited stores gives redocs now s (engineUpsert now s' e k v).2 :=
  engineUpsert_induct (h.tryExpire now e k) (fun _ => (h.tryExpire now e k).put hv) fun _ ht => ht.clear e k

lemma upsertAll (hkvs : ∀ kv, kv ∈ kvs → stores (e, kv.1) kv.2) :
    Edited stores gives redocs now s (upsertAll now s' e kvs).2 :=
  upsertAll_induct h fun _ kv hkv ht => ht.engineUpsert (hkvs kv hkv)

end

lemma purged (now : ℤ) (s : Db) (slots : List Slot) : Purged now s (Store.expireAll now s slots) :=
  refl.expireAll now slots

lemma start (first : Option Bytes) : Edited stores gives redocs now s (first.elim s (Store.tryExpire now s e)) := by
  cases first with
  | none => exact .refl
  | some k => exact refl.tryExpire now e k

end Edited

variable (now : ℤ) (s : Db) {c : Cmd} {k v : Bytes}

lemma mem_of_live {now : ℤ} {s : Db} {e : Engine} {k : Bytes} (h : live now s e k = true) :
    (e, k) ∈ (tryExpire now s e k).kv :=
  AList.lookup_isSome.mp (engineExist_tryExpire.trans h)

lemma Ran.edited {now : ℤ} {s t : Db} {wrote : Bool} (h : Ran now s c wrote t) :
    Edited c.stores c.gives c.redocs now s t := by
  cases h with
  | control | read | unknown | docexist | doccount | mgetNone | lockLate | renewLate | docsetFull | docdelMiss
  | docdropMiss => exact .refl
  | owner | get | exist | ttl | setFull | modMiss | setexFull | expireMiss | persistMiss | lockMiss | unlockMiss
  | renewMiss => exact Edited.refl.tryExpire now _ _
  | mget e ks => exact Edited.refl.expireAll now _
  | set | mod => exact ((Edited.refl.tryExpire now _ _).put ⟨rfl, rfl⟩).clear _ _
  | setexLate => exact (Edited.refl.tryExpire now _ _).put ⟨rfl, rfl⟩
  | del | unlock => exact (Edited.refl.tryExpire now _ _).drop _ _
  | persist => exact (Edited.refl.tryExpire now _ _).clear _ _
  | setex v _ hms | lock v hms _ _ =>
    exact ((Edited.refl.tryExpire now _ _).put ⟨rfl, rfl⟩).stamp ((AList.mem_insert _).mpr (.inl rfl)) hms rfl
  | expire hlive hms => exact (Edited.refl.tryExpire now _ _).stamp (mem_of_live hlive) hms rfl
  | renew hms hget => exact (Edited.refl.tryExpire now _ _).stamp (mem_of_lookup hget) hms rfl
  | msetNone e first => exact .start first
  | mset e first kvs => exact (Edited.start first).upsertAll fun kv hkv => ⟨rfl, hkv⟩
  | docset f v _ => exact Edited.refl.docs rfl
  | docdel hd _ => exact Edited.refl.docs ⟨_, hd, rfl⟩
  | docdrop d => exact Edited.refl.docs rfl

lemma exec_edited (c : Cmd) : Edited c.stores c.gives c.redocs now s (exec now s c).db := (exec_ran now s c).edited

/-! ### What the changes keep -/

/-- Each deadline belongs to a key. -/
def Db.Coherent (s : Db) : Prop := ∀ x, x ∈ s.ttl → x ∈ s.kv

lemma coherent_empty : Db.empty.Coherent := fun x hx => absurd hx (AList.notMem_empty x)

namespace Edited

variable {stores : Slot → Bytes → Prop} {gives : ℤ → Prop} {redocs : Docs → Docs → Prop} {now : ℤ} {s s' : Db}

variable (h : Edited stores gives redocs now s s')
include h

lemma coherent (hs : s.Coherent) : s'.Coherent := by
  induction h with
  | refl => exact hs
  | put _ _ ih => exact fun x hx => (AList.mem_insert _).mpr (.inr (ih x hx))
  | drop e k _ ih =>
    intro x hx
    obtain ⟨hne, hx⟩ := AList.mem_erase.mp hx
    exact AList.mem_erase.mpr ⟨hne, ih x hx⟩
  | clear e k _ ih => exact fun x hx => ih x (AList.mem_erase.mp hx).2
  | stamp _ hk _ _ ih =>
    intro x hx
    rcases (AList.mem_insert _).mp hx with rfl | hx
    · exact hk
    · exact ih x hx
  | docs _ _ ih => exact ih

lemma kept {x : Slot} {v : Bytes} (hv : s'.kv.lookup x = some v) : s.kv.lookup x = some v ∨ stores x v := by
  induction h with
  | refl => exact .inl hv
  | @put s' e k w _ hw ih =>
    by_cases hx : x = (e, k)
    · subst hx
      rw [Db.put, AList.lookup_insert] at hv
      exact .inr (Option.some.inj hv ▸ hw)
    · rw [Db.put, AList.lookup_insert_ne hx] at hv
      exact ih hv
  | drop e k _ ih =>
    rw [Db.drop, lookup_erase_eq] at hv
    split at hv
    · cases hv
    · exact ih hv
  | clear _ _ _ ih | stamp _ _ _ _ ih | docs _ _ ih => exact ih hv

lemma stamped {x : Slot} {d : ℤ} (hd : s'.ttl.lookup x = some d) :
    s.ttl.lookup x = some d ∨ ∃ ms, 0 < ms ∧ gives ms ∧ d = wrap64 (now + ms) := by
  induction h with
  | refl => exact .inl hd
  | put _ _ ih | docs _ _ ih => exact ih hd
  | drop e k _ ih | clear e k _ ih =>
    simp only [Db.drop, Db.clear, lookup_erase_eq] at hd
    split at hd
    · cases hd
    · exact ih hd
  | @stamp s' e k ms _ _ hpos hms ih =>
    by_cases hx : x = (e, k)
    · subst hx
      rw [Db.stamp, AList.lookup_insert] at hd
      exact .inr ⟨ms, hpos, hms, (Option.some.inj hd).symm⟩
    · rw [Db.stamp, AList.lookup_insert_ne hx] at hd
      exact ih hd

lemma docs_kept {P : Docs → Prop} (hP : ∀ old new, P old → redocs old new → P new)
    (hs : P s.docs) : P s'.docs := by
  induction h with
  | refl => exact hs
  | put _ _ ih | drop _ _ _ ih | clear _ _ _ ih | stamp _ _ _ _ ih => exact ih
  | docs _ hre ih => exact hP _ _ ih hre

end Edited

/-! ### What the arguments allow -/

/-- There is no zero byte. -/
def IsCstr (b : Bytes) : Prop := 0 ∉ b

lemma isCstr_cstr (b : Bytes) : IsCstr (cstr b) := by
  intro h
  have := List.mem_takeWhile_imp h
  simp at this

lemma length_cstr_le (b : Bytes) : (cstr b).length ≤ b.length := (List.takeWhile_sublist _).length_le

/-- Its key is a C string, and so is the value but in the hash engine; neither is longer than `n`. -/
structure Storable (n : ℕ) (x : Slot) (v : Bytes) : Prop where
  key : IsCstr x.2
  value : x.1 ≠ .hash → IsCstr v
  key_le : x.2.length ≤ n
  value_le : v.length ≤ n

lemma storable_cstr (e : Engine) (hk : k.length ≤ n) (hv : v.length ≤ n) : Storable n (e, cstr k) (cstr v) :=
  ⟨isCstr_cstr k, fun _ => isCstr_cstr v, (length_cstr_le k).trans hk, (length_cstr_le v).trans hv⟩

lemma storable_storedValue (e : Engine) (hk : k.length ≤ n) (hv : v.length ≤ n) :
    Storable n (e, cstr k) (storedValue e v) := by
  refine ⟨isCstr_cstr k, fun he => ?_, (length_cstr_le k).trans hk, ?_⟩
  · cases e with
    | hash => exact absurd rfl he
    | array | rbtree | skiptable => exact isCstr_cstr v
  · cases e with
    | hash => exact hv
    | array | rbtree | skiptable => exact (length_cstr_le v).trans hv

/-- The documents and their fields are C strings, and no key is longer than `n`. -/
def DocsSound (n : ℕ) (docs : Docs) : Prop :=
  ∀ d fields, docs.lookup d = some fields → IsCstr d ∧ d.length ≤ n ∧ ∀ f v, fields.lookup f = some v → IsCstr f ∧ IsCstr v

lemma DocsSound.insert {docs : Docs} (h : DocsSound n docs) {d : Bytes} (hd : IsCstr d) (hlen : d.length ≤ n)
    {fields : Table Bytes Bytes} (hfields : ∀ f v, fields.lookup f = some v → IsCstr f ∧ IsCstr v) :
    DocsSound n (docs.insert d fields) := by
  intro d' fields' hl
  by_cases heq : d' = d
  · subst heq
    rw [AList.lookup_insert] at hl
    exact Option.some.inj hl ▸ ⟨hd, hlen, hfields⟩
  · rw [AList.lookup_insert_ne heq] at hl
    exact h d' fields' hl

/-- What the command stores is storable. -/
structure Cmd.Sound (n : ℕ) (c : Cmd) : Prop where
  stores : ∀ x v, c.stores x v → Storable n x v
  redocs : ∀ old new, DocsSound n old → c.redocs old new → DocsSound n new

lemma Cmd.Sound.of_stores (h : ∀ x v, c.stores x v → Storable n x v) (hdocs : ∀ old new, ¬ c.redocs old new) :
    c.Sound n :=
  ⟨h, fun old new _ hre => absurd hre (hdocs old new)⟩

lemma Cmd.Sound.of_none (h : ∀ x v, ¬ c.stores x v) (hdocs : ∀ old new, ¬ c.redocs old new) : c.Sound n :=
  .of_stores (fun x v hx => absurd hx (h x v)) hdocs

lemma sound_docset {d : Bytes} (hd : d.length ≤ n) (f v : Bytes) : (Cmd.docset (cstr d) (cstr f) (cstr v)).Sound n := by
  refine ⟨fun x v hx => hx.elim, ?_⟩
  rintro old new hold rfl
  refine hold.insert (isCstr_cstr d) ((length_cstr_le d).trans hd) fun f' v' hl => ?_
  rw [lookup_insert_eq] at hl
  split at hl
  · rename_i hf
    obtain rfl := Option.some.inj hl
    exact hf ▸ ⟨isCstr_cstr f, isCstr_cstr v⟩
  · cases ho : old.lookup (cstr d) with
    | none =>
      rw [ho] at hl
      cases hl
    | some fields =>
      rw [ho] at hl
      exact (hold _ fields ho).2.2 f' v' hl

lemma sound_docdel (n : ℕ) (d f : Bytes) : (Cmd.docdel d f).Sound n := by
  refine ⟨fun x v hx => hx.elim, ?_⟩
  rintro old new hold ⟨fields, hd, rfl⟩
  obtain ⟨hkey, hlen, hfields⟩ := hold d fields hd
  refine hold.insert hkey hlen fun f' v' hl => ?_
  rw [lookup_erase_eq] at hl
  split at hl
  · cases hl
  · exact hfields f' v' hl

lemma sound_docdrop (n : ℕ) (d : Bytes) : (Cmd.docdrop d).Sound n := by
  refine ⟨fun x v hx => hx.elim, ?_⟩
  rintro old new hold rfl d' fields hl
  rw [lookup_erase_eq] at hl
  split at hl
  · cases hl
  · exact hold d' fields hl

lemma Cmd.Sound.ite {p : Prop} [Decidable p] {a b : Cmd} (ha : a.Sound n) (hb : b.Sound n) :
    (if p then a else b).Sound n := by
  split
  · exact ha
  · exact hb

lemma mem_pairs {args : List Bytes} (h : ∀ a, a ∈ args → a.length ≤ n)
    (hp : pairs args = some kvs) (e : Engine) : ∀ kv, kv ∈ kvs → Storable n (e, kv.1) kv.2 := by
  induction args using pairs.induct generalizing kvs with
  | case1 =>
    obtain rfl := Option.some.inj hp
    exact fun kv hkv => absurd hkv List.not_mem_nil
  | case2 a => cases hp
  | case3 k v t ih =>
    obtain ⟨kvs', hkvs, rfl⟩ := Option.map_eq_some_iff.mp hp
    intro kv hkv
    rcases List.mem_cons.mp hkv with rfl | hkv
    · exact storable_cstr e (h k (by simp)) (h v (by simp))
    · exact ih (fun a ha => h a (by simp [ha])) hkvs kv hkv

section Decode

variable {argv : List Bytes} (h : ∀ a, a ∈ argv → a.length ≤ n)
include h

lemma length_getD_le (i : ℕ) : (argv.getD i []).length ≤ n := by
  rw [List.getD_eq_getElem?_getD]
  cases hi : argv[i]? with
  | none => exact Nat.zero_le n
  | some a => exact h a (List.mem_of_getElem? hi)

lemma decodeEngine_sound (e : Engine) (op : Bytes) : (decodeEngine e op argv).Sound n := by
  refine .ite (.of_stores ?_ fun _ _ => id) (.ite (.of_stores ?_ fun _ _ => id) (.ite (.of_stores ?_ fun _ _ => id) ?_))
  · rintro x v ⟨rfl, rfl⟩
    exact storable_storedValue e (length_getD_le h 1) (length_getD_le h 2)
  · intro x v hx
    split at hx
    · exact hx.elim
    · cases hp : pairs argv.tail with
      | none => rw [hp] at hx; exact hx.elim
      | some kvs =>
        rw [hp] at hx
        obtain ⟨rfl, hx⟩ := hx
        exact mem_pairs (fun a ha => h a (List.mem_of_mem_tail ha)) hp x.1 (x.2, v) hx
  · rintro x v ⟨rfl, rfl⟩
    exact storable_cstr e (length_getD_le h 1) (length_getD_le h 2)
  · iterate 6 refine .ite (.of_none (fun _ _ => id) fun _ _ => id) ?_
    refine .ite (.of_stores ?_ fun _ _ => id) ?_
    · rintro x v ⟨rfl, rfl⟩
      exact storable_storedValue e (length_getD_le h 1) (length_getD_le h 3)
    · iterate 2 refine .ite (.of_none (fun _ _ => id) fun _ _ => id) ?_
      exact .of_none (fun _ _ => id) fun _ _ => id

lemma decode_sound : (decode argv).Sound n := by
  refine .ite (.of_none (fun _ _ => id) fun _ _ => id) (.ite (.of_stores ?_ fun _ _ => id) ?_)
  · rintro x v ⟨rfl, rfl⟩
    exact storable_cstr .array (length_getD_le h 1) (length_getD_le h 2)
  · iterate 3 refine .ite (.of_none (fun _ _ => id) fun _ _ => id) ?_
    refine .ite (sound_docset (length_getD_le h 1) _ _) ?_
    refine .ite (.of_none (fun _ _ => id) fun _ _ => id) (.ite (sound_docdel n _ _) (.ite (sound_docdrop n _) ?_))
    iterate 3 refine .ite (.of_none (fun _ _ => id) fun _ _ => id) ?_
    exact decodeEngine_sound h _ _

end Decode

end PocketKv.Store
