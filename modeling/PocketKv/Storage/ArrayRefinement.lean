import PocketKv.Storage.Array
import PocketKv.Storage.HashRefinement

/-!
# The array is a finite map with a capacity
-/

namespace PocketKv.Storage

open Library Resp Function Multiset

variable {m : Store.Table Bytes Bytes} {A B : KvsArray} {n : ℕ} {T S : Multiset LiveSlot} {key : Bytes}

/-- A slot of the table with its key and its value. -/
abbrev LiveSlot := ℕ × Bytes × Bytes

/-- A call of a finite map with a capacity: what it returns, and the map afterwards. -/
def arrayMapCall (m : Store.Table Bytes Bytes) : EngineCall → EngineReply × Store.Table Bytes Bytes
  | .set key value =>
    if (m.lookup (cstr key)).isSome ∨ m.keys.length < kvsArraySize then (.code 0, m.insert (cstr key) (cstr value))
    else (.code (-1), m)
  | .get key => (.value (m.lookup (cstr key)), m)
  | .mod key value =>
    if (m.lookup (cstr key)).isSome then (.code 0, m.insert (cstr key) (cstr value)) else (.code 1, m)
  | .del key => if (m.lookup (cstr key)).isSome then (.code 0, m.erase (cstr key)) else (.code 1, m)
  | .exist key => (.code (if (m.lookup (cstr key)).isSome then 0 else 1), m)

/-- The map after a call. -/
def arrayMapStep (m : Store.Table Bytes Bytes) (c : EngineCall) : Store.Table Bytes Bytes := (arrayMapCall m c).2

/-- The array holds the entries of the map, in the slots `S`. -/
structure ArrayAbs (A : KvsArray) (S : Multiset LiveSlot) (m : Store.Table Bytes Bytes) : Prop where
  index : ∃ mi, Abs A.index mi ∧ Represents Prod.snd (fun e => decimal e.1) (S.map fun e => (e.1, e.2.1)) mi
  values : Represents (fun e => e.2.1) (fun e => e.2.2) S m
  live : ∀ e, e ∈ S → A.table e.1 = ⟨some e.2.1, some e.2.2⟩
  blank : ∀ i, (∀ e, e ∈ S → e.1 ≠ i) → A.table i = {}
  running : A.crashed = false
  slots : S.map Prod.fst + ↑A.freeList = Multiset.range (min A.nextSlot.toNat kvsArraySize)
  /-- `next_slot` has not wrapped around. -/
  next : 0 ≤ A.nextSlot ∧ A.nextSlot < 2 ^ 31
  /-- `total` is the number of keys. -/
  total : A.total = S.card
  cap : A.freeList.length ≤ A.freeCap
  unallocated : A.allocated = false → S = 0

lemma atoi_decimal (h : n < 2 ^ 31) : atoi (decimal n) = n := by
  rw [atoi, atoll_decimal (by omega), Int.bmod_eq_of_le_mul_two (by omega) (by omega)]

lemma printInt_natCast (n : ℕ) : printInt n = decimal n := by
  rw [printInt, if_neg (by omega), Int.natAbs_natCast]

/-! ### The index -/

lemma seeds_rehashStep {h : KvsHash} (hi : h.Inv) (buckets : ℕ) : (rehashStep h buckets).seeds = h.seeds := by
  obtain ⟨-, -, hk0, hk1, hdraws⟩ := rehashStep_spec hi buckets
  rw [KvsHash.seeds, KvsHash.seeded, hk0, hk1, hdraws]
  rfl

lemma Abs.kvsHashGet {h : KvsHash} (ha : Abs h m) (key : Bytes) :
    kvsHashGet h key = ((m.lookup (cstr key)).map cstr, Storage.rehashStep h rehashStepBuckets) := by
  have hvalue : EngineReply.value (Storage.kvsHashGet h key).1 = .value ((m.lookup (cstr key)).map cstr) :=
    (ha.call (c := .get key) rfl).1
  refine Prod.ext (EngineReply.value.inj hvalue) ?_
  obtain ⟨p, hfind, -⟩ := ha.find (cstr key)
  simp only [Storage.kvsHashGet, hfind]

lemma mem_add_singleton {α : Type*} {s : Multiset α} {a b : α} : b ∈ s + {a} ↔ b ∈ s ∨ b = a := by
  rw [Multiset.mem_add, Multiset.mem_singleton]

lemma self_mem_add_singleton {α : Type*} {s : Multiset α} {a : α} : a ∈ s + {a} := mem_add_singleton.mpr (.inr rfl)

lemma allocate_spec (A : KvsArray) : A.allocate.allocated = true ∧ A.allocate.index = A.index ∧
    A.allocate.nextSlot = A.nextSlot ∧ A.allocate.freeList = A.freeList := by
  unfold KvsArray.allocate
  split
  · rename_i halloc
    exact ⟨halloc, rfl, rfl, rfl⟩
  · exact ⟨rfl, rfl, rfl, rfl⟩

namespace ArrayAbs

variable {e : LiveSlot}

lemma nodup_slots (h : ArrayAbs A S m) : (S.map Prod.fst + ↑A.freeList).Nodup := by
  rw [h.slots]
  exact nodup_range _

lemma slot_lt (h : ArrayAbs A S m) (he : e ∈ S) : e.1 < kvsArraySize := by
  have hmem : e.1 ∈ Multiset.range (min A.nextSlot.toNat kvsArraySize) := by
    rw [← h.slots]
    exact Multiset.mem_add.mpr (.inl (mem_map_of_mem Prod.fst he))
  exact (Multiset.mem_range.mp hmem).trans_le (min_le_right _ _)

/-- The array after a lookup: the index may have rehashed. -/
def touched (A : KvsArray) : KvsArray := { A with index := rehashStep A.index rehashStepBuckets }

section

variable (h : ArrayAbs A S m)
include h

lemma touch : ArrayAbs (touched A) S m := by
  obtain ⟨mi, habs, hrep⟩ := h.index
  exact { h with index := ⟨mi, habs.rehashStep, hrep⟩ }

lemma seeds_touched : (touched A).index.seeds = A.index.seeds := by
  obtain ⟨mi, habs, -⟩ := h.index
  exact seeds_rehashStep habs.inv rehashStepBuckets

lemma find_slot (key : Bytes) :
    ∃ e : Option LiveSlot, (∀ x, e = some x → x ∈ S ∧ x.2.1 = cstr key) ∧
      findSlot A key = (e.map Prod.fst, touched A) ∧ m.lookup (cstr key) = e.map (·.2.2) := by
  obtain ⟨mi, habs, hrep⟩ := h.index
  by_cases hmem : ∃ e, e ∈ S ∧ e.2.1 = cstr key
  · obtain ⟨e, he, hkey⟩ := hmem
    have hindex : mi.lookup (cstr key) = some (decimal e.1) := by
      rw [← hkey]
      exact hrep.lookup_of_mem (mem_map_of_mem (fun e => (e.1, e.2.1)) he)
    have hlt := h.slot_lt he
    have hatoi : atoi (decimal e.1) = e.1 := atoi_decimal (hlt.trans (by decide))
    refine ⟨some e, ?_, ?_, hkey ▸ h.values.lookup_of_mem he⟩
    · rintro x ⟨⟩
      exact ⟨he, hkey⟩
    · rw [findSlot, habs.kvsHashGet, hindex]
      simp only [Option.map_some, Option.bind_some, cstr_decimal, hatoi]
      rw [if_pos ⟨by omega, by omega⟩, Int.toNat_natCast]
      rfl
  · have hnone : ∀ e, e ∈ S → e.2.1 ≠ cstr key := fun e he heq => hmem ⟨e, he, heq⟩
    have hindex : mi.lookup (cstr key) = none := by
      refine hrep.lookup_of_notMem fun x hx => ?_
      obtain ⟨e, he, rfl⟩ := Multiset.mem_map.mp hx
      exact hnone e he
    refine ⟨none, nofun, ?_, h.values.lookup_of_notMem hnone⟩
    rw [findSlot, habs.kvsHashGet, hindex]
    rfl

lemma find_new (hnew : m.lookup (cstr key) = none) : findSlot A key = (none, touched A) := by
  obtain ⟨e, -, hfind, hl⟩ := h.find_slot key
  obtain rfl : e = none := Option.map_eq_none_iff.mp (hl.symm.trans hnew)
  exact hfind

lemma get (key : Bytes) : kvsArrayGet A key = (m.lookup (cstr key), touched A) := by
  obtain ⟨e, he, hfind, hl⟩ := h.find_slot key
  rw [kvsArrayGet, hfind, hl]
  cases e with
  | none => rfl
  | some e =>
    have hitem : ((touched A).table e.1).value = some e.2.2 := by rw [h.touch.live e (he e rfl).1]
    exact Prod.ext hitem rfl

lemma exist (key : Bytes) : kvsArrayExist A key = (if (m.lookup (cstr key)).isSome then 0 else 1, touched A) := by
  obtain ⟨e, -, hfind, hl⟩ := h.find_slot key
  simp only [kvsArrayExist, hfind, hl, Option.isSome_map]

end

lemma slot_ne (h : ArrayAbs A (T + {e}) m) {e' : LiveSlot} (he' : e' ∈ T) : e'.1 ≠ e.1 := by
  have hnodup := Multiset.nodup_add.mp h.nodup_slots
  rw [map_add, map_singleton] at hnodup
  have hdisj := (Multiset.nodup_add.mp hnodup.1).2.2
  intro heq
  have hmem : e'.1 ∈ T.map Prod.fst := mem_map_of_mem Prod.fst he'
  exact Multiset.disjoint_left.mp hdisj hmem (Multiset.mem_singleton.mpr heq)

lemma overwrite (h : ArrayAbs A (T + {e}) m) (value : Bytes) :
    ArrayAbs (A.setItem e.1 { A.table e.1 with value := some value }) (T + {(e.1, e.2.1, value)})
      (m.insert e.2.1 value) where
  index := by
    obtain ⟨mi, habs, hrep⟩ := h.index
    refine ⟨mi, habs, ?_⟩
    rw [map_add, map_singleton] at hrep ⊢
    exact hrep
  values := h.values.replace (add_right_comm T _ _) self_mem_add_singleton rfl
  live := by
    intro e' he'
    rcases mem_add_singleton.mp he' with he' | rfl
    · exact (update_of_ne (h.slot_ne he') ..).trans (h.live e' (mem_add_singleton.mpr (.inl he')))
    · refine (update_self ..).trans ?_
      rw [h.live e self_mem_add_singleton]
  blank := by
    intro i hi
    have hne : i ≠ e.1 := fun heq => hi _ self_mem_add_singleton heq.symm
    refine (update_of_ne hne ..).trans (h.blank i fun e' he' => ?_)
    rcases mem_add_singleton.mp he' with he' | rfl
    · exact hi e' (mem_add_singleton.mpr (.inl he'))
    · exact hne.symm
  slots := by
    refine Eq.trans ?_ h.slots
    rw [map_add, map_add]
    rfl
  running := h.running
  next := h.next
  total := by
    refine h.total.trans ?_
    rw [card_add, card_add]
    rfl
  cap := h.cap
  unallocated := by
    intro hnot
    have hzero := (add_eq_zero.mp (h.unallocated hnot)).2
    exact absurd hzero (singleton_ne_zero e)

lemma exists_add_of_mem (he : e ∈ S) : ∃ T, S = T + {e} := by
  obtain ⟨T, rfl⟩ := exists_cons_of_mem he
  exact ⟨T, by rw [add_comm, singleton_add]⟩

section

variable (h : ArrayAbs A S m)
include h

lemma mod (key value : Bytes) :
    EngineReply.code (kvsArrayMod A key value).1 = (arrayMapCall m (.mod key value)).1 ∧
      ∃ S', ArrayAbs (kvsArrayMod A key value).2 S' (arrayMapStep m (.mod key value)) := by
  rw [kvsArrayMod, arrayMapStep, arrayMapCall]
  obtain ⟨e, he, hfind, hl⟩ := h.find_slot key
  rw [hfind, hl]
  cases e with
  | none => exact ⟨rfl, S, h.touch⟩
  | some e =>
    obtain ⟨he, hkey⟩ := he e rfl
    obtain ⟨T, rfl⟩ := exists_add_of_mem he
    rw [← hkey]
    exact ⟨rfl, _, h.touch.overwrite (cstr value)⟩

lemma store (hs : A.index.seeds = true) (hnew : m.lookup (cstr key) = none) (value : Bytes) (halloc : A.allocated = true)
    {slot : ℕ} {rest : List ℕ} {next : ℤ} (hcap : rest.length ≤ A.freeCap) (hnext : 0 ≤ next ∧ next < 2 ^ 31)
    (hslots : S.map Prod.fst + {slot} + ↑rest = Multiset.range (min next.toNat kvsArraySize)) :
    let stored := storeAt { A with freeList := rest, nextSlot := next } slot key value
    stored.1 = some 0 ∧ ArrayAbs stored.2 (S + {(slot, cstr key, cstr value)}) (m.insert (cstr key) (cstr value)) := by
  have hnone : ∀ e, e ∈ S → e.2.1 ≠ cstr key := by
    intro e he hkey
    rw [← hkey, h.values.lookup_of_mem he] at hnew
    cases hnew
  have hnodup : (S.map Prod.fst + {slot}).Nodup := by
    refine (Multiset.nodup_add.mp ?_ : _ ∧ (rest : Multiset ℕ).Nodup ∧ _).1
    rw [hslots]
    exact nodup_range _
  have hne : ∀ e, e ∈ S → e.1 ≠ slot := fun e he heq => Multiset.disjoint_left.mp (Multiset.nodup_add.mp hnodup).2.2
    (mem_map_of_mem Prod.fst he) (Multiset.mem_singleton.mpr heq)
  have hlt : slot < kvsArraySize := by
    have hmem : slot ∈ Multiset.range (min next.toNat kvsArraySize) := by
      rw [← hslots]
      exact Multiset.mem_add.mpr (.inl self_mem_add_singleton)
    exact (Multiset.mem_range.mp hmem).trans_le (min_le_right _ _)
  have hcard : S.card < kvsArraySize := by
    have hle := congrArg Multiset.card hslots
    simp only [card_add, card_map, card_singleton, coe_card, card_range] at hle
    omega
  intro stored
  have hstored : stored = _ := if_neg (by omega)
  rw [hstored, Int.toNat_natCast]
  refine ⟨rfl, ?_, h.values.insert (a := (slot, cstr key, cstr value)) hnone, ?_, ?_, h.running, ?_, hnext, ?_, hcap,
    fun hnot => absurd (halloc.symm.trans hnot) Bool.true_eq_false.mp⟩
  · obtain ⟨mi, habs, hrep⟩ := h.index
    refine ⟨mi.insert (cstr key) (decimal slot), ?_, ?_⟩
    · change Abs (kvsHashSet A.index key (printInt slot)).2 _
      rw [kvsHashSet, printInt_natCast, cstr_decimal]
      exact (habs.setBytes hs (cstr key) (decimal slot)).2
    · rw [Multiset.map_add, map_singleton]
      refine hrep.insert (a := (slot, cstr key)) fun x hx => ?_
      obtain ⟨e, he, rfl⟩ := Multiset.mem_map.mp hx
      exact hnone e he
  · intro e he
    rcases mem_add_singleton.mp he with he | rfl
    · exact (update_of_ne (hne e he) ..).trans (h.live e he)
    · exact update_self ..
  · intro i hi
    have hi' : i ≠ slot := fun heq => hi _ self_mem_add_singleton heq.symm
    exact (update_of_ne hi' ..).trans (h.blank i fun e he => hi e (mem_add_singleton.mpr (.inl he)))
  · refine Eq.trans ?_ hslots
    rw [Multiset.map_add, map_singleton]
    rfl
  · change wrap32 (A.total + 1) = _
    have hsize : kvsArraySize < 2 ^ 31 := by decide
    rw [h.total, card_add, card_singleton, wrap32, Int.bmod_eq_of_le_mul_two (by omega) (by omega)]
    rfl

lemma full_iff : kvsArraySize ≤ m.keys.length ↔ A.freeList = [] ∧ kvsArraySize ≤ A.nextSlot := by
  have hcard := congrArg Multiset.card h.slots
  simp only [card_add, card_map, coe_card, card_range] at hcard
  have hnext := h.next.1
  rw [← h.values.card, ← List.length_eq_zero_iff]
  omega

lemma advance (hnext : A.nextSlot < 2 ^ 31 - 1) (hfull : kvsArraySize ≤ A.nextSlot) :
    ArrayAbs { A with nextSlot := wrap32 (A.nextSlot + 1) } S m := by
  have hpos := h.next.1
  have hwrap : wrap32 (A.nextSlot + 1) = A.nextSlot + 1 := wrap32_of_mem (by omega) (by omega)
  have hmin : min (A.nextSlot + 1).toNat kvsArraySize = min A.nextSlot.toNat kvsArraySize := by omega
  rw [hwrap]
  refine { h with slots := ?_, next := ?_ }
  · rw [hmin]
    exact h.slots
  · change 0 ≤ A.nextSlot + 1 ∧ A.nextSlot + 1 < 2 ^ 31
    omega

end

lemma storeNew_cons {slot : ℕ} {rest : List ℕ} (hfree : A.freeList = slot :: rest) (key value : Bytes) :
    Storage.storeNew A key value = storeAt { A with freeList := rest } slot key value := by
  obtain ⟨table, allocated, total, nextSlot, crashed, freeList, freeCap, index⟩ := A
  subst hfree
  rfl

lemma storeNew_nil (hfree : A.freeList = []) (key value : Bytes) :
    Storage.storeNew A key value =
      if kvsArraySize ≤ A.nextSlot then (some (-1), { A with nextSlot := wrap32 (A.nextSlot + 1) })
      else storeAt { A with nextSlot := wrap32 (A.nextSlot + 1) } A.nextSlot key value := by
  obtain ⟨table, allocated, total, nextSlot, crashed, freeList, freeCap, index⟩ := A
  subst hfree
  rfl

lemma storeNew_counts (hfree : A.freeList = []) (key value : Bytes) :
    (Storage.storeNew A key value).2.nextSlot = wrap32 (A.nextSlot + 1) ∧
      (Storage.storeNew A key value).2.freeList = [] := by
  rw [storeNew_nil hfree]
  unfold storeAt
  split_ifs <;> exact ⟨rfl, hfree⟩

lemma slots_next (h : ArrayAbs A S m) (hn : A.nextSlot = n) (hfree : A.freeList = [])
    (hlt : n < kvsArraySize) :
    S.map Prod.fst + {n} + ↑A.freeList = Multiset.range (min ((n : ℤ) + 1).toNat kvsArraySize) := by
  have hslots := h.slots
  rw [hfree, hn, Int.toNat_natCast, coe_nil, add_zero, min_eq_left hlt.le] at hslots
  have hmin : min ((n : ℤ) + 1).toNat kvsArraySize = n + 1 := by omega
  rw [hmin, hfree, hslots, range_succ, coe_nil, add_zero, add_comm, singleton_add]

lemma storeNew (h : ArrayAbs A S m) (hs : A.index.seeds = true) (halloc : A.allocated = true)
    (hnext : A.nextSlot < 2 ^ 31 - 1 ∨ A.freeList ≠ []) (hnew : m.lookup (cstr key) = none) (value : Bytes) :
    (Storage.storeNew A key value).1 = some (if m.keys.length < kvsArraySize then 0 else -1) ∧
      ∃ S', ArrayAbs (Storage.storeNew A key value).2 S'
        (if m.keys.length < kvsArraySize then m.insert (cstr key) (cstr value) else m) := by
  have hfull := h.full_iff
  have hpos := h.next.1
  cases hfree : A.freeList with
  | cons slot rest =>
    have hroom : m.keys.length < kvsArraySize := by
      by_contra hge
      have hnil := (hfull.mp (not_lt.mp hge)).1
      rw [hfree] at hnil
      cases hnil
    rw [if_pos hroom, if_pos hroom, storeNew_cons hfree]
    have hcap : rest.length ≤ A.freeCap := by
      have hle := h.cap
      rw [hfree, List.length_cons] at hle
      omega
    have hslots : S.map Prod.fst + {slot} + ↑rest = Multiset.range (min A.nextSlot.toNat kvsArraySize) := by
      rw [← h.slots, hfree, ← cons_coe, ← singleton_add, add_assoc]
    obtain ⟨hcode, habs⟩ := h.store hs hnew value halloc hcap h.next hslots
    exact ⟨hcode, _, habs⟩
  | nil =>
    have hlt : A.nextSlot < 2 ^ 31 - 1 := hnext.resolve_right fun hne => hne hfree
    rw [storeNew_nil hfree]
    by_cases hge : kvsArraySize ≤ A.nextSlot
    · have hroom : ¬ m.keys.length < kvsArraySize := not_lt.mpr (hfull.mpr ⟨hfree, hge⟩)
      rw [if_neg hroom, if_neg hroom, if_pos hge]
      exact ⟨rfl, S, h.advance hlt hge⟩
    · have hroom : m.keys.length < kvsArraySize := by
        by_contra hfullm
        exact hge (hfull.mp (not_lt.mp hfullm)).2
      obtain ⟨n, hn⟩ := Int.eq_ofNat_of_zero_le hpos
      have hwrap : wrap32 (A.nextSlot + 1) = (n : ℤ) + 1 := by
        rw [hn]
        exact wrap32_of_mem (by omega) (by omega)
      have hslots := h.slots_next hn hfree (by omega)
      rw [if_pos hroom, if_pos hroom, if_neg hge, hwrap, hn]
      obtain ⟨hcode, habs⟩ := h.store hs hnew value halloc h.cap (by omega) hslots
      exact ⟨hcode, _, habs⟩

lemma allocate (h : ArrayAbs A S m) : ArrayAbs A.allocate S m := by
  unfold KvsArray.allocate
  split
  · exact h
  · rename_i hnot
    obtain rfl := h.unallocated (Bool.eq_false_iff.mpr hnot)
    exact { h with
      live := fun e he => absurd he (notMem_zero e)
      blank := fun _ _ => rfl
      unallocated := fun _ => rfl }

end ArrayAbs

/-- A set neither counts `next_slot` up from `INT_MAX` nor hashes the key under a seed that does not stay. -/
def KvsArray.Fits (A : KvsArray) : EngineCall → Prop
  | .set key _ => A.index.seeds = true ∧ (A.nextSlot < 2 ^ 31 - 1 ∨ A.freeList ≠ [] ∨ (kvsArrayExist A key).1 = 0)
  | _ => True

namespace ArrayAbs

variable {e : LiveSlot}

lemma set (h : ArrayAbs A S m) (key value : Bytes) (hfits : A.Fits (.set key value)) :
    (kvsArraySet A key value).1.elim .fault .code = (arrayMapCall m (.set key value)).1 ∧
      ∃ S', ArrayAbs (kvsArraySet A key value).2 S' (arrayMapStep m (.set key value)) := by
  obtain ⟨hs, hnext⟩ := hfits
  rw [h.exist] at hnext
  have ha := h.allocate
  obtain ⟨halloc, hindex, hslot, hfree⟩ := allocate_spec A
  rw [← hindex] at hs
  rw [← hslot, ← hfree] at hnext
  rw [kvsArraySet, arrayMapStep, arrayMapCall]
  clear hindex hslot hfree h
  generalize A.allocate = A at ha hs hnext halloc
  cases hl : m.lookup (cstr key) with
  | some v =>
    obtain ⟨e, -, hfind, he⟩ := ha.find_slot key
    obtain ⟨e, rfl, -⟩ := Option.map_eq_some_iff.mp (he.symm.trans hl)
    have hmod := ha.touch.mod key value
    rw [arrayMapStep, arrayMapCall, hl] at hmod
    rw [hfind]
    exact hmod
  | none =>
    have hnext' : (touched A).nextSlot < 2 ^ 31 - 1 ∨ (touched A).freeList ≠ [] := by
      rw [hl] at hnext
      exact hnext.imp_right fun hor => hor.resolve_right nofun
    have hs' : (touched A).index.seeds = true := ha.seeds_touched.trans hs
    obtain ⟨hcode, S', habs⟩ := ha.touch.storeNew hs' halloc hnext' hl value
    rw [ha.find_new hl]
    simp only [Option.isSome_none, Bool.false_eq_true, false_or]
    split_ifs at hcode habs ⊢
    all_goals exact ⟨congrArg (·.elim EngineReply.fault .code) hcode, S', habs⟩

lemma pushFree_eq (A : KvsArray) (hcap : A.freeList.length ≤ A.freeCap) (slot : ℕ) :
    ∃ freeCap, A.freeList.length < freeCap ∧
      A.pushFree slot = { A with freeCap := freeCap, freeList := slot :: A.freeList } := by
  have hroom : A.freeList.length <
      (if A.freeList.length = A.freeCap then (if A.freeCap = 0 then 16 else A.freeCap * 2) else A.freeCap) := by
    split
    · split <;> omega
    · omega
  exact ⟨_, hroom, by rw [KvsArray.pushFree]; simp only [hroom, if_true]⟩

lemma remove (h : ArrayAbs A (T + {e}) m) (hkey : e.2.1 = cstr key) {freeCap : ℕ}
    (hroom : A.freeList.length < freeCap) :
    ArrayAbs { A with
        table := update A.table e.1 {}
        index := (kvsHashDel A.index key).2
        total := A.total - 1
        freeList := e.1 :: A.freeList
        freeCap := freeCap } T (m.erase (cstr key)) where
  index := by
    obtain ⟨mi, habs, hrep⟩ := h.index
    rw [map_add, map_singleton] at hrep
    have hlookup : (mi.lookup (cstr key)).isSome = true := by
      rw [← hkey, hrep.lookup_of_mem (a := (e.1, e.2.1)) self_mem_add_singleton]
      rfl
    have hdel : Abs (kvsHashDel A.index key).2 (mapCall mi (.del key)).2 := (habs.call (c := .del key) rfl).2
    rw [mapCall, if_pos hlookup] at hdel
    exact ⟨_, hdel, hkey ▸ hrep.erase⟩
  values := hkey ▸ h.values.erase
  live := fun e' he' => (update_of_ne (h.slot_ne he') ..).trans (h.live e' (mem_add_singleton.mpr (.inl he')))
  blank := by
    intro i hi
    rcases eq_or_ne i e.1 with rfl | hne
    · exact update_self ..
    · refine (update_of_ne hne ..).trans (h.blank i fun e' he' => ?_)
      rcases mem_add_singleton.mp he' with he' | rfl
      · exact hi e' he'
      · exact hne.symm
  running := h.running
  slots := by
    have hslots := h.slots
    rwa [map_add, map_singleton, add_assoc, singleton_add, cons_coe] at hslots
  next := h.next
  total := by
    rw [h.total, card_add, card_singleton]
    push_cast
    omega
  cap := hroom
  unallocated := fun hnot => absurd (add_eq_zero.mp (h.unallocated hnot)).2 (singleton_ne_zero e)

lemma del (h : ArrayAbs A S m) (key : Bytes) :
    EngineReply.code (kvsArrayDel A key).1 = (arrayMapCall m (.del key)).1 ∧
      ∃ S', ArrayAbs (kvsArrayDel A key).2 S' (arrayMapStep m (.del key)) := by
  rw [kvsArrayDel, arrayMapStep, arrayMapCall]
  obtain ⟨e, he, hfind, hl⟩ := h.find_slot key
  rw [hfind, hl]
  cases e with
  | none => exact ⟨rfl, S, h.touch⟩
  | some e =>
    obtain ⟨he, hkey⟩ := he e rfl
    obtain ⟨T, rfl⟩ := exists_add_of_mem he
    have ht := h.touch
    have htotal : 0 < (touched A).total := by
      rw [ht.total, card_add, card_singleton]
      omega
    obtain ⟨freeCap, hroom, hpush⟩ := pushFree_eq
      { (touched A).setItem e.1 {} with total := (touched A).total - 1 } ht.cap e.1
    simp only [Option.map_some, htotal, if_true, hpush]
    exact ⟨rfl, T, ht.remove hkey hroom⟩

lemma call (h : ArrayAbs A S m) {c : EngineCall} (hfits : A.Fits c) :
    (A.call c).1 = (arrayMapCall m c).1 ∧ ∃ S', ArrayAbs (A.call c).2 S' (arrayMapCall m c).2 := by
  unfold KvsArray.call
  rw [if_neg (by simp [h.running])]
  cases c with
  | set key value => exact h.set key value hfits
  | get key =>
    simp only [h.get]
    exact ⟨rfl, S, h.touch⟩
  | mod key value => exact h.mod key value
  | del key => exact h.del key
  | exist key =>
    simp only [h.exist]
    exact ⟨rfl, S, h.touch⟩

end ArrayAbs

lemma arrayAbs_create (draws : ℕ → UInt64 × UInt64) : ArrayAbs (kvsArrayCreate draws) 0 ∅ where
  index := ⟨∅, abs_create draws, represents_zero⟩
  values := represents_zero
  live := fun e he => absurd he (notMem_zero e)
  blank := fun _ _ => rfl
  running := rfl
  slots := rfl
  next := ⟨le_rfl, by change (0 : ℤ) < 2 ^ 31; norm_num⟩
  total := rfl
  cap := le_rfl
  unallocated := fun _ => rfl

/-! ### The slots -/

/-- What can be seen of the slots. -/
structure ArrayShape (A : KvsArray) (m : Store.Table Bytes Bytes) : Prop where
  found : ∀ key, (findSlot A key).1.isSome = (m.lookup (cstr key)).isSome
  holds : ∀ key slot, (findSlot A key).1 = some slot → slot < kvsArraySize ∧ (A.table slot).key = some (cstr key)
  injective : ∀ key key' slot, (findSlot A key).1 = some slot → (findSlot A key').1 = some slot → cstr key = cstr key'
  free : A.freeList.Nodup ∧ ∀ slot, slot ∈ A.freeList → slot < kvsArraySize ∧ A.table slot = {}
  unused : ∀ slot : ℕ, A.nextSlot ≤ slot → A.table slot = {} ∧ slot ∉ A.freeList
  /-- `total`. -/
  total : A.total = m.keys.length

lemma ArrayAbs.shape (h : ArrayAbs A S m) : ArrayShape A m := by
  have hholds : ∀ key slot, (findSlot A key).1 = some slot →
      slot < kvsArraySize ∧ (A.table slot).key = some (cstr key) := by
    intro key slot hslot
    obtain ⟨e, he, hfind, -⟩ := h.find_slot key
    rw [hfind] at hslot
    obtain ⟨e, rfl, rfl⟩ := Option.map_eq_some_iff.mp hslot
    obtain ⟨he, hkey⟩ := he e rfl
    exact ⟨h.slot_lt he, by rw [h.live e he, hkey]⟩
  have hnodup := Multiset.nodup_add.mp h.nodup_slots
  have hlive : ∀ slot : ℕ, slot ∉ S.map Prod.fst → A.table slot = {} := by
    intro slot hnot
    refine h.blank slot fun e he heq => hnot ?_
    rw [← heq]
    exact mem_map_of_mem Prod.fst he
  have hused : ∀ slot, slot ∈ S.map Prod.fst + ↑A.freeList ↔ slot < min A.nextSlot.toNat kvsArraySize := by
    intro slot
    rw [h.slots, mem_range]
  refine ⟨?_, hholds, ?_, ⟨hnodup.2.1, ?_⟩, ?_, ?_⟩
  · intro key
    obtain ⟨e, -, hfind, hl⟩ := h.find_slot key
    rw [hfind, hl, Option.isSome_map, Option.isSome_map]
  · intro key key' slot hslot hslot'
    have hkey := (hholds key slot hslot).2
    rw [(hholds key' slot hslot').2] at hkey
    exact (Option.some.inj hkey).symm
  · intro slot hslot
    have hlt := (hused slot).mp (Multiset.mem_add.mpr (.inr hslot))
    exact ⟨hlt.trans_le (min_le_right _ _), hlive slot fun hmem => Multiset.disjoint_left.mp hnodup.2.2 hmem hslot⟩
  · intro slot hle
    have hnot : slot ∉ S.map Prod.fst + ↑A.freeList := by
      rw [hused]
      omega
    rw [mem_add, not_or] at hnot
    exact ⟨hlive slot hnot.1, hnot.2⟩
  · rw [h.total, h.values.card]

/-- **The array refines a map with a capacity** in every run in which no set counts `next_slot` up from `INT_MAX`
and the index has a seed other than 0 when a key is hashed. -/
theorem array_engine_refines (draws : ℕ → UInt64 × UInt64) (cs : List EngineCall)
    (hrun : GuardedRun KvsArray.step KvsArray.Fits (kvsArrayCreate draws) cs) :
    answers KvsArray.call (kvsArrayCreate draws) cs = answers arrayMapCall ∅ cs ∧
      ArrayShape (cs.foldl KvsArray.step (kvsArrayCreate draws)) (cs.foldl arrayMapStep ∅) := by
  have hstep : ∀ (A : KvsArray) (m : Store.Table Bytes Bytes) (c : EngineCall), (∃ S, ArrayAbs A S m) → A.Fits c →
      (A.call c).1 = (arrayMapCall m c).1 ∧ ∃ S, ArrayAbs (A.call c).2 S (arrayMapCall m c).2 :=
    fun _ _ _ ⟨_, habs⟩ hfits => habs.call hfits
  obtain ⟨hanswers, S, habs⟩ := answers_eq hstep ⟨0, arrayAbs_create draws⟩ hrun
  exact ⟨hanswers, habs.shape⟩

/-! ### A full array -/

/-- The `i`-th set of a run that fills the array and goes on with a key that finds no room. -/
def fillCall (i : ℕ) : EngineCall := .set (if i < kvsArraySize then decimal i else [120]) [118]

/-- The first `n` of these sets. -/
def fillRun (n : ℕ) : List EngineCall := (List.range n).map fillCall

/-- The engine after `n` of them. -/
structure Filled (n : ℕ) (A : KvsArray) (m : Store.Table Bytes Bytes) : Prop where
  abs : ∃ S, ArrayAbs A S m
  /-- Each one has counted `next_slot` up. -/
  next : A.nextSlot = n
  free : A.freeList = []
  seeds : A.index.seeds = true
  keys : ∀ key, (m.lookup key).isSome = true → ∃ j, j < n ∧ j < kvsArraySize ∧ key = decimal j

lemma cstr_fillKey (n : ℕ) : cstr (if n < kvsArraySize then decimal n else [120]) =
    if n < kvsArraySize then decimal n else [120] := by
  split
  · exact cstr_decimal n
  · decide

lemma ArrayAbs.seeds (h : ArrayAbs A S m) (hkey : (m.lookup key).isSome = true) : A.index.seeds = true := by
  obtain ⟨v, hv⟩ := Option.isSome_iff_exists.mp hkey
  obtain ⟨e, he, -, -⟩ := (h.values.lookup key v).mp hv
  obtain ⟨mi, habs, hrep⟩ := h.index
  have hlookup := hrep.lookup_of_mem (mem_map_of_mem (fun e => (e.1, e.2.1)) he)
  obtain ⟨node, hnode, -, -⟩ := (habs.represents.lookup _ _).mp hlookup
  have hseeded := habs.inv.seeded fun hzero => notMem_zero node (hzero ▸ hnode)
  rw [KvsHash.seeds, hseeded]
  rfl

lemma call_set (h : A.crashed = false) (key value : Bytes) :
    A.call (.set key value) = ((kvsArraySet A key value).1.elim .fault .code, (kvsArraySet A key value).2) := by
  unfold KvsArray.call
  rw [if_neg (by simp [h])]
  rfl

lemma ArrayAbs.set_eq (h : ArrayAbs A S m)
    (hnew : m.lookup (cstr key) = none) (value : Bytes) :
    kvsArraySet A key value = Storage.storeNew (ArrayAbs.touched A.allocate) key value := by
  rw [kvsArraySet, h.allocate.find_new hnew]

namespace Filled

variable (h : Filled n A m)
include h

lemma new : m.lookup (cstr (if n < kvsArraySize then decimal n else [120])) = none := by
  rw [cstr_fillKey]
  by_contra hne
  obtain ⟨j, hjn, hjsize, heq⟩ := h.keys _ (Option.isSome_iff_ne_none.mpr hne)
  split at heq
  · have hval := congrArg digitsVal heq
    rw [digitsVal_decimal, digitsVal_decimal] at hval
    omega
  · have hdigit : isDigit 120 = true := isDigit_decimal (n := j) (heq ▸ List.mem_singleton_self _)
    revert hdigit
    decide

lemma room : m.keys.length < kvsArraySize ↔ n < kvsArraySize := by
  obtain ⟨S, habs⟩ := h.abs
  rw [← not_iff_not, not_lt, not_lt, habs.full_iff, h.next]
  exact ⟨fun hfull => Int.ofNat_le.mp hfull.2, fun hle => ⟨h.free, Int.ofNat_le.mpr hle⟩⟩

lemma map_step : arrayMapStep m (fillCall n) = if n < kvsArraySize then m.insert (decimal n) [118] else m := by
  rw [arrayMapStep, fillCall, arrayMapCall, h.new, cstr_fillKey]
  simp only [Option.isSome_none, Bool.false_eq_true, false_or, h.room]
  split <;> rfl

lemma keys_step (key : Bytes) (hkey : ((arrayMapStep m (fillCall n)).lookup key).isSome = true) :
    ∃ j, j < n + 1 ∧ j < kvsArraySize ∧ key = decimal j := by
  rw [h.map_step] at hkey
  have hold : (m.lookup key).isSome = true → ∃ j, j < n + 1 ∧ j < kvsArraySize ∧ key = decimal j := by
    intro hsome
    obtain ⟨j, hjn, hjsize, heq⟩ := h.keys key hsome
    exact ⟨j, Nat.lt_succ_of_lt hjn, hjsize, heq⟩
  split at hkey
  · rename_i hlt
    rw [lookup_insert_eq] at hkey
    split at hkey
    · rename_i heq
      exact ⟨n, Nat.lt_succ_self n, hlt, heq⟩
    · exact hold hkey
  · exact hold hkey

lemma stored : ∃ key, ((arrayMapStep m (fillCall n)).lookup key).isSome = true := by
  rw [h.map_step]
  split
  · exact ⟨decimal n, by rw [AList.lookup_insert]; rfl⟩
  · rename_i hge
    have hlen : m.keys.length ≠ 0 := by
      have hfull := mt h.room.mp hge
      have hpos : 0 < kvsArraySize := by decide
      omega
    obtain ⟨key, hmem⟩ := List.exists_mem_of_ne_nil m.keys fun hnil => hlen (by rw [hnil]; rfl)
    exact ⟨key, AList.lookup_isSome.mpr (AList.mem_keys.mpr hmem)⟩

lemma set_counts : (A.step (fillCall n)).nextSlot = wrap32 (n + 1) ∧ (A.step (fillCall n)).freeList = [] := by
  obtain ⟨S, habs⟩ := h.abs
  obtain ⟨-, -, hnext, hfree⟩ := allocate_spec A
  rw [KvsArray.step, fillCall, call_set habs.running, habs.set_eq h.new [118], ← h.next, ← hnext]
  exact ArrayAbs.storeNew_counts (A := ArrayAbs.touched A.allocate) (hfree.trans h.free) _ _

lemma fits (hn : n < 2 ^ 31 - 1) : A.Fits (fillCall n) := by
  refine ⟨h.seeds, .inl ?_⟩
  rw [h.next]
  omega

lemma step (hn : n < 2 ^ 31 - 1) : Filled (n + 1) (A.step (fillCall n)) (arrayMapStep m (fillCall n)) := by
  obtain ⟨S, habs⟩ := h.abs
  obtain ⟨-, S', habs'⟩ := habs.call (h.fits hn)
  obtain ⟨key, hkey⟩ := h.stored
  refine ⟨⟨S', habs'⟩, ?_, h.set_counts.2, ArrayAbs.seeds habs' hkey, h.keys_step⟩
  rw [h.set_counts.1]
  exact wrap32_of_mem (by omega) (by omega)

end Filled

lemma filled_fillRun {draws : ℕ → UInt64 × UInt64} (hseeds : (kvsArrayCreate draws).index.seeds = true)
    (hn : n ≤ 2 ^ 31 - 1) :
    GuardedRun KvsArray.step KvsArray.Fits (kvsArrayCreate draws) (fillRun n) ∧
      Filled n ((fillRun n).foldl KvsArray.step (kvsArrayCreate draws)) ((fillRun n).foldl arrayMapStep ∅) := by
  induction n with
  | zero =>
    refine ⟨trivial, ⟨0, arrayAbs_create draws⟩, rfl, rfl, hseeds, ?_⟩
    intro key hkey
    have hnone : ((∅ : Store.Table Bytes Bytes).lookup key).isSome = false := by
      rw [AList.lookup_empty]
      rfl
    exact absurd (hnone.symm.trans hkey) Bool.false_ne_true
  | succ n ih =>
    obtain ⟨hrun, hfilled⟩ := ih (by omega)
    have hsucc : fillRun (n + 1) = fillRun n ++ [fillCall n] := by
      rw [fillRun, List.range_succ, List.map_append]
      rfl
    rw [hsucc, List.foldl_append, List.foldl_append]
    exact ⟨hrun.append ⟨hfilled.fits (by omega), trivial⟩, hfilled.step (by omega)⟩

theorem array_engine_refines_three :
    let cs := fillRun 3
    GuardedRun KvsArray.step KvsArray.Fits (kvsArrayCreate fun _ => (1, 2)) cs ∧
      answers KvsArray.call (kvsArrayCreate fun _ => (1, 2)) cs = answers arrayMapCall ∅ cs ∧
      ArrayShape (cs.foldl KvsArray.step (kvsArrayCreate fun _ => (1, 2))) (cs.foldl arrayMapStep ∅) := by
  intro cs
  have hseeds : (kvsArrayCreate fun _ => (1, 2)).index.seeds = true := by decide
  have hrun := (filled_fillRun hseeds (by decide : 3 ≤ 2 ^ 31 - 1)).1
  exact ⟨hrun, array_engine_refines (fun _ => (1, 2)) cs hrun⟩

lemma Filled.refused_new (h : Filled n A m) (hn : kvsArraySize ≤ n) : m.lookup (cstr [120]) = none := by
  have hnone := h.new
  rwa [if_neg (not_lt.mpr hn)] at hnone

lemma Filled.overflow (h : Filled n A m) (hn : n = 2 ^ 31 - 1) :
    (A.call (.set [120] [118])).1 = .code (-1) ∧
      ((A.step (.set [120] [118])).call (.set [120] [118])).1 = .fault := by
  obtain ⟨S, habs⟩ := h.abs
  have hsize : kvsArraySize < 2 ^ 31 - 1 := by decide
  have hnew := h.refused_new (by omega)
  have hB := habs.allocate.touch
  obtain ⟨hnext, hfree, halloc⟩ : (ArrayAbs.touched A.allocate).nextSlot = n ∧
      (ArrayAbs.touched A.allocate).freeList = [] ∧ (ArrayAbs.touched A.allocate).allocated = true := by
    obtain ⟨halloc, -, hnext, hfree⟩ := allocate_spec A
    exact ⟨hnext.trans h.next, hfree.trans h.free, halloc⟩
  have hset := habs.set_eq hnew [118]
  generalize ArrayAbs.touched A.allocate = B at hB hnext hfree halloc hset
  have hwrap : wrap32 (B.nextSlot + 1) = -2 ^ 31 := by
    rw [hnext, hn]
    decide
  rw [ArrayAbs.storeNew_nil hfree, if_pos (by omega), hwrap] at hset
  have hcall : A.call (.set [120] [118]) = (.code (-1), { B with nextSlot := -2 ^ 31 }) := by
    rw [call_set habs.running, hset]
    rfl
  have hstep : A.step (.set [120] [118]) = { B with nextSlot := -2 ^ 31 } := congrArg Prod.snd hcall
  have hfind : findSlot { B with nextSlot := -2 ^ 31 } [120] = (none, { ArrayAbs.touched B with nextSlot := -2 ^ 31 }) := by
    have hslot : (findSlot B [120]).1 = none := congrArg Prod.fst (hB.find_new hnew)
    have hafter : (findSlot B [120]).2 = ArrayAbs.touched B := congrArg Prod.snd (hB.find_new hnew)
    rw [← hslot, ← hafter]
    rfl
  have hall : KvsArray.allocate { B with nextSlot := -2 ^ 31 } = { B with nextSlot := -2 ^ 31 } := if_pos halloc
  have hsecond : kvsArraySet { B with nextSlot := -2 ^ 31 } [120] [118] =
      Storage.storeNew { ArrayAbs.touched B with nextSlot := -2 ^ 31 } [120] [118] := by
    rw [kvsArraySet, hall, hfind]
  refine ⟨congrArg Prod.fst hcall, ?_⟩
  have hfree' : ({ ArrayAbs.touched B with nextSlot := -2 ^ 31 } : KvsArray).freeList = [] := hfree
  rw [hstep, call_set (A := { B with nextSlot := -2 ^ 31 }) hB.running, hsecond, ArrayAbs.storeNew_nil hfree',
    if_neg (by dsimp only; omega), storeAt, if_pos (by dsimp only; omega)]
  rfl

lemma Filled.refused (h : Filled n A m) (hn : n = 2 ^ 31 - 1) :
    kvsArraySize ≤ m.keys.length ∧
      answers arrayMapCall m [.set [120] [118], .set [120] [118]] = [.code (-1), .code (-1)] ∧
      answers KvsArray.call A [.set [120] [118], .set [120] [118]] = [.code (-1), .fault] := by
  have hsize : kvsArraySize < 2 ^ 31 - 1 := by decide
  have hfull : ¬ m.keys.length < kvsArraySize := fun hlt => absurd (h.room.mp hlt) (by omega)
  have hnew := h.refused_new (by omega)
  have hmap : arrayMapCall m (.set [120] [118]) = (.code (-1), m) := by
    rw [arrayMapCall, hnew, if_neg fun hor => hor.elim (fun hsome => Bool.false_ne_true hsome) hfull]
  obtain ⟨hfirst, hsecond⟩ := h.overflow hn
  refine ⟨not_lt.mp hfull, ?_, ?_⟩
  · rw [answers, answers, answers, hmap, hmap]
  · rw [answers, answers, answers, hfirst]
    exact congrArg (fun x => [.code (-1), x]) hsecond

/-- After `2 ^ 31` sets, of which `KVS_ARRAY_SIZE` stored a key, the next one is not refused: it writes to a slot
outside the table, and does not return. -/
theorem full_array_faults :
    let A := (fillRun (2 ^ 31 - 1)).foldl KvsArray.step (kvsArrayCreate fun _ => (1, 2))
    let m := (fillRun (2 ^ 31 - 1)).foldl arrayMapStep ∅
    kvsArraySize ≤ m.keys.length ∧
      answers arrayMapCall m [.set [120] [118], .set [120] [118]] = [.code (-1), .code (-1)] ∧
      answers KvsArray.call A [.set [120] [118], .set [120] [118]] = [.code (-1), .fault] := by
  intro A m
  have hseeds : (kvsArrayCreate fun _ => (1, 2)).index.seeds = true := by decide
  have hfilled := (filled_fillRun hseeds le_rfl).2
  exact hfilled.refused rfl

end PocketKv.Storage
