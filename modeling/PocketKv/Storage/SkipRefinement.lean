import PocketKv.Library.Chains
import PocketKv.Library.Run
import PocketKv.Storage.SkipLevels
import PocketKv.Store.Engines

/-!
# The skip list is a finite map
-/

namespace PocketKv.Storage

open Library Library.Links Resp List Function

/-- What a call does to a finite map, and what it returns. Without memory nothing is stored. -/
def skipMapCall (m : Store.Table Bytes Bytes) : SkipCall → EngineReply × Store.Table Bytes Bytes
  | .set key value _ alloc => if alloc then (.code 0, m.insert key value) else (.code (-2), m)
  | .mod key value alloc =>
    if (m.lookup key).isSome then if alloc then (.code 0, m.insert key value) else (.code (-2), m) else (.code 1, m)
  | .del key => if (m.lookup key).isSome then (.code 0, m.erase key) else (.code 1, m)
  | .get key => (.value (m.lookup key), m)
  | .exist key => (.code (if (m.lookup key).isSome then 0 else 1), m)

/-- The map after a call. -/
def skipMapStep (m : Store.Table Bytes Bytes) (c : SkipCall) : Store.Table Bytes Bytes := (skipMapCall m c).2

namespace SkipTable

/-- The key and the value of a node. -/
def entry (T : SkipTable) (a : ℕ) : Bytes × Bytes := ((T.node a).key, (T.node a).value)

/-- The nodes on level `i`, from the header on. -/
def levelList (T : SkipTable) (i : ℕ) : List ℕ := walk (T.forward i) T.fresh skipHeader

/-- The entries on level 0. -/
def entries (T : SkipTable) : List (Bytes × Bytes) := (T.levelList 0).map T.entry

/-- The table has the nodes `xs`, which hold the entries of the map. -/
structure Abs (T : SkipTable) (xs : List ℕ) (m : Store.Table Bytes Bytes) : Prop where
  levels : Levels T xs
  represents : Represents Prod.fst Prod.snd (xs.map T.entry : Multiset (Bytes × Bytes)) m

/-- `inst->level` is the highest level in use, or 0. -/
structure Tight (T : SkipTable) : Prop where
  used : T.level = 0 ∨ T.levelList T.level ≠ []
  above : ∀ i, T.level < i → i ≤ kvsSkiplistMaxLevel → T.levelList i = []

/-- The table as `kvs_skiptable_set` raises its level for a new node. -/
def raised (T : SkipTable) (rand : ℕ → ℕ) : SkipTable := { T with level := max T.level (randomLevel rand) }

variable {T : SkipTable} {xs : List ℕ} {m : Store.Table Bytes Bytes} {a level : ℕ} {key value : Bytes}

namespace Abs

lemma search (h : Abs T xs m) (key : Bytes) :
    (∃ a, a ∈ xs ∧ (T.node a).key = key ∧ (skiptableSearchNode T key).1 = some a ∧
        m.lookup key = some (T.node a).value) ∨
      ((∀ a, a ∈ xs → (T.node a).key ≠ key) ∧ (skiptableSearchNode T key).1 = none ∧ m.lookup key = none) := by
  rcases h.levels.search_cases key with ⟨a, ha, rfl, hs⟩ | ⟨hnone, hs⟩
  · have hmem : T.entry a ∈ (xs.map T.entry : Multiset (Bytes × Bytes)) := Multiset.mem_coe.mpr (mem_map_of_mem ha)
    exact .inl ⟨a, ha, rfl, hs, h.represents.lookup_of_mem hmem⟩
  · refine .inr ⟨hnone, hs, h.represents.lookup_of_notMem fun e he => ?_⟩
    obtain ⟨a, ha, rfl⟩ := mem_map.mp (Multiset.mem_coe.mp he)
    exact hnone a ha

lemma get (h : Abs T xs m) (key : Bytes) : kvsSkiptableGet T key = m.lookup key := by
  rcases h.search key with ⟨a, -, -, hs, hl⟩ | ⟨-, hs, hl⟩
  · rw [kvsSkiptableGet, hs, hl]
    rfl
  · rw [kvsSkiptableGet, hs, hl]
    rfl

/-- The table with another value at `a`. -/
def overwritten (T : SkipTable) (a : ℕ) (value : Bytes) : SkipTable :=
  { T with node := update T.node a { T.node a with value := value } }

lemma node_overwritten_self (T : SkipTable) (a : ℕ) (value : Bytes) :
    (overwritten T a value).node a = { T.node a with value := value } :=
  update_self ..

lemma node_overwritten_of_ne {b : ℕ} (hb : b ≠ a) (value : Bytes) : (overwritten T a value).node b = T.node b :=
  update_of_ne hb ..

lemma overwritten_eq {α : Type*} (g : SkipNode → α) (T : SkipTable) (a : ℕ) (value : Bytes)
    (hg : g { T.node a with value := value } = g (T.node a)) (b : ℕ) : g ((overwritten T a value).node b) = g (T.node b) := by
  rcases eq_or_ne b a with rfl | hb
  · rw [node_overwritten_self, hg]
  · rw [node_overwritten_of_ne hb]

lemma key_overwritten (T : SkipTable) (a : ℕ) (value : Bytes) (b : ℕ) :
    ((overwritten T a value).node b).key = (T.node b).key :=
  overwritten_eq SkipNode.key T a value rfl b

lemma level_overwritten (T : SkipTable) (a : ℕ) (value : Bytes) (b : ℕ) :
    ((overwritten T a value).node b).level = (T.node b).level :=
  overwritten_eq SkipNode.level T a value rfl b

lemma levels_overwritten (h : Levels T xs) (a : ℕ) (value : Bytes) : Levels (overwritten T a value) xs where
  linked := by
    intro i hi
    have hsame : (overwritten T a value).reaching i xs = T.reaching i xs := by
      simp only [reaching, level_overwritten]
    rw [hsame]
    exact h.linked i hi
  sorted := by
    simp only [key_overwritten]
    exact h.sorted
  header := h.header
  alive := h.alive
  bound := by
    simp only [level_overwritten]
    exact h.bound
  level_le := h.level_le
  count := h.count

variable (h : Abs T xs m)
include h

lemma overwrite (ha : a ∈ xs) (value : Bytes) :
    Abs (overwritten T a value) xs (m.insert (T.node a).key value) := by
  refine ⟨levels_overwritten h.levels a value, ?_⟩
  obtain ⟨us, vs, rfl⟩ := append_of_mem ha
  have hnodup := h.levels.nodup
  rw [nodup_middle, nodup_cons] at hnodup
  have hother : ∀ b, b ∈ us ++ vs → (overwritten T a value).entry b = T.entry b := by
    intro b hb
    have hne : b ≠ a := fun heq => hnodup.1 (heq ▸ hb)
    rw [entry, entry, node_overwritten_of_ne hne]
  have hself : (overwritten T a value).entry a = ((T.node a).key, value) := by
    rw [entry, node_overwritten_self]
  have hus : us.map (overwritten T a value).entry = us.map T.entry :=
    map_congr_left fun b hb => hother b (mem_append_left vs hb)
  have hvs : vs.map (overwritten T a value).entry = vs.map T.entry :=
    map_congr_left fun b hb => hother b (mem_append_right us hb)
  have hmem : T.entry a ∈ ((us ++ a :: vs).map T.entry : Multiset (Bytes × Bytes)) :=
    Multiset.mem_coe.mpr (mem_map_of_mem ha)
  have hswap : ((us ++ a :: vs).map (overwritten T a value).entry : Multiset (Bytes × Bytes)) + {T.entry a} =
      ((us ++ a :: vs).map T.entry : Multiset (Bytes × Bytes)) + {((T.node a).key, value)} := by
    rw [map_append, map_cons, map_append, map_cons, hus, hvs, hself]
    simp only [← Multiset.coe_add, ← Multiset.cons_coe, ← Multiset.singleton_add]
    abel
  exact h.represents.replace hswap hmem rfl

lemma mod (key value : Bytes) (alloc : Bool) :
    EngineReply.code (kvsSkiptableMod T key value alloc).1 = (skipMapCall m (.mod key value alloc)).1 ∧
      Abs (kvsSkiptableMod T key value alloc).2 xs (skipMapStep m (.mod key value alloc)) := by
  rw [skipMapStep, skipMapCall]
  rcases h.search key with ⟨a, ha, rfl, hs, hl⟩ | ⟨-, hs, hl⟩
  · rw [kvsSkiptableMod, hs, hl]
    cases alloc with
    | true => exact ⟨rfl, h.overwrite ha value⟩
    | false => exact ⟨rfl, h⟩
  · rw [kvsSkiptableMod, hs, hl]
    exact ⟨rfl, h⟩

lemma raise (rand : ℕ → ℕ) : Abs (T.raised rand) xs m where
  levels :=
    { h.levels with
      bound := fun a ha => (h.levels.bound a ha).trans (le_max_left _ _)
      level_le := max_le h.levels.level_le (randomLevel_le rand) }
  represents := h.represents

lemma insert (hnone : ∀ a, a ∈ xs → (T.node a).key ≠ key) (hlevel : level ≤ T.level)
    (value : Bytes) : Abs (T.inserted xs key value level) (T.withFresh xs key) (m.insert key value) := by
  refine ⟨h.levels.inserted hnone hlevel, ?_⟩
  have hnew : (T.inserted xs key value level).entry T.fresh = (key, value) := by
    rw [entry, Levels.node_inserted_fresh]
  have hold : ∀ p : ℕ → Bool, (xs.filter p).map (T.inserted xs key value level).entry = (xs.filter p).map T.entry := by
    intro p
    refine map_congr_left fun b hb => ?_
    rw [entry, entry, h.levels.node_inserted (mem_filter.mp hb).1]
  have hlist : ((T.withFresh xs key).map (T.inserted xs key value level).entry : Multiset (Bytes × Bytes)) =
      (xs.map T.entry : Multiset (Bytes × Bytes)) + {(key, value)} := by
    conv_rhs => rw [← (h.levels.split key).append_eq]
    rw [withFresh, map_append, map_cons, map_append, hold, hold, hnew]
    simp only [← Multiset.coe_add, ← Multiset.cons_coe, ← Multiset.singleton_add]
    abel
  rw [hlist]
  refine h.represents.insert (a := (key, value)) fun e he => ?_
  obtain ⟨a, ha, rfl⟩ := mem_map.mp (Multiset.mem_coe.mp he)
  exact hnone a ha

lemma remove (ha : a ∈ xs) : Abs (T.removed xs a) (xs.erase a) (m.erase (T.node a).key) := by
  refine ⟨h.levels.removed ha, ?_⟩
  have hlist : (xs.map T.entry : Multiset (Bytes × Bytes)) = ((xs.erase a).map T.entry : Multiset _) + {T.entry a} := by
    rw [add_comm, Multiset.singleton_add, Multiset.cons_coe]
    exact Multiset.coe_eq_coe.mpr ((perm_cons_erase ha).map T.entry)
  have hrep := h.represents
  rw [hlist] at hrep
  exact hrep.erase

lemma set_new (hnone : ∀ a, a ∈ xs → (T.node a).key ≠ key) (value : Bytes) (rand : ℕ → ℕ)
    (alloc : Bool) :
    kvsSkiptableSet T key value rand alloc =
      if alloc then (0, (T.raised rand).inserted xs key value (randomLevel rand)) else (-2, T.raised rand) := by
  have hraise : (if T.level < randomLevel rand then { T with level := randomLevel rand } else T) = T.raised rand := by
    split
    · rename_i hlt
      rw [raised, max_eq_right hlt.le]
    · rename_i hge
      rw [raised, max_eq_left (not_lt.mp hge)]
  -- At the levels that come into use the header is noted, which is what the search would note there.
  have hupdate : ∀ i, i < randomLevel rand + 1 →
      (if T.level < i ∧ i ≤ randomLevel rand then some skipHeader else (skiptableSearchNode T key).2 i) =
        some (T.noted xs key i) := by
    intro i hi
    split
    · rename_i habove
      rw [h.levels.noted_above habove.1]
    · rename_i hnot
      rw [h.levels.searchNode]
      exact if_pos (by omega)
  rw [kvsSkiptableSet, h.levels.search_missing hnone]
  dsimp only
  rw [hraise]
  cases alloc with
  | false => rfl
  | true =>
    rw [foldl_linkAt _ _ hupdate]
    rfl

lemma del_found (ha : a ∈ xs) : kvsSkiptableDel T (T.node a).key = (0, T.removed xs a) := by
  have hupdate : ∀ j, j ≤ T.level → (skiptableSearchNode T (T.node a).key).2 j = some (T.noted xs (T.node a).key j) := by
    intro j hj
    rw [h.levels.searchNode]
    exact if_pos hj
  have hout : (T.node a).level < T.level →
      T.forward ((T.node a).level + 1) (T.noted xs (T.node a).key ((T.node a).level + 1)) ≠ some a := by
    intro hlt hnext
    rw [h.levels.next_noted _ (hlt.trans_le h.levels.level_le)] at hnext
    have hmem := mem_reaching.mp (mem_filter.mp (mem_of_head? hnext)).1
    omega
  have hloop := unlinkLoop_eq (h.levels.bound a ha) hupdate (Nat.add_zero (T.level + 1)) (Nat.zero_le _)
    (fun j _ hj => h.levels.next_noted_self ha hj) hout
  rw [kvsSkiptableDel, h.levels.search_found ha]
  dsimp only
  rw [hloop]
  simp only [Nat.zero_le, true_and]
  rfl

lemma set (key value : Bytes) (rand : ℕ → ℕ) (alloc : Bool) :
    EngineReply.code (kvsSkiptableSet T key value rand alloc).1 = (skipMapCall m (.set key value rand alloc)).1 ∧
      ∃ xs', Abs (kvsSkiptableSet T key value rand alloc).2 xs' (skipMapStep m (.set key value rand alloc)) := by
  rw [skipMapStep, skipMapCall]
  rcases h.search key with ⟨a, ha, hkey, hs, hl⟩ | ⟨hnone, hs, -⟩
  · have hmod := h.mod key value alloc
    rw [skipMapStep, skipMapCall, hl] at hmod
    have heq : kvsSkiptableSet T key value rand alloc = kvsSkiptableMod T key value alloc := by
      rw [kvsSkiptableSet, hs]
    rw [heq]
    exact ⟨hmod.1, xs, hmod.2⟩
  · rw [h.set_new hnone]
    cases alloc with
    | true => exact ⟨rfl, _, (h.raise rand).insert hnone (le_max_right _ _) value⟩
    | false => exact ⟨rfl, xs, h.raise rand⟩

lemma del (key : Bytes) :
    EngineReply.code (kvsSkiptableDel T key).1 = (skipMapCall m (.del key)).1 ∧
      ∃ xs', Abs (kvsSkiptableDel T key).2 xs' (skipMapStep m (.del key)) := by
  rw [skipMapStep, skipMapCall]
  rcases h.search key with ⟨a, ha, rfl, -, hl⟩ | ⟨-, hs, hl⟩
  · rw [h.del_found ha, hl]
    exact ⟨rfl, _, h.remove ha⟩
  · rw [kvsSkiptableDel, hs, hl]
    exact ⟨rfl, xs, h⟩

lemma exist (key : Bytes) : kvsSkiptableExist T key = if (m.lookup key).isSome then 0 else 1 := by
  rw [kvsSkiptableExist, h.get]

lemma call (c : SkipCall) :
    (T.call c).1 = (skipMapCall m c).1 ∧ ∃ xs', Abs (T.call c).2 xs' (skipMapCall m c).2 := by
  cases c with
  | set key value rand alloc => exact h.set key value rand alloc
  | mod key value alloc =>
    obtain ⟨hcode, habs⟩ := h.mod key value alloc
    exact ⟨hcode, xs, habs⟩
  | del key => exact h.del key
  | get key => exact ⟨congrArg EngineReply.value (h.get key), xs, h⟩
  | exist key => exact ⟨congrArg EngineReply.code (h.exist key), xs, h⟩

/-! ### The highest level -/

lemma levelList_eq {i : ℕ} (hi : i ≤ kvsSkiplistMaxLevel) : T.levelList i = T.reaching i xs :=
  (h.levels.linked i hi).walk (h.levels.length_le i)

lemma entries_eq : T.entries = xs.map T.entry := by
  rw [entries, h.levelList_eq (Nat.zero_le _), reaching_zero]

lemma tight_iff : Tight T ↔ T.level = 0 ∨ ∃ a, a ∈ xs ∧ (T.node a).level = T.level := by
  have hused : T.levelList T.level ≠ [] ↔ ∃ a, a ∈ xs ∧ (T.node a).level = T.level := by
    rw [h.levelList_eq h.levels.level_le]
    constructor
    · intro hne
      obtain ⟨a, hreach⟩ := exists_mem_of_ne_nil _ hne
      obtain ⟨ha, hle⟩ := mem_reaching.mp hreach
      exact ⟨a, ha, le_antisymm (h.levels.bound a ha) hle⟩
    · rintro ⟨a, ha, heq⟩
      exact ne_nil_of_mem (mem_reaching.mpr ⟨ha, heq.ge⟩)
  refine ⟨fun ht => ht.used.imp_right hused.mp, fun ht => ⟨ht.imp_right hused.mpr, fun i hlt hi => ?_⟩⟩
  rw [h.levelList_eq hi, h.levels.reaching_above hlt]

lemma tight_raise (ht : Tight T) (rand : ℕ → ℕ) :
    randomLevel rand ≤ T.level ↔ Tight (T.raised rand) := by
  constructor
  · intro hle
    rw [raised, max_eq_left hle]
    exact ht
  · intro htight
    by_contra hgt
    rw [(h.raise rand).tight_iff, raised, max_eq_right (not_le.mp hgt).le] at htight
    rcases htight with hzero | ⟨a, ha, heq⟩
    · have hz : randomLevel rand = 0 := hzero
      omega
    · have hbound := h.levels.bound a ha
      have hnode : (T.node a).level = randomLevel rand := heq
      omega

lemma tight_insert (ht : Tight T) (hnone : ∀ a, a ∈ xs → (T.node a).key ≠ key) (value : Bytes)
    (rand : ℕ → ℕ) :
    Tight ((T.raised rand).inserted xs key value (randomLevel rand)) := by
  have hraised := h.raise rand
  have hinserted := hraised.insert hnone (le_max_right _ _) value
  rw [hinserted.tight_iff]
  rcases le_or_gt T.level (randomLevel rand) with hle | hlt
  · refine .inr ⟨T.fresh, Levels.mem_withFresh.mpr (.inl rfl), ?_⟩
    rw [show T.fresh = (T.raised rand).fresh from rfl, Levels.node_inserted_fresh]
    exact (max_eq_right hle).symm
  · have hsame : max T.level (randomLevel rand) = T.level := max_eq_left hlt.le
    refine (h.tight_iff.mp ht).imp (fun hzero => ?_) fun ⟨a, ha, heq⟩ => ⟨a, Levels.mem_withFresh.mpr (.inr ha), ?_⟩
    · exact hsame.trans hzero
    · rw [hraised.levels.node_inserted ha]
      exact heq.trans hsame.symm

lemma tight_remove (ha : a ∈ xs) : Tight (T.removed xs a) := by
  have hremoved := h.remove ha
  refine ⟨?_, fun i hlt hi => ?_⟩
  · refine (lowerLevel_spec (fun i => (T.removed xs a).forward i skipHeader) T.level).2.1.imp_right fun hsome => ?_
    rw [hremoved.levelList_eq hremoved.levels.level_le]
    exact (hremoved.levels.linked _ hremoved.levels.level_le).next_ne_none_iff.mp hsome
  · rw [hremoved.levelList_eq hi, hremoved.levels.reaching_above hlt]

lemma tight_overwrite (ha : a ∈ xs) (ht : Tight T) (value : Bytes) : Tight (overwritten T a value) := by
  rw [(h.overwrite ha value).tight_iff]
  simp only [level_overwritten]
  exact h.tight_iff.mp ht

lemma tight_mod (ht : Tight T) (key value : Bytes) (alloc : Bool) :
    Tight (kvsSkiptableMod T key value alloc).2 := by
  rcases h.search key with ⟨a, ha, rfl, hs, -⟩ | ⟨-, hs, -⟩
  · rw [kvsSkiptableMod, hs]
    cases alloc with
    | true => exact h.tight_overwrite ha ht value
    | false => exact ht
  · rw [kvsSkiptableMod, hs]
    exact ht

end Abs

/-- `inst->level` is the highest level in use, and `inst->count` the number of keys. -/
structure Counted (T : SkipTable) : Prop where
  tight : Tight T
  count : T.count = T.entries.length

/-- A new node is not to be higher than the others if it cannot be allocated, and finds less than `INT_MAX`
counted if it can. -/
def Takes (T : SkipTable) : SkipCall → Prop
  | .set key _ rand alloc =>
    kvsSkiptableExist T key = 0 ∨ if alloc then T.count < 2 ^ 31 - 1 else randomLevel rand ≤ T.level
  | _ => True

lemma Abs.count_iff (h : Abs T xs m) : T.count = T.entries.length ↔ xs.length < 2 ^ 31 := by
  rw [h.entries_eq, length_map, h.levels.count, wrap32_natCast_iff]

lemma Abs.counted_mod (h : Abs T xs m) (hT : Counted T) (key value : Bytes) (alloc : Bool) :
    Counted (kvsSkiptableMod T key value alloc).2 :=
  ⟨h.tight_mod hT.tight key value alloc, (h.mod key value alloc).2.count_iff.mpr (h.count_iff.mp hT.count)⟩

lemma Abs.counted_set_new (h : Abs T xs m) (hT : Counted T) (hnone : ∀ a, a ∈ xs → (T.node a).key ≠ key)
    (value : Bytes) (rand : ℕ → ℕ) (alloc : Bool) :
    (if alloc then T.count < 2 ^ 31 - 1 else randomLevel rand ≤ T.level) ↔
      Counted (kvsSkiptableSet T key value rand alloc).2 := by
  have hraised := h.raise rand
  have hlength := h.count_iff.mp hT.count
  rw [h.set_new hnone]
  cases alloc with
  | true =>
    have hcount := (hraised.insert hnone (le_max_right _ _) value).count_iff
    rw [hraised.levels.length_withFresh] at hcount
    have hkeys : T.count = xs.length := h.levels.count.trans (wrap32_natCast_iff.mpr hlength)
    simp only [if_true]
    refine ⟨fun hlt => ⟨h.tight_insert hT.tight hnone value rand, hcount.mpr ?_⟩, fun hnew => ?_⟩
    · omega
    · have hlt := hcount.mp hnew.count
      omega
  | false =>
    simp only [Bool.false_eq_true, if_false]
    rw [h.tight_raise hT.tight rand]
    exact ⟨fun ht => ⟨ht, hraised.count_iff.mpr hlength⟩, Counted.tight⟩

lemma Abs.counted_call (h : Abs T xs m) (hT : Counted T) (c : SkipCall) : T.Takes c ↔ Counted (T.call c).2 := by
  cases c with
  | set key value rand alloc =>
    rw [Takes, h.exist]
    change _ ↔ Counted (kvsSkiptableSet T key value rand alloc).2
    rcases h.search key with ⟨a, ha, hkey, hs, hl⟩ | ⟨hnone, hs, hl⟩
    · have heq : kvsSkiptableSet T key value rand alloc = kvsSkiptableMod T key value alloc := by
        rw [kvsSkiptableSet, hs]
      rw [heq, hl]
      exact iff_of_true (.inl rfl) (h.counted_mod hT key value alloc)
    · rw [← h.counted_set_new hT hnone value rand alloc, hl]
      exact or_iff_right (by decide)
  | mod key value alloc => exact iff_of_true trivial (h.counted_mod hT key value alloc)
  | del key =>
    refine iff_of_true trivial ?_
    change Counted (kvsSkiptableDel T key).2
    rcases h.search key with ⟨a, ha, rfl, -, -⟩ | ⟨-, hs, -⟩
    · rw [h.del_found ha]
      have hlength := h.count_iff.mp hT.count
      have hle : (xs.erase a).length ≤ xs.length := length_erase_le
      exact ⟨h.tight_remove ha, (h.remove ha).count_iff.mpr (by omega)⟩
    · rw [kvsSkiptableDel, hs]
      exact hT
  | get key => exact iff_of_true trivial hT
  | exist key => exact iff_of_true trivial hT

/-! ### What is visited -/

/-- The entries are visited until the callback returns something else than 0. -/
def visit {σ : Type*} (cb : Bytes → Bytes → σ → ℤ × σ) : List (Bytes × Bytes) → σ → ℤ × σ
  | [], s => (0, s)
  | e :: es, s => if (cb e.1 e.2 s).1 ≠ 0 then cb e.1 e.2 s else visit cb es (cb e.1 e.2 s).2

lemma foreachLoop_eq {σ : Type*} (cb : Bytes → Bytes → σ → ℤ × σ) {b : ℕ} {ys : List ℕ}
    (h : Linked (T.forward 0) b ys) {fuel : ℕ} (hfuel : ys.length ≤ fuel) (s : σ) :
    foreachLoop T cb fuel (T.forward 0 b) s = visit cb (ys.map T.entry) s := by
  induction ys generalizing b fuel s with
  | nil =>
    rw [h.next_eq]
    cases fuel <;> rfl
  | cons c ys ih =>
    obtain ⟨fuel, rfl⟩ : ∃ n, fuel = n + 1 := Nat.exists_eq_succ_of_ne_zero (by rw [length_cons] at hfuel; omega)
    have hrest : ∀ s, foreachLoop T cb fuel (T.forward 0 c) s = visit cb (ys.map T.entry) s :=
      ih h.2 (by rw [length_cons] at hfuel; omega)
    rw [h.1, foreachLoop, map_cons, visit]
    simp only [hrest]
    rfl

lemma Abs.foreach {σ : Type*} (h : Abs T xs m) (cb : Bytes → Bytes → σ → ℤ × σ) (s : σ) :
    kvsSkiptableForeach T cb s = visit cb T.entries s := by
  have hlinked := h.levels.linked 0 (Nat.zero_le _)
  have hlength := h.levels.length_le 0
  rw [reaching_zero] at hlinked hlength
  rw [kvsSkiptableForeach, foreachLoop_eq cb hlinked hlength, h.entries_eq]

lemma Abs.sorted_entries (h : Abs T xs m) : Sorted T.entries := by
  rw [h.entries_eq, Sorted, pairwise_map]
  exact h.levels.sorted

lemma Abs.mem_entries (h : Abs T xs m) (key value : Bytes) : m.lookup key = some value ↔ (key, value) ∈ T.entries := by
  rw [h.entries_eq]
  refine (h.represents.lookup key value).trans ⟨?_, fun hmem => ⟨(key, value), hmem, rfl, rfl⟩⟩
  rintro ⟨⟨k, v⟩, hmem, rfl, rfl⟩
  exact hmem

lemma Abs.entries_unique {T' : SkipTable} {xs' : List ℕ} (h : Abs T xs m) (h' : Abs T' xs' m) :
    T.entries = T'.entries := by
  have hsame : ∀ e, e ∈ T.entries ↔ e ∈ T'.entries := by
    rintro ⟨key, value⟩
    rw [← h.mem_entries, ← h'.mem_entries]
  have : Std.Irrefl fun a b : Bytes × Bytes => strcmp a.1 b.1 = .lt := ⟨fun a hlt => by
    rw [strcmp_eq_iff.mpr rfl] at hlt
    cases hlt⟩
  have : Std.Antisymm fun a b : Bytes × Bytes => strcmp a.1 b.1 = .lt := ⟨fun a b hab hba => by
    rw [← strcmp_gt_iff, hab] at hba
    cases hba⟩
  exact h.sorted_entries.eq_of_mem_iff h'.sorted_entries hsame

/-- Each level is a sorted part of the level below: the nodes that reach it. -/
structure Layered (T : SkipTable) : Prop where
  linked : ∀ i, i ≤ kvsSkiplistMaxLevel → Linked (T.forward i) skipHeader (T.levelList i)
  sublist : ∀ i, i < kvsSkiplistMaxLevel → (T.levelList (i + 1)).Sublist (T.levelList i)
  sorted : ∀ i, i ≤ kvsSkiplistMaxLevel →
    (T.levelList i).Pairwise fun a b => strcmp (T.node a).key (T.node b).key = .lt
  reach : ∀ i, i ≤ kvsSkiplistMaxLevel → ∀ a, a ∈ T.levelList i ↔ a ∈ T.levelList 0 ∧ i ≤ (T.node a).level

lemma Abs.layered (h : Abs T xs m) : Layered T where
  linked := by
    intro i hi
    rw [h.levelList_eq hi]
    exact h.levels.linked i hi
  sublist := by
    intro i hi
    rw [h.levelList_eq hi, h.levelList_eq hi.le]
    exact T.reaching_succ_sublist xs i
  sorted := by
    intro i hi
    rw [h.levelList_eq hi]
    exact h.levels.sorted.sublist filter_sublist
  reach := by
    intro i hi a
    rw [h.levelList_eq hi, h.levelList_eq (Nat.zero_le _), reaching_zero, mem_reaching]

lemma abs_create (mem : ℕ → SkipNode) (pointers : ℕ → ℕ → Option ℕ) : Abs (kvsSkiptableCreate mem pointers) [] ∅ where
  levels :=
    { linked := by
        intro i _
        exact update_self skipHeader (none : Option ℕ) (pointers i)
      sorted := List.Pairwise.nil
      header := Nat.one_pos
      alive := fun a ha => (not_mem_nil ha).elim
      bound := fun a ha => (not_mem_nil ha).elim
      level_le := Nat.zero_le _
      count := rfl }
  represents := represents_zero

/-- The call without its random numbers. -/
def bare : SkipCall → SkipCall
  | .set key value _ alloc => .set key value (fun _ => 0) alloc
  | c => c

lemma skipMapStep_bare (m : Store.Table Bytes Bytes) (c : SkipCall) : skipMapStep m (bare c) = skipMapStep m c := by
  cases c <;> rfl

lemma foldl_bare (m : Store.Table Bytes Bytes) (cs : List SkipCall) :
    (cs.map bare).foldl skipMapStep m = cs.foldl skipMapStep m := by
  rw [foldl_map]
  simp only [skipMapStep_bare]

lemma abs_run (mem : ℕ → SkipNode) (pointers : ℕ → ℕ → Option ℕ) (cs : List SkipCall) :
    answers SkipTable.call (kvsSkiptableCreate mem pointers) cs = answers skipMapCall ∅ cs ∧
      ∃ xs, Abs (cs.foldl SkipTable.step (kvsSkiptableCreate mem pointers)) xs (cs.foldl skipMapStep ∅) := by
  have hrun : GuardedRun SkipTable.step (fun _ _ => True) (kvsSkiptableCreate mem pointers) cs :=
    .of_forall (fun _ _ => trivial) _ _
  have hstep : ∀ (T : SkipTable) (m : Store.Table Bytes Bytes) (c : SkipCall), (∃ xs, Abs T xs m) → True →
      (T.call c).1 = (skipMapCall m c).1 ∧ ∃ xs, Abs (T.call c).2 xs (skipMapCall m c).2 :=
    fun _ _ c ⟨_, habs⟩ _ => habs.call c
  exact answers_eq hstep ⟨[], abs_create mem pointers⟩ hrun

/-- After the calls the table `T` is what they make of a map. -/
structure Refines (mem : ℕ → SkipNode) (pointers : ℕ → ℕ → Option ℕ) (cs : List SkipCall) (T : SkipTable) : Prop where
  answers : answers SkipTable.call (kvsSkiptableCreate mem pointers) cs = answers skipMapCall ∅ cs
  contents : ∀ key value, (cs.foldl skipMapStep ∅).lookup key = some value ↔ (key, value) ∈ T.entries
  sorted : Sorted T.entries
  /-- `kvs_skiptable_foreach` visits the entries in this order. -/
  foreach : ∀ (σ : Type) (cb : Bytes → Bytes → σ → ℤ × σ) (s : σ), kvsSkiptableForeach T cb s = visit cb T.entries s
  layered : Layered T
  counted : Counted T
  independent : ∀ cs' : List SkipCall, cs'.map bare = cs.map bare →
    (cs'.foldl SkipTable.step (kvsSkiptableCreate mem pointers)).entries = T.entries

end SkipTable

/-- **The skip list refines the map**: the calls return what those of a map do, the lists hold its entries
in order, `inst->level` is the highest level in use and `inst->count` the number of keys, just if no node
that could not be allocated was to be higher than the others, and `inst->count` did not overflow. -/
theorem skiptable_refines_iff (mem : ℕ → SkipNode) (pointers : ℕ → ℕ → Option ℕ) (cs : List SkipCall) :
    (∀ pre, pre <+: cs →
        SkipTable.Refines mem pointers pre (pre.foldl SkipTable.step (kvsSkiptableCreate mem pointers))) ↔
      GuardedRun SkipTable.step SkipTable.Takes (kvsSkiptableCreate mem pointers) cs := by
  have hstart : SkipTable.Counted (kvsSkiptableCreate mem pointers) :=
    ⟨(SkipTable.abs_create mem pointers).tight_iff.mpr (.inl rfl),
      (SkipTable.abs_create mem pointers).count_iff.mpr (by decide)⟩
  have hkeep (T : SkipTable) (c : SkipCall) (h : ∃ xs m, SkipTable.Abs T xs m) (_ : True) :
      ∃ xs m, SkipTable.Abs (T.step c) xs m := by
    obtain ⟨xs, m, habs⟩ := h
    obtain ⟨-, xs', habs'⟩ := habs.call c
    exact ⟨xs', _, habs'⟩
  have hstep (T : SkipTable) (c : SkipCall) (h : ∃ xs m, SkipTable.Abs T xs m) (_ : True) (hT : SkipTable.Counted T) :
      T.Takes c ↔ SkipTable.Counted (T.step c) := by
    obtain ⟨xs, m, habs⟩ := h
    exact habs.counted_call hT c
  have hrun := GuardedRun.iff_forall_prefix hkeep hstep ⟨[], ∅, SkipTable.abs_create mem pointers⟩ hstart
    (.of_forall (fun _ _ => trivial) _ cs)
  refine Iff.trans (forall_congr' fun pre => forall_congr' fun _ => ?_) hrun.symm
  refine ⟨SkipTable.Refines.counted, fun hcounted => ?_⟩
  obtain ⟨hanswers, xs, habs⟩ := SkipTable.abs_run mem pointers pre
  refine ⟨hanswers, habs.mem_entries, habs.sorted_entries, fun σ cb s => habs.foreach cb s, habs.layered, hcounted, ?_⟩
  intro cs' hbare
  obtain ⟨-, xs', habs'⟩ := SkipTable.abs_run mem pointers cs'
  rw [← SkipTable.foldl_bare, hbare, SkipTable.foldl_bare] at habs'
  exact habs'.entries_unique habs

/-- A table after `kvs_skiptable_create`. -/
def emptySkiptable : SkipTable := kvsSkiptableCreate (fun _ => ⟨[], [], 0⟩) fun _ _ => none

/-- The node of the first key is to reach level 1, and there is no memory for it. -/
def refusedSet : SkipCall := .set [107] [118] (fun i => if i = 0 then 0 else randMax) false

lemma not_tight_refusedSet : ¬ (emptySkiptable.step refusedSet).Tight := by
  intro htight
  have hused : (emptySkiptable.step refusedSet).level = 0 ∨
      (emptySkiptable.step refusedSet).levelList (emptySkiptable.step refusedSet).level ≠ [] := htight.used
  revert hused
  decide

/-- The call fails, the list is empty, and `inst->level` is 1. -/
theorem level_raised_in_vain :
    (emptySkiptable.call refusedSet).1 = .code (-2) ∧ (emptySkiptable.step refusedSet).level = 1 ∧
      (∀ i, i ≤ kvsSkiplistMaxLevel → (emptySkiptable.step refusedSet).levelList i = []) ∧
      ¬ SkipTable.Refines (fun _ => ⟨[], [], 0⟩) (fun _ _ => none) [refusedSet] (emptySkiptable.step refusedSet) := by
  refine ⟨by decide, by decide, by decide, fun hrefines => not_tight_refusedSet hrefines.counted.tight⟩

end PocketKv.Storage
