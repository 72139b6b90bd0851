import PocketKv.Storage.ExpireTable
import PocketKv.Store.Engines

/-!
# The heap and the hash table of deadlines agree
-/

namespace PocketKv.Storage

open Library Resp ExpireTable Function

/-! ### The two structures agree -/

namespace ExpireTable

/-- The chain of an item. -/
def home (tab : ExpireTable) (a : ℕ) : ℕ := expireHash (tab.item a).key (tab.item a).engine tab.size

/-- The heap is ordered, and holds the items that are in the chains. -/
structure Coherent (tab : ExpireTable) : Prop where
  ordered : ∀ i, 0 < i → i < tab.heapSize →
    (tab.item (tab.heap ((i - 1) / 2))).expireAtMs ≤ (tab.item (tab.heap i)).expireAtMs
  indexed : ∀ i, i < tab.heapSize → (tab.item (tab.heap i)).heapIndex = i
  same : ∀ a, (∃ i, i < tab.heapSize ∧ tab.heap i = a) ↔ ∃ b, b < tab.size ∧ a ∈ tab.buckets b
  once : ∀ b, (tab.buckets b).Nodup
  unique : ∀ b b' a a', a ∈ tab.buckets b → a' ∈ tab.buckets b' → (tab.item a).engine = (tab.item a').engine →
    (tab.item a).key = (tab.item a').key → a = a'
  placed : ∀ b a, a ∈ tab.buckets b → b = expireHash (tab.item a).key (tab.item a).engine tab.size
  count : tab.count = tab.heapSize

/-- Moreover the items are allocated. -/
structure Inv (tab : ExpireTable) : Prop extends Coherent tab where
  pos : 0 < tab.size
  allocated : ∀ b a, a ∈ tab.buckets b → a < tab.fresh

variable {tab : ExpireTable}

lemma Inv.inHeap_iff (h : tab.Inv) (a : ℕ) : tab.InHeap a ↔ a ∈ tab.buckets (tab.home a) := by
  refine (h.same a).trans ⟨?_, fun ha => ⟨tab.home a, Nat.mod_lt _ h.pos, ha⟩⟩
  rintro ⟨b, -, ha⟩
  have hb : b = tab.home a := h.placed b a ha
  exact hb ▸ ha

lemma Inv.eq_of_key (h : tab.Inv) {a a' : ℕ} (ha : tab.InHeap a) (ha' : tab.InHeap a')
    (he : (tab.item a).engine = (tab.item a').engine) (hk : (tab.item a).key = (tab.item a').key) : a = a' :=
  h.unique _ _ a a' ((h.inHeap_iff a).mp ha) ((h.inHeap_iff a').mp ha') he hk

lemma Inv.inHeap (h : tab.Inv) {b a : ℕ} (ha : a ∈ tab.buckets b) : tab.InHeap a := by
  have hb : b = tab.home a := h.placed b a ha
  exact (h.inHeap_iff a).mpr (hb ▸ ha)

lemma Inv.narrow {t : ExpireTable} (h : tab.Inv) (hordered : Heap.Ordered t.deadline t.heapSize) (hindexed : t.Indexed)
    (hsize : t.size = tab.size) (hfresh : t.fresh = tab.fresh) (hcount : t.count = t.heapSize)
    (hengine : ∀ a, (t.item a).engine = (tab.item a).engine) (hkey : ∀ a, (t.item a).key = (tab.item a).key)
    (hin : ∀ a, t.InHeap a → tab.InHeap a) (hmem : ∀ b a, a ∈ t.buckets b ↔ a ∈ tab.buckets b ∧ t.InHeap a)
    (honce : ∀ b, (t.buckets b).Nodup) : t.Inv where
  ordered := hordered
  indexed := hindexed
  same a := by
    rw [hsize]
    constructor
    · intro ha
      obtain ⟨b, hb, hold⟩ := (h.same a).mp (hin a ha)
      exact ⟨b, hb, (hmem b a).mpr ⟨hold, ha⟩⟩
    · rintro ⟨b, -, ha⟩
      exact ((hmem b a).mp ha).2
  once := honce
  unique b b' a a' ha ha' he hk := by
    rw [hengine, hengine] at he
    rw [hkey, hkey] at hk
    exact h.unique b b' a a' ((hmem b a).mp ha).1 ((hmem b' a').mp ha').1 he hk
  placed b a ha := by
    rw [hkey, hengine, hsize]
    exact h.placed b a ((hmem b a).mp ha).1
  count := hcount
  pos := by rw [hsize]; exact h.pos
  allocated b a ha := by
    rw [hfresh]
    exact h.allocated b a ((hmem b a).mp ha).1

/-- There is an item for the key, with this deadline. -/
def Has (tab : ExpireTable) (engine : Int32) (key : Bytes) (expireAt : ℤ) : Prop :=
  ∃ a, tab.InHeap a ∧ (tab.item a).engine = engine ∧ (tab.item a).key = key ∧ (tab.item a).expireAtMs = expireAt

lemma inv_create : kvsExpireCreate.Inv where
  ordered := by intro i _ hi; cases hi
  indexed := by intro i hi; cases hi
  same := by simp [kvsExpireCreate]
  once := by simp [kvsExpireCreate]
  unique := by simp [kvsExpireCreate]
  placed := by simp [kvsExpireCreate]
  count := rfl
  pos := by decide
  allocated := by simp [kvsExpireCreate]

end ExpireTable

variable {tab : ExpireTable} {engine : Int32} {key : Bytes}

lemma expireFind_some {a : ℕ}
    (h : expireFind tab engine key = some a) :
    (tab.item a).engine = engine ∧ (tab.item a).key = key ∧ a ∈ tab.buckets (tab.home a) := by
  have hp := List.find?_some h
  have hmem := List.mem_of_find?_eq_some h
  simp only [decide_eq_true_eq] at hp
  obtain ⟨he, hk⟩ := hp
  refine ⟨he, hk, ?_⟩
  rw [home, he, hk]
  exact hmem

lemma expireFind_none (hinv : tab.Inv)
    (h : expireFind tab engine key = none) {b a : ℕ} (ha : a ∈ tab.buckets b) (he : (tab.item a).engine = engine) :
    (tab.item a).key ≠ key := by
  intro hk
  have hb := hinv.placed b a ha
  rw [he, hk] at hb
  subst hb
  have := List.find?_eq_none.mp h a ha
  simp [he, hk] at this

namespace ExpireTable

variable (h : tab.Inv)
include h

lemma Inv.expireFreeNode {node : ℕ} (hnode : tab.InHeap node) : (expireFreeNode tab node).Inv ∧
    ∀ e k d, (expireFreeNode tab node).Has e k d ↔
      tab.Has e k d ∧ ¬ (e = (tab.item node).engine ∧ k = (tab.item node).key) := by
  have hin' := hnode
  obtain ⟨idx, hidx, hat⟩ := hnode
  have hindex : (tab.item node).heapIndex = idx := by rw [← hat]; exact h.indexed idx hidx
  obtain ⟨hkeeps, hsize, hindexed, hordered, hin⟩ := heapRemoveAt_spec h.indexed h.ordered hidx
  rw [hat] at hin
  have hpos : 0 < (heapRemoveAt tab idx).count := by rw [hkeeps.count, h.count]; omega
  rw [Storage.expireFreeNode, hindex, if_pos hidx]
  simp only [expireUnlinkBucket, hpos, if_true]
  set t := heapRemoveAt tab idx
  refine ⟨h.narrow hordered hindexed hkeeps.size hkeeps.fresh ?_ hkeeps.engine hkeeps.key (fun a ha => ((hin a).mp ha).1)
    (fun b a => ?_) (fun b => ?_), fun e k d => ?_⟩
  · rw [hkeeps.count, h.count, hsize]
  · -- an item that is still in a bucket is another one and was there before
    have hleft (ha : a ∈ tab.buckets b) : t.InHeap a ↔ a ≠ node := (hin a).trans (and_iff_right (h.inHeap ha))
    refine Iff.trans ?_ (and_congr_right hleft).symm
    dsimp only
    rw [update_apply, hkeeps.buckets, hkeeps.key, hkeeps.engine, hkeeps.size]
    split
    · rename_i hb
      rw [hb, (h.once _).mem_erase_iff, and_comm]
    · rename_i hb
      refine ⟨fun ha => ⟨ha, fun heq => hb ?_⟩, And.left⟩
      rw [← heq]
      exact h.placed b a ha
  · dsimp only
    rw [update_apply, hkeeps.buckets]
    split
    · exact (h.once _).erase node
    · exact h.once b
  · constructor
    · rintro ⟨a, ha, rfl, rfl, rfl⟩
      obtain ⟨ha, hne⟩ := (hin a).mp ha
      refine ⟨⟨a, ha, (hkeeps.engine a).symm, (hkeeps.key a).symm, (hkeeps.expireAtMs a).symm⟩, ?_⟩
      rintro ⟨he, hk⟩
      exact hne (h.eq_of_key ha hin' ((hkeeps.engine a).symm.trans he) ((hkeeps.key a).symm.trans hk))
    · rintro ⟨⟨a, ha, rfl, rfl, rfl⟩, hne⟩
      refine ⟨a, (hin a).mpr ⟨ha, fun heq => hne ?_⟩, hkeeps.engine a, hkeeps.key a, hkeeps.expireAtMs a⟩
      rw [heq]
      exact ⟨rfl, rfl⟩

lemma Inv.setDeadline {node : ℕ} (hnode : tab.InHeap node) (expireAt : ℤ) :
    (setDeadline tab node expireAt).Inv ∧ ∀ e k d, (setDeadline tab node expireAt).Has e k d ↔
      if e = (tab.item node).engine ∧ k = (tab.item node).key then d = expireAt else tab.Has e k d := by
  rw [Storage.setDeadline]
  set t : ExpireTable := { tab with
    item := update tab.item node { tab.item node with expireAtMs := expireAt } } with ht
  have hin' := hnode
  have hfields : ∀ a, (t.item a).engine = (tab.item a).engine ∧ (t.item a).key = (tab.item a).key ∧
      (t.item a).heapIndex = (tab.item a).heapIndex := by
    intro a
    by_cases ha : a = node
    · subst ha
      simp [ht]
    · simp [ht, ha]
  obtain ⟨idx, hidx, hat⟩ := hnode
  have hindexed : t.Indexed := by
    intro i hi
    rw [(hfields _).2.2]
    exact h.indexed i hi
  have hindex : (t.item node).heapIndex = idx := by
    rw [← hindexed idx hidx, ← hat]
  have hloose : Heap.Loose t.deadline t.heapSize idx := by
    refine Heap.Ordered.loose h.ordered le_rfl hidx fun j hj hji => ?_
    have hne : tab.heap j ≠ node := by
      intro heq
      exact hji (Indexed.inj h.indexed hj hidx (heq.trans hat.symm))
    change (update tab.item node _ (tab.heap j)).expireAtMs = _
    rw [update_of_ne hne]
  have hlt : idx < t.heapSize := hidx
  rw [heapUpdate, hindex, if_neg (not_le.mpr hlt)]
  -- where the item is after it has sunk
  have hdown := (heapSiftDown_spec hindexed hlt hloose).1
  obtain ⟨up, hup, hupat⟩ : (heapSiftDown t idx).InHeap node := (hdown.inHeap node).mpr ⟨idx, hlt, hat⟩
  have hupindex : ((heapSiftDown t idx).item node).heapIndex = up := by
    rw [← hupat]
    exact hdown.indexed up hup
  rw [hdown.heapSize] at hup
  simp only [hupindex]
  have hstay : heapSiftDown t idx = t → up = idx := by
    intro heq
    rw [heq, hindex] at hupindex
    exact hupindex.symm
  obtain ⟨hs, hordered⟩ := heapSift_spec hindexed hlt hloose hup hstay
  refine ⟨h.narrow (by rw [hs.heapSize]; exact hordered) hs.indexed hs.size hs.fresh
    (hs.count.trans (h.count.trans hs.heapSize.symm)) (fun a => ?_) (fun a => ?_) (fun a => (hs.inHeap a).mp)
    (fun b a => ?_) (by rw [hs.buckets]; exact h.once), fun e k d => ?_⟩
  · rw [hs.engine, (hfields a).1]
  · rw [hs.key, (hfields a).2.1]
  · rw [hs.buckets]
    exact (and_iff_left_of_imp fun ha => (hs.inHeap a).mpr (h.inHeap ha)).symm
  simp only [Has, hs.inHeap, hs.engine, hs.key, hs.expireAtMs, (hfields _).1, (hfields _).2.1]
  have hself : (t.item node).expireAtMs = expireAt := by simp [ht]
  have hother : ∀ a, a ≠ node → (t.item a).expireAtMs = (tab.item a).expireAtMs := fun a ha => by simp [ht, ha]
  split_ifs with heq
  · obtain ⟨rfl, rfl⟩ := heq
    constructor
    · rintro ⟨a, ha, he, hk, rfl⟩
      rw [h.eq_of_key ha hin' he hk]
      exact hself
    · rintro rfl
      exact ⟨node, hin', rfl, rfl, hself⟩
  · refine exists_congr fun a => and_congr_right fun ha => and_congr_right fun he => and_congr_right fun hk => ?_
    rw [hother a]
    rintro rfl
    exact heq ⟨he.symm, hk.symm⟩

lemma Inv.linkItem {tab' : ExpireTable} {expireAt : ℤ}
    (hnew : expireFind tab engine key = none) {alloc : Bool}
    (hpush : heapPush (linkItem tab engine key expireAt) tab.fresh alloc = some tab') :
    ({ tab' with count := tab'.count + 1 } : ExpireTable).Inv ∧
      ∀ e k d, tab'.Has e k d ↔ (e = engine ∧ k = key ∧ d = expireAt) ∨ tab.Has e k d := by
  set t := Storage.linkItem tab engine key expireAt with ht
  set idx := expireHash key engine tab.size
  have hfresh : ¬ tab.InHeap tab.fresh := fun hin => by
    have := h.allocated _ _ ((h.inHeap_iff _).mp hin)
    omega
  have hother : ∀ a, a ≠ tab.fresh → t.item a = tab.item a := fun a ha => by simp [ht, Storage.linkItem, ha]
  have hnode : t.item tab.fresh = ⟨key, engine, expireAt, noIndex⟩ := by simp [ht, Storage.linkItem]
  have hne : ∀ i, i < tab.heapSize → tab.heap i ≠ tab.fresh := fun i hi heq => hfresh ⟨i, hi, heq⟩
  have hindexed : t.Indexed := by
    intro i hi
    rw [show t.heap i = tab.heap i from rfl, hother _ (hne i hi)]
    exact h.indexed i hi
  have hordered : Heap.Ordered t.deadline t.heapSize := by
    intro i hi hn
    have hn : i < tab.heapSize := hn
    have hp := Heap.parent_lt hi
    rw [deadline, deadline, show t.heap = tab.heap from rfl, hother _ (hne i hn), hother _ (hne _ (hp.trans hn))]
    exact h.ordered i hi hn
  obtain ⟨hkeeps, hsize, hindexed', hordered', hin⟩ := heapPush_spec hindexed hordered hfresh hpush
  have hmem : ∀ b a, a ∈ t.buckets b ↔ (a = tab.fresh ∧ b = idx) ∨ a ∈ tab.buckets b := by
    intro b a
    by_cases hb : b = idx
    · subst hb
      simp [ht, Storage.linkItem, idx]
    · simp [ht, Storage.linkItem, hb, idx]
  have hold : ∀ {b a}, a ∈ tab.buckets b → a ≠ tab.fresh := fun ha => (h.allocated _ _ ha).ne
  have hidx : idx < tab.size := Nat.mod_lt _ h.pos
  refine ⟨⟨⟨hordered', hindexed', ?_, ?_, ?_, ?_, ?_⟩, ?_, ?_⟩, fun e k d => ?_⟩
  · intro a
    refine (hin a).trans ?_
    change tab.InHeap a ∨ a = tab.fresh ↔ ∃ b, b < tab'.size ∧ a ∈ tab'.buckets b
    rw [InHeap, h.same a, hkeeps.size, hkeeps.buckets]
    constructor
    · rintro (⟨b, hb, ha⟩ | rfl)
      · exact ⟨b, hb, (hmem b a).mpr (.inr ha)⟩
      · exact ⟨idx, hidx, (hmem idx _).mpr (.inl ⟨rfl, rfl⟩)⟩
    · rintro ⟨b, hb, ha⟩
      rcases (hmem b a).mp ha with ⟨rfl, -⟩ | ha
      · exact .inr rfl
      · exact .inl ⟨b, hb, ha⟩
  · intro b
    rw [hkeeps.buckets, ht, Storage.linkItem]
    dsimp only
    rw [update_apply]
    split
    · exact List.nodup_cons.mpr ⟨fun ha => hold ha rfl, h.once _⟩
    · exact h.once b
  · intro b b' a a' ha ha' he hk
    rw [hkeeps.buckets] at ha ha'
    rw [hkeeps.engine, hkeeps.engine] at he
    rw [hkeeps.key, hkeeps.key] at hk
    rcases (hmem b a).mp ha with ⟨rfl, -⟩ | ha <;> rcases (hmem b' a').mp ha' with ⟨rfl, -⟩ | ha'
    · rfl
    · rw [hnode, hother a' (hold ha')] at he hk
      exact absurd hk.symm (expireFind_none h hnew ha' he.symm)
    · rw [hnode, hother a (hold ha)] at he hk
      exact absurd hk (expireFind_none h hnew ha he)
    · rw [hother a (hold ha), hother a' (hold ha')] at he hk
      exact h.unique b b' a a' ha ha' he hk
  · intro b a ha
    rw [hkeeps.buckets] at ha
    rw [hkeeps.key, hkeeps.engine, hkeeps.size]
    rcases (hmem b a).mp ha with ⟨rfl, hb⟩ | ha
    · rw [hnode, hb]
      rfl
    · rw [hother a (hold ha)]
      exact h.placed b a ha
  · rw [hsize, hkeeps.count]
    exact congrArg (· + 1) h.count
  · exact hkeeps.size.symm ▸ h.pos
  · intro b a ha
    rw [hkeeps.buckets] at ha
    rw [hkeeps.fresh]
    rcases (hmem b a).mp ha with ⟨rfl, -⟩ | ha
    · exact Nat.lt_succ_self _
    · exact (h.allocated b a ha).trans (Nat.lt_succ_self _)
  · simp only [Has, hin, hkeeps.engine, hkeeps.key, hkeeps.expireAtMs]
    have hkept : ∀ a, tab.InHeap a → t.item a = tab.item a := fun a ha => hother a fun heq => hfresh (heq ▸ ha)
    constructor
    · rintro ⟨a, ha | rfl, rfl, rfl, rfl⟩
      · have ha : tab.InHeap a := ha
        exact .inr ⟨a, ha, by rw [hkept a ha], by rw [hkept a ha], by rw [hkept a ha]⟩
      · rw [hnode]
        exact .inl ⟨rfl, rfl, rfl⟩
    · rintro (⟨rfl, rfl, rfl⟩ | ⟨a, ha, rfl, rfl, rfl⟩)
      · exact ⟨tab.fresh, .inr rfl, by rw [hnode], by rw [hnode], by rw [hnode]⟩
      · exact ⟨a, .inl ha, by rw [hkept a ha], by rw [hkept a ha], by rw [hkept a ha]⟩

/-! ### The operations -/

lemma Inv.kvsExpireSet (engine : Int32) (key : Bytes) (ttlMs now : ℤ) (allocs : Allocs) :
    (kvsExpireSet tab engine key ttlMs now allocs).2.Inv := by
  unfold Storage.kvsExpireSet
  split
  · exact h
  dsimp only
  split
  · rename_i node hfind
    exact (h.setDeadline ((h.inHeap_iff node).mpr (expireFind_some hfind).2.2) _).1
  rename_i hnew
  split
  · exact h
  split
  · exact h
  · rename_i tab' hpush
    exact (h.linkItem hnew hpush).1

lemma Inv.kvsExpireDel (engine : Int32) (key : Bytes) : (kvsExpireDel tab engine key).2.Inv := by
  unfold Storage.kvsExpireDel
  split
  · exact h
  · rename_i node hfind
    exact (h.expireFreeNode ((h.inHeap_iff node).mpr (expireFind_some hfind).2.2)).1

lemma Inv.activeExpireLoop (now : ℤ) (budget : ℕ) : (activeExpireLoop now budget tab).2.Inv := by
  induction budget generalizing tab with
  | zero => exact h
  | succ budget ih =>
    rw [Storage.activeExpireLoop]
    split
    · exact h
    rename_i hsize
    dsimp only
    split
    · exact h
    · exact ih (h.expireFreeNode ⟨0, Nat.pos_of_ne_zero hsize, rfl⟩).1

lemma Inv.call (c : ExpireCall) : (tab.call c).Inv := by
  cases c with
  | set engine key ttlMs now allocs => exact h.kvsExpireSet engine key ttlMs now allocs
  | del engine key => exact h.kvsExpireDel engine key
  | persist engine key => exact h.kvsExpireDel engine key
  | activeCycle budget now => exact h.activeExpireLoop now budget.toNat

lemma Inv.calls (cs : List ExpireCall) : (cs.foldl ExpireTable.call tab).Inv := by
  induction cs generalizing tab with
  | nil => exact h
  | cons c cs ih => exact ih (h.call c)

end ExpireTable

/-- **The heap and the hash table agree** after every sequence of calls, whichever allocations fail. -/
theorem expire_table_coherent (cs : List ExpireCall) : (cs.foldl ExpireTable.call kvsExpireCreate).Coherent :=
  (inv_create.calls cs).toCoherent

/-! ### The finite map of deadlines -/

/-- The `KVS_ENGINE_*` of an engine. -/
def engineNumber : Store.Engine → Int32
  | .array => 1
  | .rbtree => 2
  | .hash => 3
  | .skiptable => 4

lemma engineNumber_inj {e e' : Store.Engine} (h : engineNumber e = engineNumber e') : e = e' := by
  revert h
  cases e <;> cases e' <;> decide

/-- A return code of the table. -/
def rcOf (n : ℤ) : Store.Rc := if n = 0 then .ok else if 0 < n then .miss else .fail

/-- The items are the deadlines of the map. -/
structure Refines (tab : ExpireTable) (ttl : Store.Table Store.Slot ℤ) : Prop where
  inv : tab.Inv
  has : ∀ e k d, tab.Has (engineNumber e) k d ↔ ttl.lookup (e, k) = some d

section Refinement

variable {s : Store.Db} {e : Store.Engine} {k : Bytes}

variable (h : Refines tab s.ttl)
include h

lemma Refines.find (e : Store.Engine) (k : Bytes) :
    (expireFind tab (engineNumber e) k).map (fun a => (tab.item a).expireAtMs) = s.ttl.lookup (e, k) := by
  cases hfind : expireFind tab (engineNumber e) k with
  | some a =>
    obtain ⟨he, hk, hmem⟩ := expireFind_some hfind
    exact ((h.has e k _).mp ⟨a, (h.inv.inHeap_iff a).mpr hmem, he, hk, rfl⟩).symm
  | none =>
    cases hl : s.ttl.lookup (e, k) with
    | none => rfl
    | some d =>
      obtain ⟨a, ha, he, hk, -⟩ := (h.has e k d).mpr hl
      exact absurd hk (expireFind_none h.inv hfind ((h.inv.inHeap_iff a).mp ha) he)

lemma Refines.find_some {a : ℕ} (hfind : expireFind tab (engineNumber e) k = some a) :
    s.ttl.lookup (e, k) = some (tab.item a).expireAtMs := by
  rw [← h.find, hfind]
  rfl

lemma Refines.find_none (hfind : expireFind tab (engineNumber e) k = none) : s.ttl.lookup (e, k) = none := by
  rw [← h.find, hfind]
  rfl

lemma expireIsExpired_refines (now : ℤ) (e : Store.Engine) (k : Bytes) :
    kvsExpireIsExpired tab (engineNumber e) k now = Store.expireIsExpired now s e k := by
  unfold kvsExpireIsExpired Store.expireIsExpired
  cases hfind : expireFind tab (engineNumber e) k with
  | none => rw [h.find_none hfind]
  | some a => rw [h.find_some hfind]

lemma expireTtl_refines (now : ℤ) (e : Store.Engine) (k : Bytes) :
    kvsExpireTtl tab (engineNumber e) k now = Store.expireTtl now s e k := by
  unfold kvsExpireTtl Store.expireTtl
  cases hfind : expireFind tab (engineNumber e) k with
  | none => rw [h.find_none hfind]
  | some a =>
    rw [h.find_some hfind]
    dsimp only
    split_ifs <;> omega

lemma expireSet_refines (now ttlMs : ℤ) (e : Store.Engine) (k : Bytes) :
    rcOf (kvsExpireSet tab (engineNumber e) k ttlMs now ⟨true, true, true⟩).1 = (Store.expireSet now s e k ttlMs).1 ∧
      Refines (kvsExpireSet tab (engineNumber e) k ttlMs now ⟨true, true, true⟩).2
        (Store.expireSet now s e k ttlMs).2.ttl := by
  have hinv := h.inv.kvsExpireSet (engineNumber e) k ttlMs now ⟨true, true, true⟩
  unfold kvsExpireSet at hinv ⊢
  unfold Store.expireSet
  by_cases hms : ttlMs ≤ 0
  · rw [if_pos hms, if_pos hms]
    exact ⟨rfl, h⟩
  rw [if_neg hms] at hinv ⊢
  rw [if_neg hms]
  set d₀ := wrap64 (now + ttlMs)
  -- in the map the key has the new deadline, and the others theirs
  have hinsert : ∀ e' k' d, (s.ttl.insert (e, k) d₀).lookup (e', k') = some d ↔
      if engineNumber e' = engineNumber e ∧ k' = k then d = d₀ else s.ttl.lookup (e', k') = some d := by
    intro e' k' d
    rw [lookup_insert_eq]
    by_cases heq : (e', k') = (e, k)
    · obtain ⟨rfl, rfl⟩ := Prod.mk.inj heq
      simp [eq_comm]
    · rw [if_neg heq, if_neg fun hne => heq (Prod.ext (engineNumber_inj hne.1) hne.2)]
  cases hfind : expireFind tab (engineNumber e) k with
  | some a =>
    obtain ⟨he, hk, hmem⟩ := expireFind_some hfind
    rw [hfind] at hinv
    refine ⟨rfl, hinv, fun e' k' d => ?_⟩
    rw [(h.inv.setDeadline ((h.inv.inHeap_iff a).mpr hmem) d₀).2, he, hk, hinsert, h.has]
  | none =>
    rw [hfind] at hinv
    simp only [Bool.not_true, Bool.or_self, Bool.false_eq_true, if_false] at hinv ⊢
    obtain ⟨t, hpush⟩ : ∃ t, heapPush (linkItem tab (engineNumber e) k d₀) tab.fresh true = some t := by
      rw [heapPush, heapEnsureCap]
      split
      · exact ⟨_, rfl⟩
      · exact ⟨_, rfl⟩
    rw [hpush] at hinv ⊢
    refine ⟨rfl, hinv, fun e' k' d => ?_⟩
    refine ((h.inv.linkItem hfind hpush).2 _ _ _).trans ?_
    rw [hinsert, h.has]
    split_ifs with heq
    · obtain ⟨hee, rfl⟩ := heq
      obtain rfl := engineNumber_inj hee
      rw [h.find_none hfind]
      simp
    · simp only [or_iff_right_iff_imp]
      rintro ⟨hee, hkk, -⟩
      exact absurd ⟨hee, hkk⟩ heq

lemma expireDel_refines (e : Store.Engine) (k : Bytes) :
    rcOf (kvsExpireDel tab (engineNumber e) k).1 = (Store.expireDel s e k).1 ∧
      Refines (kvsExpireDel tab (engineNumber e) k).2 (Store.expireDel s e k).2.ttl := by
  have hinv := h.inv.kvsExpireDel (engineNumber e) k
  unfold kvsExpireDel at hinv ⊢
  unfold Store.expireDel
  cases hfind : expireFind tab (engineNumber e) k with
  | none =>
    rw [h.find_none hfind]
    exact ⟨rfl, h⟩
  | some a =>
    rw [h.find_some hfind]
    rw [hfind] at hinv
    obtain ⟨he, hk, hmem⟩ := expireFind_some hfind
    refine ⟨rfl, hinv, fun e' k' d => ?_⟩
    refine ((h.inv.expireFreeNode ((h.inv.inHeap_iff a).mpr hmem)).2 _ _ _).trans ?_
    rw [he, hk, h.has]
    change _ ↔ (s.ttl.erase (e, k)).lookup (e', k') = some d
    rw [lookup_erase_eq]
    by_cases heq : (e', k') = (e, k)
    · obtain ⟨rfl, rfl⟩ := Prod.mk.inj heq
      simp
    · rw [if_neg heq]
      refine and_iff_left fun hne => heq ?_
      exact Prod.ext (engineNumber_inj hne.1) hne.2

end Refinement

/-- `kvs_expire_set` at a time, or `kvs_expire_del`. -/
inductive TtlCall where
  | set (now ttlMs : ℤ) (e : Store.Engine) (k : Bytes)
  | del (e : Store.Engine) (k : Bytes)

/-- What the call returns, and the table after it. -/
def ExpireTable.ttlCall (tab : ExpireTable) : TtlCall → ℤ × ExpireTable
  | .set now ttlMs e k => kvsExpireSet tab (engineNumber e) k ttlMs now ⟨true, true, true⟩
  | .del e k => kvsExpireDel tab (engineNumber e) k

/-- The same on the map. -/
def dbTtlCall (s : Store.Db) : TtlCall → Store.Rc × Store.Db
  | .set now ttlMs e k => Store.expireSet now s e k ttlMs
  | .del e k => Store.expireDel s e k

lemma Refines.ttlCall {s : Store.Db} (h : Refines tab s.ttl) (c : TtlCall) :
    rcOf (tab.ttlCall c).1 = (dbTtlCall s c).1 ∧ Refines (tab.ttlCall c).2 (dbTtlCall s c).2.ttl := by
  cases c with
  | set now ttlMs e k => exact expireSet_refines h now ttlMs e k
  | del e k => exact expireDel_refines h e k

/-- **The table of deadlines is a finite map**: after any calls, each returns what it does on the map. -/
theorem ttl_table_refines (cs : List TtlCall) (c : TtlCall) (now : ℤ) (e : Store.Engine) (k : Bytes) :
    let tab := cs.foldl (fun tab c => (tab.ttlCall c).2) kvsExpireCreate
    let s := cs.foldl (fun s c => (dbTtlCall s c).2) Store.Db.empty
    rcOf (tab.ttlCall c).1 = (dbTtlCall s c).1 ∧ kvsExpireTtl tab (engineNumber e) k now = Store.expireTtl now s e k ∧
      kvsExpireIsExpired tab (engineNumber e) k now = Store.expireIsExpired now s e k := by
  intro tab s
  have hstart : Refines kvsExpireCreate Store.Db.empty.ttl :=
    ⟨inv_create, fun e k d => iff_of_false (fun ⟨_, ⟨_, hi, _⟩, _⟩ => absurd hi (Nat.not_lt_zero _)) nofun⟩
  have h : Refines tab s.ttl := by
    refine List.foldl_rel (r := fun tab (s : Store.Db) => Refines tab s.ttl) hstart ?_
    intro c _ tab s h
    exact (h.ttlCall c).2
  exact ⟨(h.ttlCall c).1, expireTtl_refines h now e k, expireIsExpired_refines h now e k⟩

end PocketKv.Storage
