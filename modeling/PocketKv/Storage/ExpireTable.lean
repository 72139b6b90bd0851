import PocketKv.Library.Heap
import PocketKv.Resp.Bytes

/-!
# The table of deadlines
-/

namespace PocketKv.Storage

open Library Resp Function

variable {tab' tab : ExpireTable}

/-! ### The source's operations -/

/-- `kvs_expire_item_t`; the chains that `next` makes are lists. -/
structure ExpireItem where
  key : Bytes
  engine : Int32
  expireAtMs : ℤ
  heapIndex : ℕ

/-- `kvs_expire_table_t`, with the memory for its items. -/
structure ExpireTable where
  item : ℕ → ExpireItem
  fresh : ℕ
  buckets : ℕ → List ℕ
  size : ℕ
  count : ℕ
  heap : ℕ → ℕ
  heapSize : ℕ
  heapCap : ℕ

/-- `KVS_EXPIRE_BUCKETS`. -/
def kvsExpireBuckets : ℕ := 8192

/-- `KVS_EXPIRE_HEAP_INIT_CAP`. -/
def kvsExpireHeapInitCap : ℕ := 1024

/-- `(size_t)-1`. -/
def noIndex : ℕ := 2 ^ 64 - 1

/-- `expire_hash`. -/
def expireHash (key : Bytes) (engine : Int32) (buckets : ℕ) : ℕ :=
  let h : UInt32 := key.foldl (fun h b => (h ^^^ b.toUInt32) * 16777619) 2166136261
  ((h ^^^ engine.toUInt32) * 16777619).toNat % buckets

namespace ExpireTable

/-- `tab->heap[i] = a`. -/
def setSlot (tab : ExpireTable) (i a : ℕ) : ExpireTable :=
  { tab with heap := update tab.heap i a }

/-- `a->heap_index = i`. -/
def setIndex (tab : ExpireTable) (a i : ℕ) : ExpireTable :=
  { tab with item := update tab.item a { tab.item a with heapIndex := i } }

/-- `tab->heap_size = n`. -/
def setHeapSize (tab : ExpireTable) (n : ℕ) : ExpireTable := { tab with heapSize := n }

/-- `tab->heap[i]->expire_at_ms`. -/
def deadline (tab : ExpireTable) (i : ℕ) : ℤ := (tab.item (tab.heap i)).expireAtMs

end ExpireTable

open ExpireTable

/-- `heap_swap`. -/
def heapSwap (tab : ExpireTable) (i j : ℕ) : ExpireTable :=
  if i = j then tab
  else
    let tmp := tab.heap i
    let tab := tab.setSlot i (tab.heap j)
    let tab := tab.setSlot j tmp
    let tab := tab.setIndex (tab.heap i) i
    tab.setIndex (tab.heap j) j

/-- The loop of `heap_sift_up`. -/
def siftUpLoop : ℕ → ExpireTable → ℕ → ExpireTable
  | 0, tab, _ => tab
  | fuel + 1, tab, idx =>
    if idx = 0 then tab
    else
      let parent := (idx - 1) / 2
      if tab.deadline parent ≤ tab.deadline idx then tab
      else siftUpLoop fuel (heapSwap tab parent idx) parent

/-- `heap_sift_up`. -/
def heapSiftUp (tab : ExpireTable) (idx : ℕ) : ExpireTable := siftUpLoop idx tab idx

/-- The `smallest` of an iteration of `heap_sift_down`. -/
def smallestOf (tab : ExpireTable) (idx : ℕ) : ℕ :=
  let left := idx * 2 + 1
  let right := left + 1
  let smallest := if left < tab.heapSize ∧ tab.deadline left < tab.deadline idx then left else idx
  if right < tab.heapSize ∧ tab.deadline right < tab.deadline smallest then right else smallest

/-- The loop of `heap_sift_down`. -/
def siftDownLoop : ℕ → ExpireTable → ℕ → ExpireTable
  | 0, tab, _ => tab
  | fuel + 1, tab, idx =>
    let smallest := smallestOf tab idx
    if smallest = idx then tab else siftDownLoop fuel (heapSwap tab idx smallest) smallest

/-- `heap_sift_down`. -/
def heapSiftDown (tab : ExpireTable) (idx : ℕ) : ExpireTable := siftDownLoop tab.heapSize tab idx

/-- The allocations of a call of `kvs_expire_set` that succeed. -/
structure Allocs where
  /-- `kvs_calloc` of the item. -/
  node : Bool
  /-- `kvs_malloc` of its key. -/
  key : Bool
  /-- `kvs_realloc` of the heap. -/
  heap : Bool

/-- `heap_ensure_cap`. -/
def heapEnsureCap (tab : ExpireTable) (alloc : Bool) : Option ExpireTable :=
  if tab.heapSize < tab.heapCap then some tab
  else if alloc then
    some { tab with heapCap := if tab.heapCap = 0 then kvsExpireHeapInitCap else tab.heapCap * 2 }
  else none

/-- `heap_push`. -/
def heapPush (tab : ExpireTable) (node : ℕ) (alloc : Bool) : Option ExpireTable :=
  (heapEnsureCap tab alloc).map fun tab =>
    let tab := tab.setSlot tab.heapSize node
    let tab := tab.setIndex node tab.heapSize
    let tab := tab.setHeapSize (tab.heapSize + 1)
    heapSiftUp tab (tab.item node).heapIndex

/-- `heap_remove_at`. -/
def heapRemoveAt (tab : ExpireTable) (idx : ℕ) : ExpireTable :=
  if tab.heapSize ≤ idx then tab
  else
    let last := tab.heapSize - 1
    let tab := if idx ≠ last then heapSwap tab idx last else tab
    let tab := tab.setIndex (tab.heap last) noIndex
    let tab := tab.setSlot last 0
    let tab := tab.setHeapSize (tab.heapSize - 1)
    if idx < tab.heapSize then heapSiftUp (heapSiftDown tab idx) idx else tab

/-- `heap_update`. -/
def heapUpdate (tab : ExpireTable) (node : ℕ) : ExpireTable :=
  if tab.heapSize ≤ (tab.item node).heapIndex then tab
  else
    let tab := heapSiftDown tab (tab.item node).heapIndex
    heapSiftUp tab (tab.item node).heapIndex

/-- `expire_find`. -/
def expireFind (tab : ExpireTable) (engine : Int32) (key : Bytes) : Option ℕ :=
  (tab.buckets (expireHash key engine tab.size)).find? fun cur =>
    (tab.item cur).engine = engine ∧ (tab.item cur).key = key

/-- `expire_unlink_bucket`. -/
def expireUnlinkBucket (tab : ExpireTable) (node : ℕ) : ExpireTable :=
  let idx := expireHash (tab.item node).key (tab.item node).engine tab.size
  { tab with buckets := update tab.buckets idx ((tab.buckets idx).erase node) }

/-- `expire_free_node`. -/
def expireFreeNode (tab : ExpireTable) (node : ℕ) : ExpireTable :=
  let tab := if (tab.item node).heapIndex < tab.heapSize then heapRemoveAt tab (tab.item node).heapIndex else tab
  let tab := expireUnlinkBucket tab node
  if 0 < tab.count then { tab with count := tab.count - 1 } else tab

/-- `kvs_expire_create`. -/
def kvsExpireCreate : ExpireTable where
  item _ := ⟨[], 0, 0, 0⟩
  fresh := 1
  buckets _ := []
  size := kvsExpireBuckets
  count := 0
  heap _ := 0
  heapSize := 0
  heapCap := kvsExpireHeapInitCap

/-- The new item of `kvs_expire_set`, in front of its chain. -/
def linkItem (tab : ExpireTable) (engine : Int32) (key : Bytes) (expireAt : ℤ) : ExpireTable :=
  let idx := expireHash key engine tab.size
  { tab with
    item := update tab.item tab.fresh ⟨key, engine, expireAt, noIndex⟩
    fresh := tab.fresh + 1
    buckets := update tab.buckets idx (tab.fresh :: tab.buckets idx) }

/-- The branch of `kvs_expire_set` for a key that has a deadline. -/
def setDeadline (tab : ExpireTable) (node : ℕ) (expireAt : ℤ) : ExpireTable :=
  heapUpdate { tab with
    item := update tab.item node { tab.item node with expireAtMs := expireAt } } node

/-- `kvs_expire_set` at the time `now`: the return code and the table. -/
def kvsExpireSet (tab : ExpireTable) (engine : Int32) (key : Bytes) (ttlMs now : ℤ) (allocs : Allocs) :
    ℤ × ExpireTable :=
  if ttlMs ≤ 0 then (-1, tab)
  else
    let expireAt := wrap64 (now + ttlMs)
    match expireFind tab engine key with
    | some node => (0, setDeadline tab node expireAt)
    | none =>
      if !allocs.node || !allocs.key then (-1, tab)
      else
        match heapPush (linkItem tab engine key expireAt) tab.fresh allocs.heap with
        | none => (-1, tab) -- the item is taken from its chain again and freed
        | some tab => (0, { tab with count := tab.count + 1 })

/-- `kvs_expire_del`. -/
def kvsExpireDel (tab : ExpireTable) (engine : Int32) (key : Bytes) : ℤ × ExpireTable :=
  match expireFind tab engine key with
  | none => (1, tab)
  | some node => (0, expireFreeNode tab node)

/-- `kvs_expire_persist`. -/
def kvsExpirePersist (tab : ExpireTable) (engine : Int32) (key : Bytes) : ℤ × ExpireTable :=
  kvsExpireDel tab engine key

/-- `kvs_expire_is_expired`. -/
def kvsExpireIsExpired (tab : ExpireTable) (engine : Int32) (key : Bytes) (now : ℤ) : Bool :=
  match expireFind tab engine key with
  | none => false
  | some node => (tab.item node).expireAtMs ≤ now

/-- `kvs_expire_ttl`. -/
def kvsExpireTtl (tab : ExpireTable) (engine : Int32) (key : Bytes) (now : ℤ) : ℤ :=
  match expireFind tab engine key with
  | none => -1
  | some node =>
    if (tab.item node).expireAtMs ≤ now then -2
    else
      let remain := (tab.item node).expireAtMs - now
      if remain % 1000 ≠ 0 then remain / 1000 + 1 else remain / 1000

/-- By what is left of the budget: the keys deleted, and the table. -/
def activeExpireLoop (now : ℤ) : ℕ → ExpireTable → List (Int32 × Bytes) × ExpireTable
  | 0, tab => ([], tab)
  | budget + 1, tab =>
    if tab.heapSize = 0 then ([], tab)
    else
      let node := tab.item (tab.heap 0)
      if now < node.expireAtMs then ([], tab)
      else
        let (removed, tab) := activeExpireLoop now budget (expireFreeNode tab (tab.heap 0))
        ((node.engine, node.key) :: removed, tab)

/-- `kvs_active_expire_cycle` at the time `now`. -/
def kvsActiveExpireCycle (tab : ExpireTable) (budget now : ℤ) : List (Int32 × Bytes) × ExpireTable :=
  activeExpireLoop now budget.toNat tab

/-- A call of the table. -/
inductive ExpireCall where
  | set (engine : Int32) (key : Bytes) (ttlMs now : ℤ) (allocs : Allocs)
  | del (engine : Int32) (key : Bytes)
  | persist (engine : Int32) (key : Bytes)
  | activeCycle (budget now : ℤ)

/-- The table after a call. -/
def ExpireTable.call (tab : ExpireTable) : ExpireCall → ExpireTable
  | .set engine key ttlMs now allocs => (kvsExpireSet tab engine key ttlMs now allocs).2
  | .del engine key => (kvsExpireDel tab engine key).2
  | .persist engine key => (kvsExpirePersist tab engine key).2
  | .activeCycle budget now => (kvsActiveExpireCycle tab budget now).2

/-! ### What an operation on the heap keeps -/

namespace ExpireTable

/-- Every item in the heap knows its place. -/
def Indexed (tab : ExpireTable) : Prop := ∀ i, i < tab.heapSize → (tab.item (tab.heap i)).heapIndex = i

/-- The item is in the heap. -/
def InHeap (tab : ExpireTable) (a : ℕ) : Prop := ∃ i, i < tab.heapSize ∧ tab.heap i = a

/-- Nothing but the heap and the places of the items has changed. -/
structure Keeps (tab tab' : ExpireTable) : Prop where
  buckets : tab'.buckets = tab.buckets
  size : tab'.size = tab.size
  count : tab'.count = tab.count
  fresh : tab'.fresh = tab.fresh
  item : ∀ a, tab'.item a = { tab.item a with heapIndex := (tab'.item a).heapIndex }

lemma Keeps.refl (tab : ExpireTable) : Keeps tab tab := ⟨rfl, rfl, rfl, rfl, fun _ => rfl⟩

section

variable (h : Keeps tab tab')
include h

lemma Keeps.trans {tab'' : ExpireTable} (h' : Keeps tab' tab'') : Keeps tab tab'' := by
  refine ⟨h'.buckets.trans h.buckets, h'.size.trans h.size, h'.count.trans h.count, h'.fresh.trans h.fresh, ?_⟩
  intro a
  rw [h'.item a, h.item a]

lemma Keeps.key (a : ℕ) : (tab'.item a).key = (tab.item a).key := by
  rw [h.item a]

lemma Keeps.engine (a : ℕ) : (tab'.item a).engine = (tab.item a).engine := by
  rw [h.item a]

lemma Keeps.expireAtMs (a : ℕ) : (tab'.item a).expireAtMs = (tab.item a).expireAtMs := by
  rw [h.item a]

end

lemma keeps_setIndex (tab : ExpireTable) (a i : ℕ) : Keeps tab (tab.setIndex a i) := by
  refine ⟨rfl, rfl, rfl, rfl, fun b => ?_⟩
  by_cases hb : b = a
  · subst hb
    simp [setIndex]
  · simp [setIndex, hb]

lemma keeps_setSlot (tab : ExpireTable) (i a : ℕ) : Keeps tab (tab.setSlot i a) :=
  ⟨rfl, rfl, rfl, rfl, fun _ => rfl⟩

lemma keeps_setHeapSize (tab : ExpireTable) (n : ℕ) : Keeps tab (tab.setHeapSize n) :=
  ⟨rfl, rfl, rfl, rfl, fun _ => rfl⟩

/-- Moreover the heap holds the same addresses, and the items know their places. -/
structure Sifts (tab tab' : ExpireTable) : Prop extends Keeps tab tab' where
  heapSize : tab'.heapSize = tab.heapSize
  inHeap : ∀ a, tab'.InHeap a ↔ tab.InHeap a
  indexed : tab'.Indexed

variable {tab'' : ExpireTable}

lemma Sifts.refl (h : tab.Indexed) : Sifts tab tab := ⟨.refl tab, rfl, fun _ => Iff.rfl, h⟩

lemma Sifts.trans (h : Sifts tab tab') (h' : Sifts tab' tab'') : Sifts tab tab'' :=
  ⟨h.toKeeps.trans h'.toKeeps, h'.heapSize.trans h.heapSize, fun a => (h'.inHeap a).trans (h.inHeap a), h'.indexed⟩

lemma Indexed.inj (h : tab.Indexed) {i j : ℕ} (hi : i < tab.heapSize) (hj : j < tab.heapSize)
    (heq : tab.heap i = tab.heap j) : i = j := by
  rw [← h i hi, heq, h j hj]

end ExpireTable

/-! ### Exchanges -/

section Swap

variable {i j : ℕ}

lemma heapSize_heapSwap : (heapSwap tab i j).heapSize = tab.heapSize := by
  unfold heapSwap
  split <;> rfl

lemma heap_heapSwap : (heapSwap tab i j).heap = Heap.exchange tab.heap i j := by
  funext l
  unfold heapSwap
  split
  · rename_i hij
    simp [Heap.exchange, hij]
  · simp only [setIndex, setSlot, Heap.exchange, Equiv.swap_apply_def, update_apply]
    grind

lemma keeps_heapSwap : Keeps tab (heapSwap tab i j) := by
  unfold heapSwap
  split
  · exact .refl tab
  · exact (((keeps_setSlot tab i _).trans (keeps_setSlot _ j _)).trans (keeps_setIndex _ _ i)).trans
      (keeps_setIndex _ _ j)

lemma deadline_heapSwap : (heapSwap tab i j).deadline = Heap.exchange tab.deadline i j := by
  funext l
  rw [deadline, keeps_heapSwap.expireAtMs, heap_heapSwap]
  rfl

lemma heapIndex_heapSwap (hij : i ≠ j) (a : ℕ) : ((heapSwap tab i j).item a).heapIndex =
    if a = tab.heap i then j else if a = tab.heap j then i else (tab.item a).heapIndex := by
  have hi : update (update tab.heap i (tab.heap j)) j (tab.heap i) i = tab.heap j := by
    rw [update_of_ne hij, update_self]
  rw [heapSwap, if_neg hij]
  simp only [setIndex, setSlot, hi, update_self, update_apply]
  grind

lemma sifts_heapSwap (hx : tab.Indexed) (hi : i < tab.heapSize) (hj : j < tab.heapSize) :
    Sifts tab (heapSwap tab i j) := by
  by_cases hij : i = j
  · rw [heapSwap, if_pos hij]
    exact .refl hx
  refine ⟨keeps_heapSwap, heapSize_heapSwap, fun a => ?_, fun l hl => ?_⟩
  · simp only [InHeap, heapSize_heapSwap, heap_heapSwap]
    constructor
    · rintro ⟨l, hl, rfl⟩
      refine ⟨Equiv.swap i j l, ?_, rfl⟩
      rw [Equiv.swap_apply_def]
      split_ifs <;> assumption
    · rintro ⟨l, hl, rfl⟩
      refine ⟨Equiv.swap i j l, ?_, ?_⟩
      · rw [Equiv.swap_apply_def]
        split_ifs <;> assumption
      · rw [Heap.exchange, Equiv.swap_apply_self]
  · rw [heapSize_heapSwap] at hl
    rw [heapIndex_heapSwap hij, heap_heapSwap, Heap.exchange, Equiv.swap_apply_def]
    have hinj := fun {l m : ℕ} (h : l < tab.heapSize) (h' : m < tab.heapSize) => hx.inj h h'
    have hl' := hx l hl
    split_ifs <;> grind

end Swap

/-! ### The sifts -/

section Sift

variable {idx : ℕ}

lemma siftUpLoop_spec {fuel : ℕ} (hx : tab.Indexed) (hi : idx < tab.heapSize) (hfuel : idx ≤ fuel)
    (hr : Heap.Rising tab.deadline tab.heapSize idx) : Sifts tab (siftUpLoop fuel tab idx) ∧
      Heap.Ordered (siftUpLoop fuel tab idx).deadline tab.heapSize := by
  induction fuel generalizing tab idx with
  | zero => exact ⟨.refl hx, hr.stop (by omega)⟩
  | succ fuel ih =>
    rw [siftUpLoop]
    split
    · exact ⟨.refl hx, hr.stop (by omega)⟩
    rename_i hne
    have hpos : 0 < idx := Nat.pos_of_ne_zero hne
    have hlt : Heap.parent idx < idx := Heap.parent_lt hpos
    simp only
    split
    · rename_i hle
      exact ⟨.refl hx, hr.stop fun _ => hle⟩
    · rename_i hgt
      have hstep := hr.step hpos hi (not_le.mp hgt)
      have hswap := sifts_heapSwap hx (hlt.trans hi) hi
      rw [← deadline_heapSwap, ← hswap.heapSize] at hstep
      obtain ⟨hsifts, hordered⟩ := ih hswap.indexed (by rw [hswap.heapSize]; omega) (by omega) hstep
      rw [hswap.heapSize] at hordered
      exact ⟨hswap.trans hsifts, hordered⟩

lemma heapSiftUp_spec (hx : tab.Indexed) (hi : idx < tab.heapSize)
    (hr : Heap.Rising tab.deadline tab.heapSize idx) : Sifts tab (heapSiftUp tab idx) ∧
      Heap.Ordered (heapSiftUp tab idx).deadline tab.heapSize :=
  siftUpLoop_spec hx hi le_rfl hr

lemma smallestOf_spec (tab : ExpireTable) (idx : ℕ) :
    (smallestOf tab idx = idx ∧
      ∀ j, 0 < j → j < tab.heapSize → Heap.parent j = idx → tab.deadline idx ≤ tab.deadline j) ∨
    (0 < smallestOf tab idx ∧ smallestOf tab idx < tab.heapSize ∧ Heap.parent (smallestOf tab idx) = idx ∧
      tab.deadline (smallestOf tab idx) < tab.deadline idx ∧
      ∀ j, 0 < j → j < tab.heapSize → Heap.parent j = idx →
        tab.deadline (smallestOf tab idx) ≤ tab.deadline j) := by
  have hchild : ∀ {p : ℕ → Prop}, (idx * 2 + 1 < tab.heapSize → p (idx * 2 + 1)) →
      (idx * 2 + 2 < tab.heapSize → p (idx * 2 + 2)) →
      ∀ j, 0 < j → j < tab.heapSize → Heap.parent j = idx → p j := by
    intro p hleft hright j hj hn hp
    rcases (Heap.parent_eq_iff hj).mp hp with rfl | rfl
    · exact hleft hn
    · exact hright hn
  have hl : Heap.parent (idx * 2 + 1) = idx := (Heap.parent_eq_iff (by omega)).mpr (.inl rfl)
  have hr : Heap.parent (idx * 2 + 2) = idx := (Heap.parent_eq_iff (by omega)).mpr (.inr rfl)
  simp only [smallestOf]
  split_ifs with h1 h2 h3
  · refine .inr ⟨by omega, h2.1, hr, h2.2.trans h1.2, hchild (fun _ => h2.2.le) fun _ => le_rfl⟩
  · refine .inr ⟨by omega, h1.1, hl, h1.2, hchild (fun _ => le_rfl) fun hn => ?_⟩
    exact not_lt.mp fun hlt => h2 ⟨hn, hlt⟩
  · refine .inr ⟨by omega, h3.1, hr, h3.2, hchild (fun hn => ?_) fun _ => le_rfl⟩
    exact h3.2.le.trans (not_lt.mp fun hlt => h1 ⟨hn, hlt⟩)
  · refine .inl ⟨rfl, hchild (fun hn => ?_) fun hn => ?_⟩
    · exact not_lt.mp fun hlt => h1 ⟨hn, hlt⟩
    · exact not_lt.mp fun hlt => h3 ⟨hn, hlt⟩

lemma siftDownLoop_spec {fuel : ℕ} (hx : tab.Indexed) (hi : idx < tab.heapSize)
    (hfuel : tab.heapSize ≤ idx + fuel) (hs : Heap.Sinking tab.deadline tab.heapSize idx) :
    Sifts tab (siftDownLoop fuel tab idx) ∧
      Heap.Ordered (siftDownLoop fuel tab idx).deadline tab.heapSize := by
  induction fuel generalizing tab idx with
  | zero => omega
  | succ fuel ih =>
    rw [siftDownLoop]
    rcases smallestOf_spec tab idx with ⟨heq, hmin⟩ | ⟨hpos, hn, hp, hlt, hmin⟩
    · simp only [heq, if_true]
      exact ⟨.refl hx, hs.stop hmin⟩
    · have hne : idx < smallestOf tab idx := lt_of_eq_of_lt hp.symm (Heap.parent_lt hpos)
      have hswap := sifts_heapSwap hx hi hn
      have hstep := hs.loose.step hpos hn hp hlt hmin
      rw [← deadline_heapSwap, ← hswap.heapSize] at hstep
      simp only [hne.ne', if_false]
      obtain ⟨hsifts, hordered⟩ := ih hswap.indexed (by rw [hswap.heapSize]; exact hn)
        (by rw [hswap.heapSize]; omega) hstep
      rw [hswap.heapSize] at hordered
      exact ⟨hswap.trans hsifts, hordered⟩

lemma heapSiftDown_spec (hx : tab.Indexed) (hi : idx < tab.heapSize)
    (hl : Heap.Loose tab.deadline tab.heapSize idx) : Sifts tab (heapSiftDown tab idx) ∧
      (Heap.Ordered (heapSiftDown tab idx).deadline tab.heapSize ∨
        heapSiftDown tab idx = tab ∧ Heap.Rising tab.deadline tab.heapSize idx) := by
  obtain ⟨m, hm⟩ : ∃ m, tab.heapSize = m + 1 := ⟨tab.heapSize - 1, by omega⟩
  rw [heapSiftDown, hm, siftDownLoop, ← hm]
  rcases smallestOf_spec tab idx with ⟨heq, hmin⟩ | ⟨hpos, hn, hp, hlt, hmin⟩
  · simp only [heq, if_true]
    exact ⟨.refl hx, .inr ⟨trivial, hl.stop hmin⟩⟩
  · have hne : idx < smallestOf tab idx := lt_of_eq_of_lt hp.symm (Heap.parent_lt hpos)
    have hswap := sifts_heapSwap hx hi hn
    have hstep := hl.step hpos hn hp hlt hmin
    rw [← deadline_heapSwap, ← hswap.heapSize] at hstep
    have hfuel : (heapSwap tab idx (smallestOf tab idx)).heapSize ≤ smallestOf tab idx + m := by
      rw [hswap.heapSize]
      omega
    simp only [hne.ne', if_false]
    obtain ⟨hsifts, hordered⟩ := siftDownLoop_spec hswap.indexed (by rw [hswap.heapSize]; exact hn) hfuel hstep
    rw [hswap.heapSize] at hordered
    exact ⟨hswap.trans hsifts, .inl hordered⟩

lemma heapSift_spec (hx : tab.Indexed) (hi : idx < tab.heapSize)
    (hl : Heap.Loose tab.deadline tab.heapSize idx) {up : ℕ} (hup : up < tab.heapSize)
    (hstay : heapSiftDown tab idx = tab → up = idx) :
    Sifts tab (heapSiftUp (heapSiftDown tab idx) up) ∧
      Heap.Ordered (heapSiftUp (heapSiftDown tab idx) up).deadline tab.heapSize := by
  obtain ⟨hdown, horder⟩ := heapSiftDown_spec hx hi hl
  have hrising : Heap.Rising (heapSiftDown tab idx).deadline (heapSiftDown tab idx).heapSize up := by
    rw [hdown.heapSize]
    rcases horder with hordered | ⟨heq, hrising⟩
    · exact hordered.rising hup
    · rw [hstay heq, heq]
      exact hrising
  have hspec := heapSiftUp_spec hdown.indexed (by rw [hdown.heapSize]; exact hup) hrising
  rw [hdown.heapSize] at hspec
  exact ⟨hdown.trans hspec.1, hspec.2⟩

end Sift

/-! ### The operations on the heap -/

lemma heapPush_spec {node : ℕ} {alloc : Bool} (hx : tab.Indexed) (ho : Heap.Ordered tab.deadline tab.heapSize)
    (hnew : ¬ tab.InHeap node) (h : heapPush tab node alloc = some tab') :
    Keeps tab tab' ∧ tab'.heapSize = tab.heapSize + 1 ∧ tab'.Indexed ∧
      Heap.Ordered tab'.deadline tab'.heapSize ∧ ∀ a, tab'.InHeap a ↔ tab.InHeap a ∨ a = node := by
  simp only [heapPush, Option.map_eq_some_iff] at h
  obtain ⟨t, ht, hres⟩ := h
  -- `t` is the table with a greater capacity, at most
  have hne : ∀ i, i < tab.heapSize → tab.heap i ≠ node := fun i hi heq => hnew ⟨i, hi, heq⟩
  obtain ⟨hkeeps, hheap, hsize, hitem⟩ :
      Keeps tab t ∧ t.heap = tab.heap ∧ t.heapSize = tab.heapSize ∧ t.item = tab.item := by
    unfold heapEnsureCap at ht
    split_ifs at ht <;> cases ht <;> exact ⟨⟨rfl, rfl, rfl, rfl, fun _ => rfl⟩, rfl, rfl, rfl⟩
  set u := ((t.setSlot t.heapSize node).setIndex node t.heapSize).setHeapSize (t.heapSize + 1) with hu
  have hslot : ∀ i, i < tab.heapSize → u.heap i = tab.heap i := by
    intro i hi
    have : i ≠ t.heapSize := by omega
    simp [hu, setHeapSize, setIndex, setSlot, this, hheap]
  have htop : u.heap tab.heapSize = node := by simp [hu, setHeapSize, setIndex, setSlot, hsize]
  have hnode : (u.item node).heapIndex = tab.heapSize := by simp [hu, setHeapSize, setIndex, setSlot, hsize]
  have hother : ∀ a, a ≠ node → u.item a = tab.item a := by
    intro a ha
    simp [hu, setHeapSize, setIndex, setSlot, ha, hitem]
  have hsize' : u.heapSize = tab.heapSize + 1 := by simp [hu, setHeapSize, hsize]
  have hkeeps' : Keeps tab u :=
    hkeeps.trans (((keeps_setSlot t _ node).trans (keeps_setIndex _ node t.heapSize)).trans (keeps_setHeapSize _ _))
  have hux : u.Indexed := by
    intro i hi
    rcases Nat.lt_succ_iff_lt_or_eq.mp (hsize' ▸ hi) with hlt | rfl
    · rw [hslot i hlt, hother _ (hne i hlt)]
      exact hx i hlt
    · rw [htop, hnode]
  have hrise : Heap.Rising u.deadline u.heapSize tab.heapSize := by
    rw [hsize']
    refine ho.push fun j hj => ?_
    rw [deadline, deadline, hslot j hj, hother _ (hne j hj)]
  obtain ⟨hsifts, hordered⟩ := heapSiftUp_spec hux (by omega) hrise
  have hres : heapSiftUp u (u.item node).heapIndex = tab' := hres
  rw [hnode] at hres
  subst hres
  rw [hsifts.heapSize]
  refine ⟨hkeeps'.trans hsifts.toKeeps, hsize', hsifts.indexed, hordered, fun a => (hsifts.inHeap a).trans ?_⟩
  constructor
  · rintro ⟨i, hi, rfl⟩
    rcases Nat.lt_succ_iff_lt_or_eq.mp (hsize' ▸ hi) with hlt | rfl
    · exact .inl ⟨i, hlt, (hslot i hlt).symm⟩
    · exact .inr htop
  · rintro (⟨i, hi, rfl⟩ | rfl)
    · exact ⟨i, by omega, hslot i hi⟩
    · exact ⟨tab.heapSize, by omega, htop⟩

lemma cut_spec {last : ℕ} (hx : tab.Indexed) (hlast : tab.heapSize = last + 1) {cut : ExpireTable}
    (hcut : cut = ((tab.setIndex (tab.heap last) noIndex).setSlot last 0).setHeapSize last) :
    Keeps tab cut ∧ cut.heapSize = last ∧ cut.Indexed ∧ (∀ j, j < last → cut.deadline j = tab.deadline j) ∧
      ∀ a, cut.InHeap a ↔ tab.InHeap a ∧ a ≠ tab.heap last := by
  have hsize : cut.heapSize = last := by rw [hcut]; rfl
  have hheap : ∀ i, i < last → cut.heap i = tab.heap i := by
    intro i hi
    simp [hcut, setHeapSize, setIndex, setSlot, hi.ne]
  have hne : ∀ i, i < last → tab.heap i ≠ tab.heap last := by
    intro i hi heq
    have := hx.inj (by omega) (by omega) heq
    omega
  have hkeeps : Keeps tab cut := by
    rw [hcut]
    exact ((keeps_setIndex tab _ noIndex).trans (keeps_setSlot _ last 0)).trans (keeps_setHeapSize _ last)
  refine ⟨hkeeps, hsize, fun i hi => ?_, fun j hj => ?_, fun a => ?_⟩
  · rw [hsize] at hi
    rw [hheap i hi]
    simp only [hcut, setHeapSize, setIndex, setSlot, update_of_ne (hne i hi)]
    exact hx i (by omega)
  · rw [deadline, deadline, hheap j hj, hkeeps.expireAtMs]
  · simp only [InHeap, hsize]
    constructor
    · rintro ⟨i, hi, rfl⟩
      rw [hheap i hi]
      exact ⟨⟨i, by omega, rfl⟩, hne i hi⟩
    · rintro ⟨⟨i, hi, rfl⟩, ha⟩
      have hil : i < last := by
        refine lt_of_le_of_ne (by omega) fun heq => ha ?_
        rw [heq]
      exact ⟨i, hil, hheap i hil⟩

lemma heapRemoveAt_spec {idx : ℕ} (hx : tab.Indexed) (ho : Heap.Ordered tab.deadline tab.heapSize)
    (hi : idx < tab.heapSize) :
    Keeps tab (heapRemoveAt tab idx) ∧ (heapRemoveAt tab idx).heapSize = tab.heapSize - 1 ∧
      (heapRemoveAt tab idx).Indexed ∧
      Heap.Ordered (heapRemoveAt tab idx).deadline (heapRemoveAt tab idx).heapSize ∧
      ∀ a, (heapRemoveAt tab idx).InHeap a ↔ tab.InHeap a ∧ a ≠ tab.heap idx := by
  obtain ⟨last, hlast⟩ : ∃ last, tab.heapSize = last + 1 := ⟨tab.heapSize - 1, by omega⟩
  have hsub : tab.heapSize - 1 = last := by omega
  rw [heapRemoveAt, if_neg (by omega)]
  simp only [hsub]
  -- the item is exchanged with the last one
  set t : ExpireTable := if idx ≠ last then heapSwap tab idx last else tab with ht
  obtain ⟨hsifts, htop, hdead⟩ : Sifts tab t ∧ t.heap last = tab.heap idx ∧
      ∀ j, j < last → j ≠ idx → t.deadline j = tab.deadline j := by
    rw [ht]
    split_ifs with hne
    · refine ⟨sifts_heapSwap hx hi (by omega), ?_, ?_⟩
      · rw [heap_heapSwap, Heap.exchange_right]
      · intro j hj hji
        rw [deadline_heapSwap, Heap.exchange_of_ne _ _ _ hji hj.ne]
    · refine ⟨.refl hx, ?_, fun _ _ _ => rfl⟩
      rw [not_not.mp hne]
  have htsize : t.heapSize = last + 1 := hsifts.heapSize.trans hlast
  have hcutSize : t.heapSize - 1 = last := by omega
  set cut := ((t.setIndex (t.heap last) noIndex).setSlot last 0).setHeapSize last with hcut
  obtain ⟨hkeeps, hsize, hindexed, hsame, hin⟩ := cut_spec hsifts.indexed htsize hcut
  have hgoal : ((t.setIndex (t.heap last) noIndex).setSlot last 0).setHeapSize
      (((t.setIndex (t.heap last) noIndex).setSlot last 0).heapSize - 1) = cut := by
    rw [hcut, ← hcutSize]
    rfl
  rw [hgoal]
  have hin' : ∀ a, cut.InHeap a ↔ tab.InHeap a ∧ a ≠ tab.heap idx := fun a => by
    rw [hin a, hsifts.inHeap a, htop]
  have hdead' : ∀ j, j < last → j ≠ idx → cut.deadline j = tab.deadline j :=
    fun j hj hji => (hsame j hj).trans (hdead j hj hji)
  have hloose : Heap.Loose cut.deadline cut.heapSize idx := by
    rw [hsize]
    exact ho.loose (by omega) hi hdead'
  split_ifs with hlt
  · obtain ⟨hs, hordered⟩ := heapSift_spec hindexed hlt hloose hlt fun _ => rfl
    exact ⟨(hsifts.toKeeps.trans hkeeps).trans hs.toKeeps, hs.heapSize.trans hsize, hs.indexed,
      by rw [hs.heapSize]; exact hordered, fun a => (hs.inHeap a).trans (hin' a)⟩
  · refine ⟨hsifts.toKeeps.trans hkeeps, hsize, hindexed, ?_, hin'⟩
    intro j hj hjn
    have hplt := Heap.parent_lt hj
    exact hloose.rest j hj hjn (by omega) (by omega)

end PocketKv.Storage
