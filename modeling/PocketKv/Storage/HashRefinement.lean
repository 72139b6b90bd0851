import PocketKv.Library.Run
import PocketKv.Storage.Hash
import PocketKv.Store.Engines

/-!
# The hash engine is a finite map
-/

namespace PocketKv.Storage

open Library Resp List Function Multiset

variable {key : Bytes} {t : Fin 2} {p : Place} {m : Store.Table Bytes Bytes} {chain : List HashNode} {n : HashNode}
  {h : KvsHash} {tab : Hashtable} {idx : ℕ} {count : ℤ}

/-! ### Nodes -/

/-- The value as `kvs_hash_get_len` gives it out. -/
def HashNode.val (n : HashNode) : Bytes := n.block.take n.vlen

/-- The value is followed by a NUL, inside its buffer. -/
structure HashNode.Sound (n : HashNode) : Prop where
  nul : n.block[n.vlen]? = some 0
  fits : n.block.length ≤ n.vcap

lemma HashNode.Sound.cstr_block (h : n.Sound) : cstr n.block = cstr n.val := by
  have hlt : n.vlen < n.block.length := (List.getElem?_eq_some_iff.mp h.nul).1
  have hsplit : n.block = n.val ++ 0 :: n.block.drop (n.vlen + 1) := by
    have hget : n.block[n.vlen] = 0 := (List.getElem?_eq_some_iff.mp h.nul).2
    conv_lhs => rw [← take_append_drop n.vlen n.block, ← cons_getElem_drop_succ (h := hlt), hget]
    rfl
  conv_lhs => rw [hsplit]
  rw [cstr, cstr, takeWhile_append]
  split
  · rename_i hall
    simpa using ((List.takeWhile_prefix _).eq_of_length hall).symm
  · rfl

lemma sound_createNodeLen (hv : UInt32) (key value : Bytes) : (createNodeLen hv key value).Sound :=
  ⟨by simp [createNodeLen], by simp [createNodeLen]⟩

@[simp] lemma val_createNodeLen (hv : UInt32) (key value : Bytes) : (createNodeLen hv key value).val = value := by
  simp [createNodeLen, HashNode.val]

lemma HashNode.Sound.overwriteValue (h : n.Sound) (value : Bytes) : (overwriteValue value n).Sound := by
  have hfits := h.fits
  unfold Storage.overwriteValue
  split
  · refine ⟨by simp, ?_⟩
    simp only [length_append, length_cons, length_drop]
    omega
  · refine ⟨by simp, ?_⟩
    simp only [length_append, length_cons, length_nil]
    split_ifs <;> omega

@[simp] lemma val_overwriteValue (value : Bytes) (n : HashNode) : (overwriteValue value n).val = value := by
  unfold overwriteValue HashNode.val
  split <;> simp

@[simp] lemma key_overwriteValue (value : Bytes) (n : HashNode) : (overwriteValue value n).key = n.key := by
  unfold overwriteValue
  split <;> rfl

@[simp] lemma hv_overwriteValue (value : Bytes) (n : HashNode) : (overwriteValue value n).hv = n.hv := by
  unfold overwriteValue
  split <;> rfl

/-! ### One table -/

namespace Hashtable

/-- Every node is in the chain that the hash of its key selects, and the nodes are counted. -/
structure Sound (tab : Hashtable) (hash : Bytes → UInt32) : Prop where
  placed : ∀ i n, i < tab.maxSlots → n ∈ tab.nodes i → i = hashIdx (hash n.key) tab.maxSlots
  hashed : ∀ n, n ∈ tab.all → n.hv = hash n.key
  nodes : ∀ n, n ∈ tab.all → n.Sound
  count : tab.count = tab.all.card

/-- What holds of a node in the chain `idx`. -/
def Fits (tab : Hashtable) (hash : Bytes → UInt32) (idx : ℕ) (n : HashNode) : Prop :=
  n.hv = hash n.key ∧ idx = hashIdx (hash n.key) tab.maxSlots ∧ n.Sound

variable {hash : Bytes → UInt32}

lemma all_new (n : ℕ) : (Hashtable.new n).all = 0 := contents_nil n

lemma all_none : Hashtable.none.all = 0 := contents_nil 0

lemma sound_of_empty (hash : Bytes → UInt32) (hall : tab.all = 0) (hcount : tab.count = 0) : tab.Sound hash where
  placed := by
    intro i n hi hn
    have : n ∈ tab.all := mem_contents.mpr ⟨i, hi, hn⟩
    simp [hall] at this
  hashed := by simp [hall]
  nodes := by simp [hall]
  count := by simp [hall, hcount]

lemma Sound.count_pos (h : tab.Sound hash) : 0 < tab.count ↔ tab.all ≠ 0 := by
  rw [h.count, Int.natCast_pos, card_pos]

lemma pos_of_all (hall : tab.all ≠ 0) : 0 < tab.maxSlots := by
  refine Nat.pos_of_ne_zero fun h0 => hall ?_
  rw [all, h0]
  rfl

lemma Sound.mem_chain (h : tab.Sound hash) (hn : n ∈ tab.all) :
    n ∈ tab.nodes (hashIdx (hash n.key) tab.maxSlots) := by
  obtain ⟨i, hi, hn⟩ := mem_contents.mp hn
  rwa [← h.placed i n hi hn]

lemma Sound.setChain (h : tab.Sound hash) (hidx : idx < tab.maxSlots)
    (hchain : ∀ n, n ∈ chain → tab.Fits hash idx n)
    (hcount : count = tab.count + chain.length - (tab.nodes idx).length) :
    Sound { tab with nodes := update tab.nodes idx chain, count := count } hash ∧
      all { tab with nodes := update tab.nodes idx chain, count := count } + ↑(tab.nodes idx) =
        tab.all + ↑chain := by
  have hall : contents (update tab.nodes idx chain) tab.maxSlots + ↑(tab.nodes idx) =
      contents tab.nodes tab.maxSlots + ↑chain := contents_update hidx chain
  have hmem : ∀ n, n ∈ contents (update tab.nodes idx chain) tab.maxSlots → n ∈ chain ∨ n ∈ tab.all := by
    intro n hn
    obtain ⟨i, hi, hn⟩ := mem_contents.mp hn
    by_cases hidx : i = idx
    · rw [hidx, update_self] at hn
      exact .inl hn
    · rw [update_of_ne hidx] at hn
      exact .inr (mem_contents.mpr ⟨i, hi, hn⟩)
  refine ⟨⟨fun i n hi hn => ?_, fun n hn => ?_, fun n hn => ?_, ?_⟩, hall⟩
  · by_cases hidx : i = idx
    · subst hidx
      have hn : n ∈ update tab.nodes i chain i := hn
      rw [update_self] at hn
      exact (hchain n hn).2.1
    · have hn : n ∈ update tab.nodes idx chain i := hn
      rw [update_of_ne hidx] at hn
      exact h.placed i n hi hn
  · rcases hmem n hn with hn | hn
    · exact (hchain n hn).1
    · exact h.hashed n hn
  · rcases hmem n hn with hn | hn
    · exact (hchain n hn).2.2
    · exact h.nodes n hn
  · have hcard := congrArg Multiset.card hall
    simp only [card_add, coe_card] at hcard
    change count = ((contents (update tab.nodes idx chain) tab.maxSlots).card : ℤ)
    have hold := h.count
    rw [all] at hold
    omega

lemma Sound.of_mem (h : tab.Sound hash) (hidx : idx < tab.maxSlots)
    (hn : n ∈ tab.nodes idx) : tab.Fits hash idx n := by
  have hall : n ∈ tab.all := mem_contents.mpr ⟨idx, hidx, hn⟩
  exact ⟨h.hashed n hall, h.placed idx n hidx hn, h.nodes n hall⟩

lemma Sound.push (h : tab.Sound hash) (hpos : 0 < tab.maxSlots) (hhv : n.hv = hash n.key)
    (hn : n.Sound) : (tab.push (hashIdx n.hv tab.maxSlots) n).Sound hash ∧
      (tab.push (hashIdx n.hv tab.maxSlots) n).all = tab.all + {n} := by
  have hidx : hashIdx n.hv tab.maxSlots < tab.maxSlots := Nat.mod_lt _ hpos
  have hchain : ∀ b, b ∈ n :: tab.nodes (hashIdx n.hv tab.maxSlots) → tab.Fits hash (hashIdx n.hv tab.maxSlots) b := by
    intro b hb
    rcases mem_cons.mp hb with rfl | hb
    · exact ⟨hhv, by rw [hhv], hn⟩
    · exact h.of_mem hidx hb
  have hcount : tab.count + 1 = tab.count + (n :: tab.nodes (hashIdx n.hv tab.maxSlots)).length -
      (tab.nodes (hashIdx n.hv tab.maxSlots)).length := by
    rw [length_cons]
    push_cast
    ring
  obtain ⟨hsound, hall⟩ := h.setChain hidx hchain hcount
  refine ⟨hsound, ?_⟩
  refine add_right_cancel (hall.trans ?_)
  rw [← cons_coe, ← singleton_add, add_assoc]

end Hashtable

section Rehash

variable {hash : Bytes → UInt32} {h0 h1 : Hashtable}

lemma migrate_spec (h : h1.Sound hash) (hpos : 0 < h1.maxSlots)
    (hchain : ∀ n, n ∈ chain → n.hv = hash n.key ∧ n.Sound) :
    (migrate h1 chain).Sound hash ∧ (migrate h1 chain).all = h1.all + ↑chain ∧
      (migrate h1 chain).maxSlots = h1.maxSlots ∧ (migrate h1 chain).allocated = h1.allocated := by
  unfold migrate
  induction chain generalizing h1 with
  | nil => exact ⟨h, (add_zero _).symm, rfl, rfl⟩
  | cons n chain ih =>
    obtain ⟨hhv, hn⟩ := hchain n mem_cons_self
    obtain ⟨hsound, hall⟩ := h.push hpos hhv hn
    obtain ⟨ihsound, ihall, ihmax, ihalloc⟩ := ih hsound hpos fun b hb => hchain b (mem_cons_of_mem n hb)
    refine ⟨ihsound, ?_, ihmax, ihalloc⟩
    rw [List.foldl_cons, ihall, hall, ← cons_coe, ← singleton_add, add_assoc]

/-- A rehash of `h` under way, with the tables `h0` and `h1` and `idx` chains gone over. -/
structure Rehashing (h : KvsHash) (h0 h1 : Hashtable) (idx : ℕ) : Prop where
  sound0 : h0.Sound h.hashOf
  sound1 : h1.Sound h.hashOf
  all : h0.all + h1.all = h.all
  live0 : h0.allocated = true ∧ 0 < h0.maxSlots
  live1 : h1.allocated = true ∧ 0 < h1.maxSlots
  le : idx ≤ h0.maxSlots
  passed : ∀ j, j < idx → h0.nodes j = []

lemma Rehashing.loop (hr : Rehashing h h0 h1 idx) (fuel remaining : ℕ) :
    let r := rehashLoop fuel remaining h0 h1 idx
    Rehashing h r.1 r.2.1 r.2.2 := by
  induction fuel generalizing remaining h0 h1 idx with
  | zero => exact hr
  | succ fuel ih =>
    rw [rehashLoop]
    split
    swap
    · exact hr
    rename_i hguard
    dsimp only
    have hpassed : ∀ (nodes : ℕ → List HashNode), nodes idx = [] → (∀ j, j ≠ idx → nodes j = h0.nodes j) →
        ∀ j, j < idx + 1 → nodes j = [] := by
      intro nodes hnil hsame j hj
      by_cases hji : j = idx
      · rw [hji, hnil]
      · rw [hsame j hji]
        exact hr.passed j (by omega)
    split
    · -- the chain goes over
      have hcount : h0.count - (h0.nodes idx).length =
          h0.count + ([] : List HashNode).length - (h0.nodes idx).length := by simp
      obtain ⟨hs0, hall0⟩ := hr.sound0.setChain hguard.2 (by simp) hcount
      rw [coe_nil, add_zero] at hall0
      obtain ⟨hs1, hall1, hmax1, halloc1⟩ := migrate_spec hr.sound1 hr.live1.2
        fun n hn => ⟨(hr.sound0.of_mem hguard.2 hn).1, (hr.sound0.of_mem hguard.2 hn).2.2⟩
      refine ih ⟨hs0, hs1, ?_, hr.live0, ⟨halloc1.trans hr.live1.1, hmax1 ▸ hr.live1.2⟩, hguard.2,
        hpassed _ (update_self ..) fun j hj => update_of_ne hj ..⟩ _
      rw [hall1, ← hr.all, ← hall0]
      abel
    · rename_i hnil
      exact ih { hr with le := hguard.2, passed := hpassed _ (not_not.mp hnil) fun _ _ => rfl } _

end Rehash

/-! ### The engine -/

namespace KvsHash

/-- The invariant of the engine. -/
structure Inv (h : KvsHash) : Prop where
  sound : ∀ t, (h.ht t).Sound h.hashOf
  live : (h.ht 0).allocated = true ∧ 0 < (h.ht 0).maxSlots
  idle : h.rehashIdx = none → h.ht 1 = .none
  /-- During a rehash the chains below `rehash_idx` have gone over. -/
  busy : ∀ idx, h.rehashIdx = some idx → (h.ht 1).allocated = true ∧ 0 < (h.ht 1).maxSlots ∧
    idx < (h.ht 0).maxSlots ∧ ∀ j, j < idx → (h.ht 0).nodes j = []
  seeded : h.all ≠ 0 → h.seeded = true

lemma all_le_all (h : KvsHash) (t : Fin 2) : (h.ht t).all ≤ h.all := by
  match t with
  | 0 => exact le_add_right _ _
  | 1 => exact le_add_left _ _

section

variable (hi : h.Inv)
include hi

/-- The first table passes the guard of a lookup just if it has a node. -/
lemma Inv.guard_first : (h.ht 0).allocated = true ∧ 0 < (h.ht 0).count ↔ (h.ht 0).all ≠ 0 := by
  simp [hi.live.1, (hi.sound 0).count_pos]

lemma Inv.guard_second :
    h.rehashIdx.isSome = true ∧ (h.ht 1).allocated = true ∧ 0 < (h.ht 1).count ↔ (h.ht 1).all ≠ 0 := by
  cases hidx : h.rehashIdx with
  | none => simp [hi.idle hidx, Hashtable.all_none]
  | some idx => simp [(hi.busy idx hidx).1, (hi.sound 1).count_pos]

lemma Inv.seeded_of_all (hall : (h.ht t).all ≠ 0) : h.seeded = true :=
  hi.seeded fun h0 => hall (Multiset.le_zero.mp (h0 ▸ all_le_all h t))

end

lemma hashRaw_of_seeded (hs : h.seeded = true) (key : Bytes) : hashRaw h key = (h.hashOf key, h) := by
  rw [hashRaw, hashSeed, if_pos hs]

@[simp] lemma ht_setTable_self (h : KvsHash) (t : Fin 2) (tab : Hashtable) : (h.setTable t tab).ht t = tab := by
  simp [setTable]

lemma ht_setTable_of_ne (h : KvsHash) {t' : Fin 2} (tab : Hashtable) (hne : t' ≠ t) :
    (h.setTable t tab).ht t' = h.ht t' := by
  simp [setTable, hne]

end KvsHash

open KvsHash

lemma KvsHash.Inv.of_tables {h h' : KvsHash} {tab0 tab1 : Hashtable} (hk0 : h'.k0 = h.k0) (hk1 : h'.k1 = h.k1)
    (h0 : h'.ht 0 = tab0) (h1 : h'.ht 1 = tab1) (hs0 : tab0.Sound h.hashOf) (hs1 : tab1.Sound h.hashOf)
    (hlive : tab0.allocated = true ∧ 0 < tab0.maxSlots) (hidle : h'.rehashIdx = none → tab1 = .none)
    (hbusy : ∀ idx, h'.rehashIdx = some idx → tab1.allocated = true ∧ 0 < tab1.maxSlots ∧
      idx < tab0.maxSlots ∧ ∀ j, j < idx → tab0.nodes j = [])
    (hseeded : tab0.all + tab1.all ≠ 0 → h.seeded = true) : h'.Inv := by
  subst h0 h1
  have hhash : h'.hashOf = h.hashOf := by
    funext key
    rw [hashOf, hashOf, hk0, hk1]
  refine ⟨fun t => ?_, hlive, hidle, hbusy, fun hne => ?_⟩
  · rw [hhash]
    match t with
    | 0 => exact hs0
    | 1 => exact hs1
  · rw [KvsHash.seeded, hk0, hk1]
    exact hseeded hne

lemma rehashStep_spec (hi : h.Inv) (buckets : ℕ) :
    (rehashStep h buckets).Inv ∧ (rehashStep h buckets).all = h.all ∧ (rehashStep h buckets).k0 = h.k0 ∧
      (rehashStep h buckets).k1 = h.k1 ∧ (rehashStep h buckets).draws = h.draws := by
  unfold rehashStep
  cases hidx : h.rehashIdx with
  | none => exact ⟨hi, rfl, rfl, rfl, rfl⟩
  | some idx =>
    obtain ⟨halloc, hpos, hlt, hempty⟩ := hi.busy idx hidx
    have hr := Rehashing.loop ⟨hi.sound 0, hi.sound 1, rfl, hi.live, ⟨halloc, hpos⟩, hlt.le, hempty⟩
      ((h.ht 0).maxSlots - idx) buckets
    dsimp only at hr ⊢
    generalize rehashLoop ((h.ht 0).maxSlots - idx) buckets (h.ht 0) (h.ht 1) idx = r at hr ⊢
    obtain ⟨h0, h1, idx'⟩ := r
    dsimp only at hr ⊢
    split
    · -- the second table takes the place of the first
      rename_i hend
      have hgone : h0.all = 0 := by
        refine eq_zero_of_forall_notMem fun n hn => ?_
        obtain ⟨j, hj, hn⟩ := mem_contents.mp hn
        simp [hr.passed j (hj.trans_le hend)] at hn
      have hall : h1.all + Hashtable.none.all = h.all := by
        rw [← hr.all, hgone, Hashtable.all_none, add_comm]
      set h' : KvsHash := { (h.setTable 0 h1).setTable 1 .none with rehashIdx := none }
      have h0eq : h'.ht 0 = h1 := rfl
      have h1eq : h'.ht 1 = .none := rfl
      exact ⟨.of_tables rfl rfl h0eq h1eq hr.sound1 (Hashtable.sound_of_empty _ Hashtable.all_none rfl) hr.live1
        (fun _ => rfl) nofun fun hne => hi.seeded (hall ▸ hne), hall, rfl, rfl, rfl⟩
    · rename_i hend
      set h' : KvsHash := { (h.setTable 0 h0).setTable 1 h1 with rehashIdx := some idx' }
      have h0eq : h'.ht 0 = h0 := rfl
      have h1eq : h'.ht 1 = h1 := rfl
      refine ⟨.of_tables rfl rfl h0eq h1eq hr.sound0 hr.sound1 hr.live0 nofun (fun i hsome => ?_)
        fun hne => hi.seeded (hr.all ▸ hne), hr.all, rfl, rfl, rfl⟩
      obtain rfl : idx' = i := Option.some.inj hsome
      exact ⟨hr.live1.1, hr.live1.2, not_le.mp hend, hr.passed⟩

/-! ### Lookups -/

/-- `p` is the first node of its chain with the key. -/
structure FoundIn (h : KvsHash) (key : Bytes) (p : Place) : Prop where
  lt : p.idx < (h.ht p.t).maxSlots
  keyed : p.node.key = key
  find : ((h.ht p.t).nodes p.idx).find? (·.key = key) = some p.node

lemma FoundIn.mem (hf : FoundIn h key p) : p.node ∈ (h.ht p.t).nodes p.idx :=
  mem_of_find?_eq_some hf.find

lemma FoundIn.mem_all (hf : FoundIn h key p) : p.node ∈ h.all :=
  mem_of_le (all_le_all h p.t) (mem_contents.mpr ⟨p.idx, hf.lt, hf.mem⟩)

/-- What a lookup of `key` among the nodes `s` says. -/
structure Looked (h : KvsHash) (s : Multiset HashNode) (key : Bytes) (p : Option Place) : Prop where
  found : ∀ q, p = some q → FoundIn h key q
  absent : p = none → ∀ n, n ∈ s → n.key ≠ key

lemma probe_spec (hi : h.Inv) (t : Fin 2) (key : Bytes) :
    ∃ p, (if (h.ht t).all ≠ 0 then probe h t key else (none, h)) = (p, h) ∧ Looked h (h.ht t).all key p := by
  split
  · rename_i hall
    rw [probe, hashRaw_of_seeded (hi.seeded_of_all hall)]
    refine ⟨_, rfl, fun q hq => ?_, fun hnone n hn hkey => ?_⟩
    · obtain ⟨n, hfind, rfl⟩ := Option.map_eq_some_iff.mp hq
      exact ⟨Nat.mod_lt _ (Hashtable.pos_of_all hall), by simpa using find?_some hfind, hfind⟩
    · have hmem := (hi.sound t).mem_chain hn
      rw [hkey] at hmem
      exact find?_eq_none.mp (Option.map_eq_none_iff.mp hnone) n hmem (by simpa using hkey)
  · rename_i hall
    exact ⟨none, rfl, nofun, fun _ => by simp [not_not.mp hall]⟩

lemma findNode_spec (hi : h.Inv) (key : Bytes) : ∃ p, findNode h key = (p, h) ∧ Looked h h.all key p := by
  obtain ⟨p, hfirst, hp⟩ := probe_spec hi 0 key
  obtain ⟨q, hsecond, hq⟩ := probe_spec hi 1 key
  simp only [findNode, hi.guard_first, hfirst]
  cases p with
  | some p => exact ⟨some p, rfl, hp.found, nofun⟩
  | none =>
    simp only [hi.guard_second, hsecond]
    exact ⟨q, rfl, hq.found, fun hnone n hn => (Multiset.mem_add.mp hn).elim (hp.absent rfl n) (hq.absent hnone n)⟩

/-! ### Changes to one table -/

section Change

lemma all_setTable (h : KvsHash) {old new : Multiset HashNode}
    (htab : tab.all + old = (h.ht t).all + new) : (h.setTable t tab).all + old = h.all + new := by
  match t with
  | 0 =>
    rw [KvsHash.all, KvsHash.all, ht_setTable_self, ht_setTable_of_ne _ _ (by decide), add_right_comm, htab]
    abel
  | 1 =>
    rw [KvsHash.all, KvsHash.all, ht_setTable_self, ht_setTable_of_ne _ _ (by decide), add_assoc, htab]
    abel

section

variable (hi : h.Inv)
include hi

lemma KvsHash.Inv.setTable (hs : tab.Sound h.hashOf)
    (hmax : tab.maxSlots = (h.ht t).maxSlots) (halloc : tab.allocated = (h.ht t).allocated)
    (hidle : h.rehashIdx = none → t = 0)
    (hempty : ∀ idx, h.rehashIdx = some idx → t = 0 → ∀ j, j < idx → tab.nodes j = [])
    (hseeded : (h.setTable t tab).all ≠ 0 → h.seeded = true) : (h.setTable t tab).Inv := by
  match t with
  | 0 =>
    refine .of_tables rfl rfl (ht_setTable_self h 0 tab) (ht_setTable_of_ne h tab (by decide)) hs (hi.sound 1)
      ⟨halloc.trans hi.live.1, hmax ▸ hi.live.2⟩ hi.idle (fun idx hidx => ?_) hseeded
    obtain ⟨ha, hpos, hlt, -⟩ := hi.busy idx hidx
    exact ⟨ha, hpos, hmax ▸ hlt, hempty idx hidx rfl⟩
  | 1 =>
    refine .of_tables rfl rfl (ht_setTable_of_ne h tab (by decide)) (ht_setTable_self h 1 tab) (hi.sound 0) hs hi.live
      (fun hnone => absurd (hidle hnone) (by decide)) (fun idx hidx => ?_) hseeded
    obtain ⟨ha, hpos, hlt, hdone⟩ := hi.busy idx hidx
    exact ⟨halloc.trans ha, hmax ▸ hpos, hlt, hdone⟩

lemma FoundIn.table (hf : FoundIn h key p) (hnone : h.rehashIdx = none) : p.t = 0 := by
  obtain ⟨t, idx, node⟩ := p
  match t with
  | 0 => rfl
  | 1 =>
    have hlt := hf.lt
    simp only [hi.idle hnone, Hashtable.none] at hlt
    cases hlt

lemma KvsHash.Inv.rechain (hf : FoundIn h key p)
    (hchain : ∀ n, n ∈ chain → (h.ht p.t).Fits h.hashOf p.idx n)
    (hcount : count = (h.ht p.t).count + chain.length - ((h.ht p.t).nodes p.idx).length) :
    let tab : Hashtable := { h.ht p.t with nodes := update (h.ht p.t).nodes p.idx chain, count := count }
    (h.setTable p.t tab).Inv ∧
      (h.setTable p.t tab).all + ↑((h.ht p.t).nodes p.idx) = h.all + ↑chain := by
  intro tab
  obtain ⟨hsound, hall⟩ := (hi.sound p.t).setChain hf.lt hchain hcount
  have hseeded : h.seeded = true := hi.seeded fun h0 => by simpa [h0] using hf.mem_all
  refine ⟨hi.setTable hsound rfl rfl (hf.table hi) (fun idx hidx ht j hj => ?_) fun _ => hseeded, all_setTable h hall⟩
  have hnil : (h.ht p.t).nodes j = [] := by
    rw [ht]
    exact (hi.busy idx hidx).2.2.2 j hj
  change update (h.ht p.t).nodes p.idx chain j = []
  by_cases hjp : j = p.idx
  · have hmem := hf.mem
    rw [← hjp, hnil] at hmem
    cases hmem
  · rw [update_of_ne hjp, hnil]

lemma overwriteAt_spec (hf : FoundIn h key p) (value : Bytes) :
    (overwriteAt h p value).Inv ∧ (overwriteAt h p value).all + {p.node} = h.all + {overwriteValue value p.node} := by
  have hkey := hf.keyed
  have hmodify := coe_modifyFirst (overwriteValue value) (hkey ▸ hf.find)
  set chain := modifyFirst (fun n => decide (n.key = p.node.key)) (overwriteValue value) ((h.ht p.t).nodes p.idx)
  have hlength : chain.length = ((h.ht p.t).nodes p.idx).length := by
    have := congrArg Multiset.card hmodify
    simpa using this
  have hchain : ∀ n, n ∈ chain → (h.ht p.t).Fits h.hashOf p.idx n := by
    intro n hn
    have hmem : n ∈ ((h.ht p.t).nodes p.idx : Multiset HashNode) + {overwriteValue value p.node} := by
      rw [← hmodify]
      exact Multiset.mem_add.mpr (.inl hn)
    rcases Multiset.mem_add.mp hmem with hn | hn
    · exact (hi.sound p.t).of_mem hf.lt hn
    · rw [Multiset.mem_singleton.mp hn, Hashtable.Fits, hv_overwriteValue, key_overwriteValue]
      obtain ⟨hhv, hidx, hsound⟩ := (hi.sound p.t).of_mem hf.lt hf.mem
      exact ⟨hhv, hidx, hsound.overwriteValue value⟩
  have hcount : (h.ht p.t).count = (h.ht p.t).count + chain.length - ((h.ht p.t).nodes p.idx).length := by
    rw [hlength]
    ring
  obtain ⟨hinv, hall⟩ := hi.rechain hf hchain hcount
  refine ⟨hinv, add_right_cancel (b := ↑((h.ht p.t).nodes p.idx)) ?_⟩
  calc (overwriteAt h p value).all + {p.node} + ↑((h.ht p.t).nodes p.idx)
      = (overwriteAt h p value).all + ↑((h.ht p.t).nodes p.idx) + {p.node} := by abel
    _ = h.all + (↑chain + {p.node}) := by rw [overwriteAt, hall]; abel
    _ = h.all + {overwriteValue value p.node} + ↑((h.ht p.t).nodes p.idx) := by
        rw [hmodify]; abel

lemma startRehash_spec (hidx : h.rehashIdx = none) {n : ℕ} (hn : 0 < n) :
    (startRehash h n).Inv ∧ (startRehash h n).all = h.all := by
  have hall : (h.ht 0).all + (Hashtable.new n).all = h.all := by
    rw [Hashtable.all_new, KvsHash.all, hi.idle hidx, Hashtable.all_none]
  have h0 : (startRehash h n).ht 0 = h.ht 0 := rfl
  have h1 : (startRehash h n).ht 1 = .new n := rfl
  refine ⟨.of_tables rfl rfl h0 h1 (hi.sound 0) (Hashtable.sound_of_empty _ (Hashtable.all_new n) rfl) hi.live
    (fun hnone => by cases hnone) (fun idx hsome => ?_) ?_, hall⟩
  · obtain rfl : 0 = idx := Option.some.inj hsome
    exact ⟨rfl, hn, hi.live.2, by simp⟩
  · rw [hall]
    exact hi.seeded

lemma maybeExpand_spec : (maybeExpand h).Inv ∧ (maybeExpand h).all = h.all := by
  unfold maybeExpand
  split
  · exact ⟨hi, rfl⟩
  rename_i hidx
  split
  · exact ⟨hi, rfl⟩
  · have hlive := hi.live.2
    exact startRehash_spec hi (by simpa using hidx) (by omega)

lemma maybeShrink_spec : (maybeShrink h).Inv ∧ (maybeShrink h).all = h.all := by
  unfold maybeShrink
  split
  · exact ⟨hi, rfl⟩
  rename_i hidx
  split
  · exact ⟨hi, rfl⟩
  split
  · exact ⟨hi, rfl⟩
  · have hinit : 0 < hashInitSize := by decide
    refine startRehash_spec hi (by simpa using hidx) ?_
    split_ifs with hlt
    · exact hinit
    · omega

lemma hashSeed_spec : (hashSeed h).Inv ∧ (hashSeed h).ht = h.ht ∧
    (hashSeed h).rehashIdx = h.rehashIdx ∧ (hashSeed h).all = h.all := by
  unfold hashSeed
  split
  · exact ⟨hi, rfl, rfl, rfl⟩
  rename_i hseed
  have h0 : h.all = 0 := by
    by_contra hne
    exact hseed (hi.seeded hne)
  have hall := add_eq_zero.mp h0
  refine ⟨⟨fun t => ?_, hi.live, hi.idle, hi.busy, fun hne => absurd h0 hne⟩, rfl, rfl, rfl⟩
  match t with
  | 0 => exact Hashtable.sound_of_empty _ hall.1 (by rw [(hi.sound 0).count, hall.1]; rfl)
  | 1 => exact Hashtable.sound_of_empty _ hall.2 (by rw [(hi.sound 1).count, hall.2]; rfl)

end

/-- The seed is drawn, or the next draw is not 0. -/
def KvsHash.seeds (h : KvsHash) : Bool := h.seeded || (h.draws 0).1 != 0 || (h.draws 0).2 != 0

lemma seeded_hashSeed (hs : h.seeds = true) : (hashSeed h).seeded = true := by
  unfold hashSeed
  split
  · assumption
  · rename_i hseed
    have hfalse : h.seeded = false := by simpa using hseed
    rw [KvsHash.seeds, hfalse] at hs
    simpa [KvsHash.seeded] using hs

lemma insertNode_spec (hi : h.Inv) (hs : h.seeds = true) (key value : Bytes) :
    (insertNode h key value).Inv ∧ ∃ n, n.key = key ∧ n.val = value ∧ (insertNode h key value).all = h.all + {n} := by
  obtain ⟨hi', hht, hidx, hall⟩ := hashSeed_spec hi
  have hseeded := seeded_hashSeed hs
  rw [insertNode, hashRaw]
  set g := hashSeed h
  set t : Fin 2 := if g.rehashIdx.isSome then 1 else 0 with ht
  set n := createNodeLen (g.hashOf key) key value
  have hpos : 0 < (g.ht t).maxSlots := by
    rw [ht]
    split
    · rename_i hsome
      obtain ⟨idx, hsome⟩ := Option.isSome_iff_exists.mp hsome
      exact (hi'.busy idx hsome).2.1
    · exact hi'.live.2
  obtain ⟨hsound, hpush⟩ := (hi'.sound t).push (n := n) hpos rfl (sound_createNodeLen _ _ _)
  have hinv : (g.setTable t ((g.ht t).push (hashIdx n.hv (g.ht t).maxSlots) n)).Inv := by
    refine hi'.setTable hsound rfl rfl (fun hnone => ?_) (fun idx hsome h0 => ?_) fun _ => hseeded
    · rw [ht, hnone]
      rfl
    · rw [ht, hsome] at h0
      cases h0
  obtain ⟨hexp, hexpall⟩ := maybeExpand_spec hinv
  refine ⟨hexp, n, rfl, val_createNodeLen _ _ _, hexpall.trans ?_⟩
  have hset := all_setTable g ((add_zero _).trans hpush)
  rw [add_zero, hall] at hset
  exact hset

lemma unlink_spec (hi : h.Inv) (hf : FoundIn h key p) (hcount : 0 < (h.ht p.t).count) :
    (h.setTable p.t ((h.ht p.t).unlink p.idx key)).Inv ∧
      (h.setTable p.t ((h.ht p.t).unlink p.idx key)).all + {p.node} = h.all := by
  have herase := coe_eraseP hf.find
  set chain := ((h.ht p.t).nodes p.idx).eraseP (fun n => decide (n.key = key))
  have hlength : chain.length + 1 = ((h.ht p.t).nodes p.idx).length := by
    have := congrArg Multiset.card herase
    simpa using this
  have hc : (if 0 < (h.ht p.t).count then (h.ht p.t).count - 1 else (h.ht p.t).count) =
      (h.ht p.t).count + chain.length - ((h.ht p.t).nodes p.idx).length := by
    rw [if_pos hcount, ← hlength]
    push_cast
    ring
  obtain ⟨hinv, hall⟩ := hi.rechain hf (fun n hn => (hi.sound p.t).of_mem hf.lt (mem_of_mem_eraseP hn)) hc
  refine ⟨hinv, add_right_cancel (b := ↑((h.ht p.t).nodes p.idx)) ?_⟩
  rw [add_right_comm, Hashtable.unlink, hall, add_assoc, herase]

end Change

/-! ### The finite map -/

/-- What a call does to a finite map, and what it returns. -/
def mapCall (m : Store.Table Bytes Bytes) : HashCall → EngineReply × Store.Table Bytes Bytes
  | .set key value => (.code 0, m.insert (cstr key) (cstr value))
  | .setLen key value => (.code 0, m.insert (cstr key) value)
  | .get key => (.value ((m.lookup (cstr key)).map cstr), m)
  | .getLen key => (.value (m.lookup (cstr key)), m)
  | .mod key value =>
    if (m.lookup (cstr key)).isSome then (.code 0, m.insert (cstr key) (cstr value)) else (.code 1, m)
  | .del key => if (m.lookup (cstr key)).isSome then (.code 0, m.erase (cstr key)) else (.code 1, m)
  | .exist key => (.code (if (m.lookup (cstr key)).isSome then 0 else 1), m)

/-- The map after a call. -/
def mapStep (m : Store.Table Bytes Bytes) (c : HashCall) : Store.Table Bytes Bytes := (mapCall m c).2

/-- The call does not store a key under the seed 0. -/
def KvsHash.hashes (h : KvsHash) : HashCall → Bool
  | .set .. | .setLen .. => h.seeds
  | _ => true

/-- The engine holds the entries of the map. -/
structure Abs (h : KvsHash) (m : Store.Table Bytes Bytes) : Prop where
  inv : h.Inv
  represents : Represents HashNode.key HashNode.val h.all m

section Calls

lemma abs_create (draws : ℕ → UInt64 × UInt64) : Abs (kvsHashCreate draws) ∅ := by
  have h0 : (KvsHash.blank draws).ht 0 = .new hashInitSize := rfl
  have h1 : (KvsHash.blank draws).ht 1 = .none := rfl
  have hall0 : (Hashtable.new hashInitSize).all + Hashtable.none.all = 0 := by
    rw [Hashtable.all_new, Hashtable.all_none, add_zero]
  have hlive : 0 < (Hashtable.new hashInitSize).maxSlots := by decide
  have hinv : (KvsHash.blank draws).Inv :=
    .of_tables rfl rfl h0 h1 (Hashtable.sound_of_empty _ (Hashtable.all_new _) rfl)
      (Hashtable.sound_of_empty _ Hashtable.all_none rfl) ⟨rfl, hlive⟩ (fun _ => rfl) (fun _ hsome => by cases hsome)
      fun hne => absurd hall0 hne
  obtain ⟨hseed, -, -, hall⟩ := hashSeed_spec hinv
  have hzero : (kvsHashCreate draws).all = 0 := hall.trans hall0
  exact ⟨hseed, hzero ▸ represents_zero⟩

section

variable (ha : Abs h m)
include ha

lemma Abs.rehashStep : Abs (rehashStep h rehashStepBuckets) m := by
  obtain ⟨hinv, hall, -⟩ := rehashStep_spec ha.inv rehashStepBuckets
  exact ⟨hinv, hall ▸ ha.represents⟩

lemma Abs.find (key : Bytes) :
    ∃ p, findNode (Storage.rehashStep h rehashStepBuckets) key = (p, Storage.rehashStep h rehashStepBuckets) ∧
      (∀ q, p = some q → FoundIn (Storage.rehashStep h rehashStepBuckets) key q) ∧
      m.lookup key = p.map (·.node.val) := by
  obtain ⟨p, hfind, hp⟩ := findNode_spec ha.rehashStep.inv key
  refine ⟨p, hfind, hp.found, ?_⟩
  cases p with
  | none => exact ha.rehashStep.represents.lookup_of_notMem (hp.absent rfl)
  | some q =>
    have hq := hp.found q rfl
    rw [← hq.keyed, ha.rehashStep.represents.lookup_of_mem hq.mem_all]
    rfl

lemma Abs.overwriteAt (hf : FoundIn h key p) (value : Bytes) :
    Abs (overwriteAt h p value) (m.insert key value) := by
  obtain ⟨hinv, hall⟩ := overwriteAt_spec ha.inv hf value
  have hrep := ha.represents.replace hall hf.mem_all (key_overwriteValue value p.node)
  rw [val_overwriteValue, hf.keyed] at hrep
  exact ⟨hinv, hrep⟩

lemma Abs.setBytes (hs : h.seeds = true) (key value : Bytes) :
    (setBytes h key value).1 = 0 ∧ Abs (setBytes h key value).2 (m.insert key value) := by
  unfold Storage.setBytes
  obtain ⟨p, hfind, hf, hl⟩ := ha.find key
  rw [hfind]
  cases p with
  | some p => exact ⟨rfl, ha.rehashStep.overwriteAt (hf p rfl) value⟩
  | none =>
    obtain ⟨-, -, hk0, hk1, hdraws⟩ := rehashStep_spec ha.inv rehashStepBuckets
    have hs' : (Storage.rehashStep h rehashStepBuckets).seeds = true := by
      rw [KvsHash.seeds, KvsHash.seeded, hk0, hk1, hdraws]
      exact hs
    obtain ⟨hinv, n, rfl, rfl, hall⟩ := insertNode_spec ha.rehashStep.inv hs' key value
    refine ⟨rfl, hinv, ?_⟩
    rw [hall]
    refine ha.rehashStep.represents.insert fun b hb hkey => ?_
    rw [← hkey, ha.rehashStep.represents.lookup_of_mem hb] at hl
    cases hl

lemma Abs.kvsHashMod (key value : Bytes) :
    (kvsHashMod h key value).1 = (if (m.lookup (cstr key)).isSome then 0 else 1) ∧
      Abs (kvsHashMod h key value).2 (if (m.lookup (cstr key)).isSome then m.insert (cstr key) (cstr value) else m) := by
  unfold Storage.kvsHashMod
  obtain ⟨p, hfind, hf, hl⟩ := ha.find (cstr key)
  rw [hfind, hl]
  cases p with
  | some p => exact ⟨rfl, ha.rehashStep.overwriteAt (hf p rfl) (cstr value)⟩
  | none => exact ⟨rfl, ha.rehashStep⟩

end

/-- Deleting in table `t`, where the chain of the key has it, deletes the key. -/
lemma Abs.unlink (ha : Abs h m) (hall : (h.ht t).all ≠ 0)
    (hany : ((h.ht t).nodes (hashIdx (h.hashOf key) (h.ht t).maxSlots)).any (·.key = key) = true) :
    (m.lookup key).isSome ∧
      Abs (maybeShrink (h.setTable t ((h.ht t).unlink (hashIdx (h.hashOf key) (h.ht t).maxSlots) key))) (m.erase key) := by
  obtain ⟨n, hfind⟩ := Option.isSome_iff_exists.mp (find?_isSome.mpr (any_eq_true.mp hany))
  have hf : FoundIn h key ⟨t, hashIdx (h.hashOf key) (h.ht t).maxSlots, n⟩ :=
    ⟨Nat.mod_lt _ (Hashtable.pos_of_all hall), by simpa using find?_some hfind, hfind⟩
  obtain ⟨hinv, hunlinked⟩ := unlink_spec ha.inv hf ((ha.inv.sound t).count_pos.mpr hall)
  obtain ⟨hshrink, hshrinkall⟩ := maybeShrink_spec hinv
  have hrep := ha.represents
  refine ⟨?_, hshrink, ?_⟩
  · rw [← hf.keyed, hrep.lookup_of_mem hf.mem_all]
    rfl
  · rw [← hunlinked] at hrep
    have herase := hrep.erase
    rw [hf.keyed] at herase
    rw [hshrinkall]
    exact herase

lemma KvsHash.Inv.absent (hi : h.Inv)
    (hskip : ¬ ((h.ht t).all ≠ 0 ∧
      ((h.ht t).nodes (hashIdx (h.hashOf key) (h.ht t).maxSlots)).any (·.key = key) = true)) :
    ∀ n, n ∈ (h.ht t).all → n.key ≠ key := by
  rintro n hn rfl
  exact hskip ⟨fun h0 => by simp [h0] at hn, any_eq_true.mpr ⟨n, (hi.sound t).mem_chain hn, by simp⟩⟩

lemma Abs.kvsHashDel (ha : Abs h m) (key : Bytes) :
    (kvsHashDel h key).1 = (if (m.lookup (cstr key)).isSome then 0 else 1) ∧
      Abs (kvsHashDel h key).2 (if (m.lookup (cstr key)).isSome then m.erase (cstr key) else m) := by
  obtain ⟨hinv, -, -, hall⟩ := hashSeed_spec ha.rehashStep.inv
  rw [Storage.kvsHashDel, hashRaw]
  dsimp only
  set g := hashSeed (Storage.rehashStep h rehashStepBuckets)
  have hg : Abs g m := ⟨hinv, hall ▸ ha.rehashStep.represents⟩
  have hfirst := hinv.guard_first
  have hsecond := hinv.guard_second
  simp only [← and_assoc] at hfirst hsecond ⊢
  simp only [hfirst, hsecond]
  split
  · rename_i hc
    obtain ⟨hsome, habs⟩ := hg.unlink hc.1 hc.2
    rw [if_pos hsome, if_pos hsome]
    exact ⟨rfl, habs⟩
  rename_i hc0
  split
  · rename_i hc
    obtain ⟨hsome, habs⟩ := hg.unlink hc.1 hc.2
    rw [if_pos hsome, if_pos hsome]
    exact ⟨rfl, habs⟩
  · rename_i hc1
    have hl : m.lookup (cstr key) = none := hg.represents.lookup_of_notMem fun n hn =>
      (Multiset.mem_add.mp hn).elim (hinv.absent hc0 n) (hinv.absent hc1 n)
    rw [hl]
    exact ⟨rfl, hg⟩

lemma Abs.call (ha : Abs h m) {c : HashCall} (hc : h.hashes c = true) :
    (h.call c).1 = (mapCall m c).1 ∧ Abs (h.step c) (mapStep m c) := by
  cases c with
  | set key value =>
    obtain ⟨hrc, habs⟩ := ha.setBytes hc (cstr key) (cstr value)
    exact ⟨congrArg EngineReply.code hrc, habs⟩
  | setLen key value =>
    obtain ⟨hrc, habs⟩ := ha.setBytes hc (cstr key) value
    exact ⟨congrArg EngineReply.code hrc, habs⟩
  | get key =>
    obtain ⟨p, hfind, hf, hl⟩ := ha.find (cstr key)
    simp only [KvsHash.step, KvsHash.call, kvsHashGet, mapStep, mapCall, hfind, hl, Option.map_map]
    refine ⟨congrArg EngineReply.value (Option.map_congr fun q hq => ?_), ha.rehashStep⟩
    have hq := hf q hq
    exact ((ha.rehashStep.inv.sound q.t).of_mem hq.lt hq.mem).2.2.cstr_block
  | getLen key =>
    obtain ⟨p, hfind, -, hl⟩ := ha.find (cstr key)
    simp only [KvsHash.step, KvsHash.call, kvsHashGetLen, mapStep, mapCall, hfind, hl]
    exact ⟨rfl, ha.rehashStep⟩
  | mod key value =>
    obtain ⟨hrc, habs⟩ := ha.kvsHashMod key value
    simp only [mapStep, mapCall]
    split_ifs at hrc habs ⊢ <;> exact ⟨congrArg EngineReply.code hrc, habs⟩
  | del key =>
    obtain ⟨hrc, habs⟩ := ha.kvsHashDel key
    simp only [mapStep, mapCall]
    split_ifs at hrc habs ⊢ <;> exact ⟨congrArg EngineReply.code hrc, habs⟩
  | exist key =>
    obtain ⟨p, hfind, -, hl⟩ := ha.find (cstr key)
    simp only [KvsHash.step, KvsHash.call, kvsHashExist, mapStep, mapCall, hfind, hl, Option.isSome_map]
    exact ⟨rfl, ha.rehashStep⟩

end Calls

/-! ### Whole runs -/

/-- The tables hold each entry of the map once, in the chain of its key. -/
structure KvsHash.Shape (h : KvsHash) (m : Store.Table Bytes Bytes) : Prop where
  stored : ∀ k v, m.lookup k = some v ↔
    ∃ t i n, i < (h.ht t).maxSlots ∧ n ∈ (h.ht t).nodes i ∧ n.key = k ∧ n.val = v
  once : ∀ t i n t' i' n', i < (h.ht t).maxSlots → n ∈ (h.ht t).nodes i → i' < (h.ht t').maxSlots →
    n' ∈ (h.ht t').nodes i' → n.key = n'.key → t = t' ∧ i = i' ∧ n = n'
  nodup : ∀ t i, i < (h.ht t).maxSlots → (((h.ht t).nodes i).map HashNode.key).Nodup
  placed : ∀ t i n, i < (h.ht t).maxSlots → n ∈ (h.ht t).nodes i → i = hashIdx (h.hashOf n.key) (h.ht t).maxSlots
  count : (h.ht 0).count + (h.ht 1).count = m.keys.length
  /-- The buckets below `rehash_idx` are empty. -/
  passed : ∀ idx, h.rehashIdx = some idx → ∀ j, j < idx → (h.ht 0).nodes j = []

lemma Abs.shape (ha : Abs h m) : h.Shape m := by
  have hmem : ∀ {t i n}, i < (h.ht t).maxSlots → n ∈ (h.ht t).nodes i → n ∈ (h.ht t).all :=
    fun hi hn => mem_contents.mpr ⟨_, hi, hn⟩
  have hall : ∀ {t i n}, i < (h.ht t).maxSlots → n ∈ (h.ht t).nodes i → n ∈ h.all :=
    fun hi hn => mem_of_le (all_le_all h _) (hmem hi hn)
  have hnodup : h.all.Nodup := ha.represents.nodup.of_map
  refine ⟨fun k v => ?_, ?_, fun t i hi => ?_, fun t i n hi hn => (ha.inv.sound t).placed i n hi hn, ?_,
    fun idx hidx => (ha.inv.busy idx hidx).2.2.2⟩
  · rw [ha.represents.lookup]
    constructor
    · rintro ⟨n, hn, hkey, hval⟩
      rcases Multiset.mem_add.mp hn with hn | hn
      · obtain ⟨i, hi, hn⟩ := mem_contents.mp hn
        exact ⟨0, i, n, hi, hn, hkey, hval⟩
      · obtain ⟨i, hi, hn⟩ := mem_contents.mp hn
        exact ⟨1, i, n, hi, hn, hkey, hval⟩
    · rintro ⟨t, i, n, hi, hn, hkey, hval⟩
      exact ⟨n, hall hi hn, hkey, hval⟩
  · intro t i n t' i' n' hi hn hi' hn' hkey
    obtain rfl : n = n' := ha.represents.eq_of_key (hall hi hn) (hall hi' hn') hkey
    have ht : t = t' := by
      have hdisjoint := (Multiset.nodup_add.mp hnodup).2.2
      match t, t' with
      | 0, 0 | 1, 1 => rfl
      | 0, 1 => exact absurd (hmem hi' hn') (Multiset.disjoint_left.mp hdisjoint (hmem hi hn))
      | 1, 0 => exact absurd (hmem hi hn) (Multiset.disjoint_left.mp hdisjoint (hmem hi' hn'))
    subst ht
    have hplaced := (ha.inv.sound t).placed
    exact ⟨rfl, (hplaced i n hi hn).trans (hplaced i' n hi' hn').symm, rfl⟩
  · have hle : (((h.ht t).nodes i : Multiset HashNode)).map HashNode.key ≤ h.all.map HashNode.key :=
      map_le_map ((chain_le_contents hi).trans (all_le_all h t))
    exact nodup_of_le hle ha.represents.nodup
  · rw [(ha.inv.sound 0).count, (ha.inv.sound 1).count, ← ha.represents.card, KvsHash.all, card_add]
    push_cast
    rfl

/-- What the calls return, one after the other. -/
def KvsHash.replies (h : KvsHash) (cs : List HashCall) : List EngineReply := answers KvsHash.call h cs

/-- What the calls return on a map. -/
def mapReplies (m : Store.Table Bytes Bytes) (cs : List HashCall) : List EngineReply := answers mapCall m cs

lemma Abs.calls (ha : Abs h m) {cs : List HashCall}
    (hrun : GuardedRun KvsHash.step (fun h c => h.hashes c = true) h cs) :
    h.replies cs = mapReplies m cs ∧ Abs (cs.foldl KvsHash.step h) (cs.foldl mapStep m) :=
  answers_eq (fun _ _ _ habs hc => habs.call hc) ha hrun

lemma setBytes_new (ha : Abs h m)
    (hnew : m.lookup key = none) (hbusy : (rehashStep h rehashStepBuckets).rehashIdx.isSome = true) (value : Bytes) :
    (setBytes h key value).2.ht 0 = (rehashStep h rehashStepBuckets).ht 0 := by
  unfold setBytes
  obtain ⟨p, hfind, -, hl⟩ := ha.find key
  obtain rfl : p = none := Option.map_eq_none_iff.mp (hl.symm.trans hnew)
  obtain ⟨-, hht, hidx, -⟩ := hashSeed_spec ha.rehashStep.inv
  rw [hfind]
  simp only [insertNode, hashRaw, hidx, hbusy, if_true]
  rw [maybeExpand, if_pos (by exact hidx ▸ hbusy), ht_setTable_of_ne _ _ (by decide), hht]

/-- **The hash engine is a finite map**, in every state that a run of calls reaches in which no new key is
hashed under the seed 0. -/
theorem hash_engine_refines (draws : ℕ → UInt64 × UInt64) (cs : List HashCall)
    (hrun : GuardedRun KvsHash.step (fun h c => h.hashes c = true) (kvsHashCreate draws) cs) :
    (kvsHashCreate draws).replies cs = mapReplies ∅ cs ∧
      (cs.foldl KvsHash.step (kvsHashCreate draws)).Shape (cs.foldl mapStep ∅) ∧
      ∀ key value, (cs.foldl mapStep ∅).lookup (cstr key) = none →
        (rehashStep (cs.foldl KvsHash.step (kvsHashCreate draws)) rehashStepBuckets).rehashIdx.isSome = true →
        ((cs.foldl KvsHash.step (kvsHashCreate draws)).step (.set key value)).ht 0 =
            (rehashStep (cs.foldl KvsHash.step (kvsHashCreate draws)) rehashStepBuckets).ht 0 ∧
          ((cs.foldl KvsHash.step (kvsHashCreate draws)).step (.setLen key value)).ht 0 =
            (rehashStep (cs.foldl KvsHash.step (kvsHashCreate draws)) rehashStepBuckets).ht 0 := by
  obtain ⟨hreplies, habs⟩ := (abs_create draws).calls hrun
  refine ⟨hreplies, habs.shape, fun key value hnew hbusy => ⟨?_, ?_⟩⟩
  · exact setBytes_new habs hnew hbusy (cstr value)
  · exact setBytes_new habs hnew hbusy value

/-- A value with a NUL is stored, overwritten, read back in full and as a C string, and deleted. -/
theorem hash_engine_refines_binary_value :
    (kvsHashCreate fun _ => (1, 2)).replies
        [.setLen [97] [49, 0, 50], .get [97], .set [97] [51], .getLen [97], .del [97], .exist [97]] =
      [.code 0, .value (some [49]), .code 0, .value (some [51]), .code 0, .code 1] := by
  have hrun : GuardedRun KvsHash.step (fun h c => h.hashes c = true) (kvsHashCreate fun _ => (1, 2))
      [.setLen [97] [49, 0, 50], .get [97], .set [97] [51], .getLen [97], .del [97], .exist [97]] := by
    decide +kernel
  rw [(hash_engine_refines _ _ hrun).1]
  decide

/-- **A key is lost** if the seed is drawn as 0 twice: it is stored under that seed, and the next lookup
draws another. -/
theorem hash_engine_loses_key :
    (kvsHashCreate fun i => if i < 2 then (0, 0) else (1, 2)).replies [.set [97] [49], .get [97]] =
        [.code 0, .value none] ∧
      mapReplies ∅ [.set [97] [49], .get [97]] = [.code 0, .value (some [49])] := by
  constructor
  · decide +kernel
  · decide

end PocketKv.Storage
