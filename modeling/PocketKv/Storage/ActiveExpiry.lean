import PocketKv.Storage.ExpireCoherence
import PocketKv.Store.Content

/-!
# The active expiry
-/

namespace PocketKv.Storage

open Library Resp

/-- The engine of a number. -/
def engineOf (n : Int32) : Option Store.Engine :=
  if n = 1 then some .array
  else if n = 2 then some .rbtree
  else if n = 3 then some .hash
  else if n = 4 then some .skiptable
  else none

/-- `engine_del`. -/
def engineDelNumber (s : Store.Db) (engine : Int32) (key : Bytes) : Store.Db :=
  match engineOf engine with
  | none => s
  | some e => (Store.engineDel s e key).2

/-- By what is left of the budget: the number of items removed, the engines, and the table. -/
def cycleLoop (now : ℤ) : ℕ → Store.Db → ExpireTable → ℕ × Store.Db × ExpireTable
  | 0, s, tab => (0, s, tab)
  | budget + 1, s, tab =>
    if tab.heapSize = 0 then (0, s, tab)
    else
      let node := tab.item (tab.heap 0)
      if now < node.expireAtMs then (0, s, tab)
      else
        let r := cycleLoop now budget (engineDelNumber s node.engine node.key) (expireFreeNode tab (tab.heap 0))
        (r.1 + 1, r.2)

/-- `kvs_active_expire_cycle` at the time `now`. -/
def kvsActiveExpireCycleOn (s : Store.Db) (tab : ExpireTable) (budget now : ℤ) : ℕ × Store.Db × ExpireTable :=
  cycleLoop now budget.toNat s tab

lemma cycleLoop_table (now : ℤ) (budget : ℕ) (s : Store.Db) (tab : ExpireTable) :
    (cycleLoop now budget s tab).2.2 = (activeExpireLoop now budget tab).2 ∧
      (cycleLoop now budget s tab).1 = (activeExpireLoop now budget tab).1.length := by
  induction budget generalizing s tab with
  | zero => exact ⟨rfl, rfl⟩
  | succ budget ih =>
    rw [cycleLoop, activeExpireLoop]
    split
    · exact ⟨rfl, rfl⟩
    dsimp only
    split
    · exact ⟨rfl, rfl⟩
    · obtain ⟨htable, hlength⟩ := ih (engineDelNumber s (tab.item (tab.heap 0)).engine (tab.item (tab.heap 0)).key)
        (expireFreeNode tab (tab.heap 0))
      exact ⟨htable, congrArg (· + 1) hlength⟩

/-! ### The items that are due -/

namespace ExpireTable

/-- The engine and the key of an item. -/
def name (tab : ExpireTable) (a : ℕ) : Int32 × Bytes := ((tab.item a).engine, (tab.item a).key)

/-- The names of the items whose deadlines have passed. There is one item for a name. -/
def due (tab : ExpireTable) (now : ℤ) : Finset (Int32 × Bytes) :=
  ((Finset.range tab.heapSize).filter (tab.deadline · ≤ now)).image fun i => tab.name (tab.heap i)

variable {tab : ExpireTable} {now : ℤ}

lemma mem_due {x : Int32 × Bytes} : x ∈ tab.due now ↔ ∃ d ≤ now, tab.Has x.1 x.2 d := by
  simp only [due, Finset.mem_image, Finset.mem_filter, Finset.mem_range]
  constructor
  · rintro ⟨i, ⟨hi, hdue⟩, rfl⟩
    exact ⟨tab.deadline i, hdue, tab.heap i, ⟨i, hi, rfl⟩, rfl, rfl, rfl⟩
  · rintro ⟨d, hdue, a, ⟨i, hi, rfl⟩, he, hk, rfl⟩
    exact ⟨i, ⟨hi, hdue⟩, Prod.ext he hk⟩

lemma Inv.card_due (h : tab.Inv) :
    (tab.due now).card = ((Finset.range tab.heapSize).filter (tab.deadline · ≤ now)).card := by
  refine Finset.card_image_of_injOn fun i hi j hj hname => ?_
  have hi := Finset.mem_range.mp (Finset.mem_filter.mp hi).1
  have hj := Finset.mem_range.mp (Finset.mem_filter.mp hj).1
  have heq : tab.heap i = tab.heap j :=
    h.eq_of_key ⟨i, hi, rfl⟩ ⟨j, hj, rfl⟩ (congrArg Prod.fst hname) (congrArg Prod.snd hname)
  exact Indexed.inj h.indexed hi hj heq

lemma has_root (hsize : tab.heapSize ≠ 0) :
    tab.Has (tab.name (tab.heap 0)).1 (tab.name (tab.heap 0)).2 (tab.deadline 0) :=
  ⟨tab.heap 0, ⟨0, Nat.pos_of_ne_zero hsize, rfl⟩, rfl, rfl, rfl⟩

lemma Inv.root_le (h : tab.Inv) {e : Int32} {k : Bytes} {d : ℤ} (hhas : tab.Has e k d) : tab.deadline 0 ≤ d := by
  obtain ⟨a, ⟨i, hi, rfl⟩, -, -, rfl⟩ := hhas
  have hordered : Heap.Ordered tab.deadline tab.heapSize := h.ordered
  exact hordered.root_le hi

lemma Inv.has_unique (h : tab.Inv) {e : Int32} {k : Bytes} {d d' : ℤ} (hhas : tab.Has e k d)
    (hhas' : tab.Has e k d') : d = d' := by
  obtain ⟨a, ha, he, hk, rfl⟩ := hhas
  obtain ⟨a', ha', he', hk', rfl⟩ := hhas'
  rw [h.eq_of_key ha ha' (he.trans he'.symm) (hk.trans hk'.symm)]

lemma Inv.due_expireFreeNode (h : tab.Inv) (now : ℤ) (hsize : tab.heapSize ≠ 0) :
    (Storage.expireFreeNode tab (tab.heap 0)).due now = (tab.due now).erase (tab.name (tab.heap 0)) := by
  have hfree := (h.expireFreeNode ⟨0, Nat.pos_of_ne_zero hsize, rfl⟩).2
  ext x
  rw [Finset.mem_erase, mem_due, mem_due]
  constructor
  · rintro ⟨d, hdue, hhas⟩
    obtain ⟨hhas, hne⟩ := (hfree x.1 x.2 d).mp hhas
    refine ⟨?_, d, hdue, hhas⟩
    rintro rfl
    exact hne ⟨rfl, rfl⟩
  · rintro ⟨hne, d, hdue, hhas⟩
    refine ⟨d, hdue, (hfree x.1 x.2 d).mpr ⟨hhas, ?_⟩⟩
    rintro ⟨he, hk⟩
    exact hne (Prod.ext he hk)

end ExpireTable

/-! ### The cycle -/

lemma engineOf_eq_some {n : Int32} {e : Store.Engine} : engineOf n = some e ↔ engineNumber e = n := by
  constructor
  · rw [engineOf]
    split_ifs with h1 h2 h3 h4
    · rintro ⟨rfl⟩
      exact h1.symm
    · rintro ⟨rfl⟩
      exact h2.symm
    · rintro ⟨rfl⟩
      exact h3.symm
    · rintro ⟨rfl⟩
      exact h4.symm
    · intro h
      cases h
  · rintro rfl
    cases e <;> rfl

lemma lookup_engineDelNumber (s : Store.Db) (n : Int32) (key : Bytes) (e : Store.Engine) (k : Bytes) :
    (engineDelNumber s n key).kv.lookup (e, k) =
      if (engineNumber e, k) = (n, key) then none else s.kv.lookup (e, k) := by
  rw [engineDelNumber]
  split
  · rename_i hnone
    rw [if_neg]
    rintro ⟨rfl, -⟩
    rw [engineOf_eq_some.mpr rfl] at hnone
    cases hnone
  · rename_i e' hsome
    obtain rfl := engineOf_eq_some.mp hsome
    have hiff : (engineNumber e, k) = (engineNumber e', key) ↔ (e, k) = (e', key) := by
      simp only [Prod.mk.injEq]
      exact and_congr_left fun _ => ⟨engineNumber_inj, congrArg _⟩
    rw [Store.engineDel_snd, lookup_erase_eq, if_congr hiff rfl rfl]

lemma docs_engineDelNumber (s : Store.Db) (n : Int32) (key : Bytes) : (engineDelNumber s n key).docs = s.docs := by
  rw [engineDelNumber]
  split
  · rfl
  · rw [Store.engineDel]
    split <;> rfl

/-- The items `R` are those that a cycle with this budget removes. -/
structure Removes (now : ℤ) (budget : ℕ) (s : Store.Db) (tab : ExpireTable) (R : Finset (Int32 × Bytes))
    (r : ℕ × Store.Db × ExpireTable) : Prop where
  due : R ⊆ tab.due now
  card : R.card = min budget (tab.due now).card
  earliest : ∀ x ∈ R, ∀ y ∉ R, ∀ d d', tab.Has x.1 x.2 d → tab.Has y.1 y.2 d' → d ≤ d'
  count : r.1 = R.card
  deadlines : ∀ e k d, r.2.2.Has e k d ↔ tab.Has e k d ∧ (e, k) ∉ R
  keys : ∀ e k, r.2.1.kv.lookup (e, k) = if (engineNumber e, k) ∈ R then none else s.kv.lookup (e, k)
  docs : r.2.1.docs = s.docs

section Cycle

variable {now : ℤ} {budget : ℕ} {s : Store.Db} {tab : ExpireTable}

lemma Removes.none (h : budget = 0 ∨ tab.due now = ∅) : Removes now budget s tab ∅ (0, s, tab) where
  due := Finset.empty_subset _
  card := by
    rcases h with rfl | hempty
    · simp
    · simp [hempty]
  earliest _ hx := absurd hx (Finset.notMem_empty _)
  count := rfl
  deadlines _ _ _ := by simp
  keys _ _ := by simp
  docs := rfl

lemma Removes.cons (h : tab.Inv) (hsize : tab.heapSize ≠ 0) (hdue : tab.deadline 0 ≤ now)
    {R : Finset (Int32 × Bytes)} {r : ℕ × Store.Db × ExpireTable}
    (hrest : Removes now budget
      (engineDelNumber s (tab.item (tab.heap 0)).engine (tab.item (tab.heap 0)).key)
      (expireFreeNode tab (tab.heap 0)) R r) :
    Removes now (budget + 1) s tab (insert (tab.name (tab.heap 0)) R) (r.1 + 1, r.2) := by
  set x₀ := tab.name (tab.heap 0) with hx₀
  have hfree := (h.expireFreeNode ⟨0, Nat.pos_of_ne_zero hsize, rfl⟩).2
  have hleft := h.due_expireFreeNode now hsize
  have hmem : x₀ ∈ tab.due now := ExpireTable.mem_due.mpr ⟨_, hdue, ExpireTable.has_root hsize⟩
  have hnew : x₀ ∉ R := fun hin => by
    have := hrest.due hin
    rw [hleft] at this
    exact Finset.notMem_erase _ _ this
  refine ⟨?_, ?_, ?_, ?_, ?_, ?_, ?_⟩
  · intro x hx
    rcases Finset.mem_insert.mp hx with rfl | hx
    · exact hmem
    · have := hrest.due hx
      rw [hleft] at this
      exact Finset.mem_of_mem_erase this
  · rw [Finset.card_insert_of_notMem hnew, hrest.card, hleft, Finset.card_erase_of_mem hmem]
    have := Finset.card_pos.mpr ⟨x₀, hmem⟩
    omega
  · intro x hx y hy d d' hxd hyd
    rw [Finset.mem_insert, not_or] at hy
    have hyd' : (expireFreeNode tab (tab.heap 0)).Has y.1 y.2 d' :=
      (hfree _ _ _).mpr ⟨hyd, fun heq => hy.1 (Prod.ext heq.1 heq.2)⟩
    rcases Finset.mem_insert.mp hx with rfl | hx
    · rw [h.has_unique hxd (ExpireTable.has_root hsize)]
      exact h.root_le hyd
    · have hne : x ≠ x₀ := fun heq => hnew (heq ▸ hx)
      exact hrest.earliest x hx y hy.2 d d' ((hfree _ _ _).mpr ⟨hxd, fun heq => hne (Prod.ext heq.1 heq.2)⟩) hyd'
  · rw [hrest.count, Finset.card_insert_of_notMem hnew]
  · intro e k d
    rw [hrest.deadlines, hfree, Finset.mem_insert, not_or, and_assoc]
    refine and_congr_right fun _ => and_congr_left fun _ => not_congr ?_
    rw [hx₀, ExpireTable.name, Prod.mk.injEq]
  · intro e k
    rw [hrest.keys, lookup_engineDelNumber]
    by_cases hR : (engineNumber e, k) ∈ R
    · rw [if_pos hR, if_pos (Finset.mem_insert_of_mem hR)]
    · rw [if_neg hR]
      refine if_congr ?_ rfl rfl
      rw [Finset.mem_insert, or_iff_left hR]
      rfl
  · rw [hrest.docs, docs_engineDelNumber]

lemma exists_removes (now : ℤ) (budget : ℕ) (s : Store.Db) (h : tab.Inv) : ∃ R, Removes now budget s tab R (cycleLoop now budget s tab) := by
  induction budget generalizing s tab with
  | zero => exact ⟨∅, .none (.inl rfl)⟩
  | succ budget ih =>
    rw [cycleLoop]
    split
    · rename_i hsize
      refine ⟨∅, .none (.inr ?_)⟩
      simp [ExpireTable.due, hsize]
    rename_i hsize
    dsimp only
    split
    · rename_i hlater
      refine ⟨∅, .none (.inr (Finset.eq_empty_of_forall_notMem fun x hx => ?_))⟩
      obtain ⟨d, hd, hhas⟩ := ExpireTable.mem_due.mp hx
      have hroot := h.root_le hhas
      have : now < tab.deadline 0 := hlater
      omega
    · rename_i hdue
      obtain ⟨R, hR⟩ := ih (engineDelNumber s (tab.item (tab.heap 0)).engine (tab.item (tab.heap 0)).key)
        (h.expireFreeNode ⟨0, Nat.pos_of_ne_zero hsize, rfl⟩).1
      exact ⟨_, .cons h hsize (not_lt.mp hdue) hR⟩

end Cycle

/-- **The active expiry removes the earliest items that are due**, as many as the budget allows, and just their
keys. -/
theorem active_expiry (s : Store.Db) (tab : ExpireTable) (h : tab.Inv) (budget now : ℤ) (hbudget : 0 < budget) :
    ∃ R, Removes now budget.toNat s tab R (kvsActiveExpireCycleOn s tab budget now) ∧
      (kvsActiveExpireCycleOn s tab budget now).2.2.Inv ∧
      ((kvsActiveExpireCycleOn s tab budget now).1 : ℤ) =
        min budget ((Finset.range tab.heapSize).filter (tab.deadline · ≤ now)).card := by
  obtain ⟨R, hR⟩ := exists_removes now budget.toNat s h
  refine ⟨R, hR, ?_, ?_⟩
  · rw [kvsActiveExpireCycleOn, (cycleLoop_table now budget.toNat s tab).1]
    exact h.activeExpireLoop now budget.toNat
  · rw [kvsActiveExpireCycleOn, hR.count, hR.card, h.card_due]
    omega

/-- Three keys with deadlines. -/
def threeKeys : List ExpireCall :=
  [.set 1 (str "a") 9 0 ⟨true, true, true⟩, .set 3 (str "b") 20 0 ⟨true, true, true⟩,
    .set 2 (str "c") 5 0 ⟨true, true, true⟩]

theorem active_expiry_three :
    (0 : ℤ) < 1 ∧
      let tab := threeKeys.foldl ExpireTable.call kvsExpireCreate
      ∃ R, Removes 10 1 .empty tab R (kvsActiveExpireCycleOn .empty tab 1 10) :=
  ⟨by decide, by
    obtain ⟨R, hR, -⟩ := active_expiry .empty (threeKeys.foldl ExpireTable.call kvsExpireCreate)
      (ExpireTable.inv_create.calls threeKeys) 1 10 (by decide)
    exact ⟨R, hR⟩⟩

end PocketKv.Storage
