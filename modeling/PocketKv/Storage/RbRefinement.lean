import PocketKv.Library.Chains
import PocketKv.Library.Run
import PocketKv.Storage.RbDelete
import PocketKv.Storage.RbInsert
import PocketKv.Store.Engines

/-!
# The red-black tree is a finite map
-/

namespace PocketKv.Storage

open Library Library.RedBlack Library.RedBlack.ColorTree Resp

/-- What a call does to a finite map, and what it returns. -/
def treeMapCall (m : Store.Table Bytes Bytes) : EngineCall → EngineReply × Store.Table Bytes Bytes
  | .set key value => (.code 0, m.insert key value)
  | .mod key value => if (m.lookup key).isSome then (.code 0, m.insert key value) else (.code 1, m)
  | .del key => if (m.lookup key).isSome then (.code 0, m.erase key) else (.code 1, m)
  | .get key => (.value (m.lookup key), m)
  | .exist key => (.code (if (m.lookup key).isSome then 0 else 1), m)

/-- The map after a call. -/
def treeMapStep (m : Store.Table Bytes Bytes) (c : EngineCall) : Store.Table Bytes Bytes := (treeMapCall m c).2

/-- The tree holds the entries of the map. -/
def TreeAbs (T : RbTree) (m : Store.Table Bytes Bytes) : Prop :=
  ∃ t, Valid T t ∧ Represents Prod.fst Prod.snd (t.toList : Multiset (Bytes × Bytes)) m

lemma treeAbs_create (mem : ℕ → RbNode) : TreeAbs (kvsRbtreeCreate mem) ∅ := by
  refine ⟨.nil, ⟨⟨trivial, trivial, rfl, List.nodup_nil, ?_, ?_, Nat.one_pos⟩, List.Pairwise.nil, ⟨trivial, 0, rfl⟩, rfl⟩,
    represents_zero⟩
  · intro i hi
    cases hi
  · simp [RbTree.color, kvsRbtreeCreate]

namespace TreeAbs

variable {T : RbTree} {m : Store.Table Bytes Bytes}

lemma search {t : ATree} (h : Valid T t) (hrep : Represents Prod.fst Prod.snd (t.toList : Multiset (Bytes × Bytes)) m)
    (key : Bytes) :
    (∃ a c value l r ps, FoundAt T t key a c value l r ps ∧ rbtreeSearch T key = a ∧ a ≠ rbNil ∧
        m.lookup key = some value) ∨
      (rbtreeSearch T key = rbNil ∧ m.lookup key = none ∧ ∀ a, a ∈ t.toList → a.1 ≠ key) := by
  rcases rbtreeSearch_spec h.shows h.sorted key with ⟨a, c, value, l, r, ps, hfound, hs⟩ | ⟨ps, hmiss, hs, -⟩
  · have hmem : (key, value) ∈ t.toList := by
      rw [← hfound.whole, toList_plug, toList]
      simp
    have hne : a ≠ rbNil := fun heq => by cases hfound.shows.addr_eq_nil_iff.mp heq
    exact .inl ⟨a, c, value, l, r, ps, hfound, hs, hne, hrep.lookup_of_mem (Multiset.mem_coe.mpr hmem)⟩
  · have hnone : ∀ a, a ∈ t.toList → a.1 ≠ key := fun a ha => hmiss.around.ne_of_mem (hmiss.whole ▸ ha)
    exact .inr ⟨hs, hrep.lookup_of_notMem fun a ha => hnone a (Multiset.mem_coe.mp ha), hnone⟩

lemma get (h : TreeAbs T m) (key : Bytes) : kvsRbtreeGet T key = m.lookup key := by
  obtain ⟨t, hvalid, hrep⟩ := h
  rcases search hvalid hrep key with ⟨a, c, value, l, r, ps, hfound, hs, hne, hl⟩ | ⟨hs, hl, -⟩
  · have hvalue : (T.node a).value = value := congrArg Prod.snd hfound.shows.tree.1.2.1
    rw [kvsRbtreeGet, hs, if_neg hne, hvalue, hl]
  · rw [kvsRbtreeGet, hs, if_pos rfl, hl]

lemma exist (h : TreeAbs T m) (key : Bytes) : kvsRbtreeExist T key = if (m.lookup key).isSome then 0 else 1 := by
  obtain ⟨t, hvalid, hrep⟩ := h
  rcases search hvalid hrep key with ⟨a, c, value, l, r, ps, -, hs, hne, hl⟩ | ⟨hs, hl, -⟩
  · simp [kvsRbtreeExist, hs, hne, hl]
  · simp [kvsRbtreeExist, hs, hl]

lemma overwrite {t : ATree} {key value : Bytes} {a : ℕ} {c : Color} {l r : ATree} {ps : APath} (h : Valid T t)
    (hrep : Represents Prod.fst Prod.snd (t.toList : Multiset (Bytes × Bytes)) m)
    (hfound : FoundAt T t key a c value l r ps) (value' : Bytes) :
    TreeAbs (T.modify a ({ · with value := value' })) (m.insert key value') := by
  obtain ⟨hshows, rfl⟩ := hfound
  have hkey : (T.node a).key = key := congrArg Prod.fst hshows.tree.1.2.1
  have heq : T.modify a ({ · with value := value' }) = setEntry T a (key, value') := by
    subst hkey
    rfl
  have hold : (plug ps (node a c (key, value) l r)).toList =
      before ps ++ ((l.toList ++ (key, value) :: r.toList) ++ after ps) := toList_plug ..
  have hnew : (plug ps (node a c (key, value') l r)).toList =
      before ps ++ ((l.toList ++ (key, value') :: r.toList) ++ after ps) := toList_plug ..
  have hset : Shows (setEntry T a (key, value')) (node a c (key, value') l r) ps := Shows.setEntry (d := .left) hshows _
  rw [heq]
  refine ⟨_, ⟨hset.plug, ?_, balanced_plug_entry (d := .left) h.balanced _, ?_⟩, ?_⟩
  · have hkeys : ((plug ps (node a c (key, value) l r)).toList.map Prod.fst) =
        (plug ps (node a c (key, value') l r)).toList.map Prod.fst := by simp [hold, hnew]
    exact h.sorted.of_keys hkeys
  · rw [← h.black]
    exact color_plug_congr ps rfl
  · rw [hnew]
    rw [hold] at hrep
    have hmem : (key, value) ∈ ((before ps ++ ((l.toList ++ (key, value) :: r.toList) ++ after ps) : List _) :
        Multiset (Bytes × Bytes)) := by simp
    have hswap : ((before ps ++ ((l.toList ++ (key, value') :: r.toList) ++ after ps) : List _) :
        Multiset (Bytes × Bytes)) + {(key, value)} =
          ((before ps ++ ((l.toList ++ (key, value) :: r.toList) ++ after ps) : List _) : Multiset (Bytes × Bytes)) +
            {(key, value')} := by
      simp only [← Multiset.coe_add, ← Multiset.cons_coe, ← Multiset.singleton_add]
      abel
    exact hrep.replace hswap hmem rfl

variable (h : TreeAbs T m)
include h

lemma mod (key value : Bytes) :
    EngineReply.code (kvsRbtreeMod T key value).1 = (treeMapCall m (.mod key value)).1 ∧
      TreeAbs (kvsRbtreeMod T key value).2 (treeMapStep m (.mod key value)) := by
  have habs := h
  obtain ⟨t, hvalid, hrep⟩ := h
  rw [treeMapStep, treeMapCall]
  rcases search hvalid hrep key with ⟨a, c, old, l, r, ps, hfound, hs, hne, hl⟩ | ⟨hs, hl, -⟩
  · rw [kvsRbtreeMod, hs, if_neg hne, hl]
    exact ⟨rfl, overwrite hvalid hrep hfound value⟩
  · rw [kvsRbtreeMod, hs, if_pos rfl, hl]
    exact ⟨rfl, habs⟩

lemma set (key value : Bytes) :
    (kvsRbtreeSet T key value).1 = 0 ∧ TreeAbs (kvsRbtreeSet T key value).2 (m.insert key value) := by
  obtain ⟨t, hvalid, hrep⟩ := h
  rcases search hvalid hrep key with ⟨a, c, old, l, r, ps, hfound, hs, hne, hl⟩ | ⟨hs, hl, hnone⟩
  · rw [kvsRbtreeSet, hs, if_pos hne, kvsRbtreeMod, hs, if_neg hne]
    exact ⟨rfl, overwrite hvalid hrep hfound value⟩
  · rw [kvsRbtreeSet, hs, if_neg (by simp)]
    obtain ⟨t', hvalid', hlist⟩ := rbtreeInsert_spec hvalid hnone value
    have hins : Represents Prod.fst Prod.snd ((t.toList : Multiset (Bytes × Bytes)) + {(key, value)}) (m.insert key value) :=
      hrep.insert (a := (key, value)) fun b hb => hnone b (Multiset.mem_coe.mp hb)
    exact ⟨rfl, t', hvalid', hlist ▸ hins⟩

lemma del (key : Bytes) :
    EngineReply.code (kvsRbtreeDel T key).1 = (treeMapCall m (.del key)).1 ∧
      TreeAbs (kvsRbtreeDel T key).2 (treeMapStep m (.del key)) := by
  have habs := h
  obtain ⟨t, hvalid, hrep⟩ := h
  rw [treeMapStep, treeMapCall]
  rcases search hvalid hrep key with ⟨a, c, old, l, r, ps, hfound, hs, hne, hl⟩ | ⟨hs, hl, -⟩
  · rw [kvsRbtreeDel, hs, if_neg hne, hl]
    obtain ⟨t', hvalid', hlist⟩ := rbtreeDelete_spec hvalid hfound
    rw [hlist] at hrep
    exact ⟨rfl, t', hvalid', hrep.erase⟩
  · rw [kvsRbtreeDel, hs, if_pos rfl, hl]
    exact ⟨rfl, habs⟩

lemma call (c : EngineCall) : (T.call c).1 = (treeMapCall m c).1 ∧ TreeAbs (T.call c).2 (treeMapCall m c).2 := by
  cases c with
  | set key value =>
    obtain ⟨hrc, habs⟩ := h.set key value
    exact ⟨congrArg EngineReply.code hrc, habs⟩
  | mod key value => exact h.mod key value
  | del key => exact h.del key
  | get key => exact ⟨congrArg EngineReply.value (h.get key), h⟩
  | exist key => exact ⟨congrArg EngineReply.code (h.exist key), h⟩

end TreeAbs

lemma answers_treeMap (mem : ℕ → RbNode) (cs : List EngineCall) :
    answers RbTree.call (kvsRbtreeCreate mem) cs = answers treeMapCall ∅ cs ∧
      TreeAbs (cs.foldl RbTree.step (kvsRbtreeCreate mem)) (cs.foldl treeMapStep ∅) := by
  have hrun : GuardedRun RbTree.step (fun _ _ => True) (kvsRbtreeCreate mem) cs := .of_forall (fun _ _ => trivial) _ _
  have hstep : ∀ (T : RbTree) (m : Store.Table Bytes Bytes) (c : EngineCall), TreeAbs T m → True →
      (T.call c).1 = (treeMapCall m c).1 ∧ TreeAbs (T.call c).2 (treeMapCall m c).2 := fun _ _ c habs _ => habs.call c
  exact answers_eq hstep (treeAbs_create mem) hrun

end PocketKv.Storage
