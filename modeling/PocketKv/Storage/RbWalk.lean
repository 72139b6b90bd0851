import PocketKv.Storage.RbRefinement

/-!
# The traversal of the red-black tree
-/

namespace PocketKv.Storage

open Library.RedBlack Resp List

/-- The length of `stk`. -/
def walkStack : ℕ := 256

/-- The nodes that are still to be visited, from the current one and the stack. -/
def rbWalk (T : RbTree) : ℕ → ℕ → List ℕ → Option (List ℕ)
  | 0, _, _ => none
  | fuel + 1, cur, stack =>
    if cur ≠ rbNil then
      if stack.length < walkStack then rbWalk T fuel (T.child .left cur) (cur :: stack) else none
    else match stack with
      | [] => some []
      | n :: stack => (rbWalk T fuel (T.child .right n) stack).map (n :: ·)

/-- The addresses from left to right. -/
def inorder : ATree → List ℕ
  | .nil => []
  | .node i _ _ l r => inorder l ++ i :: inorder r

lemma length_inorder (t : ATree) : (inorder t).length = t.toList.length := by
  induction t with
  | nil => rfl
  | node i c e l r ihl ihr => simp [inorder, ColorTree.toList, ihl, ihr]

lemma perm_inorder (t : ATree) : (inorder t).Perm (ids t) := by
  induction t with
  | nil => exact .refl _
  | node i c e l r ihl ihr => exact (perm_middle).trans ((ihl.append ihr).cons i)

variable {T : RbTree} {t : ATree}

lemma map_entry_inorder {p : ℕ} (h : At T t p) : (inorder t).map T.entry = t.toList := by
  induction t generalizing p with
  | nil => rfl
  | node i c e l r ihl ihr =>
    obtain ⟨⟨-, he, -, -, -⟩, hl, hr⟩ := h
    rw [inorder, map_append, map_cons, ihl hl, ihr hr, he]
    rfl

lemma rbWalk_push {cur : ℕ} {stack : List ℕ} (hcur : cur ≠ rbNil) (hstack : stack.length < walkStack) (fuel : ℕ) :
    rbWalk T (fuel + 1) cur stack = rbWalk T fuel (T.child .left cur) (cur :: stack) := by
  simp [rbWalk, hcur, hstack, ne_eq, not_false_eq_true]

lemma rbWalk_pop (fuel n : ℕ) (stack : List ℕ) :
    rbWalk T (fuel + 1) rbNil (n :: stack) = (rbWalk T fuel (T.child .right n) stack).map (n :: ·) := rfl

lemma rbWalk_subtree {p : ℕ} (h : At T t p) (hnil : ∀ i, i ∈ ids t → i ≠ rbNil) (stack : List ℕ)
    (hstack : stack.length + t.depth ≤ walkStack) (fuel : ℕ) :
    rbWalk T (fuel + 2 * t.toList.length + 1) (addr t) stack = (rbWalk T (fuel + 1) rbNil stack).map (inorder t ++ ·) := by
  induction t generalizing p stack fuel with
  | nil => simp [inorder, ColorTree.toList, addr]
  | node i c e l r ihl ihr =>
    obtain ⟨⟨-, -, -, hleft, hright⟩, hl, hr⟩ := h
    have hi : i ≠ rbNil := hnil i mem_cons_self
    have hnl : ∀ j, j ∈ ids l → j ≠ rbNil := fun j hj => hnil j (mem_cons_of_mem i (mem_append_left _ hj))
    have hnr : ∀ j, j ∈ ids r → j ≠ rbNil := fun j hj => hnil j (mem_cons_of_mem i (mem_append_right _ hj))
    rw [ColorTree.depth] at hstack
    have hfuel : fuel + 2 * (ColorTree.node i c e l r).toList.length + 1 =
        (fuel + 2 * r.toList.length + 1) + 2 * l.toList.length + 1 + 1 := by
      rw [ColorTree.toList, length_append, length_cons]
      ring
    have hdown := ihl hl hnl (i :: stack) (by rw [length_cons]; omega) (fuel + 2 * r.toList.length + 1)
    have hup := ihr hr hnr stack (by omega) fuel
    rw [hfuel, addr, rbWalk_push hi (by omega), hleft, hdown, rbWalk_pop, hright, hup]
    cases rbWalk T (fuel + 1) rbNil stack with
    | none => rfl
    | some rest => simp [inorder]

lemma rbWalk_root (h : Valid T t) (hsize : t.toList.length < 2 ^ 63) :
    rbWalk T (2 * T.fresh + 1) T.root [] = some (inorder t) := by
  have hdepth : t.depth ≤ walkStack := (h.balanced.depth_le h.black (n := 63) hsize).trans (by decide)
  have hids : ∀ i, i ∈ ids t → i ≠ rbNil ∧ i < T.fresh := fun i hi => h.shows.bounds i (mem_append_left _ hi)
  have hlen : t.toList.length ≤ T.fresh := by
    rw [← length_inorder, (perm_inorder t).length_eq]
    have hnodup : (ids t).Nodup := (nodup_append'.mp h.shows.nodup).1
    have hsub : (ids t).toFinset ⊆ Finset.range T.fresh := fun i hi =>
      Finset.mem_range.mpr (hids i (mem_toFinset.mp hi)).2
    have hcard := Finset.card_le_card hsub
    rwa [toFinset_card_of_nodup hnodup, Finset.card_range] at hcard
  have hroot : T.root = addr t := h.shows.root
  obtain ⟨fuel, hfuel⟩ := Nat.exists_eq_add_of_le hlen
  have hwalk := rbWalk_subtree h.shows.tree (fun i hi => (hids i hi).1) [] (by simpa using hdepth) (2 * fuel)
  rw [hroot, hfuel, show 2 * (t.toList.length + fuel) + 1 = 2 * fuel + 2 * t.toList.length + 1 by ring, hwalk]
  exact congrArg some (append_nil _)

/-- **The dump visits every key of the tree once, in increasing order, and its stack is large enough**: after any calls that leave
fewer than `2 ^ 63` keys. -/
theorem rb_dump_visits (mem : ℕ → RbNode) (cs : List EngineCall) (hsize : (cs.foldl treeMapStep ∅).keys.length < 2 ^ 63) :
    let T := cs.foldl RbTree.step (kvsRbtreeCreate mem)
    let m := cs.foldl treeMapStep ∅
    ∃ nodes, rbWalk T (2 * T.fresh + 1) T.root [] = some nodes ∧ Sorted (nodes.map T.entry) ∧
      ((nodes.map T.entry).map Prod.fst).Perm m.keys ∧
      ∀ key value, (key, value) ∈ nodes.map T.entry ↔ m.lookup key = some value := by
  intro T m
  obtain ⟨-, t, hvalid, hrep⟩ := answers_treeMap mem cs
  have hcard : t.toList.length = m.keys.length := hrep.card
  have hentries : (inorder t).map T.entry = t.toList := map_entry_inorder hvalid.shows.tree
  refine ⟨inorder t, rbWalk_root hvalid (hcard ▸ hsize), ?_⟩
  rw [hentries]
  refine ⟨hvalid.sorted, Multiset.coe_eq_coe.mp hrep.map_key, fun key value => ?_⟩
  rw [hrep.lookup]
  constructor
  · exact fun hmem => ⟨(key, value), hmem, rfl, rfl⟩
  · rintro ⟨⟨k, v⟩, hmem, rfl, rfl⟩
    exact hmem

theorem rb_dump_visits_two :
    let cs : List EngineCall := [.set (str "b") (str "2"), .set (str "a") (str "1"), .set (str "c") (str "3"), .del (str "b")]
    let T := cs.foldl RbTree.step (kvsRbtreeCreate fun _ => ⟨.black, 0, 0, 0, [], []⟩)
    ∃ nodes, rbWalk T (2 * T.fresh + 1) T.root [] = some nodes ∧ ((nodes.map T.entry).map Prod.fst).Perm [str "c", str "a"] := by
  intro cs T
  obtain ⟨nodes, hwalk, -, hperm, -⟩ := rb_dump_visits (fun _ => ⟨.black, 0, 0, 0, [], []⟩) cs (by decide)
  exact ⟨nodes, hwalk, hperm⟩

end PocketKv.Storage
