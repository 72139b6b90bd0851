import PocketKv.Storage.RbMemory

/-!
# The search tree
-/

namespace PocketKv.Storage

open Library.RedBlack Library.RedBlack.ColorTree Resp List

lemma Sorted.of_keys {l l' : List (Bytes × Bytes)} (h : Sorted l) (heq : l.map Prod.fst = l'.map Prod.fst) : Sorted l' := by
  have hmap : (l.map Prod.fst).Pairwise (strcmp · · = .lt) := pairwise_map.mpr h
  rw [heq] at hmap
  exact pairwise_map.mp hmap

/-! ### Going down -/

/-- The key lies between what is before the place and what is after it. -/
structure Around (key : Bytes) (ps : APath) : Prop where
  before : ∀ a, a ∈ before ps → strcmp a.1 key = .lt
  after : ∀ a, a ∈ after ps → strcmp key a.1 = .lt

namespace Around

variable {key : Bytes} {ps : APath} {i : ℕ} {c : Color} {e : Bytes × Bytes} {l r : ATree}

lemma left (h : Around key ps) (hsorted : Sorted (plug ps (node i c e l r)).toList) (hlt : strcmp key e.1 = .lt) :
    Around key (⟨.left, i, c, e, r⟩ :: ps) := by
  refine ⟨h.before, fun a ha => ?_⟩
  simp only [Library.RedBlack.after, cons_append, mem_cons, mem_append] at ha
  rw [toList_plug, toList, Sorted] at hsorted
  rcases ha with rfl | ha | ha
  · exact hlt
  · have hnode := (pairwise_append.mp hsorted).2.1
    have hright := (pairwise_append.mp (pairwise_append.mp hnode).1).2.1
    exact strcmp_trans hlt (rel_of_pairwise_cons hright ha)
  · exact h.after a ha

lemma right (h : Around key ps) (hsorted : Sorted (plug ps (node i c e l r)).toList) (hgt : strcmp key e.1 = .gt) :
    Around key (⟨.right, i, c, e, l⟩ :: ps) := by
  refine ⟨fun a ha => ?_, h.after⟩
  simp only [Library.RedBlack.before, mem_append, mem_singleton] at ha
  rw [toList_plug, toList, Sorted] at hsorted
  rw [strcmp_gt_iff] at hgt
  rcases ha with ha | ha | rfl
  · exact h.before a ha
  · have hnode := (pairwise_append.mp hsorted).2.1
    have hleft := (pairwise_append.mp (pairwise_append.mp hnode).1).2.2
    exact strcmp_trans (hleft a ha e mem_cons_self) hgt
  · exact hgt

lemma ne_of_mem (h : Around key ps) {a : Bytes × Bytes} (ha : a ∈ (plug ps (nil : ATree)).toList) : a.1 ≠ key := by
  rintro rfl
  rw [toList_plug, toList, nil_append, mem_append] at ha
  have hself : strcmp a.1 a.1 = .eq := strcmp_eq_iff.mpr rfl
  rcases ha with ha | ha
  · exact absurd (hself.symm.trans (h.before a ha)) (by decide)
  · exact absurd (hself.symm.trans (h.after a ha)) (by decide)

end Around

/-- The key is in the tree, at `a`. -/
structure FoundAt (T : RbTree) (whole : ATree) (key : Bytes) (a : ℕ) (c : Color) (value : Bytes) (l r : ATree) (ps : APath) :
    Prop where
  shows : Shows T (node a c (key, value) l r) ps
  whole : plug ps (node a c (key, value) l r) = whole

/-- The key belongs in the empty place of `ps`. -/
structure Missing (T : RbTree) (whole : ATree) (key : Bytes) (ps : APath) : Prop where
  shows : Shows T nil ps
  whole : plug ps nil = whole
  around : Around key ps

lemma descend {T : RbTree} {t : ATree} {ps : APath} {key : Bytes} {fuel : ℕ} (h : Shows T t ps)
    (hsorted : Sorted (plug ps t).toList) (haround : Around key ps) (hfuel : T.fresh ≤ ps.length + fuel) :
    (∃ a c value l r ps', FoundAt T (plug ps t) key a c value l r ps' ∧ searchLoop T key fuel (addr t) = a ∧
        insertPlace T key fuel (top ps) (addr t) = none) ∨
      ∃ ps', Missing T (plug ps t) key ps' ∧ searchLoop T key fuel (addr t) = rbNil ∧
        insertPlace T key fuel (top ps) (addr t) = some (top ps') := by
  induction t generalizing ps fuel with
  | nil =>
    obtain _ | fuel := fuel
    · exact absurd h.length_lt (by omega)
    · exact .inr ⟨ps, ⟨h, rfl, haround⟩, if_pos rfl, if_pos rfl⟩
  | node i c e l r ihl ihr =>
    obtain _ | fuel := fuel
    · exact absurd h.length_lt (by omega)
    have hi : i ≠ rbNil := fun heq => by cases h.addr_eq_nil_iff.mp heq
    obtain ⟨⟨-, he, -, hl, hr⟩, -, -⟩ := h.tree
    have hkey : (T.node i).key = e.1 := congrArg Prod.fst he
    simp only [addr, searchLoop, insertPlace, if_neg hi, hkey]
    cases hcmp : strcmp key e.1 with
    | lt =>
      have hleft : Shows T l (⟨.left, i, c, e, r⟩ :: ps) := shows_fork.mp h
      have hless : T.fresh ≤ (⟨.left, i, c, e, r⟩ :: ps : APath).length + fuel := by
        rw [length_cons]
        omega
      have hih := ihl hleft hsorted (haround.left hsorted hcmp) hless
      rw [hl]
      exact hih
    | gt =>
      have hright : Shows T r (⟨.right, i, c, e, l⟩ :: ps) := shows_fork.mp h
      have hless : T.fresh ≤ (⟨.right, i, c, e, l⟩ :: ps : APath).length + fuel := by
        rw [length_cons]
        omega
      have hih := ihr hright hsorted (haround.right hsorted hcmp) hless
      rw [hr]
      exact hih
    | eq =>
      obtain rfl : key = e.1 := strcmp_eq_iff.mp hcmp
      exact .inl ⟨i, c, e.2, l, r, ps, ⟨h, rfl⟩, rfl, rfl⟩

lemma around_nil (key : Bytes) : Around key [] := by
  constructor <;> intro a ha <;> cases ha

lemma rbtreeSearch_spec {T : RbTree} {t : ATree} (h : Shows T t []) (hsorted : Sorted t.toList) (key : Bytes) :
    (∃ a c value l r ps, FoundAt T t key a c value l r ps ∧ rbtreeSearch T key = a) ∨
      ∃ ps, Missing T t key ps ∧ rbtreeSearch T key = rbNil ∧
        insertPlace T key T.fresh rbNil T.root = some (top ps) := by
  have hroot : T.root = addr t := h.root
  have hfuel : T.fresh ≤ List.length ([] : APath) + T.fresh := by simp
  rcases descend h hsorted (around_nil key) hfuel with ⟨a, c, v, l, r, ps, hfound, hs, -⟩ | ⟨ps, hmiss, hs, hp⟩
  · exact .inl ⟨a, c, v, l, r, ps, hfound, by rw [rbtreeSearch, hroot, hs]⟩
  · exact .inr ⟨ps, hmiss, by rw [rbtreeSearch, hroot, hs], by rw [hroot]; exact hp⟩

/-- The tree in the memory is a red-black search tree. -/
structure Valid (T : RbTree) (t : ATree) : Prop where
  shows : Shows T t []
  sorted : Sorted t.toList
  balanced : t.Balanced
  black : t.color = .black

/-- It is one again, with the entries `l`. -/
def Restored (T : RbTree) (l : List (Bytes × Bytes)) : Prop :=
  ∃ t : ATree, Shows T t [] ∧ t.Balanced ∧ t.color = .black ∧ t.toList = l

end PocketKv.Storage
