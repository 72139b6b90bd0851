import PocketKv.Storage.RbSearch

/-!
# Insertion into the tree
-/

namespace PocketKv.Storage

open Library.RedBlack Library.RedBlack.ColorTree Resp

/-! ### One iteration -/

variable {z : ℕ}

section Step

variable {T : RbTree} {t s u b c : ATree} {ps : APath} {d dp : Dir} {p g : ℕ} {cp cg : Color}
  {ep eg ez : Bytes × Bytes}

namespace Shows

lemma recolor (h : Shows T t (⟨dp, p, cp, ep, s⟩ :: ⟨d, g, cg, eg, u⟩ :: ps)) :
    Shows (((T.setColor p .black).setColor (addr u) .black).setColor g .red)
      (fork d g .red eg (fork dp p .black ep t s) u.blacken) ps := by
  have hp := ((shows_fork.mpr h).setColor .black).sibling
  have hu := hp.blacken.sibling
  rw [Dir.flip_flip] at hu
  exact (shows_fork.mpr hu).setColor .red

lemma turn (h : Shows T t (⟨d, p, cp, ep, s⟩ :: ⟨d, g, cg, eg, u⟩ :: ps)) :
    Shows (Storage.rotateTo d.flip ((T.setColor p .black).setColor g .red) g)
      (fork d p .black ep t (fork d g .red eg s u)) ps := by
  have hg := (shows_fork.mpr ((shows_fork.mpr h).setColor .black)).setColor .red
  rw [← fork_flip d g, ← fork_flip d p] at hg
  have hturn := hg.rotateTo
  rwa [fork_flip, fork_flip] at hturn

lemma turnIn {cz : Color}
    (h : Shows T (fork d z cz ez b c) (⟨d.flip, p, cp, ep, s⟩ :: ps)) :
    Shows (Storage.rotateTo d T p) (fork d p cp ep s b) (⟨d, z, cz, ez, c⟩ :: ps) := by
  have hp := shows_fork.mpr h
  rw [fork_flip] at hp
  exact shows_fork.mp hp.rotateTo

end Shows

lemma insertFixupStep_recolor (h : Shows T t (⟨dp, p, cp, ep, s⟩ :: ⟨d, g, cg, eg, u⟩ :: ps)) (hne : t ≠ .nil)
    (hu : u.color = .red) :
    insertFixupStep d T (addr t) = (((T.setColor p .black).setColor (addr u) .black).setColor g .red, g) := by
  have hz : T.parent (addr t) = p := h.tree.parent hne
  have hp : T.parent p = g := h.parent_top
  have hgu : T.child d.flip g = addr u := (shows_fork.mpr h).child_flip_top
  have hcu : T.color (addr u) = .red := (shows_fork.mpr h).sibling.color_addr.trans hu
  simp [insertFixupStep, hz, hp, hgu, hcu, RbTree.parent_setColor]

lemma insertFixupStep_outer (h : Shows T t (⟨d, p, cp, ep, s⟩ :: ⟨d, g, cg, eg, u⟩ :: ps)) (hne : t ≠ .nil)
    (hu : u.color = .black) :
    insertFixupStep d T (addr t) = (rotateTo d.flip ((T.setColor p .black).setColor g .red) g, addr t) := by
  have hz : T.parent (addr t) = p := h.tree.parent hne
  have hp : T.parent p = g := h.parent_top
  have hgu : T.child d.flip g = addr u := (shows_fork.mpr h).child_flip_top
  have hcu : T.color (addr u) = .black := (shows_fork.mpr h).sibling.color_addr.trans hu
  have hside : addr t ≠ T.child d.flip p := fun heq => d.flip_ne ((h.eq_child_iff (.inl hne) _).mp heq)
  simp [insertFixupStep, hz, hp, hgu, hcu, hside]

lemma insertFixupStep_inner {cz : Color}
    (h : Shows T (fork d z cz ez b c) (⟨d.flip, p, cp, ep, s⟩ :: ⟨d, g, cg, eg, u⟩ :: ps)) (hu : u.color = .black) :
    insertFixupStep d T z =
      (rotateTo d.flip (((rotateTo d T p).setColor z .black).setColor g .red) g, p) := by
  have hz : T.parent z = p := (at_fork.mp h.tree).1.2.2.1
  have hp : T.parent p = g := h.parent_top
  have hgu : T.child d.flip g = addr u := (shows_fork.mpr h).child_flip_top
  have hcu : T.color (addr u) = .black := (shows_fork.mpr h).sibling.color_addr.trans hu
  have hside : T.child d.flip p = z := h.child_top.trans (addr_fork ..)
  -- the parents after the first rotation
  have hturn := h.turnIn
  have hpz : (rotateTo d T p).parent p = z := (at_fork.mp hturn.tree).1.2.2.1
  have hzg : (rotateTo d T p).parent z = g := hturn.parent_top
  simp [insertFixupStep, hz, hp, hgu, hcu, hside, hpz, hzg]

end Step

/-! ### The loop -/

variable {T : RbTree} {ps : APath} {t : ATree}

lemma insertFixupLoop_stop (fuel : ℕ) (h : T.color (T.parent z) = .black) : insertFixupLoop fuel T z = T := by
  cases fuel with
  | zero => rfl
  | succ fuel => rw [insertFixupLoop, if_neg (by simp [h])]

/-- The memory shows a tree with these entries that is balanced once its root is black. -/
def Repaired (T : RbTree) (l : List (Bytes × Bytes)) : Prop :=
  ∃ t : ATree, Shows T t [] ∧ t.blacken.Balanced ∧ t.toList = l

lemma Repaired.of_balanced (h : Shows T t ps) (hbal : (plug ps t).Balanced) : Repaired T (plug ps t).toList :=
  ⟨plug ps t, h.plug, ⟨hbal.noRed.blacken, hbal.height.elim fun _ hn => hn.exists_blacken⟩, rfl⟩

lemma insertFixupLoop_succ {f g : Frame ℕ (Bytes × Bytes)} (fuel : ℕ)
    (h : Shows T t (f :: g :: ps)) (hne : t ≠ .nil) (hred : f.c = .red) :
    insertFixupLoop (fuel + 1) T (addr t) =
      insertFixupLoop fuel (insertFixupStep g.d T (addr t)).1 (insertFixupStep g.d T (addr t)).2 := by
  have hz : T.parent (addr t) = f.i := h.tree.parent hne
  have hp : T.parent f.i = g.i := h.parent_top
  have hcp : T.color f.i = .red := h.color_top.trans hred
  have hup := shows_fork.mpr h
  have hside := hup.eq_child_iff (.inl (by cases f.d <;> simp [fork])) .left
  rw [addr_fork] at hside
  have hd : (if f.i = T.child .left g.i then Dir.left else .right) = g.d := by
    by_cases hl : Dir.left = g.d
    · rw [if_pos (hside.mpr hl), hl]
    · rw [if_neg (fun heq => hl (hside.mp heq)), Dir.eq_flip_of_ne (Ne.symm hl)]
      rfl
  rw [insertFixupLoop, if_pos (by rw [hz, hcp]), hz, hp, hd]

lemma insertFixupLoop_spec {fuel : ℕ} (h : Shows T t ps) (hins : Inserting t ps)
    (hfuel : ps.length ≤ fuel) : Repaired (insertFixupLoop fuel T (addr t)) (plug ps t).toList := by
  induction fuel generalizing T t ps with
  | zero =>
    obtain rfl := List.eq_nil_of_length_eq_zero (Nat.le_zero.mp hfuel)
    exact ⟨t, h, hins.done rfl, rfl⟩
  | succ fuel ih =>
    have hne : t ≠ .nil := by
      rintro rfl
      cases hins.red
    cases hc : topColor ps with
    | black =>
      rw [insertFixupLoop_stop _ (by rw [h.tree.parent hne, h.color_top, hc])]
      exact ⟨_, h.plug, hins.done hc, rfl⟩
    | red =>
      -- the parent is red, so there is a black node above it
      obtain _ | ⟨⟨dp, p, cp, ep, s⟩, ps⟩ := ps
      · cases hc
      obtain rfl : cp = .red := hc
      obtain ⟨-, ⟨d, g, cg, eg, u⟩, ps, rfl, hg⟩ := hins.above_parent rfl
      obtain rfl : cg = .black := hg
      rw [insertFixupLoop_succ fuel h hne rfl]
      cases hu : u.color with
      | red =>
        rw [insertFixupStep_recolor h hne hu]
        have hrec := ih h.recolor (hins.recolor hu) (by simp only [List.length_cons] at hfuel; omega)
        rw [addr_fork] at hrec
        convert hrec using 1
        exact toList_plug_congr ps (toList_recolor d (toList_recolor dp rfl rfl) (toList_blacken u).symm)
      | black =>
        by_cases hside : dp = d
        · subst hside
          rw [insertFixupStep_outer h hne hu, insertFixupLoop_stop]
          · convert Repaired.of_balanced h.turn (hins.outer hu) using 1
            exact toList_plug_congr ps (toList_rotate dp)
          · have hdown := shows_fork.mp h.turn
            rw [hdown.tree.parent hne, hdown.color_top]
            rfl
        · obtain rfl := Dir.eq_flip_of_ne hside
          obtain ⟨z, cz, ez, b, c, rfl⟩ := exists_fork d hne
          obtain rfl : cz = .red := by simpa using hins.red
          rw [addr_fork, insertFixupStep_inner h hu, insertFixupLoop_stop]
          · convert Repaired.of_balanced h.turnIn.turn (hins.inner hu) using 1
            exact toList_plug_congr ps (toList_rotate_inner d).symm
          · have hdown := shows_fork.mp h.turnIn.turn
            rw [(at_fork.mp hdown.tree).1.2.2.1, hdown.color_top]
            rfl

lemma rbtreeInsertFixup_spec (h : Shows T t ps) (hins : Inserting t ps) :
    Restored (rbtreeInsertFixup T (addr t)) (plug ps t).toList := by
  obtain ⟨t', hshows, hbal, hlist⟩ := insertFixupLoop_spec h hins h.length_lt.le
  refine ⟨t'.blacken, ?_, hbal, color_blacken t', (toList_blacken t').trans hlist⟩
  rw [rbtreeInsertFixup, hshows.root]
  exact hshows.blacken

/-! ### A new node -/

section New

variable {key value : Bytes}

lemma same_allocNode {i : ℕ} (h : i ≠ T.fresh) : Same T (allocNode T key value) i := Function.update_of_ne h _ _

lemma entry_allocNode : (allocNode T key value).entry T.fresh = (key, value) := by
  simp [RbTree.entry, allocNode, RbTree.modify]

lemma Shows.allocNode (h : Shows T t ps) : Shows (allocNode T key value) t ps := by
  have hne : ∀ i, i ∈ ids t ++ pathIds ps → i ≠ T.fresh := fun i hi => (h.bounds i hi).2.ne
  refine h.rewrite ?_ (.refl _) rfl (fun i hi => same_allocNode (hne i (List.mem_append_right _ hi))) rfl
    (Nat.le_succ _) (same_allocNode h.pos.ne).color
  exact h.tree.congr (List.nodup_append'.mp h.nodup).1 fun i hi => same_allocNode (hne i (List.mem_append_left _ hi))

lemma insert_link (h : Shows T nil ps) (hz : T.entry z = (key, value)) (haround : Around key ps) :
    (if top ps = rbNil then T.setRoot z
      else if strcmp (T.node z).key (T.node (top ps)).key = .lt then T.setChild .left (top ps) z
      else T.setChild .right (top ps) z) = link T ps z := by
  have hkey : (T.node z).key = key := congrArg Prod.fst hz
  cases ps with
  | nil => exact if_pos rfl
  | cons f ps =>
    have hf : f.i ≠ rbNil := (h.bounds f.i (List.mem_append_right _ List.mem_cons_self)).1
    have he : (T.node f.i).key = f.e.1 := congrArg Prod.fst h.path.1.2.1
    rw [top, if_neg hf, hkey, he, link]
    obtain ⟨d, i, c, e, sib⟩ := f
    cases d with
    | left =>
      have hlt : strcmp key e.1 = .lt := haround.after e (by simp [after])
      rw [if_pos hlt]
    | right =>
      have hlt : strcmp e.1 key = .lt := haround.before e (by simp [before])
      rw [if_neg (by rw [strcmp_gt_iff.mpr hlt]; decide)]

/-- A red leaf is put in the place. -/
def hang (T : RbTree) (ps : APath) (z : ℕ) : RbTree :=
  ((((link (T.setParent z (top ps)) ps z).setChild .left z rbNil).setChild .right z rbNil).setColor z .red)

lemma Shows.hang (h : Shows T .nil ps) (hz : T.entry z = (key, value)) (hnew : z ∉ pathIds ps)
    (hne : z ≠ rbNil) (hlt : z < T.fresh) : Shows (hang T ps z) (.node z .red (key, value) .nil .nil) ps := by
  refine h.replace ⟨⟨?_, ?_, ?_, ?_, ?_⟩, trivial, trivial⟩ (fun i hi => ?_) ?_ ?_ ?_ ?_ ?_
  · simp [Storage.hang, RbTree.color_setColor]
  · simp [Storage.hang, hz]
  · simp [Storage.hang, RbTree.parent_setParent]
  · simp [Storage.hang, RbTree.child_setChild, addr]
  · simp [Storage.hang, RbTree.child_setChild, addr]
  · have hiz : i ≠ z := fun heq => hnew (heq ▸ hi)
    have hpar : Same T (T.setParent z (top ps)) i := .modify T _ hiz
    rw [Storage.hang, RbTree.setColor, RbTree.setChild, RbTree.setChild]
    exact (((hpar.link_link T ps z).trans (.modify _ _ hiz)).trans (.modify _ _ hiz)).trans (.modify _ _ hiz)
  · simp [Storage.hang, root_link, addr]
  · exact List.nodup_cons.mpr ⟨hnew, h.nodup⟩
  · intro i hi
    simp only [Storage.hang, RbTree.fresh_setColor, RbTree.fresh_setChild, fresh_link, RbTree.fresh_setParent]
    rcases List.mem_cons.mp hi with rfl | hi
    · exact ⟨hne, hlt⟩
    · exact h.bounds i hi
  · simp [Storage.hang, RbTree.color_setColor, hne.symm, h.nil]
  · simp [Storage.hang]

lemma rbtreeInsert_eq (h : Shows T nil ps) (hz : T.entry z = (key, value)) (hnew : z ∉ pathIds ps)
    (haround : Around key ps) (hplace : insertPlace T key T.fresh rbNil T.root = some (top ps)) :
    rbtreeInsert T z = rbtreeInsertFixup (hang T ps z) z := by
  have hkey : (T.node z).key = key := congrArg Prod.fst hz
  have hpar : Shows (T.setParent z (top ps)) nil ps :=
    h.rewrite trivial (.refl _) rfl (fun i hi => .modify T _ fun heq => hnew (heq ▸ hi)) (by simp) (by simp) (by simp)
  rw [rbtreeInsert, hkey, hplace]
  simp only
  rw [insert_link hpar (by simpa using hz) haround]
  rfl

lemma sorted_insert {i : ℕ} {c : Color} (haround : Around key ps) (hsorted : Sorted (plug ps (nil : ATree)).toList) :
    Sorted (plug ps (node i c (key, value) nil nil)).toList := by
  simp only [Sorted, toList_plug, toList, List.nil_append, List.singleton_append, List.pairwise_append,
    List.pairwise_cons, List.mem_cons] at hsorted ⊢
  obtain ⟨hbefore, hafter, hcross⟩ := hsorted
  refine ⟨hbefore, ⟨haround.after, hafter⟩, fun a ha b hb => ?_⟩
  rcases hb with rfl | hb
  · exact haround.before a ha
  · exact hcross a ha b hb

lemma rbtreeInsert_spec (h : Valid T t) (hmiss : ∀ a, a ∈ t.toList → a.1 ≠ key) (value : Bytes) :
    ∃ t', Valid (rbtreeInsert (allocNode T key value) T.fresh) t' ∧
      (t'.toList : Multiset (Bytes × Bytes)) = t.toList + {(key, value)} := by
  have halloc : Shows (allocNode T key value) t [] := h.shows.allocNode
  rcases rbtreeSearch_spec halloc h.sorted key with
    ⟨a, c, v, l, r, ps, hfound, -⟩ | ⟨ps, hplace, -, hins⟩
  · refine absurd rfl (hmiss (key, v) ?_)
    rw [← hfound.whole, toList_plug, toList]
    simp
  · obtain ⟨hshows, rfl, haround⟩ := hplace
    have hnew : T.fresh ∉ pathIds ps := fun hmem =>
      (h.shows.bounds T.fresh (List.mem_append_left _ ((ids_plug ps nil).mem_iff.mpr hmem))).2.false
    have hhang := hshows.hang entry_allocNode hnew h.shows.pos.ne' (Nat.lt_succ_self _)
    obtain ⟨t', hshows', hbal, hblack, hlist⟩ := rbtreeInsertFixup_spec hhang (.leaf h.balanced h.black)
    rw [addr, ← rbtreeInsert_eq hshows entry_allocNode hnew haround hins] at hshows'
    refine ⟨t', ⟨hshows', hlist ▸ sorted_insert haround h.sorted, hbal, hblack⟩, ?_⟩
    rw [hlist, toList_plug, toList_plug]
    simp only [toList, List.nil_append, List.singleton_append, ← Multiset.coe_add, ← Multiset.cons_coe,
      ← Multiset.singleton_add]
    abel

end New

end PocketKv.Storage
