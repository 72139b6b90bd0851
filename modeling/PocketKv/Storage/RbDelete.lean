import PocketKv.Storage.RbSearch

/-!
# Deletion from the tree
-/

namespace PocketKv.Storage

open Library.RedBlack Library.RedBlack.ColorTree Resp

/-- The place is shown, and the parent is right even if it is an empty one: there it is that of
`T->nil`. -/
structure Focused (T : RbTree) (t : ATree) (ps : APath) : Prop where
  shows : Shows T t ps
  parent : T.parent (addr t) = top ps

lemma Shows.focused {T : RbTree} {t : ATree} {ps : APath} (h : Shows T t ps)
    (hnil : t = .nil → T.parent rbNil = top ps) : Focused T t ps := by
  refine ⟨h, ?_⟩
  by_cases hne : t = .nil
  · subst hne
    exact hnil rfl
  · exact h.tree.parent hne

/-! ### One iteration -/

section Step

variable {T : RbTree} {x b b₁ b₂ c : ATree} {ps : APath} {d : Dir} {p w v : ℕ} {cp cw cv : Color}
  {ep ew ev : Bytes × Bytes}

section

variable (h : Shows T x (⟨d, p, cp, ep, fork d w cw ew b c⟩ :: ps))
include h

lemma Shows.nephews :
    (T.color w = cw ∧ T.child d w = addr b ∧ T.child d.flip w = addr c) ∧
      T.color (addr b) = b.color ∧ T.color (addr c) = c.color := by
  obtain ⟨⟨hcw, -, -, hb, hc⟩, -, -⟩ := at_fork.mp h.sibling.tree
  have hdown := shows_fork.mp h.sibling
  exact ⟨⟨hcw, hb, hc⟩, hdown.color_addr, hdown.sibling.color_addr⟩

lemma nephews_black :
    (T.color (T.child .left w) = .black ∧ T.color (T.child .right w) = .black) ↔ b.color = .black ∧ c.color = .black := by
  obtain ⟨⟨-, hb, hc⟩, hbc, hcc⟩ := h.nephews
  cases d with
  | left =>
    have hc : T.child .right w = addr c := hc
    rw [hb, hc, hbc, hcc]
  | right =>
    have hc : T.child .left w = addr c := hc
    rw [hb, hc, hbc, hcc, and_comm]

lemma Shows.repaint (c₁ c₂ : Color) :
    Shows ((T.setColor w c₁).setColor p c₂) (fork d p c₂ ep x (fork d w c₁ ew b c)) ps := by
  have hw := (h.sibling.setColor c₁).sibling
  rw [Dir.flip_flip] at hw
  exact (shows_fork.mpr hw).setColor c₂

end

lemma deleteFixupTurn_red (h : Focused T x (⟨d, p, cp, ep, fork d w .red ew b c⟩ :: ps)) :
    Focused (deleteFixupTurn d T (addr x)) x (⟨d, p, .red, ep, b⟩ :: ⟨d, w, .black, ew, c⟩ :: ps) := by
  have hp : T.parent (addr x) = p := h.parent
  have hw : T.child d.flip p = w := h.shows.child_flip_top.trans (addr_fork ..)
  have hcw : T.color w = .red := h.shows.nephews.1.1
  have heq : deleteFixupTurn d T (addr x) = rotateTo d ((T.setColor w .black).setColor p .red) p := by
    simp [deleteFixupTurn, hp, hw, hcw, RbTree.parent_setColor]
  have hpaint := h.shows.repaint .black .red
  rw [heq]
  refine (shows_fork.mp (shows_fork.mp hpaint.rotateTo)).focused ?_
  rintro rfl
  rw [hpaint.rotateTo_parent_nil, RbTree.parent_setColor, RbTree.parent_setColor]
  exact hp

lemma deleteFixupTurn_black (h : Focused T x (⟨d, p, cp, ep, fork d w .black ew b c⟩ :: ps)) :
    deleteFixupTurn d T (addr x) = T := by
  have hp : T.parent (addr x) = p := h.parent
  have hw : T.child d.flip p = w := h.shows.child_flip_top.trans (addr_fork ..)
  have hcw : T.color w = .black := h.shows.nephews.1.1
  rw [deleteFixupTurn, hp, hw, hcw, if_neg (by decide)]

lemma deleteFixupRest_up (h : Focused T x (⟨d, p, cp, ep, fork d w cw ew b c⟩ :: ps)) (hb : b.color = .black)
    (hc : c.color = .black) : deleteFixupRest d T (addr x) w = (T.setColor w .red, p) := by
  rw [deleteFixupRest, if_pos ((nephews_black h.shows).mpr ⟨hb, hc⟩), h.parent]
  rfl

section

variable (h : Shows T x (⟨d, p, cp, ep, fork d w cw ew b c⟩ :: ps))
include h

lemma Shows.up : Shows (T.setColor w .red) (fork d p cp ep x (fork d w .red ew b c)) ps := by
  have hw := (h.sibling.setColor .red).sibling
  rw [Dir.flip_flip] at hw
  exact shows_fork.mpr hw

lemma Shows.lift :
    Shows (Storage.rotateTo d (((T.setColor w cp).setColor p .black).setColor (addr c) .black) p)
      (fork d w cp ew (fork d p .black ep x b) c.blacken) ps := by
  have hpaint := h.repaint cp .black
  rw [← fork_flip d p, ← fork_flip d w] at hpaint
  have hc := shows_fork.mpr (shows_fork.mpr (shows_fork.mp (shows_fork.mp hpaint)).blacken)
  rw [fork_flip, fork_flip] at hc
  exact hc.rotateTo

end

lemma deleteFixupRest_outer (h : Focused T x (⟨d, p, cp, ep, fork d w cw ew b c⟩ :: ps)) (hc : c.color = .red) :
    deleteFixupRest d T (addr x) w =
      (Storage.rotateTo d (((T.setColor w cp).setColor p .black).setColor (addr c) .black) p,
        (Storage.rotateTo d (((T.setColor w cp).setColor p .black).setColor (addr c) .black) p).root) := by
  have hp : T.parent (addr x) = p := h.parent
  have hcp : T.color p = cp := h.shows.color_top
  obtain ⟨⟨-, -, hcw⟩, -, hcc⟩ := h.shows.nephews
  have hnot : ¬(T.color (T.child .left w) = .black ∧ T.color (T.child .right w) = .black) := by
    rw [nephews_black h.shows, hc]
    simp
  have hred : T.color (addr c) = .red := hcc.trans hc
  simp only [deleteFixupRest, if_neg hnot, hcw, hred, hp, hcp, RbTree.parent_setColor, RbTree.child_setColor, reduceCtorEq,
    if_false]

lemma Shows.straighten (h : Shows T x (⟨d, p, cp, ep, fork d w cw ew (fork d v cv ev b₁ b₂) c⟩ :: ps)) :
    Shows (Storage.rotateTo d.flip ((T.setColor v .black).setColor w .red) w) x
      (⟨d, p, cp, ep, fork d v .black ev b₁ (fork d w .red ew b₂ c)⟩ :: ps) := by
  have hw := (shows_fork.mpr ((shows_fork.mp h.sibling).setColor .black)).setColor .red
  rw [← fork_flip d w, ← fork_flip d v] at hw
  have hturn := hw.rotateTo.sibling
  rwa [fork_flip, fork_flip, Dir.flip_flip] at hturn

lemma Focused.straighten (h : Focused T x (⟨d, p, cp, ep, fork d w cw ew (fork d v cv ev b₁ b₂) c⟩ :: ps)) :
    Focused (Storage.rotateTo d.flip ((T.setColor v .black).setColor w .red) w) x
      (⟨d, p, cp, ep, fork d v .black ev b₁ (fork d w .red ew b₂ c)⟩ :: ps) := by
  refine h.shows.straighten.focused ?_
  rintro rfl
  have hw := (shows_fork.mpr ((shows_fork.mp h.shows.sibling).setColor .black)).setColor .red
  rw [← fork_flip d w, ← fork_flip d v] at hw
  rw [hw.rotateTo_parent_nil, RbTree.parent_setColor, RbTree.parent_setColor]
  exact h.parent

lemma deleteFixupRest_inner (h : Focused T x (⟨d, p, cp, ep, fork d w cw ew (fork d v .red ev b₁ b₂) c⟩ :: ps))
    (hc : c.color = .black) : ∃ T', Focused T' x (⟨d, p, cp, ep, fork d v .black ev b₁ (fork d w .red ew b₂ c)⟩ :: ps) ∧
      deleteFixupRest d T (addr x) w = deleteFixupRest d T' (addr x) v := by
  refine ⟨_, h.straighten, ?_⟩
  set T' := Storage.rotateTo d.flip ((T.setColor v .black).setColor w .red) w with hT'
  have hp : T.parent (addr x) = p := h.parent
  obtain ⟨⟨-, hv, hcw⟩, -, hcc⟩ := h.shows.nephews
  rw [addr_fork] at hv
  have hnot : ¬(T.color (T.child .left w) = .black ∧ T.color (T.child .right w) = .black) := by
    rw [nephews_black h.shows, color_fork]
    simp
  -- after the first rotation
  have hs := h.straighten
  have hp' : T'.parent (addr x) = p := hs.parent
  have hv' : T'.child d.flip p = v := hs.shows.child_flip_top.trans (addr_fork ..)
  have hw' : T'.child d.flip v = w := hs.shows.nephews.1.2.2.trans (addr_fork ..)
  have hred' : T'.color w = .red := by
    have hred := hs.shows.nephews.2.2
    rwa [addr_fork, color_fork] at hred
  have hnot' : ¬(T'.color (T'.child .left v) = .black ∧ T'.color (T'.child .right v) = .black) := by
    rw [nephews_black hs.shows, color_fork]
    simp
  have hblack : T.color (addr c) = .black := hcc.trans hc
  simp only [deleteFixupRest, if_neg hnot, if_neg hnot', hcw, hblack, hv, ← hT', hp', hv', hw', hred', reduceCtorEq,
    if_false, if_true]

end Step

/-! ### The loop -/

variable {fuel : ℕ} {x : ATree}

section Loop

variable {T : RbTree} {ps : APath} {d : Dir} {p w : ℕ} {cp : Color} {ep ew : Bytes × Bytes} {b c : ATree}

lemma deleteFixupRest_spec (h : Focused T x (⟨d, p, cp, ep, fork d w .black ew b c⟩ :: ps))
    (hdel : Deleting x (⟨d, p, cp, ep, fork d w .black ew b c⟩ :: ps)) (hx : x.color = .black) :
    (∃ x', Focused (deleteFixupRest d T (addr x) w).1 x' ps ∧ Deleting x' ps ∧ x'.color = cp ∧
        (deleteFixupRest d T (addr x) w).2 = addr x' ∧ x'.toList = (fork d p cp ep x (fork d w .black ew b c)).toList) ∨
      ((deleteFixupRest d T (addr x) w).2 = (deleteFixupRest d T (addr x) w).1.root ∧
        ∃ t, Shows (deleteFixupRest d T (addr x) w).1 t ps ∧ (plug ps t).Balanced ∧
          t.toList = (fork d p cp ep x (fork d w .black ew b c)).toList) := by
  cases hc : c.color with
  | red =>
    rw [deleteFixupRest_outer h hc]
    refine .inr ⟨rfl, _, h.shows.lift, hdel.outer hx hc, ?_⟩
    have hrot : (fork d w cp ew (fork d p .black ep x b) c).toList =
        (fork d p cp ep x (fork d w .black ew b c)).toList := toList_rotate d
    rw [← hrot]
    exact toList_recolor d rfl (toList_blacken c)
  | black =>
    cases hb : b.color with
    | black =>
      rw [deleteFixupRest_up h hb hc]
      refine .inl ⟨_, h.shows.up.focused ?_, hdel.up hx hb hc, color_fork .., (addr_fork ..).symm, ?_⟩
      · intro hnil
        cases d <;> cases hnil
      · exact toList_recolor d rfl (toList_recolor d rfl rfl)
    | red =>
      have hne : b ≠ .nil := by
        rintro rfl
        cases hb
      obtain ⟨v, cv, ev, b₁, b₂, rfl⟩ := exists_fork d hne
      obtain rfl : cv = .red := by simpa using hb
      obtain ⟨T', hs, heq⟩ := deleteFixupRest_inner h hc
      rw [heq, deleteFixupRest_outer hs (color_fork ..)]
      have hlift := hs.shows.lift
      rw [blacken_fork] at hlift
      refine .inr ⟨rfl, _, hlift, hdel.inner hx, ?_⟩
      cases d <;> simp [fork, toList]

lemma deleteFixupLoop_stop (fuel : ℕ) (h : Focused T x ps) (hstop : x.color = .red ∨ ps = []) :
    deleteFixupLoop fuel T (addr x) = (T, addr x) := by
  cases fuel with
  | zero => rfl
  | succ fuel =>
    rw [deleteFixupLoop, if_neg]
    rintro ⟨hroot, hblack⟩
    rcases hstop with hred | rfl
    · rw [h.shows.color_addr, hred] at hblack
      cases hblack
    · exact hroot h.shows.root.symm

lemma deleteFixupLoop_root (fuel : ℕ) : deleteFixupLoop fuel T T.root = (T, T.root) := by
  cases fuel with
  | zero => rfl
  | succ fuel => rw [deleteFixupLoop, if_neg fun hne => hne.1 rfl]

lemma deleteFixupLoop_succ {f : Frame ℕ (Bytes × Bytes)} (fuel : ℕ) (h : Focused T x (f :: ps)) (hsib : f.sib ≠ .nil)
    (hx : x.color = .black) :
    deleteFixupLoop (fuel + 1) T (addr x) =
      deleteFixupLoop fuel
        (deleteFixupRest f.d (deleteFixupTurn f.d T (addr x)) (addr x)
          ((deleteFixupTurn f.d T (addr x)).child f.d.flip ((deleteFixupTurn f.d T (addr x)).parent (addr x)))).1
        (deleteFixupRest f.d (deleteFixupTurn f.d T (addr x)) (addr x)
          ((deleteFixupTurn f.d T (addr x)).child f.d.flip ((deleteFixupTurn f.d T (addr x)).parent (addr x)))).2 := by
  have hp : T.parent (addr x) = f.i := h.parent
  have hside := h.shows.eq_child_iff (.inr hsib) .left
  have hd : (if addr x = T.child .left (T.parent (addr x)) then Dir.left else .right) = f.d := by
    rw [hp]
    by_cases hl : Dir.left = f.d
    · rw [if_pos (hside.mpr hl), hl]
    · rw [if_neg (fun heq => hl (hside.mp heq)), Dir.eq_flip_of_ne (Ne.symm hl)]
      rfl
  have hcond : addr x ≠ T.root ∧ T.color (addr x) = .black :=
    ⟨h.shows.addr_ne_root (by simp), h.shows.color_addr.trans hx⟩
  rw [deleteFixupLoop, if_pos hcond, hd]

/-- What `rbtree_delete_fixup` leaves, from the result of the loop. -/
def Ends (r : RbTree × ℕ) (l : List (Bytes × Bytes)) : Prop := Restored (r.1.setColor r.2 .black) l

lemma ends_stop (h : Focused T x ps) (hdel : Deleting x ps) (hstop : x.color = .red ∨ ps = []) :
    Ends (T, addr x) (plug ps x).toList := by
  obtain ⟨hbal, hblack⟩ := hdel.done hstop
  exact ⟨_, h.shows.blacken.plug, hbal, hblack, toList_plug_congr ps (toList_blacken x)⟩

lemma ends_root {t : ATree} (h : Shows T t ps) (hbal : (plug ps t).Balanced) : Ends (T, T.root) (plug ps t).toList := by
  have hblack := h.plug.blacken
  rw [show addr (plug ps t) = T.root from h.plug.root.symm] at hblack
  exact ⟨_, hblack, ⟨hbal.noRed.blacken, hbal.height.elim fun _ hn => hn.exists_blacken⟩, color_blacken _, toList_blacken _⟩

lemma deleteFixupRest_ends
    (ih : ∀ {T x ps}, Focused T x ps → Deleting x ps → x.color = .red ∨ ps.length ≤ fuel →
      Ends (deleteFixupLoop fuel T (addr x)) (plug ps x).toList)
    (h : Focused T x (⟨d, p, cp, ep, fork d w .black ew b c⟩ :: ps))
    (hdel : Deleting x (⟨d, p, cp, ep, fork d w .black ew b c⟩ :: ps)) (hx : x.color = .black)
    (hfuel : cp = .red ∨ ps.length ≤ fuel) :
    Ends (deleteFixupLoop fuel (deleteFixupRest d T (addr x) (T.child d.flip (T.parent (addr x)))).1
        (deleteFixupRest d T (addr x) (T.child d.flip (T.parent (addr x)))).2)
      (plug (⟨d, p, cp, ep, fork d w .black ew b c⟩ :: ps) x).toList := by
  have hp : T.parent (addr x) = p := h.parent
  have hw : T.child d.flip p = w := h.shows.child_flip_top.trans (addr_fork ..)
  rw [hp, hw]
  rcases deleteFixupRest_spec h hdel hx with ⟨x', hfoc, hdel', hcol, haddr, hlist⟩ | ⟨hroot, t, hshows, hbal, hlist⟩
  · rw [haddr, plug, ← toList_plug_congr ps hlist]
    exact ih hfoc hdel' (hcol ▸ hfuel)
  · rw [hroot, deleteFixupLoop_root, plug, ← toList_plug_congr ps hlist]
    exact ends_root hshows hbal

lemma deleteFixupLoop_spec (h : Focused T x ps) (hdel : Deleting x ps)
    (hfuel : x.color = .red ∨ ps.length ≤ fuel) : Ends (deleteFixupLoop fuel T (addr x)) (plug ps x).toList := by
  induction fuel generalizing T x ps with
  | zero => exact ends_stop h hdel (hfuel.imp_right fun hlen => List.eq_nil_of_length_eq_zero (Nat.le_zero.mp hlen))
  | succ fuel ih =>
    by_cases hstop : x.color = .red ∨ ps = []
    · rw [deleteFixupLoop_stop _ h hstop]
      exact ends_stop h hdel hstop
    obtain ⟨hred, hps⟩ := not_or.mp hstop
    obtain ⟨⟨d, p, cp, ep, sib⟩, ps, rfl⟩ := List.exists_cons_of_ne_nil hps
    have hx : x.color = .black := by
      cases hc : x.color with
      | red => exact absurd hc hred
      | black => rfl
    have hlen : ps.length ≤ fuel := Nat.le_of_succ_le_succ (hfuel.resolve_left hred)
    rw [deleteFixupLoop_succ fuel h hdel.sib_ne_nil hx]
    obtain ⟨w, cw, ew, b, c, rfl⟩ := exists_fork d hdel.sib_ne_nil
    cases cw with
    | black =>
      rw [deleteFixupTurn_black h]
      exact deleteFixupRest_ends ih h hdel hx (.inr hlen)
    | red =>
      -- the iteration goes on one level deeper, under a red node
      obtain rfl : cp = .black := hdel.parent_black (color_fork ..)
      obtain ⟨hdel', hb⟩ := hdel.rotate
      have hturn := deleteFixupTurn_red h
      have hlist : (plug (⟨d, p, .red, ep, b⟩ :: ⟨d, w, .black, ew, c⟩ :: ps) x).toList =
          (plug (⟨d, p, .black, ep, fork d w .red ew b c⟩ :: ps) x).toList := toList_plug_congr ps (toList_rotate d)
      obtain ⟨w', cw', ew', b₁, b₂, rfl⟩ := exists_fork d hdel'.sib_ne_nil
      obtain rfl : cw' = .black := by simpa using hb
      rw [← hlist]
      exact deleteFixupRest_ends ih hturn hdel' hx (.inl rfl)

end Loop

lemma rbtreeDeleteFixup_spec {T : RbTree} {ps : APath} (h : Focused T x ps) (hdel : Deleting x ps) :
    Restored (rbtreeDeleteFixup T (addr x)) (plug ps x).toList :=
  deleteFixupLoop_spec h hdel (.inr h.shows.length_lt.le)

/-! ### The node that is taken out -/

section Delete

variable {T : RbTree} {t : ATree} {ps : APath} {y : ℕ}

lemma miniLoop_spec (h : Shows T t ps) (hne : t ≠ .nil) (hfuel : T.fresh ≤ ps.length + fuel) :
    ∃ y c e r qs, miniLoop T fuel (addr t) = y ∧ plug qs (node y c e nil r) = t ∧ t.toList = e :: (plug qs r).toList := by
  induction t generalizing ps fuel with
  | nil => exact absurd rfl hne
  | node i c e l r ihl _ =>
    obtain _ | fuel := fuel
    · exact absurd h.length_lt (by omega)
    have hl : T.child .left i = addr l := h.tree.1.2.2.2.1
    have hleft : Shows T l (⟨.left, i, c, e, r⟩ :: ps) := shows_fork.mp h
    by_cases hnil : l = .nil
    · subst hnil
      refine ⟨i, c, e, r, [], ?_, rfl, rfl⟩
      rw [addr, miniLoop, hl, if_neg (by simp)]
    · have hless : T.fresh ≤ (⟨.left, i, c, e, r⟩ :: ps : APath).length + fuel := by
        rw [List.length_cons]
        omega
      obtain ⟨y, cy, ey, ry, qs, hmini, hplug, hlist⟩ := ihl hleft hnil hless
      refine ⟨y, cy, ey, ry, qs ++ [⟨.left, i, c, e, r⟩], ?_, ?_, ?_⟩
      · rw [addr, miniLoop, hl, if_pos (fun heq => hnil (hleft.addr_eq_nil_iff.mp heq)), hmini]
      · rw [plug_append, hplug]
        rfl
      · rw [plug_append, toList, hlist]
        rfl

lemma restored_splice {T₁ : RbTree} {d : Dir} {c : Color} {e : Bytes × Bytes}
    (hbal : (plug ps (fork d y c e x nil)).Balanced) (hblack : (plug ps (fork d y c e x nil)).color = .black)
    (hfoc : Focused T₁ x ps) (hcolor : T₁.color y = c) :
    Restored (if T₁.color y = .black then rbtreeDeleteFixup T₁ (addr x) else T₁) (plug ps x).toList := by
  rw [hcolor]
  cases c with
  | black => exact rbtreeDeleteFixup_spec hfoc (.splice hbal hblack)
  | red =>
    obtain ⟨hbal', hblack'⟩ := balanced_splice_red hbal hblack
    exact ⟨_, hfoc.shows.plug, hbal', hblack', rfl⟩

variable {z : ℕ} {c : Color} {e : Bytes × Bytes} {l r : ATree}

/-- The child of `y` that takes its place. -/
def heir (T : RbTree) (y : ℕ) : ℕ :=
  if T.child .left y ≠ rbNil then T.child .left y
  else if T.child .right y ≠ rbNil then T.child .right y
  else rbNil

lemma heir_right (h : Shows T (node z c e nil r) ps) : heir T z = addr r := by
  obtain ⟨⟨-, -, -, hl, hr⟩, -, -⟩ := h.tree
  rw [heir, hl, hr]
  by_cases hne : addr r = rbNil
  · simp [hne]
  · simp [hne]

lemma heir_left (h : Shows T (node z c e l nil) ps) : heir T z = addr l := by
  obtain ⟨⟨-, -, -, hl, hr⟩, -, -⟩ := h.tree
  rw [heir, hl, hr]
  by_cases hne : addr l = rbNil
  · simp [hne]
  · simp [hne]

lemma only_child (h : Shows T (node z c e l r) ps) (hnil : l = .nil ∨ r = .nil) :
    ∃ d x, node z c e l r = fork d z c e x nil ∧ l.toList ++ r.toList = x.toList ∧ heir T z = addr x := by
  rcases hnil with rfl | rfl
  · exact ⟨.right, r, rfl, rfl, heir_right h⟩
  · exact ⟨.left, l, rfl, List.append_nil _, heir_left h⟩

lemma rbtreeDelete_eq (hy : (if T.child .left z = rbNil ∨ T.child .right z = rbNil then z else rbtreeSuccessor T z) = y) :
    (rbtreeDelete T z).2 =
      let T₁ := if y ≠ z then exchangeEntries (spliceOut T (heir T y) y) y z else spliceOut T (heir T y) y
      if T₁.color y = .black then rbtreeDeleteFixup T₁ (heir T y) else T₁ := by
  rw [rbtreeDelete, hy]
  rfl

lemma rbtreeDelete_self (h : Shows T (node z c e l r) ps) (hnil : l = .nil ∨ r = .nil)
    (hbal : (plug ps (node z c e l r)).Balanced) (hblack : (plug ps (node z c e l r)).color = .black) :
    Restored (rbtreeDelete T z).2 (before ps ++ ((l.toList ++ r.toList) ++ after ps)) := by
  obtain ⟨d, x, hfork, hlist, hx⟩ := only_child h hnil
  obtain ⟨⟨-, -, -, hl, hr⟩, -, -⟩ := h.tree
  have hy : T.child .left z = rbNil ∨ T.child .right z = rbNil := by
    rcases hnil with rfl | rfl
    · exact .inl hl
    · exact .inr hr
  rw [hfork] at h hbal hblack
  have hcolor : (spliceOut T (addr x) z).color z = c := by
    rw [spliceOut_eq h, color_link, RbTree.color_setParent]
    exact (at_fork.mp h.tree).1.1
  have hend := restored_splice hbal hblack ⟨h.spliceOut, spliceOut_parent h⟩ hcolor
  rw [toList_plug, ← hlist] at hend
  rw [rbtreeDelete_eq (if_pos hy), hx]
  simp only [ne_eq, not_true_eq_false, if_false]
  exact hend

lemma exchangeEntries_eq (T : RbTree) (y z : ℕ) :
    exchangeEntries T y z = setEntry (setEntry T z (T.entry y)) y (T.entry z) := rfl

lemma Focused.exchangeEntries {qs : APath} {d : Dir}
    (h : Focused T x (qs ++ ⟨d, z, c, e, l⟩ :: ps)) (hy : y ∉ ids x ++ pathIds (qs ++ ⟨d, z, c, e, l⟩ :: ps)) :
    Focused (exchangeEntries T y z) x (qs ++ ⟨d, z, c, T.entry y, l⟩ :: ps) := by
  have hz : Shows (setEntry T z (T.entry y)) x (qs ++ ⟨d, z, c, T.entry y, l⟩ :: ps) :=
    shows_plug.mp (shows_fork.mp ((shows_fork.mpr (shows_plug.mpr h.shows)).setEntry _))
  have hids : pathIds (qs ++ ⟨d, z, c, T.entry y, l⟩ :: ps) = pathIds (qs ++ ⟨d, z, c, e, l⟩ :: ps) := by
    rw [pathIds_append, pathIds_append]
    rfl
  have htop : top (qs ++ ⟨d, z, c, T.entry y, l⟩ :: ps) = top (qs ++ ⟨d, z, c, e, l⟩ :: ps) := by
    cases qs <;> rfl
  rw [exchangeEntries_eq]
  refine ⟨hz.setEntry_out (by rwa [hids]) _, ?_⟩
  rw [parent_setEntry, parent_setEntry, h.parent, htop]

lemma rbtreeDelete_successor (h : Shows T (node z c e l r) ps) (hl : l ≠ .nil) (hr : r ≠ .nil)
    (hbal : (plug ps (node z c e l r)).Balanced) (hblack : (plug ps (node z c e l r)).color = .black) :
    Restored (rbtreeDelete T z).2 (before ps ++ ((l.toList ++ r.toList) ++ after ps)) := by
  have hright : Shows T r (⟨.right, z, c, e, l⟩ :: ps) := shows_fork.mp h
  have hleft : Shows T l (⟨.left, z, c, e, r⟩ :: ps) := shows_fork.mp h
  have hfuel : T.fresh ≤ (⟨.right, z, c, e, l⟩ :: ps : APath).length + T.fresh := Nat.le_add_left _ _
  obtain ⟨y, cy, ey, ry, qs, hmini, hr', hlist⟩ := miniLoop_spec hright hr hfuel
  have hy : Shows T (node y cy ey nil ry) (qs ++ ⟨.right, z, c, e, l⟩ :: ps) := shows_plug.mp (hr' ▸ hright)
  -- the successor is not the node itself
  have hcl : T.child .left z ≠ rbNil := by
    rw [hleft.child_top]
    exact fun heq => hl (hleft.addr_eq_nil_iff.mp heq)
  have hcr : T.child .right z ≠ rbNil := by
    rw [hright.child_top]
    exact fun heq => hr (hright.addr_eq_nil_iff.mp heq)
  have hsucc : rbtreeSuccessor T z = y := by
    rw [rbtreeSuccessor, if_pos hcr, rbtreeMini, hright.child_top, hmini]
  have hnew : y ∉ ids ry ++ pathIds (qs ++ ⟨.right, z, c, e, l⟩ :: ps) := (List.nodup_cons.mp hy.nodup).1
  have hyz : y ≠ z := by
    rintro rfl
    refine hnew (List.mem_append_right _ ?_)
    rw [pathIds_append]
    exact List.mem_append_right _ List.mem_cons_self
  have hyf : Shows T (fork .right y cy ey ry nil) (qs ++ ⟨.right, z, c, e, l⟩ :: ps) := hy
  have hsplice : Focused (spliceOut T (addr ry) y) ry (qs ++ ⟨.right, z, c, e, l⟩ :: ps) :=
    ⟨hyf.spliceOut, spliceOut_parent hyf⟩
  have hentry : (spliceOut T (addr ry) y).entry y = ey := by
    rw [spliceOut_eq hyf, entry_link, RbTree.entry_setParent]
    exact hy.tree.1.2.1
  have hex := hsplice.exchangeEntries hnew
  have hcolor : (exchangeEntries (spliceOut T (addr ry) y) y z).color y = cy := by
    rw [exchangeEntries_eq, color_setEntry, color_setEntry, spliceOut_eq hyf, color_link, RbTree.color_setParent]
    exact hy.tree.1.1
  rw [hentry] at hex
  have hplug : ∀ s : ATree, plug (qs ++ ⟨.right, z, c, ey, l⟩ :: ps) s = plug ps (fork .right z c ey (plug qs s) l) :=
    fun s => plug_append ..
  have hbal' : (plug (qs ++ ⟨.right, z, c, ey, l⟩ :: ps) (fork .right y cy ey ry nil)).Balanced := by
    rw [hplug]
    exact balanced_plug_entry (hr' ▸ hbal : (plug ps (fork .right z c e (plug qs (node y cy ey nil ry)) l)).Balanced) ey
  have hblack' : (plug (qs ++ ⟨.right, z, c, ey, l⟩ :: ps) (fork .right y cy ey ry nil)).color = .black := by
    rw [hplug, ← hblack]
    exact color_plug_congr ps rfl
  have hend := restored_splice hbal' hblack' hex hcolor
  rw [hplug, toList_plug] at hend
  rw [rbtreeDelete_eq ((if_neg (not_or.mpr ⟨hcl, hcr⟩)).trans hsucc), heir_right hy, hlist]
  simp only [if_pos hyz]
  exact hend

lemma rbtreeDelete_spec {key value : Bytes} (h : Valid T t) (hfound : FoundAt T t key z c value l r ps) :
    ∃ t', Valid (rbtreeDelete T z).2 t' ∧ (t.toList : Multiset (Bytes × Bytes)) = t'.toList + {(key, value)} := by
  obtain ⟨hshows, rfl⟩ := hfound
  have hrest : Restored (rbtreeDelete T z).2 (before ps ++ ((l.toList ++ r.toList) ++ after ps)) := by
    by_cases hnil : l = .nil ∨ r = .nil
    · exact rbtreeDelete_self hshows hnil h.balanced h.black
    · obtain ⟨hl, hr⟩ := not_or.mp hnil
      exact rbtreeDelete_successor hshows hl hr h.balanced h.black
  obtain ⟨t', hshows', hbal, hblack, hlist⟩ := hrest
  have hold : (plug ps (node z c (key, value) l r)).toList =
      before ps ++ ((l.toList ++ (key, value) :: r.toList) ++ after ps) := toList_plug ..
  refine ⟨t', ⟨hshows', ?_, hbal, hblack⟩, ?_⟩
  · rw [hlist]
    refine List.Pairwise.sublist ?_ (hold ▸ h.sorted)
    exact (List.Sublist.refl _).append (((List.Sublist.refl _).append (List.sublist_cons_self _ _)).append (.refl _))
  · rw [hold, hlist]
    simp only [← Multiset.coe_add, ← Multiset.cons_coe, ← Multiset.singleton_add]
    abel

end Delete

end PocketKv.Storage
