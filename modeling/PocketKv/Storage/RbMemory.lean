import PocketKv.Storage.RbTree

/-!
# The tree in memory
-/

namespace PocketKv.Storage

open Library.RedBlack Library.RedBlack.ColorTree Resp List

variable {i a p : ℕ} {T T' : RbTree} {e : Bytes × Bytes} {f : Frame ℕ (Bytes × Bytes)} {ps : APath} {u t s : ATree}
  {d : Dir} {c : Color}

/-- A tree of addresses and entries. -/
abbrev ATree := ColorTree ℕ (Bytes × Bytes)

/-- The way from a place in such a tree to its root. -/
abbrev APath := List (Frame ℕ (Bytes × Bytes))

/-! ### Fields -/

namespace RbTree

variable (T : RbTree) (a b : ℕ) (c : Color) (d : Dir)

lemma modify_apply {α : Type*} (g : RbNode → α) (f : RbNode → RbNode) (i : ℕ) :
    g ((T.modify a f).node i) = if i = a then g (f (T.node a)) else g (T.node i) := by
  simp only [modify, Function.update_apply]
  split <;> rfl

lemma modify_eq {α : Type*} (g : RbNode → α) {f : RbNode → RbNode} (h : ∀ n, g (f n) = g n) (i : ℕ) :
    g ((T.modify a f).node i) = g (T.node i) := by
  rw [modify_apply T a g f i, h]
  split
  · rename_i hi
    rw [hi]
  · rfl

@[simp] lemma color_setChild : (T.setChild d a b).color = T.color :=
  funext fun i => T.modify_eq a RbNode.color (fun _ => by cases d <;> rfl) i

@[simp] lemma entry_setChild : (T.setChild d a b).entry = T.entry :=
  funext fun i => T.modify_eq a (fun n => (n.key, n.value)) (fun _ => by cases d <;> rfl) i

@[simp] lemma parent_setChild : (T.setChild d a b).parent = T.parent :=
  funext fun i => T.modify_eq a RbNode.parent (fun _ => by cases d <;> rfl) i

lemma child_setChild (d' : Dir) (i : ℕ) :
    (T.setChild d a b).child d' i = if i = a ∧ d' = d then b else T.child d' i := by
  refine (T.modify_apply a (·.child d') (·.setChild d b) i).trans ?_
  by_cases h : i = a
  · subst h
    cases d <;> cases d' <;> simp [RbNode.setChild, RbNode.child, child]
  · simp [h, child]

@[simp] lemma color_setParent : (T.setParent a b).color = T.color :=
  funext fun i => T.modify_eq a RbNode.color (fun _ => by rfl) i

@[simp] lemma entry_setParent : (T.setParent a b).entry = T.entry :=
  funext fun i => T.modify_eq a (fun n => (n.key, n.value)) (fun _ => by rfl) i

@[simp] lemma child_setParent : (T.setParent a b).child = T.child :=
  funext fun d => funext fun i => T.modify_eq a (·.child d) (fun _ => by cases d <;> rfl) i

lemma parent_setParent (i : ℕ) : (T.setParent a b).parent i = if i = a then b else T.parent i :=
  T.modify_apply a RbNode.parent _ i

@[simp] lemma entry_setColor : (T.setColor a c).entry = T.entry :=
  funext fun i => T.modify_eq a (fun n => (n.key, n.value)) (fun _ => by rfl) i

@[simp] lemma child_setColor : (T.setColor a c).child = T.child :=
  funext fun d => funext fun i => T.modify_eq a (·.child d) (fun _ => by cases d <;> rfl) i

@[simp] lemma parent_setColor : (T.setColor a c).parent = T.parent :=
  funext fun i => T.modify_eq a RbNode.parent (fun _ => by rfl) i

lemma color_setColor (i : ℕ) : (T.setColor a c).color i = if i = a then c else T.color i :=
  T.modify_apply a RbNode.color _ i

@[simp] lemma root_setChild : (T.setChild d a b).root = T.root := rfl

@[simp] lemma root_setParent : (T.setParent a b).root = T.root := rfl

@[simp] lemma root_setColor : (T.setColor a c).root = T.root := rfl

@[simp] lemma fresh_setChild : (T.setChild d a b).fresh = T.fresh := rfl

@[simp] lemma fresh_setParent : (T.setParent a b).fresh = T.fresh := rfl

@[simp] lemma fresh_setColor : (T.setColor a c).fresh = T.fresh := rfl

@[simp] lemma color_setRoot : (T.setRoot a).color = T.color := rfl

@[simp] lemma entry_setRoot : (T.setRoot a).entry = T.entry := rfl

@[simp] lemma parent_setRoot : (T.setRoot a).parent = T.parent := rfl

@[simp] lemma child_setRoot : (T.setRoot a).child = T.child := rfl

@[simp] lemma root_setRoot : (T.setRoot a).root = a := rfl

@[simp] lemma fresh_setRoot : (T.setRoot a).fresh = T.fresh := rfl

end RbTree

/-! ### Trees -/

/-- The address of the root of a tree. -/
def addr : ATree → ℕ
  | .nil => rbNil
  | .node i _ _ _ _ => i

/-- The addresses in a tree. -/
def ids : ATree → List ℕ
  | .nil => []
  | .node i _ _ l r => i :: (ids l ++ ids r)

/-- The node `i` is the same in both memories. -/
def Same (T T' : RbTree) (i : ℕ) : Prop := T'.node i = T.node i

namespace Same

lemma trans {T'' : RbTree} (h : Same T T' i) (h' : Same T' T'' i) : Same T T'' i := Eq.trans h' h

lemma modify (T : RbTree) (f : RbNode → RbNode) (h : i ≠ a) : Same T (T.modify a f) i := Function.update_of_ne h _ _

lemma color (h : Same T T' i) : T'.color i = T.color i := congrArg RbNode.color h

lemma parent (h : Same T T' i) : T'.parent i = T.parent i := congrArg RbNode.parent h

lemma entry (h : Same T T' i) : T'.entry i = T.entry i := congrArg (fun n => (n.key, n.value)) h

lemma child (h : Same T T' i) (d : Dir) : T'.child d i = T.child d i := congrArg (·.child d) h

end Same

/-- The tree is in the memory, under the node `p`. -/
def At (T : RbTree) : ATree → ℕ → Prop
  | .nil, _ => True
  | .node i c e l r, p =>
    (T.color i = c ∧ T.entry i = e ∧ T.parent i = p ∧ T.child .left i = addr l ∧ T.child .right i = addr r) ∧
      At T l i ∧ At T r i

@[simp] lemma addr_nil : addr .nil = rbNil := rfl

@[simp] lemma addr_fork (d : Dir) (i : ℕ) (c : Color) (e : Bytes × Bytes) (s u : ATree) :
    addr (fork d i c e s u) = i := by
  cases d <;> rfl

lemma ids_fork (d : Dir) (i : ℕ) (c : Color) (e : Bytes × Bytes) (s u : ATree) :
    (ids (fork d i c e s u)).Perm (i :: (ids s ++ ids u)) := by
  cases d with
  | left => exact .refl _
  | right => exact .cons i perm_append_comm

lemma at_fork :
    At T (fork d i c e s u) p ↔
      (T.color i = c ∧ T.entry i = e ∧ T.parent i = p ∧ T.child d i = addr s ∧ T.child d.flip i = addr u) ∧
        At T s i ∧ At T u i := by
  cases d with
  | left => exact Iff.rfl
  | right =>
    simp only [fork, At, Dir.flip]
    tauto

lemma addr_mem (h : t ≠ .nil) : addr t ∈ ids t := by
  cases t with
  | nil => exact absurd rfl h
  | node i c e l r => exact mem_cons_self

lemma addr_nil_or_mem (t : ATree) : addr t = rbNil ∨ addr t ∈ ids t := by
  cases t with
  | nil => exact .inl rfl
  | node i c e l r => exact .inr mem_cons_self

lemma At.parent (h : At T t p) (hne : t ≠ .nil) : T.parent (addr t) = p := by
  cases t with
  | nil => exact absurd rfl hne
  | node i c e l r => exact h.1.2.2.1

lemma At.reparent {p q : ℕ} (h : At T t p) (hnodup : (ids t).Nodup)
    (hsame : ∀ i, i ∈ ids t → T'.color i = T.color i ∧ T'.entry i = T.entry i ∧ ∀ d, T'.child d i = T.child d i)
    (hparent : ∀ i, i ∈ ids t → i ≠ addr t → T'.parent i = T.parent i) (hq : t ≠ .nil → T'.parent (addr t) = q) :
    At T' t q := by
  induction t generalizing p q with
  | nil => trivial
  | node i c e l r ihl ihr =>
    obtain ⟨⟨hc, he, hp, hl, hr⟩, hal, har⟩ := h
    obtain ⟨hc', he', hch'⟩ := hsame i mem_cons_self
    obtain ⟨hi, hlr⟩ := nodup_cons.mp hnodup
    obtain ⟨hnl, hnr, -⟩ := nodup_append'.mp hlr
    -- below the top no parent has changed
    have below : ∀ j, j ∈ ids l ++ ids r → T'.parent j = T.parent j :=
      fun j hj => hparent j (mem_cons_of_mem i hj) fun (heq : j = i) => hi (heq ▸ hj)
    refine ⟨⟨hc'.trans hc, he'.trans he, hq (by simp), (hch' .left).trans hl, (hch' .right).trans hr⟩, ?_, ?_⟩
    · refine ihl hal hnl (fun j hj => hsame j (mem_cons_of_mem i (mem_append_left _ hj)))
        (fun j hj _ => below j (mem_append_left _ hj)) fun hne => ?_
      rw [below _ (mem_append_left _ (addr_mem hne))]
      exact hal.parent hne
    · refine ihr har hnr (fun j hj => hsame j (mem_cons_of_mem i (mem_append_right _ hj)))
        (fun j hj _ => below j (mem_append_right _ hj)) fun hne => ?_
      rw [below _ (mem_append_right _ (addr_mem hne))]
      exact har.parent hne

lemma At.congr (h : At T t p) (hnodup : (ids t).Nodup) (hsame : ∀ i, i ∈ ids t → Same T T' i) : At T' t p := by
  refine h.reparent hnodup (fun i hi => ⟨(hsame i hi).color, (hsame i hi).entry, (hsame i hi).child⟩)
    (fun i hi _ => (hsame i hi).parent) fun hne => ?_
  rw [(hsame _ (addr_mem hne)).parent]
  exact h.parent hne

/-! ### Paths -/

/-- The node above the place. -/
def top : APath → ℕ
  | [] => rbNil
  | f :: _ => f.i

/-- The addresses on a way and beside it. -/
def pathIds : APath → List ℕ
  | [] => []
  | f :: ps => f.i :: (ids f.sib ++ pathIds ps)

/-- The way is in the memory, and leads down to `a`. -/
def Above (T : RbTree) : APath → ℕ → Prop
  | [], _ => True
  | f :: ps, a =>
    (T.color f.i = f.c ∧ T.entry f.i = f.e ∧ T.parent f.i = top ps ∧ T.child f.d f.i = a ∧
      T.child f.d.flip f.i = addr f.sib) ∧ At T f.sib f.i ∧ Above T ps f.i

lemma pathIds_append (qs ps : APath) : pathIds (qs ++ ps) = pathIds qs ++ pathIds ps := by
  induction qs with
  | nil => rfl
  | cons f qs ih => simp [pathIds, ih]

/-- The root, with `a` in the place. -/
def rootOf : APath → ℕ → ℕ
  | [], a => a
  | f :: ps, _ => rootOf ps f.i

lemma Above.congr (h : Above T ps a) (hnodup : (pathIds ps).Nodup)
    (hsame : ∀ i, i ∈ pathIds ps → Same T T' i) : Above T' ps a := by
  induction ps generalizing a with
  | nil => trivial
  | cons f ps ih =>
    obtain ⟨⟨hc, he, hp, hd, hs⟩, hsib, hps⟩ := h
    obtain ⟨-, hrest⟩ := nodup_cons.mp hnodup
    obtain ⟨hns, hnp, -⟩ := nodup_append'.mp hrest
    have hf := hsame f.i mem_cons_self
    refine ⟨⟨hf.color.trans hc, hf.entry.trans he, hf.parent.trans hp, (hf.child _).trans hd, (hf.child _).trans hs⟩,
      ?_, ?_⟩
    · exact hsib.congr hns fun i hi => hsame i (mem_cons_of_mem _ (mem_append_left _ hi))
    · exact ih hps hnp fun i hi => hsame i (mem_cons_of_mem _ (mem_append_right _ hi))

/-- `a` is made the child of the node above the place, or the root. -/
def link (T : RbTree) (ps : APath) (a : ℕ) : RbTree :=
  match ps with
  | [] => T.setRoot a
  | f :: _ => T.setChild f.d f.i a

section Link

variable (T : RbTree) (ps : APath) (a : ℕ)

@[simp] lemma color_link : (link T ps a).color = T.color := by
  cases ps <;> simp [link]

@[simp] lemma entry_link : (link T ps a).entry = T.entry := by
  cases ps <;> simp [link]

@[simp] lemma parent_link : (link T ps a).parent = T.parent := by
  cases ps <;> simp [link]

@[simp] lemma fresh_link : (link T ps a).fresh = T.fresh := by
  cases ps <;> simp [link]

lemma child_link (d : Dir) (i : ℕ) :
    (link T ps a).child d i = if ∃ f, ps.head? = some f ∧ i = f.i ∧ d = f.d then a else T.child d i := by
  cases ps with
  | nil => simp [link]
  | cons f ps => simp [link, RbTree.child_setChild]

lemma root_link : (link T ps a).root = if ps = [] then a else T.root := by
  cases ps <;> simp [link]

lemma Same.link (h : i ∉ pathIds ps) : Same T (link T ps a) i := by
  cases ps with
  | nil => rfl
  | cons f ps => exact .modify T (·.setChild f.d a) fun heq => h (heq ▸ mem_cons_self)

lemma Same.link_link (h : Same T T' i) : Same (Storage.link T ps a) (Storage.link T' ps a) i := by
  cases ps with
  | nil => exact h
  | cons f ps =>
    refine (T'.modify_apply f.i id (·.setChild f.d a) i).trans ((T.modify_apply f.i id (·.setChild f.d a) i).trans ?_).symm
    split
    · rename_i hi
      rw [← hi, h]
    · exact h.symm

end Link

lemma Above.link (h : Above T ps a) (hnodup : (pathIds ps).Nodup) (b : ℕ) : Above (link T ps b) ps b := by
  cases ps with
  | nil => trivial
  | cons f ps =>
    obtain ⟨⟨hc, he, hp, hd, hs⟩, hsib, hps⟩ := h
    obtain ⟨hf, hrest⟩ := nodup_cons.mp hnodup
    obtain ⟨hns, hnp, -⟩ := nodup_append'.mp hrest
    have same : ∀ i, i ∈ ids f.sib ++ pathIds ps → Same T (Storage.link T (f :: ps) b) i :=
      fun i hi => .modify T (·.setChild f.d b) fun heq => hf (heq ▸ hi)
    refine ⟨⟨by simpa using hc, by simpa using he, by simpa using hp, ?_, ?_⟩, ?_, ?_⟩
    · rw [Storage.link, RbTree.child_setChild, if_pos ⟨rfl, rfl⟩]
    · rw [Storage.link, RbTree.child_setChild, if_neg, hs]
      exact fun hflip => f.d.flip_ne hflip.2
    · exact hsib.congr hns fun i hi => same i (mem_append_left _ hi)
    · exact hps.congr hnp fun i hi => same i (mem_append_right _ hi)

lemma relink_eq {x : ℕ} (d : Dir) (y : ℕ) (h : Above T ps x) (hx : T.parent x = top ps)
    (hne : ∀ f, ps.head? = some f → f.i ≠ rbNil ∧ addr f.sib ≠ x) : relink d T x y = link T ps y := by
  cases ps with
  | nil => exact if_pos hx
  | cons f ps =>
    obtain ⟨hnil, hsib⟩ := hne f rfl
    obtain ⟨⟨-, -, -, hd, hs⟩, -, -⟩ := h
    have hx : T.parent x = f.i := hx
    rw [relink, hx, if_neg hnil]
    by_cases hdd : f.d = d
    · rw [← hdd, if_pos hd.symm]
      rfl
    · obtain rfl := Dir.eq_flip_of_ne (Ne.symm hdd)
      rw [if_neg (by rw [hs]; exact hsib.symm), Dir.flip_flip]
      rfl

/-! ### A tree with a place in it -/

/-- The memory holds the tree `t` in the place that `ps` describes. -/
structure Shows (T : RbTree) (t : ATree) (ps : APath) : Prop where
  tree : At T t (top ps)
  path : Above T ps (addr t)
  root : T.root = rootOf ps (addr t)
  nodup : (ids t ++ pathIds ps).Nodup
  bounds : ∀ i, i ∈ ids t ++ pathIds ps → i ≠ rbNil ∧ i < T.fresh
  nil : T.color rbNil = .black
  pos : rbNil < T.fresh

lemma ids_fork_path (d : Dir) (i : ℕ) (c : Color) (e : Bytes × Bytes) (s u : ATree) (ps : APath) :
    (ids (fork d i c e s u) ++ pathIds ps).Perm (ids s ++ pathIds (⟨d, i, c, e, u⟩ :: ps)) := by
  refine ((ids_fork d i c e s u).append_right _).trans ?_
  simp only [pathIds, cons_append, append_assoc]
  exact perm_middle.symm

lemma ids_plug (ps : APath) (t : ATree) : (ids (plug ps t)).Perm (ids t ++ pathIds ps) := by
  induction ps generalizing t with
  | nil => simp [plug, pathIds]
  | cons f ps ih => exact (ih _).trans (ids_fork_path ..)

lemma shows_fork : Shows T (fork d i c e s u) ps ↔ Shows T s (⟨d, i, c, e, u⟩ :: ps) := by
  have hperm := ids_fork_path d i c e s u ps
  constructor
  · rintro ⟨htree, hpath, hroot, hnodup, hbounds, hnil, hpos⟩
    obtain ⟨hfields, hs, hu⟩ := at_fork.mp htree
    rw [addr_fork] at hpath hroot
    exact ⟨hs, ⟨hfields, hu, hpath⟩, hroot, hperm.nodup_iff.mp hnodup,
      fun j hj => hbounds j (hperm.mem_iff.mpr hj), hnil, hpos⟩
  · rintro ⟨hs, ⟨hfields, hu, hpath⟩, hroot, hnodup, hbounds, hnil, hpos⟩
    refine ⟨at_fork.mpr ⟨hfields, hs, hu⟩, ?_, ?_, hperm.nodup_iff.mpr hnodup,
      fun j hj => hbounds j (hperm.mem_iff.mp hj), hnil, hpos⟩
    · rw [addr_fork]
      exact hpath
    · rw [addr_fork]
      exact hroot

lemma shows_plug {qs : APath} : Shows T (plug qs t) ps ↔ Shows T t (qs ++ ps) := by
  induction qs generalizing t with
  | nil => rfl
  | cons f qs ih => exact ih.trans shows_fork

namespace Shows

variable {t' : ATree}

section

variable (h : Shows T t ps)
include h

lemma replace (htree : At T' t' (top ps))
    (hsame : ∀ i, i ∈ pathIds ps → Same (link T ps (addr t')) T' i) (hroot : T'.root = (link T ps (addr t')).root)
    (hnodup : (ids t' ++ pathIds ps).Nodup) (hbounds : ∀ i, i ∈ ids t' ++ pathIds ps → i ≠ rbNil ∧ i < T'.fresh)
    (hnil : T'.color rbNil = .black) (hfresh : T.fresh ≤ T'.fresh) : Shows T' t' ps := by
  have hps : (pathIds ps).Nodup := (nodup_append'.mp h.nodup).2.1
  refine ⟨htree, (h.path.link hps _).congr hps hsame, ?_, hnodup, hbounds, hnil, h.pos.trans_le hfresh⟩
  rw [hroot, root_link]
  split
  · rename_i hnil
    rw [hnil]
    rfl
  · rename_i hne
    rw [h.root]
    cases ps with
    | nil => exact absurd rfl hne
    | cons f ps => rfl

lemma replace_perm (htree : At T' t' (top ps)) (hids : (ids t').Perm (ids t))
    (hsame : ∀ i, i ∈ pathIds ps → Same (link T ps (addr t')) T' i) (hroot : T'.root = (link T ps (addr t')).root)
    (hfresh : T'.fresh = T.fresh) (hnil : T'.color rbNil = T.color rbNil) : Shows T' t' ps := by
  have hperm := hids.append_right (pathIds ps)
  refine h.replace htree hsame hroot (hperm.nodup_iff.mpr h.nodup) (fun i hi => ?_) (hnil.trans h.nil) hfresh.ge
  rw [hfresh]
  exact h.bounds i (hperm.mem_iff.mp hi)

lemma rewrite (htree : At T' t' (top ps)) (hids : (ids t').Perm (ids t)) (haddr : addr t' = addr t)
    (hsame : ∀ i, i ∈ pathIds ps → Same T T' i) (hroot : T'.root = T.root)
    (hfresh : T.fresh ≤ T'.fresh) (hnil : T'.color rbNil = T.color rbNil) : Shows T' t' ps := by
  have hperm := hids.append_right (pathIds ps)
  refine ⟨htree, ?_, ?_, hperm.nodup_iff.mpr h.nodup, fun i hi => ?_, hnil.trans h.nil, h.pos.trans_le hfresh⟩
  · rw [haddr]
    exact h.path.congr (nodup_append'.mp h.nodup).2.1 hsame
  · rw [hroot, haddr, h.root]
  · have hi := h.bounds i (hperm.mem_iff.mp hi)
    exact ⟨hi.1, hi.2.trans_le hfresh⟩

lemma head_ne (hi : i ∈ ids t) (f : Frame ℕ (Bytes × Bytes)) (hf : ps.head? = some f) :
    f.i ≠ rbNil ∧ addr f.sib ≠ i := by
  cases ps with
  | nil => cases hf
  | cons g ps =>
    obtain rfl : g = f := Option.some.inj hf
    refine ⟨(h.bounds g.i (mem_append_right _ mem_cons_self)).1, ?_⟩
    rintro rfl
    rcases addr_nil_or_mem g.sib with hnil | hmem
    · exact (h.bounds _ (mem_append_left _ hi)).1 hnil
    · refine (nodup_append'.mp h.nodup).2.2 hi ?_
      exact mem_cons_of_mem _ (mem_append_left _ hmem)

lemma plug : Shows T (Library.RedBlack.plug ps t) [] :=
  shows_plug.mpr (by rwa [append_nil])

lemma ne_addr (hi : i ∈ pathIds ps) : i ≠ addr t := by
  rintro rfl
  rcases addr_nil_or_mem t with hnil | ht
  · exact (h.bounds _ (mem_append_right _ hi)).1 hnil
  · exact (nodup_append'.mp h.nodup).2.2 ht hi

lemma addr_ne_root (hne : ps ≠ []) : addr t ≠ T.root := by
  have hmem : T.root ∈ pathIds ps := by
    rw [h.root]
    clear h
    induction ps generalizing t with
    | nil => exact absurd rfl hne
    | cons f ps ih =>
      cases ps with
      | nil => exact mem_cons_self
      | cons g ps =>
        have hih := ih (t := fork f.d f.i f.c f.e t f.sib) (by simp)
        rw [addr_fork] at hih
        exact mem_cons_of_mem _ (mem_append_right _ hih)
  exact (h.ne_addr hmem).symm

end

lemma sibling (h : Shows T s (⟨d, i, c, e, u⟩ :: ps)) : Shows T u (⟨d.flip, i, c, e, s⟩ :: ps) := by
  rw [← shows_fork, fork_flip, shows_fork]
  exact h

lemma length_lt (h : Shows T t ps) : ps.length < T.fresh := by
  have hnodup : (rbNil :: pathIds ps).Nodup := by
    refine nodup_cons.mpr ⟨fun hmem => ?_, (nodup_append'.mp h.nodup).2.1⟩
    exact (h.bounds rbNil (mem_append_right _ hmem)).1 rfl
  have hsub : rbNil :: pathIds ps ⊆ List.range T.fresh := by
    intro i hi
    rw [mem_range]
    rcases mem_cons.mp hi with rfl | hi
    · exact h.pos
    · exact (h.bounds i (mem_append_right _ hi)).2
  have hlen : ps.length ≤ (pathIds ps).length := by
    clear h hnodup hsub
    induction ps with
    | nil => exact Nat.le_refl 0
    | cons f ps ih =>
      simp only [pathIds, length_cons, length_append]
      omega
  have hle := (hnodup.subperm hsub).length_le
  rw [length_cons, length_range] at hle
  omega

/-! ### What is read -/

lemma color_addr (h : Shows T t ps) : T.color (addr t) = t.color := by
  cases t with
  | nil => exact h.nil
  | node i c e l r => exact h.tree.1.1

lemma addr_eq_nil_iff (h : Shows T t ps) : addr t = rbNil ↔ t = .nil := by
  constructor
  · intro haddr
    by_contra hne
    exact (h.bounds _ (mem_append_left _ (addr_mem hne))).1 haddr
  · rintro rfl
    rfl

lemma color_top (h : Shows T t ps) : T.color (top ps) = topColor ps := by
  cases ps with
  | nil => exact h.nil
  | cons f ps => exact h.path.1.1

section

variable (h : Shows T t (f :: ps))
include h

lemma child_top : T.child f.d f.i = addr t := h.path.1.2.2.2.1

lemma child_flip_top : T.child f.d.flip f.i = addr f.sib :=
  h.path.1.2.2.2.2

lemma parent_top : T.parent f.i = top ps := h.path.1.2.2.1

lemma eq_child_iff (hne : t ≠ .nil ∨ f.sib ≠ .nil) (d : Dir) : addr t = T.child d f.i ↔ d = f.d := by
  have hsib : addr t ≠ addr f.sib := by
    intro heq
    rcases hne with hne | hne
    · exact (h.head_ne (addr_mem hne) f rfl).2 heq.symm
    · have hmem := addr_mem hne
      rcases addr_nil_or_mem t with hnil | ht
      · refine (h.bounds _ (mem_append_right _ (mem_cons_of_mem _ (mem_append_left _ hmem)))).1 ?_
        rw [← heq, hnil]
      · exact (h.head_ne ht f rfl).2 heq.symm
  constructor
  · intro heq
    by_contra hd
    rw [Dir.eq_flip_of_ne hd, h.child_flip_top] at heq
    exact hsib heq
  · rintro rfl
    exact h.child_top.symm

end

/-! ### Writes to a node -/

lemma writeNode {c' : Color} {e' : Bytes × Bytes} (h : Shows T (fork d i c e s u) ps)
    (hsame : ∀ j, j ≠ i → Same T T' j) (hcolor : T'.color i = c') (hentry : T'.entry i = e') (hparent : T'.parent = T.parent)
    (hchild : T'.child = T.child) (hroot : T'.root = T.root) (hfresh : T'.fresh = T.fresh) :
    Shows T' (fork d i c' e' s u) ps := by
  have hperm := ids_fork d i c e s u
  have hi : i ∈ ids (fork d i c e s u) := hperm.mem_iff.mpr mem_cons_self
  obtain ⟨hnodup, -, hdisj⟩ := nodup_append'.mp h.nodup
  obtain ⟨hni, hsu⟩ := nodup_cons.mp (hperm.nodup_iff.mp hnodup)
  obtain ⟨hns, hnu, -⟩ := nodup_append'.mp hsu
  obtain ⟨⟨-, -, hp, hd, hf⟩, hs, hu⟩ := at_fork.mp h.tree
  refine h.rewrite (at_fork.mpr ⟨⟨hcolor, hentry, hparent ▸ hp, hchild ▸ hd, hchild ▸ hf⟩, ?_, ?_⟩)
    ((ids_fork ..).trans hperm.symm) (by simp) (fun j hj => ?_) hroot hfresh.ge ?_
  · exact hs.congr hns fun j hj => hsame j fun heq => hni (heq ▸ mem_append_left _ hj)
  · exact hu.congr hnu fun j hj => hsame j fun heq => hni (heq ▸ mem_append_right _ hj)
  · exact hsame j fun heq => hdisj hi (heq ▸ hj)
  · exact (hsame rbNil (h.bounds i (mem_append_left _ hi)).1.symm).color

lemma setColor (h : Shows T (fork d i c e s u) ps)
    (c' : Color) : Shows (T.setColor i c') (fork d i c' e s u) ps := by
  have hentry : T.entry i = e := (at_fork.mp h.tree).1.2.1
  refine h.writeNode (fun j hj => .modify T _ hj) ?_ (by simpa using hentry) (by simp) (by simp) (by simp) (by simp)
  rw [RbTree.color_setColor, if_pos rfl]

lemma blacken (h : Shows T t ps) : Shows (T.setColor (addr t) .black) t.blacken ps := by
  cases t with
  | nil =>
    have hnil : Shows (T.setColor rbNil .black) .nil ps := by
      refine h.rewrite trivial (.refl _) rfl (fun j hj => .modify T _ ?_) (by simp) (by simp) ?_
      · exact (h.bounds j (mem_append_right _ hj)).1
      · rw [RbTree.color_setColor, if_pos rfl, h.nil]
    exact hnil
  | node i c e l r => exact Shows.setColor (d := .left) h .black

end Shows

/-! ### Rotations -/

/-- The subtree between two nodes is passed from `y` to `x`, and `y` is put under the parent. -/
def passChild (d : Dir) (T : RbTree) (x y b p : ℕ) : RbTree :=
  let T := T.setChild d.flip x b
  (if b ≠ rbNil then T.setParent b x else T).setParent y p

section PassChild

variable (d : Dir) (T : RbTree) (x y b p : ℕ)

@[simp] lemma color_passChild : (passChild d T x y b p).color = T.color := by
  unfold passChild
  split_ifs <;> simp

@[simp] lemma entry_passChild : (passChild d T x y b p).entry = T.entry := by
  unfold passChild
  split_ifs <;> simp

@[simp] lemma fresh_passChild : (passChild d T x y b p).fresh = T.fresh := by
  unfold passChild
  split_ifs <;> simp

@[simp] lemma root_passChild : (passChild d T x y b p).root = T.root := by
  unfold passChild
  split_ifs <;> simp

lemma child_passChild (d' : Dir) (i : ℕ) :
    (passChild d T x y b p).child d' i = if i = x ∧ d' = d.flip then b else T.child d' i := by
  unfold passChild
  split_ifs <;> simp [RbTree.child_setChild, *]

lemma parent_passChild (i : ℕ) :
    (passChild d T x y b p).parent i = if i = y then p else if i = b ∧ b ≠ rbNil then x else T.parent i := by
  unfold passChild
  by_cases hb : b = rbNil
  · simp [hb, RbTree.parent_setParent]
  · simp [hb, RbTree.parent_setParent]

lemma Same.passChild (hx : i ≠ x) (hy : i ≠ y) (hb : i ≠ b) : Same T (passChild d T x y b p) i := by
  unfold Storage.passChild
  split
  · exact ((Same.modify T _ hx).trans (.modify _ _ hb)).trans (.modify _ _ hy)
  · exact (Same.modify T _ hx).trans (.modify _ _ hy)

/-- The memory after a rotation. -/
def rotated (ps : APath) : RbTree :=
  ((link (passChild d T x y b (top ps)) ps y).setChild d y x).setParent x y

variable (ps : APath)

@[simp] lemma color_rotated : (rotated d T x y b ps).color = T.color := by
  simp [rotated]

@[simp] lemma entry_rotated : (rotated d T x y b ps).entry = T.entry := by
  simp [rotated]

@[simp] lemma fresh_rotated : (rotated d T x y b ps).fresh = T.fresh := by
  simp [rotated]

lemma root_rotated : (rotated d T x y b ps).root = (link T ps y).root := by
  simp [rotated, root_link]

lemma child_rotated (d' : Dir) (hi : i ∉ pathIds ps) : (rotated d T x y b ps).child d' i =
    if i = y ∧ d' = d then x else if i = x ∧ d' = d.flip then b else T.child d' i := by
  rw [rotated, RbTree.child_setParent, RbTree.child_setChild, (Same.link _ ps y hi).child, child_passChild]

lemma parent_rotated (i : ℕ) : (rotated d T x y b ps).parent i =
    if i = x then y else if i = y then top ps else if i = b ∧ b ≠ rbNil then x else T.parent i := by
  rw [rotated, RbTree.parent_setParent, RbTree.parent_setChild, parent_link, parent_passChild]

lemma Same.rotated (hx : i ≠ x) (hy : i ≠ y) (hb : i ≠ b) :
    Same (Storage.link T ps y) (Storage.rotated d T x y b ps) i := by
  have hpass : Same T (Storage.passChild d T x y b (top ps)) i := .passChild d T x y _ _ hx hy hb
  rw [Storage.rotated, RbTree.setParent, RbTree.setChild]
  exact ((hpass.link_link T ps y).trans (.modify _ _ hy)).trans (.modify _ _ hx)

end PassChild

namespace Shows

variable {x y : ℕ} {c' : Color} {e' : Bytes × Bytes} {A B C : ATree}

variable (h : Shows T (fork d x c e A (fork d y c' e' B C)) ps)
include h

lemma rotation_apart :
    (y ≠ x ∧ x ∉ pathIds ps ∧ y ∉ pathIds ps ∧ addr B ≠ x ∧ addr B ≠ y) ∧
      (∀ i, i ∈ ids A ++ ids C ++ pathIds ps → i ≠ x ∧ i ≠ y ∧ i ≠ addr B) ∧
      (∀ i, i ∈ ids B → i ≠ x ∧ i ≠ y) ∧ (∀ i, i ∈ ids A ++ ids B ++ ids C → i ∉ pathIds ps) ∧
      (ids A).Nodup ∧ (ids B).Nodup ∧ (ids C).Nodup ∧ (pathIds ps).Nodup := by
  have hperm : (ids (fork d x c e A (fork d y c' e' B C)) ++ pathIds ps).Perm
      (x :: (ids A ++ y :: (ids B ++ ids C)) ++ pathIds ps) :=
    .append_right _ ((ids_fork ..).trans (.cons x (.append_left _ (ids_fork ..))))
  have hnodup := hperm.nodup_iff.mp h.nodup
  have hne : ∀ i, i ∈ x :: (ids A ++ y :: (ids B ++ ids C)) ++ pathIds ps → i ≠ rbNil :=
    fun i hi => (h.bounds i (hperm.mem_iff.mpr hi)).1
  simp only [nodup_append', nodup_cons, disjoint_left, mem_append, mem_cons] at hnodup hne ⊢
  have hB := addr_nil_or_mem B
  grind

lemma rotate_eq : Storage.rotate d T x = rotated d T x y (addr B) ps := by
  obtain ⟨⟨hyx, -, -, hbx, -⟩, hapart, -, -, -, -, -, hps⟩ := h.rotation_apart
  obtain ⟨⟨-, -, hpx, -, hy⟩, -, hfork⟩ := at_fork.mp h.tree
  obtain ⟨⟨-, -, -, hb, -⟩, -, -⟩ := at_fork.mp hfork
  rw [addr_fork] at hy
  have hx : x ∈ ids (fork d x c e A (fork d y c' e' B C)) := (ids_fork ..).mem_iff.mpr mem_cons_self
  have hchild : (T.setChild d.flip x (addr B)).child d y = addr B := by
    rw [RbTree.child_setChild, if_neg (fun heq => hyx heq.1), hb]
  have hparent : (if addr B ≠ rbNil then (T.setChild d.flip x (addr B)).setParent (addr B) x
      else T.setChild d.flip x (addr B)).parent x = top ps := by
    split
    · rw [RbTree.parent_setParent, if_neg hbx.symm, RbTree.parent_setChild, hpx]
    · rw [RbTree.parent_setChild, hpx]
  have hp : (passChild d T x y (addr B) (top ps)).parent x = top ps := by
    rw [parent_passChild, if_neg hyx.symm, if_neg (fun heq => hbx heq.1.symm), hpx]
  have hpath : Above (passChild d T x y (addr B) (top ps)) ps x := by
    have hpath := h.path
    rw [addr_fork] at hpath
    refine hpath.congr hps fun i hi => ?_
    obtain ⟨hix, hiy, hib⟩ := hapart i (mem_append_right _ hi)
    exact .passChild d T x y _ _ hix hiy hib
  rw [rotated, ← relink_eq d y hpath hp (h.head_ne hx)]
  simp only [Storage.rotate, hy, hb, hchild, hparent]
  rfl

lemma rotated_between : At (rotated d T x y (addr B) ps) B x := by
  obtain ⟨⟨-, -, -, hbx, hby⟩, -, hB, hout, -, hndB, -, -⟩ := h.rotation_apart
  obtain ⟨-, -, hfork⟩ := at_fork.mp h.tree
  obtain ⟨-, hatB, -⟩ := at_fork.mp hfork
  refine hatB.reparent hndB (fun i hi => ⟨by simp, by simp, fun d' => ?_⟩) (fun i hi hne => ?_) fun hne => ?_
  · have hps : i ∉ pathIds ps := hout i (by simp [hi])
    rw [child_rotated d T x y _ ps d' hps, if_neg (fun heq => (hB i hi).2 heq.1), if_neg (fun heq => (hB i hi).1 heq.1)]
  · rw [parent_rotated, if_neg (hB i hi).1, if_neg (hB i hi).2, if_neg (fun heq => hne heq.1)]
  · have hnil : addr B ≠ rbNil := by
      refine (h.bounds _ (mem_append_left _ ((ids_fork ..).mem_iff.mpr ?_))).1
      simp [(ids_fork ..).mem_iff, addr_mem hne]
    rw [parent_rotated, if_neg hbx, if_neg hby, if_pos ⟨rfl, hnil⟩]

lemma rotate : Shows (Storage.rotate d T x) (fork d y c' e' (fork d x c e A B) C) ps := by
  obtain ⟨⟨hyx, hxps, hyps, -, -⟩, hapart, -, hout, hndA, -, hndC, -⟩ := h.rotation_apart
  obtain ⟨⟨hcx, hex, -, hlx, -⟩, hA, hfork⟩ := at_fork.mp h.tree
  obtain ⟨⟨hcy, hey, -, -, hc⟩, -, hatC⟩ := at_fork.mp hfork
  have hsame : ∀ i, i ∈ ids A ++ ids C ++ pathIds ps → Same (link T ps y) (rotated d T x y (addr B) ps) i :=
    fun i hi => .rotated d T x y _ ps (hapart i hi).1 (hapart i hi).2.1 (hapart i hi).2.2
  have hfree : ∀ i, i ∈ ids A ++ ids C → Same T (rotated d T x y (addr B) ps) i := by
    intro i hi
    refine Same.trans (.link T ps y (hout i ?_)) (hsame i (mem_append_left _ hi))
    simp only [mem_append] at hi ⊢
    tauto
  have hinner : At (rotated d T x y (addr B) ps) (fork d x c e A B) y := by
    refine at_fork.mpr ⟨⟨by simpa using hcx, by simpa using hex, ?_, ?_, ?_⟩, ?_, h.rotated_between⟩
    · rw [parent_rotated, if_pos rfl]
    · rw [child_rotated d T x y _ ps d hxps, if_neg (fun heq => hyx heq.1.symm),
        if_neg (fun heq => d.flip_ne heq.2.symm), hlx]
    · rw [child_rotated d T x y _ ps _ hxps, if_neg (fun heq => hyx heq.1.symm), if_pos ⟨rfl, rfl⟩]
    · exact hA.congr hndA fun i hi => hfree i (mem_append_left _ hi)
  have houter : At (rotated d T x y (addr B) ps) (fork d y c' e' (fork d x c e A B) C) (top ps) := by
    refine at_fork.mpr ⟨⟨by simpa using hcy, by simpa using hey, ?_, ?_, ?_⟩, hinner, ?_⟩
    · rw [parent_rotated, if_neg hyx, if_pos rfl]
    · rw [child_rotated d T x y _ ps d hyps, if_pos ⟨rfl, rfl⟩, addr_fork]
    · rw [child_rotated d T x y _ ps _ hyps, if_neg (fun heq => d.flip_ne heq.2), if_neg (fun heq => hyx heq.1), hc]
    · exact hatC.congr hndC fun i hi => hfree i (mem_append_right _ hi)
  have hids : (ids (fork d y c' e' (fork d x c e A B) C)).Perm (ids (fork d x c e A (fork d y c' e' B C))) := by
    refine ((ids_fork ..).trans (.cons y (.append_right _ (ids_fork ..)))).trans (.trans ?_
      ((ids_fork ..).trans (.cons x (.append_left _ (ids_fork ..)))).symm)
    simp only [cons_append, append_assoc]
    exact (List.Perm.swap x y _).trans (.cons x perm_middle.symm)
  rw [h.rotate_eq]
  refine h.replace_perm houter hids (fun i hi => ?_) ?_ (by simp) (by simp)
  · rw [addr_fork]
    exact hsame i (mem_append_right _ hi)
  · rw [addr_fork, root_rotated]

lemma rotateTo : Shows (Storage.rotateTo d T x) (fork d y c' e' (fork d x c e A B) C) ps := by
  cases d <;> exact h.rotate

lemma rotateTo_parent_nil : (Storage.rotateTo d T x).parent rbNil = T.parent rbNil := by
  have heq : Storage.rotateTo d T x = rotated d T x y (addr B) ps := by
    rw [← h.rotate_eq]
    cases d <;> rfl
  have hx : x ≠ rbNil := (h.bounds x (mem_append_left _ ((ids_fork ..).mem_iff.mpr mem_cons_self))).1
  have hy : y ≠ rbNil := by
    refine (h.bounds y (mem_append_left _ ((ids_fork ..).mem_iff.mpr ?_))).1
    simp [(ids_fork ..).mem_iff]
  rw [heq, parent_rotated, if_neg hx.symm, if_neg hy.symm, if_neg fun hb => hb.2 hb.1.symm]

end Shows

/-! ### A node is taken out -/

section Splice

variable {y : ℕ} {X : ATree}

lemma spliceOut_eq (h : Shows T (fork d y c e X nil) ps) :
    spliceOut T (addr X) y = link (T.setParent (addr X) (top ps)) ps (addr X) := by
  have hy : y ∈ ids (fork d y c e X nil) := (ids_fork ..).mem_iff.mpr mem_cons_self
  have hparent : T.parent y = top ps := (at_fork.mp h.tree).1.2.2.1
  have hout : ∀ i, i ∈ y :: pathIds ps → i ≠ addr X := fun i hi => (shows_fork.mp h).ne_addr hi
  have hpath : Above (T.setParent (addr X) (top ps)) ps y := by
    have hpath := h.path
    rw [addr_fork] at hpath
    exact hpath.congr (nodup_append'.mp h.nodup).2.1 fun i hi => .modify T _ (hout i (mem_cons_of_mem y hi))
  have hpar : (T.setParent (addr X) (top ps)).parent y = top ps := by
    rw [RbTree.parent_setParent, if_neg (hout y mem_cons_self), hparent]
  rw [spliceOut, hparent, relink_eq .left (addr X) hpath hpar (h.head_ne hy)]

lemma Shows.spliceOut (h : Shows T (fork d y c e X .nil) ps) : Shows (spliceOut T (addr X) y) X ps := by
  have hdown := shows_fork.mp h
  have hperm := ids_fork_path d y c e X .nil ps
  have hnodup := hperm.nodup_iff.mp h.nodup
  obtain ⟨hX, hrest, hdisj⟩ := nodup_append'.mp hnodup
  obtain ⟨-, hps⟩ := nodup_cons.mp hrest
  have hsame : ∀ i, i ∈ ids X → i ∉ pathIds ps := fun i hi hmem => hdisj hi (mem_cons_of_mem y hmem)
  rw [spliceOut_eq h]
  refine h.replace ?_ (fun i hi => ?_) ?_ ?_ ?_ ?_ ?_
  · refine hdown.tree.reparent hX (fun i hi => ⟨by simp, by simp, fun d' => ?_⟩) (fun i _ hne => ?_) fun _ => ?_
    · rw [(Same.link _ ps _ (hsame i hi)).child, RbTree.child_setParent]
    · rw [parent_link, RbTree.parent_setParent, if_neg hne]
    · rw [parent_link, RbTree.parent_setParent, if_pos rfl]
  · have hi : Same T (T.setParent (addr X) (top ps)) i := .modify T _ (hdown.ne_addr (mem_cons_of_mem y hi))
    exact hi.link_link T ps _
  · simp [root_link]
  · exact nodup_append'.mpr ⟨hX, hps, fun i hi hmem => hsame i hi hmem⟩
  · intro i hi
    rw [fresh_link, RbTree.fresh_setParent]
    refine h.bounds i (hperm.mem_iff.mpr ?_)
    rcases mem_append.mp hi with hi | hi
    · exact mem_append_left _ hi
    · exact mem_append_right _ (mem_cons_of_mem y hi)
  · simpa using h.nil
  · simp

lemma spliceOut_parent (h : Shows T (fork d y c e X nil) ps) : (spliceOut T (addr X) y).parent (addr X) = top ps := by
  rw [spliceOut_eq h, parent_link, RbTree.parent_setParent, if_pos rfl]

end Splice

/-! ### Keys and values -/

/-- `a->key` and `a->value` are written. -/
def setEntry (T : RbTree) (a : ℕ) (e : Bytes × Bytes) : RbTree := T.modify a ({ · with key := e.1, value := e.2 })

section Entries

variable (T : RbTree) (a : ℕ) (e : Bytes × Bytes)

@[simp] lemma color_setEntry : (setEntry T a e).color = T.color :=
  funext fun i => T.modify_eq a RbNode.color (fun _ => by rfl) i

@[simp] lemma parent_setEntry : (setEntry T a e).parent = T.parent :=
  funext fun i => T.modify_eq a RbNode.parent (fun _ => by rfl) i

@[simp] lemma child_setEntry : (setEntry T a e).child = T.child :=
  funext fun d => funext fun i => T.modify_eq a (·.child d) (fun _ => by cases d <;> rfl) i

lemma entry_setEntry (i : ℕ) : (setEntry T a e).entry i = if i = a then e else T.entry i :=
  T.modify_apply a (fun n => (n.key, n.value)) _ i

end Entries

lemma Shows.setEntry
    (h : Shows T (fork d i c e s u) ps) (e' : Bytes × Bytes) : Shows (setEntry T i e') (fork d i c e' s u) ps := by
  have hcolor : T.color i = c := (at_fork.mp h.tree).1.1
  refine h.writeNode (fun j hj => .modify T _ hj) (by simpa using hcolor) ?_ (by simp) (by simp) rfl rfl
  rw [entry_setEntry, if_pos rfl]

lemma Shows.setEntry_out (h : Shows T t ps) (hi : i ∉ ids t ++ pathIds ps)
    (e : Bytes × Bytes) : Shows (Storage.setEntry T i e) t ps := by
  have hne : ∀ j, j ∈ ids t ++ pathIds ps → j ≠ i := fun j hj heq => hi (heq ▸ hj)
  refine h.rewrite ?_ (.refl _) rfl (fun j hj => .modify T _ (hne j (mem_append_right _ hj))) rfl le_rfl (by simp)
  exact h.tree.congr (nodup_append'.mp h.nodup).1 fun j hj => .modify T _ (hne j (mem_append_left _ hj))

end PocketKv.Storage
