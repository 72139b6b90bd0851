import Mathlib.Data.List.Basic
import Mathlib.Data.Nat.Basic
import Mathlib.Tactic

/-!
# Red-black trees with a place in them
-/

namespace PocketKv.Library.RedBlack

/-- The color of a node. -/
inductive Color where
  | red
  | black
  deriving DecidableEq

/-- A side of a node. -/
inductive Dir where
  | left
  | right
  deriving DecidableEq

/-- The other side. -/
def Dir.flip : Dir → Dir
  | .left => .right
  | .right => .left

@[simp] lemma Dir.flip_flip (d : Dir) : d.flip.flip = d := by
  cases d <;> rfl

lemma Dir.flip_ne (d : Dir) : d.flip ≠ d := by
  cases d <;> decide

lemma Dir.eq_flip_of_ne {d d' : Dir} (h : d ≠ d') : d = d'.flip := by
  revert h
  cases d <;> cases d' <;> decide

/-- A tree of nodes `i` with colors and entries. -/
inductive ColorTree (ι ε : Type*) where
  | nil
  | node (i : ι) (c : Color) (e : ε) (l r : ColorTree ι ε)

variable {ι ε : Type*} {t s u t' : ColorTree ι ε} {n : ℕ} {i : ι} {e : ε} {d : Dir} {c : Color}

/-- The black nodes that a node counts for. -/
def Color.weight : Color → ℕ
  | .red => 0
  | .black => 1

namespace ColorTree

/-- A node with the subtree on the side `d` first. -/
def fork (d : Dir) (i : ι) (c : Color) (e : ε) (s u : ColorTree ι ε) : ColorTree ι ε :=
  match d with
  | .left => node i c e s u
  | .right => node i c e u s

lemma exists_fork (d : Dir) (h : t ≠ nil) : ∃ i c e s u, t = fork d i c e s u := by
  cases t with
  | nil => exact absurd rfl h
  | node i c e l r =>
    cases d with
    | left => exact ⟨i, c, e, l, r, rfl⟩
    | right => exact ⟨i, c, e, r, l, rfl⟩

lemma fork_flip (d : Dir) (i : ι) (c : Color) (e : ε) (s u : ColorTree ι ε) :
    fork d.flip i c e s u = fork d i c e u s := by
  cases d <;> rfl

/-- An empty tree is black. -/
def color : ColorTree ι ε → Color
  | nil => .black
  | node _ c _ _ _ => c

/-- The same tree with a black root. -/
def blacken : ColorTree ι ε → ColorTree ι ε
  | nil => nil
  | node i _ e l r => node i .black e l r

/-- The entries from left to right. -/
def toList : ColorTree ι ε → List ε
  | nil => []
  | node _ _ e l r => l.toList ++ e :: r.toList

/-- No red node is under a red one. -/
def NoRed : ColorTree ι ε → Prop
  | nil => True
  | node _ c _ l r => (c = .red → l.color = .black ∧ r.color = .black) ∧ l.NoRed ∧ r.NoRed

/-- All ways down have `n` black nodes. -/
def Height : ColorTree ι ε → ℕ → Prop
  | nil, n => n = 0
  | node _ c _ l r, n => ∃ k, l.Height k ∧ r.Height k ∧ n = k + c.weight

@[simp] lemma color_fork (d : Dir) (i : ι) (c : Color) (e : ε) (s u : ColorTree ι ε) :
    (fork d i c e s u).color = c := by
  cases d <;> rfl

@[simp] lemma blacken_fork (d : Dir) (i : ι) (c : Color) (e : ε) (s u : ColorTree ι ε) :
    (fork d i c e s u).blacken = fork d i .black e s u := by
  cases d <;> rfl

lemma noRed_fork :
    (fork d i c e s u).NoRed ↔ (c = .red → s.color = .black ∧ u.color = .black) ∧ s.NoRed ∧ u.NoRed := by
  cases d with
  | left => rfl
  | right => simp only [fork, NoRed, and_comm]

lemma height_fork : (fork d i c e s u).Height n ↔ ∃ k, s.Height k ∧ u.Height k ∧ n = k + c.weight := by
  cases d with
  | left => rfl
  | right => simp only [fork, Height, and_left_comm]

@[simp] lemma color_blacken (t : ColorTree ι ε) : t.blacken.color = .black := by
  cases t <;> rfl

@[simp] lemma toList_blacken (t : ColorTree ι ε) : t.blacken.toList = t.toList := by
  cases t <;> rfl

lemma NoRed.blacken (h : t.NoRed) : t.blacken.NoRed := by
  cases t with
  | nil => trivial
  | node i c e l r => exact ⟨nofun, h.2⟩

lemma blacken_eq_self (h : t.color = .black) : t.blacken = t := by
  cases t with
  | nil => rfl
  | node i c e l r =>
    obtain rfl : c = .black := h
    rfl

lemma Height.blacken (h : t.Height n) (hc : t.color = .red) : t.blacken.Height (n + 1) := by
  cases t with
  | nil => cases hc
  | node i c e l r =>
    obtain ⟨k, hl, hr, rfl⟩ := h
    obtain rfl : c = .red := hc
    exact ⟨k, hl, hr, rfl⟩

lemma Height.exists_blacken (h : t.Height n) : ∃ m, t.blacken.Height m := by
  cases hc : t.color with
  | red => exact ⟨n + 1, h.blacken hc⟩
  | black => exact ⟨n, by rw [blacken_eq_self hc]; exact h⟩

lemma Height.ne_nil (h : t.Height (n + 1)) : t ≠ nil := by
  rintro rfl
  cases h

/-- The two rules of red-black trees. -/
structure Balanced (t : ColorTree ι ε) : Prop where
  noRed : t.NoRed
  height : ∃ n, t.Height n

/-! #### Depth -/

/-- The number of nodes on the longest way down. -/
def depth : ColorTree ι ε → ℕ
  | nil => 0
  | node _ _ _ l r => max l.depth r.depth + 1

lemma NoRed.depth_le (h : t.NoRed) (hn : t.Height n) : t.depth + t.color.weight ≤ 2 * n + 1 := by
  induction t generalizing n with
  | nil =>
    obtain rfl : n = 0 := hn
    exact le_refl 1
  | node i c e l r ihl ihr =>
    obtain ⟨k, hl, hr, rfl⟩ := hn
    obtain ⟨hred, hnl, hnr⟩ := h
    have hdl := ihl hnl hl
    have hdr := ihr hnr hr
    cases c with
    | red =>
      rw [(hred rfl).1, Color.weight] at hdl
      rw [(hred rfl).2, Color.weight] at hdr
      simp only [depth, color, Color.weight]
      omega
    | black =>
      simp only [depth, color, Color.weight]
      omega

lemma Height.two_pow_le (h : t.Height n) : 2 ^ n ≤ t.toList.length + 1 := by
  induction t generalizing n with
  | nil =>
    obtain rfl : n = 0 := h
    exact le_refl 1
  | node i c e l r ihl ihr =>
    obtain ⟨k, hl, hr, rfl⟩ := h
    have hle := ihl hl
    have hre := ihr hr
    simp only [toList, List.length_append, List.length_cons]
    cases c with
    | red =>
      rw [Color.weight, add_zero]
      omega
    | black =>
      rw [Color.weight, pow_succ]
      omega

lemma Balanced.depth_le (h : t.Balanced) (hblack : t.color = .black) (hsize : t.toList.length + 1 ≤ 2 ^ n) :
    t.depth ≤ 2 * n := by
  obtain ⟨m, hm⟩ := h.height
  have hdepth := h.noRed.depth_le hm
  have hle : m ≤ n := (Nat.pow_le_pow_iff_right (by decide)).mp (hm.two_pow_le.trans hsize)
  rw [hblack, Color.weight] at hdepth
  omega

lemma toList_rotate (d : Dir) {i j : ι} {c c' b b' : Color} {e f : ε} {s u v : ColorTree ι ε} :
    (fork d j b' f (fork d i b e s u) v).toList = (fork d i c e s (fork d j c' f u v)).toList := by
  cases d <;> simp [fork, toList]

lemma toList_rotate_inner (d : Dir) {i j k : ι} {c c' c'' b b' b'' : Color} {e f g : ε} {s u v w : ColorTree ι ε} :
    (fork d i b e (fork d j b' f s u) (fork d k b'' g v w)).toList =
      (fork d k c'' g (fork d.flip j c' f (fork d i c e u v) s) w).toList := by
  cases d <;> simp [fork, toList, Dir.flip]

lemma toList_recolor (d : Dir) {c c' : Color} {s s' u u' : ColorTree ι ε} (hs : s.toList = s'.toList)
    (hu : u.toList = u'.toList) : (fork d i c e s u).toList = (fork d i c' e s' u').toList := by
  cases d <;> simp [fork, toList, hs, hu]

end ColorTree

open ColorTree

/-! ### Paths -/

/-- A node on the way to the place, which is on its side `d`; `sib` is what is on the other side. -/
structure Frame (ι ε : Type*) where
  d : Dir
  i : ι
  c : Color
  e : ε
  sib : ColorTree ι ε

/-- The tree with `t` in the place. -/
def plug : List (Frame ι ε) → ColorTree ι ε → ColorTree ι ε
  | [], t => t
  | f :: ps, t => plug ps (fork f.d f.i f.c f.e t f.sib)

lemma plug_append (qs ps : List (Frame ι ε)) (t : ColorTree ι ε) : plug (qs ++ ps) t = plug ps (plug qs t) := by
  induction qs generalizing t with
  | nil => rfl
  | cons f qs ih => exact ih _

/-- The entries left of the place. -/
def before : List (Frame ι ε) → List ε
  | [] => []
  | f :: ps =>
    match f.d with
    | .left => before ps
    | .right => before ps ++ (f.sib.toList ++ [f.e])

/-- The entries right of the place. -/
def after : List (Frame ι ε) → List ε
  | [] => []
  | f :: ps =>
    match f.d with
    | .left => f.e :: f.sib.toList ++ after ps
    | .right => after ps

lemma toList_plug (ps : List (Frame ι ε)) (t : ColorTree ι ε) :
    (plug ps t).toList = before ps ++ (t.toList ++ after ps) := by
  induction ps generalizing t with
  | nil => simp [plug, before, after]
  | cons f ps ih =>
    rw [plug, ih]
    rcases f with ⟨d, i, c, e, sib⟩
    cases d <;> simp [before, after, fork, toList]

lemma toList_plug_congr (ps : List (Frame ι ε)) (h : t.toList = t'.toList) :
    (plug ps t).toList = (plug ps t').toList := by
  rw [toList_plug, toList_plug, h]

/-- The color of the node above the place. -/
def topColor : List (Frame ι ε) → Color
  | [] => .black
  | f :: _ => f.c

/-- No red node is under a red one, outside of the place. -/
def PathNoRed : List (Frame ι ε) → Prop
  | [] => True
  | f :: ps => f.sib.NoRed ∧ (f.c = .red → f.sib.color = .black ∧ topColor ps = .black) ∧ PathNoRed ps

/-- A subtree of the height `n` at the place makes the tree one of the height `m`. -/
def PathHeight : List (Frame ι ε) → ℕ → ℕ → Prop
  | [], n, m => n = m
  | f :: ps, n, m => f.sib.Height n ∧ PathHeight ps (n + f.c.weight) m

/-- The root is black, unless it is the place. -/
def RootBlack : List (Frame ι ε) → Prop
  | [] => True
  | f :: ps => (ps = [] → f.c = .black) ∧ RootBlack ps

variable {ps : List (Frame ι ε)} {f : Frame ι ε}

lemma noRed_plug : (plug ps t).NoRed ↔ t.NoRed ∧ (t.color = .red → topColor ps = .black) ∧ PathNoRed ps := by
  induction ps generalizing t with
  | nil => simp [plug, PathNoRed, topColor]
  | cons f ps ih =>
    rw [plug, ih, noRed_fork, color_fork, PathNoRed, topColor]
    constructor
    · rintro ⟨⟨hc, ht, hs⟩, htop, hps⟩
      refine ⟨ht, fun hred => ?_, hs, fun hf => ⟨(hc hf).2, htop hf⟩, hps⟩
      cases hfc : f.c with
      | black => rfl
      | red =>
        rw [(hc hfc).1] at hred
        cases hred
    · rintro ⟨ht, hred, hs, hf, hps⟩
      refine ⟨⟨fun hc => ⟨?_, (hf hc).1⟩, ht, hs⟩, fun hc => (hf hc).2, hps⟩
      cases htc : t.color with
      | black => rfl
      | red =>
        rw [hred htc] at hc
        cases hc

lemma height_plug {m : ℕ} : (plug ps t).Height m ↔ ∃ n, t.Height n ∧ PathHeight ps n m := by
  induction ps generalizing t with
  | nil =>
    constructor
    · intro h
      exact ⟨m, h, rfl⟩
    · rintro ⟨n, h, rfl⟩
      exact h
  | cons f ps ih =>
    simp only [plug, ih, height_fork, PathHeight]
    constructor
    · rintro ⟨_, ⟨k, ht, hs, rfl⟩, hps⟩
      exact ⟨k, ht, hs, hps⟩
    · rintro ⟨k, ht, hs, hps⟩
      exact ⟨_, ⟨k, ht, hs, rfl⟩, hps⟩

lemma color_plug (h : RootBlack ps) (ht : ps = [] → t.color = .black) : (plug ps t).color = .black := by
  induction ps generalizing t with
  | nil => exact ht rfl
  | cons f ps ih =>
    exact ih h.2 fun hps => by rw [color_fork, h.1 hps]

lemma color_plug_congr (ps : List (Frame ι ε)) (h : t.color = t'.color) :
    (plug ps t).color = (plug ps t').color := by
  induction ps generalizing t t' with
  | nil => exact h
  | cons f ps ih => exact ih (by rw [color_fork, color_fork])

lemma rootBlack_of_color_plug (h : (plug ps t).color = .black) : RootBlack ps := by
  induction ps generalizing t with
  | nil => trivial
  | cons f ps ih =>
    refine ⟨?_, ih h⟩
    rintro rfl
    rwa [plug, plug, color_fork] at h

lemma balanced_plug {n m : ℕ} (ht : t.NoRed) (hc : t.color = .black)
    (hn : t.Height n) (hp : PathNoRed ps) (hm : PathHeight ps n m) : (plug ps t).Balanced :=
  ⟨noRed_plug.mpr ⟨ht, fun hred => absurd (hc.symm.trans hred) (by decide), hp⟩, m, height_plug.mpr ⟨n, hn, hm⟩⟩

lemma balanced_plug_entry
    (h : (plug ps (fork d i c e s u)).Balanced) (e' : ε) : (plug ps (fork d i c e' s u)).Balanced := by
  obtain ⟨m, hm⟩ := h.height
  obtain ⟨n, hn, hps⟩ := height_plug.mp hm
  have hno := noRed_plug.mp h.noRed
  rw [height_fork] at hn
  refine ⟨noRed_plug.mpr ?_, m, height_plug.mpr ⟨n, height_fork.mpr hn, hps⟩⟩
  simpa only [noRed_fork, color_fork] using hno

lemma balanced_splice_red {x : ColorTree ι ε}
    (h : (plug ps (fork d i .red e x nil)).Balanced) (hc : (plug ps (fork d i .red e x nil)).color = .black) :
    (plug ps x).Balanced ∧ (plug ps x).color = .black := by
  obtain ⟨m, hm⟩ := h.height
  obtain ⟨n, hn, hps⟩ := height_plug.mp hm
  obtain ⟨k, hx, -, hk⟩ := height_fork.mp hn
  obtain rfl : n = k := hk
  obtain ⟨hno, -, hpath⟩ := noRed_plug.mp h.noRed
  obtain ⟨hred, hxno, -⟩ := noRed_fork.mp hno
  exact ⟨balanced_plug hxno (hred rfl).1 hx hpath hps, color_plug (rootBlack_of_color_plug hc) fun _ => (hred rfl).1⟩

/-! ### Repairing an insertion -/

/-- The place is red and may be under a red node; everything else is in order. -/
structure Inserting (t : ColorTree ι ε) (ps : List (Frame ι ε)) : Prop where
  red : t.color = .red
  noRed : t.NoRed
  path : PathNoRed ps
  height : ∃ n m, t.Height n ∧ PathHeight ps n m
  root : RootBlack ps

namespace Inserting

variable {dp : Dir} {p g : ι} {cg : Color} {ep eg : ε}

lemma leaf (h : (plug ps nil).Balanced) (hc : (plug ps (nil : ColorTree ι ε)).color = .black) :
    Inserting (node i .red e nil nil) ps := by
  obtain ⟨m, hm⟩ := h.height
  obtain ⟨_, rfl, hps⟩ := height_plug.mp hm
  exact ⟨rfl, ⟨fun _ => ⟨rfl, rfl⟩, trivial, trivial⟩, (noRed_plug.mp h.noRed).2.2, ⟨0, m, ⟨0, rfl, rfl, rfl⟩, hps⟩,
    rootBlack_of_color_plug hc⟩

lemma done (h : Inserting t ps) (htop : topColor ps = .black) : (plug ps t).blacken.Balanced := by
  obtain ⟨n, m, hn, hm⟩ := h.height
  have hno : (plug ps t).NoRed := noRed_plug.mpr ⟨h.noRed, fun _ => htop, h.path⟩
  exact ⟨hno.blacken, (height_plug.mpr ⟨n, hn, hm⟩).exists_blacken⟩

lemma above_parent (h : Inserting t (f :: ps)) (hf : f.c = .red) :
    f.sib.color = .black ∧ ∃ g ps', ps = g :: ps' ∧ g.c = .black := by
  obtain ⟨hsib, htop⟩ := h.path.2.1 hf
  refine ⟨hsib, ?_⟩
  cases ps with
  | nil =>
    have := h.root.1 rfl
    rw [hf] at this
    cases this
  | cons g ps' => exact ⟨g, ps', rfl, htop⟩

lemma recolor (h : Inserting t (⟨dp, p, .red, ep, s⟩ :: ⟨d, g, .black, eg, u⟩ :: ps)) (hu : u.color = .red) :
    Inserting (fork d g .red eg (fork dp p .black ep t s) u.blacken) ps := by
  obtain ⟨n, m, hn, hs, hu', hm⟩ := h.height
  obtain ⟨hsno, -, huno, -, hps⟩ := h.path
  refine ⟨color_fork .., ?_, hps, ⟨n + 1, m, ?_, hm⟩, h.root.2.2⟩
  · exact noRed_fork.mpr ⟨fun _ => ⟨color_fork .., color_blacken u⟩,
      noRed_fork.mpr ⟨nofun, h.noRed, hsno⟩, huno.blacken⟩
  · exact height_fork.mpr ⟨n + 1, height_fork.mpr ⟨n, hn, hs, rfl⟩, hu'.blacken hu, rfl⟩

lemma outer (h : Inserting t (⟨d, p, .red, ep, s⟩ :: ⟨d, g, .black, eg, u⟩ :: ps)) (hu : u.color = .black) :
    (plug ps (fork d p .black ep t (fork d g .red eg s u))).Balanced := by
  obtain ⟨n, m, hn, hs, hu', hm⟩ := h.height
  obtain ⟨hsno, hsib, huno, -, hps⟩ := h.path
  refine balanced_plug (noRed_fork.mpr ⟨nofun, h.noRed, ?_⟩) (color_fork ..) ?_ hps hm
  · exact noRed_fork.mpr ⟨fun _ => ⟨(hsib rfl).1, hu⟩, hsno, huno⟩
  · exact height_fork.mpr ⟨n, hn, height_fork.mpr ⟨n, hs, hu', rfl⟩, rfl⟩

lemma inner {z : ι} {ez : ε} {b c : ColorTree ι ε}
    (h : Inserting (fork d z .red ez b c) (⟨d.flip, p, .red, ep, s⟩ :: ⟨d, g, .black, eg, u⟩ :: ps))
    (hu : u.color = .black) :
    (plug ps (fork d z .black ez (fork d p .red ep s b) (fork d g .red eg c u))).Balanced := by
  obtain ⟨n, m, hn, hs, hu', hm⟩ := h.height
  obtain ⟨k, hb, hc, hk⟩ := height_fork.mp hn
  obtain rfl : n = k := hk
  obtain ⟨hsno, hsib, huno, -, hps⟩ := h.path
  obtain ⟨hzred, hbno, hcno⟩ := noRed_fork.mp h.noRed
  refine balanced_plug (noRed_fork.mpr ⟨nofun, ?_, ?_⟩) (color_fork ..) ?_ hps hm
  · exact noRed_fork.mpr ⟨fun _ => ⟨(hsib rfl).1, (hzred rfl).1⟩, hsno, hbno⟩
  · exact noRed_fork.mpr ⟨fun _ => ⟨(hzred rfl).2, hu⟩, hcno, huno⟩
  · exact height_fork.mpr ⟨n, height_fork.mpr ⟨n, hs, hb, rfl⟩, height_fork.mpr ⟨n, hc, hu', rfl⟩, rfl⟩

end Inserting

/-! ### Repairing a deletion -/

/-- A black node is missing in the place, which may be red under a red node or over one. -/
structure Deleting (x : ColorTree ι ε) (ps : List (Frame ι ε)) : Prop where
  noRed : x.blacken.NoRed
  path : PathNoRed ps
  height : ∃ n m, x.Height n ∧ PathHeight ps (n + 1) m
  root : RootBlack ps

namespace Deleting

variable {x b c : ColorTree ι ε} {p w : ι} {cp : Color} {ep ew : ε}

lemma splice (h : (plug ps (fork d i .black e x nil)).Balanced)
    (hc : (plug ps (fork d i .black e x nil)).color = .black) : Deleting x ps := by
  obtain ⟨m, hm⟩ := h.height
  obtain ⟨n, hn, hps⟩ := height_plug.mp hm
  obtain ⟨k, hx, -, rfl⟩ := height_fork.mp hn
  obtain ⟨hno, -, hpath⟩ := noRed_plug.mp h.noRed
  obtain ⟨-, hxno, -⟩ := noRed_fork.mp hno
  exact ⟨hxno.blacken, hpath, ⟨k, m, hx, hps⟩, rootBlack_of_color_plug hc⟩

lemma done (h : Deleting x ps) (hx : x.color = .red ∨ ps = []) :
    (plug ps x.blacken).Balanced ∧ (plug ps x.blacken).color = .black := by
  obtain ⟨n, m, hn, hm⟩ := h.height
  refine ⟨?_, color_plug h.root fun _ => color_blacken x⟩
  rcases hx with hx | rfl
  · exact balanced_plug h.noRed (color_blacken x) (hn.blacken hx) h.path hm
  · exact ⟨h.noRed, hn.exists_blacken⟩

lemma sib_ne_nil (h : Deleting x (f :: ps)) : f.sib ≠ nil := by
  obtain ⟨n, m, -, hs, -⟩ := h.height
  exact hs.ne_nil

lemma parent_black (h : Deleting x (f :: ps)) (hw : f.sib.color = .red) : f.c = .black := by
  cases hc : f.c with
  | black => rfl
  | red =>
    rw [(h.path.2.1 hc).1] at hw
    cases hw

lemma rotate (h : Deleting x (⟨d, p, .black, ep, fork d w .red ew b c⟩ :: ps)) :
    Deleting x (⟨d, p, .red, ep, b⟩ :: ⟨d, w, .black, ew, c⟩ :: ps) ∧ b.color = .black := by
  obtain ⟨n, m, hn, hs, hm⟩ := h.height
  obtain ⟨hsno, -, hps⟩ := h.path
  obtain ⟨hwred, hbno, hcno⟩ := noRed_fork.mp hsno
  obtain ⟨k, hb, hc, hk⟩ := height_fork.mp hs
  obtain rfl : n + 1 = k := hk
  refine ⟨⟨h.noRed, ?_, ⟨n, m, hn, hb, hc, hm⟩, nofun, fun _ => rfl, h.root.2⟩, (hwred rfl).1⟩
  exact ⟨hbno, fun _ => ⟨(hwred rfl).1, rfl⟩, hcno, nofun, hps⟩

section

variable (h : Deleting x (⟨d, p, cp, ep, fork d w .black ew b c⟩ :: ps))
include h

lemma parts (hx : x.color = .black) : ∃ n m, x.NoRed ∧ x.Height n ∧ (b.NoRed ∧ b.Height n) ∧ (c.NoRed ∧ c.Height n) ∧
    PathHeight ps (n + 1 + cp.weight) m := by
  obtain ⟨n, m, hn, hs, hm⟩ := h.height
  obtain ⟨-, hbno, hcno⟩ := noRed_fork.mp h.path.1
  obtain ⟨k, hbk, hck, hk⟩ := height_fork.mp hs
  obtain rfl : n = k := Nat.succ.inj hk
  exact ⟨n, m, blacken_eq_self hx ▸ h.noRed, hn, ⟨hbno, hbk⟩, ⟨hcno, hck⟩, hm⟩

lemma balanced {n m : ℕ} (hno : t.NoRed) (hc : t.color = cp) (hn : t.Height n) (hm : PathHeight ps n m) :
    (plug ps t).Balanced :=
  ⟨noRed_plug.mpr ⟨hno, fun hred => (h.path.2.1 (hc.symm.trans hred)).2, h.path.2.2⟩, m, height_plug.mpr ⟨n, hn, hm⟩⟩

lemma up (hx : x.color = .black)
    (hb : b.color = .black) (hc : c.color = .black) : Deleting (fork d p cp ep x (fork d w .red ew b c)) ps := by
  obtain ⟨n, m, hxno, hn, ⟨hbno, hbk⟩, ⟨hcno, hck⟩, hm⟩ := h.parts hx
  refine ⟨?_, h.path.2.2, ⟨n + cp.weight, m, ?_, ?_⟩, h.root.2⟩
  · rw [blacken_fork]
    exact noRed_fork.mpr ⟨nofun, hxno, noRed_fork.mpr ⟨fun _ => ⟨hb, hc⟩, hbno, hcno⟩⟩
  · exact height_fork.mpr ⟨n, hn, height_fork.mpr ⟨n, hbk, hck, rfl⟩, rfl⟩
  · rw [Nat.add_right_comm]
    exact hm

lemma outer (hx : x.color = .black)
    (hc : c.color = .red) : (plug ps (fork d w cp ew (fork d p .black ep x b) c.blacken)).Balanced := by
  obtain ⟨n, m, hxno, hn, ⟨hbno, hbk⟩, ⟨hcno, hck⟩, hm⟩ := h.parts hx
  refine h.balanced (noRed_fork.mpr ⟨fun _ => ⟨color_fork .., color_blacken c⟩, ?_, hcno.blacken⟩) (color_fork ..) ?_ hm
  · exact noRed_fork.mpr ⟨nofun, hxno, hbno⟩
  · exact height_fork.mpr ⟨n + 1, height_fork.mpr ⟨n, hn, hbk, rfl⟩, hck.blacken hc, rfl⟩

end

lemma inner {v : ι} {ev : ε} {b₁ b₂ : ColorTree ι ε}
    (h : Deleting x (⟨d, p, cp, ep, fork d w .black ew (fork d v .red ev b₁ b₂) c⟩ :: ps)) (hx : x.color = .black) :
    (plug ps (fork d v cp ev (fork d p .black ep x b₁) (fork d w .black ew b₂ c))).Balanced := by
  obtain ⟨n, m, hxno, hn, ⟨hbno, hbk⟩, ⟨hcno, hck⟩, hm⟩ := h.parts hx
  obtain ⟨-, hb₁no, hb₂no⟩ := noRed_fork.mp hbno
  obtain ⟨k, hb₁, hb₂, hk⟩ := height_fork.mp hbk
  obtain rfl : n = k := hk
  refine h.balanced (noRed_fork.mpr ⟨fun _ => ⟨color_fork .., color_fork ..⟩, ?_, ?_⟩) (color_fork ..) ?_ hm
  · exact noRed_fork.mpr ⟨nofun, hxno, hb₁no⟩
  · exact noRed_fork.mpr ⟨nofun, hb₂no, hcno⟩
  · exact height_fork.mpr ⟨n + 1, height_fork.mpr ⟨n, hn, hb₁, rfl⟩, height_fork.mpr ⟨n, hb₂, hck, rfl⟩, rfl⟩

end Deleting

end PocketKv.Library.RedBlack
