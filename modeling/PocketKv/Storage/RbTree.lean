import PocketKv.Library.RedBlack
import PocketKv.Storage.Engine

/-!
# The red-black tree engine
-/

namespace PocketKv.Storage

open Library.RedBlack Resp

/-- `rbtree_node`. -/
structure RbNode where
  color : Color
  right : ℕ
  left : ℕ
  parent : ℕ
  key : Bytes
  value : Bytes

/-- `rbtree`, with the memory for its nodes. -/
structure RbTree where
  node : ℕ → RbNode
  root : ℕ
  fresh : ℕ

/-- The address of `T->nil`. -/
def rbNil : ℕ := 0

namespace RbNode

/-- `left` or `right`. -/
def child (n : RbNode) : Dir → ℕ
  | .left => n.left
  | .right => n.right

/-- The node with another child. -/
def setChild (n : RbNode) (d : Dir) (a : ℕ) : RbNode :=
  match d with
  | .left => { n with left := a }
  | .right => { n with right := a }

end RbNode

namespace RbTree

/-- The node at `a` is changed. -/
def modify (T : RbTree) (a : ℕ) (f : RbNode → RbNode) : RbTree :=
  { T with node := Function.update T.node a (f (T.node a)) }

/-- `a->left` or `a->right`. -/
def child (T : RbTree) (d : Dir) (a : ℕ) : ℕ := (T.node a).child d

/-- `a->parent`. -/
def parent (T : RbTree) (a : ℕ) : ℕ := (T.node a).parent

/-- `a->key` and `a->value`. -/
def entry (T : RbTree) (a : ℕ) : Bytes × Bytes := ((T.node a).key, (T.node a).value)

/-- `a->color`. -/
def color (T : RbTree) (a : ℕ) : Color := (T.node a).color

/-- `a->left = b` or `a->right = b`. -/
def setChild (T : RbTree) (d : Dir) (a b : ℕ) : RbTree := T.modify a (·.setChild d b)

/-- `a->parent = b`. -/
def setParent (T : RbTree) (a b : ℕ) : RbTree := T.modify a ({ · with parent := b })

/-- `a->color = c`. -/
def setColor (T : RbTree) (a : ℕ) (c : Color) : RbTree := T.modify a ({ · with color := c })

/-- `T->root = a`. -/
def setRoot (T : RbTree) (a : ℕ) : RbTree := { T with root := a }

end RbTree

/-- `y` takes the place of `x` as the child of its parent, or the root, looked for on the side `d` first. -/
def relink (d : Dir) (T : RbTree) (x y : ℕ) : RbTree :=
  if T.parent x = rbNil then T.setRoot y
  else if x = T.child d (T.parent x) then T.setChild d (T.parent x) y
  else T.setChild d.flip (T.parent x) y

/-! ### Rotations -/

/-- `rbtree_left_rotate` and `rbtree_right_rotate`: the child of `x` on the other side takes its place. -/
def rotate (d : Dir) (T : RbTree) (x : ℕ) : RbTree :=
  let y := T.child d.flip x
  let T := T.setChild d.flip x (T.child d y)
  let T := if T.child d y ≠ rbNil then T.setParent (T.child d y) x else T
  let T := T.setParent y (T.parent x)
  let T := relink d T x y
  let T := T.setChild d y x
  T.setParent x y

/-- `rbtree_left_rotate`. -/
def rbtreeLeftRotate (T : RbTree) (x : ℕ) : RbTree := rotate .left T x

/-- `rbtree_right_rotate`. -/
def rbtreeRightRotate (T : RbTree) (y : ℕ) : RbTree := rotate .right T y

/-- The rotation to the side `d`. -/
def rotateTo : Dir → RbTree → ℕ → RbTree
  | .left => rbtreeLeftRotate
  | .right => rbtreeRightRotate

/-! ### Insertion -/

/-- `rbtree_insert_fixup` with the parent of `z` on the side `d`: the tree and `z`. -/
def insertFixupStep (d : Dir) (T : RbTree) (z : ℕ) : RbTree × ℕ :=
  let y := T.child d.flip (T.parent (T.parent z))
  if T.color y = .red then
    let T := T.setColor (T.parent z) .black
    let T := T.setColor y .black
    let T := T.setColor (T.parent (T.parent z)) .red
    (T, T.parent (T.parent z))
  else
    let (T, z) :=
      if z = T.child d.flip (T.parent z) then
        let z := T.parent z
        (rotateTo d T z, z)
      else (T, z)
    let T := T.setColor (T.parent z) .black
    let T := T.setColor (T.parent (T.parent z)) .red
    (rotateTo d.flip T (T.parent (T.parent z)), z)

/-- The loop of `rbtree_insert_fixup`. -/
def insertFixupLoop : ℕ → RbTree → ℕ → RbTree
  | 0, T, _ => T
  | fuel + 1, T, z =>
    if T.color (T.parent z) = .red then
      let d : Dir := if T.parent z = T.child .left (T.parent (T.parent z)) then .left else .right
      let (T, z) := insertFixupStep d T z
      insertFixupLoop fuel T z
    else T

/-- `rbtree_insert_fixup`. -/
def rbtreeInsertFixup (T : RbTree) (z : ℕ) : RbTree :=
  let T := insertFixupLoop T.fresh T z
  T.setColor T.root .black

/-- The loop of `rbtree_insert`: the node above the place, or nothing if the key is there. -/
def insertPlace (T : RbTree) (key : Bytes) : ℕ → ℕ → ℕ → Option ℕ
  | 0, _, _ => none
  | fuel + 1, y, x =>
    if x = rbNil then some y
    else
      match strcmp key (T.node x).key with
      | .lt => insertPlace T key fuel x (T.child .left x)
      | .gt => insertPlace T key fuel x (T.child .right x)
      | .eq => none

/-- `rbtree_insert`. -/
def rbtreeInsert (T : RbTree) (z : ℕ) : RbTree :=
  match insertPlace T (T.node z).key T.fresh rbNil T.root with
  | none => T
  | some y =>
    let T := T.setParent z y
    let T :=
      if y = rbNil then T.setRoot z
      else if strcmp (T.node z).key (T.node y).key = .lt then T.setChild .left y z
      else T.setChild .right y z
    let T := T.setChild .left z rbNil
    let T := T.setChild .right z rbNil
    let T := T.setColor z .red
    rbtreeInsertFixup T z

/-! ### Deletion -/

/-- `rbtree_delete_fixup` with `x` on the side `d`: the node beside it is made black. -/
def deleteFixupTurn (d : Dir) (T : RbTree) (x : ℕ) : RbTree :=
  let w := T.child d.flip (T.parent x)
  if T.color w = .red then
    let T := T.setColor w .black
    let T := T.setColor (T.parent x) .red
    rotateTo d T (T.parent x)
  else T

/-- The second part, with `w` beside `x`: the tree and `x`. -/
def deleteFixupRest (d : Dir) (T : RbTree) (x w : ℕ) : RbTree × ℕ :=
  if T.color (T.child .left w) = .black ∧ T.color (T.child .right w) = .black then
    (T.setColor w .red, T.parent x)
  else
    let (T, w) :=
      if T.color (T.child d.flip w) = .black then
        let T := T.setColor (T.child d w) .black
        let T := T.setColor w .red
        let T := rotateTo d.flip T w
        (T, T.child d.flip (T.parent x))
      else (T, w)
    let T := T.setColor w (T.color (T.parent x))
    let T := T.setColor (T.parent x) .black
    let T := T.setColor (T.child d.flip w) .black
    let T := rotateTo d T (T.parent x)
    (T, T.root)

/-- The loop of `rbtree_delete_fixup`: the tree and `x`. -/
def deleteFixupLoop : ℕ → RbTree → ℕ → RbTree × ℕ
  | 0, T, x => (T, x)
  | fuel + 1, T, x =>
    if x ≠ T.root ∧ T.color x = .black then
      let d : Dir := if x = T.child .left (T.parent x) then .left else .right
      let T := deleteFixupTurn d T x
      let (T, x) := deleteFixupRest d T x (T.child d.flip (T.parent x))
      deleteFixupLoop fuel T x
    else (T, x)

/-- `rbtree_delete_fixup`. -/
def rbtreeDeleteFixup (T : RbTree) (x : ℕ) : RbTree :=
  let (T, x) := deleteFixupLoop T.fresh T x
  T.setColor x .black

/-- The loop of `rbtree_mini`. -/
def miniLoop (T : RbTree) : ℕ → ℕ → ℕ
  | 0, x => x
  | fuel + 1, x => if T.child .left x ≠ rbNil then miniLoop T fuel (T.child .left x) else x

/-- `rbtree_mini`. -/
def rbtreeMini (T : RbTree) (x : ℕ) : ℕ := miniLoop T T.fresh x

/-- The loop of `rbtree_successor` upwards. -/
def successorLoop (T : RbTree) : ℕ → ℕ → ℕ → ℕ
  | 0, _, y => y
  | fuel + 1, x, y => if y ≠ rbNil ∧ x = T.child .right y then successorLoop T fuel y (T.parent y) else y

/-- `rbtree_successor`. -/
def rbtreeSuccessor (T : RbTree) (x : ℕ) : ℕ :=
  if T.child .right x ≠ rbNil then rbtreeMini T (T.child .right x) else successorLoop T T.fresh x (T.parent x)

/-- `x` takes the place of `y`. -/
def spliceOut (T : RbTree) (x y : ℕ) : RbTree :=
  relink .left (T.setParent x (T.parent y)) y x

/-- `y` and `z` exchange keys and values. -/
def exchangeEntries (T : RbTree) (y z : ℕ) : RbTree :=
  let ny := T.node y
  let nz := T.node z
  let T := T.modify z ({ · with key := ny.key, value := ny.value })
  T.modify y ({ · with key := nz.key, value := nz.value })

/-- `rbtree_delete`: the node that is no longer in the tree, and the tree. -/
def rbtreeDelete (T : RbTree) (z : ℕ) : ℕ × RbTree :=
  let y := if T.child .left z = rbNil ∨ T.child .right z = rbNil then z else rbtreeSuccessor T z
  let x :=
    if T.child .left y ≠ rbNil then T.child .left y
    else if T.child .right y ≠ rbNil then T.child .right y
    else rbNil
  let T := spliceOut T x y
  let T := if y ≠ z then exchangeEntries T y z else T
  (y, if T.color y = .black then rbtreeDeleteFixup T x else T)

/-! ### The operations -/

/-- The loop of `rbtree_search`. -/
def searchLoop (T : RbTree) (key : Bytes) : ℕ → ℕ → ℕ
  | 0, _ => rbNil
  | fuel + 1, a =>
    if a = rbNil then rbNil
    else
      match strcmp key (T.node a).key with
      | .lt => searchLoop T key fuel (T.child .left a)
      | .gt => searchLoop T key fuel (T.child .right a)
      | .eq => a

/-- `rbtree_search`. -/
def rbtreeSearch (T : RbTree) (key : Bytes) : ℕ := searchLoop T key T.fresh T.root

/-- `kvs_rbtree_create`, in a memory with any contents. -/
def kvsRbtreeCreate (mem : ℕ → RbNode) : RbTree where
  node := Function.update mem rbNil { mem rbNil with color := .black }
  root := rbNil
  fresh := 1

/-- `kvs_rbtree_mod`. -/
def kvsRbtreeMod (T : RbTree) (key value : Bytes) : ℤ × RbTree :=
  let node := rbtreeSearch T key
  if node = rbNil then (1, T) else (0, T.modify node ({ · with value := value }))

/-- `kvs_malloc` of a node. -/
def allocNode (T : RbTree) (key value : Bytes) : RbTree :=
  { T.modify T.fresh ({ · with key := key, value := value }) with fresh := T.fresh + 1 }

/-- `kvs_rbtree_set`. -/
def kvsRbtreeSet (T : RbTree) (key value : Bytes) : ℤ × RbTree :=
  if rbtreeSearch T key ≠ rbNil then kvsRbtreeMod T key value
  else (0, rbtreeInsert (allocNode T key value) T.fresh)

/-- `kvs_rbtree_get`. -/
def kvsRbtreeGet (T : RbTree) (key : Bytes) : Option Bytes :=
  let node := rbtreeSearch T key
  if node = rbNil then none else some (T.node node).value

/-- `kvs_rbtree_del`. -/
def kvsRbtreeDel (T : RbTree) (key : Bytes) : ℤ × RbTree :=
  let node := rbtreeSearch T key
  if node = rbNil then (1, T) else (0, (rbtreeDelete T node).2)

/-- `kvs_rbtree_exist`. -/
def kvsRbtreeExist (T : RbTree) (key : Bytes) : ℤ := if rbtreeSearch T key = rbNil then 1 else 0

/-! ### Calls -/

/-- What a call returns, and the tree after it. -/
def RbTree.call (T : RbTree) : EngineCall → EngineReply × RbTree
  | .set key value => (kvsRbtreeSet T key value).map .code id
  | .mod key value => (kvsRbtreeMod T key value).map .code id
  | .del key => (kvsRbtreeDel T key).map .code id
  | .get key => (.value (kvsRbtreeGet T key), T)
  | .exist key => (.code (kvsRbtreeExist T key), T)

/-- The tree after a call. -/
def RbTree.step (T : RbTree) (c : EngineCall) : RbTree := (T.call c).2

end PocketKv.Storage
