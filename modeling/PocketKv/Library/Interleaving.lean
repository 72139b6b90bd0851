import Mathlib.Tactic

/-!
# Interleavings
-/

namespace PocketKv.Library

/-- The list `zs` is a merge of `xs` and `ys`. -/
inductive Interleaving {α : Type*} : List α → List α → List α → Prop where
  | nil : Interleaving [] [] []
  | left {xs ys zs : List α} (x : α) : Interleaving xs ys zs → Interleaving (x :: xs) ys (x :: zs)
  | right {xs ys zs : List α} (y : α) : Interleaving xs ys zs → Interleaving xs (y :: ys) (y :: zs)

namespace Interleaving

variable {α : Type*} {xs ys zs : List α}

lemma length (h : Interleaving xs ys zs) : zs.length = xs.length + ys.length := by
  induction h with
  | nil => rfl
  | left x _ ih => simp [ih]; omega
  | right y _ ih => simp [ih]; omega

lemma left_only (xs : List α) : Interleaving xs [] xs := by
  induction xs with
  | nil => exact .nil
  | cons x xs ih => exact .left x ih

lemma right_only (ys : List α) : Interleaving [] ys ys := by
  induction ys with
  | nil => exact .nil
  | cons y ys ih => exact .right y ih

lemma append_left (h : Interleaving xs ys zs) (as : List α) : Interleaving (xs ++ as) ys (zs ++ as) := by
  induction h with
  | nil => exact left_only as
  | left x _ ih => exact .left x ih
  | right y _ ih => exact .right y ih

lemma append_right (h : Interleaving xs ys zs) (bs : List α) : Interleaving xs (ys ++ bs) (zs ++ bs) := by
  induction h with
  | nil => exact right_only bs
  | left x _ ih => exact .left x ih
  | right y _ ih => exact .right y ih

end Interleaving

end PocketKv.Library
