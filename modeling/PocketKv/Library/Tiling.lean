import Mathlib.Tactic

/-!
# Tilings
-/

namespace PocketKv.Library

open List

variable {α : Type*} {n : ℕ} {ps : List (ℕ × List α)} {p : ℕ × List α}

/-- The items of all pieces. -/
def joined (ps : List (ℕ × List α)) : List α := ps.flatMap Prod.snd

/-- From `n` on, each piece begins where the one before it ends. -/
def Tiles (n : ℕ) : List (ℕ × List α) → Prop
  | [] => True
  | p :: ps => p.1 = n ∧ p.2 ≠ [] ∧ Tiles (n + p.2.length) ps

lemma joined_concat (ps : List (ℕ × List α)) (p : ℕ × List α) : joined (ps ++ [p]) = joined ps ++ p.2 := by
  simp [joined]

namespace Tiles

variable (h : Tiles n ps)
include h

lemma concat (hbase : p.1 = n + (joined ps).length) (hne : p.2 ≠ []) : Tiles n (ps ++ [p]) := by
  induction ps generalizing n with
  | nil => exact ⟨hbase, hne, trivial⟩
  | cons q ps ih =>
    obtain ⟨hq, hq', hps⟩ := h
    refine ⟨hq, hq', ih hps ?_⟩
    rw [hbase, joined, flatMap_cons, length_append, ← joined]
    omega

lemma le_of_mem (hp : p ∈ ps) : n ≤ p.1 := by
  induction ps generalizing n with
  | nil => cases hp
  | cons q ps ih =>
    obtain ⟨hq, -, hps⟩ := h
    rcases mem_cons.mp hp with rfl | hp
    · exact hq.ge
    · exact le_trans (Nat.le_add_right _ _) (ih hps hp)

lemma pairwise : ps.Pairwise fun p q => p.1 + p.2.length ≤ q.1 := by
  induction ps generalizing n with
  | nil => exact .nil
  | cons p ps ih =>
    obtain ⟨hp, -, hps⟩ := h
    refine .cons (fun q hq => ?_) (ih hps)
    rw [hp]
    exact hps.le_of_mem hq

lemma slice (hp : p ∈ ps) (rest : List α) : ((joined ps ++ rest).drop (p.1 - n)).take p.2.length = p.2 := by
  induction ps generalizing n with
  | nil => cases hp
  | cons q ps ih =>
    obtain ⟨hq, -, hps⟩ := h
    rw [joined, flatMap_cons, ← joined, append_assoc]
    rcases mem_cons.mp hp with rfl | hp
    · rw [hq, Nat.sub_self, drop_zero, take_left]
    · have hle := hps.le_of_mem hp
      have hdrop : p.1 - n = q.2.length + (p.1 - (n + q.2.length)) := by omega
      rw [hdrop, ← drop_drop, drop_left]
      exact ih hps hp

end Tiles

end PocketKv.Library
