import Mathlib.Algebra.BigOperators.Group.List.Basic
import Mathlib.Data.List.AList
import Mathlib.Data.Multiset.AddSub
import Mathlib.Tactic

/-!
# Tables
-/

namespace PocketKv.Library

open List

variable {α β M : Type*} [AddCommMonoid M]

variable {s : AList fun _ : α => β}

/-- The sum of `f` over the values of a table. -/
def total (f : β → M) (s : AList fun _ : α => β) : M := (s.entries.map fun e => f e.2).sum

lemma mem_total {γ : Type*} {f : β → Multiset γ} {x : γ} : x ∈ total f s ↔ ∃ e ∈ s.entries, x ∈ f e.2 := by
  unfold total
  induction s.entries with
  | nil => simp
  | cons e es ih => simp [ih]

variable [DecidableEq α] {p : β → Prop} {a : α} {b : β}

lemma total_insert (f : β → M) (s : AList fun _ : α => β) (a : α) (b : β) :
    total f (s.insert a b) = f b + total f (s.erase a) := by
  rfl

lemma total_of_lookup (f : β → M) (h : s.lookup a = some b) : total f s = f b + total f (s.erase a) := by
  have hmem : a ∈ s.entries.keys := AList.mem_keys.mp (AList.lookup_isSome.mp (by simp [h]))
  obtain ⟨b', l₁, l₂, -, hl, hk⟩ := exists_of_kerase hmem
  have hb : b' = b := by
    have hb' : (⟨a, b'⟩ : Sigma fun _ : α => β) ∈ s.entries := by simp [hl]
    have := AList.mem_lookup_iff.mpr hb'
    rw [h] at this
    simpa using this.symm
  subst hb
  have herase : (s.erase a).entries = l₁ ++ l₂ := hk
  simp only [total, herase]
  rw [hl]
  simp only [map_append, map_cons, sum_append, sum_cons]
  abel

lemma lookup_insert_eq (s : AList fun _ : α => β) (a a' : α) (b : β) :
    (s.insert a b).lookup a' = if a' = a then some b else s.lookup a' := by
  split
  · rename_i h
    rw [h, AList.lookup_insert]
  · rename_i h
    rw [AList.lookup_insert_ne h]

lemma lookup_erase_eq (s : AList fun _ : α => β) (a a' : α) :
    (s.erase a).lookup a' = if a' = a then none else s.lookup a' := by
  split
  · rename_i h
    rw [h, AList.lookup_erase]
  · rename_i h
    rw [AList.lookup_erase_ne h]

lemma length_insert (s : AList fun _ : α => β) (a : α) (b : β) :
    (s.insert a b).keys.length = if (s.lookup a).isSome then s.keys.length else s.keys.length + 1 := by
  rw [AList.keys_insert, length_cons, length_erase]
  simp only [AList.lookup_isSome, AList.mem_keys]
  split
  · rename_i h
    have hpos := length_pos_of_mem h
    omega
  · rfl

lemma length_erase_le (s : AList fun _ : α => β) (a : α) : (s.erase a).keys.length ≤ s.keys.length := by
  rw [AList.keys_erase]
  exact List.length_erase_le

lemma erase_eq_self (h : s.lookup a = none) : s.erase a = s := by
  refine AList.ext ?_
  exact kerase_of_notMem_keys (AList.lookup_eq_none.mp h)

lemma forall_insert (hb : p b) (hs : ∀ e ∈ s.entries, p e.2) : ∀ e ∈ (s.insert a b).entries, p e.2 := by
  intro e he
  rw [AList.entries_insert, mem_cons] at he
  rcases he with rfl | he
  · exact hb
  · exact hs e ((kerase_sublist a s.entries).subset he)

lemma forall_erase (hs : ∀ e ∈ s.entries, p e.2) : ∀ e ∈ (s.erase a).entries, p e.2 :=
  fun e he => hs e ((kerase_sublist a s.entries).subset he)

lemma mem_of_lookup (h : s.lookup a = some b) : a ∈ s := AList.lookup_isSome.mp (h ▸ rfl)

lemma exists_lookup (h : a ∈ s) : ∃ b, s.lookup a = some b := Option.isSome_iff_exists.mp (AList.lookup_isSome.mpr h)

lemma of_lookup (h : s.lookup a = some b) (hs : ∀ e ∈ s.entries, p e.2) : p b :=
  hs _ (AList.mem_lookup_iff.mp h)

end PocketKv.Library
