import Mathlib.Algebra.BigOperators.Group.Finset.Basic
import Mathlib.Algebra.Order.BigOperators.Group.Finset
import PocketKv.Library.Table

/-!
# Chained tables
-/

namespace PocketKv.Library

open List Function

/-! ### Chains -/

section Chains

variable {α : Type*} {chains : ℕ → List α} {n i : ℕ}

/-- The items of the first `n` chains. -/
def contents (chains : ℕ → List α) (n : ℕ) : Multiset α := ∑ i ∈ Finset.range n, (chains i : Multiset α)

variable {l : List α} {a : α} {p : α → Bool}

lemma mem_contents : a ∈ contents chains n ↔ ∃ i, i < n ∧ a ∈ chains i := by
  simp [contents, Multiset.mem_sum]

lemma contents_nil (n : ℕ) : contents (fun _ => ([] : List α)) n = 0 := by
  simp [contents]

lemma contents_eq_coe (chains : ℕ → List α) (n : ℕ) : contents chains n = ((List.range n).flatMap chains : List α) := by
  induction n with
  | zero => rfl
  | succ n ih =>
    rw [contents, Finset.sum_range_succ, ← contents, ih, range_succ, flatMap_append, ← Multiset.coe_add]
    simp

lemma contents_update (hi : i < n) (l : List α) :
    contents (update chains i l) n + (chains i : Multiset α) = contents chains n + (l : Multiset α) := by
  have hmem : i ∈ Finset.range n := Finset.mem_range.mpr hi
  have hrest : ∑ j ∈ (Finset.range n).erase i, (update chains i l j : Multiset α) =
      ∑ j ∈ (Finset.range n).erase i, (chains j : Multiset α) := by
    refine Finset.sum_congr rfl fun j hj => ?_
    rw [update_of_ne (Finset.ne_of_mem_erase hj)]
  rw [contents, contents, ← Finset.add_sum_erase _ _ hmem, ← Finset.add_sum_erase _ (fun j => (chains j : Multiset α)) hmem,
    hrest, update_self]
  abel

lemma chain_le_contents (hi : i < n) : (chains i : Multiset α) ≤ contents chains n := by
  have h : contents (update chains i []) n + (chains i : Multiset α) = contents chains n + ([] : List α) :=
    contents_update hi []
  rw [Multiset.coe_nil, add_zero] at h
  exact h ▸ Multiset.le_add_left _ _

/-- Changes the first item that `p` holds of. -/
def modifyFirst (p : α → Bool) (f : α → α) : List α → List α
  | [] => []
  | a :: as => if p a then f a :: as else a :: modifyFirst p f as

lemma coe_modifyFirst (f : α → α) (h : l.find? p = some a) :
    (modifyFirst p f l : Multiset α) + {a} = (l : Multiset α) + {f a} := by
  induction l with
  | nil => cases h
  | cons b l ih =>
    rw [find?_cons] at h
    rw [modifyFirst]
    cases hb : p b with
    | true =>
      simp only [hb, Option.some.injEq] at h
      subst h
      simp only [if_true, ← Multiset.cons_coe, ← Multiset.singleton_add]
      abel
    | false =>
      simp only [hb] at h
      simp only [Bool.false_eq_true, if_false, ← Multiset.cons_coe, ← Multiset.singleton_add, add_assoc]
      rw [ih h]

lemma coe_eraseP (h : l.find? p = some a) : (l.eraseP p : Multiset α) + {a} = (l : Multiset α) := by
  induction l with
  | nil => cases h
  | cons b l ih =>
    rw [find?_cons] at h
    rw [eraseP_cons]
    cases hb : p b with
    | true =>
      simp only [hb, Option.some.injEq] at h
      subst h
      simp only [cond_true, ← Multiset.cons_coe, ← Multiset.singleton_add]
      abel
    | false =>
      simp only [hb] at h
      simp only [cond_false, ← Multiset.cons_coe, ← Multiset.singleton_add, add_assoc]
      rw [ih h]

end Chains

/-! ### Items in the chains of their keys -/

section Placed

variable {α κ : Type*} {key : α → κ} {slot : κ → ℕ} {chains : ℕ → List α} {n : ℕ} {a : α} {k : κ}

/-- The items are in the chains that their keys select, and no two of them have the same key. -/
structure Placed (key : α → κ) (slot : κ → ℕ) (chains : ℕ → List α) (n : ℕ) : Prop where
  slot_lt : ∀ k, slot k < n
  placed : ∀ i a, i < n → a ∈ chains i → i = slot (key a)
  nodup : ((contents chains n).map key).Nodup

lemma placed_nil (key : α → κ) (h : ∀ k, slot k < n) : Placed key slot (fun _ => []) n :=
  ⟨h, fun _ _ _ hmem => (by cases hmem), by simp [contents_nil]⟩

namespace Placed

section

variable (h : Placed key slot chains n)
include h

lemma mem_chain (ha : a ∈ contents chains n) : a ∈ chains (slot (key a)) := by
  obtain ⟨i, hi, hmem⟩ := mem_contents.mp ha
  rwa [← h.placed i a hi hmem]

lemma mem_of_chain (ha : a ∈ chains (slot k)) : a ∈ contents chains n :=
  mem_contents.mpr ⟨slot k, h.slot_lt k, ha⟩

lemma rechain (hl : ∀ a, a ∈ l → key a = k ∨ a ∈ chains (slot k))
    (hnodup : ((contents (update chains (slot k) l) n).map key).Nodup) :
    Placed key slot (update chains (slot k) l) n := by
  refine ⟨h.slot_lt, fun i a hi ha => ?_, hnodup⟩
  by_cases heq : i = slot k
  · subst heq
    rw [update_self] at ha
    rcases hl a ha with rfl | ha
    · rfl
    · exact h.placed _ a hi ha
  · rw [update_of_ne heq] at ha
    exact h.placed i a hi ha

lemma cons (hnew : ∀ b, b ∈ contents chains n → key b ≠ key a) :
    Placed key slot (update chains (slot (key a)) (a :: chains (slot (key a)))) n ∧
      contents (update chains (slot (key a)) (a :: chains (slot (key a)))) n = a ::ₘ contents chains n := by
  have hall : contents (update chains (slot (key a)) (a :: chains (slot (key a)))) n +
      (chains (slot (key a)) : Multiset α) = contents chains n + (a :: chains (slot (key a)) : List α) :=
    contents_update (h.slot_lt _) _
  rw [← Multiset.cons_coe, Multiset.add_cons, ← Multiset.cons_add] at hall
  have heq := add_right_cancel hall
  refine ⟨h.rechain (fun b hb => ?_) ?_, heq⟩
  · rcases mem_cons.mp hb with rfl | hb
    · exact .inl rfl
    · exact .inr hb
  · rw [heq, Multiset.map_cons, Multiset.nodup_cons]
    refine ⟨fun hmem => ?_, h.nodup⟩
    obtain ⟨b, hb, hkey⟩ := Multiset.mem_map.mp hmem
    exact hnew b hb hkey

lemma foldl_cons (l : List α) (hnodup : (((l : Multiset α) + contents chains n).map key).Nodup) :
    Placed key slot (l.foldl (fun cs a => update cs (slot (key a)) (a :: cs (slot (key a)))) chains) n ∧
      contents (l.foldl (fun cs a => update cs (slot (key a)) (a :: cs (slot (key a)))) chains) n =
        (l : Multiset α) + contents chains n := by
  induction l generalizing chains with
  | nil => exact ⟨h, by simp⟩
  | cons a l ih =>
    have hnew : ∀ b, b ∈ contents chains n → key b ≠ key a := by
      intro b hb heq
      rw [← Multiset.cons_coe, Multiset.cons_add, Multiset.map_cons, Multiset.nodup_cons] at hnodup
      exact hnodup.1 (heq ▸ Multiset.mem_map_of_mem key (Multiset.mem_add.mpr (.inr hb)))
    obtain ⟨h', hall⟩ := h.cons hnew
    have hsplit : (l : Multiset α) + a ::ₘ contents chains n = ((a :: l : List α) : Multiset α) + contents chains n := by
      rw [← Multiset.cons_coe, Multiset.add_cons, Multiset.cons_add]
    rw [← hsplit, ← hall] at hnodup
    obtain ⟨hplaced, hcontents⟩ := ih h' hnodup
    exact ⟨hplaced, by rw [List.foldl_cons, hcontents, hall, hsplit]⟩

end

variable [DecidableEq κ] {f : α → α}

variable (h : Placed key slot chains n)
include h

lemma find_iff :
    (chains (slot k)).find? (fun b => decide (key b = k)) = some a ↔ a ∈ contents chains n ∧ key a = k := by
  constructor
  · intro hfind
    exact ⟨h.mem_of_chain (mem_of_find?_eq_some hfind), by simpa using find?_some hfind⟩
  · rintro ⟨ha, rfl⟩
    cases hfind : (chains (slot (key a))).find? (fun b => decide (key b = key a)) with
    | none =>
      have := find?_eq_none.mp hfind a (h.mem_chain ha)
      simp at this
    | some b =>
      have hb : key b = key a := by simpa using find?_some hfind
      rw [Multiset.inj_on_of_nodup_map h.nodup b (h.mem_of_chain (mem_of_find?_eq_some hfind)) a ha hb]

lemma find_none_iff :
    (chains (slot k)).find? (fun b => decide (key b = k)) = none ↔ ∀ a, a ∈ contents chains n → key a ≠ k := by
  constructor
  · intro hfind a ha hk
    rw [h.find_iff.mpr ⟨ha, hk⟩] at hfind
    cases hfind
  · intro hall
    cases hfind : (chains (slot k)).find? (fun b => decide (key b = k)) with
    | none => rfl
    | some a => exact absurd (h.find_iff.mp hfind).2 (hall a (h.find_iff.mp hfind).1)

lemma erase (ha : a ∈ contents chains n)
    (hl : l = (chains (slot (key a))).eraseP fun b => decide (key b = key a)) :
    Placed key slot (update chains (slot (key a)) l) n ∧
      contents chains n = a ::ₘ contents (update chains (slot (key a)) l) n := by
  have hchain : (l : Multiset α) + {a} = (chains (slot (key a)) : Multiset α) := by
    rw [hl]
    exact coe_eraseP (h.find_iff.mpr ⟨ha, rfl⟩)
  have hall : contents (update chains (slot (key a)) l) n + (chains (slot (key a)) : Multiset α) =
      contents chains n + (l : Multiset α) := contents_update (h.slot_lt _) _
  have heq : contents chains n = a ::ₘ contents (update chains (slot (key a)) l) n := by
    rw [← hchain, add_left_comm, add_comm] at hall
    rw [← add_right_cancel hall, add_comm, Multiset.singleton_add]
  refine ⟨h.rechain (fun b hb => .inr (mem_of_mem_eraseP (hl ▸ hb))) ?_, heq⟩
  have hnodup := h.nodup
  rw [heq, Multiset.map_cons, Multiset.nodup_cons] at hnodup
  exact hnodup.2

lemma modify (ha : a ∈ contents chains n) (hf : key (f a) = key a)
    (hl : l = modifyFirst (fun b => decide (key b = key a)) f (chains (slot (key a)))) :
    Placed key slot (update chains (slot (key a)) l) n ∧
      a ::ₘ contents (update chains (slot (key a)) l) n = f a ::ₘ contents chains n := by
  have hchain : (l : Multiset α) + {a} = (chains (slot (key a)) : Multiset α) + {f a} := by
    rw [hl]
    exact coe_modifyFirst f (h.find_iff.mpr ⟨ha, rfl⟩)
  have hall : contents (update chains (slot (key a)) l) n + (chains (slot (key a)) : Multiset α) =
      contents chains n + (l : Multiset α) := contents_update (h.slot_lt _) _
  have heq : a ::ₘ contents (update chains (slot (key a)) l) n = f a ::ₘ contents chains n := by
    refine add_right_cancel (b := (chains (slot (key a)) : Multiset α)) ?_
    calc a ::ₘ contents (update chains (slot (key a)) l) n + (chains (slot (key a)) : Multiset α)
        = contents chains n + ((l : Multiset α) + {a}) := by
          rw [Multiset.cons_add, hall, ← Multiset.singleton_add]
          abel
      _ = f a ::ₘ contents chains n + (chains (slot (key a)) : Multiset α) := by
          rw [hchain, ← Multiset.singleton_add]
          abel
  refine ⟨h.rechain (fun b hb => ?_) ?_, heq⟩
  · have hmem : b ∈ (chains (slot (key a)) : Multiset α) + {f a} :=
      hchain ▸ Multiset.mem_add.mpr (.inl (Multiset.mem_coe.mpr hb))
    rcases Multiset.mem_add.mp hmem with hmem | hmem
    · exact .inr (Multiset.mem_coe.mp hmem)
    · exact .inl (Multiset.mem_singleton.mp hmem ▸ hf)
  · have hkeys := congrArg (Multiset.map key) heq
    rw [Multiset.map_cons, Multiset.map_cons, hf] at hkeys
    rw [(Multiset.cons_inj_right _).mp hkeys]
    exact h.nodup

/-! #### What is found afterwards -/

lemma find_congr {chains' : ℕ → List α} (h' : Placed key slot chains' n)
    (hk : ∀ b, key b = k → (b ∈ contents chains' n ↔ b ∈ contents chains n)) :
    (chains' (slot k)).find? (fun b => decide (key b = k)) = (chains (slot k)).find? fun b => decide (key b = k) := by
  refine Option.ext fun b => ?_
  rw [h'.find_iff, h.find_iff]
  exact and_congr_left (hk b)

lemma find_cons (hnew : ∀ b, b ∈ contents chains n → key b ≠ key a) (k : κ) :
    (update chains (slot (key a)) (a :: chains (slot (key a))) (slot k)).find? (fun b => decide (key b = k)) =
      if k = key a then some a else (chains (slot k)).find? fun b => decide (key b = k) := by
  obtain ⟨h', hall⟩ := h.cons hnew
  split
  · rename_i hk
    subst hk
    exact h'.find_iff.mpr ⟨hall ▸ Multiset.mem_cons_self _ _, rfl⟩
  · rename_i hk
    refine h.find_congr h' fun b hb => ?_
    rw [hall, Multiset.mem_cons]
    exact or_iff_right fun heq => hk (by rw [← hb, heq])

lemma find_erase (ha : a ∈ contents chains n) (k : κ)
    (hl : l = (chains (slot (key a))).eraseP fun b => decide (key b = key a)) :
    (update chains (slot (key a)) l (slot k)).find? (fun b => decide (key b = k)) =
      if k = key a then none else (chains (slot k)).find? fun b => decide (key b = k) := by
  obtain ⟨h', hall⟩ := h.erase ha hl
  have hnodup := h.nodup
  rw [hall, Multiset.map_cons, Multiset.nodup_cons, Multiset.mem_map] at hnodup
  split
  · rename_i hk
    subst hk
    exact h'.find_none_iff.mpr fun b hb hkey => hnodup.1 ⟨b, hb, hkey⟩
  · rename_i hk
    refine h.find_congr h' fun b hb => ?_
    rw [hall, Multiset.mem_cons]
    exact (or_iff_right fun heq => hk (by rw [← hb, heq])).symm

lemma find_modify (ha : a ∈ contents chains n) (hf : key (f a) = key a) (k : κ)
    (hl : l = modifyFirst (fun b => decide (key b = key a)) f (chains (slot (key a)))) :
    (update chains (slot (key a)) l (slot k)).find? (fun b => decide (key b = k)) =
      if k = key a then some (f a) else (chains (slot k)).find? fun b => decide (key b = k) := by
  obtain ⟨h', hall⟩ := h.modify ha hf hl
  have hmem : ∀ b, key b ≠ key a → (b ∈ contents (update chains (slot (key a)) l) n ↔ b ∈ contents chains n) := by
    intro b hb
    have hiff : b ∈ a ::ₘ contents (update chains (slot (key a)) l) n ↔ b ∈ f a ::ₘ contents chains n := by
      rw [hall]
    rw [Multiset.mem_cons, Multiset.mem_cons] at hiff
    have hba : b ≠ a := fun heq => hb (by rw [heq])
    have hbf : b ≠ f a := fun heq => hb (by rw [heq, hf])
    simpa [hba, hbf] using hiff
  split
  · rename_i hk
    subst hk
    refine h'.find_iff.mpr ⟨?_, hf⟩
    have hfa : f a ∈ a ::ₘ contents (update chains (slot (key a)) l) n := hall ▸ Multiset.mem_cons_self _ _
    rcases Multiset.mem_cons.mp hfa with heq | hfa
    · rw [heq] at hall ⊢
      rw [(Multiset.cons_inj_right a).mp hall]
      exact ha
    · exact hfa
  · rename_i hk
    exact h.find_congr h' fun b hb => hmem b (hb ▸ hk)

end Placed

end Placed

/-! ### Finite maps -/

section Represents

variable {α κ ν : Type*} [DecidableEq κ] {key : α → κ} {val : α → ν} {S S' : Multiset α} {m : AList fun _ : κ => ν}

/-- The items are the entries of a finite map. -/
structure Represents (key : α → κ) (val : α → ν) (S : Multiset α) (m : AList fun _ : κ => ν) : Prop where
  nodup : (S.map key).Nodup
  lookup : ∀ k v, m.lookup k = some v ↔ ∃ a, a ∈ S ∧ key a = k ∧ val a = v

lemma represents_zero : Represents key val 0 (∅ : AList fun _ : κ => ν) :=
  ⟨by simp, by simp⟩

namespace Represents

section

variable (h : Represents key val S m)
include h

lemma lookup_of_mem (ha : a ∈ S) : m.lookup (key a) = some (val a) :=
  (h.lookup _ _).mpr ⟨a, ha, rfl, rfl⟩

lemma lookup_of_notMem {k : κ} (hk : ∀ a, a ∈ S → key a ≠ k) : m.lookup k = none := by
  cases hl : m.lookup k with
  | none => rfl
  | some v =>
    obtain ⟨a, ha, hak, -⟩ := (h.lookup k v).mp hl
    exact absurd hak (hk a ha)

lemma eq_of_key {a' : α} (ha : a ∈ S) (ha' : a' ∈ S) (hk : key a = key a') : a = a' :=
  Multiset.inj_on_of_nodup_map h.nodup a ha a' ha' hk

lemma map_key : S.map key = (m.keys : Multiset κ) := by
  refine (h.nodup.ext (Multiset.coe_nodup.mpr m.keys_nodup)).mpr fun k => ?_
  rw [Multiset.mem_coe, ← AList.mem_keys, ← AList.lookup_isSome, Option.isSome_iff_exists, Multiset.mem_map]
  constructor
  · rintro ⟨a, ha, rfl⟩
    exact ⟨val a, h.lookup_of_mem ha⟩
  · rintro ⟨v, hv⟩
    obtain ⟨a, ha, hk, -⟩ := (h.lookup k v).mp hv
    exact ⟨a, ha, hk⟩

lemma card : S.card = m.keys.length := by
  rw [← Multiset.card_map key, h.map_key, Multiset.coe_card]

lemma insert (hk : ∀ b, b ∈ S → key b ≠ key a) : Represents key val (S + {a}) (m.insert (key a) (val a)) := by
  constructor
  · rw [Multiset.map_add, Multiset.map_singleton, Multiset.add_comm, Multiset.singleton_add, Multiset.nodup_cons]
    refine ⟨fun hmem => ?_, h.nodup⟩
    obtain ⟨b, hb, hkey⟩ := Multiset.mem_map.mp hmem
    exact hk b hb hkey
  · intro k v
    rw [lookup_insert_eq]
    split
    · rename_i hkk
      subst hkk
      simp only [Option.some.injEq, Multiset.mem_add, Multiset.mem_singleton]
      constructor
      · rintro rfl
        exact ⟨a, .inr rfl, rfl, rfl⟩
      · rintro ⟨b, hb | rfl, hkey, rfl⟩
        · exact absurd hkey (hk b hb)
        · rfl
    · rename_i hkk
      rw [h.lookup]
      simp only [Multiset.mem_add, Multiset.mem_singleton]
      constructor
      · rintro ⟨b, hb, hkey, hval⟩
        exact ⟨b, .inl hb, hkey, hval⟩
      · rintro ⟨b, hb | rfl, hkey, hval⟩
        · exact ⟨b, hb, hkey, hval⟩
        · exact absurd hkey.symm hkk

end

lemma erase (h : Represents key val (S + {a}) m) : Represents key val S (m.erase (key a)) := by
  have hnodup := h.nodup
  rw [Multiset.map_add, Multiset.map_singleton, Multiset.add_comm, Multiset.singleton_add,
    Multiset.nodup_cons] at hnodup
  refine ⟨hnodup.2, fun k v => ?_⟩
  rw [lookup_erase_eq]
  split
  · rename_i hk
    subst hk
    simp only [reduceCtorEq, false_iff, not_exists, not_and]
    intro b hb hkey
    exact absurd (Multiset.mem_map.mpr ⟨b, hb, hkey⟩) hnodup.1
  · rename_i hk
    rw [h.lookup]
    simp only [Multiset.mem_add, Multiset.mem_singleton]
    constructor
    · rintro ⟨b, hb | rfl, hkey, hval⟩
      · exact ⟨b, hb, hkey, hval⟩
      · exact absurd hkey.symm hk
    · rintro ⟨b, hb, hkey, hval⟩
      exact ⟨b, .inl hb, hkey, hval⟩

lemma replace (h : Represents key val S m) {a' : α} (heq : S' + {a} = S + {a'}) (ha : a ∈ S)
    (hk : key a' = key a) : Represents key val S' (m.insert (key a) (val a')) := by
  obtain ⟨T, rfl⟩ : ∃ T, S = T + {a} := by
    obtain ⟨T, rfl⟩ := Multiset.exists_cons_of_mem ha
    exact ⟨T, by rw [Multiset.add_comm, Multiset.singleton_add]⟩
  have hS' : S' = T + {a'} := by
    refine add_right_cancel (b := {a}) (heq.trans ?_)
    abel
  have herase := h.erase
  have hnew : ∀ b, b ∈ T → key b ≠ key a' := by
    intro b hb hkey
    have hl := herase.lookup_of_mem hb
    rw [hkey, hk, AList.lookup_erase] at hl
    cases hl
  have hins := herase.insert hnew
  rw [← hS', hk] at hins
  refine ⟨hins.nodup, fun k v => ?_⟩
  rw [← hins.lookup, lookup_insert_eq, lookup_insert_eq, lookup_erase_eq]
  split
  · rfl
  · rfl

end Represents

end Represents

end PocketKv.Library
