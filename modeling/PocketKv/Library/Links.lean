import Mathlib.Data.List.Basic
import Mathlib.Tactic

/-!
# Singly linked lists
-/

namespace PocketKv.Library.Links

open List Function

variable {α : Type*}

/-- From `a` the pointers lead through the elements of the list, and then nowhere. -/
def Linked (next : α → Option α) : α → List α → Prop
  | a, [] => next a = none
  | a, b :: bs => next a = some b ∧ Linked next b bs

/-- The elements that the pointers lead through. -/
def walk (next : α → Option α) : ℕ → α → List α
  | 0, _ => []
  | fuel + 1, a =>
    match next a with
    | some b => b :: walk next fuel b
    | none => []

/-- The last element before the first one that `p` does not hold of. -/
def advance (next : α → Option α) (p : α → Bool) : ℕ → α → α
  | 0, a => a
  | fuel + 1, a =>
    match next a with
    | some b => if p b then advance next p fuel b else a
    | none => a

variable {next next' : α → Option α} {p : α → Bool} {a b : α} {xs ys zs : List α} {fuel : ℕ}

namespace Linked

lemma next_eq (h : Linked next a xs) : next a = xs.head? := by
  cases xs with
  | nil => exact h
  | cons b bs => exact h.1

lemma next_ne_none_iff (h : Linked next a xs) : next a ≠ none ↔ xs ≠ [] := by
  rw [h.next_eq, ne_eq, head?_eq_none_iff]

lemma walk (h : Linked next a xs) (hfuel : xs.length ≤ fuel) : walk next fuel a = xs := by
  induction xs generalizing a fuel with
  | nil =>
    cases fuel with
    | zero => rfl
    | succ fuel => rw [Links.walk, h.next_eq]; rfl
  | cons b bs ih =>
    obtain ⟨fuel, rfl⟩ : ∃ n, fuel = n + 1 := Nat.exists_eq_succ_of_ne_zero (by rw [length_cons] at hfuel; omega)
    have hrest : Links.walk next fuel b = bs := ih h.2 (by rw [length_cons] at hfuel; omega)
    rw [Links.walk, h.1]
    exact congrArg (b :: ·) hrest

lemma behind (h : Linked next a (xs ++ ys)) : Linked next (xs.getLastD a) ys := by
  induction xs generalizing a with
  | nil => exact h
  | cons b bs ih =>
    rw [getLastD_cons]
    exact ih h.2

lemma congr (h : Linked next a xs) (heq : ∀ b, b ∈ a :: xs → next' b = next b) : Linked next' a xs := by
  induction xs generalizing a with
  | nil => exact (heq a mem_cons_self).trans h
  | cons b bs ih => exact ⟨(heq a mem_cons_self).trans h.1, ih h.2 fun c hc => heq c (.tail _ hc)⟩

lemma advance (h : Linked next a xs) (hfuel : xs.length ≤ fuel) :
    advance next p fuel a = (xs.takeWhile p).getLastD a := by
  induction xs generalizing a fuel with
  | nil =>
    cases fuel with
    | zero => rfl
    | succ fuel => rw [Links.advance, h.next_eq]; rfl
  | cons b bs ih =>
    obtain ⟨fuel, rfl⟩ : ∃ n, fuel = n + 1 := Nat.exists_eq_succ_of_ne_zero (by rw [length_cons] at hfuel; omega)
    have hrest : Links.advance next p fuel b = (bs.takeWhile p).getLastD b :=
      ih h.2 (by rw [length_cons] at hfuel; omega)
    rw [Links.advance, h.1]
    by_cases hp : p b = true
    · rw [takeWhile_cons_of_pos hp, getLastD_cons, ← hrest]
      exact if_pos hp
    · rw [takeWhile_cons_of_neg hp]
      exact if_neg hp

variable [DecidableEq α]

lemma insert (h : Linked next a (xs ++ ys)) (hnodup : (a :: (xs ++ ys)).Nodup) (hb : b ∉ a :: (xs ++ ys)) :
    Linked (update (update next b (next (xs.getLastD a))) (xs.getLastD a) (some b)) a
      (xs ++ b :: ys) := by
  induction xs generalizing a with
  | nil =>
    have hab : b ≠ a := fun heq => hb (heq ▸ mem_cons_self)
    refine ⟨update_self .., ?_⟩
    have hbehind : Linked (update (update next b (next a)) a (some b)) b ys := by
      cases ys with
      | nil => rw [Linked, update_of_ne hab, update_self]; exact h
      | cons c cs =>
        refine ⟨?_, h.2.congr fun d hd => ?_⟩
        · rw [update_of_ne hab, update_self]
          exact h.1
        · have hda : d ≠ a := fun heq => (nodup_cons.mp hnodup).1 (heq ▸ hd)
          have hdb : d ≠ b := fun heq => hb (.tail _ (heq ▸ hd))
          rw [update_of_ne hda, update_of_ne hdb]
    exact hbehind
  | cons c cs ih =>
    rw [getLastD_cons]
    obtain ⟨hac, hnodup'⟩ := nodup_cons.mp hnodup
    have hlast : cs.getLastD c ∈ c :: (cs ++ ys) := cons_subset_cons c (subset_append_left cs ys) getLastD_mem_cons
    have hne : a ≠ cs.getLastD c := fun heq => hac (heq ▸ hlast)
    have hab : a ≠ b := fun heq => hb (heq ▸ mem_cons_self)
    refine ⟨?_, ih h.2 hnodup' fun hmem => hb (.tail _ hmem)⟩
    rw [update_of_ne hne, update_of_ne hab]
    exact h.1

lemma remove (h : Linked next a (xs ++ b :: ys)) (hnodup : (a :: (xs ++ b :: ys)).Nodup) :
    Linked (update next (xs.getLastD a) (next b)) a (xs ++ ys) := by
  induction xs generalizing a with
  | nil =>
    have hnotmem := (nodup_cons.mp hnodup).1
    change Linked (update next a (next b)) a ys
    cases ys with
    | nil =>
      rw [Linked, update_self]
      exact h.2
    | cons c cs =>
      refine ⟨(update_self ..).trans h.2.1, h.2.2.congr fun d hd => ?_⟩
      have hda : d ≠ a := fun heq => hnotmem (.tail _ (heq ▸ hd))
      exact update_of_ne hda ..
  | cons c cs ih =>
    rw [getLastD_cons]
    obtain ⟨hac, hnodup'⟩ := nodup_cons.mp hnodup
    have hlast : cs.getLastD c ∈ c :: (cs ++ b :: ys) :=
      cons_subset_cons c (subset_append_left cs _) getLastD_mem_cons
    have hne : a ≠ cs.getLastD c := fun heq => hac (heq ▸ hlast)
    exact ⟨(update_of_ne hne ..).trans h.1, ih h.2 hnodup'⟩

end Linked

/-! ### Those that come first -/

/-- Those that `p` holds of come first. -/
def Split (p : α → Bool) (xs : List α) : Prop := xs.Pairwise fun a b => p b = true → p a = true

namespace Split

lemma sublist (h : Split p xs) (hys : ys.Sublist xs) : Split p ys := List.Pairwise.sublist hys h

lemma takeWhile_eq (h : Split p xs) : xs.takeWhile p = xs.filter p := by
  induction xs with
  | nil => rfl
  | cons a xs ih =>
    obtain ⟨hfirst, hrest⟩ := pairwise_cons.mp h
    by_cases hp : p a = true
    · rw [takeWhile_cons_of_pos hp, filter_cons_of_pos hp, ih hrest]
    · have hnone : xs.filter p = [] := filter_eq_nil_iff.mpr fun b hb hpb => hp (hfirst b hb hpb)
      rw [takeWhile_cons_of_neg hp, filter_cons_of_neg hp, hnone]

lemma append_eq (h : Split p xs) : xs.filter p ++ xs.filter (fun a => !p a) = xs := by
  induction xs with
  | nil => rfl
  | cons a xs ih =>
    obtain ⟨hfirst, hrest⟩ := pairwise_cons.mp h
    by_cases hp : p a = true
    · rw [filter_cons_of_pos hp, filter_cons_of_neg (by simp [hp]), cons_append, ih hrest]
    · have hnone : xs.filter p = [] := filter_eq_nil_iff.mpr fun b hb hpb => hp (hfirst b hb hpb)
      have hrest' := ih hrest
      rw [hnone, nil_append] at hrest'
      rw [filter_cons_of_neg hp, filter_cons_of_pos (by simpa using hp), hnone, nil_append, hrest']

end Split

lemma getLastD_append (us vs : List α) (a : α) : (us ++ vs).getLastD a = vs.getLastD (us.getLastD a) := by
  induction us generalizing a with
  | nil => rfl
  | cons b us ih => rw [cons_append, getLastD_cons, getLastD_cons, ih]

lemma Linked.advance_from (h : Linked next a xs) (hsplit : Split p xs) (hzs : zs.Sublist (xs.filter p))
    (hfuel : xs.length ≤ fuel) : Links.advance next p fuel (zs.getLastD a) = (xs.filter p).getLastD a := by
  obtain ⟨us, vs, hfilter, hlast⟩ : ∃ us vs, xs.filter p = us ++ vs ∧ us.getLastD a = zs.getLastD a := by
    rcases eq_nil_or_concat' zs with rfl | ⟨zs', z, rfl⟩
    · exact ⟨[], _, rfl, rfl⟩
    · have hz : z ∈ xs.filter p := hzs.subset (mem_append_right _ mem_cons_self)
      obtain ⟨us, vs, hfilter⟩ := append_of_mem hz
      exact ⟨us ++ [z], vs, by simp [hfilter], by simp⟩
  have hxs : us ++ (vs ++ xs.filter fun a => !p a) = xs := by
    rw [← append_assoc, ← hfilter, hsplit.append_eq]
  have hbehind : Linked next (zs.getLastD a) (vs ++ xs.filter fun a => !p a) := by
    rw [← hlast]
    exact (hxs.symm ▸ h : Linked next a (us ++ _)).behind
  have hlength : (vs ++ xs.filter fun a => !p a).length ≤ fuel := by
    refine le_trans ?_ hfuel
    conv_rhs => rw [← hxs, length_append]
    omega
  have htake : (vs ++ xs.filter fun a => !p a).takeWhile p = vs := by
    have hsub : (vs ++ xs.filter fun a => !p a).Sublist xs := by
      conv_rhs => rw [← hxs]
      exact sublist_append_right us _
    have hvs : ∀ b ∈ vs, p b = true := fun b hb =>
      (mem_filter.mp (hfilter ▸ mem_append_right us hb : b ∈ xs.filter p)).2
    rw [(hsplit.sublist hsub).takeWhile_eq, filter_append, filter_eq_self.mpr hvs]
    simp
  rw [hbehind.advance hlength, htake, hfilter, ← hlast]
  exact (getLastD_append us vs a).symm

end PocketKv.Library.Links
