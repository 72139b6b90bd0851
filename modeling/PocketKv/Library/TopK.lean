import Mathlib.Data.List.DropRight
import Mathlib.Data.List.Sort
import Mathlib.Tactic

/-!
# The best few of a list
-/

namespace PocketKv.Library

open List

variable {α : Type*} (r : α → α → Prop) [DecidableRel r] (k : ℕ)

variable {l : List α}

/-- The best `k` stand with the worst first; `r a b` says that `a` is not better than `b`. -/
def offer (best : List α) (a : α) : List α :=
  if best.length < k then best.orderedInsert r a
  else match best with
    | [] => []
    | worst :: rest => if r a worst then worst :: rest else rest.orderedInsert r a

/-- The best `k` items of a list, the best first. -/
def topK (l : List α) : List α := (l.foldl (offer r k) []).reverse

/-- All items, sorted by insertion. -/
def ranked (l : List α) : List α := l.foldl (fun acc a => acc.orderedInsert r a) []

variable {r k} {a : α} {best : List α}

lemma ranked_concat (l : List α) (a : α) : ranked r (l ++ [a]) = (ranked r l).orderedInsert r a := by
  rw [ranked, foldl_append]
  rfl

lemma perm_ranked (l : List α) : (ranked r l).Perm l := by
  induction l using List.reverseRecOn with
  | nil => exact .refl _
  | append_singleton l a ih =>
    rw [ranked_concat]
    exact (perm_orderedInsert r a _).trans ((ih.cons a).trans (perm_append_singleton a l).symm)

lemma rtake_of_le (h : l.length ≤ k) : l.rtake k = l := by
  rw [List.rtake, Nat.sub_eq_zero_of_le h, drop_zero]

lemma rtake_append_of_length {top : List α} (h : top.length = k) : (l ++ top).rtake k = top := by
  rw [List.rtake, length_append, h, Nat.add_sub_cancel]
  exact drop_left

lemma exists_rtake (h : k ≤ l.length) : ∃ rest top, l = rest ++ top ∧ top.length = k ∧ l.rtake k = top :=
  ⟨l.take (l.length - k), l.drop (l.length - k), (take_append_drop _ _).symm, by
    rw [length_drop]
    omega, rfl⟩

lemma orderedInsert_append_of_not {l' : List α} (h : ∀ b, b ∈ l → ¬ r a b) :
    (l ++ l').orderedInsert r a = l ++ l'.orderedInsert r a := by
  induction l with
  | nil => rfl
  | cons b l ih =>
    rw [cons_append, orderedInsert_of_not_le r _ (h b mem_cons_self), ih fun c hc => h c (mem_cons_of_mem b hc)]
    rfl

lemma orderedInsert_append_cons (l l' : List α) {a b : α} (h : r a b) :
    ∃ l₁, (l ++ b :: l').orderedInsert r a = l₁ ++ b :: l' := by
  induction l with
  | nil => exact ⟨[a], orderedInsert_cons_of_le r l' h⟩
  | cons c l ih =>
    obtain ⟨l₁, hl⟩ := ih
    rw [cons_append, orderedInsert_cons]
    split
    · exact ⟨a :: c :: l, rfl⟩
    · exact ⟨c :: l₁, by rw [hl]; rfl⟩

lemma mem_of_mem_offer {a b : α} (h : b ∈ offer r k best a) : b = a ∨ b ∈ best := by
  unfold offer at h
  split at h
  · exact mem_orderedInsert r |>.mp h
  · split at h
    · exact .inr h
    · split at h
      · exact .inr h
      · exact ((mem_orderedInsert r).mp h).imp_right (mem_cons_of_mem _)

section Congr

variable {r' : α → α → Prop} [DecidableRel r']

lemma orderedInsert_congr (h : ∀ b, b ∈ l → (r a b ↔ r' a b)) : l.orderedInsert r a = l.orderedInsert r' a := by
  induction l with
  | nil => rfl
  | cons b l ih =>
    rw [orderedInsert_cons, orderedInsert_cons, ih fun c hc => h c (mem_cons_of_mem b hc)]
    exact if_congr (h b mem_cons_self) rfl rfl

lemma offer_congr (h : ∀ b, b ∈ best → (r a b ↔ r' a b)) : offer r k best a = offer r' k best a := by
  unfold offer
  split
  · exact orderedInsert_congr h
  · cases best with
    | nil => rfl
    | cons worst rest =>
      simp only [h worst mem_cons_self]
      rw [orderedInsert_congr fun b hb => h b (mem_cons_of_mem worst hb)]

lemma topK_congr (h : ∀ a, a ∈ l → ∀ b, b ∈ l → (r a b ↔ r' a b)) : topK r k l = topK r' k l := by
  suffices hscan : ∀ l' : List α, l' ⊆ l → l'.foldl (offer r k) [] = l'.foldl (offer r' k) [] ∧ l'.foldl (offer r k) [] ⊆ l from
    congrArg List.reverse (hscan l (List.Subset.refl l)).1
  intro l' hsub
  induction l' using List.reverseRecOn with
  | nil => exact ⟨rfl, nil_subset l⟩
  | append_singleton l' a ih =>
    obtain ⟨hl', ha⟩ := append_subset.mp hsub
    have ha : a ∈ l := ha mem_cons_self
    obtain ⟨heq, hbest⟩ := ih hl'
    rw [foldl_append, foldl_append, ← heq]
    refine ⟨offer_congr fun b hb => h a ha b (hbest hb), fun b hb => ?_⟩
    rcases mem_of_mem_offer hb with rfl | hb
    · exact ha
    · exact hbest hb

end Congr

section Preorder

variable [IsTrans α r]

lemma offer_rtake (hl : l.Pairwise r) (a : α) : offer r k (l.rtake k) a = (l.orderedInsert r a).rtake k := by
  unfold offer
  by_cases hk : l.length < k
  · rw [rtake_of_le (by omega), if_pos hk, rtake_of_le (by rw [orderedInsert_length]; omega)]
  · obtain ⟨rest, top, rfl, htop, hrtake⟩ := exists_rtake (not_lt.mp hk)
    rw [hrtake, if_neg (by omega)]
    cases top with
    | nil =>
      obtain rfl : k = 0 := htop.symm
      rw [rtake_zero]
    | cons worst top =>
      by_cases ha : r a worst
      · obtain ⟨l₁, heq⟩ := orderedInsert_append_cons rest top ha
        rw [heq, rtake_append_of_length htop]
        exact if_pos ha
      · have hrest : ∀ b, b ∈ rest ++ [worst] → ¬ r a b := by
          intro b hb hab
          rcases mem_append.mp hb with hb | hb
          · exact ha (IsTrans.trans a b worst hab ((pairwise_append.mp hl).2.2 b hb worst mem_cons_self))
          · exact ha (mem_singleton.mp hb ▸ hab)
        rw [List.append_cons, orderedInsert_append_of_not hrest, rtake_append_of_length]
        · exact if_neg ha
        · rw [orderedInsert_length, ← htop, length_cons]

lemma filter_orderedInsert (p : α → Bool) (hl : l.Pairwise r) (a : α) :
    (l.orderedInsert r a).filter p = if p a then (l.filter p).orderedInsert r a else l.filter p := by
  induction l with
  | nil => cases hp : p a <;> simp [hp]
  | cons b l ih =>
    obtain ⟨hb, hl⟩ := pairwise_cons.mp hl
    rw [orderedInsert_cons]
    split
    · rename_i hab
      have hall : ∀ c, c ∈ (b :: l).filter p → r a c := by
        intro c hc
        rcases mem_cons.mp (mem_filter.mp hc).1 with rfl | hc
        · exact hab
        · exact IsTrans.trans a b c hab (hb c hc)
      rw [filter_cons]
      split
      · cases hf : (b :: l).filter p with
        | nil => rfl
        | cons c cs => rw [orderedInsert_cons_of_le r cs (hall c (hf ▸ mem_cons_self))]
      · rfl
    · rename_i hab
      rw [filter_cons, filter_cons, ih hl]
      split
      · split
        · rw [orderedInsert_of_not_le r _ hab]
        · rfl
      · rfl

lemma exists_orderedInsert (hl : l.Pairwise r) (x : α) :
    ∃ lo hi, l.orderedInsert r x = lo ++ x :: hi ∧ hi.length = l.countP fun b => decide (r x b) := by
  induction l with
  | nil => exact ⟨[], [], rfl, rfl⟩
  | cons b l ih =>
    obtain ⟨hb, hl⟩ := pairwise_cons.mp hl
    by_cases hxb : r x b
    · refine ⟨[], b :: l, orderedInsert_cons_of_le r l hxb, (countP_eq_length.mpr fun c hc => ?_).symm⟩
      rcases mem_cons.mp hc with rfl | hc
      · exact decide_eq_true hxb
      · exact decide_eq_true (IsTrans.trans x b c hxb (hb c hc))
    · obtain ⟨lo, hi, heq, hlen⟩ := ih hl
      refine ⟨b :: lo, hi, ?_, ?_⟩
      · rw [orderedInsert_of_not_le r l hxb, heq]
        rfl
      · rw [hlen, countP_cons_of_neg (by simpa using hxb)]

variable [Std.Total r]

lemma pairwise_ranked (l : List α) : (ranked r l).Pairwise r := by
  induction l using List.reverseRecOn with
  | nil => exact .nil
  | append_singleton l a ih =>
    rw [ranked_concat]
    exact ih.orderedInsert a _

lemma foldl_offer (l : List α) : l.foldl (offer r k) [] = (ranked r l).rtake k := by
  induction l using List.reverseRecOn with
  | nil => exact (rtake_nil k).symm
  | append_singleton l a ih =>
    rw [foldl_append, ih, ranked_concat]
    exact offer_rtake (pairwise_ranked l) a

lemma topK_spec (l : List α) : ∃ rest, (topK r k l ++ rest).Perm l ∧ (topK r k l).length = min k l.length ∧
    (topK r k l).Pairwise (fun a b => r b a) ∧ ∀ x ∈ rest, ∀ y ∈ topK r k l, r x y := by
  obtain ⟨rest, heq⟩ : ∃ rest, ranked r l = rest ++ (ranked r l).rtake k := ⟨_, (take_append_drop _ _).symm⟩
  have hsorted := pairwise_ranked (r := r) l
  have hlen : (ranked r l).length = l.length := (perm_ranked l).length_eq
  rw [topK, foldl_offer]
  rw [heq, pairwise_append] at hsorted
  refine ⟨rest, ?_, ?_, pairwise_reverse.mpr hsorted.2.1, fun x hx y hy => hsorted.2.2 x hx y (mem_reverse.mp hy)⟩
  · have hperm : (rest ++ ((ranked r l).rtake k).reverse).Perm (ranked r l) :=
      ((reverse_perm _).append_left rest).trans (.of_eq heq.symm)
    exact (perm_append_comm.trans hperm).trans (perm_ranked l)
  · rw [length_reverse, List.rtake, length_drop, hlen]
    omega

lemma ranked_filter (p : α → Bool) (l : List α) : ranked r (l.filter p) = (ranked r l).filter p := by
  induction l using List.reverseRecOn with
  | nil => rfl
  | append_singleton l a ih =>
    rw [ranked_concat, filter_orderedInsert p (pairwise_ranked l), filter_append, ← ih]
    cases hp : p a with
    | true => rw [filter_cons_of_pos hp, filter_nil, ranked_concat, if_pos rfl]
    | false => rw [filter_cons_of_neg (by simp [hp]), filter_nil, append_nil, if_neg Bool.false_ne_true]

lemma exists_ranked_append (l : List α) (x : α) (l' : List α) :
    ∃ lo hi, ranked r (l ++ x :: l') = lo ++ x :: hi ∧
      hi.length = l.countP (fun b => decide (r x b)) + l'.countP (fun b => !decide (r b x)) := by
  induction l' using List.reverseRecOn with
  | nil =>
    obtain ⟨lo, hi, heq, hlen⟩ := exists_orderedInsert (pairwise_ranked (r := r) l) x
    refine ⟨lo, hi, (ranked_concat l x).trans heq, ?_⟩
    rw [hlen, (perm_ranked l).countP_eq, countP_nil, add_zero]
  | append_singleton l' a ih =>
    obtain ⟨lo, hi, heq, hlen⟩ := ih
    have hsorted := pairwise_ranked (r := r) (l ++ x :: l')
    rw [heq] at hsorted
    rw [← cons_append, ← append_assoc, ranked_concat, heq, countP_append, countP_singleton]
    by_cases hax : r a x
    · obtain ⟨l₁, hins⟩ := orderedInsert_append_cons lo hi hax
      exact ⟨l₁, hi, hins, by rw [hlen, if_neg (by simpa using hax), add_zero]⟩
    · have hlo : ∀ b, b ∈ lo ++ [x] → ¬ r a b := by
        intro b hb hab
        rcases mem_append.mp hb with hb | hb
        · exact hax (IsTrans.trans a b x hab ((pairwise_append.mp hsorted).2.2 b hb x mem_cons_self))
        · exact hax (mem_singleton.mp hb ▸ hab)
      refine ⟨lo, hi.orderedInsert r a, ?_, ?_⟩
      · rw [List.append_cons, orderedInsert_append_of_not hlo, ← List.append_cons]
      · rw [orderedInsert_length, hlen, if_pos (by simpa using hax), add_assoc]

lemma topK_filter (p : α → Bool) (hnodup : l.Nodup)
    (h : ∀ l₁ x l₂, l = l₁ ++ x :: l₂ → p x = false →
      k ≤ l₁.countP (fun b => decide (r x b)) + l₂.countP (fun b => !decide (r b x))) :
    topK r k (l.filter p) = topK r k l := by
  have htop : ∀ x, x ∈ (ranked r l).rtake k → p x = true := by
    intro x hx
    by_contra hp
    have hmem : x ∈ l := (perm_ranked l).mem_iff.mp (mem_of_mem_drop hx)
    obtain ⟨l₁, l₂, rfl⟩ := append_of_mem hmem
    obtain ⟨lo, hi, heq, hlen⟩ := exists_ranked_append (r := r) l₁ x l₂
    have hk := h l₁ x l₂ rfl (Bool.eq_false_iff.mpr hp)
    have hsuffix : (lo ++ x :: hi).rtake k = hi.rtake k := by
      rw [List.append_cons, List.rtake, List.rtake, length_append, drop_append,
        drop_eq_nil_of_le (by omega), nil_append]
      congr 1
      omega
    rw [heq, hsuffix] at hx
    have hdistinct := (perm_ranked (r := r) (l₁ ++ x :: l₂)).nodup_iff.mpr hnodup
    rw [heq] at hdistinct
    exact (nodup_cons.mp (nodup_append.mp hdistinct).2.1).1 (mem_of_mem_drop hx)
  rw [topK, topK, foldl_offer, foldl_offer, ranked_filter]
  congr 1
  rcases le_total (ranked r l).length k with hle | hle
  · rw [rtake_of_le hle] at htop
    rw [filter_eq_self.mpr htop]
  · obtain ⟨rest, top, heq, hlen, hrtake⟩ := exists_rtake hle
    rw [hrtake] at htop ⊢
    rw [heq, filter_append, filter_eq_self.mpr htop, rtake_append_of_length hlen]

end Preorder

end PocketKv.Library
