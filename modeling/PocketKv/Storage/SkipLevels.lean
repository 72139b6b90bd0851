import PocketKv.Storage.SkipTable

/-!
# The levels of the skip list
-/

namespace PocketKv.Storage

open Library.Links Resp List Function

lemma randomLevelLoop_le (rand : ℕ → ℕ) {level : ℕ} (h : level ≤ kvsSkiplistMaxLevel) (fuel : ℕ) :
    randomLevelLoop rand fuel level ≤ kvsSkiplistMaxLevel := by
  induction fuel generalizing level with
  | zero => exact h
  | succ fuel ih =>
    rw [randomLevelLoop]
    split
    · rename_i hnext
      exact ih hnext.2
    · exact h

lemma randomLevel_le (rand : ℕ → ℕ) : randomLevel rand ≤ kvsSkiplistMaxLevel :=
  randomLevelLoop_le rand (Nat.zero_le _) _

namespace SkipTable

/-- The nodes that are on level `i`. -/
def reaching (T : SkipTable) (i : ℕ) (xs : List ℕ) : List ℕ := xs.filter fun a => i ≤ (T.node a).level

/-- The lists of all levels are linked, and level 0 has the nodes `xs`, in the order of their keys.
-/
structure Levels (T : SkipTable) (xs : List ℕ) : Prop where
  linked : ∀ i, i ≤ kvsSkiplistMaxLevel → Linked (T.forward i) skipHeader (T.reaching i xs)
  sorted : xs.Pairwise fun a b => strcmp (T.node a).key (T.node b).key = .lt
  header : skipHeader < T.fresh
  alive : ∀ a, a ∈ xs → skipHeader < a ∧ a < T.fresh
  /-- No node is above `inst->level`. -/
  bound : ∀ a, a ∈ xs → (T.node a).level ≤ T.level
  /-- `inst->level` is a level. -/
  level_le : T.level ≤ kvsSkiplistMaxLevel
  /-- `inst->count`. -/
  count : T.count = wrap32 xs.length

/-- The last node on level `i` before the key. -/
def noted (T : SkipTable) (xs : List ℕ) (key : Bytes) (i : ℕ) : ℕ :=
  ((T.reaching i xs).filter (T.below key)).getLastD skipHeader

variable {T : SkipTable} {xs : List ℕ} {key : Bytes} {a i : ℕ}

lemma below_iff : T.below key a = true ↔ strcmp (T.node a).key key = .lt := decide_eq_true_iff

lemma mem_reaching : a ∈ T.reaching i xs ↔ a ∈ xs ∧ i ≤ (T.node a).level := by
  rw [reaching, mem_filter, decide_eq_true_iff]

lemma reaching_zero (T : SkipTable) (xs : List ℕ) : T.reaching 0 xs = xs :=
  filter_eq_self.mpr fun _ _ => decide_eq_true (Nat.zero_le _)

lemma reaching_succ_sublist (T : SkipTable) (xs : List ℕ) (i : ℕ) :
    (T.reaching (i + 1) xs).Sublist (T.reaching i xs) := by
  refine monotone_filter_right xs fun a ha => ?_
  rw [decide_eq_true_iff] at ha ⊢
  omega

namespace Levels

variable (h : Levels T xs)
include h

lemma nodup : xs.Nodup := by
  refine h.sorted.imp fun {a b} hlt heq => ?_
  rw [heq, strcmp_eq_iff.mpr rfl] at hlt
  cases hlt

lemma header_notMem : skipHeader ∉ xs := fun hmem => Nat.lt_irrefl _ (h.alive _ hmem).1

lemma nodup_reaching (i : ℕ) : (skipHeader :: T.reaching i xs).Nodup := by
  refine nodup_cons.mpr ⟨fun hmem => h.header_notMem (mem_reaching.mp hmem).1, h.nodup.filter _⟩

lemma length_le (i : ℕ) : (T.reaching i xs).length ≤ T.fresh := by
  have hsub : xs ⊆ List.range T.fresh := fun a ha => mem_range.mpr (h.alive a ha).2
  have hlength := (h.nodup.subperm hsub).length_le
  rw [length_range] at hlength
  exact (length_filter_le _ _).trans hlength

lemma split (key : Bytes) : Split (T.below key) xs := by
  refine h.sorted.imp fun {a b} hlt hb => ?_
  rw [below_iff] at hb ⊢
  exact strcmp_trans hlt hb

lemma split_reaching (key : Bytes) (i : ℕ) : Split (T.below key) (T.reaching i xs) :=
  (h.split key).sublist filter_sublist

lemma reaching_above (hi : T.level < i) : T.reaching i xs = [] := by
  refine filter_eq_nil_iff.mpr fun a ha hreach => ?_
  have hle := h.bound a ha
  rw [decide_eq_true_iff] at hreach
  omega

lemma noted_above (hi : T.level < i) : T.noted xs key i = skipHeader := by
  rw [noted, h.reaching_above hi]
  rfl

/-! ### The search -/

lemma skipSearchLoop (key : Bytes) {n : ℕ} (hn : n ≤ kvsSkiplistMaxLevel + 1) (update : SkipUpdate) :
    skipSearchLoop T key n (T.noted xs key n) update =
      (T.noted xs key 0, fun i => if i < n then some (T.noted xs key i) else update i) := by
  induction n generalizing update with
  | zero => simp [Storage.skipSearchLoop]
  | succ n ih =>
    have hcur : advance (T.forward n) (T.below key) T.fresh (T.noted xs key (n + 1)) = T.noted xs key n := by
      have hsub : ((T.reaching (n + 1) xs).filter (T.below key)).Sublist ((T.reaching n xs).filter (T.below key)) :=
        (T.reaching_succ_sublist xs n).filter _
      exact (h.linked n (by omega)).advance_from (h.split_reaching key n) hsub (h.length_le n)
    rw [Storage.skipSearchLoop, hcur]
    refine (ih (by omega) _).trans ?_
    congr 1
    funext i
    rcases eq_or_ne i n with rfl | hi
    · rw [if_neg (Nat.lt_irrefl i), if_pos (Nat.lt_succ_self i), update_self]
    · have hiff : i < n + 1 ↔ i < n := by omega
      rw [update_of_ne hi]
      simp only [hiff]

lemma searchNode (key : Bytes) :
    skiptableSearchNode T key =
      ((T.forward 0 (T.noted xs key 0)).filter fun a => strcmp (T.node a).key key = .eq,
        fun i => if i ≤ T.level then some (T.noted xs key i) else none) := by
  have hstart : T.noted xs key (T.level + 1) = skipHeader := h.noted_above (Nat.lt_succ_self _)
  have hloop := h.skipSearchLoop key (Nat.succ_le_succ h.level_le) fun _ => none
  rw [hstart] at hloop
  rw [skiptableSearchNode, hloop]
  simp

lemma next_noted (key : Bytes) (hi : i ≤ kvsSkiplistMaxLevel) :
    T.forward i (T.noted xs key i) = ((T.reaching i xs).filter fun a => !T.below key a).head? := by
  have hlinked := h.linked i hi
  rw [← (h.split_reaching key i).append_eq] at hlinked
  exact hlinked.behind.next_eq

lemma filter_not_below (ha : a ∈ T.reaching i xs) :
    ∃ rest, (T.reaching i xs).filter (fun b => !T.below (T.node a).key b) = a :: rest := by
  obtain ⟨us, vs, heq⟩ := append_of_mem ha
  have hsorted : (us ++ a :: vs).Pairwise fun a b => strcmp (T.node a).key (T.node b).key = .lt :=
    heq ▸ h.sorted.sublist filter_sublist
  have hus : us.filter (fun b => !T.below (T.node a).key b) = [] := by
    refine filter_eq_nil_iff.mpr fun b hb hnot => ?_
    have hlt := (pairwise_append.mp hsorted).2.2 b hb a mem_cons_self
    rw [below_iff.mpr hlt] at hnot
    cases hnot
  have hself : T.below (T.node a).key a = false := by
    rw [below, strcmp_eq_iff.mpr rfl]
    rfl
  refine ⟨vs.filter fun b => !T.below (T.node a).key b, ?_⟩
  rw [heq, filter_append, hus, nil_append, filter_cons_of_pos (by rw [hself]; rfl)]

lemma next_noted_self (ha : a ∈ xs) (hi : i ≤ (T.node a).level) :
    T.forward i (T.noted xs (T.node a).key i) = some a := by
  have hle : i ≤ kvsSkiplistMaxLevel := (hi.trans (h.bound a ha)).trans h.level_le
  obtain ⟨rest, heq⟩ := h.filter_not_below (mem_reaching.mpr ⟨ha, hi⟩)
  rw [h.next_noted _ hle, heq, head?_cons]

lemma search_found (ha : a ∈ xs) : (skiptableSearchNode T (T.node a).key).1 = some a := by
  rw [h.searchNode, h.next_noted_self ha (Nat.zero_le _)]
  exact if_pos (decide_eq_true (strcmp_eq_iff.mpr rfl))

lemma search_missing (hnone : ∀ a, a ∈ xs → (T.node a).key ≠ key) : (skiptableSearchNode T key).1 = none := by
  rw [h.searchNode, h.next_noted key (Nat.zero_le _), reaching_zero, Option.filter_eq_none_iff]
  intro b hb heq
  have hmem : b ∈ xs := (mem_filter.mp (mem_of_head? hb)).1
  exact hnone b hmem (strcmp_eq_iff.mp (of_decide_eq_true heq))

lemma search_cases (key : Bytes) :
    (∃ a, a ∈ xs ∧ (T.node a).key = key ∧ (skiptableSearchNode T key).1 = some a) ∨
      ((∀ a, a ∈ xs → (T.node a).key ≠ key) ∧ (skiptableSearchNode T key).1 = none) := by
  by_cases hmem : ∃ a, a ∈ xs ∧ (T.node a).key = key
  · obtain ⟨a, ha, rfl⟩ := hmem
    exact .inl ⟨a, ha, rfl, h.search_found ha⟩
  · have hnone : ∀ a, a ∈ xs → (T.node a).key ≠ key := fun a ha heq => hmem ⟨a, ha, heq⟩
    exact .inr ⟨hnone, h.search_missing hnone⟩

end Levels

end SkipTable

/-! ### Putting in -/

variable {update : SkipUpdate} {prev : ℕ → ℕ}

lemma foldl_linkAt (a : ℕ) (T : SkipTable) {n : ℕ}
    (hupdate : ∀ i, i < n → update i = some (prev i)) :
    (List.range n).foldl (linkAt update a) T =
      { T with
        forward := fun i =>
          if i < n then Function.update (Function.update (T.forward i) a (T.forward i (prev i))) (prev i) (some a)
          else T.forward i } := by
  induction n with
  | zero => rfl
  | succ n ih =>
    rw [range_succ, foldl_append, ih fun i hi => hupdate i (by omega), List.foldl_cons, foldl_nil, linkAt,
      hupdate n (Nat.lt_succ_self n)]
    simp only [SkipTable.setForward, lt_irrefl, if_false, update_self, update_idem]
    congr 1
    funext i
    rcases eq_or_ne i n with rfl | hi
    · rw [update_self, if_pos (Nat.lt_succ_self i)]
    · have hiff : i < n + 1 ↔ i < n := by omega
      rw [update_of_ne hi]
      simp only [hiff]

namespace SkipTable

variable {T : SkipTable} {xs : List ℕ} {key value : Bytes} {a i level : ℕ}

/-- The table after a new node is put in. -/
def inserted (T : SkipTable) (xs : List ℕ) (key value : Bytes) (level : ℕ) : SkipTable :=
  let N := skipnodeCreate T level key value
  { N with
    forward := fun i =>
      if i < level + 1 then
        Function.update (Function.update (N.forward i) T.fresh (N.forward i (T.noted xs key i))) (T.noted xs key i)
          (some T.fresh)
      else N.forward i
    count := wrap32 (T.count + 1) }

/-- The nodes with the new one in its place. -/
def withFresh (T : SkipTable) (xs : List ℕ) (key : Bytes) : List ℕ :=
  xs.filter (T.below key) ++ T.fresh :: xs.filter fun b => !T.below key b

namespace Levels

lemma ne_fresh (h : Levels T xs) (ha : a ∈ xs) : a ≠ T.fresh := (h.alive a ha).2.ne

lemma node_inserted (h : Levels T xs) (ha : a ∈ xs) : (T.inserted xs key value level).node a = T.node a :=
  update_of_ne (h.ne_fresh ha) ..

lemma node_inserted_fresh (T : SkipTable) (xs : List ℕ) (key value : Bytes) (level : ℕ) :
    (T.inserted xs key value level).node T.fresh = ⟨key, value, level⟩ :=
  update_self ..

lemma mem_withFresh {b : ℕ} : b ∈ T.withFresh xs key ↔ b = T.fresh ∨ b ∈ xs := by
  simp only [withFresh, mem_append, mem_cons, mem_filter]
  cases T.below key b <;> simp
  tauto

variable (h : Levels T xs)
include h

lemma length_withFresh : (T.withFresh xs key).length = xs.length + 1 := by
  have hlength := congrArg List.length (h.split key).append_eq
  rw [length_append] at hlength
  rw [withFresh, length_append, length_cons]
  omega

lemma reaching_inserted (i : ℕ) :
    (T.inserted xs key value level).reaching i (T.withFresh xs key) =
      (T.reaching i xs).filter (T.below key) ++
        ((if i < level + 1 then [T.fresh] else []) ++ (T.reaching i xs).filter fun b => !T.below key b) := by
  have hold : ∀ p : ℕ → Bool, (xs.filter p).filter (fun b => i ≤ ((T.inserted xs key value level).node b).level) =
      (T.reaching i xs).filter p := by
    intro p
    rw [reaching, filter_comm]
    refine congrArg _ (filter_congr fun b hb => ?_)
    rw [h.node_inserted hb]
  have hnew : ((T.inserted xs key value level).node T.fresh).level = level := by
    rw [node_inserted_fresh]
  rw [reaching, withFresh, filter_append, filter_cons, hold, hold, hnew]
  by_cases hi : i ≤ level
  · rw [if_pos (decide_eq_true hi), if_pos (Nat.lt_succ_of_le hi)]
    rfl
  · rw [if_neg (by simpa using hi), if_neg (by omega)]
    rfl

lemma linked_inserted (hi : i ≤ kvsSkiplistMaxLevel) :
    Linked ((T.inserted xs key value level).forward i) skipHeader
      ((T.inserted xs key value level).reaching i (T.withFresh xs key)) := by
  have hfresh : T.fresh ∉ skipHeader :: T.reaching i xs := by
    intro hmem
    rcases mem_cons.mp hmem with heq | hmem
    · exact h.header.ne heq.symm
    · exact h.ne_fresh (mem_reaching.mp hmem).1 rfl
  have hold : Linked (Function.update (T.forward i) T.fresh none) skipHeader (T.reaching i xs) := by
    refine (h.linked i hi).congr fun b hb => ?_
    have hne : b ≠ T.fresh := fun heq => hfresh (heq ▸ hb)
    exact update_of_ne hne ..
  rw [h.reaching_inserted]
  rw [← (h.split_reaching key i).append_eq] at hold hfresh
  have hnodup := h.nodup_reaching i
  rw [← (h.split_reaching key i).append_eq] at hnodup
  by_cases hlevel : i < level + 1
  · have hlinked := hold.insert hnodup hfresh
    rw [if_pos hlevel]
    simp only [inserted, hlevel, if_true]
    exact hlinked
  · rw [if_neg hlevel]
    simp only [inserted, hlevel, if_false]
    exact hold

variable (hnone : ∀ a, a ∈ xs → (T.node a).key ≠ key)
include hnone

lemma sorted_inserted :
    (T.withFresh xs key).Pairwise fun a b =>
      strcmp ((T.inserted xs key value level).node a).key ((T.inserted xs key value level).node b).key = .lt := by
  have hnew : ((T.inserted xs key value level).node T.fresh).key = key := by
    rw [node_inserted_fresh]
  have hbefore : ∀ b, b ∈ xs.filter (T.below key) → strcmp (T.node b).key key = .lt :=
    fun b hb => below_iff.mp (mem_filter.mp hb).2
  have hbehind : ∀ b, b ∈ xs.filter (fun b => !T.below key b) → strcmp key (T.node b).key = .lt := by
    intro b hb
    obtain ⟨hmem, hnot⟩ := mem_filter.mp hb
    rw [← strcmp_gt_iff]
    cases hcmp : strcmp (T.node b).key key with
    | gt => rfl
    | eq => exact absurd (strcmp_eq_iff.mp hcmp) (hnone b hmem)
    | lt => rw [below_iff.mpr hcmp] at hnot; cases hnot
  have hold : ∀ p : ℕ → Bool, (xs.filter p).Pairwise fun a b =>
      strcmp ((T.inserted xs key value level).node a).key ((T.inserted xs key value level).node b).key = .lt := by
    intro p
    refine (h.sorted.sublist filter_sublist).imp_of_mem fun {a b} ha hb hlt => ?_
    rw [h.node_inserted (mem_filter.mp ha).1, h.node_inserted (mem_filter.mp hb).1]
    exact hlt
  refine pairwise_append.mpr ⟨hold _, pairwise_cons.mpr ⟨fun b hb => ?_, hold _⟩, fun a ha b hb => ?_⟩
  · rw [hnew, h.node_inserted (mem_filter.mp hb).1]
    exact hbehind b hb
  · rw [h.node_inserted (mem_filter.mp ha).1]
    rcases mem_cons.mp hb with rfl | hb
    · rw [hnew]
      exact hbefore a ha
    · rw [h.node_inserted (mem_filter.mp hb).1]
      exact strcmp_trans (hbefore a ha) (hbehind b hb)

lemma inserted (hlevel : level ≤ T.level) : Levels (T.inserted xs key value level) (T.withFresh xs key) where
  linked := fun i hi => h.linked_inserted hi
  sorted := h.sorted_inserted hnone
  header := Nat.lt_succ_of_lt h.header
  alive := by
    intro a ha
    rcases mem_withFresh.mp ha with rfl | ha
    · exact ⟨h.header, Nat.lt_succ_self _⟩
    · obtain ⟨hheader, hfresh⟩ := h.alive a ha
      exact ⟨hheader, Nat.lt_succ_of_lt hfresh⟩
  bound := by
    intro a ha
    rcases mem_withFresh.mp ha with rfl | ha
    · rw [node_inserted_fresh]
      exact hlevel
    · rw [h.node_inserted ha]
      exact h.bound a ha
  level_le := h.level_le
  count := by
    change wrap32 (T.count + 1) = _
    rw [h.count, h.length_withFresh, wrap32_wrap32_add]
    rfl

end Levels

end SkipTable

/-! ### Taking out -/

lemma unlinkLoop_eq {a l top : ℕ} (hl : l ≤ top)
    (hupdate : ∀ j, j ≤ top → update j = some (prev j)) {fuel i : ℕ} (hfuel : fuel + i = top + 1) (hi : i ≤ l + 1)
    {T : SkipTable} (hin : ∀ j, i ≤ j → j ≤ l → T.forward j (prev j) = some a)
    (hout : l < top → T.forward (l + 1) (prev (l + 1)) ≠ some a) :
    unlinkLoop update a fuel i T =
      { T with
        forward := fun j =>
          if i ≤ j ∧ j ≤ l then Function.update (T.forward j) (prev j) (T.forward j a) else T.forward j } := by
  induction fuel generalizing i T with
  | zero =>
    have hnone : ∀ j, ¬ (i ≤ j ∧ j ≤ l) := by omega
    simp [unlinkLoop, hnone]
  | succ fuel ih =>
    rw [unlinkLoop, hupdate i (by omega)]
    rcases Nat.lt_or_ge l i with hlt | hle
    · obtain rfl : i = l + 1 := by omega
      have hnone : ∀ j, ¬ (l + 1 ≤ j ∧ j ≤ l) := by omega
      simp only [hout (by omega), hnone, ne_eq, not_false_eq_true, if_true, if_false]
    · have hnext := ih (T := T.setForward i (prev i) (T.forward i a)) (by omega : fuel + (i + 1) = top + 1) (by omega) ?_ ?_
      · simp only [hin i le_rfl hle, ne_eq, not_true_eq_false, if_false]
        rw [hnext]
        simp only [SkipTable.setForward, SkipTable.mk.injEq, true_and, and_true]
        funext j
        rcases eq_or_ne j i with rfl | hj
        · rw [if_neg (by omega), if_pos ⟨le_rfl, hle⟩, update_self]
        · have hiff : i + 1 ≤ j ↔ i ≤ j := by omega
          rw [update_of_ne hj]
          simp only [hiff]
      · intro j hj hjl
        have hne : j ≠ i := by omega
        simp only [SkipTable.setForward, update_of_ne hne]
        exact hin j (by omega) hjl
      · intro hlt
        have hne : l + 1 ≠ i := by omega
        simp only [SkipTable.setForward, update_of_ne hne]
        exact hout hlt

lemma lowerLevel_spec (first : ℕ → Option ℕ) (level : ℕ) :
    lowerLevel first level ≤ level ∧ (lowerLevel first level = 0 ∨ first (lowerLevel first level) ≠ none) ∧
      ∀ i, lowerLevel first level < i → i ≤ level → first i = none := by
  induction level with
  | zero => exact ⟨le_rfl, .inl rfl, fun i hlt hle => by rw [lowerLevel] at hlt; omega⟩
  | succ level ih =>
    rw [lowerLevel]
    split
    · rename_i hnone
      refine ⟨ih.1.trans (Nat.le_succ _), ih.2.1, fun i hlt hle => ?_⟩
      rcases Nat.lt_or_ge level i with hi | hi
      · obtain rfl : i = level + 1 := by omega
        exact hnone
      · exact ih.2.2 i hlt hi
    · rename_i hsome
      exact ⟨le_rfl, .inr hsome, fun i hlt hle => by omega⟩

namespace SkipTable

variable {T : SkipTable} {xs : List ℕ} {a i : ℕ}

/-- The table after the node `a` is taken out. -/
def removed (T : SkipTable) (xs : List ℕ) (a : ℕ) : SkipTable :=
  let forward := fun i =>
    if i ≤ (T.node a).level then
      Function.update (T.forward i) (T.noted xs (T.node a).key i) (T.forward i a)
    else T.forward i
  { T with level := lowerLevel (forward · skipHeader) T.level, count := wrap32 (T.count - 1), forward := forward }

namespace Levels

lemma reaching_erase (h : Levels T xs) (a i : ℕ) : T.reaching i (xs.erase a) = (T.reaching i xs).erase a := by
  rw [reaching, reaching, h.nodup.erase_eq_filter, (h.nodup.filter _).erase_eq_filter, filter_comm]

lemma linked_removed (h : Levels T xs) (ha : a ∈ xs) (hi : i ≤ kvsSkiplistMaxLevel) :
    Linked ((T.removed xs a).forward i) skipHeader (T.reaching i (xs.erase a)) := by
  rw [h.reaching_erase]
  by_cases hlevel : i ≤ (T.node a).level
  · obtain ⟨rest, hrest⟩ := h.filter_not_below (mem_reaching.mpr ⟨ha, hlevel⟩)
    have hsplit := (h.split_reaching (T.node a).key i).append_eq
    rw [hrest] at hsplit
    have hlinked := h.linked i hi
    have hnodup := h.nodup_reaching i
    rw [← hsplit] at hlinked hnodup
    have hnotmem : a ∉ (T.reaching i xs).filter (T.below (T.node a).key) := by
      intro hmem
      have hbelow := below_iff.mp (mem_filter.mp hmem).2
      rw [strcmp_eq_iff.mpr rfl] at hbelow
      cases hbelow
    have herase : (T.reaching i xs).erase a = (T.reaching i xs).filter (T.below (T.node a).key) ++ rest := by
      conv_lhs => rw [← hsplit]
      rw [erase_append_right _ hnotmem, erase_cons_head]
    rw [herase]
    simp only [removed, hlevel, if_true]
    exact hlinked.remove hnodup
  · have hnotmem : a ∉ T.reaching i xs := fun hmem => hlevel (mem_reaching.mp hmem).2
    rw [erase_of_not_mem hnotmem]
    simp only [removed, hlevel, if_false]
    exact h.linked i hi

lemma removed (h : Levels T xs) (ha : a ∈ xs) : Levels (T.removed xs a) (xs.erase a) where
  linked := fun i hi => h.linked_removed ha hi
  sorted := h.sorted.sublist erase_sublist
  header := h.header
  alive := fun b hb => h.alive b (mem_of_mem_erase hb)
  bound := by
    intro b hb
    by_contra hlt
    have hle : (T.node b).level ≤ T.level := h.bound b (mem_of_mem_erase hb)
    have hlinked := h.linked_removed ha (hle.trans h.level_le)
    have hsome := hlinked.next_ne_none_iff.mpr (ne_nil_of_mem (mem_reaching.mpr ⟨hb, le_rfl⟩))
    have hspec := lowerLevel_spec (fun i => (T.removed xs a).forward i skipHeader) T.level
    exact hsome (hspec.2.2 _ (not_le.mp hlt) hle)
  level_le := (lowerLevel_spec _ _).1.trans h.level_le
  count := by
    change wrap32 (T.count - 1) = _
    have hpos : 0 < xs.length := length_pos_of_mem ha
    rw [h.count, length_erase_of_mem ha, wrap32_wrap32_sub, Nat.cast_sub hpos]
    rfl

end Levels

end SkipTable

end PocketKv.Storage
