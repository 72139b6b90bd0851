import PocketKv.Storage.HashRefinement
import PocketKv.Storage.Vector

/-!
# The scan of a vector search
-/

namespace PocketKv.Storage

open Library Resp List

section Scan

variable {F : Type} (score : Bytes → Bytes → F) (dim : ℤ) (query keyPrefix : Bytes)

/-- The score of a stored key that has the prefix and holds a vector of the dimension. -/
def matchScore (m : Store.Table Bytes Bytes) (k : Bytes) : Option F :=
  (m.lookup k).bind fun v => (candOf (fun q v => some (score q v)) dim query keyPrefix (k, v)).bind Cand.score

/-! ### The matches of the map -/

variable {h : KvsHash} {m : Store.Table Bytes Bytes}

lemma coe_vsearchWalk (hi : h.Inv) : (vsearchWalk h : Multiset HashNode) = h.all := by
  have hwalk {tab : Hashtable} (htab : tab.allocated = true) : (tab.walk : Multiset HashNode) = tab.all := by
    rw [Hashtable.walk, if_pos htab, Hashtable.all, contents_eq_coe]
  rw [vsearchWalk, ← Multiset.coe_add, hwalk hi.live.1, KvsHash.all]
  cases hidx : h.rehashIdx with
  | none =>
    rw [hi.idle hidx, Hashtable.all_none]
    rfl
  | some idx =>
    rw [Option.isSome_some, if_pos rfl, hwalk (hi.busy idx hidx).1]

lemma Abs.mem_walk (ha : Abs h m) {k v : Bytes} :
    (k, v) ∈ (vsearchWalk h).map (fun n => (n.key, n.val)) ↔ m.lookup k = some v := by
  rw [ha.represents.lookup, ← coe_vsearchWalk ha.inv]
  simp [Prod.ext_iff]

lemma Abs.nodup_walk (ha : Abs h m) : (((vsearchWalk h).map fun n => (n.key, n.val)).map Prod.fst).Nodup := by
  have hnodup := ha.represents.nodup
  rw [← coe_vsearchWalk ha.inv, Multiset.map_coe, Multiset.coe_nodup] at hnodup
  rwa [map_map]

lemma Abs.mem_matches (ha : Abs h m) (c : Cand F) :
    c ∈ ((vsearchWalk h).map fun n => (n.key, n.val)).filterMap (candOf (fun q v => some (score q v)) dim query keyPrefix) ↔
      ∃ x, matchScore score dim query keyPrefix m c.key = some x ∧ c.score = some x := by
  rw [mem_filterMap]
  constructor
  · rintro ⟨⟨k, v⟩, hmem, hc⟩
    obtain rfl : c.key = k := key_of_candOf _ hc
    obtain ⟨x, hx⟩ : ∃ x, c.score = some x := by
      unfold candOf at hc
      split at hc
      · obtain ⟨vec, -, heq⟩ := Option.map_eq_some_iff.mp hc
        exact ⟨score query vec, by rw [← heq]⟩
      · cases hc
    exact ⟨x, by simp [matchScore, ha.mem_walk.mp hmem, hc, hx], hx⟩
  · rintro ⟨x, hmatch, hx⟩
    obtain ⟨v, hv, hbind⟩ := Option.bind_eq_some_iff.mp hmatch
    obtain ⟨c', hc', hx'⟩ := Option.bind_eq_some_iff.mp hbind
    obtain rfl : c' = c := by
      have hkey := key_of_candOf _ hc'
      cases c
      cases c'
      simp_all
    exact ⟨(c'.key, v), ha.mem_walk.mpr hv, hc'⟩

/-! ### The scan -/

variable [LinearOrder F]

/-- The candidate at the index `j` is exchanged with the one before it while its score is greater. -/
def bubbleUp : ℕ → List (Cand F) → List (Cand F)
  | 0, cands => cands
  | j + 1, cands =>
    match cands[j]?, cands[j + 1]? with
    | some b, some a => if a.notAbove b then cands else bubbleUp j ((cands.set j a).set (j + 1) b)
    | _, _ => cands

/-- A candidate is put among the best `topk`. -/
def offerCand (topk : ℕ) (cands : List (Cand F)) (c : Cand F) : List (Cand F) :=
  if cands.length < topk then bubbleUp cands.length (cands ++ [c])
  else
    match cands[topk - 1]? with
    | none => cands
    | some worst => if c.notAbove worst then cands else bubbleUp (topk - 1) (cands.set (topk - 1) c)

/-- The body of the loops. -/
def scanNode (topk : ℕ) (cands : List (Cand F)) (n : HashNode) : List (Cand F) :=
  match candOf (fun q v => some (score q v)) dim query keyPrefix (n.key, n.val) with
  | some c => offerCand topk cands c
  | none => cands

/-- `cands` after the scan. -/
def vsearchScan (topk : ℕ) (h : KvsHash) : List (Cand F) :=
  (vsearchWalk h).foldl (scanNode score dim query keyPrefix topk) []

/-- The candidates are the best matches of the map, the best one first. -/
structure BestMatches (topk : ℕ) (m : Store.Table Bytes Bytes) (cands : List (Cand F)) : Prop where
  stored : ∀ c ∈ cands, ∃ x, matchScore score dim query keyPrefix m c.key = some x ∧ c.score = some x
  distinct : (cands.map Cand.key).Nodup
  length : cands.length = min topk (m.keys.filter fun k => (matchScore score dim query keyPrefix m k).isSome).length
  sorted : cands.Pairwise fun a b => b.notAbove a
  best : ∀ k x, matchScore score dim query keyPrefix m k = some x → k ∉ cands.map Cand.key →
    ∀ c ∈ cands, (Cand.mk k (some x)).notAbove c

/-! ### The array and the order -/

variable {topk : ℕ}

lemma bubbleUp_append (cands : List (Cand F)) (a : Cand F) (rest : List (Cand F)) :
    bubbleUp cands.length (cands ++ a :: rest) = (cands.reverse.orderedInsert Cand.notAbove a).reverse ++ rest := by
  induction cands using List.reverseRecOn generalizing rest with
  | nil => rfl
  | append_singleton cands b ih =>
    have hb : (cands ++ b :: a :: rest)[cands.length]? = some b := by simp
    have ha : (cands ++ b :: a :: rest)[cands.length + 1]? = some a := by simp
    rw [length_append, length_singleton, append_assoc, singleton_append, bubbleUp, hb, ha, reverse_append, reverse_singleton,
      singleton_append, orderedInsert_cons]
    dsimp only
    split
    · simp
    · have hset : ((cands ++ b :: a :: rest).set cands.length a).set (cands.length + 1) b = cands ++ a :: b :: rest := by
        simp
      rw [hset, ih]
      simp

lemma offerCand_eq {cands : List (Cand F)} (hlen : cands.length ≤ topk) (c : Cand F) :
    offerCand topk cands c = (offer Cand.notAbove topk cands.reverse c).reverse := by
  unfold offerCand offer
  rw [length_reverse]
  split
  · rw [bubbleUp_append, append_nil]
  · rename_i hfull
    obtain rfl : topk = cands.length := by omega
    cases cands using List.reverseRecOn with
    | nil => rfl
    | append_singleton cands worst =>
      simp only [length_append, length_singleton, Nat.add_sub_cancel, getElem?_concat_length, reverse_append,
        reverse_singleton, singleton_append]
      split
      · simp
      · rw [show (cands ++ [worst]).set cands.length c = cands ++ [c] by simp, bubbleUp_append, append_nil]

lemma length_offer (best : List (Cand F)) (hlen : best.length ≤ topk) (c : Cand F) :
    (offer Cand.notAbove topk best c).length ≤ topk := by
  unfold offer
  split
  · rw [orderedInsert_length]
    omega
  · cases best with
    | nil => exact Nat.zero_le _
    | cons worst rest =>
      dsimp only
      split
      · exact hlen
      · rw [orderedInsert_length]
        exact hlen

lemma foldl_offerCand (l : List (Cand F)) : l.foldl (offerCand topk) [] = topK Cand.notAbove topk l := by
  suffices h : ∀ best : List (Cand F), best.length ≤ topk →
      l.foldl (offerCand topk) best.reverse = (l.foldl (offer Cand.notAbove topk) best).reverse from h [] (Nat.zero_le _)
  induction l with
  | nil => exact fun _ _ => rfl
  | cons c l ih =>
    intro best hlen
    rw [foldl_cons, foldl_cons, offerCand_eq (by rwa [length_reverse]), reverse_reverse]
    exact ih _ (length_offer best hlen c)

lemma vsearchScan_eq (h : KvsHash) : vsearchScan score dim query keyPrefix topk h = topK Cand.notAbove topk
    (((vsearchWalk h).map fun n => (n.key, n.val)).filterMap (candOf (fun q v => some (score q v)) dim query keyPrefix)) := by
  rw [← foldl_offerCand, foldl_filterMap, foldl_map, vsearchScan]
  congr 1
  funext cands n
  unfold scanNode
  split <;> simp_all only

/-- **A search finds the best matches**, whatever of the chains has been moved to the second table. -/
theorem vsearch_best_matches (topk : ℕ) (ha : Abs h m) :
    BestMatches score dim query keyPrefix topk m (vsearchScan score dim query keyPrefix topk h) := by
  have hmem := ha.mem_matches score dim query keyPrefix
  have hkeys := (keys_candOf (fun q v => some (score q v)) dim query keyPrefix _).nodup ha.nodup_walk
  rw [vsearchScan_eq]
  generalize ((vsearchWalk h).map fun n => (n.key, n.val)).filterMap _ = l at hmem hkeys
  have hnum : ∀ c ∈ l, c.score ≠ none := by
    intro c hc hnone
    obtain ⟨x, -, hx⟩ := (hmem c).mp hc
    cases hnone.symm.trans hx
  have hiff : ∀ a ∈ l, ∀ b ∈ l, (a.notAbove b ↔ a.below b) := fun a ha b hb => Cand.notAbove_iff (hnum a ha) (hnum b hb)
  rw [topK_congr hiff]
  obtain ⟨rest, hperm, hlen, hsorted, hbest⟩ := topK_spec (r := Cand.below) (k := topk) l
  generalize topK Cand.below topk l = cands at hperm hlen hsorted hbest
  have hcands : ∀ c ∈ cands, c ∈ l := fun c hc => hperm.subset (mem_append_left _ hc)
  have hcount : (l.map Cand.key).Perm (m.keys.filter fun k => (matchScore score dim query keyPrefix m k).isSome) := by
    refine (perm_ext_iff_of_nodup hkeys (m.keys_nodup.filter _)).mpr fun k => ?_
    rw [mem_filter, mem_map, Option.isSome_iff_exists]
    constructor
    · rintro ⟨c, hc, rfl⟩
      obtain ⟨x, hx, -⟩ := (hmem c).mp hc
      obtain ⟨v, hv, -⟩ := Option.bind_eq_some_iff.mp hx
      exact ⟨mem_of_lookup hv, x, hx⟩
    · rintro ⟨-, x, hx⟩
      exact ⟨⟨k, some x⟩, (hmem _).mpr ⟨x, hx, rfl⟩, rfl⟩
  refine ⟨fun c hc => (hmem c).mp (hcands c hc), ?_, ?_, ?_, fun k x hx hk c hc => ?_⟩
  · have hall := (hperm.map Cand.key).nodup_iff.mpr hkeys
    rw [map_append] at hall
    exact hall.of_append_left
  · rw [hlen, ← hcount.length_eq, length_map]
  · exact hsorted.imp_of_mem fun ha hb hba => (hiff _ (hcands _ hb) _ (hcands _ ha)).mpr hba
  · have hl : Cand.mk k (some x) ∈ l := (hmem _).mpr ⟨x, hx, rfl⟩
    rcases mem_append.mp (hperm.mem_iff.mpr hl) with hin | hrest
    · exact absurd (mem_map_of_mem hin) hk
    · exact (hiff _ hl _ (hcands c hc)).mpr (hbest _ hrest c hc)

end Scan

/-- Three keys with vectors of dimension 256 are stored. -/
def storeVectors : List HashCall :=
  [.setLen (str "semcache:a") (vectorOf 1), .setLen (str "semcache:b") (vectorOf 3),
    .setLen (str "semcache:c") (vectorOf 2)]

/-- Two of the three vectors are asked for, when a rehash has begun. -/
theorem vsearch_best_matches_rehashing :
    let h := startRehash (storeVectors.foldl KvsHash.step (kvsHashCreate fun _ => (1, 2))) 8192
    h.rehashIdx = some 0 ∧
      (vsearchScan (fun _ v => (v.headD 0).toNat) 256 [] (str "semcache:") 2 h).length = 2 := by
  have hrun : GuardedRun KvsHash.step (fun h c => h.hashes c = true) (kvsHashCreate fun _ => (1, 2)) storeVectors := by
    decide +kernel
  have habs := ((abs_create fun _ => (1, 2)).calls hrun).2
  have hidle : (storeVectors.foldl KvsHash.step (kvsHashCreate fun _ => (1, 2))).rehashIdx.isNone = true := by
    decide +kernel
  generalize storeVectors.foldl KvsHash.step (kvsHashCreate fun _ => (1, 2)) = h at habs hidle ⊢
  obtain ⟨hinv, hall⟩ := startRehash_spec habs.inv (Option.isNone_iff_eq_none.mp hidle) (n := 8192) (by omega)
  have hmatches := vsearch_best_matches (fun _ v => (v.headD 0).toNat) 256 [] (str "semcache:") 2
    (Abs.mk hinv (by rw [hall]; exact habs.represents))
  refine ⟨rfl, hmatches.length.trans ?_⟩
  decide +kernel

end PocketKv.Storage
