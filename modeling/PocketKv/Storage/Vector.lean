import PocketKv.Library.LittleEndian
import PocketKv.Library.TopK
import PocketKv.Resp.Bytes

/-!
# Vector search
-/

namespace PocketKv.Storage

open Library Resp List

/-- `VSEARCH_DIMS`. -/
def vsearchDims : List ℤ := [256, 384, 1024]

/-- `VSEARCH_ALLOWED_PREFIX`. -/
def vsearchAllowedPrefix : List Bytes := [str "semcache:", str "semd:e5s:v1:"]

/-- `KVS_VSEARCH_DEFAULT_PREFIX`. -/
def vsearchDefaultPrefix : Bytes := str "semcache:"

/-- The characters that `valid_prefix` allows. -/
def prefixChar (c : UInt8) : Bool :=
  (97 ≤ c && c ≤ 122) || (65 ≤ c && c ≤ 90) || (48 ≤ c && c ≤ 57) || c == 58 || c == 95 || c == 45

/-- `valid_prefix`. -/
def validPrefix (p : Bytes) : Bool :=
  1 ≤ p.length && p.length ≤ 64 && p.all prefixChar && vsearchAllowedPrefix.contains p

/-- `allowed_dim`. -/
def allowedDim (d : ℤ) : Bool := vsearchDims.contains d

/-- `parse_vec`: the bytes of the vector. -/
def parseVec (value : Bytes) (wantDim : ℤ) : Option Bytes :=
  if value.length < 4 then none
  else
    let dim := leNat (value.take 4)
    if Int.bmod dim (2 ^ 32) ≠ wantDim then none
    else if value.length < 4 + dim * 4 then none
    else some ((value.drop 4).take (dim * 4))

/-- A value that `parse_vec` takes for a vector of dimension 256, with the byte `b` in front. -/
def vectorOf (b : UInt8) : Bytes := [0, 1, 0, 0] ++ b :: replicate 1023 0

/-- `cand_t`. -/
structure Cand (F : Type) where
  key : Bytes
  score : Option F
  deriving DecidableEq

section Search

variable {F : Type} (cosine : Bytes → Bytes → Option F) {query keyPrefix : Bytes}

/-- The candidate that an entry of the table is, if any. -/
def candOf (dim : ℤ) (query keyPrefix : Bytes) (x : Bytes × Bytes) : Option (Cand F) :=
  if x.1.take keyPrefix.length = keyPrefix then (parseVec x.2 dim).map fun vec => ⟨x.1, cosine query vec⟩ else none

lemma key_of_candOf {dim : ℤ} {x : Bytes × Bytes} {c : Cand F}
    (h : candOf cosine dim query keyPrefix x = some c) : c.key = x.1 := by
  unfold candOf at h
  split at h
  · obtain ⟨vec, -, rfl⟩ := Option.map_eq_some_iff.mp h
    rfl
  · cases h

lemma filterMap_candOf_filter (dim : ℤ) (query keyPrefix : Bytes) (keep : Bytes → Bool) (entries : List (Bytes × Bytes)) :
    (entries.filter fun x => keep x.1).filterMap (candOf cosine dim query keyPrefix) =
      (entries.filterMap (candOf cosine dim query keyPrefix)).filter fun c => keep c.key := by
  rw [filterMap_filter, filter_filterMap]
  refine filterMap_congr fun x _ => ?_
  cases hc : candOf cosine dim query keyPrefix x with
  | none => simp
  | some c =>
    rw [Option.filter_some, key_of_candOf cosine hc]

lemma keys_candOf (dim : ℤ) (query keyPrefix : Bytes) (entries : List (Bytes × Bytes)) :
    ((entries.filterMap (candOf cosine dim query keyPrefix)).map Cand.key).Sublist (entries.map Prod.fst) := by
  induction entries with
  | nil => exact .slnil
  | cons x entries ih =>
    cases hc : candOf cosine dim query keyPrefix x with
    | none => rw [filterMap_cons_none hc]; exact ih.cons _
    | some c =>
      rw [filterMap_cons_some hc, map_cons, map_cons, key_of_candOf cosine hc]
      exact ih.cons_cons _

variable [LinearOrder F] {keep : Bytes → Bool}

/-- Not greater; so it is if one of them is no number. -/
def Cand.notAbove (a b : Cand F) : Prop :=
  match a.score, b.score with
  | some x, some y => x ≤ y
  | _, _ => True

instance : DecidableRel (Cand.notAbove (F := F)) := fun a b =>
  match ha : a.score, hb : b.score with
  | some x, some y => decidable_of_iff (x ≤ y) (by simp [Cand.notAbove, ha, hb])
  | none, _ => .isTrue (by simp [Cand.notAbove, ha])
  | some _, none => .isTrue (by simp [Cand.notAbove, ha, hb])

/-- `kvs_vector_search` on the entries in the order of the traversal. -/
def kvsVectorSearch (dim : ℤ) (query : Bytes) (topk : ℤ) (keyPrefix : Bytes) (entries : List (Bytes × Bytes)) :
    Except String (List (Cand F)) :=
  if !allowedDim dim || topk < 1 || 100 < topk then .error "vsearch bad args"
  else if !validPrefix keyPrefix then .error "vsearch bad prefix"
  else .ok (topK Cand.notAbove topk.toNat (entries.filterMap (candOf cosine dim query keyPrefix)))

/-! ### Entries that make no difference -/

/-- The candidates are all among the entries to keep, or else all scores are numbers and at least `topk` candidates
are ahead of each of the others: with a greater score, or with the same one and earlier in the traversal. -/
def Outranked (topk : ℤ) (keep : Bytes → Bool) (cands : List (Cand F)) : Prop :=
  (∀ c, c ∈ cands → keep c.key = true) ∨
    (∀ c, c ∈ cands → c.score ≠ none) ∧ ∀ l₁ c l₂, cands = l₁ ++ c :: l₂ → keep c.key = false →
      topk ≤ l₁.countP (fun b => decide (c.notAbove b)) + l₂.countP (fun b => !decide (b.notAbove c))

/-- The score, with no number below all numbers. -/
def Cand.rank (c : Cand F) : WithBot F := c.score.elim ⊥ WithBot.some

/-- The order of the scores, made total. -/
def Cand.below (a b : Cand F) : Prop := a.rank ≤ b.rank

instance : DecidableRel (Cand.below (F := F)) := fun a b => inferInstanceAs (Decidable (a.rank ≤ b.rank))

instance : Std.Total (Cand.below (F := F)) := ⟨fun a b => le_total a.rank b.rank⟩

instance : IsTrans (Cand F) Cand.below := ⟨fun _ b _ hab hbc => le_trans (b := b.rank) hab hbc⟩

lemma Cand.notAbove_iff {a b : Cand F} (ha : a.score ≠ none) (hb : b.score ≠ none) : a.notAbove b ↔ a.below b := by
  obtain ⟨x, hx⟩ := Option.ne_none_iff_exists'.mp ha
  obtain ⟨y, hy⟩ := Option.ne_none_iff_exists'.mp hb
  simp only [notAbove, below, rank, hx, hy, Option.elim_some]
  exact WithBot.coe_le_coe.symm

lemma topK_of_outranked {topk : ℤ} {cands : List (Cand F)} (hnodup : cands.Nodup)
    (h : Outranked topk keep cands) :
    topK Cand.notAbove topk.toNat (cands.filter fun c => keep c.key) = topK Cand.notAbove topk.toNat cands := by
  rcases h with hall | ⟨hnum, hahead⟩
  · rw [filter_eq_self.mpr hall]
  · have hcongr : ∀ a, a ∈ cands → ∀ b, b ∈ cands → (a.notAbove b ↔ a.below b) :=
      fun a ha b hb => Cand.notAbove_iff (hnum a ha) (hnum b hb)
    rw [topK_congr hcongr, topK_congr fun a ha b hb => hcongr a (mem_of_mem_filter ha) b (mem_of_mem_filter hb)]
    refine topK_filter _ hnodup fun l₁ c l₂ hsplit hkeep => ?_
    have hc : c ∈ cands := hsplit ▸ mem_append_right _ mem_cons_self
    have h₁ : l₁.countP (fun b => decide (c.notAbove b)) = l₁.countP fun b => decide (c.below b) :=
      countP_congr fun b hb => by
        simpa using hcongr c hc b (hsplit ▸ mem_append_left _ hb)
    have h₂ : l₂.countP (fun b => !decide (b.notAbove c)) = l₂.countP fun b => !decide (b.below c) :=
      countP_congr fun b hb => by
        simpa using not_congr (hcongr b (hsplit ▸ mem_append_right _ (mem_cons_of_mem c hb)) c hc)
    have := hahead l₁ c l₂ hsplit hkeep
    omega

lemma kvsVectorSearch_filter {dim topk : ℤ} {entries : List (Bytes × Bytes)}
    (hnodup : (entries.map Prod.fst).Nodup)
    (h : Outranked topk keep (entries.filterMap (candOf cosine dim query keyPrefix))) :
    kvsVectorSearch cosine dim query topk keyPrefix (entries.filter fun x => keep x.1) =
      kvsVectorSearch cosine dim query topk keyPrefix entries := by
  rw [kvsVectorSearch, kvsVectorSearch, filterMap_candOf_filter,
    topK_of_outranked (((keys_candOf cosine ..).nodup hnodup).of_map _) h]

end Search

end PocketKv.Storage
