import PocketKv.Storage.Vector
import PocketKv.Store.Edits

/-!
# What the reads see
-/

namespace PocketKv.Store

open Library Resp Storage List

/-! ### The replies -/

/-- What is in a reply. -/
inductive Answer (F : Type) where
  /-- A value or none: `GET` and `OWNER`. -/
  | value (v : Option Bytes)
  /-- Several of them: `MGET`. -/
  | values (vs : List (Option Bytes))
  /-- The best candidates: `VSEARCH`. -/
  | found (r : Except String (List (Cand F)))
  | reply (r : Reply)
  deriving DecidableEq

/-- The loop of `handle_multi_get`. -/
def multiGet (now : ℤ) (e : Engine) : Db → List Bytes → List (Option Bytes)
  | _, [] => []
  | s, k :: ks =>
    let s := tryExpire now s e k
    (engineGet s e k).map cstr :: multiGet now e s ks

/-- The command is `VSEARCH`. -/
def isVsearch (argv : List Bytes) : Bool :=
  stripPrefix (asciiUpper (cstr (argv.getD 0 []))) == str "VSEARCH" && (argv.length == 4 || argv.length == 5)

/-- The prefix of the keys that `VSEARCH` is asked for. -/
def vsearchPrefix (argv : List Bytes) : Bytes := if argv.length = 5 then argv.getD 4 [] else vsearchDefaultPrefix

section Answers

variable {F : Type} [LinearOrder F] (cosine : Bytes → Bytes → Option F)

/-- The branch of `VSEARCH`. -/
def vsearch (scan : List (Bytes × Bytes)) (argv : List Bytes) : Except String (List (Cand F)) :=
  let dim := atoi (argv.getD 1 [])
  let query := argv.getD 2 []
  let topk := atoi (argv.getD 3 [])
  if dim ≤ 0 ∨ topk ≤ 0 ∨ (query.length : ℤ) ≠ dim * 4 then .error "vsearch bad args"
  else kvsVectorSearch cosine dim query topk (vsearchPrefix argv) scan

/-- What a command at the time `now` puts into its reply. -/
def answer (scan : List (Bytes × Bytes)) (now : ℤ) (s : Db) (argv : List Bytes) : Answer F :=
  match decode argv with
  | .get e k => .value (engineGet (tryExpire now s e k) e k)
  | .owner k => .value (engineGet (tryExpire now s .array k) .array k)
  | .mget e (some ks) => .values (multiGet now e s ks)
  | .read => if isVsearch argv then .found (vsearch cosine scan argv) else .reply .data
  | c => .reply (exec now s c).reply

end Answers

/-- The commands that read. -/
def Cmd.reads : Cmd → Bool
  | .get .. | .owner .. | .mget .. | .exist .. | .ttl .. | .read => true
  | _ => false

/-! ### The keys that are alive -/

/-- The data without the keys past their deadlines. -/
def Db.swept (now : ℤ) (s : Db) : Db := expireAll now s s.ttl.keys

/-- The value of a key that is not past its deadline. -/
def Db.liveKv (now : ℤ) (s : Db) (x : Slot) : Option Bytes := if expireIsExpired now s x.1 x.2 then none else s.kv.lookup x

/-- The deadline of a key that is not past it. -/
def Db.liveTtl (now : ℤ) (s : Db) (x : Slot) : Option ℤ := if expireIsExpired now s x.1 x.2 then none else s.ttl.lookup x

section Live

variable {now : ℤ} {s : Db}

lemma lookup_tryExpire (now : ℤ) (s : Db) (e : Engine) (k : Bytes) (x : Slot) :
    (tryExpire now s e k).kv.lookup x =
        (if x = (e, k) ∧ expireIsExpired now s e k = true then none else s.kv.lookup x) ∧
      (tryExpire now s e k).ttl.lookup x =
        if x = (e, k) ∧ expireIsExpired now s e k = true then none else s.ttl.lookup x := by
  rw [tryExpire_eq]
  by_cases h : expireIsExpired now s e k = true
  · simp [h, Db.drop, lookup_erase_eq]
  · simp [h]

lemma expireIsExpired_congr {t : Db} {x : Slot} (h : t.ttl.lookup x = s.ttl.lookup x) :
    expireIsExpired now t x.1 x.2 = expireIsExpired now s x.1 x.2 := by
  unfold expireIsExpired
  rw [h]

lemma live_tryExpire (e : Engine) (k : Bytes) :
    (tryExpire now s e k).liveKv now = s.liveKv now ∧ (tryExpire now s e k).liveTtl now = s.liveTtl now := by
  refine ⟨funext fun x => ?_, funext fun x => ?_⟩
  all_goals
    obtain ⟨hkv, httl⟩ := lookup_tryExpire now s e k x
    by_cases h : x = (e, k) ∧ expireIsExpired now s e k = true
    · obtain ⟨rfl, hexp⟩ := h
      simp_all [Db.liveKv, Db.liveTtl]
    · rw [if_neg h] at hkv httl
      simp only [Db.liveKv, Db.liveTtl, hkv, httl, expireIsExpired_congr httl]

lemma live_expireAll (now : ℤ) (s : Db) (slots : List Slot) :
    (expireAll now s slots).liveKv now = s.liveKv now ∧ (expireAll now s slots).liveTtl now = s.liveTtl now := by
  induction slots generalizing s with
  | nil => exact ⟨rfl, rfl⟩
  | cons x slots ih =>
    obtain ⟨hkv, httl⟩ := ih (tryExpire now s x.1 x.2)
    exact ⟨hkv.trans (live_tryExpire x.1 x.2).1, httl.trans (live_tryExpire x.1 x.2).2⟩

lemma lookup_expireAll (slots : List Slot) (x : Slot) :
    (expireAll now s slots).kv.lookup x =
        (if x ∈ slots ∧ expireIsExpired now s x.1 x.2 = true then none else s.kv.lookup x) ∧
      (expireAll now s slots).ttl.lookup x =
        (if x ∈ slots ∧ expireIsExpired now s x.1 x.2 = true then none else s.ttl.lookup x) := by
  induction slots generalizing s with
  | nil => simp [expireAll]
  | cons y slots ih =>
    obtain ⟨hkv, httl⟩ := lookup_tryExpire now s y.1 y.2 x
    have hcons : expireAll now s (y :: slots) = expireAll now (tryExpire now s y.1 y.2) slots := rfl
    rw [hcons, (ih (s := tryExpire now s y.1 y.2)).1, (ih (s := tryExpire now s y.1 y.2)).2, hkv, httl]
    by_cases hx : x = y ∧ expireIsExpired now s y.1 y.2 = true
    · obtain ⟨rfl, hexp⟩ := hx
      simp [hexp]
    · have hy : ¬ (x = (y.1, y.2) ∧ expireIsExpired now s y.1 y.2 = true) := hx
      rw [if_neg hy] at httl
      rw [expireIsExpired_congr httl, if_neg hy, if_neg hy]
      by_cases hxy : x = y
      · subst hxy
        have hexp : expireIsExpired now s x.1 x.2 ≠ true := fun h => hx ⟨rfl, h⟩
        simp [hexp]
      · simp [hxy]

lemma lookup_swept (x : Slot) : (s.swept now).kv.lookup x = s.liveKv now x := by
  rw [Db.swept, (lookup_expireAll _ x).1, Db.liveKv]
  by_cases hexp : expireIsExpired now s x.1 x.2 = true
  · obtain ⟨d, hd, -⟩ := expireIsExpired_iff.mp hexp
    have hmem : x ∈ s.ttl.keys := mem_of_lookup hd
    simp [hmem, hexp]
  · simp [hexp]

/-! ### What the reads see of a key -/

lemma engineGet_tryExpire (e : Engine) (k : Bytes) : engineGet (tryExpire now s e k) e k = s.liveKv now (e, k) := by
  rw [engineGet, (lookup_tryExpire ..).1, Db.liveKv]
  simp

lemma engineExist_eq_liveKv (e : Engine) (k : Bytes) :
    engineExist (tryExpire now s e k) e k = (s.liveKv now (e, k)).isSome :=
  congrArg Option.isSome (engineGet_tryExpire e k)

lemma multiGet_eq (e : Engine) (ks : List Bytes) : multiGet now e s ks = ks.map fun k => (s.liveKv now (e, k)).map cstr := by
  induction ks generalizing s with
  | nil => rfl
  | cons k ks ih => rw [multiGet, engineGet_tryExpire, ih, (live_tryExpire e k).1, map_cons]

lemma expireTtl_tryExpire (e : Engine) (k : Bytes) : expireTtl now (tryExpire now s e k) e k =
    (s.liveTtl now (e, k)).elim (-1) fun d => (d - now + 999) / 1000 := by
  rw [expireTtl, (lookup_tryExpire ..).2, Db.liveTtl]
  unfold expireIsExpired
  cases hl : s.ttl.lookup (e, k) with
  | none => simp
  | some d => by_cases hd : d ≤ now <;> simp [hd]

end Live

/-! ### The replies of the swept store -/

section Swept

variable {F : Type} [LinearOrder F] (cosine : Bytes → Bytes → Option F) (now : ℤ) (s : Db) {argv : List Bytes}

lemma answer_swept (hread : (decode argv).reads = true) {scan scan' : List (Bytes × Bytes)}
    (hsearch : isVsearch argv = true → vsearch cosine scan argv = vsearch cosine scan' argv) :
    answer cosine scan now s argv = answer cosine scan' now (s.swept now) argv := by
  obtain ⟨hkv, httl⟩ := live_expireAll now s s.ttl.keys
  change (s.swept now).liveKv now = _ at hkv
  change (s.swept now).liveTtl now = _ at httl
  unfold answer
  cases hc : decode argv with
  | get e k | owner k => simp only [engineGet_tryExpire, hkv]
  | mget e ks =>
    cases ks with
    | none => rfl
    | some ks => simp only [multiGet_eq, hkv]
  | exist e k => simp only [exec, engineExist_eq_liveKv, hkv]
  | ttl e k => simp only [exec, engineExist_eq_liveKv, expireTtl_tryExpire, hkv, httl]
  | read =>
    simp only
    split
    · rw [hsearch ‹_›]
    · rfl
  | control | lock k token ms | unlock k token | renew k token ms | docset d f v | docdel d f | docdrop d | docexist d
  | doccount d | set e k v | mset e first kvs | mod e k v | del e k | expire e k secs | setex e k secs v | persist e k
  | unknown a =>
    rw [hc] at hread
    cases hread

/-- The entries of the hash engine. -/
def Db.hashEntries (s : Db) : List (Bytes × Bytes) :=
  (s.kv.entries.filter fun x => x.1.1 = .hash).map fun x => (x.1.2, x.2)

/-- The key is not past its deadline. -/
def Db.fresh (e : Engine) (k : Bytes) : Bool := !expireIsExpired now s e k

variable {s} {scan : List (Bytes × Bytes)}

lemma mem_hashEntries {k v : Bytes} : (k, v) ∈ s.hashEntries ↔ s.kv.lookup (.hash, k) = some v := by
  have hentry : s.kv.lookup (.hash, k) = some v ↔ (⟨(.hash, k), v⟩ : Sigma fun _ : Slot => Bytes) ∈ s.kv.entries :=
    AList.mem_lookup_iff
  rw [hentry, Db.hashEntries, mem_map]
  constructor
  · rintro ⟨⟨⟨e, k'⟩, v'⟩, hmem, heq⟩
    obtain ⟨hmem, he⟩ := mem_filter.mp hmem
    cases heq
    cases of_decide_eq_true he
    exact hmem
  · intro hmem
    exact ⟨_, mem_filter.mpr ⟨hmem, by simp⟩, rfl⟩

lemma nodup_hashEntries (s : Db) : (s.hashEntries.map Prod.fst).Nodup := by
  have hsub : ((s.kv.entries.filter fun x => x.1.1 = .hash).map Sigma.fst).Nodup :=
    (filter_sublist.map _).nodup s.kv.nodupKeys
  have hkeys : (s.hashEntries.map Prod.fst).map (Prod.mk Engine.hash) =
      (s.kv.entries.filter fun x => x.1.1 = .hash).map Sigma.fst := by
    rw [Db.hashEntries, map_map, map_map]
    refine map_congr_left fun x hx => ?_
    obtain ⟨⟨e, k⟩, v⟩ := x
    obtain rfl : e = .hash := of_decide_eq_true (mem_filter.mp hx).2
    rfl
  exact (hkeys ▸ hsub).of_map _

lemma perm_hashEntries_swept (h : scan.Perm s.hashEntries) :
    (scan.filter fun x => s.fresh now .hash x.1).Perm (s.swept now).hashEntries := by
  have hnodup : scan.Nodup := h.nodup_iff.mpr (nodup_hashEntries s).of_map
  refine (perm_ext_iff_of_nodup (hnodup.filter _) (nodup_hashEntries _).of_map).mpr fun x => ?_
  obtain ⟨k, v⟩ := x
  rw [mem_filter, h.mem_iff, mem_hashEntries, mem_hashEntries, lookup_swept, Db.liveKv, Db.fresh]
  cases expireIsExpired now s .hash k <;> simp

/-- The arguments of a search are accepted. -/
def searchAccepted (argv : List Bytes) : Bool :=
  let dim := atoi (argv.getD 1 [])
  let topk := atoi (argv.getD 3 [])
  0 < dim && 0 < topk && ((argv.getD 2 []).length : ℤ) == dim * 4 && allowedDim dim && topk ≤ 100 &&
    validPrefix (vsearchPrefix argv)

variable (s)

/-- Keys past their deadlines are outranked in the search. -/
def SearchClean (scan : List (Bytes × Bytes)) (argv : List Bytes) : Prop :=
  searchAccepted argv = true → Outranked (atoi (argv.getD 3 [])) (s.fresh now .hash)
    (scan.filterMap (candOf cosine (atoi (argv.getD 1 [])) (argv.getD 2 []) (vsearchPrefix argv)))

lemma vsearch_swept (hscan : scan.Perm s.hashEntries)
    (hclean : SearchClean cosine now s scan argv) :
    vsearch cosine (scan.filter fun x => s.fresh now .hash x.1) argv = vsearch cosine scan argv := by
  have hnodup : (scan.map Prod.fst).Nodup := (hscan.map _).nodup_iff.mpr (nodup_hashEntries s)
  unfold vsearch
  simp only
  split
  · rfl
  · rename_i hargs
    simp only [not_or, not_le, not_not] at hargs
    by_cases hacc : searchAccepted argv = true
    · exact kvsVectorSearch_filter cosine hnodup (hclean hacc)
    · -- A search that is not accepted is refused before it comes to the entries.
      have hrefused : ¬ (allowedDim (atoi (argv.getD 1 [])) = true ∧ atoi (argv.getD 3 []) ≤ 100 ∧
          validPrefix (vsearchPrefix argv) = true) := by
        rintro ⟨hdim, htopk, hprefix⟩
        refine hacc ?_
        simp only [searchAccepted, Bool.and_eq_true, decide_eq_true_eq, beq_iff_eq]
        exact ⟨⟨⟨⟨⟨hargs.1, hargs.2.1⟩, hargs.2.2⟩, hdim⟩, htopk⟩, hprefix⟩
      unfold kvsVectorSearch
      split
      · rfl
      · rename_i hdim
        split
        · rfl
        · rename_i hprefix
          simp only [Bool.or_eq_true, Bool.not_eq_true', decide_eq_true_eq, not_or, not_lt, Bool.not_eq_false] at hdim hprefix
          exact absurd ⟨hdim.1.1, hdim.2, hprefix⟩ hrefused

end Swept

end PocketKv.Store
