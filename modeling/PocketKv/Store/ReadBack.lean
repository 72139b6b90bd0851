import PocketKv.Resp.Replies
import PocketKv.Store.Keys

/-!
# Reading what was written
-/

namespace PocketKv.Store

open Library Resp List Function

/-! ### Writers -/

/-- The arguments of `MSET` in pairs, with the values as they came. -/
def rawPairs : List Bytes → List (Bytes × Bytes)
  | k :: v :: t => (cstr k, v) :: rawPairs t
  | _ => []

/-- The last value of the key among pairs. -/
def lastValue (k : Bytes) (kvs : List (Bytes × Bytes)) : Option Bytes :=
  kvs.foldl (fun acc kv => if kv.1 = k then some kv.2 else acc) none

/-- The argument that the command stores under the key. -/
def storesAt (argv : List Bytes) (x : Slot) : Option Bytes :=
  match decode argv with
  | .set e k _ | .mod e k _ => if x = (e, k) then argv[2]? else none
  | .setex e k _ _ => if x = (e, k) then argv[3]? else none
  | .mset e _ (some _) => if x.1 = e then lastValue x.2 (rawPairs argv.tail) else none
  | _ => none

/-- The command hands the length of the value on: `HSET` and `HSETEX`. -/
def lengthAware (argv : List Bytes) : Bool :=
  match decode argv with
  | .set .hash _ _ | .setex .hash _ _ _ => true
  | _ => false

/-- What a command stores is one of its arguments, as it came or as a C string. -/
def Cmd.Takes (argv : List Bytes) : Cmd → Prop
  | .set e _ v => v = storedValue e (argv.getD 2 [])
  | .setex e _ _ v => v = storedValue e (argv.getD 3 [])
  | .mod _ _ v => v = cstr (argv.getD 2 [])
  | .mset _ _ (some kvs) => pairs argv.tail = some kvs
  | _ => True

variable {argv : List Bytes}

lemma Cmd.Takes.ite {p : Prop} [Decidable p] {a b : Cmd} (ha : a.Takes argv) (hb : b.Takes argv) :
    (if p then a else b).Takes argv := by
  split
  · exact ha
  · exact hb

lemma mset_takes (e : Engine) (first : Option Bytes) (argv : List Bytes) :
    (Cmd.mset e first (if argv.length < 3 then none else pairs argv.tail)).Takes argv := by
  by_cases hargc : argv.length < 3
  · rw [if_pos hargc]
    exact True.intro
  · rw [if_neg hargc]
    cases hkvs : pairs argv.tail with
    | none => exact True.intro
    | some kvs => exact hkvs

lemma decode_takes (argv : List Bytes) : (decode argv).Takes argv := by
  have hengine (e : Engine) (op : Bytes) : (decodeEngine e op argv).Takes argv := by
    refine .ite rfl (.ite (mset_takes e _ argv) (.ite rfl ?_))
    iterate 6 refine .ite True.intro ?_
    refine .ite rfl ?_
    iterate 2 refine .ite True.intro ?_
    exact True.intro
  unfold decode
  iterate 12 refine .ite True.intro ?_
  exact hengine _ _

lemma pairs_eq_rawPairs {l : List Bytes} {kvs : List (Bytes × Bytes)} (h : pairs l = some kvs) :
    kvs = (rawPairs l).map fun kv => (kv.1, cstr kv.2) := by
  induction l using pairs.induct generalizing kvs with
  | case1 =>
    cases h
    rfl
  | case2 k => cases h
  | case3 k v t ih =>
    obtain ⟨rest, hrest, rfl⟩ := Option.map_eq_some_iff.mp h
    rw [rawPairs, map_cons, ih hrest]

lemma applyWrites_pairs (e : Engine) (k : Bytes) (kvs : List (Bytes × Bytes)) (m : Cell → Option Val) {acc : Option Bytes}
    (hm : ∀ v, acc = some v → m (.kv (e, k)) = some (.bytes (cstr v))) {v : Bytes}
    (h : kvs.foldl (fun acc kv => if kv.1 = k then some kv.2 else acc) acc = some v) :
    applyWrites m (pairWrites e (kvs.map fun kv => (kv.1, cstr kv.2))) (.kv (e, k)) = some (.bytes (cstr v)) := by
  induction kvs generalizing m acc with
  | nil => exact hm v h
  | cons kv kvs ih =>
    rw [map_cons, pairWrites, map_cons, applyWrites_cons, ← pairWrites]
    refine ih _ (fun w hw => ?_) h
    simp only at hw ⊢
    split at hw
    · rename_i heq
      obtain rfl := Option.some.inj hw
      rw [heq, update_self]
    · rename_i hne
      rw [update_of_ne (by simp [Ne.symm hne])]
      exact hm w hw

/-- The value as it is stored. -/
def keptAs (argv : List Bytes) (v : Bytes) : Bytes := if lengthAware argv then v else cstr v

lemma storedValue_eq (e : Engine) (v : Bytes) : storedValue e v = if e = .hash then v else cstr v := by
  cases e <;> rfl

lemma lookup_of_storesAt {now : ℤ} {s : Db} {x : Slot} {v : Bytes} (hv : storesAt argv x = some v)
    (hw : (exec now s (decode argv)).wrote = true) :
    (exec now s (decode argv)).db.kv.lookup x = some (keptAs argv v) := by
  have hcell := congrFun (exec_overwrites (decode_formed argv) hw) (.kv x)
  have htakes := decode_takes argv
  refine map_bytes_inj (hcell.trans ?_)
  unfold storesAt at hv
  unfold keptAs lengthAware
  cases hc : decode argv with
  | set e k w =>
    rw [hc] at hv htakes
    obtain ⟨rfl, harg⟩ := Option.ite_none_right_eq_some.mp hv
    rw [Cmd.op, Op.assignCell_overwrite, update_self, htakes, storedValue_eq, getD_eq_getElem?_getD, harg]
    cases e <;> rfl
  | setex e k secs w =>
    rw [hc] at hv htakes
    obtain ⟨rfl, harg⟩ := Option.ite_none_right_eq_some.mp hv
    rw [Cmd.op, Op.assignCell_overwrite, update_self, htakes, storedValue_eq, getD_eq_getElem?_getD, harg]
    cases e <;> rfl
  | mod e k w =>
    rw [hc] at hv htakes
    obtain ⟨rfl, harg⟩ := Option.ite_none_right_eq_some.mp hv
    rw [Cmd.op, Op.assignIf_overwrite, update_self, htakes, getD_eq_getElem?_getD, harg]
    rfl
  | mset e first kvs =>
    rw [hc] at hv htakes
    cases kvs with
    | none => cases hv
    | some kvs =>
      obtain ⟨rfl, harg⟩ := Option.ite_none_right_eq_some.mp hv
      rw [Cmd.op, Op.writes_overwrite, pairs_eq_rawPairs htakes]
      exact applyWrites_pairs x.1 x.2 _ _ (fun w hw => by cases hw) harg
  | _ =>
    rw [hc] at hv
    cases hv

/-! ### Readers -/

/-- The command is `GET` of the key, or `MGET` of it and others. -/
inductive Reads (argv : List Bytes) (x : Slot) : Prop where
  | get (h : decode argv = .get x.1 x.2)
  | mget (ks : List Bytes) (h : decode argv = .mget x.1 (some ks)) (hmem : x.2 ∈ ks)

/-- The reply of a reader. -/
def readReply (now : ℤ) (s : Db) (argv : List Bytes) : RespReply :=
  match decode argv with
  | .get e k => getReply (engineGet (tryExpire now s e k) e k)
  | .mget e (some ks) => mgetReply (multiGet now e s ks)
  | _ => .error (str "mget failed")

/-- The reader is `GET`. -/
def isGet (argv : List Bytes) : Bool :=
  match decode argv with
  | .get .. => true
  | _ => false

/-- The values fit into a reply: 256 KiB for `GET`, 64 KiB with the headers for `MGET`. -/
def readFits (now : ℤ) (s : Db) (argv : List Bytes) : Bool :=
  match decode argv with
  | .get e k => (s.liveKv now (e, k)).all fun v => v.length + 16 ≤ outRingSize
  | .mget e (some ks) =>
    (RespReply.array (ks.map fun k => (s.liveKv now (e, k)).map cstr)).encode.length ≤ bufferCap
  | _ => true

/-- The reply has the value for the key. -/
def Returns (argv : List Bytes) (x : Slot) (v : Bytes) (r : RespReply) : Prop :=
  match decode argv with
  | .get .. => r = .bulk (some v)
  | .mget _ (some ks) => ∃ vs, r = .array vs ∧ ∀ i : ℕ, ks[i]? = some x.2 → vs[i]? = some (some v)
  | _ => False

section Readers

variable {now : ℤ} {s : Db} {x : Slot} {v w : Bytes}

lemma returns_iff (hr : Reads argv x) (hlive : s.liveKv now x = some w) :
    (Returns argv x v (readReply now s argv) ∨ ∃ text, readReply now s argv = .error text) ↔
      v = (if isGet argv then w else cstr w) ∨ readFits now s argv = false := by
  cases hr with
  | get h =>
    simp only [Returns, readReply, isGet, readFits, h, engineGet_tryExpire, hlive, if_true, Option.all_some, getReply]
    by_cases hfits : w.length + 16 ≤ outRingSize
    · simp [hfits, eq_comm]
    · simp [hfits]
  | mget ks h hmem =>
    have hne : ks ≠ [] := ne_nil_of_mem hmem
    simp only [Returns, readReply, isGet, readFits, h, multiGet_eq]
    rw [mgetReply_eq (by simpa using hne)]
    by_cases hfits : (RespReply.array (ks.map fun k => (s.liveKv now (x.1, k)).map cstr)).encode.length ≤ bufferCap
    · simp only [hfits, if_true, reduceCtorEq, exists_false, or_false, decide_true, Bool.true_eq_false,
        Bool.false_eq_true, if_false]
      constructor
      · rintro ⟨vs, hvs, hall⟩
        obtain rfl := RespReply.array.inj hvs
        obtain ⟨i, hi⟩ := mem_iff_getElem?.mp hmem
        have hitem := hall i hi
        rw [getElem?_map, hi, Option.map_some, hlive] at hitem
        exact (Option.some.inj (Option.some.inj hitem)).symm
      · rintro rfl
        refine ⟨_, rfl, fun i hi => ?_⟩
        rw [getElem?_map, hi, Option.map_some, hlive]
        rfl
    · simp [hfits]

/-- The event does not name the key. -/
def StoreEvent.spares (x : Slot) : StoreEvent → Prop
  | .command argv => x ∉ (decode argv).keys
  | .cycle _ => True

lemma agree_of_spared {u : ℤ} {evs : List (ℤ × StoreEvent)} (hevs : ∀ ev ∈ evs, ev.1 ≤ u ∧ ev.2.spares x)
    (hdue : ∀ d, s.ttl.lookup x = some d → u < d) : AgreeAt x s (evs.foldl (fun s ev => ev.2.apply ev.1 s) s) := by
  induction evs generalizing s with
  | nil => exact .refl
  | cons ev evs ih =>
    obtain ⟨htime, hspares⟩ := hevs ev mem_cons_self
    have hone : AgreeAt x s (ev.2.apply ev.1 s) := by
      obtain ⟨t, ev⟩ := ev
      cases ev with
      | command argv => exact exec_frame t s hspares
      | cycle slots =>
        have halive : ¬ (x ∈ slots ∧ expireIsExpired t s x.1 x.2 = true) := by
          rintro ⟨-, hexp⟩
          obtain ⟨d, hd, hle⟩ := expireIsExpired_iff.mp hexp
          exact absurd (hdue d hd) (not_lt.mpr (hle.trans htime))
        rw [AgreeAt, StoreEvent.apply, (lookup_expireAll slots x).1, (lookup_expireAll slots x).2, if_neg halive, if_neg halive]
        exact ⟨rfl, rfl⟩
    refine hone.trans (ih (fun ev' hev' => hevs ev' (mem_cons_of_mem _ hev')) fun d hd => ?_)
    exact hdue d (hone.2 ▸ hd)

lemma liveKv_of_agree {u : ℤ} {s' : Db} (h : AgreeAt x s s') (hkv : s.kv.lookup x = some w)
    (hdue : ∀ d, s.ttl.lookup x = some d → u < d) : s'.liveKv u x = some w := by
  have halive : ¬ expireIsExpired u s' x.1 x.2 = true := by
    intro hexp
    rw [expireIsExpired_congr h.2] at hexp
    obtain ⟨d, hd, hle⟩ := expireIsExpired_iff.mp hexp
    exact absurd (hdue d hd) (not_lt.mpr hle)
  rw [Db.liveKv, if_neg halive, h.1, hkv]

lemma eq_read_iff {rargv : List Bytes} : v = (if isGet rargv then keptAs argv v else cstr (keptAs argv v)) ↔
    0 ∉ v ∨ lengthAware argv = true ∧ isGet rargv = true := by
  have hcstr : v = cstr v ↔ 0 ∉ v := by
    refine ⟨fun h => ?_, fun h => (cstr_eq_self fun b hb heq => h (heq ▸ hb)).symm⟩
    rw [h]
    exact fun hmem => absurd (mem_takeWhile_imp hmem) (by decide)
  unfold keptAs
  cases lengthAware argv with
  | true => cases isGet rargv <;> simp [hcstr]
  | false => cases isGet rargv <;> simp [hcstr, cstr_cstr]

lemma wrote_of_storesAt {t : ℤ} (hv : storesAt argv x = some v) (hs : (exec t s (decode argv)).reply.success = true) :
    (exec t s (decode argv)).wrote = true := by
  unfold storesAt at hv
  cases hc : decode argv with
  | set e k w =>
    rw [hc] at hs
    simp only [exec] at hs ⊢
    rcases hr : engineSet (tryExpire t s e k) e k w with ⟨rc, s'⟩
    rw [hr] at hs
    cases rc with
    | ok => rfl
    | miss =>
      unfold engineSet engineMod at hr
      split at hr
      · cases hr
      · split at hr <;> cases hr
    | fail => cases hs
  | setex e k secs w | mod e k w | mset e first kvs =>
    rw [hc] at hs
    exact settle_wrote hs
  | _ =>
    rw [hc] at hv
    cases hv

end Readers

/-- **Read your writes**: a reader gets the value that was stored, or is told that it does not fit, just if it has
no zero byte, or was stored by `HSET` or `HSETEX` and is read by `HGET`, or does not fit. -/
theorem read_your_writes {t u : ℤ} {s : Db} {argv rargv : List Bytes} {x : Slot} {v : Bytes} {evs : List (ℤ × StoreEvent)}
    (hs : (exec t s (decode argv)).reply.success = true) (hv : storesAt argv x = some v)
    (hevs : ∀ ev ∈ evs, ev.1 ≤ u ∧ ev.2.spares x)
    (hdue : ∀ d, (exec t s (decode argv)).db.ttl.lookup x = some d → u < d) (hr : Reads rargv x) :
    let s' := evs.foldl (fun s ev => ev.2.apply ev.1 s) (exec t s (decode argv)).db
    (Returns rargv x v (readReply u s' rargv) ∨ ∃ text, readReply u s' rargv = .error text) ↔
      0 ∉ v ∨ (lengthAware argv = true ∧ isGet rargv = true) ∨ readFits u s' rargv = false := by
  intro s'
  have hkept := lookup_of_storesAt hv (wrote_of_storesAt hv hs)
  have hlive : s'.liveKv u x = some (keptAs argv v) := liveKv_of_agree (agree_of_spared hevs hdue) hkept hdue
  rw [returns_iff hr hlive, eq_read_iff, or_assoc]

/-- `HSETEX k 10 v`, where `v` has a zero byte. -/
def setBinary : List Bytes := [str "HSETEX", str "k", str "10", [1, 0, 2]]

/-- A value with a zero byte, read by `HGET` after another key was set. -/
theorem read_your_writes_binary :
    let s := (exec 5 (exec 0 .empty (decode setBinary)).db (decode [str "SET", str "k", str "x"])).db
    Returns [str "HGET", str "k"] (.hash, str "k") [1, 0, 2] (readReply 9999 s [str "HGET", str "k"]) ∨
      ∃ text, readReply 9999 s [str "HGET", str "k"] = .error text := by
  have hs : (exec 0 .empty (decode setBinary)).reply.success = true := by decide +kernel
  have hv : storesAt setBinary (.hash, str "k") = some [1, 0, 2] := by decide +kernel
  have hevs : ∀ ev ∈ [((5 : ℤ), StoreEvent.command [str "SET", str "k", str "x"])],
      ev.1 ≤ 9999 ∧ ev.2.spares (.hash, str "k") := by
    intro ev hev
    obtain rfl := mem_singleton.mp hev
    exact ⟨by decide, show _ ∉ (decode [str "SET", str "k", str "x"]).keys by decide +kernel⟩
  have hdue : ∀ d, (exec 0 .empty (decode setBinary)).db.ttl.lookup (.hash, str "k") = some d → 9999 < d := by
    intro d hd
    have hdeadline : (exec 0 .empty (decode setBinary)).db.ttl.lookup (.hash, str "k") = some 10000 := by decide +kernel
    cases hdeadline.symm.trans hd
    decide
  exact (read_your_writes hs hv hevs hdue (.get (by decide +kernel))).mpr (.inr (.inl (by decide +kernel)))

/-- **`HMGET` cuts a value at its first zero byte.** -/
theorem mget_cuts_value :
    (exec 0 .empty (decode [str "HSET", str "k", [1, 0, 2]])).reply = .ok ∧
      readReply 0 (exec 0 .empty (decode [str "HSET", str "k", [1, 0, 2]])).db [str "HMGET", str "k"] =
        .array [some [1]] := by
  decide +kernel

end PocketKv.Store
