import PocketKv.Resp.Replies
import PocketKv.Store.Reads

/-!
# The output of a connection
-/

namespace PocketKv.Client

open Library Resp Storage Store List Option

/-- A handler gives a piece to `queue_bytes`, whose result it does not look at. -/
def queuePiece (out : Bytes) : Option Bytes → Bytes
  | none => out
  | some piece => (queueBytes piece out).getD out

/-- All pieces of a reply, one after the other. -/
def queueAll (out : Bytes) (pieces : List (Option Bytes)) : Bytes := pieces.foldl queuePiece out

/-! ### What the handlers pass on -/

/-- What the replies depend on besides the keys. -/
structure Surroundings (F : Type) where
  /-- `persist_append_prepare` does not return `KVS_PERSIST_ERR`. -/
  appends : Bool
  /-- The fields of a document, bucket by bucket. -/
  buckets : Bytes → List (List (Bytes × Bytes))
  /-- The keys and values in the order in which `VSEARCH` looks at them. -/
  scan : List (Bytes × Bytes)
  /-- `cosine`. -/
  cosine : Bytes → Bytes → Option F
  /-- A score, as `"%.4f"` prints it. -/
  print : Option F → Bytes

section Handlers

variable {F : Type} [LinearOrder F] (env : Surroundings F) (now : ℤ) (s : Db)

/-- A reply of `exec`, other than data. -/
def ofReply : Reply → RespReply
  | .ok => .simple (str "OK")
  | .int n => .int n
  | .data => .bulk none
  | .err text => .error (str text)

/-- One candidate in the loop of `kvs_vector_search`. -/
def printCand (print : Option F → Bytes) (cap : ℕ) (out : Bytes) (c : Cand F) : Option Bytes :=
  if cap < out.length + 2 + c.key.length + 2 + 16 then none
  else
    match respBulk (cap - out.length) c.key with
    | none => none
    | some key =>
      (respBulk (cap - (out ++ key).length) (print c.score)).map (out ++ key ++ ·)

/-- The strings of the reply of `VSEARCH`. -/
def candValues (print : Option F → Bytes) (cands : List (Cand F)) : List (Option Bytes) :=
  fieldValues (cands.map fun c => (c.key, print c.score))

/-- What `kvs_vector_search` prints; nothing if it returns `-1`. -/
def printCands (print : Option F → Bytes) (cap : ℕ) (cands : List (Cand F)) : Option Bytes :=
  cands.foldlM (printCand print cap) (arrayHeader (cands.length * 2))

/-- The reply of `VSEARCH`, as bytes. -/
def vsearchBytes (argv : List Bytes) : Bytes :=
  match vsearch env.cosine env.scan argv with
  | .error text => (RespReply.error (str text)).encode
  | .ok cands => (printCands env.print bufferCap cands).getD (RespReply.error (str "vsearch failed")).encode

/-- `kvs_doc_get`. -/
def docGet (d f : Bytes) : Option Bytes := (s.docs.lookup d).bind (·.lookup f)

/-- The reply of `DOCGETALL`, as bytes. -/
def docgetallBytes (d : Bytes) : Bytes :=
  match s.docs.lookup d with
  | none => str "*0\r\n"
  | some fields => if fields.keys.length = 0 then str "*0\r\n" else docFields bufferCap fields.keys.length (env.buckets d)

/-- A value or null in the handler's buffer; nothing if the length is `-1`. -/
def bulkPiece : Option Bytes → Option Bytes
  | none => some (bulkBytes none)
  | some v => respBulk bufferCap v

/-- The pieces of the reply of `GET`. -/
def getPieces : Option Bytes → List (Option Bytes)
  | none => [some (bulkBytes none)]
  | some v =>
    if v.length + 16 ≤ outRingSize then [some (bulkHeader v.length), some v, some crlf]
    else [some (RespReply.error (str "value too large (max 256KB)")).encode]

/-- The name of a command, in capitals. -/
def cmdName (argv : List Bytes) : Bytes := asciiUpper (cstr (argv.getD 0 []))

/-- What the handler of a command passes to `queue_bytes`. -/
def replyPieces (argv : List Bytes) : List (Option Bytes) :=
  match decode argv with
  | .get e k => getPieces (engineGet (tryExpire now s e k) e k)
  | .owner k => [bulkPiece (engineGet (tryExpire now s .array k) .array k)]
  | .mget e (some ks) =>
    [some ((respArrayFromValues bufferCap (multiGet now e s ks)).getD (RespReply.error (str "mget failed")).encode)]
  | .read =>
    if isVsearch argv then [some (vsearchBytes env argv)]
    else if cmdName argv = str "DOCGET" then [bulkPiece (docGet s (cstr (argv.getD 1 [])) (cstr (argv.getD 2 [])))]
    else [some (docgetallBytes env s (cstr (argv.getD 1 [])))]
  | c =>
    let o := exec now s c
    if o.wrote && !env.appends then [some (RespReply.error (str "AOF write failed")).encode]
    else [some (ofReply o.reply).encode]

/-! ### The replies that are meant -/

/-- The reply of `VSEARCH`. -/
def vsearchReply (argv : List Bytes) : RespReply :=
  match vsearch env.cosine env.scan argv with
  | .error text => .error (str text)
  | .ok cands =>
    if (printCands env.print bufferCap cands).isSome then .array (candValues env.print cands)
    else .error (str "vsearch failed")

/-- The reply that a handler means to give. -/
def meant (argv : List Bytes) : RespReply :=
  match decode argv with
  | .get e k => getReply (engineGet (tryExpire now s e k) e k)
  | .owner k => .bulk (engineGet (tryExpire now s .array k) .array k)
  | .mget e (some ks) => mgetReply (multiGet now e s ks)
  | .read =>
    if isVsearch argv then vsearchReply env argv
    else if cmdName argv = str "DOCGET" then .bulk (docGet s (cstr (argv.getD 1 [])) (cstr (argv.getD 2 [])))
    else .array (fieldValues (env.buckets (cstr (argv.getD 1 []))).flatten)
  | c =>
    let o := exec now s c
    if o.wrote && !env.appends then .error (str "AOF write failed") else ofReply o.reply

/-- Built in the handler's buffer, without an error for one that does not fit: `OWNER`, `DOCGET` and `DOCGETALL`. -/
def buffered (argv : List Bytes) : Bool :=
  match decode argv with
  | .owner _ => true
  | .read => !isVsearch argv
  | _ => false

/-- An array whose last byte, in a null, would be the last of the handler's buffer. -/
def endsInNull : RespReply → Bool
  | .array vs => vs.getLast? = some none ∧ (RespReply.array vs).encode.length = bufferCap
  | _ => false

end Handlers

/-! ### One complete reply -/

/-- There is one more reply in the ring. -/
def Answered (out result : Bytes) : Prop := ∃ r : RespReply, r.Proper ∧ result = out ++ r.encode

variable {vs : List (Option Bytes)} {v : Bytes}

section Answered

variable {out piece : Bytes} {r : RespReply}

lemma queuePiece_dropped (h : piece = [] ∨ outRingSize - out.length < piece.length) :
    queuePiece out (some piece) = out := by
  rw [queuePiece, queueBytes_eq_none h, getD_none]

lemma queuePiece_taken (hne : piece ≠ []) (h : piece.length ≤ outRingSize - out.length) :
    queuePiece out (some piece) = out ++ piece := by
  rw [queuePiece, queueBytes_eq_some hne h, getD_some]

lemma not_answered_of_short {bs : Bytes} (h : bs.length < 4) : ¬ Answered out (out ++ bs) := by
  rintro ⟨r, hr, heq⟩
  have hlen := RespReply.four_le_length hr
  rw [← append_cancel_left heq] at hlen
  omega

lemma not_answered_self : ¬ Answered out out := by
  have hnone : ¬ Answered out (out ++ []) := not_answered_of_short (by decide)
  rwa [append_nil] at hnone

lemma not_answered_of_malformed (h : ∀ r : RespReply, piece ≠ r.encode) : ¬ Answered out (queuePiece out (some piece)) := by
  by_cases hdrop : piece = [] ∨ outRingSize - out.length < piece.length
  · rw [queuePiece_dropped hdrop]
    exact not_answered_self
  · rw [not_or, not_lt] at hdrop
    rw [queuePiece_taken hdrop.1 hdrop.2]
    rintro ⟨r, -, heq⟩
    exact h r (append_cancel_left heq)

lemma answered_iff (hr : r.Proper) : Answered out (queuePiece out (some r.encode)) ↔ r.encode.length ≤ outRingSize - out.length := by
  have hlen := RespReply.four_le_length hr
  have hne : r.encode ≠ [] := fun h => by
    rw [h, length_nil] at hlen
    omega
  by_cases hfits : r.encode.length ≤ outRingSize - out.length
  · rw [queuePiece_taken hne hfits]
    exact iff_of_true ⟨r, hr, rfl⟩ hfits
  · rw [queuePiece_dropped (.inr (not_le.mp hfits))]
    exact iff_of_false not_answered_self hfits

lemma length_decimal_add_lt {n : ℕ} (hn : 10 ≤ n) : (decimal n).length + 3 ≤ n := by
  have hpow : n < 10 ^ (n - 3) := by
    have hself : n - 4 < 10 ^ (n - 4) := Nat.lt_pow_self (by omega)
    have hsucc : 10 ^ (n - 3) = 10 ^ (n - 4) * 10 := by rw [← pow_succ]; congr 1; omega
    omega
  have := length_decimal_le (by omega) hpow
  omega

lemma not_answered_of_header {n : ℕ} {x : Bytes} (h : x.length ≠ n + 2) : ¬ Answered out (out ++ (bulkHeader n ++ x)) := by
  rintro ⟨r, -, heq⟩
  exact h (length_of_bulkHeader (append_cancel_left heq))

lemma not_answered_headless (h : outRingSize - out.length < (decimal v.length).length + 3) :
    ¬ Answered out (queueAll out [some v, some crlf]) := by
  have hcrlf : crlf.length = 2 := rfl
  simp only [queueAll, List.foldl_cons, foldl_nil]
  by_cases hv : v = [] ∨ outRingSize - out.length < v.length
  · rw [queuePiece_dropped hv]
    by_cases hend : outRingSize - out.length < 2
    · rw [queuePiece_dropped (.inr hend)]
      exact not_answered_self
    · rw [queuePiece_taken (by decide) (by omega)]
      exact not_answered_of_short (by omega)
  · rw [not_or, not_lt] at hv
    have hsmall : v.length < 10 := by
      by_contra hlarge
      have := length_decimal_add_lt (not_lt.mp hlarge)
      omega
    have hdigit : (decimal v.length).length ≤ 1 := length_decimal_le (by decide) (by omega)
    rw [queuePiece_taken hv.1 hv.2]
    by_cases hend : outRingSize - (out ++ v).length < 2
    · rw [queuePiece_dropped (.inr hend)]
      exact not_answered_of_short (by omega)
    · rw [queuePiece_taken (by decide) (by omega), append_assoc]
      rw [length_append] at hend
      refine not_answered_of_short ?_
      rw [length_append]
      omega

lemma answered_get_iff : Answered out (queueAll out [some (bulkHeader v.length), some v, some crlf]) ↔
    (bulkBytes (some v)).length ≤ outRingSize - out.length := by
  have hcrlf : crlf.length = 2 := rfl
  have hheader : (bulkHeader v.length).length = (decimal v.length).length + 3 := by
    simp only [bulkHeader, cons_append, length_cons, length_append, hcrlf]
  have htotal : (bulkBytes (some v)).length = (bulkHeader v.length).length + v.length + 2 := by
    simp only [bulkBytes, length_append, hcrlf]
  by_cases hfirst : (bulkHeader v.length).length ≤ outRingSize - out.length
  swap
  · refine iff_of_false ?_ (by omega)
    have hdrop : queuePiece out (some (bulkHeader v.length)) = out := queuePiece_dropped (.inr (by omega))
    simp only [queueAll, List.foldl_cons, hdrop]
    exact not_answered_headless (by omega)
  have htake : queuePiece out (some (bulkHeader v.length)) = out ++ bulkHeader v.length :=
    queuePiece_taken (by simp [bulkHeader]) hfirst
  simp only [queueAll, List.foldl_cons, foldl_nil, htake]
  by_cases hv : v = [] ∨ outRingSize - (out ++ bulkHeader v.length).length < v.length
  · rw [queuePiece_dropped hv]
    rw [length_append] at hv
    by_cases hend : outRingSize - (out ++ bulkHeader v.length).length < 2
    · rw [queuePiece_dropped (.inr hend)]
      rw [length_append] at hend
      refine iff_of_false ?_ (by omega)
      have hnone : ¬ Answered out (out ++ (bulkHeader v.length ++ [])) := not_answered_of_header (by simp)
      rwa [append_nil] at hnone
    · rw [queuePiece_taken (by decide) (by omega), append_assoc]
      rw [length_append] at hend
      by_cases hempty : v = []
      · have hzero : v.length = 0 := length_eq_zero_iff.mpr hempty
        refine iff_of_true ⟨.bulk (some v), trivial, ?_⟩ (by omega)
        simp [RespReply.encode, bulkBytes, hempty]
      · have hpos := length_pos_iff.mpr hempty
        have hlong := hv.resolve_left hempty
        exact iff_of_false (not_answered_of_header (by omega)) (by omega)
  · rw [not_or, not_lt] at hv
    rw [queuePiece_taken hv.1 hv.2]
    rw [length_append] at hv
    by_cases hend : outRingSize - (out ++ bulkHeader v.length ++ v).length < 2
    · rw [queuePiece_dropped (.inr hend), append_assoc]
      simp only [length_append] at hend
      exact iff_of_false (not_answered_of_header (by omega)) (by omega)
    · rw [queuePiece_taken (by decide) (by omega)]
      simp only [length_append] at hend
      refine iff_of_true ⟨.bulk (some v), trivial, ?_⟩ (by omega)
      simp only [RespReply.encode, bulkBytes, append_assoc]

lemma answered_bulk_iff {v : Option Bytes} : Answered out (queuePiece out (bulkPiece v)) ↔
    (RespReply.bulk v).encode.length ≤ outRingSize - out.length ∧ (RespReply.bulk v).encode.length ≤ bufferCap := by
  cases v with
  | none =>
    have hshort : (RespReply.bulk none).encode.length ≤ bufferCap := by decide
    rw [and_iff_left hshort]
    exact answered_iff (r := .bulk none) trivial
  | some v =>
    rw [bulkPiece, respBulk]
    by_cases hcap : (bulkBytes (some v)).length ≤ bufferCap
    · rw [if_pos hcap, and_iff_left (show (RespReply.bulk (some v)).encode.length ≤ bufferCap from hcap)]
      exact answered_iff (r := .bulk (some v)) trivial
    · rw [if_neg hcap]
      exact iff_of_false not_answered_self fun h => hcap h.2

lemma answered_mget_iff (hvs : vs ≠ []) :
    Answered out (queuePiece out (some ((respArrayFromValues bufferCap vs).getD (RespReply.error (str "mget failed")).encode))) ↔
      (mgetReply vs).encode.length ≤ outRingSize - out.length ∧ endsInNull (mgetReply vs) = false := by
  rw [mgetReply_eq hvs]
  by_cases hcap : (RespReply.array vs).encode.length ≤ bufferCap
  · rw [if_pos hcap]
    by_cases hend : vs.getLast? = some none → (RespReply.array vs).encode.length < bufferCap
    · have hnull : endsInNull (.array vs) = false := by
        simp only [endsInNull, decide_eq_false_iff_not, not_and]
        intro hlast
        have := hend hlast
        omega
      rw [respArrayFromValues_eq_some hvs hcap hend, getD_some, and_iff_left hnull]
      exact answered_iff (r := .array vs) trivial
    · obtain ⟨hlast, hfull⟩ := Classical.not_imp.mp hend
      have hlen : (RespReply.array vs).encode.length = bufferCap := Nat.le_antisymm hcap (not_lt.mp hfull)
      obtain ⟨bs, hbs⟩ := respArrayFromValues_at_end hlen hlast
      rw [hbs, getD_some]
      refine iff_of_false (not_answered_of_malformed fun r heq => r.encode_ne_concat bs heq.symm) fun h => ?_
      simp [endsInNull, hlast, hlen] at h
  · rw [if_neg hcap, respArrayFromValues_eq_none (not_le.mp hcap), getD_none]
    have hnull : endsInNull (.error (str "mget failed")) = false := rfl
    rw [and_iff_left hnull]
    exact answered_iff (r := .error (str "mget failed")) trivial

lemma answered_docFields_iff {buckets : List (List (Bytes × Bytes))} (hne : buckets.flatten ≠ []) :
    Answered out (queuePiece out (some (docFields bufferCap buckets.flatten.length buckets))) ↔
      (RespReply.array (fieldValues buckets.flatten)).encode.length ≤ outRingSize - out.length ∧
        (RespReply.array (fieldValues buckets.flatten)).encode.length ≤ bufferCap := by
  by_cases hcap : (RespReply.array (fieldValues buckets.flatten)).encode.length ≤ bufferCap
  · rw [docFields_eq hcap, and_iff_left hcap]
    exact answered_iff (r := .array (fieldValues buckets.flatten)) trivial
  · obtain ⟨vs, hvs, hlen⟩ := docFields_cut hne (not_le.mp hcap)
    refine iff_of_false ?_ fun h => hcap h.2
    rw [hvs]
    refine not_answered_of_malformed fun r heq => ?_
    have := length_of_arrayHeader heq
    omega

end Answered

/-! ### Searches -/

section Searches

variable {F : Type} {print : Option F → Bytes} {cap : ℕ} {out bs : Bytes} {cands : List (Cand F)}

lemma respBulk_eq (h : respBulk cap v = some bs) : bs = bulkBytes (some v) := by
  unfold respBulk at h
  split at h
  · exact (Option.some.inj h).symm
  · cases h

lemma printCand_eq {c : Cand F} (h : printCand print cap out c = some bs) :
    bs = out ++ bulkBytes (some c.key) ++ bulkBytes (some (print c.score)) := by
  unfold printCand at h
  split at h
  · cases h
  cases hkey : respBulk (cap - out.length) c.key with
  | none => simp [hkey] at h
  | some key =>
    simp only [hkey] at h
    obtain ⟨score, hscore, rfl⟩ := Option.map_eq_some_iff.mp h
    rw [respBulk_eq hkey, respBulk_eq hscore]

lemma foldlM_printCand (h : cands.foldlM (printCand print cap) out = some bs) :
    bs = out ++ (candValues print cands).flatMap bulkBytes := by
  induction cands generalizing out with
  | nil =>
    cases h
    exact (append_nil _).symm
  | cons c cands ih =>
    rw [foldlM_cons] at h
    obtain ⟨out', hc, hrest⟩ := Option.bind_eq_some_iff.mp h
    rw [ih hrest, printCand_eq hc]
    simp [candValues, fieldValues]

lemma printCands_eq (h : printCands print cap cands = some bs) :
    bs = (RespReply.array (candValues print cands)).encode := by
  rw [RespReply.encode, candValues, length_fieldValues, length_map]
  exact foldlM_printCand h

end Searches

/-! ### All commands -/

/-- `MGET` is taken with at least one key. -/
def Named : Cmd → Prop
  | .mget _ (some ks) => ks ≠ []
  | _ => True

lemma Named.ite {p : Prop} [Decidable p] {a b : Cmd} (ha : Named a) (hb : Named b) : Named (if p then a else b) := by
  split
  · exact ha
  · exact hb

lemma decode_named (argv : List Bytes) : Named (decode argv) := by
  have hmget (e : Engine) : Named (.mget e (if argv.length < 2 ∨ 32 < argv.length then none else some (argv.tail.map cstr))) := by
    by_cases hargc : argv.length < 2 ∨ 32 < argv.length
    · rw [if_pos hargc]
      exact True.intro
    · rw [if_neg hargc]
      intro hnil
      have hlen := congrArg List.length hnil
      rw [length_map, length_tail, length_nil] at hlen
      omega
  have hengine (e : Engine) (op : Bytes) : Named (decodeEngine e op argv) := by
    iterate 5 refine .ite True.intro ?_
    refine .ite (hmget e) ?_
    iterate 6 refine .ite True.intro ?_
    exact True.intro
  unfold decode
  iterate 12 refine .ite True.intro ?_
  exact hengine _ _

lemma proper_ofReply (r : Reply) : (ofReply r).Proper := by
  cases r with
  | ok => exact (by decide : str "OK" ≠ [] ∧ cr ∉ str "OK" ∧ lf ∉ str "OK")
  | int n | data | err text => exact True.intro

lemma endsInNull_ofReply (r : Reply) : endsInNull (ofReply r) = false := by
  cases r <;> rfl

lemma endsInNull_fieldValues (fields : List (Bytes × Bytes)) : endsInNull (.array (fieldValues fields)) = false := by
  simp only [endsInNull, decide_eq_false_iff_not, not_and]
  intro hlast
  exact absurd rfl (ne_none_of_mem_fieldValues (mem_of_getLast? hlast))

section OneReply

variable {F : Type} {env : Surroundings F} {s : Db} {out : Bytes}

lemma answered_docgetall_iff {d : Bytes}
    (hbuckets : (env.buckets d).flatten.Perm (((s.docs.lookup d).getD ∅).entries.map fun f => (f.1, f.2))) :
    Answered out (queuePiece out (some (docgetallBytes env s d))) ↔
      (RespReply.array (fieldValues (env.buckets d).flatten)).encode.length ≤ outRingSize - out.length ∧
        (RespReply.array (fieldValues (env.buckets d).flatten)).encode.length ≤ bufferCap := by
  have hempty (hnil : (env.buckets d).flatten = []) : Answered out (queuePiece out (some (str "*0\r\n"))) ↔
      (RespReply.array (fieldValues (env.buckets d).flatten)).encode.length ≤ outRingSize - out.length ∧
        (RespReply.array (fieldValues (env.buckets d).flatten)).encode.length ≤ bufferCap := by
    have hshort : (RespReply.array (fieldValues [])).encode.length ≤ bufferCap := by decide
    rw [hnil, and_iff_left hshort]
    exact answered_iff (r := .array []) trivial
  have hlen := hbuckets.length_eq
  rw [length_map] at hlen
  unfold docgetallBytes
  cases hd : s.docs.lookup d with
  | none =>
    rw [hd] at hlen
    exact hempty (eq_nil_of_length_eq_zero hlen)
  | some fields =>
    rw [hd] at hlen
    have hkeys : fields.keys.length = (env.buckets d).flatten.length := by
      rw [hlen, AList.keys, List.keys, length_map]
      rfl
    simp only [hkeys]
    split
    · exact hempty (eq_nil_of_length_eq_zero ‹_›)
    · rename_i hne
      exact answered_docFields_iff fun hnil => hne (by rw [hnil]; rfl)

lemma answered_getPieces_iff (v : Option Bytes) : Answered out (queueAll out (getPieces v)) ↔
    (getReply v).encode.length ≤ outRingSize - out.length := by
  cases v with
  | none => exact answered_iff (r := .bulk none) trivial
  | some v =>
    rw [getPieces, getReply]
    split
    · exact answered_get_iff
    · exact answered_iff (r := .error (str "value too large (max 256KB)")) trivial

variable [LinearOrder F]

lemma answered_vsearch_iff (argv : List Bytes) : Answered out (queuePiece out (some (vsearchBytes env argv))) ↔
    (vsearchReply env argv).encode.length ≤ outRingSize - out.length := by
  unfold vsearchBytes vsearchReply
  cases vsearch env.cosine env.scan argv with
  | error text => exact answered_iff (r := .error (str text)) trivial
  | ok cands =>
    simp only
    cases hp : printCands env.print bufferCap cands with
    | none => exact answered_iff (r := .error (str "vsearch failed")) trivial
    | some bs =>
      rw [printCands_eq hp]
      exact answered_iff (r := .array (candValues env.print cands)) trivial

lemma endsInNull_vsearchReply (argv : List Bytes) : endsInNull (vsearchReply env argv) = false := by
  unfold vsearchReply
  split
  · rfl
  split
  · exact endsInNull_fieldValues _
  · rfl

end OneReply

/-- **One complete reply for each command**, just if the reply fits into the ring and the handler's buffer, and does
not end with a null just at its end. -/
theorem one_reply {F : Type} [LinearOrder F] (env : Surroundings F) (now : ℤ) (s : Db) (out : Bytes) (argv : List Bytes)
    (hdata : decode argv ≠ .control)
    (hbuckets : ∀ d, (env.buckets d).flatten.Perm (((s.docs.lookup d).getD ∅).entries.map fun f => (f.1, f.2))) :
    Answered out (queueAll out (replyPieces env now s argv)) ↔
      (meant env now s argv).encode.length ≤ outRingSize - out.length ∧
        (buffered argv = true → (meant env now s argv).encode.length ≤ bufferCap) ∧
        endsInNull (meant env now s argv) = false := by
  have hnamed := decode_named argv
  have hone (piece : Option Bytes) : queueAll out [piece] = queuePiece out piece := rfl
  unfold replyPieces meant buffered
  cases hc : decode argv with
  | control => exact absurd hc hdata
  | get e k =>
    have hnull : endsInNull (getReply (engineGet (tryExpire now s e k) e k)) = false := by
      cases engineGet (tryExpire now s e k) e k with
      | none => rfl
      | some v =>
        rw [getReply]
        split <;> rfl
    simp only [hnull, Bool.false_eq_true, false_imp_iff, and_true]
    exact answered_getPieces_iff _
  | owner k =>
    simp only [hone, true_imp_iff, endsInNull, and_true]
    exact answered_bulk_iff
  | mget e ks =>
    cases ks with
    | none => simpa [hone, endsInNull_ofReply, exec] using answered_iff (proper_ofReply (.err "mget failed"))
    | some ks =>
      rw [hc] at hnamed
      have hks : ks ≠ [] := hnamed
      have hvs : multiGet now e s ks ≠ [] := by
        rw [multiGet_eq]
        simpa using hks
      simp only [hone, Bool.false_eq_true, false_imp_iff, true_and]
      exact answered_mget_iff hvs
  | read =>
    by_cases hsearch : isVsearch argv = true
    · simp only [hsearch, if_true, hone, Bool.not_true, Bool.false_eq_true, false_imp_iff, endsInNull_vsearchReply, and_true]
      exact answered_vsearch_iff argv
    · simp only [hsearch, Bool.false_eq_true, if_false, Bool.not_false, true_imp_iff]
      by_cases hdocget : cmdName argv = str "DOCGET"
      · simp only [hdocget, if_true, hone, endsInNull, and_true]
        exact answered_bulk_iff
      · have hnull := endsInNull_fieldValues (env.buckets (cstr (argv.getD 1 []))).flatten
        simp only [hdocget, if_false, hone, hnull, and_true]
        exact answered_docgetall_iff (hbuckets _)
  | lock | unlock | renew | docset | docdel | docdrop | docexist | doccount | set | mset | mod | del | exist | expire | setex | ttl
  | persist | unknown =>
    simp only
    split
    · simpa [hone, endsInNull] using answered_iff (r := .error (str "AOF write failed")) trivial
    · simpa [hone, endsInNull_ofReply] using answered_iff (proper_ofReply _)

/-- A store with one key. -/
def oneKey : Db := Db.empty.put .array (str "k") (str "hello")

/-- Nothing around the keys. -/
def bare : Surroundings ℕ where
  appends := true
  buckets _ := []
  scan := []
  cosine _ _ := none
  print _ := str "nan"

lemma bare_buckets (d : Bytes) :
    (bare.buckets d).flatten.Perm (((oneKey.docs.lookup d).getD ∅).entries.map fun f => (f.1, f.2)) := .refl _

/-- `GET k` on a connection with nothing in its ring. -/
theorem one_reply_get : Answered [] (queueAll [] (replyPieces bare 0 oneKey [str "GET", str "k"])) :=
  (one_reply bare 0 oneKey [] [str "GET", str "k"] (by decide +kernel) bare_buckets).mpr (by decide +kernel)

/-- **A part of a reply**: with five bytes left in the ring, `GET k` appends the length of the value and not the value. -/
theorem get_cut_off :
    let out : Bytes := List.replicate (outRingSize - 5) 0
    queueAll out (replyPieces bare 0 oneKey [str "GET", str "k"]) = out ++ str "$5\r\n" ∧
      ¬ Answered out (queueAll out (replyPieces bare 0 oneKey [str "GET", str "k"])) := by
  intro out
  have hout : out.length = outRingSize - 5 := length_replicate
  have hring : outRingSize = 262144 := rfl
  have hpieces : replyPieces bare 0 oneKey [str "GET", str "k"] = [some (bulkHeader 5), some (str "hello"), some crlf] := by
    decide +kernel
  have hheader : (bulkHeader 5).length = 4 := by decide
  have hfirst : queuePiece out (some (bulkHeader 5)) = out ++ bulkHeader 5 := queuePiece_taken (by decide) (by omega)
  have hlength : (out ++ bulkHeader 5).length = outRingSize - 1 := by
    rw [length_append, hout, hheader]
    omega
  have hvalue : queuePiece (out ++ bulkHeader 5) (some (str "hello")) = out ++ bulkHeader 5 :=
    queuePiece_dropped (.inr (by rw [hlength]; decide))
  have hend : queuePiece (out ++ bulkHeader 5) (some crlf) = out ++ bulkHeader 5 :=
    queuePiece_dropped (.inr (by rw [hlength]; decide))
  have hresult : queueAll out [some (bulkHeader 5), some (str "hello"), some crlf] = out ++ bulkHeader 5 := by
    simp only [queueAll, List.foldl_cons, foldl_nil, hfirst, hvalue, hend]
  rw [hpieces, hresult]
  refine ⟨rfl, ?_⟩
  have hnone : ¬ Answered out (out ++ (bulkHeader 5 ++ [])) := not_answered_of_header (by decide)
  rwa [append_nil] at hnone

end PocketKv.Client
