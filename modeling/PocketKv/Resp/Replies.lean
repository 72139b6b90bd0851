import PocketKv.Resp.Build

/-!
# Replies
-/

namespace PocketKv.Resp

open List

variable {vs : List (Option Bytes)} {cap m n : ℕ} {x y : Bytes} {buckets : List (List (Bytes × Bytes))}
  {r : RespReply}

/-- A reply to a client. -/
inductive RespReply where
  /-- `+` and a text. -/
  | simple (text : Bytes)
  /-- `-ERR` and a text. -/
  | error (text : Bytes)
  /-- `:` and a number. -/
  | int (n : ℤ)
  /-- A bulk string, or null. -/
  | bulk (v : Option Bytes)
  /-- An array of bulk strings and nulls. -/
  | array (vs : List (Option Bytes))
  deriving DecidableEq

/-- A number, as `"%lld"` prints it. -/
def decimalInt (n : ℤ) : Bytes := if n < 0 then 45 :: decimal n.natAbs else decimal n.natAbs

/-- CR LF. -/
def crlf : Bytes := [cr, lf]

/-- The header of a bulk string. -/
def bulkHeader (n : ℕ) : Bytes := 36 :: decimal n ++ crlf

/-- A bulk string, or null. -/
def bulkBytes : Option Bytes → Bytes
  | none => str "$-1\r\n"
  | some v => bulkHeader v.length ++ v ++ crlf

/-- The header of an array. -/
def arrayHeader (n : ℕ) : Bytes := 42 :: decimal n ++ crlf

/-- The bytes of a reply. -/
def RespReply.encode : RespReply → Bytes
  | .simple text => 43 :: text ++ crlf
  | .error text => str "-ERR " ++ text ++ crlf
  | .int n => 58 :: decimalInt n ++ crlf
  | .bulk v => bulkBytes v
  | .array vs => arrayHeader vs.length ++ vs.flatMap bulkBytes

/-- A simple line has a text, and ends with it. -/
def RespReply.Proper : RespReply → Prop
  | .simple text => text ≠ [] ∧ cr ∉ text ∧ lf ∉ text
  | _ => True

/-! ### Reading them again -/

lemma decimal_inj (h : decimal m = decimal n) : m = n := by
  rw [← digitsVal_decimal m, ← digitsVal_decimal n, h]

lemma line_inj {a b y : Bytes} (ha : cr ∉ a) (hb : cr ∉ b) (h : a ++ crlf ++ x = b ++ crlf ++ y) : a = b ∧ x = y := by
  have hsplit := congrArg splitCrlf h
  rw [append_assoc, append_assoc] at hsplit
  exact Prod.mk.inj (Option.some.inj ((splitCrlf_of_no_cr ha x).symm.trans (hsplit.trans (splitCrlf_of_no_cr hb y))))

lemma header_inj {b : UInt8} (h : b :: decimal m ++ crlf ++ x = b :: decimal n ++ crlf ++ y) : m = n ∧ x = y := by
  simp only [cons_append, List.cons.injEq, true_and] at h
  obtain ⟨hdigits, hxy⟩ := line_inj (cr_notMem_decimal m) (cr_notMem_decimal n) h
  exact ⟨decimal_inj hdigits, hxy⟩

lemma bulkHeader_ne_null : bulkHeader n ++ x ≠ str "$-1\r\n" ++ y := by
  intro h
  obtain ⟨b, t, ht⟩ := exists_cons_of_ne_nil (decimal_ne_nil n)
  have hb := isDigit_facts (isDigit_decimal (n := n) (b := b) (by simp [ht]))
  have hstr : str "$-1\r\n" = [36, 45, 49, 13, 10] := by decide
  rw [bulkHeader, ht, hstr] at h
  simp only [cons_append, List.cons.injEq, true_and] at h
  exact hb.2.2.2.1 h.1

lemma bulkBytes_inj {v w : Option Bytes} (h : bulkBytes v ++ x = bulkBytes w ++ y) : v = w ∧ x = y := by
  cases v with
  | none =>
    cases w with
    | none => exact ⟨rfl, append_cancel_left h⟩
    | some w =>
      rw [bulkBytes, bulkBytes, append_assoc, append_assoc] at h
      exact absurd h.symm bulkHeader_ne_null
  | some v =>
    cases w with
    | none =>
      rw [bulkBytes, bulkBytes, append_assoc, append_assoc] at h
      exact absurd h bulkHeader_ne_null
    | some w =>
      simp only [bulkBytes, append_assoc] at h
      obtain ⟨hlen, hrest⟩ := header_inj h
      obtain ⟨rfl, hxy⟩ := append_inj hrest hlen
      exact ⟨rfl, append_cancel_left hxy⟩

lemma bulkBytes_ne_nil (v : Option Bytes) : bulkBytes v ≠ [] := by
  cases v with
  | none => decide
  | some v => simp [bulkBytes, bulkHeader]

lemma flatMap_bulkBytes_inj {ws : List (Option Bytes)} (h : vs.flatMap bulkBytes = ws.flatMap bulkBytes) : vs = ws := by
  induction vs generalizing ws with
  | nil =>
    cases ws with
    | nil => rfl
    | cons w ws => exact absurd h.symm (by simp [bulkBytes_ne_nil])
  | cons v vs ih =>
    cases ws with
    | nil => exact absurd h (by simp [bulkBytes_ne_nil])
    | cons w ws =>
      rw [flatMap_cons, flatMap_cons] at h
      obtain ⟨rfl, hrest⟩ := bulkBytes_inj h
      rw [ih hrest]

/-! ### The bytes of a reply -/

lemma decimalInt_ne_nil (n : ℤ) : decimalInt n ≠ [] := by
  unfold decimalInt
  split
  · exact cons_ne_nil _ _
  · exact decimal_ne_nil _

lemma RespReply.four_le_length (hr : r.Proper) : 4 ≤ r.encode.length := by
  have hcrlf : crlf.length = 2 := rfl
  cases r with
  | simple text =>
    have := length_pos_iff.mpr hr.1
    simp only [encode, cons_append, length_cons, length_append, hcrlf]
    omega
  | error text =>
    have hlen : (str "-ERR ").length = 5 := by decide
    simp only [encode, length_append, hlen]
    omega
  | int n =>
    have := length_pos_iff.mpr (decimalInt_ne_nil n)
    simp only [encode, cons_append, length_cons, length_append, hcrlf]
    omega
  | bulk v =>
    cases v with
    | none => decide
    | some v =>
      have := length_pos_iff.mpr (decimal_ne_nil v.length)
      simp only [encode, bulkBytes, bulkHeader, cons_append, length_cons, length_append, hcrlf]
      omega
  | array vs =>
    have := length_pos_iff.mpr (decimal_ne_nil vs.length)
    simp only [encode, arrayHeader, cons_append, length_cons, length_append, hcrlf]
    omega

lemma RespReply.encode_ne_concat (r : RespReply) (bs : Bytes) : r.encode ≠ bs ++ [0] := by
  have hline (a b : Bytes) : a ++ crlf ≠ b ++ [0] := by
    intro h
    have := congrArg List.getLast? h
    simp [crlf, lf] at this
  cases r with
  | simple text => exact hline (43 :: text) bs
  | error text => exact hline (str "-ERR " ++ text) bs
  | int n => exact hline (58 :: decimalInt n) bs
  | bulk v =>
    cases v with
    | none => exact hline (str "$-1") bs
    | some v => exact hline (bulkHeader v.length ++ v) bs
  | array vs =>
    rcases eq_nil_or_concat vs with rfl | ⟨ws, v, rfl⟩
    · exact hline (str "*0") bs
    · have hv : ∃ w, bulkBytes v = w ++ crlf := by
        cases v with
        | none => exact ⟨str "$-1", rfl⟩
        | some v => exact ⟨bulkHeader v.length ++ v, rfl⟩
      obtain ⟨w, hw⟩ := hv
      rw [encode, concat_eq_append, flatMap_append, flatMap_singleton, hw, ← append_assoc, ← append_assoc]
      exact hline _ bs

lemma length_of_bulkHeader (h : bulkHeader n ++ x = r.encode) : x.length = n + 2 := by
  cases r with
  | bulk v =>
    cases v with
    | none =>
      have hnull : bulkHeader n ++ x = str "$-1\r\n" ++ [] := by rw [h, append_nil]; rfl
      exact absurd hnull bulkHeader_ne_null
    | some v =>
      rw [RespReply.encode, bulkBytes, append_assoc] at h
      obtain ⟨rfl, rfl⟩ := header_inj h
      simp [crlf]
  | simple text | error text | int n | array vs =>
    exact absurd (congrArg List.head? h) (by simp [bulkHeader, RespReply.encode, arrayHeader, str])

lemma length_of_arrayHeader (h : arrayHeader n ++ vs.flatMap bulkBytes = r.encode) : vs.length = n := by
  cases r with
  | array ws =>
    rw [RespReply.encode] at h
    obtain ⟨rfl, hvs⟩ := header_inj h
    rw [flatMap_bulkBytes_inj hvs]
  | simple text | error text | int n =>
    exact absurd (congrArg List.head? h) (by simp [RespReply.encode, arrayHeader, str])
  | bulk v =>
    refine absurd (congrArg List.head? h) ?_
    cases v <;> simp [RespReply.encode, arrayHeader, bulkBytes, bulkHeader, str]

/-! ### Arrays -/

/-- What `snprintf` leaves of a text in a buffer. -/
def printed (cap : ℕ) (text : Bytes) : Bytes := if text.length < cap then text else text.take (cap - 1) ++ [0]

/-- `resp_bulk`; nothing if it returns `-1`. -/
def respBulk (cap : ℕ) (v : Bytes) : Option Bytes :=
  if (bulkBytes (some v)).length ≤ cap then some (bulkBytes (some v)) else none

/-- `resp_array_append_bulk_or_null`, behind what is in the buffer. -/
def respArrayAppendBulkOrNull (cap : ℕ) (out : Bytes) (v : Option Bytes) : Option Bytes :=
  if cap ≤ out.length then none
  else
    match v with
    | some v => (respBulk (cap - out.length) v).map (out ++ ·)
    | none =>
      if cap - out.length < (bulkBytes none).length then none
      else some (out ++ printed (cap - out.length) (bulkBytes none))

/-- `resp_array_from_values`; nothing if it returns `-1`. -/
def respArrayFromValues (cap : ℕ) (vs : List (Option Bytes)) : Option Bytes :=
  if cap ≤ (arrayHeader vs.length).length then none
  else vs.foldlM (respArrayAppendBulkOrNull cap) (arrayHeader vs.length)

section Arrays

variable {out : Bytes} {v : Option Bytes}

lemma length_bulkBytes_pos (v : Option Bytes) : 0 < (bulkBytes v).length := length_pos_iff.mpr (bulkBytes_ne_nil v)

lemma append_eq_none (h : cap < out.length + (bulkBytes v).length) : respArrayAppendBulkOrNull cap out v = none := by
  unfold respArrayAppendBulkOrNull
  split
  · rfl
  cases v with
  | some v =>
    simp only
    rw [respBulk, if_neg (by omega), Option.map_none]
  | none =>
    simp only
    rw [if_pos (by omega)]

lemma append_eq_some (h : out.length + (bulkBytes v).length ≤ cap) (hend : v = none → out.length + (bulkBytes v).length < cap) :
    respArrayAppendBulkOrNull cap out v = some (out ++ bulkBytes v) := by
  have hpos := length_bulkBytes_pos v
  unfold respArrayAppendBulkOrNull
  rw [if_neg (by omega)]
  cases v with
  | some v =>
    simp only
    rw [respBulk, if_pos (by omega), Option.map_some]
  | none =>
    simp only
    have hroom := hend rfl
    rw [if_neg (by omega), printed, if_pos (by omega)]

lemma append_null_at_end (h : out.length + (bulkBytes none).length = cap) :
    respArrayAppendBulkOrNull cap out none = some (out ++ (bulkBytes none).dropLast ++ [0]) := by
  have hlen : (bulkBytes none).length = 5 := by decide
  unfold respArrayAppendBulkOrNull
  rw [if_neg (by omega)]
  simp only
  rw [if_neg (by omega), printed, if_neg (by omega), show cap - out.length - 1 = (bulkBytes none).length - 1 by omega,
    ← dropLast_eq_take, append_assoc]

lemma exists_append (h : out.length + (bulkBytes v).length ≤ cap) :
    ∃ out', respArrayAppendBulkOrNull cap out v = some out' ∧ out'.length = out.length + (bulkBytes v).length := by
  by_cases hend : v = none → out.length + (bulkBytes v).length < cap
  · exact ⟨_, append_eq_some h hend, length_append⟩
  · obtain ⟨rfl, hfull⟩ := Classical.not_imp.mp hend
    have hlen : (bulkBytes none).length = 5 := by decide
    refine ⟨_, append_null_at_end (by omega), ?_⟩
    simp only [length_append, length_dropLast, length_singleton]
    omega

lemma foldlM_eq_none (hout : out.length ≤ cap) (h : cap < out.length + (vs.flatMap bulkBytes).length) :
    vs.foldlM (respArrayAppendBulkOrNull cap) out = none := by
  induction vs generalizing out with
  | nil =>
    rw [flatMap_nil, length_nil] at h
    omega
  | cons v vs ih =>
    rw [flatMap_cons, length_append] at h
    rw [foldlM_cons]
    by_cases hfit : out.length + (bulkBytes v).length ≤ cap
    · obtain ⟨out', hsome, hlen⟩ := exists_append hfit
      rw [hsome]
      exact ih (by omega) (by omega)
    · rw [append_eq_none (by omega)]
      rfl

lemma foldlM_eq_some (h : out.length + (vs.flatMap bulkBytes).length ≤ cap)
    (hend : vs.getLast? = some none → out.length + (vs.flatMap bulkBytes).length < cap) :
    vs.foldlM (respArrayAppendBulkOrNull cap) out = some (out ++ vs.flatMap bulkBytes) := by
  induction vs generalizing out with
  | nil =>
    rw [flatMap_nil, append_nil]
    rfl
  | cons v vs ih =>
    rw [flatMap_cons, length_append] at h hend
    have hv : v = none → out.length + (bulkBytes v).length < cap := by
      intro hnone
      cases vs with
      | nil =>
        have hlast := hend (by rw [hnone]; rfl)
        rw [flatMap_nil, length_nil] at hlast
        exact hlast
      | cons w ws =>
        have hpos := length_bulkBytes_pos w
        rw [flatMap_cons, length_append] at h
        omega
    rw [foldlM_cons, append_eq_some (by omega) hv, Option.bind_eq_bind, Option.bind_some, flatMap_cons,
      ← append_assoc]
    refine ih (by rw [length_append]; omega) fun hlast => ?_
    have hcons := hend (by cases vs with | nil => cases hlast | cons w ws => exact hlast)
    rw [length_append]
    omega

lemma foldlM_at_end (h : out.length + (vs.flatMap bulkBytes).length = cap) (hend : vs.getLast? = some none) :
    ∃ bs, vs.foldlM (respArrayAppendBulkOrNull cap) out = some (bs ++ [0]) := by
  obtain ⟨ws, rfl⟩ := getLast?_eq_some_iff.mp hend
  have hlen : (bulkBytes none).length = 5 := by decide
  rw [flatMap_append, length_append, flatMap_singleton] at h
  have hfirst : ws.foldlM (respArrayAppendBulkOrNull cap) out = some (out ++ ws.flatMap bulkBytes) :=
    foldlM_eq_some (by omega) fun _ => by omega
  rw [foldlM_append, hfirst, Option.bind_eq_bind, Option.bind_some, foldlM_cons,
    append_null_at_end (by rw [length_append]; omega)]
  exact ⟨_, rfl⟩

end Arrays

lemma respArrayFromValues_eq_none (h : cap < (RespReply.array vs).encode.length) :
    respArrayFromValues cap vs = none := by
  rw [RespReply.encode, length_append] at h
  unfold respArrayFromValues
  split
  · rfl
  · exact foldlM_eq_none (by omega) h

lemma respArrayFromValues_eq_some (hvs : vs ≠ [])
    (h : (RespReply.array vs).encode.length ≤ cap)
    (hend : vs.getLast? = some none → (RespReply.array vs).encode.length < cap) :
    respArrayFromValues cap vs = some (RespReply.array vs).encode := by
  rw [RespReply.encode, length_append] at h hend
  obtain ⟨v, ws, rfl⟩ := exists_cons_of_ne_nil hvs
  have hpos := length_bulkBytes_pos v
  have hlen : (bulkBytes v).length ≤ ((v :: ws).flatMap bulkBytes).length := by
    rw [flatMap_cons, length_append]
    omega
  rw [respArrayFromValues, if_neg (by omega)]
  exact foldlM_eq_some h hend

lemma respArrayFromValues_at_end (h : (RespReply.array vs).encode.length = cap)
    (hend : vs.getLast? = some none) : ∃ bs, respArrayFromValues cap vs = some (bs ++ [0]) := by
  rw [RespReply.encode, length_append] at h
  obtain ⟨ws, hws⟩ := getLast?_eq_some_iff.mp hend
  have hlen : 0 < (vs.flatMap bulkBytes).length := by
    rw [hws, flatMap_append, length_append, flatMap_singleton]
    have := length_bulkBytes_pos none
    omega
  rw [respArrayFromValues, if_neg (by omega)]
  exact foldlM_at_end h hend

/-! ### The replies of `GET` and `MGET` -/

/-- The reply of `GET`. -/
def getReply : Option Bytes → RespReply
  | none => .bulk none
  | some v => if v.length + 16 ≤ outRingSize then .bulk (some v) else .error (str "value too large (max 256KB)")

/-- The reply of `MGET`. -/
def mgetReply (vs : List (Option Bytes)) : RespReply :=
  match respArrayFromValues bufferCap vs with
  | some _ => .array vs
  | none => .error (str "mget failed")

lemma mgetReply_eq (hvs : vs ≠ []) : mgetReply vs =
    if (RespReply.array vs).encode.length ≤ bufferCap then .array vs else .error (str "mget failed") := by
  unfold mgetReply
  by_cases h : (RespReply.array vs).encode.length ≤ bufferCap
  · rw [if_pos h]
    by_cases hend : vs.getLast? = some none → (RespReply.array vs).encode.length < bufferCap
    · rw [respArrayFromValues_eq_some hvs h hend]
    · obtain ⟨hnull, hfull⟩ := Classical.not_imp.mp hend
      obtain ⟨bs, hbs⟩ := respArrayFromValues_at_end (Nat.le_antisymm h (not_lt.mp hfull)) hnull
      rw [hbs]
  · rw [if_neg h, respArrayFromValues_eq_none (not_le.mp h)]

/-! ### The fields of a document -/

/-- Strings behind what is in the buffer, up to the first one that does not fit. -/
def appendStrings (cap : ℕ) : Bytes → List (Option Bytes) → Bytes
  | out, [] => out
  | out, v :: vs =>
    match respArrayAppendBulkOrNull cap out v with
    | none => out
    | some out => appendStrings cap out vs

/-- The names and the values of fields, in turn. -/
def fieldValues (fields : List (Bytes × Bytes)) : List (Option Bytes) := fields.flatMap fun f => [some f.1, some f.2]

/-- The loop of `DOCGETALL` over the buckets: a string that does not fit ends the one that it is in. -/
def docFields (cap count : ℕ) (buckets : List (List (Bytes × Bytes))) : Bytes :=
  buckets.foldl (fun out fields => appendStrings cap out (fieldValues fields)) (arrayHeader (count * 2))

lemma length_fieldValues (fields : List (Bytes × Bytes)) : (fieldValues fields).length = fields.length * 2 := by
  simp [fieldValues, length_flatMap]

lemma ne_none_of_mem_fieldValues {fields : List (Bytes × Bytes)} {v : Option Bytes} (hv : v ∈ fieldValues fields) :
    v ≠ none := by
  obtain ⟨f, -, hv⟩ := mem_flatMap.mp hv
  rcases mem_cons.mp hv with rfl | hv
  · exact nofun
  · rw [mem_singleton.mp hv]
    exact nofun

section Fields

variable {out : Bytes}

lemma appendStrings_eq (hvs : ∀ v ∈ vs, v ≠ none) (h : out.length + (vs.flatMap bulkBytes).length ≤ cap) :
    appendStrings cap out vs = out ++ vs.flatMap bulkBytes := by
  induction vs generalizing out with
  | nil => exact (append_nil out).symm
  | cons v vs ih =>
    rw [forall_mem_cons] at hvs
    rw [flatMap_cons, length_append] at h
    rw [appendStrings, append_eq_some (by omega) fun hv => absurd hv hvs.1]
    simp only
    rw [ih hvs.2 (by rw [length_append]; omega), flatMap_cons, append_assoc]

/-- Up to `cap` bytes, `result` is `out` followed by strings, those in `vs` or fewer. -/
structure Prints (cap : ℕ) (out : Bytes) (vs : List (Option Bytes)) (result : Bytes) : Prop where
  fits : result.length ≤ cap
  strings : ∃ ws, result = out ++ ws.flatMap bulkBytes ∧ ws.length ≤ vs.length ∧ (ws.length = vs.length → ws = vs)

lemma prints_appendStrings (hvs : ∀ v ∈ vs, v ≠ none) (hout : out.length ≤ cap) :
    Prints cap out vs (appendStrings cap out vs) := by
  induction vs generalizing out with
  | nil => exact ⟨hout, [], (append_nil out).symm, le_rfl, fun _ => rfl⟩
  | cons v vs ih =>
    rw [forall_mem_cons] at hvs
    rw [appendStrings]
    by_cases hfit : out.length + (bulkBytes v).length ≤ cap
    · rw [append_eq_some hfit fun hv => absurd hv hvs.1]
      rw [← length_append] at hfit
      obtain ⟨hfits, ws, hws, hlen, hall⟩ := ih hvs.2 hfit
      refine ⟨hfits, v :: ws, ?_, Nat.succ_le_succ hlen, fun heq => ?_⟩
      · rw [flatMap_cons, ← append_assoc]
        exact hws
      · rw [hall (Nat.succ.inj heq)]
    · rw [append_eq_none (by omega)]
      exact ⟨hout, [], (append_nil out).symm, Nat.zero_le _, nofun⟩

lemma Prints.append {result result' : Bytes} {vs' : List (Option Bytes)} (h : Prints cap out vs result)
    (h' : Prints cap result vs' result') : Prints cap out (vs ++ vs') result' := by
  obtain ⟨-, ws, hws, hlen, hall⟩ := h
  obtain ⟨hfits, ws', hws', hlen', hall'⟩ := h'
  refine ⟨hfits, ws ++ ws', ?_, ?_, fun heq => ?_⟩
  · rw [hws', hws, flatMap_append, append_assoc]
  · rw [length_append, length_append]
    omega
  · rw [length_append, length_append] at heq
    rw [hall (by omega), hall' (by omega)]

lemma fieldValues_flatten_cons (fields : List (Bytes × Bytes)) (buckets : List (List (Bytes × Bytes))) :
    fieldValues (fields :: buckets).flatten = fieldValues fields ++ fieldValues buckets.flatten :=
  flatMap_append

lemma prints_buckets (hout : out.length ≤ cap) (buckets : List (List (Bytes × Bytes))) :
    Prints cap out (fieldValues buckets.flatten)
      (buckets.foldl (fun out fields => appendStrings cap out (fieldValues fields)) out) := by
  induction buckets generalizing out with
  | nil => exact ⟨hout, [], (append_nil out).symm, le_rfl, fun _ => rfl⟩
  | cons fields buckets ih =>
    have hfirst := prints_appendStrings (fun v (hv : v ∈ fieldValues fields) => ne_none_of_mem_fieldValues hv) hout
    rw [fieldValues_flatten_cons]
    exact hfirst.append (ih hfirst.fits)

lemma buckets_eq
    (h : out.length + ((fieldValues buckets.flatten).flatMap bulkBytes).length ≤ cap) :
    buckets.foldl (fun out fields => appendStrings cap out (fieldValues fields)) out =
      out ++ (fieldValues buckets.flatten).flatMap bulkBytes := by
  induction buckets generalizing out with
  | nil => exact (append_nil out).symm
  | cons fields buckets ih =>
    rw [fieldValues_flatten_cons, flatMap_append, length_append] at h
    rw [List.foldl_cons, appendStrings_eq (fun _ => ne_none_of_mem_fieldValues) (by omega),
      ih (by rw [length_append]; omega), fieldValues_flatten_cons, flatMap_append, append_assoc]

end Fields

lemma docFields_eq
    (h : (RespReply.array (fieldValues buckets.flatten)).encode.length ≤ cap) :
    docFields cap buckets.flatten.length buckets = (RespReply.array (fieldValues buckets.flatten)).encode := by
  rw [RespReply.encode, length_append, length_fieldValues] at h
  rw [docFields, buckets_eq h, RespReply.encode, length_fieldValues]

lemma buckets_full {out : Bytes} (h : cap ≤ out.length) (buckets : List (List (Bytes × Bytes))) :
    buckets.foldl (fun out fields => appendStrings cap out (fieldValues fields)) out = out := by
  have hone (vs : List (Option Bytes)) : appendStrings cap out vs = out := by
    cases vs with
    | nil => rfl
    | cons v vs => rw [appendStrings, append_eq_none (by have := length_bulkBytes_pos v; omega)]
  induction buckets with
  | nil => rfl
  | cons fields buckets ih => rw [List.foldl_cons, hone, ih]

lemma docFields_cut (hne : buckets.flatten ≠ [])
    (h : cap < (RespReply.array (fieldValues buckets.flatten)).encode.length) :
    ∃ vs : List (Option Bytes), docFields cap buckets.flatten.length buckets =
        arrayHeader (buckets.flatten.length * 2) ++ vs.flatMap bulkBytes ∧ vs.length < buckets.flatten.length * 2 := by
  have hpos := length_pos_iff.mpr hne
  by_cases hcap : (arrayHeader (buckets.flatten.length * 2)).length ≤ cap
  · obtain ⟨hfits, vs, hvs, hlen, hall⟩ := prints_buckets hcap buckets
    refine ⟨vs, hvs, lt_of_le_of_ne (length_fieldValues _ ▸ hlen) fun heq => ?_⟩
    rw [RespReply.encode, length_append, length_fieldValues] at h
    rw [hvs, hall (heq.trans (length_fieldValues _).symm), length_append] at hfits
    omega
  · refine ⟨[], ?_, by simp only [length_nil]; omega⟩
    rw [docFields, buckets_full (by omega), flatMap_nil, append_nil]

end PocketKv.Resp
