import PocketKv.Resp.Bytes

/-!
# Sending through the out ring
-/

namespace PocketKv.Replication

open Resp List

variable {α : Type*}

/-- The loop of `repl_send_chunked_ctx`: the ring after it, and whether all was queued. -/
def sendChunks (cap : ℕ) : ℕ → List α → List α → List α × Bool
  | 0, _, ring => (ring, true)
  | fuel + 1, bs, ring =>
    if bs = [] then (ring, true)
    else
      match queueBytes (bs.take cap) ring with
      | none => (ring, false)
      | some ring => sendChunks cap fuel (bs.drop cap) ring

/-- The longest chunk that `repl_send_chunked_ctx` makes of `n` bytes. -/
def chunkCap (n : ℕ) : ℕ := min (max n 1024) (bufferCap * 4)

/-- `repl_send_chunked`, of a full synchronisation over TCP. -/
def replSendChunked (bs ring : List α) : List α × Bool := sendChunks (chunkCap bs.length) bs.length bs ring

/-- One call of `repl_send_chunked` after the other, as long as they return 0. -/
def replSendParts : List (List α) → List α → List α × Bool
  | [], ring => (ring, true)
  | bs :: parts, ring =>
    match replSendChunked bs ring with
    | (ring, false) => (ring, false)
    | (ring, true) => replSendParts parts ring

/-- The ring and the result of a sender to which `bs` was given: a part from the beginning is queued, and all of it
just if there is room. -/
structure Queued (ring bs : List α) (res : List α × Bool) : Prop where
  /-- What is queued, in order. -/
  sent : ∃ sent, sent <+: bs ∧ res.1 = ring ++ sent
  /-- 0 is returned only if nothing is missing. -/
  whole : res.2 = true → res.1 = ring ++ bs
  /-- 0 is returned. -/
  all : res.2 = true ↔ bs = [] ∨ ring.length + bs.length ≤ outRingSize

variable {ring bs cs : List α} {res : List α × Bool}

namespace Queued

lemma nil (ring : List α) : Queued ring [] (ring, true) :=
  ⟨⟨[], nil_prefix, (append_nil ring).symm⟩, fun _ => (append_nil ring).symm, by simp⟩

lemma refused {ring' : List α} (h : Queued ring bs (ring', false)) (cs : List α) :
    Queued ring (bs ++ cs) (ring', false) := by
  obtain ⟨sent, hsent, hring⟩ := h.sent
  have hfull := (not_congr h.all).mp Bool.false_ne_true
  refine ⟨⟨sent, hsent.trans (prefix_append _ _), hring⟩, nofun, iff_of_false Bool.false_ne_true ?_⟩
  rw [append_eq_nil_iff, length_append]
  rintro (hnil | hroom)
  · exact hfull (.inl hnil.1)
  · exact hfull (.inr (by omega))

lemma append {ring' : List α} (h : Queued ring bs (ring', true)) (h' : Queued ring' cs res) :
    Queued ring (bs ++ cs) res := by
  obtain rfl : ring' = ring ++ bs := h.whole rfl
  have hroom := h.all.mp rfl
  obtain ⟨sent, hsent, hring⟩ := h'.sent
  refine ⟨⟨bs ++ sent, (prefix_append_right_inj bs).mpr hsent, by rw [hring, append_assoc]⟩, fun hall => ?_, ?_⟩
  · rw [h'.whole hall, append_assoc]
  · rw [h'.all, append_eq_nil_iff, length_append, length_append]
    constructor
    · rintro (rfl | hfits)
      · exact hroom.imp (fun hnil => ⟨hnil, rfl⟩) (by simp)
      · exact .inr (by omega)
    · exact .imp And.right (by omega)

end Queued

lemma queued_queueBytes (hne : bs ≠ []) (ring : List α) :
    Queued ring bs ((queueBytes bs ring).getD ring, (queueBytes bs ring).isSome) := by
  by_cases hfits : bs.length ≤ outRingSize - ring.length
  · have hpos := length_pos_of_ne_nil hne
    rw [queueBytes_eq_some hne hfits]
    exact ⟨⟨bs, prefix_rfl, rfl⟩, fun _ => rfl, iff_of_true rfl (.inr (by omega))⟩
  · rw [queueBytes_eq_none (.inr (by omega))]
    exact ⟨⟨[], nil_prefix, (append_nil ring).symm⟩, nofun, iff_of_false nofun (by simp [hne]; omega)⟩

lemma queued_sendChunks {cap fuel : ℕ} (hcap : 0 < cap) (bs ring : List α) (hfuel : bs.length ≤ fuel) :
    Queued ring bs (sendChunks cap fuel bs ring) := by
  induction fuel generalizing bs ring with
  | zero =>
    obtain rfl : bs = [] := eq_nil_of_length_eq_zero (by omega)
    exact .nil ring
  | succ fuel ih =>
    unfold sendChunks
    split
    · rename_i hnil
      subst hnil
      exact .nil ring
    rename_i hne
    have hpos := length_pos_of_ne_nil hne
    have htake : bs.take cap ≠ [] := by simp [hne, hcap.ne']
    have hfirst := queued_queueBytes htake ring
    have hrest (ring' : List α) := ih (bs.drop cap) ring' (by rw [length_drop]; omega)
    conv in Queued ring bs => rw [← take_append_drop cap bs]
    cases hqueue : queueBytes (bs.take cap) ring with
    | none =>
      rw [hqueue] at hfirst
      exact hfirst.refused _
    | some ring' =>
      rw [hqueue] at hfirst
      exact hfirst.append (hrest ring')

lemma queued_replSendChunked (bs ring : List α) : Queued ring bs (replSendChunked bs ring) :=
  queued_sendChunks (by simp [chunkCap, bufferCap]) bs ring le_rfl

lemma queued_replSendParts (parts : List (List α)) (ring : List α) :
    Queued ring parts.flatten (replSendParts parts ring) := by
  induction parts generalizing ring with
  | nil => exact .nil ring
  | cons bs parts ih =>
    have hfirst := queued_replSendChunked bs ring
    unfold replSendParts
    rw [flatten_cons]
    generalize replSendChunked bs ring = res at hfirst
    obtain ⟨ring', ok⟩ := res
    cases ok with
    | false => exact hfirst.refused _
    | true => exact hfirst.append (ih ring')

lemma replSendChunked_refused (hne : bs ≠ []) (h : outRingSize - ring.length < min (chunkCap bs.length) bs.length) :
    replSendChunked bs ring = (ring, false) := by
  obtain ⟨n, hn⟩ : ∃ n, bs.length = n + 1 := Nat.exists_eq_succ_of_ne_zero (by simpa using hne)
  unfold replSendChunked
  rw [hn] at h ⊢
  rw [sendChunks, if_neg hne, queueBytes_eq_none (.inr (by rwa [length_take, hn]))]

end PocketKv.Replication
