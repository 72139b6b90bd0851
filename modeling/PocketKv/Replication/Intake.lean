import PocketKv.Replication.Delivery
import PocketKv.Replication.SlaveLoop
import PocketKv.Replication.SlaveOffset
import PocketKv.Resp.Build

/-!
# The receive buffers of a replica
-/

namespace PocketKv.Replication

open Library Resp List

variable {σ : Type*}

variable {link : Intake}

/-- A way into the receive buffer. -/
inductive Intake where
  | single
  | tcp
  /-- The socket of the proxy in the loop for `ebpf+tcp`. -/
  | proxy
  | rdma
  /-- The ring of slots that `kprobe_rdma_slave_poll` reads. -/
  | kprobe
  deriving DecidableEq

/-- `BUFFER_CAP`, the size of the small buffers. -/
def smallBufCap : ℕ := 65536

/-- `KPROBE_RDMA_SLOT_CAPACITY` without the length. -/
def kprobeSlotData : ℕ := 512 - 4

namespace Intake

/-- The size of the buffer. -/
def cap : Intake → ℕ
  | .single | .kprobe => smallBufCap
  | .tcp | .proxy | .rdma => slaveBufCap

/-- It reads from a socket. -/
def socket : Intake → Bool
  | .single | .tcp | .proxy => true
  | .rdma | .kprobe => false

/-- A chunk comes in. -/
def step (K : Hooks σ) (L : SlaveLoop σ) (c : Bytes) : Intake → SlaveLoop σ
  | .single => if L.buf.length < smallBufCap then { L with buf := L.buf ++ c }.parse K else { L with up := false }
  | .tcp => turnStep K L ⟨none, some c⟩
  | .proxy => turnStep K L ⟨some c, none⟩
  | .rdma =>
    if slaveBufCap < L.buf.length + c.length then { L with buf := [], up := false }
    else { L with buf := L.buf ++ c }.parse K
  | .kprobe =>
    if smallBufCap < L.buf.length + c.length then { L with buf := c }.parse K
    else { L with buf := L.buf ++ c }.parse K

/-- The chunks come in while the link is up. -/
def run (link : Intake) (K : Hooks σ) : SlaveLoop σ → List Bytes → SlaveLoop σ
  | L, [] => L
  | L, c :: cs => if L.up then link.run K (link.step K L c) cs else L

/-- What the link can bring after `xs`: a `recv` gets no more than there is room for, and a slot has its size. -/
def Delivers (link : Intake) (xs c : Bytes) : Prop :=
  c ≠ [] ∧
    (link.socket = true → (unfinished xs).length < link.cap → (unfinished xs).length + c.length ≤ link.cap) ∧
    (link = .kprobe → c.length ≤ kprobeSlotData)

/-- The buffer has room for the chunk. -/
def Fits (link : Intake) (xs c : Bytes) : Prop := (unfinished xs).length + c.length ≤ link.cap

instance (link : Intake) (xs c : Bytes) : Decidable (link.Delivers xs c) := inferInstanceAs (Decidable (_ ∧ _ ∧ _))

instance (link : Intake) (xs c : Bytes) : Decidable (link.Fits xs c) := inferInstanceAs (Decidable (_ ≤ _))

end Intake

/-- A client of the master can send it. -/
structure StreamCmd.Executable (w : StreamCmd) : Prop where
  parsed : w.Parsed
  short : w.raw.length < inbufCap

/-- All of the commands were read, and the links are up. -/
structure SlaveLoop.Accepted (ws : List StreamCmd) (L : SlaveLoop σ) : Prop where
  up : L.up = true
  proxyUp : L.proxyUp = true
  parsed : L.parsed = ws.map StreamCmd.event

/-! ### Bytes that are lost -/

/-- The bytes of the commands that were read. -/
def rawBytes (es : List Event) : ℕ := (es.flatMap Event.raw).flatten.length

@[simp] lemma rawBytes_nil : rawBytes [] = 0 := rfl

@[simp] lemma rawBytes_append (es es' : List Event) : rawBytes (es ++ es') = rawBytes es + rawBytes es' := by
  simp [rawBytes]

lemma rawBytes_events (ws : List StreamCmd) : rawBytes (ws.map StreamCmd.event) = (streamBytes ws).length := by
  induction ws with
  | nil => rfl
  | cons w ws ih =>
    have hcons : rawBytes ((w :: ws).map StreamCmd.event) = w.raw.length + rawBytes (ws.map StreamCmd.event) := by
      simp [rawBytes, StreamCmd.event, Event.raw]
    rw [hcons, ih]
    simp [streamBytes]

lemma rawBytes_replyIf (cx : Caller) (text : String) : rawBytes (replyIf cx text) = 0 := by
  rw [replyIf]
  split <;> rfl

lemma rawBytes_respEvents (cx : Caller) (raw : Bytes) (i : Item) : rawBytes (respEvents cx raw i) ≤ raw.length := by
  have hreply (text : String) : rawBytes (replyIf cx text) ≤ raw.length := by simp [rawBytes_replyIf]
  cases i with
  | plus line =>
    rw [respEvents]
    split
    · exact Nat.zero_le _
    · cases controlOf cx (splitInlineArgv line 8) <;> exact Nat.zero_le _
  | «inline» line =>
    simp only [respEvents]
    split
    · exact Nat.zero_le _
    · simp [rawBytes, Event.raw]
  | longHeader => exact Nat.zero_le _
  | badArgc => exact hreply _
  | malformed badLen =>
    rw [respEvents]
    split
    · exact hreply _
    · exact Nat.zero_le _
  | array argv => simp [respEvents, rawBytes, Event.raw]

lemma rawBytes_respStep {cx : Caller} {xs : Bytes} {n : ℕ} {es : List Event} (h : respStep cx xs = .take n es) :
    rawBytes es ≤ n := by
  rw [respStep] at h
  cases hitem : itemStep argcOf bulkLenOf xs with
  | more => simp [hitem, Verdict.emit] at h
  | take m is =>
    obtain ⟨i, rfl, -⟩ := itemStep_taken hitem
    simp only [hitem, Verdict.emit, flatMap_singleton, Verdict.take.injEq] at h
    obtain ⟨rfl, rfl⟩ := h
    exact (rawBytes_respEvents cx _ i).trans (length_take_le m xs)

lemma length_respKeep_le (xs : Bytes) : (respKeep xs).length ≤ xs.length := by
  rw [respKeep.eq_def]
  split
  · split <;> simp
  · exact Nat.le_refl _

lemma rawBytes_parseLoop (K : Hooks σ) (cx : Caller) (fuel : ℕ) (s : σ) (xs : Bytes) :
    rawBytes (parseLoop K cx fuel s xs).2.1.events + (parseLoop K cx fuel s xs).2.2.length ≤ xs.length := by
  induction fuel generalizing s xs with
  | zero => simp [parseLoop]
  | succ fuel ih =>
    cases xs with
    | nil => simp [parseLoop]
    | cons x xs =>
      rw [parseLoop]
      split
      · split
        · simp
        · split
          · refine (ih _ _).trans ?_
            simp
          · simp
      · split
        · simpa using length_respKeep_le (x :: xs)
        · rename_i n es hstep
          have hrest := ih (es.foldl K.handle s) ((x :: xs).drop n)
          have htaken := rawBytes_respStep hstep
          have hle := (respStep_stable cx).le hstep
          simp only [Trace.events_cons, rawBytes_append, length_drop] at hrest ⊢
          omega

/-- The bytes that were read or are in the buffer. -/
def SlaveLoop.held (L : SlaveLoop σ) : ℕ := rawBytes L.parsed + L.buf.length

lemma SlaveLoop.held_parse (K : Hooks σ) (L : SlaveLoop σ) : (L.parse K).held ≤ L.held := by
  have hparse := rawBytes_parseLoop K slaveLink (parseFuel L.buf) L.server L.buf
  simp only [held, parse, parseRespStream, rawBytes_append]
  omega

/-! ### While everything fits -/

section Stream

variable {K : Hooks σ} {L : SlaveLoop σ} {ws : List StreamCmd} {xs c : Bytes} {cs : List Bytes}

lemma parsedIn_prefix (hws : ∀ w ∈ ws, w.Parsed) (hxs : xs <+: streamBytes ws) :
    ∀ e ∈ parsedIn xs, e.startsLoading = false := by
  obtain ⟨ys, hys⟩ := hxs
  intro e he
  have hall : e ∈ parsedIn (streamBytes ws) := by
    rw [← hys, parsedIn_append]
    exact mem_append_left _ he
  rw [parsedIn, run_streamBytes hws] at hall
  obtain ⟨w, -, rfl⟩ := mem_map.mp hall
  rfl

lemma unfinished_prefix (hws : ∀ w ∈ ws, w.Parsed) (hxs : xs <+: streamBytes ws) :
    unfinished xs = [] ∨ ∃ w ∈ ws, (unfinished xs).length < w.raw.length := by
  rw [streamBytes_eq] at hxs
  rcases Scanner.run_rest_of_prefix (respStep_stable slaveLink) (pieces_decided hws) hxs with hnil | ⟨x, hx, hpre⟩
  · exact .inl hnil
  · obtain ⟨w, hw, rfl⟩ := mem_map.mp hx
    refine (eq_or_ne (unfinished xs) []).imp id fun hne => ⟨w, hw, ?_⟩
    refine lt_of_le_of_ne hpre.length_le fun hlen => hne ?_
    -- a whole command would have been taken
    have hwhole : unfinished xs = w.raw := hpre.eq_of_length hlen
    have hone : ∀ w' ∈ [w], w'.Parsed := by
      rintro _ (_ | ⟨_, ⟨⟩⟩)
      exact hws w hw
    have hrun := congrArg Prod.snd (run_streamBytes hone)
    rw [← unfinished_unfinished, hwhole, unfinished]
    simpa [streamBytes] using hrun

/-- The loop after it has read `xs`, and nothing was lost. -/
structure Caught (K : Hooks σ) (xs : Bytes) (L : SlaveLoop σ) : Prop where
  up : L.up = true
  proxyUp : L.proxyUp = true
  notLoading : K.loading L.server = false
  parsed : L.parsed = parsedIn xs
  buf : L.buf = unfinished xs
  held : L.held ≤ xs.length

lemma Caught.init {s : σ} (hs : K.loading s = false) : Caught K [] (SlaveLoop.init s) :=
  ⟨rfl, rfl, hs, rfl, rfl, Nat.le_refl 0⟩

section

variable (h : Caught K xs L)
include h

section

variable (hws : ∀ w ∈ ws, w.Parsed)
include hws

lemma Caught.parse (hxs : xs ++ c <+: streamBytes ws) :
    Caught K (xs ++ c) ({ L with buf := L.buf ++ c }.parse K) := by
  have hstart : ∀ e ∈ parsedIn (unfinished xs ++ c), e.startsLoading = false := by
    intro e he
    refine parsedIn_prefix hws hxs e ?_
    rw [parsedIn_append]
    exact mem_append_right _ he
  have hline : ¬ InsidePlusLine slaveLink (unfinished xs ++ c) := by
    have hwhole := not_insidePlusLine hws hxs
    rw [InsidePlusLine] at hwhole ⊢
    change ¬ ((unfinished (unfinished xs ++ c)).head? = some 43 ∧ 2 ≤ (unfinished (unfinished xs ++ c)).length)
    rwa [← unfinished_append]
  have hheld : ({ L with buf := L.buf ++ c }.parse K).held ≤ (xs ++ c).length := by
    refine (SlaveLoop.held_parse K _).trans ?_
    have hbefore := h.held
    simp only [SlaveLoop.held, length_append] at hbefore ⊢
    omega
  have hparse := parse_eq (K := K) (L := { L with buf := L.buf ++ c }) (outsideLoading_of_no_start h.notLoading (by rwa [h.buf])) (by rwa [h.buf])
  refine ⟨?_, ?_, ?_, ?_, ?_, hheld⟩
  · rw [hparse]
    exact h.up
  · rw [hparse]
    exact h.proxyUp
  · rw [hparse, h.buf]
    exact loading_foldl h.notLoading hstart
  · rw [hparse]
    simp only [h.parsed, h.buf, parsedIn_append xs c]
  · rw [hparse]
    simp only [h.buf, unfinished_append xs c]

lemma Caught.parse_again (hxs : xs <+: streamBytes ws) : L.parse K = L :=
  Replication.parse_again h.notLoading h.buf (not_insidePlusLine hws hxs)

lemma Intake.step_fits
    (hxs : xs ++ c <+: streamBytes ws) (hc : c ≠ []) (hfits : link.Fits xs c) :
    Caught K (xs ++ c) (link.step K L c) := by
  have hnext := h.parse hws hxs
  have hagain := hnext.parse_again hws hxs
  have hpos : 0 < c.length := length_pos_of_ne_nil hc
  rw [Intake.Fits, ← h.buf] at hfits
  cases link with
  | single =>
    rw [step, if_pos (by simp only [cap] at hfits; omega)]
    exact hnext
  | tcp =>
    have hrecv : L.recv K .tcp c = { L with buf := L.buf ++ c }.parse K := by
      rw [SlaveLoop.recv, if_pos (by simp only [cap] at hfits; omega)]
    simp only [step, turnStep, Option.elim, ite_self, hrecv, hnext.up, hagain]
    exact hnext
  | proxy =>
    have hrecv : L.recv K .proxy c = { L with buf := L.buf ++ c }.parse K := by
      rw [SlaveLoop.recv, if_pos (by simp only [cap] at hfits; omega)]
    simp only [step, turnStep, Option.elim, if_pos h.proxyUp, ite_self, hrecv, hnext.up, hagain]
    exact hnext
  | rdma =>
    rw [step, if_neg (by simp only [cap] at hfits; omega)]
    exact hnext
  | kprobe =>
    rw [step, if_neg (by simp only [cap] at hfits; omega)]
    exact hnext

end

/-! ### When a chunk does not fit -/

lemma Intake.step_overflow (hlink : link ≠ .kprobe)
    (hdelivers : link.Delivers xs c) (hfits : ¬ link.Fits xs c) :
    (link.step K L c).up = false ∨ (link.step K L c).proxyUp = false := by
  have hroom : link.socket = true → link.cap ≤ L.buf.length := by
    intro hsocket
    rw [h.buf]
    by_contra hlt
    exact hfits (hdelivers.2.1 hsocket (Nat.lt_of_not_le hlt))
  cases link with
  | single =>
    have hfull := hroom rfl
    rw [step, if_neg (by simp only [cap] at hfull; omega)]
    exact .inl rfl
  | tcp =>
    have hfull := hroom rfl
    have hrecv : L.recv K .tcp c = { L with up := false } := by
      rw [SlaveLoop.recv, if_neg (by simp only [cap] at hfull; omega)]
    simp only [step, turnStep, Option.elim, ite_self, hrecv, Bool.false_eq_true, if_false]
    exact .inl trivial
  | proxy =>
    have hfull := hroom rfl
    have hrecv : L.recv K .proxy c = { L with proxyUp := false } := by
      rw [SlaveLoop.recv, if_neg (by simp only [cap] at hfull; omega)]
    simp only [step, turnStep, Option.elim, if_pos h.proxyUp, hrecv]
    refine .inr ?_
    split_ifs <;> rfl
  | rdma =>
    rw [Intake.Fits, ← h.buf] at hfits
    rw [step, if_pos (by simp only [cap] at hfits; omega)]
    exact .inl rfl
  | kprobe => exact absurd rfl hlink

end

lemma Intake.proxyUp_step (h : L.proxyUp = false) : (link.step K L c).proxyUp = false := by
  cases link with
  | single =>
    rw [step]
    split <;> exact h
  | tcp =>
    simp only [step, turnStep, Option.elim, ite_self, SlaveLoop.recv]
    split_ifs <;> exact h
  | proxy =>
    simp only [step, turnStep, Option.elim, h, Bool.false_eq_true, if_false]
    split_ifs <;> exact h
  | rdma =>
    rw [step]
    split <;> exact h
  | kprobe =>
    rw [step]
    split <;> exact h

lemma Intake.run_down (cs : List Bytes) (h : L.up = false ∨ L.proxyUp = false) :
    (link.run K L cs).up = false ∨ (link.run K L cs).proxyUp = false := by
  induction cs generalizing L with
  | nil => exact h
  | cons c cs ih =>
    rw [run]
    split
    · rename_i hup
      refine ih (.inr (proxyUp_step (h.resolve_left ?_)))
      simp [hup]
    · exact h

lemma Intake.held_run (L : SlaveLoop σ) (cs : List Bytes) : (Intake.kprobe.run K L cs).held ≤ L.held + cs.flatten.length := by
  induction cs generalizing L with
  | nil => exact Nat.le_add_right _ _
  | cons c cs ih =>
    rw [run, flatten_cons, length_append]
    split
    · have hstep : (Intake.kprobe.step K L c).held ≤ L.held + c.length := by
        rw [step]
        split
        · refine (SlaveLoop.held_parse K _).trans ?_
          simp only [SlaveLoop.held]
          omega
        · refine (SlaveLoop.held_parse K _).trans ?_
          simp only [SlaveLoop.held, length_append]
          omega
      exact (ih (Intake.kprobe.step K L c)).trans (by omega)
    · omega

lemma Intake.held_overflow (h : Caught K xs L) (hdelivers : Intake.kprobe.Delivers xs c)
    (hfits : ¬ Intake.kprobe.Fits xs c) : (Intake.kprobe.step K L c).held < (xs ++ c).length := by
  have hslot := hdelivers.2.2 rfl
  rw [Intake.Fits, ← h.buf] at hfits
  simp only [cap, smallBufCap, kprobeSlotData] at hfits hslot
  rw [step, if_pos (by simp only [smallBufCap]; omega)]
  refine (SlaveLoop.held_parse K _).trans_lt ?_
  have hheld := h.held
  simp only [SlaveLoop.held, length_append] at hheld ⊢
  omega

/-! ### Chunk by chunk -/

lemma Intake.accepted_iff (hws : ∀ w ∈ ws, w.Parsed) (h : Caught K xs L)
    (hcs : xs ++ cs.flatten = streamBytes ws) (hdelivers : GuardedRun (· ++ ·) link.Delivers xs cs) :
    (link.run K L cs).Accepted ws ↔ GuardedRun (· ++ ·) link.Fits xs cs := by
  induction cs generalizing xs L with
  | nil =>
    refine iff_of_true ⟨h.up, h.proxyUp, ?_⟩ trivial
    rw [flatten_nil, append_nil] at hcs
    rw [run, h.parsed, hcs, parsedIn, run_streamBytes hws]
  | cons c cs ih =>
    obtain ⟨hc, hrest⟩ := hdelivers
    have hcs' : xs ++ c ++ cs.flatten = streamBytes ws := by rw [← hcs, flatten_cons, append_assoc]
    rw [run, if_pos h.up]
    by_cases hfits : link.Fits xs c
    · have hnext := step_fits h hws ⟨cs.flatten, hcs'⟩ hc.1 hfits
      exact (ih hnext hcs' hrest).trans (and_iff_right hfits).symm
    · refine iff_of_false (fun haccepted => ?_) fun hrun => hfits hrun.1
      by_cases hlink : link = .kprobe
      · -- the bytes of all the commands are more than the thread has got
        subst hlink
        have hlost := held_overflow h hc hfits
        have hheld := held_run (K := K) (Intake.kprobe.step K L c) cs
        have hall := rawBytes_events ws
        rw [← haccepted.parsed, ← hcs', length_append] at hall
        have hle : rawBytes (Intake.kprobe.run K (Intake.kprobe.step K L c) cs).parsed ≤
            (Intake.kprobe.run K (Intake.kprobe.step K L c) cs).held := Nat.le_add_right _ _
        omega
      · rcases run_down cs (step_overflow h hlink hc hfits) with hdown | hdown
        · rw [haccepted.up] at hdown
          cases hdown
        · rw [haccepted.proxyUp] at hdown
          cases hdown

lemma Intake.fits_of_short (hws : ∀ w ∈ ws, w.Parsed) (hsocket : link.socket = true)
    (hshort : ∀ w ∈ ws, w.raw.length ≤ link.cap) (hcs : xs ++ cs.flatten <+: streamBytes ws)
    (hdelivers : GuardedRun (· ++ ·) link.Delivers xs cs) : GuardedRun (· ++ ·) link.Fits xs cs := by
  induction cs generalizing xs with
  | nil => trivial
  | cons c cs ih =>
    rw [flatten_cons, ← append_assoc] at hcs
    have hxs : xs <+: streamBytes ws := ((prefix_append xs c).trans (prefix_append _ cs.flatten)).trans hcs
    have hroom : (unfinished xs).length < link.cap := by
      rcases unfinished_prefix hws hxs with hnil | ⟨w, hw, hlt⟩
      · rw [hnil]
        cases link <;> decide
      · exact hlt.trans_le (hshort w hw)
    exact ⟨hdelivers.1.2.1 hsocket hroom, ih hcs hdelivers.2⟩

/-- Byte by byte. -/
def bytewise (xs : Bytes) : List Bytes := xs.map fun b => [b]

lemma flatten_bytewise (xs : Bytes) : (bytewise xs).flatten = xs := by
  rw [bytewise, ← flatMap_def, flatMap_singleton']

lemma Intake.delivers_bytewise (hsocket : link.socket = true) (xs ys : Bytes) :
    GuardedRun (· ++ ·) link.Delivers xs (bytewise ys) := by
  induction ys generalizing xs with
  | nil => trivial
  | cons b ys ih =>
    refine ⟨⟨cons_ne_nil b [], fun _ hlt => hlt, ?_⟩, ih _⟩
    rintro rfl
    cases hsocket

lemma Intake.fits_bytewise {ys zs : Bytes} {b : UInt8}
    (h : GuardedRun (· ++ ·) link.Fits xs (bytewise (ys ++ b :: zs))) :
    (unfinished (xs ++ ys)).length < link.cap := by
  induction ys generalizing xs with
  | nil =>
    rw [append_nil]
    exact h.1
  | cons y ys ih =>
    rw [← singleton_append (x := y), ← append_assoc]
    exact ih h.2

lemma unfinished_take {w : StreamCmd} {n : ℕ} (hw : w.Parsed) (hn : n < w.raw.length) :
    unfinished (w.raw.take n) = w.raw.take n := by
  have hmore : respStep slaveLink (w.raw.take n) = .more := by
    cases hv : respStep slaveLink (w.raw.take n) with
    | more => rfl
    | take m es =>
      have hwhole := (respStep_stable slaveLink).append (w.raw.drop n) hv
      rw [take_append_drop, (respStep_slaveLink hw).1] at hwhole
      injection hwhole with hm _
      have hle := (respStep_stable slaveLink).le hv
      rw [← hm, length_take] at hle
      omega
  exact congrArg Prod.snd (Scanner.run_of_more (S := respScanner slaveLink) hmore)

lemma Intake.short_of_fits (hws : ∀ w ∈ ws, w.Parsed)
    (h : GuardedRun (· ++ ·) link.Fits [] (bytewise (streamBytes ws))) : ∀ w ∈ ws, w.raw.length ≤ link.cap := by
  intro w hw
  by_contra hlong
  obtain ⟨ws₁, ws₂, rfl⟩ := append_of_mem hw
  obtain ⟨b, t, hb⟩ : ∃ b t, w.raw.drop link.cap = b :: t := by
    refine exists_cons_of_ne_nil fun hnil => hlong ?_
    exact drop_eq_nil_iff.mp hnil
  have hsplit : streamBytes (ws₁ ++ w :: ws₂) =
      (streamBytes ws₁ ++ w.raw.take link.cap) ++ b :: (t ++ streamBytes ws₂) := by
    have hraw : w.raw = w.raw.take link.cap ++ b :: t := by rw [← hb, take_append_drop]
    simp only [streamBytes, map_append, map_cons, flatten_append, flatten_cons]
    conv_lhs => rw [hraw]
    simp
  rw [hsplit] at h
  have hlt := fits_bytewise h
  have hwhole : unfinished (streamBytes ws₁) = [] := by
    rw [unfinished, run_streamBytes fun v hv => hws v (mem_append_left _ hv)]
  have htake : (w.raw.take link.cap).length = link.cap := length_take_of_le (Nat.le_of_not_le hlong)
  rw [nil_append, unfinished_append, hwhole, nil_append, unfinished_take (hws w hw) (by omega), htake] at hlt
  exact Nat.lt_irrefl _ hlt

lemma Intake.socket_iff (link : Intake) (hws : ∀ w ∈ ws, w.Parsed) {s : σ} (hs : K.loading s = false)
    (hsocket : link.socket = true) :
    (∀ cs, cs.flatten = streamBytes ws → GuardedRun (· ++ ·) link.Delivers [] cs →
        (link.run K (.init s) cs).Accepted ws) ↔ ∀ w ∈ ws, w.raw.length ≤ link.cap := by
  constructor
  · intro hall
    have hdelivers := delivers_bytewise hsocket [] (streamBytes ws)
    have haccepted := hall _ (flatten_bytewise _) hdelivers
    exact short_of_fits hws ((accepted_iff hws (.init hs) (flatten_bytewise _) hdelivers).mp haccepted)
  · intro hshort cs hcs hdelivers
    have hprefix : [] ++ cs.flatten <+: streamBytes ws := by
      rw [nil_append, hcs]
    exact (accepted_iff hws (.init hs) hcs hdelivers).mpr (fits_of_short hws hsocket hshort hprefix hdelivers)

end Stream

/-- **A replica accepts what its buffers can hold.** -/
theorem slave_accepts (K : Hooks σ) (s : σ) (hs : K.loading s = false) (link : Intake) (ws : List StreamCmd)
    (hws : ∀ w ∈ ws, w.Executable) :
    (∀ cs, cs.flatten = streamBytes ws → GuardedRun (· ++ ·) link.Delivers [] cs →
      ((link.run K (.init s) cs).Accepted ws ↔ GuardedRun (· ++ ·) link.Fits [] cs)) ∧
    (link.socket = true →
      ((∀ cs, cs.flatten = streamBytes ws → GuardedRun (· ++ ·) link.Delivers [] cs →
        (link.run K (.init s) cs).Accepted ws) ↔ ∀ w ∈ ws, w.raw.length ≤ link.cap)) := by
  have hparsed : ∀ w ∈ ws, w.Parsed := fun w hw => (hws w hw).parsed
  refine ⟨fun cs hcs hdelivers => ?_, fun hsocket => link.socket_iff hparsed hs hsocket⟩
  exact Intake.accepted_iff hparsed (.init hs) hcs hdelivers

/-- Two commands. -/
def twoCmds : List StreamCmd :=
  [⟨[str "SET", str "a", str "1"], str "SET a 1\r\n"⟩, ⟨[str "DEL", str "b"], str "DEL b\r\n"⟩]

theorem slave_accepts_two :
    (∀ w ∈ twoCmds, w.Executable) ∧
      (Intake.single.run idleHooks (.init ()) [str "SET a", str " 1\r\nDEL ", str "b\r\n"]).Accepted twoCmds := by
  have hws : ∀ w ∈ twoCmds, w.Executable := by
    intro w hw
    simp only [twoCmds, mem_cons, not_mem_nil, or_false] at hw
    rcases hw with rfl | rfl
    · exact ⟨by decide +kernel, by decide⟩
    · exact ⟨by decide +kernel, by decide⟩
  refine ⟨hws, ((slave_accepts idleHooks () rfl .single twoCmds hws).1 _ (by decide) (by decide +kernel)).mpr ?_⟩
  decide +kernel

/-- A `SET`, as an array. -/
def setCmd (v : Bytes) : StreamCmd where
  argv := [str "SET", str "a", v]
  raw := respBuildCmd [str "SET", str "a", v]

lemma setCmd_parsed {v : Bytes} (hv : v.length < 2 ^ 63) : (setCmd v).Parsed := by
  refine respStep_respBuildCmd clientLink (cons_ne_nil _ _) (by decide : 3 ≤ 32) fun a ha => ?_
  simp only [mem_cons, not_mem_nil, or_false] at ha
  rcases ha with rfl | rfl | rfl
  · decide
  · decide
  · exact hv

lemma length_setCmd {v : Bytes} (hv : v.length < 10 ^ 6) :
    v.length < (setCmd v).raw.length ∧ (setCmd v).raw.length < v.length + 64 := by
  have hvalue : (decimal v.length).length ≤ 6 := length_decimal_le (by omega) hv
  have hname : (decimal (str "SET").length).length ≤ 1 := length_decimal_le (by omega) (by decide)
  have hkey : (decimal (str "a").length).length ≤ 1 := length_decimal_le (by omega) (by decide)
  have hargc : (decimal (0 + 1 + 1 + 1)).length ≤ 1 := length_decimal_le (by omega) (by omega)
  have hset : (str "SET").length = 3 := by decide
  have ha : (str "a").length = 1 := by decide
  simp only [setCmd, respBuildCmd, appendBulk, flatMap_cons, flatMap_nil, length_cons, length_append, length_nil]
  omega

/-- A `SET` of 70000 bytes. -/
def largeSet : StreamCmd := setCmd (List.replicate 70000 120)

lemma largeSet_parsed : largeSet.Parsed := setCmd_parsed (by rw [length_replicate]; omega)

lemma length_largeSet : 70000 < largeSet.raw.length ∧ largeSet.raw.length < inbufCap := by
  have hlength := length_setCmd (v := List.replicate 70000 120) (by rw [length_replicate]; omega)
  rw [length_replicate] at hlength
  exact ⟨hlength.1, hlength.2.trans (by decide)⟩

/-- A master's client can send it; on the replica's single socket there is a chunking with which it is never
dispatched. -/
theorem large_set_refused :
    largeSet.Executable ∧
      ∃ cs, cs.flatten = streamBytes [largeSet] ∧ GuardedRun (· ++ ·) Intake.single.Delivers [] cs ∧
        ¬ (Intake.single.run idleHooks (.init ()) cs).Accepted [largeSet] := by
  refine ⟨⟨largeSet_parsed, length_largeSet.2⟩, ?_⟩
  have hone : ∀ w ∈ [largeSet], w.Parsed := by
    rintro _ (_ | ⟨_, ⟨⟩⟩)
    exact largeSet_parsed
  by_contra hnone
  have hall := (Intake.single.socket_iff (K := idleHooks) hone rfl rfl).mp fun cs hcs hdelivers => by
    by_contra hrefused
    exact hnone ⟨cs, hcs, hdelivers, hrefused⟩
  have hshort := hall largeSet (.head _)
  have hlong := length_largeSet.1
  rw [Intake.cap, smallBufCap] at hshort
  omega

end PocketKv.Replication
