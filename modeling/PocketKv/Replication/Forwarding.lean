import PocketKv.Library.Run
import PocketKv.Replication.Backlog

/-!
# The forwarding thread
-/

namespace PocketKv.Replication

open Library Resp List Function

variable {i : FwdInput} {c : ℕ} {F : Fwd} {st : SendState}

/-! ### Send states -/

/-- `MAX_FWD_SEND_BUF_BYTES`. -/
def maxFwdSendBufBytes : ℕ := 4 * 1024 * 1024

/-- `repl_fwd_send_state_t`. -/
structure SendState where
  /-- `buf` and `len`. -/
  buf : Bytes := []
  watermark : ℕ := 0
  stalled : Bool := false
  dropped : Bool := false
  deriving DecidableEq

/-- What a call of `write` returns. -/
inductive WriteResult where
  | took (n : ℕ)
  /-- `EAGAIN`. -/
  | again
  | failed
  deriving DecidableEq

/-- The loop of `repl_fwd_drain_send`: the bytes written, those left, and whether it ended with an error. After the
results listed the socket takes no more. -/
def writeLoop : List WriteResult → Bytes → Bytes × Bytes × Bool
  | [], buf => ([], buf, false)
  | r :: rs, buf =>
    if buf = [] then ([], [], false)
    else
      match r with
      | .took n =>
        if n = 0 then ([], buf, false)
        else
          let (written, rest, failed) := writeLoop rs (buf.drop n)
          (buf.take n ++ written, rest, failed)
      | .again => ([], buf, false)
      | .failed => ([], buf, true)

lemma writeLoop_append (rs : List WriteResult) (buf : Bytes) :
    (writeLoop rs buf).1 ++ (writeLoop rs buf).2.1 = buf := by
  induction rs generalizing buf with
  | nil => rfl
  | cons r rs ih =>
    unfold writeLoop
    split
    · simp_all
    cases r with
    | took n =>
      dsimp only
      split
      · rfl
      · rw [append_assoc, ih, take_append_drop]
    | again => rfl
    | failed => rfl

/-- `repl_fwd_drain_send`: the state after it, the bytes written, and whether the process ends. -/
def replFwdDrainSend (inProgress : Bool) (rs : List WriteResult) (st : SendState) : SendState × Bytes × Bool :=
  if st.buf = [] then (st, [], false)
  else if inProgress then (st, [], false)
  else if st.dropped then ({ st with buf := [] }, [], false)
  else
    match writeLoop rs st.buf with
    | (written, rest, false) => ({ st with buf := rest }, written, false)
    | (written, _, true) => ({ st with buf := [] }, written, written != [])

/-- `repl_fwd_append`. -/
def replFwdAppend (buf : Bytes) (start endOffset : ℕ) (st : SendState) : SendState :=
  if st.dropped || st.stalled || buf = [] then st
  else if endOffset ≤ st.watermark then st
  else
    let covered := if start < st.watermark then st.watermark - start else 0
    if buf.length ≤ covered then st
    else if maxFwdSendBufBytes < st.buf.length + (buf.length - covered) then { st with stalled := true }
    else { st with buf := st.buf ++ buf.drop covered, watermark := endOffset }

/-- `repl_fwd_refill`. -/
def replFwdRefill (inProgress : Bool) (B : ReplBacklog) (st : SendState) : SendState :=
  if st.dropped then st
  else if inProgress then st
  else
    let st := if st.stalled && st.buf.length < maxFwdSendBufBytes / 2 then { st with stalled := false } else st
    if st.stalled then st
    else if maxFwdSendBufBytes ≤ st.buf.length then st
    else if B.endOffset ≤ st.watermark then st
    else
      match B.copyRange st.watermark with
      | none => st
      | some bytes =>
        if bytes = [] then st else replFwdAppend bytes st.watermark (st.watermark + bytes.length) st

lemma dropped_replFwdDrainSend (inProgress : Bool) (rs : List WriteResult) (st : SendState) :
    (replFwdDrainSend inProgress rs st).1.dropped = st.dropped := by
  unfold replFwdDrainSend
  repeat' split
  all_goals rfl

lemma dropped_replFwdAppend (buf : Bytes) (start endOffset : ℕ) (st : SendState) :
    (replFwdAppend buf start endOffset st).dropped = st.dropped := by
  unfold replFwdAppend
  dsimp only
  repeat' split
  all_goals rfl

lemma replFwdRefill_of_dropped (inProgress : Bool) (B : ReplBacklog) (h : st.dropped = true) :
    replFwdRefill inProgress B st = st := by
  simp [replFwdRefill, h]

lemma written_of_dropped (inProgress : Bool) (rs : List WriteResult) (h : st.dropped = true) :
    (replFwdDrainSend inProgress rs st).2.1 = [] := by
  simp only [replFwdDrainSend, h, if_true]
  split
  · rfl
  split <;> rfl

/-- The offset at which a node begins. -/
def FwdNode.start (n : FwdNode) : ℕ := if n.buf.length < n.endOffset then n.endOffset - n.buf.length else 0

/-- The first part of `repl_fwd_process_one`: `repl_fwd_get_or_create` and `repl_fwd_append`. -/
def appendNode (n : FwdNode) (st : Option SendState) : SendState :=
  let st := st.getD {}
  if st.dropped then st else replFwdAppend n.buf n.start n.endOffset st

/-- `repl_fwd_drain_send`, if there is a state. -/
def drainState (inProgress : Bool) (rs : List WriteResult) : Option SendState → Option SendState × Bytes × Bool
  | none => (none, [], false)
  | some st =>
    let (st, written, ends) := replFwdDrainSend inProgress rs st
    (some st, written, ends)

/-! ### One connection -/

/-- What happens to a connection, with what is read of the rest of the state. -/
inductive OwnInput where
  | enqueue (n : FwdNode)
  | append
  | drain (inProgress : Bool) (rs : List WriteResult)
  | refill (inProgress : Bool) (B : ReplBacklog)

/-- What belongs to one connection. -/
structure Own where
  queue : List FwdNode := []
  state : Option SendState := none
  wire : Bytes := []

/-- A step of it alone. -/
def Own.step (O : Own) : OwnInput → Own
  | .enqueue n => { O with queue := O.queue ++ [n] }
  | .append =>
    match O.queue with
    | [] => O
    | n :: queue => { O with queue := queue, state := some (appendNode n O.state) }
  | .drain inProgress rs =>
    let (state, written, _) := drainState inProgress rs O.state
    { O with state := state, wire := O.wire ++ written }
  | .refill inProgress B => { O with state := O.state.map (replFwdRefill inProgress B) }

/-! ### All connections -/

/-- The queue, `g_fwd_queue_bytes` and the send states, by the address of the connection. -/
structure Fwd where
  queue : List (ℕ × FwdNode) := []
  /-- `g_fwd_queue_bytes`. -/
  queueBytes : ℕ := 0
  /-- `g_fwd_states`. -/
  states : ℕ → Option SendState := fun _ => none
  isOpen : ℕ → Bool := fun _ => false
  wire : ℕ → Bytes := fun _ => []
  events : ℕ → List OwnInput := fun _ => []
  ended : Bool := false

/-- What happens. -/
inductive FwdInput where
  | accept (c : ℕ)
  /-- `close_conn`. -/
  | close (c : ℕ)
  /-- `repl_fwd_enqueue`. -/
  | enqueue (c : ℕ) (n : FwdNode)
  | append
  /-- `repl_fwd_drain_send` for a connection. -/
  | drain (c : ℕ) (inProgress : Bool) (rs : List WriteResult)
  /-- `repl_fwd_refill` for a connection. -/
  | refill (c : ℕ) (inProgress : Bool) (B : ReplBacklog)

namespace Fwd

/-- The bytes in a queue. -/
def bytesOf (queue : List (ℕ × FwdNode)) : ℕ := (queue.map (·.2.buf.length)).sum

/-- The history of a connection. -/
def note (c : ℕ) (e : OwnInput) (F : Fwd) : Fwd :=
  { F with events := update F.events c (F.events c ++ [e]) }

/-- `repl_fwd_enqueue`. -/
def replFwdEnqueue (c : ℕ) (n : FwdNode) (F : Fwd) : Fwd :=
  { F with queue := F.queue ++ [(c, n)], queueBytes := F.queueBytes + n.buf.length }

/-- `repl_fwd_purge_conn`. -/
def replFwdPurgeConn (c : ℕ) (F : Fwd) : Fwd :=
  { F with
    queue := F.queue.filter (·.1 ≠ c)
    queueBytes := F.queueBytes - bytesOf (F.queue.filter (·.1 = c))
    states := update F.states c ((F.states c).map fun st => { st with dropped := true }) }

/-- The thread takes the next node. -/
def replFwdAppendNext (F : Fwd) : Fwd :=
  match F.queue with
  | [] => F
  | (c, n) :: queue =>
    { F.note c .append with
      queue := queue
      queueBytes := F.queueBytes - n.buf.length
      states := update F.states c (some (appendNode n (F.states c))) }

/-- The thread sends for a connection. -/
def drainConn (c : ℕ) (inProgress : Bool) (rs : List WriteResult) (F : Fwd) : Fwd :=
  let (state, written, ends) := drainState inProgress rs (F.states c)
  { F.note c (.drain inProgress rs) with
    states := update F.states c state
    wire := update F.wire c (F.wire c ++ written)
    ended := ends }

/-- A step. -/
def step (F : Fwd) : FwdInput → Fwd
  | .accept c =>
    { F with
      isOpen := update F.isOpen c true
      wire := update F.wire c []
      events := update F.events c [] }
  | .close c => { F.replFwdPurgeConn c with isOpen := update F.isOpen c false }
  | .enqueue c n => (F.note c (.enqueue n)).replFwdEnqueue c n
  | .append => F.replFwdAppendNext
  | .drain c inProgress rs => F.drainConn c inProgress rs
  | .refill c inProgress B =>
    { F.note c (.refill inProgress B) with
      states := update F.states c ((F.states c).map (replFwdRefill inProgress B)) }

/-- The reactor closes connections that are open, and forwards to these. -/
def proper (F : Fwd) (i : FwdInput) : Bool :=
  !F.ended &&
    match i with
    | .accept c => !F.isOpen c
    | .close c => F.isOpen c
    | .enqueue c _ => F.isOpen c
    | _ => true

/-- What belongs to a connection. -/
def view (F : Fwd) (c : ℕ) : Own where
  queue := (F.queue.filter (·.1 = c)).map (·.2)
  state := F.states c
  wire := F.wire c

/-- No send state is left at the address of a new connection. -/
def fresh (F : Fwd) : FwdInput → Bool
  | .accept c => (F.states c).isNone
  | _ => true

/-- Each open connection is as if it were alone. -/
def Separate (F : Fwd) : Prop := ∀ c, F.isOpen c = true → F.view c = (F.events c).foldl Own.step {}

/-- The bytes are counted, and the queue and the states are those of open connections. -/
structure Ok (F : Fwd) : Prop where
  bytes : F.queueBytes = bytesOf F.queue
  queue : ∀ x ∈ F.queue, F.isOpen x.1 = true
  dropped : ∀ c, F.isOpen c = false → ∀ st ∈ F.states c, st.dropped = true

lemma Ok.start : Ok {} := ⟨rfl, by simp, by simp⟩

lemma Ok.view_queue (h : F.Ok) (hc : F.isOpen c = false) : (F.view c).queue = [] := by
  simp only [view, map_eq_nil_iff, filter_eq_nil_iff, decide_eq_true_eq]
  rintro x hx rfl
  simp [h.queue x hx] at hc

lemma bytesOf_filter (queue : List (ℕ × FwdNode)) (c : ℕ) :
    bytesOf (queue.filter (·.1 = c)) + bytesOf (queue.filter (·.1 ≠ c)) = bytesOf queue := by
  have h := ((filter_append_perm (fun x : ℕ × FwdNode => decide (x.1 = c)) queue).map (·.2.buf.length)).sum_eq
  simpa [bytesOf] using h

lemma Ok.update (h : F.Ok) {st : Option SendState} (hst : F.isOpen c = false → ∀ s ∈ st, s.dropped = true) {d : ℕ}
    (hd : F.isOpen d = false) : ∀ s ∈ update F.states c st d, s.dropped = true := by
  rcases eq_or_ne d c with rfl | hdc
  · rw [update_self]
    exact hst hd
  · rw [update_of_ne hdc]
    exact h.dropped d hd

lemma Ok.step (h : F.Ok) (hi : F.proper i = true) : (F.step i).Ok := by
  simp only [proper, Bool.and_eq_true] at hi
  cases i with
  | accept c =>
    refine ⟨h.bytes, fun x hx => ?_, fun c' hc' => ?_⟩
    · by_cases hxc : x.1 = c
      · simp [Fwd.step, hxc]
      · simpa [Fwd.step, hxc] using h.queue x hx
    · by_cases hcc : c' = c
      · simp [Fwd.step, hcc] at hc'
      · exact h.dropped c' (by simpa [Fwd.step, hcc] using hc')
  | close c =>
    have hsum := bytesOf_filter F.queue c
    refine ⟨?_, fun x hx => ?_, fun c' hc' st hst => ?_⟩
    · simp only [Fwd.step, replFwdPurgeConn, h.bytes]
      omega
    · obtain ⟨hx, hxc⟩ := mem_filter.mp hx
      simpa [Fwd.step, show x.1 ≠ c by simpa using hxc] using h.queue x hx
    · by_cases hcc : c' = c
      · subst hcc
        simp only [Fwd.step, replFwdPurgeConn, update_self, Option.mem_def, Option.map_eq_some_iff] at hst
        obtain ⟨st₀, -, rfl⟩ := hst
        rfl
      · simp only [Fwd.step, replFwdPurgeConn, update_of_ne hcc] at hc' hst
        exact h.dropped c' hc' st hst
  | enqueue c n =>
    refine ⟨by simp [Fwd.step, note, replFwdEnqueue, h.bytes, bytesOf], fun x hx => ?_, h.dropped⟩
    rcases mem_append.mp hx with hx | hx
    · exact h.queue x hx
    · rw [mem_singleton.mp hx]
      exact hi.2
  | append =>
    simp only [Fwd.step, replFwdAppendNext]
    split
    · exact h
    rename_i c n queue hq
    have hc : F.isOpen c = true := h.queue (c, n) (by rw [hq]; exact mem_cons_self)
    refine ⟨by simp [h.bytes, hq, bytesOf], fun x hx => ?_, fun d hd => h.update (fun hno => ?_) hd⟩
    · exact h.queue x (by rw [hq]; exact mem_cons_of_mem _ hx)
    · simp [hc] at hno
  | drain c inProgress rs =>
    refine ⟨h.bytes, h.queue, fun d hd => h.update (fun hno st hst => ?_) hd⟩
    cases hs : F.states c with
    | none => simp [hs] at hst
    | some st₀ =>
      simp only [hs] at hst
      cases hst
      rw [dropped_replFwdDrainSend]
      exact h.dropped c hno st₀ hs
  | refill c inProgress B =>
    refine ⟨h.bytes, h.queue, fun d hd => h.update (fun hno st hst => ?_) hd⟩
    obtain ⟨st₀, hst₀, rfl⟩ := Option.map_eq_some_iff.mp hst
    have hdropped := h.dropped c hno st₀ hst₀
    rwa [replFwdRefill_of_dropped _ _ hdropped]

lemma Ok.wire_step (h : F.Ok) (hc : F.isOpen c = false) (hi : i ≠ .accept c) : (F.step i).wire c = F.wire c := by
  cases i with
  | accept c' =>
    have hne : c ≠ c' := fun heq => hi (by rw [heq])
    simp [Fwd.step, update_of_ne hne]
  | close c' => rfl
  | enqueue c' n => rfl
  | refill c' inProgress B => rfl
  | append =>
    simp only [Fwd.step, replFwdAppendNext]
    split <;> rfl
  | drain c' inProgress rs =>
    simp only [Fwd.step, drainConn]
    by_cases hne : c = c'
    · subst hne
      cases hs : F.states c with
      | none => simp [drainState]
      | some st => simp [drainState, written_of_dropped _ _ (h.dropped c hc st hs)]
    · rw [update_of_ne hne]

/-- A connection goes on by steps of its own. -/
def Follows (F F' : Fwd) (c : ℕ) : Prop :=
  ∃ es, F'.events c = F.events c ++ es ∧ F'.view c = es.foldl Own.step (F.view c)

lemma Follows.same {F F' : Fwd} (he : F'.events c = F.events c) (hv : F'.view c = F.view c) :
    Follows F F' c := ⟨[], by rw [he, append_nil], hv⟩

lemma follows_step (F : Fwd) (hopen : i ≠ .accept c) (hclose : i ≠ .close c) : Follows F (F.step i) c := by
  cases i with
  | accept c' =>
    have hne : c ≠ c' := fun heq => hopen (by rw [heq])
    exact .same (by simp [Fwd.step, hne]) (by simp [Fwd.step, view, hne])
  | close c' =>
    have hne : c ≠ c' := fun heq => hclose (by rw [heq])
    refine .same rfl ?_
    have hfilter : (F.queue.filter (·.1 ≠ c')).filter (·.1 = c) = F.queue.filter (·.1 = c) := by
      rw [filter_filter]
      refine filter_congr fun x _ => ?_
      by_cases hx : x.1 = c <;> simp [hx, hne]
    simp only [Fwd.step, replFwdPurgeConn, view, hfilter, update_of_ne hne]
  | enqueue c' n =>
    by_cases hne : c = c'
    · subst hne
      exact ⟨[.enqueue n], by simp [Fwd.step, note, replFwdEnqueue],
        by simp [Fwd.step, note, replFwdEnqueue, view, Own.step]⟩
    · exact .same (by simp [Fwd.step, note, replFwdEnqueue, hne])
        (by simp [Fwd.step, note, replFwdEnqueue, view, filter_append, Ne.symm hne])
  | append =>
    simp only [Fwd.step, replFwdAppendNext]
    split
    · exact .same rfl rfl
    rename_i c' n queue hq
    by_cases hne : c = c'
    · subst hne
      exact ⟨[.append], by simp [note], by simp [view, hq, Own.step, note]⟩
    · exact .same (by simp [note, hne]) (by simp [view, hq, hne, Ne.symm hne, note])
  | drain c' inProgress rs =>
    by_cases hne : c = c'
    · subst hne
      exact ⟨[.drain inProgress rs], by simp [Fwd.step, drainConn, note],
        by simp [Fwd.step, drainConn, view, Own.step, note]⟩
    · exact .same (by simp [Fwd.step, drainConn, note, hne]) (by simp [Fwd.step, drainConn, view, hne, note])
  | refill c' inProgress B =>
    by_cases hne : c = c'
    · subst hne
      exact ⟨[.refill inProgress B], by simp [Fwd.step, note], by simp [Fwd.step, view, Own.step, note]⟩
    · exact .same (by simp [Fwd.step, note, hne]) (by simp [Fwd.step, view, hne, note])

lemma Follows.separate {F F' : Fwd} (h : Follows F F' c)
    (hs : F.view c = (F.events c).foldl Own.step {}) : F'.view c = (F'.events c).foldl Own.step {} := by
  obtain ⟨es, he, hv⟩ := h
  rw [hv, he, foldl_append, hs]

lemma isOpen_step (F : Fwd) (hopen : i ≠ .accept c) (hclose : i ≠ .close c) :
    (F.step i).isOpen c = F.isOpen c := by
  cases i with
  | accept c' =>
    have hne : c ≠ c' := fun heq => hopen (by rw [heq])
    simp [Fwd.step, hne]
  | close c' =>
    have hne : c ≠ c' := fun heq => hclose (by rw [heq])
    simp [Fwd.step, hne]
  | append =>
    simp only [Fwd.step, replFwdAppendNext]
    split <;> rfl
  | enqueue c' n => rfl
  | drain c' inProgress rs => rfl
  | refill c' inProgress B => rfl

lemma separate_step (hok : F.Ok) (hi : F.proper i = true) (hs : F.Separate) :
    F.fresh i = true ↔ (F.step i).Separate := by
  simp only [proper, Bool.and_eq_true] at hi
  have hother {c : ℕ} (hopen : i ≠ .accept c) (hclose : i ≠ .close c) (hc : (F.step i).isOpen c = true) :
      (F.step i).view c = ((F.step i).events c).foldl Own.step {} := by
    rw [isOpen_step F hopen hclose] at hc
    exact (follows_step F hopen hclose).separate (hs c hc)
  cases i with
  | accept c =>
    have hclosed : F.isOpen c = false := by simpa using hi.2
    have hview : (F.step (.accept c)).view c = { state := F.states c } := by
      have hq := hok.view_queue hclosed
      simp only [view] at hq
      simp [Fwd.step, view, hq]
    constructor
    · intro hfresh c' hc'
      by_cases hne : c' = c
      · subst hne
        rw [hview, Option.isNone_iff_eq_none.mp hfresh]
        simp [Fwd.step]
      · exact hother (by simpa using Ne.symm hne) (by simp) hc'
    · intro h
      have hc := h c (by simp [Fwd.step])
      rw [hview] at hc
      have hstate := congrArg Own.state hc
      simp only [Fwd.step, update_self, foldl_nil] at hstate
      simp [fresh, hstate]
  | close c =>
    refine iff_of_true rfl fun c' hc' => ?_
    by_cases hne : c' = c
    · subst hne
      simp [Fwd.step] at hc'
    · exact hother (by simp) (by simpa using Ne.symm hne) hc'
  | enqueue c n => exact iff_of_true rfl fun c' hc' => hother (by simp) (by simp) hc'
  | append => exact iff_of_true rfl fun c' hc' => hother (by simp) (by simp) hc'
  | drain c inProgress rs => exact iff_of_true rfl fun c' hc' => hother (by simp) (by simp) hc'
  | refill c inProgress B => exact iff_of_true rfl fun c' hc' => hother (by simp) (by simp) hc'

end Fwd

open Fwd

/-- **Forwarding state belongs to one connection**: what happens on each open connection depends only on what
happened to it since it was opened, if and only if none is opened at an address that still has a send state. In any
case the bytes in the queue are counted, and nothing is queued or written for a closed connection. -/
theorem forwarding_separate_iff (is : List FwdInput)
    (h : GuardedRun Fwd.step (fun F i => F.proper i = true) {} is) :
    (GuardedRun Fwd.step (fun F i => F.fresh i = true) {} is ↔
      ∀ js, js <+: is → ∀ c, (js.foldl Fwd.step {}).isOpen c = true →
        (js.foldl Fwd.step {}).view c = ((js.foldl Fwd.step {}).events c).foldl Own.step {}) ∧
    ∀ js, js <+: is →
      (js.foldl Fwd.step {}).queueBytes = bytesOf (js.foldl Fwd.step {}).queue ∧
      ∀ c, (js.foldl Fwd.step {}).isOpen c = false →
        ((js.foldl Fwd.step {}).view c).queue = [] ∧
        ∀ i, i ≠ .accept c → ((js.foldl Fwd.step {}).step i).wire c = (js.foldl Fwd.step {}).wire c := by
  have hkeep (F : Fwd) (i : FwdInput) (hok : F.Ok) (hi : F.proper i = true) : (F.step i).Ok := hok.step hi
  refine ⟨GuardedRun.iff_forall_prefix hkeep (fun F i hok hi hs => separate_step hok hi hs) Ok.start
    (fun c hc => by cases hc) h, fun js hjs => ?_⟩
  have hok : (js.foldl Fwd.step {}).Ok := GuardedRun.invariant hkeep Ok.start (h.of_prefix hjs)
  exact ⟨hok.bytes, fun c hc => ⟨hok.view_queue hc, fun i hi => hok.wire_step hc hi⟩⟩

/-- A write is forwarded. -/
def forwardWrite (c : ℕ) (raw : Bytes) (endOffset : ℕ) : List FwdInput :=
  [.enqueue c ⟨raw, endOffset⟩, .append, .drain c false [.took raw.length]]

/-- Two connections, one after the other. -/
def twoConnections (c : ℕ) : List FwdInput :=
  [.accept 1] ++ forwardWrite 1 (str "SET a 1\n") 8 ++ [.close 1, .accept c] ++ forwardWrite c (str "SET b 2\n") 16

theorem forwarding_separate_other_address :
    GuardedRun Fwd.step (fun F i => F.proper i = true) {} (twoConnections 2) ∧
      ∀ js, js <+: twoConnections 2 → ∀ c, (js.foldl Fwd.step {}).isOpen c = true →
        (js.foldl Fwd.step {}).view c = ((js.foldl Fwd.step {}).events c).foldl Own.step {} :=
  ⟨by decide, (forwarding_separate_iff (twoConnections 2) (by decide)).1.mp (by decide)⟩

/-- At the same address the second write is lost: the first connection's state is still there, dropped. -/
theorem forwarding_lost_same_address :
    let F := (twoConnections 1).foldl Fwd.step {}
    GuardedRun Fwd.step (fun F i => F.proper i = true) {} (twoConnections 1) ∧ F.isOpen 1 = true ∧
      F.wire 1 = [] ∧ ((F.events 1).foldl Own.step {}).wire = str "SET b 2\n" := by
  decide

end PocketKv.Replication
