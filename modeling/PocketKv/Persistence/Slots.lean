import PocketKv.Library.Run
import PocketKv.Library.Tiling
import PocketKv.Persistence.Aof

/-!
# The slots of the append-only file
-/

namespace PocketKv.Persistence

open Library Resp List Function

variable {s : ℕ} {t : ThreadAt} {drain : Bool}

/-- `PERSIST_INFLIGHT_SIZE`. -/
def inflightSize : ℕ := 1024

/-- `MAX_OUTSTANDING`. -/
def maxOutstanding : ℤ := 16

/-- `AOF_SLOT_INIT`. -/
def aofSlotInit : ℕ := 64 * 1024

/-- `persist_slot_t`. -/
structure WriteSlot where
  /-- The first `aof_len` bytes of `aof_buf`. -/
  buf : Bytes := []
  /-- `aof_cap`. -/
  cap : ℕ := 0
  /-- `base_offset`. -/
  base : ℕ := 0
  /-- `cqe_seen`. -/
  cqeSeen : ℕ := 0
  /-- `cqe_ok`. -/
  cqeOk : ℕ := 0

/-- The offset and the bytes of a slot. -/
def WriteSlot.piece (w : WriteSlot) : ℕ × Bytes := (w.base, w.buf)

/-- What the main thread has still to do. -/
inductive MainOp where
  /-- `persist_append_prepare` from the choice of a slot on; `alloc`: memory is to be had. -/
  | fill (raw : Bytes) (alloc : Bool)
  /-- `handoff_current_slot`. -/
  | handoff
  /-- `slot_pop_completed_all` in `drain_completed`. -/
  | popCompleted
  /-- The loop in `drain_completed`. -/
  | pushFree
  /-- `aof_work_request(AOF_WORK_DRAIN)`. -/
  | request
  /-- `fence_wait`. -/
  | fence

/-- The place of the writing thread in its code; `drain`: in `aof_thread_drain_impl`. -/
inductive ThreadAt where
  /-- At `poll`. -/
  | poll
  | submitting (drain : Bool)
  /-- At `submit_one_slot`. -/
  | holding (s : ℕ) (drain : Bool)
  /-- `submit_one_slot` has failed. -/
  | failed (drain : Bool)
  | waiting
  /-- At the loop of `reap_completions_inline`. -/
  | reaping (drain : Bool)
  /-- Before `slot_push_completed` in that loop. -/
  | pushing (s : ℕ) (drain : Bool)

/-- The slot that the thread has. -/
def ThreadAt.owner : ThreadAt → Option ℕ
  | .holding s _ | .pushing s _ => some s
  | _ => none

/-- The slot that it is to submit. -/
def ThreadAt.held : ThreadAt → Option ℕ
  | .holding s _ => some s
  | _ => none

/-- What is submitted to the kernel. -/
inductive Sqe where
  /-- The write of a slot; `linked`: an `fsync` follows. -/
  | write (s : ℕ) (linked : Bool)
  /-- The `fsync` after the write. -/
  | fsync (s : ℕ)

/-- How many completions the slot `a` is to get from it. -/
def Sqe.count (a : ℕ) : Sqe → ℕ
  | .write s linked => if s = a then if linked then 2 else 1 else 0
  | .fsync s => if s = a then 1 else 0

/-- The slots, the two threads and the kernel. -/
structure Slots where
  /-- `aof_fsync_per_command`. -/
  perCommand : Bool
  /-- `g_inflight`. -/
  slots : ℕ → WriteSlot := fun _ => {}
  /-- `g_free_slots`. -/
  free : List ℕ := (List.range inflightSize).reverse
  /-- `g_cur_slot`. -/
  cur : Option ℕ := none
  /-- The list from `g_ready_head` on. -/
  ready : List ℕ := []
  /-- The list from `g_completed_head` on. -/
  completed : List ℕ := []
  /-- The completed slots in the hands of `drain_completed`. -/
  taken : List ℕ := []
  /-- `g_outstanding`. -/
  outstanding : ℤ := 0
  /-- `g_aof_write_submitted`. -/
  submitted : ℕ
  /-- `g_aof_write_offset`. -/
  writeOffset : ℕ
  /-- `g_persist_fatal_error`. -/
  fatal : Bool := false
  /-- `AOF_WORK_DRAIN` is set in `g_work_flags`. -/
  work : Bool := false
  /-- `g_drain_done`. -/
  drainDone : Bool := false
  main : List MainOp := []
  thread : ThreadAt := .poll
  file : Bytes
  sqes : List Sqe := []
  cqes : List (ℕ × Option ℕ) := []
  inflight : List ℕ := []
  handed : List (ℕ × Bytes) := []
  appended : Bytes := []
  /-- What `persist_append_prepare` returned; `false` stands for `KVS_PERSIST_ERR`. -/
  replies : List Bool := []

/-- `persist_init` without `aof_fsync_sync`. -/
def Slots.init (perCommand : Bool) (file : Bytes) : Slots :=
  { perCommand, file, submitted := file.length, writeOffset := file.length }

namespace Slots

/-- The bytes in the current slot. -/
def curBuf (S : Slots) : Bytes := (S.cur.map fun s => (S.slots s).buf).getD []

/-- A slot is changed. -/
def modify (S : Slots) (s : ℕ) (f : WriteSlot → WriteSlot) : Slots :=
  { S with slots := Function.update S.slots s (f (S.slots s)) }

/-! ### The main thread -/

/-- `new_cap` is doubled until it reaches `need`. -/
def growCap (need : ℕ) : ℕ → ℕ → ℕ
  | 0, cap => cap
  | fuel + 1, cap => if cap < need then growCap need fuel (cap * 2) else cap

/-- The new `aof_cap`; nothing if there is no room. -/
def ensureCap (need cap : ℕ) (alloc : Bool) : Option ℕ :=
  if cap < need then
    let newCap := growCap need need (if cap = 0 then aofSlotInit else cap)
    if aofSlotMax < newCap ∨ alloc = false then none else some newCap
  else some cap

/-- `persist_reap_completions`. -/
def reapCompletions : List MainOp := [.popCompleted, .pushFree]

/-- `persist_flush_pending_force`. -/
def flushPendingForce : List MainOp := .handoff :: reapCompletions

/-- Bytes are added to a slot. -/
def addBytes (raw : Bytes) (cap s : ℕ) (S : Slots) : Slots :=
  { S.modify s fun w => { w with buf := w.buf ++ raw, cap } with
    submitted := S.submitted + raw.length, appended := S.appended ++ raw }

/-- The copy of `persist_append_prepare` into the slot. -/
def copy (raw : Bytes) (alloc : Bool) (s : ℕ) (ops : List MainOp) (S : Slots) : Slots :=
  match ensureCap ((S.slots s).buf.length + raw.length) (S.slots s).cap alloc with
  | none => { S with main := ops, replies := S.replies ++ [false] }
  | some cap =>
    { S.addBytes raw cap s with
      replies := S.replies ++ [true]
      main := (if S.perCommand ∨ aofSlotMax ≤ ((S.slots s).buf ++ raw).length then flushPendingForce else []) ++ ops }

/-- `slot_pop_free`, and the slot becomes the current one. -/
def takeFree (s : ℕ) (free : List ℕ) (S : Slots) : Slots :=
  { S.modify s fun w => { w with buf := [], base := S.submitted } with free, cur := some s }

/-- `persist_append_prepare` from the choice of a slot on. -/
def fill (raw : Bytes) (alloc : Bool) (ops : List MainOp) (S : Slots) : Slots :=
  match S.cur, S.free with
  | some s, _ => S.copy raw alloc s ops
  | none, s :: free => (S.takeFree s free).copy raw alloc s ops
  | none, [] => { S with main := reapCompletions ++ .fill raw alloc :: ops }

/-- `slot_push_ready`, after which there is no current slot. -/
def pushReady (s : ℕ) (S : Slots) : Slots :=
  { S with ready := S.ready ++ [s], outstanding := S.outstanding + 1, cur := none,
           handed := S.handed ++ [(S.slots s).piece] }

/-- `handoff_current_slot`. -/
def handoff (ops : List MainOp) (S : Slots) : Slots :=
  match S.cur with
  | none => { S with main := ops }
  | some s =>
    if (S.slots s).buf = [] then { S with main := ops }
    else if maxOutstanding ≤ S.outstanding then { S with main := reapCompletions ++ .handoff :: ops }
    else { S.pushReady s with main := ops }

/-- `slot_pop_completed_all`. -/
def popCompleted (S : Slots) : Slots := { S with completed := [], taken := S.taken ++ S.completed }

/-- `slot_push_free`. -/
def slotPushFree (s : ℕ) (taken : List ℕ) (S : Slots) : Slots :=
  { S.modify s fun w => { w with buf := [], base := 0, cqeSeen := 0, cqeOk := 0 } with free := s :: S.free, taken }

/-- A step of the main thread. -/
def mainStep (S : Slots) : Slots :=
  match S.main with
  | [] => S
  | .fill raw alloc :: ops => S.fill raw alloc ops
  | .handoff :: ops => S.handoff ops
  | .popCompleted :: ops => { S.popCompleted with main := ops }
  | .pushFree :: ops =>
    match S.taken with
    | [] => { S with main := ops }
    | s :: taken => S.slotPushFree s taken
  | .request :: ops => { S with drainDone := false, work := true, main := ops }
  | .fence :: ops => if S.drainDone then { S with main := ops } else S

/-! ### The writing thread -/

/-- Where the write thread goes after its loop. -/
def afterLoop (drain : Bool) : ThreadAt := if drain then .waiting else .poll

/-- `aof_thread_submit_all_ready`. -/
def submitAllReady (S : Slots) : ThreadAt := if S.fatal then .poll else .submitting false

/-- `slot_pop_ready`. -/
def popReady (s : ℕ) (ready : List ℕ) (drain : Bool) (S : Slots) : Slots :=
  { S with ready, inflight := S.inflight ++ [s], thread := .holding s drain }

/-- `slot_push_completed`. -/
def pushCompleted (s : ℕ) (S : Slots) : Slots :=
  { S with completed := S.completed ++ [s], outstanding := S.outstanding - 1, inflight := S.inflight.erase s }

/-- `slot_abort_inflight`. -/
def abortInflight (s : ℕ) (S : Slots) : Slots :=
  (S.modify s fun w => { w with cqeOk := 0, cqeSeen := 2 }).pushCompleted s

/-- `space` is what `io_uring_sq_space_left` returns; `first` and `second`: `io_uring_get_sqe` returns an entry. -/
def submitOneSlot (space : ℕ) (first second : Bool) (s : ℕ) (drain : Bool) (S : Slots) : Slots :=
  if space < 2 ∨ first = false then { S.abortInflight s with thread := .failed drain }
  else if second = false then { S with sqes := S.sqes ++ [.write s false], thread := .failed drain }
  else { S with sqes := S.sqes ++ [.write s true], thread := .submitting drain }

/-- A completion is counted. -/
def countCqe (s : ℕ) (res : Option ℕ) (cqes : List (ℕ × Option ℕ)) (S : Slots) : Slots :=
  { S.modify s fun w => { w with cqeSeen := w.cqeSeen + 1, cqeOk := if res.isSome then w.cqeOk + 1 else w.cqeOk } with
    cqes, writeOffset := S.writeOffset + res.getD 0 }

/-- A completed slot is taken off. -/
def takeSeen (s : ℕ) (drain : Bool) (S : Slots) : Slots :=
  if (S.slots s).cqeSeen = 2 then
    { S with fatal := S.fatal || (S.slots s).cqeOk != 2, thread := .pushing s drain }
  else S

/-- One completion in the loop of `reap_completions_inline`. -/
def reapCompletion (s : ℕ) (res : Option ℕ) (cqes : List (ℕ × Option ℕ)) (drain : Bool) (S : Slots) : Slots :=
  (S.countCqe s res cqes).takeSeen s drain

/-- A step of the write thread. -/
def threadStep (space : ℕ) (first second : Bool) (S : Slots) : Slots :=
  match S.thread with
  | .poll => S
  | .submitting drain =>
    match S.ready with
    | [] => { S with thread := afterLoop drain }
    | s :: ready => S.popReady s ready drain
  | .holding s drain => S.submitOneSlot space first second s drain
  | .failed drain => { S with fatal := true, thread := afterLoop drain }
  | .waiting =>
    if 0 < S.outstanding then { S with thread := .reaping true }
    else { S with drainDone := true, thread := S.submitAllReady }
  | .reaping drain =>
    match S.cqes with
    | [] => { S with thread := afterLoop drain }
    | (s, res) :: cqes => S.reapCompletion s res cqes drain
  | .pushing s drain => { S.pushCompleted s with thread := .reaping drain }

/-! ### The kernel -/

/-- The write of a slot is carried out: `res` is the number of bytes, if it does not fail. -/
def carryOut (i s : ℕ) (linked : Bool) (res : Option ℕ) (S : Slots) : Slots :=
  let buf := (S.slots s).buf
  let got := res.map (min · buf.length)
  let next := linked && decide (got = some buf.length)
  { S with
    file := S.file ++ buf.take (got.getD 0)
    sqes := S.sqes.take i ++ ((if next then [.fsync s] else []) ++ S.sqes.drop (i + 1))
    cqes := S.cqes ++ ((s, got) :: if linked && !next then [(s, none)] else []) }

/-- The `fsync` of a slot is carried out. -/
def carryOutFsync (i s : ℕ) (res : Option ℕ) (S : Slots) : Slots :=
  { S with sqes := S.sqes.take i ++ S.sqes.drop (i + 1), cqes := S.cqes ++ [(s, res.map fun _ => 0)] }

/-- A write of the kernel. -/
def kernelStep (i : ℕ) (res : Option ℕ) (S : Slots) : Slots :=
  match S.sqes[i]? with
  | none => S
  | some (.write s linked) => S.carryOut i s linked res
  | some (.fsync s) => S.carryOutFsync i s res

end Slots

/-- What happens. -/
inductive SlotInput where
  /-- The main thread calls `persist_append_prepare`. -/
  | append (raw : Bytes) (alloc : Bool)
  /-- The main thread calls `persist_flush_pending`; `elapsed`: the window of the group commit has passed. -/
  | flush (elapsed : Bool)
  /-- The main thread calls `persist_reap_completions`. -/
  | reap
  /-- The main thread calls `persist_drain_pending`. -/
  | drain
  | main
  | wake
  | collect
  | thread (space : ℕ) (first second : Bool)
  | kernel (i : ℕ) (res : Option ℕ)

namespace Slots

/-- The main thread has a call to make. -/
def call (S : Slots) (ops : List MainOp) : Slots :=
  match S.main with
  | [] => { S with main := ops }
  | _ => S

/-- `persist_append_prepare` up to the choice of a slot. -/
def appendPrepare (raw : Bytes) (alloc : Bool) (S : Slots) : Slots :=
  match S.main with
  | [] => if S.fatal then { S with replies := S.replies ++ [false] } else { S with main := [.fill raw alloc] }
  | _ => S

/-- The writing thread leaves `poll`. -/
def wakeUp (S : Slots) : Slots :=
  match S.thread with
  | .poll =>
    if S.work then { S with work := false, thread := .submitting true } else { S with thread := S.submitAllReady }
  | _ => S

/-- The writing thread leaves `poll` to collect completions. -/
def collect (S : Slots) : Slots :=
  match S.thread with
  | .poll => { S with thread := .reaping false }
  | _ => S

/-- A step. -/
def step (S : Slots) : SlotInput → Slots
  | .append raw alloc => S.appendPrepare raw alloc
  | .flush elapsed => S.call (if S.curBuf ≠ [] ∧ elapsed = false then reapCompletions else flushPendingForce)
  | .reap => S.call reapCompletions
  | .drain => S.call [.handoff, .request, .fence]
  | .main => S.mainStep
  | .wake => S.wakeUp
  | .collect => S.collect
  | .thread space first second => S.threadStep space first second
  | .kernel i res => S.kernelStep i res

/-! ### Each slot in one place -/

/-- Where the slots are. -/
def places (S : Slots) : List ℕ := S.free ++ S.cur.toList ++ S.ready ++ S.inflight ++ (S.completed ++ S.taken)

/-- Each slot is in one place, and those the writing thread has to deal with are counted. -/
structure Placed (S : Slots) : Prop where
  perm : S.places.Perm (List.range inflightSize)
  outstanding : S.outstanding = S.ready.length + S.inflight.length

variable {S T : Slots} {a i : ℕ} {ready free taken : List ℕ} {cqes : List (ℕ × Option ℕ)} {f : WriteSlot → WriteSlot}
  {res : Option ℕ}

lemma placed_init (perCommand : Bool) (file : Bytes) : (init perCommand file).Placed := by
  refine ⟨?_, rfl⟩
  simp only [places, init, Option.toList_none, append_nil]
  exact reverse_perm _

lemma Placed.count_le_one (h : S.Placed) (a : ℕ) :
    S.free.count a + S.cur.toList.count a + S.ready.count a + S.inflight.count a + (S.completed.count a + S.taken.count a) ≤ 1 := by
  have hnodup : S.places.Nodup := h.perm.nodup_iff.mpr nodup_range
  have hcount := nodup_iff_count_le_one.mp hnodup a
  simpa only [places, count_append] using hcount

lemma count_cur (hs : S.cur = some s) : S.cur.toList.count s = 1 := by
  rw [hs, Option.toList_some, count_singleton_self]

lemma Placed.idle (h : S.Placed) (ha : a ∈ S.free ∨ S.cur = some a ∨ a ∈ S.taken) : a ∉ S.inflight ++ S.ready := by
  have hcount := h.count_le_one a
  rw [mem_append, ← count_pos_iff, ← count_pos_iff]
  rcases ha with ha | ha | ha
  · have hpos := count_pos_iff.mpr ha
    omega
  · have hone := count_cur ha
    omega
  · have hpos := count_pos_iff.mpr ha
    omega

lemma Placed.notMem_ready (h : S.Placed) (ha : a ∈ S.inflight) : a ∉ S.ready := by
  have hcount := h.count_le_one a
  have hpos := count_pos_iff.mpr ha
  rw [← count_pos_iff]
  omega

lemma Placed.notMem_taken (h : S.Placed) (ha : S.cur = some a) : a ∉ S.taken := by
  have hcount := h.count_le_one a
  have hone := count_cur ha
  rw [← count_pos_iff]
  omega

namespace Placed

variable (h : S.Placed)
include h

lemma takeFree (hcur : S.cur = none) (hfree : S.free = s :: free) : (S.takeFree s free).Placed := by
  refine ⟨.trans ?_ h.perm, h.outstanding⟩
  rw [perm_iff_count]
  intro a
  simp only [places, Slots.takeFree, Slots.modify, hcur, hfree, Option.toList_some, Option.toList_none, count_append,
    count_cons, count_nil]
  omega

lemma pushReady (hcur : S.cur = some s) : (S.pushReady s).Placed := by
  refine ⟨.trans ?_ h.perm, ?_⟩
  · rw [perm_iff_count]
    intro a
    simp only [places, Slots.pushReady, hcur, Option.toList_some, Option.toList_none, count_append, count_cons,
      count_nil]
    omega
  · simp only [Slots.pushReady, h.outstanding, length_append, length_singleton]
    push_cast
    ring

lemma popCompleted : S.popCompleted.Placed := by
  refine ⟨.trans ?_ h.perm, h.outstanding⟩
  rw [perm_iff_count]
  intro a
  simp only [places, Slots.popCompleted, count_append, count_nil]
  omega

lemma slotPushFree (htaken : S.taken = s :: taken) : (S.slotPushFree s taken).Placed := by
  refine ⟨.trans ?_ h.perm, h.outstanding⟩
  rw [perm_iff_count]
  intro a
  simp only [places, Slots.slotPushFree, Slots.modify, htaken, count_append, count_cons]
  omega

lemma popReady (hready : S.ready = s :: ready) (drain : Bool) : (S.popReady s ready drain).Placed := by
  refine ⟨.trans ?_ h.perm, ?_⟩
  · rw [perm_iff_count]
    intro a
    simp only [places, Slots.popReady, hready, count_append, count_cons, count_nil]
    omega
  · simp only [Slots.popReady, h.outstanding, hready, length_append, length_cons, length_nil]
    push_cast
    ring

lemma pushCompleted (hs : s ∈ S.inflight) : (S.pushCompleted s).Placed := by
  refine ⟨.trans ?_ h.perm, ?_⟩
  · rw [perm_iff_count]
    intro a
    have hpos := count_pos_iff.mpr hs
    simp only [places, Slots.pushCompleted, count_append, count_cons, count_nil, count_erase]
    by_cases has : s = a
    · subst has
      simp only [beq_self_eq_true, if_true]
      omega
    · simp only [beq_eq_false_iff_ne.mpr has, Bool.false_eq_true, if_false]
      omega
  · have hpos := length_pos_of_mem hs
    simp only [Slots.pushCompleted, h.outstanding, length_erase_of_mem hs]
    push_cast [Nat.cast_sub hpos]
    omega

end Placed

/-! ### Who has a slot -/

/-- How many completions the slot `a` is to get from what is submitted. -/
def sqeCount (S : Slots) (a : ℕ) : ℕ := (S.sqes.map (Sqe.count a)).sum

/-- How many completions there are for the slot `a`. -/
def cqeCount (S : Slots) (a : ℕ) : ℕ := (S.cqes.map Prod.fst).count a

/-- Completions come to slots in flight only, and to each of them at most two. -/
structure Owned (S : Slots) : Prop where
  credit : ∀ a, S.sqeCount a + S.cqeCount a + (S.slots a).cqeSeen ≤ 2
  busy : ∀ a, 0 < S.sqeCount a + S.cqeCount a → a ∈ S.inflight ∧ S.thread.owner ≠ some a
  owner : ∀ a, S.thread.owner = some a → a ∈ S.inflight
  unseen : ∀ a, a ∈ S.free ∨ S.cur = some a ∨ a ∈ S.ready ∨ S.thread.held = some a → (S.slots a).cqeSeen = 0

lemma owned_init (perCommand : Bool) (file : Bytes) : (init perCommand file).Owned := by
  refine ⟨fun a => ?_, fun a ha => ?_, fun a ha => ?_, fun _ _ => rfl⟩
  · simp [sqeCount, cqeCount, init]
  · simp [sqeCount, cqeCount, init] at ha
  · cases ha

lemma owner_of_held (h : t.held = some a) : t.owner = some a := by
  cases t <;> simp_all [ThreadAt.held, ThreadAt.owner]

lemma slots_modify_self (S : Slots) (s : ℕ) (f : WriteSlot → WriteSlot) : (S.modify s f).slots s = f (S.slots s) :=
  update_self ..

lemma slots_modify_of_ne (S : Slots) (f : WriteSlot → WriteSlot) (h : a ≠ s) : (S.modify s f).slots a = S.slots a :=
  update_of_ne h ..

lemma cqeSeen_modify (S : Slots) (s a : ℕ) (hf : ∀ w, (f w).cqeSeen = w.cqeSeen) :
    ((S.modify s f).slots a).cqeSeen = (S.slots a).cqeSeen := by
  by_cases h : a = s
  · rw [h, slots_modify_self, hf]
  · rw [slots_modify_of_ne S f h]

namespace Owned

variable (h : S.Owned)
include h

lemma setThread (ht : t.owner = none) {fatal work drainDone : Bool} :
    { S with thread := t, fatal, work, drainDone }.Owned := by
  refine ⟨h.credit, fun a ha => ⟨(h.busy a ha).1, ht ▸ fun h => by cases h⟩, fun a ha => ?_, fun a ha => h.unseen a ?_⟩
  · cases ht.symm.trans ha
  · refine ha.imp_right (.imp_right (.imp_right fun ha => ?_))
    cases ht.symm.trans (owner_of_held ha)

lemma quiet (howner : S.thread.owner = some s) : S.sqeCount s + S.cqeCount s = 0 :=
  Nat.eq_zero_of_not_pos fun hpos => (h.busy s hpos).2 howner

lemma narrow (hslots : T.slots = S.slots)
    (hcount : ∀ a, T.sqeCount a + T.cqeCount a ≤ S.sqeCount a + S.cqeCount a) (hin : T.inflight = S.inflight)
    (hthread : T.thread = S.thread) (hfree : T.free = S.free) (hcur : T.cur = S.cur) (hready : T.ready = S.ready) : T.Owned := by
  refine ⟨fun a => ?_, fun a ha => ?_, fun a ha => ?_, fun a ha => ?_⟩
  · rw [hslots]
    exact le_trans (Nat.add_le_add_right (hcount a) _) (h.credit a)
  · rw [hin, hthread]
    exact h.busy a (lt_of_lt_of_le ha (hcount a))
  · rw [hin]
    exact h.owner a (hthread ▸ ha)
  · rw [hfree, hcur, hready, hthread] at ha
    rw [hslots]
    exact h.unseen a ha

lemma see (hplaced : S.Placed) (hin : s ∈ S.inflight) (ht : S.thread.owner = none)
    (f : WriteSlot → WriteSlot) (hcredit : S.sqeCount s + S.cqeCount s + (f (S.slots s)).cqeSeen ≤ 2) :
    (S.modify s f).Owned := by
  refine ⟨fun a => ?_, h.busy, h.owner, fun a ha => ?_⟩
  · by_cases has : a = s
    · rw [has, slots_modify_self]
      exact hcredit
    · rw [slots_modify_of_ne S f has]
      exact h.credit a
  · have has : a ≠ s := by
      rintro rfl
      rcases ha with ha | ha | ha | ha
      · exact hplaced.idle (.inl ha) (mem_append_left _ hin)
      · exact hplaced.idle (.inr (.inl ha)) (mem_append_left _ hin)
      · exact hplaced.notMem_ready hin ha
      · cases ht.symm.trans (owner_of_held ha)
    rw [slots_modify_of_ne S f has]
    exact h.unseen a ha

lemma addBytes (raw : Bytes) (cap s : ℕ) : (S.addBytes raw cap s).Owned := by
  have hseen (a : ℕ) := cqeSeen_modify S s a (f := fun w => { w with buf := w.buf ++ raw, cap }) fun _ => rfl
  exact ⟨fun a => (hseen a).symm ▸ h.credit a, h.busy, h.owner, fun a ha => (hseen a).trans (h.unseen a ha)⟩

lemma takeFree (hcur : S.cur = none) (hfree : S.free = s :: free) : (S.takeFree s free).Owned := by
  have hseen (a : ℕ) := cqeSeen_modify S s a (f := fun w => { w with buf := [], base := S.submitted }) fun _ => rfl
  refine ⟨fun a => (hseen a).symm ▸ h.credit a, h.busy, h.owner, fun a ha => (hseen a).trans (h.unseen a ?_)⟩
  rw [hfree, hcur]
  rcases ha with ha | ha | ha
  · exact .inl (mem_cons_of_mem _ ha)
  · cases ha
    exact .inl mem_cons_self
  · exact .inr (.inr ha)

lemma pushReady (hcur : S.cur = some s) : (S.pushReady s).Owned := by
  refine ⟨h.credit, h.busy, h.owner, fun a ha => h.unseen a ?_⟩
  rcases ha with ha | ha | ha | ha
  · exact .inl ha
  · cases ha
  · rcases mem_append.mp ha with ha | ha
    · exact .inr (.inr (.inl ha))
    · rw [mem_singleton.mp ha]
      exact .inr (.inl hcur)
  · exact .inr (.inr (.inr ha))

lemma slotPushFree (s : ℕ) (taken : List ℕ) : (S.slotPushFree s taken).Owned := by
  have hother {a : ℕ} (ha : a ≠ s) : (S.slotPushFree s taken).slots a = S.slots a := update_of_ne ha ..
  have hself : ((S.slotPushFree s taken).slots s).cqeSeen = 0 := by simp [Slots.slotPushFree, modify]
  refine ⟨fun a => ?_, h.busy, h.owner, fun a ha => ?_⟩
  · by_cases has : a = s
    · have hcredit := h.credit s
      rw [has, hself]
      exact le_trans (Nat.add_le_add_left (Nat.zero_le _) _) hcredit
    · rw [hother has]
      exact h.credit a
  · by_cases has : a = s
    · rw [has, hself]
    · rw [hother has]
      refine h.unseen a (ha.imp_left fun ha => ?_)
      exact (mem_cons.mp ha).resolve_left has

lemma popReady (hplaced : S.Placed) (hready : S.ready = s :: ready)
    (drain : Bool) : (S.popReady s ready drain).Owned := by
  have hs : s ∈ S.ready := hready ▸ mem_cons_self
  have hnot : s ∉ S.inflight := fun hin => hplaced.notMem_ready hin hs
  refine ⟨h.credit, fun a ha => ?_, fun a ha => ?_, fun a ha => h.unseen a ?_⟩
  · have hin := (h.busy a ha).1
    refine ⟨mem_append_left _ hin, fun howner => ?_⟩
    cases howner
    exact hnot hin
  · cases ha
    exact mem_append_right _ mem_cons_self
  · rcases ha with ha | ha | ha | ha
    · exact .inl ha
    · exact .inr (.inl ha)
    · exact .inr (.inr (.inl (hready ▸ mem_cons_of_mem _ ha)))
    · cases ha
      exact .inr (.inr (.inl hs))

lemma pushCompleted (hquiet : S.sqeCount s + S.cqeCount s = 0) (ht : S.thread.owner = none) :
    (S.pushCompleted s).Owned := by
  refine ⟨h.credit, fun a ha => ?_, fun a ha => ?_, h.unseen⟩
  · obtain ⟨hin, hne⟩ := h.busy a ha
    have has : a ≠ s := fun has => ha.ne' (has ▸ hquiet)
    exact ⟨(mem_erase_of_ne has).mpr hin, hne⟩
  · cases ht.symm.trans ha

lemma submit (hin : s ∈ S.inflight) (hquiet : S.sqeCount s + S.cqeCount s = 0)
    (hseen : (S.slots s).cqeSeen = 0) (ht : S.thread.owner = none) (linked : Bool) :
    { S with sqes := S.sqes ++ [Sqe.write s linked] }.Owned := by
  have hcount (a : ℕ) : ({ S with sqes := S.sqes ++ [Sqe.write s linked] } : Slots).sqeCount a =
      S.sqeCount a + Sqe.count a (.write s linked) := by
    simp [sqeCount]
  have hle : Sqe.count s (.write s linked) ≤ 2 := by cases linked <;> simp [Sqe.count]
  have hother {a : ℕ} (ha : a ≠ s) : Sqe.count a (.write s linked) = 0 := if_neg (Ne.symm ha)
  refine ⟨fun a => ?_, fun a ha => ⟨?_, ht ▸ fun h => by cases h⟩, h.owner, h.unseen⟩
  · rw [hcount]
    by_cases has : a = s
    · rw [has]
      show S.sqeCount s + _ + S.cqeCount s + (S.slots s).cqeSeen ≤ 2
      omega
    · rw [hother has]
      exact h.credit a
  · by_cases has : a = s
    · exact has ▸ hin
    · rw [hcount, hother has] at ha
      exact (h.busy a ha).1

lemma takeSeen (hin : s ∈ S.inflight) (drain : Bool) : (S.takeSeen s drain).Owned := by
  unfold Slots.takeSeen
  split
  · have hcredit := h.credit s
    refine ⟨h.credit, fun a ha => ⟨(h.busy a ha).1, fun howner => ?_⟩, fun a ha => ?_, fun a ha => h.unseen a ?_⟩
    · cases howner
      have hpos : 0 < S.sqeCount s + S.cqeCount s := ha
      omega
    · cases ha
      exact hin
    · refine ha.imp_right (.imp_right (.imp_right fun ha => ?_))
      cases ha
  · exact h

lemma reapCompletion (hplaced : S.Placed)
    (hcqes : S.cqes = (s, res) :: cqes) (hthread : S.thread = .reaping drain) :
    (S.reapCompletion s res cqes drain).Owned := by
  have hcount (a : ℕ) : S.cqeCount a = (cqes.map Prod.fst).count a + if s = a then 1 else 0 := by
    rw [cqeCount, hcqes, map_cons, count_cons]
    simp
  have hself : S.cqeCount s = (cqes.map Prod.fst).count s + 1 := by rw [hcount, if_pos rfl]
  have hin := (h.busy s (by omega)).1
  have hcredit := h.credit s
  have htaken : { S with cqes, writeOffset := S.writeOffset + res.getD 0 }.Owned :=
    h.narrow rfl (fun a => Nat.add_le_add_left (le_of_le_of_eq (Nat.le_add_right ..) (hcount a).symm) _) rfl rfl rfl rfl rfl
  have hcounted : (S.countCqe s res cqes).Owned := by
    refine htaken.see { hplaced with } hin (by rw [hthread]; rfl)
      (fun w => { w with cqeSeen := w.cqeSeen + 1, cqeOk := if res.isSome then w.cqeOk + 1 else w.cqeOk }) ?_
    show S.sqeCount s + (cqes.map Prod.fst).count s + ((S.slots s).cqeSeen + 1) ≤ 2
    omega
  exact hcounted.takeSeen hin drain

end Owned

lemma sqes_split {q : Sqe} (hq : S.sqes[i]? = some q) : S.sqes = S.sqes.take i ++ q :: S.sqes.drop (i + 1) := by
  obtain ⟨hi, hget⟩ := List.getElem?_eq_some_iff.mp hq
  rw [← hget, ← drop_eq_getElem_cons hi, take_append_drop]

lemma sqeCount_split {q : Sqe} (hq : S.sqes[i]? = some q) (a : ℕ) :
    S.sqeCount a = ((S.sqes.take i).map (Sqe.count a)).sum + (q.count a + ((S.sqes.drop (i + 1)).map (Sqe.count a)).sum) := by
  rw [sqeCount]
  nth_rewrite 1 [sqes_split hq]
  simp

lemma count_carryOut {linked : Bool} (hq : S.sqes[i]? = some (.write s linked)) (res : Option ℕ) (a : ℕ) :
    (S.carryOut i s linked res).sqeCount a + (S.carryOut i s linked res).cqeCount a = S.sqeCount a + S.cqeCount a := by
  rw [sqeCount_split hq]
  simp only [Slots.carryOut, sqeCount, cqeCount]
  by_cases has : s = a <;> cases linked <;>
    cases decide ((res.map (min · (S.slots s).buf.length)) = some (S.slots s).buf.length) <;>
    simp [Sqe.count, has] <;> omega

lemma count_carryOutFsync (hq : S.sqes[i]? = some (.fsync s)) (res : Option ℕ) (a : ℕ) :
    (S.carryOutFsync i s res).sqeCount a + (S.carryOutFsync i s res).cqeCount a = S.sqeCount a + S.cqeCount a := by
  rw [sqeCount_split hq]
  simp only [Slots.carryOutFsync, sqeCount, cqeCount, Sqe.count, map_append, sum_append, map_cons, map_nil,
    count_append, count_cons, count_nil]
  by_cases has : s = a
  · simp [has]
    omega
  · simp [has]

/-! ### The stream and its pieces -/

/-- What was handed over and the current slot are the appended stream, from the offset `n` on. -/
structure Tiled (n : ℕ) (S : Slots) : Prop where
  tiles : Tiles n S.handed
  stream : joined S.handed ++ S.curBuf = S.appended
  base : ∀ s, S.cur = some s → (S.slots s).base = n + (joined S.handed).length
  submitted : S.submitted = n + S.appended.length
  pieces : ((S.inflight ++ S.ready).map fun s => (S.slots s).piece).Subperm S.handed

lemma tiled_init (perCommand : Bool) (file : Bytes) : (init perCommand file).Tiled file.length :=
  ⟨trivial, rfl, fun _ h => (by cases h), rfl, nil_subperm⟩

lemma curBuf_of_cur (h : S.cur = some s) : S.curBuf = (S.slots s).buf := by rw [curBuf, h]; rfl

lemma curBuf_of_none (h : S.cur = none) : S.curBuf = [] := by rw [curBuf, h]; rfl

variable {n : ℕ}

namespace Tiled

lemma frame (h : S.Tiled n) (hhanded : T.handed = S.handed) (happended : T.appended = S.appended)
    (hsubmitted : T.submitted = S.submitted) (hcur : T.cur = S.cur)
    (hout : (T.inflight ++ T.ready).Subperm (S.inflight ++ S.ready))
    (hpiece : ∀ s, S.cur = some s ∨ s ∈ S.inflight ++ S.ready → (T.slots s).piece = (S.slots s).piece) : T.Tiled n := by
  refine ⟨hhanded ▸ h.tiles, ?_, fun s hs => ?_, ?_, ?_⟩
  · have hbuf : T.curBuf = S.curBuf := by
      cases hs : S.cur with
      | none => rw [curBuf_of_none hs, curBuf_of_none (hcur.trans hs)]
      | some s =>
        rw [curBuf_of_cur hs, curBuf_of_cur (hcur.trans hs)]
        exact congrArg Prod.snd (hpiece s (.inl hs))
    rw [hbuf, hhanded, happended, h.stream]
  · rw [hhanded, ← h.base s (hcur.symm.trans hs)]
    exact congrArg Prod.fst (hpiece s (.inl (hcur.symm.trans hs)))
  · rw [hsubmitted, happended, h.submitted]
  · have hmap : ((T.inflight ++ T.ready).map fun s => (T.slots s).piece) =
        (T.inflight ++ T.ready).map fun s => (S.slots s).piece :=
      map_congr_left fun s hs => hpiece s (.inr (hout.subset hs))
    rw [hmap, hhanded]
    obtain ⟨l, hperm, hsub⟩ := hout
    exact List.Subperm.trans ⟨_, hperm.map _, hsub.map _⟩ h.pieces

lemma modify_piece (S : Slots) (s : ℕ) (hf : ∀ w, (f w).piece = w.piece) (a : ℕ) :
    ((S.modify s f).slots a).piece = (S.slots a).piece := by
  by_cases h : a = s
  · rw [h, slots_modify_self, hf]
  · rw [slots_modify_of_ne S f h]

section

variable (h : S.Tiled n)
include h

lemma pieces_other (hs : s ∉ S.inflight ++ S.ready) {slots : ℕ → WriteSlot} (hslots : ∀ a, a ≠ s → slots a = S.slots a) :
    ((S.inflight ++ S.ready).map fun a => (slots a).piece).Subperm S.handed := by
  refine (List.Perm.of_eq (map_congr_left fun a ha => ?_)).subperm.trans h.pieces
  rw [hslots a (ne_of_mem_of_not_mem ha hs)]

lemma addBytes (hplaced : S.Placed) (hcur : S.cur = some s) (raw : Bytes) (cap : ℕ) :
    (S.addBytes raw cap s).Tiled n := by
  have hself : (S.addBytes raw cap s).slots s = { S.slots s with buf := (S.slots s).buf ++ raw, cap } := update_self ..
  refine ⟨h.tiles, ?_, fun a ha => ?_, ?_, ?_⟩
  · rw [curBuf_of_cur (S := S.addBytes raw cap s) hcur, hself]
    show joined S.handed ++ ((S.slots s).buf ++ raw) = S.appended ++ raw
    rw [← h.stream, curBuf_of_cur hcur, append_assoc]
  · obtain rfl : s = a := Option.some.inj (hcur.symm.trans ha)
    rw [hself]
    exact h.base s hcur
  · show S.submitted + raw.length = n + (S.appended ++ raw).length
    rw [h.submitted, length_append, Nat.add_assoc]
  · exact h.pieces_other (hplaced.idle (.inr (.inl hcur))) fun a ha => update_of_ne ha ..

lemma takeFree (hplaced : S.Placed) (hcur : S.cur = none)
    (hfree : S.free = s :: free) : (S.takeFree s free).Tiled n := by
  have hstream : joined S.handed = S.appended := by rw [← h.stream, curBuf_of_none hcur, append_nil]
  have hself : (S.takeFree s free).slots s = { S.slots s with buf := [], base := S.submitted } := update_self ..
  refine ⟨h.tiles, ?_, fun a ha => ?_, h.submitted, ?_⟩
  · rw [curBuf_of_cur (s := s) rfl, hself]
    exact (append_nil _).trans hstream
  · cases ha
    rw [hself]
    show S.submitted = n + (joined S.handed).length
    rw [h.submitted, hstream]
  · exact h.pieces_other (hplaced.idle (.inl (hfree ▸ mem_cons_self))) fun a ha => update_of_ne ha ..

lemma pushReady (hcur : S.cur = some s) (hne : (S.slots s).buf ≠ []) : (S.pushReady s).Tiled n := by
  have hstream : joined S.handed ++ (S.slots s).buf = S.appended := by rw [← curBuf_of_cur hcur, h.stream]
  refine ⟨h.tiles.concat (h.base s hcur) hne, ?_, fun a ha => (by cases ha), h.submitted, ?_⟩
  · show joined (S.handed ++ [(S.slots s).piece]) ++ [] = S.appended
    rw [append_nil, joined_concat]
    exact hstream
  · show ((S.inflight ++ (S.ready ++ [s])).map fun s => (S.slots s).piece).Subperm (S.handed ++ [(S.slots s).piece])
    rw [← append_assoc, map_append]
    exact h.pieces.append (.refl _)

lemma slotPushFree (hplaced : S.Placed) (htaken : S.taken = s :: taken) : (S.slotPushFree s taken).Tiled n := by
  have hs : s ∈ S.taken := htaken ▸ mem_cons_self
  refine h.frame rfl rfl rfl rfl (.refl _) fun a ha => ?_
  have has : a ≠ s := by
    rintro rfl
    exact ha.elim (fun ha => hplaced.notMem_taken ha hs) (hplaced.idle (.inr (.inr hs)))
  exact congrArg WriteSlot.piece (update_of_ne has ..)

lemma popReady (hready : S.ready = s :: ready) (drain : Bool) : (S.popReady s ready drain).Tiled n := by
  refine h.frame rfl rfl rfl rfl (List.Perm.of_eq ?_).subperm fun _ _ => rfl
  show S.inflight ++ [s] ++ ready = S.inflight ++ S.ready
  rw [hready, append_assoc, singleton_append]

end

lemma erased_subperm (S : Slots) (s : ℕ) : (S.inflight.erase s ++ S.ready).Subperm (S.inflight ++ S.ready) :=
  (erase_subperm s _).append (.refl _)

end Tiled

/-! ### What a step can do -/

/-- The writing thread has no slot, and `submit_one_slot` has not failed. -/
def between : ThreadAt → Bool
  | .holding .. | .failed _ | .pushing .. => false
  | _ => true

lemma owner_of_between (h : between t = true) : t.owner = none := by
  cases t <;> first | rfl | cases h

lemma held_of_between (h : between t = true) : t.held = none := by
  cases t <;> first | rfl | cases h

lemma between_afterLoop (drain : Bool) : between (afterLoop drain) = true := by cases drain <;> rfl

lemma between_submitAllReady (S : Slots) : between S.submitAllReady = true := by
  unfold submitAllReady
  split <;> rfl

/-- One effect of a step, the operations of the kernel apart. -/
inductive Moved (S : Slots) : Slots → Prop where
  | idle (main : List MainOp) (work drainDone : Bool) (replies : List Bool) : Moved S { S with main, work, drainDone, replies }
  | addBytes (raw : Bytes) (cap : ℕ) {s : ℕ} (hcur : S.cur = some s) : Moved S (S.addBytes raw cap s)
  | takeFree {s : ℕ} {free : List ℕ} (hcur : S.cur = none) (hfree : S.free = s :: free) : Moved S (S.takeFree s free)
  | pushReady {s : ℕ} (hcur : S.cur = some s) (hne : (S.slots s).buf ≠ []) : Moved S (S.pushReady s)
  | popCompleted : Moved S S.popCompleted
  | slotPushFree {s : ℕ} {taken : List ℕ} (htaken : S.taken = s :: taken) : Moved S (S.slotPushFree s taken)
  | turn {t : ThreadAt} (hthread : between S.thread = true) (ht : between t = true) (work drainDone : Bool) :
      Moved S { S with thread := t, work, drainDone }
  | fail {drain : Bool} (hthread : S.thread = .failed drain) : Moved S { S with fatal := true, thread := afterLoop drain }
  | popReady {s : ℕ} {ready : List ℕ} {drain : Bool} (hthread : S.thread = .submitting drain) (hready : S.ready = s :: ready) :
      Moved S (S.popReady s ready drain)
  | abort {s : ℕ} {drain : Bool} (hthread : S.thread = .holding s drain) :
      Moved S { S.abortInflight s with thread := .failed drain }
  | halfSubmit {s : ℕ} {drain : Bool} (hthread : S.thread = .holding s drain) :
      Moved S { S with sqes := S.sqes ++ [.write s false], thread := .failed drain }
  | submit {s : ℕ} {drain : Bool} (hthread : S.thread = .holding s drain) :
      Moved S { S with sqes := S.sqes ++ [.write s true], thread := .submitting drain }
  | reap {s : ℕ} {res : Option ℕ} {cqes : List (ℕ × Option ℕ)} {drain : Bool} (hthread : S.thread = .reaping drain)
      (hcqes : S.cqes = (s, res) :: cqes) : Moved S (S.reapCompletion s res cqes drain)
  | pushCompleted {s : ℕ} {drain : Bool} (hthread : S.thread = .pushing s drain) :
      Moved S { S.pushCompleted s with thread := .reaping drain }

open Relation (ReflTransGen)

lemma keeps_moves {P : Slots → Prop} (hP : ∀ {S T}, Moved S T → P S → P T) (hmoves : ReflTransGen Moved S T)
    (h : P S) : P T := by
  induction hmoves with
  | refl => exact h
  | tail _ hmove ih => exact hP hmove ih

lemma moves_copy (hcur : S.cur = some s) (raw : Bytes) (alloc : Bool) (ops : List MainOp) :
    ReflTransGen Moved S (S.copy raw alloc s ops) := by
  unfold copy
  split
  · exact .single (.idle ..)
  · rename_i cap _
    exact .head (.addBytes raw cap hcur) (.single (.idle ..))

lemma moves_mainStep (S : Slots) : ReflTransGen Moved S S.mainStep := by
  unfold mainStep
  split
  · exact .refl
  · unfold fill
    split
    · rename_i hcur
      exact moves_copy hcur _ _ _
    · rename_i s free hcur hfree
      exact .head (.takeFree hcur hfree) (moves_copy (S := S.takeFree s free) rfl _ _ _)
    · exact .single (.idle ..)
  · unfold handoff
    split
    · exact .single (.idle ..)
    rename_i s hcur
    split
    · exact .single (.idle ..)
    rename_i hne
    split
    · exact .single (.idle ..)
    · exact .head (.pushReady hcur hne) (.single (.idle ..))
  · exact .head .popCompleted (.single (.idle ..))
  · split
    · exact .single (.idle ..)
    · rename_i htaken
      exact .single (.slotPushFree htaken)
  · exact .single (.idle ..)
  · split
    · exact .single (.idle ..)
    · exact .refl

lemma moves_threadStep (S : Slots) (space : ℕ) (first second : Bool) :
    ReflTransGen Moved S (S.threadStep space first second) := by
  have turn {t : ThreadAt} (hthread : between S.thread = true) (ht : between t = true) (drainDone : Bool) :
      ReflTransGen Moved S { S with thread := t, drainDone } := .single (.turn hthread ht S.work drainDone)
  unfold threadStep
  split
  · exact .refl
  · rename_i drain hthread
    split
    · exact turn (by rw [hthread]; rfl) (between_afterLoop drain) _
    · rename_i hready
      exact .single (.popReady hthread hready)
  · rename_i hthread
    unfold submitOneSlot
    split
    · exact .single (.abort hthread)
    split
    · exact .single (.halfSubmit hthread)
    · exact .single (.submit hthread)
  · rename_i hthread
    exact .single (.fail hthread)
  · rename_i hthread
    split
    · exact turn (by rw [hthread]; rfl) rfl _
    · exact turn (by rw [hthread]; rfl) (between_submitAllReady S) _
  · rename_i drain hthread
    split
    · exact turn (by rw [hthread]; rfl) (between_afterLoop drain) _
    · rename_i hcqes
      exact .single (.reap hthread hcqes)
  · rename_i hthread
    exact .single (.pushCompleted hthread)

lemma moves_call (S : Slots) (ops : List MainOp) : ReflTransGen Moved S (S.call ops) := by
  unfold call
  split
  · exact .single (.idle ..)
  · exact .refl

lemma step_moves (S : Slots) (i : SlotInput) : (∃ j res, i = .kernel j res) ∨ ReflTransGen Moved S (S.step i) := by
  cases i with
  | append raw alloc =>
    refine .inr ?_
    show ReflTransGen Moved S (S.appendPrepare raw alloc)
    unfold appendPrepare
    split
    · split <;> exact .single (.idle ..)
    · exact .refl
  | flush elapsed => exact .inr (moves_call S _)
  | reap => exact .inr (moves_call S _)
  | drain => exact .inr (moves_call S _)
  | main => exact .inr (moves_mainStep S)
  | wake =>
    refine .inr ?_
    show ReflTransGen Moved S S.wakeUp
    unfold wakeUp
    split
    · rename_i hthread
      have hpoll : between S.thread = true := by rw [hthread]; rfl
      split
      · exact .single (.turn hpoll rfl ..)
      · exact .single (.turn hpoll (between_submitAllReady S) ..)
    · exact .refl
  | collect =>
    refine .inr ?_
    show ReflTransGen Moved S S.collect
    unfold collect
    split
    · rename_i hthread
      exact .single (.turn (by rw [hthread]; rfl) rfl ..)
    · exact .refl
  | thread space first second => exact .inr (moves_threadStep S space first second)
  | kernel j res => exact .inl ⟨j, res, rfl⟩

/-! ### All steps -/

/-- The invariant: each of the `n` slots is in one place. -/
structure Ok (n : ℕ) (S : Slots) : Prop where
  placed : S.Placed
  owned : S.Owned
  tiled : S.Tiled n

lemma ok_init (perCommand : Bool) (file : Bytes) : (init perCommand file).Ok file.length :=
  ⟨placed_init perCommand file, owned_init perCommand file, tiled_init perCommand file⟩

namespace Ok

variable (h : S.Ok n)
include h

lemma abort (hthread : S.thread = .holding s drain) : { S.abortInflight s with thread := .failed drain }.Ok n := by
  have howner : S.thread.owner = some s := by rw [hthread]; rfl
  have hin := h.owned.owner s howner
  have hquiet := h.owned.quiet howner
  have hplaced : ({ S with thread := .failed drain }.modify s fun w => { w with cqeOk := 0, cqeSeen := 2 }).Placed :=
    { h.placed with }
  have hleft : { S with thread := .failed drain }.Owned := h.owned.setThread rfl
  have howned := hleft.see { h.placed with } hin rfl (fun w => { w with cqeOk := 0, cqeSeen := 2 })
    (Nat.le_of_eq (congrArg (· + 2) hquiet))
  refine ⟨hplaced.pushCompleted hin, howned.pushCompleted hquiet rfl, ?_⟩
  exact h.tiled.frame rfl rfl rfl rfl (Tiled.erased_subperm S s) fun a _ =>
    Tiled.modify_piece S s (f := fun w => { w with cqeOk := 0, cqeSeen := 2 }) (fun _ => rfl) a

lemma submit (hthread : S.thread = .holding s drain) (linked : Bool) (ht : t.owner = none) :
    { S with sqes := S.sqes ++ [Sqe.write s linked], thread := t }.Ok n := by
  have howner : S.thread.owner = some s := by rw [hthread]; rfl
  have hseen := h.owned.unseen s (.inr (.inr (.inr (by rw [hthread]; rfl))))
  exact ⟨{ h.placed with },
    (h.owned.setThread ht).submit (h.owned.owner s howner) (h.owned.quiet howner) hseen ht linked, { h.tiled with }⟩

lemma reapCompletion (hcqes : S.cqes = (s, res) :: cqes)
    (hthread : S.thread = .reaping drain) : (S.reapCompletion s res cqes drain).Ok n := by
  have hplaced : (S.countCqe s res cqes).Placed := { h.placed with }
  have htiled : (S.countCqe s res cqes).Tiled n :=
    h.tiled.frame rfl rfl rfl rfl (.refl _) fun a _ => Tiled.modify_piece S s
      (f := fun w => { w with cqeSeen := w.cqeSeen + 1, cqeOk := if res.isSome then w.cqeOk + 1 else w.cqeOk }) (fun _ => rfl) a
  refine ⟨?_, h.owned.reapCompletion h.placed hcqes hthread, ?_⟩
  · unfold Slots.reapCompletion takeSeen
    split <;> exact { hplaced with }
  · unfold Slots.reapCompletion takeSeen
    split <;> exact { htiled with }

lemma moved (hmove : Moved S T) : T.Ok n := by
  obtain ⟨hplaced, howned, htiled⟩ := h
  cases hmove with
  | idle => exact ⟨{ hplaced with }, { howned with }, { htiled with }⟩
  | addBytes raw cap hcur => exact ⟨{ hplaced with }, howned.addBytes raw cap _, htiled.addBytes hplaced hcur raw cap⟩
  | takeFree hcur hfree =>
    exact ⟨hplaced.takeFree hcur hfree, howned.takeFree hcur hfree, htiled.takeFree hplaced hcur hfree⟩
  | pushReady hcur hne => exact ⟨hplaced.pushReady hcur, howned.pushReady hcur, htiled.pushReady hcur hne⟩
  | popCompleted => exact ⟨hplaced.popCompleted, { howned with }, { htiled with }⟩
  | slotPushFree htaken =>
    exact ⟨hplaced.slotPushFree htaken, howned.slotPushFree _ _, htiled.slotPushFree hplaced htaken⟩
  | turn _ ht => exact ⟨{ hplaced with }, howned.setThread (owner_of_between ht), { htiled with }⟩
  | fail => exact ⟨{ hplaced with }, howned.setThread (owner_of_between (between_afterLoop _)), { htiled with }⟩
  | popReady hthread hready =>
    exact ⟨hplaced.popReady hready _, howned.popReady hplaced hready _, htiled.popReady hready _⟩
  | abort hthread => exact abort ⟨hplaced, howned, htiled⟩ hthread
  | halfSubmit hthread => exact submit ⟨hplaced, howned, htiled⟩ hthread false rfl
  | submit hthread => exact submit ⟨hplaced, howned, htiled⟩ hthread true rfl
  | reap hthread hcqes => exact reapCompletion ⟨hplaced, howned, htiled⟩ hcqes hthread
  | @pushCompleted s drain hthread =>
    have hleft : { S with thread := .reaping drain }.Owned := howned.setThread rfl
    have howner : S.thread.owner = some s := by rw [hthread]; rfl
    have hpushed := hplaced.pushCompleted (howned.owner s howner)
    exact ⟨{ hpushed with }, hleft.pushCompleted (howned.quiet howner) rfl,
      htiled.frame rfl rfl rfl rfl (Tiled.erased_subperm S s) fun _ _ => rfl⟩

lemma kernelStep (i : ℕ) (res : Option ℕ) : (S.kernelStep i res).Ok n := by
  unfold Slots.kernelStep
  split
  · exact h
  · rename_i hq
    exact ⟨{ h.placed with }, h.owned.narrow rfl (fun a => (count_carryOut hq res a).le) rfl rfl rfl rfl rfl, { h.tiled with }⟩
  · rename_i hq
    exact ⟨{ h.placed with }, h.owned.narrow rfl (fun a => (count_carryOutFsync hq res a).le) rfl rfl rfl rfl rfl,
      { h.tiled with }⟩

lemma step (i : SlotInput) : (S.step i).Ok n := by
  rcases S.step_moves i with ⟨j, res, rfl⟩ | hmoves
  · exact h.kernelStep j res
  · exact keeps_moves (fun hmove h => h.moved hmove) hmoves h

lemma run (is : List SlotInput) : (is.foldl Slots.step S).Ok n := by
  induction is generalizing S with
  | nil => exact h
  | cons i is ih => exact ih (h.step i)

end Ok

end Slots

/-- **The slots tile the stream**: after any steps of the two threads and the kernel, each slot is in one place;
`g_outstanding` counts the ready slots and those in flight; what was handed over is the appended stream up to the
current slot, piece by piece, and the slots that are ready or in flight are different pieces of it. -/
theorem slots_tile (perCommand : Bool) (file : Bytes) (is : List SlotInput) :
    let S := is.foldl Slots.step (Slots.init perCommand file)
    (S.free ++ S.cur.toList ++ S.ready ++ S.inflight ++ (S.completed ++ S.taken)).Perm (List.range inflightSize) ∧
    S.outstanding = S.ready.length + S.inflight.length ∧
    Tiles file.length S.handed ∧
    joined S.handed ++ S.curBuf = S.appended ∧
    (∀ p ∈ S.handed, (S.appended.drop (p.1 - file.length)).take p.2.length = p.2) ∧
    (S.handed.Pairwise fun p q => p.1 + p.2.length ≤ q.1) ∧
    ((S.inflight ++ S.ready).map fun s => ((S.slots s).base, (S.slots s).buf)).Subperm S.handed := by
  intro S
  obtain ⟨hplaced, -, htiled⟩ := (Slots.ok_init perCommand file).run is
  refine ⟨hplaced.perm, hplaced.outstanding, htiled.tiles, htiled.stream, fun p hp => ?_, htiled.tiles.pairwise, htiled.pieces⟩
  rw [← htiled.stream]
  exact htiled.tiles.slice hp _

end PocketKv.Persistence
