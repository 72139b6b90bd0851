import PocketKv.Replication.SlaveFiles

/-!
# Resuming after a crash
-/

namespace PocketKv.Replication

open Library Persistence Resp Store List

variable {raw : Bytes} {F : Follower}

/-! ### When it is safe to stop -/

/-- At rest, or between the halves of a command of the link. -/
def Stage.settled : Stage → Bool
  | .idle => true
  | .noting _ => true
  | _ => false

/-- The process stops at a settled stage, with all bytes in the append-only file, and the slots are written
in the order of the commands; a command that is counted is taken by the file; a full sync that broke off is
not followed by `+CONTINUE`, nor a BGSAVE completed after a full sync that was completed while it ran. -/
def endures (S : Node) : NodeInput → Bool
  | .stop order n _ =>
    S.stage.settled && decide (S.follower.aof.pending.flatten.length ≤ n) && S.follower.aof.inOrder order
  | .written i => i = 0
  | .bgsaveStart order => S.follower.aof.inOrder order
  | .command now fromReplication argv raw =>
    !fromReplication || !(decode argv).succeeds now S.follower.db || takesRaw raw S.follower.aof
  | .settle =>
    match S.stage with
    | .appending raw => takesRaw raw S.follower.aof
    | _ => true
  | .continue => S.stage ≠ .receiving
  | .bgsaveDone => S.saving.all (·.gen = S.gen)
  | .rebase _ => S.entries.isEmpty || S.follower.aof.isOpen && !S.follower.aof.disabled
  | _ => true

/-- If a master can continue under the id in the state file, the offset there is not beyond the recovered state of
that stream. -/
def Node.ResumesWithin (S : Node) (order : List ℕ) (n : ℕ) : Prop :=
  ∀ x ∈ S.follower.stateFile, x.1 ≠ str "?" → ∃ pos, S.recovered order n = some (x.1, pos) ∧ x.2.1 ≤ pos

/-! ### The invariant -/

/-- What is logged and not counted yet. -/
def Stage.owing : Stage → ℕ
  | .noting rawlen => rawlen
  | _ => 0

/-- No full sync is going on. -/
def Stage.atRest : Stage → Prop
  | .receiving | .renamed | .patched => False
  | _ => True

/-- The state file is up to date. -/
structure Saved (F : Follower) : Prop where
  some : ∀ x ∈ F.stateFile, x.1 = F.replid ∧ x.2.1 = F.applied
  none : F.stateFile = none → F.replid = str "?" ∧ F.applied = 0

/-- The dump, with the entries after its offset, stands for a state that the applied offset is not beyond. -/
structure Backs (S : Node) (b : Base) : Prop where
  gen : b.gen = S.gen
  replid : b.replid = S.id
  header : b.header ≤ size S.entries
  reach : (∀ raw, S.stage ≠ .appending raw) → S.follower.applied + S.stage.owing ≤ b.reach S.entries

/-- The dump backs the applied offset. -/
structure Backed (S : Node) : Prop where
  loading : S.follower.loading = false
  id : S.id = S.follower.replid
  consumed : S.follower.applied + S.stage.owing ≤ S.consumed
  dump : ∀ b ∈ S.dump, Backs S b
  none : S.dump = none → S.follower.replid = str "?"
  saving : ∀ b ∈ S.saving, b.gen = S.gen → Backs S b

/-- The snapshot has become the dump. -/
structure Finishing (S : Node) : Prop where
  dump : ∃ header, S.dump = some ⟨S.follower.replid, S.follower.applied, S.gen, header⟩ ∧
    (S.stage = .patched → header = 0)
  saving : ∀ b ∈ S.saving, b.gen < S.gen

/-- The invariant of the runs. -/
structure Sound (S : Node) : Prop where
  orderly : Orderly S.follower.aof
  content : S.follower.aof.content = S.entries.flatMap (·.raw)
  mixed : S.mixed = false
  raws : ∀ e ∈ S.entries, e.raw ≠ []
  appending : ∀ raw, S.stage = .appending raw → raw ≠ []
  saved : Saved S.follower
  saving : ∀ b ∈ S.saving, b.gen ≤ S.gen
  gens : S.stage ≠ .renamed → S.stage ≠ .patched → ∀ e ∈ S.entries, e.gen = S.gen
  backed : S.stage.atRest → Backed S
  finishing : S.stage = .renamed ∨ S.stage = .patched → Finishing S

section

variable {S : Node} {db : Db} {order : List ℕ} {n consumed : ℕ} {stage : Stage}

lemma Node.mix_of_inOrder (h : S.follower.aof.inOrder order = true) (T : Node) :
    T.mix (!S.follower.aof.inOrder order) = T := by
  simp [Node.mix, h]

lemma Stage.atRest.not_finishing (h : stage.atRest) : ¬ (stage = .renamed ∨ stage = .patched) := by
  rintro (rfl | rfl) <;> exact h

lemma size_eq (h : Sound S) : size S.entries = S.follower.aof.content.length := by
  rw [h.content, length_flatMap]
  rfl

lemma Sound.gens_atRest (h : Sound S) (hr : S.stage.atRest) : ∀ e ∈ S.entries, e.gen = S.gen :=
  h.gens (by rintro heq; simp [heq, Stage.atRest] at hr) (by rintro heq; simp [heq, Stage.atRest] at hr)

lemma Sound.stop (h : Sound S) (he : endures S (.stop order n db) = true) :
    S.stage.atRest ∧ (∀ raw, S.stage ≠ .appending raw) ∧ S.follower.aof.pending.flatten.length ≤ n ∧
      S.follower.aof.inOrder order = true ∧ 0 + size S.entries ≤ S.follower.aof.file.length + n := by
  simp only [endures, Bool.and_eq_true, decide_eq_true_eq] at he
  obtain ⟨⟨hsettled, hn⟩, ho⟩ := he
  refine ⟨?_, ?_, hn, ho, ?_⟩
  · revert hsettled
    cases S.stage <;> simp [Stage.settled, Stage.atRest]
  · rintro raw heq
    simp [heq, Stage.settled] at hsettled
  · rw [size_eq h]
    simp only [Aof.pending, flatten_append, flatten_singleton, length_append] at hn
    simp only [Aof.content, length_append]
    omega

lemma Sound.resumesWithin (h : Sound S) (he : endures S (.stop order n db) = true) :
    S.ResumesWithin order n := by
  obtain ⟨hrest, happ, -, ho, hall⟩ := h.stop he
  have hb := h.backed hrest
  intro x hx hid
  obtain ⟨hreplid, happlied⟩ := h.saved.some x hx
  cases hd : S.dump with
  | none => exact absurd (hreplid.trans (hb.none hd)) hid
  | some b =>
    have hback := hb.dump b hd
    have hgens : (beyond b.header 0 S.entries).all (·.gen = b.gen) = true := by
      rw [all_eq_true]
      intro e he
      rw [decide_eq_true_eq, h.gens_atRest hrest e (mem_of_mem_beyond he), hback.gen]
    refine ⟨b.reach S.entries, ?_, ?_⟩
    · rw [Node.recovered, hd, Option.bind_some, replayed_eq hall]
      simp only [hgens, h.mixed, ho, Bool.not_false, Bool.and_self, if_true, Base.reach]
      rw [hback.replid, hb.id, hreplid]
    · have := hback.reach happ
      omega

/-! ### Steps -/

lemma Saved.stateSave (F : Follower) : Saved F.stateSave :=
  ⟨fun x hx => by
    obtain rfl := Option.mem_some_iff.mp hx
    exact ⟨rfl, rfl⟩, fun h => absurd h (Option.some_ne_none _)⟩

lemma Saved.noteApplied (h : Saved F) (rawlen : ℕ) : Saved (F.noteApplied rawlen) := by
  unfold Follower.noteApplied
  split
  · exact h
  · exact .stateSave _

lemma appendDurable_spec (h : Saved F) {A : Aof}
    (ha : persistAppendPrepare raw F.aof = some A) :
    Saved (F.appendDurable raw) ∧ (F.appendDurable raw).aof = A ∧ (F.appendDurable raw).applied = F.applied ∧
      (F.appendDurable raw).replid = F.replid ∧ (F.appendDurable raw).loading = F.loading := by
  unfold Follower.appendDurable
  rw [ha]
  simp only [Follower.noteDurable]
  split
  · exact ⟨⟨h.some, h.none⟩, rfl, rfl, rfl, rfl⟩
  split
  · exact ⟨.stateSave _, rfl, rfl, rfl, rfl⟩
  · exact ⟨⟨h.some, h.none⟩, rfl, rfl, rfl, rfl⟩

lemma stateLoad_spec (h : Saved F) :
    Saved F.stateLoad ∧ F.stateLoad.replid = F.replid ∧ F.stateLoad.applied = F.applied ∧
      F.stateLoad.loading = F.loading ∧ F.stateLoad.aof = F.aof := by
  unfold Follower.stateLoad
  split
  · rename_i hf
    obtain ⟨hid, happlied⟩ := h.none hf
    exact ⟨⟨fun x hx => absurd hx (by simp [hf]), fun _ => ⟨rfl, rfl⟩⟩, hid.symm, happlied.symm, rfl, rfl⟩
  · rename_i replid applied durable hf
    obtain ⟨hid, happlied⟩ := h.some _ hf
    refine ⟨⟨fun x hx => ?_, fun hn => absurd hn (by simp [hf])⟩, hid, happlied, rfl, rfl⟩
    have hx' : x = (replid, applied, durable) := Option.some.inj (hx.symm.trans hf)
    rw [hx']
    exact ⟨rfl, rfl⟩

section

variable (h : Sound S)
include h

lemma Sound.onAof {f : Aof → Aof} (horderly : Orderly (f S.follower.aof))
    (hcontent : (f S.follower.aof).content = S.follower.aof.content) : Sound (S.onAof f) :=
  { h with
    orderly := horderly
    content := hcontent.trans h.content
    saved := { h.saved with }
    backed := fun hr =>
      have hb := h.backed hr
      { hb with
        dump := fun b hd => { hb.dump b hd with }
        saving := fun b hs hg => { hb.saving b hs hg with } }
    finishing := fun hf => { h.finishing hf with } }

lemma Sound.fullResync (hs : S.stage = .idle ∨ S.stage = .receiving) (replid : Bytes) (offset : ℕ) :
    Sound (S.fullResync replid offset) :=
  { h with
    appending := nofun
    saved := .stateSave _
    gens := fun _ _ => h.gens (by rcases hs with hs | hs <;> simp [hs]) (by rcases hs with hs | hs <;> simp [hs])
    backed := fun hr => hr.elim
    finishing := fun hf => by simp [Node.fullResync] at hf }

lemma Sound.rename : Sound S.rename :=
  { h with
    appending := nofun
    saving := fun b hb => Nat.le_succ_of_le (h.saving b hb)
    gens := fun hn => absurd rfl hn
    backed := fun hr => hr.elim
    finishing := fun _ => ⟨⟨_, rfl, fun hp => by cases hp⟩, fun b hb => Nat.lt_succ_of_le (h.saving b hb)⟩ }

lemma Sound.patch (hs : S.stage = .renamed) : Sound S.patch :=
  { h with
    appending := nofun
    gens := fun _ hn => absurd rfl hn
    backed := fun hr => hr.elim
    finishing := fun _ => by
      obtain ⟨⟨header, hd, -⟩, hsaving⟩ := h.finishing (.inl hs)
      refine ⟨⟨0, ?_, fun _ => rfl⟩, hsaving⟩
      simp [Node.patch, hd] }

lemma Sound.rebase (hs : S.stage = .patched) (he : endures S (.rebase db) = true) : Sound (S.rebase db) := by
  obtain ⟨⟨header, hd, hheader⟩, hsaving⟩ := h.finishing (.inr hs)
  have hentries : (S.rebase db).entries = [] := by
    simp only [endures, Bool.or_eq_true, List.isEmpty_iff, Bool.and_eq_true, Bool.not_eq_true'] at he
    rcases he with he | ⟨hopen, hdisabled⟩
    · simp [Node.rebase, he]
    · simp [Node.rebase, hopen, hdisabled]
  have hcontent : (persistAofRebase S.follower.aof).content = [] := by
    simp only [endures, Bool.or_eq_true, List.isEmpty_iff, Bool.and_eq_true, Bool.not_eq_true'] at he
    unfold persistAofRebase
    split
    · rename_i hoff
      rcases he with he | ⟨hopen, hdisabled⟩
      · rw [h.content, he]
        rfl
      · simp [hopen, hdisabled] at hoff
    · simp [Aof.content, Aof.drainPending]
  have hbacks : Backs (S.rebase db) ⟨S.follower.replid, S.follower.applied, S.gen, 0⟩ :=
    ⟨rfl, rfl, Nat.zero_le _, fun _ => by rw [hentries]; exact Nat.le_refl _⟩
  exact {
    orderly := h.orderly.rebase
    content := by rw [hentries]; exact hcontent
    mixed := by simp [Node.rebase, h.mixed]
    raws := by simp [hentries]
    appending := fun _ hstage => by cases hstage
    saved := .stateSave _
    saving := fun b hb => (hsaving b hb).le
    gens := by simp [hentries]
    backed := fun _ => ⟨rfl, rfl, Nat.le_refl _, fun b hb => by
        have hb' : some _ = some b := hd.symm.trans hb
        obtain rfl := Option.some.inj hb'
        rw [hheader hs]
        exact hbacks,
      fun hn => absurd (hd.symm.trans hn) (Option.some_ne_none _),
      fun b hb hg => absurd hg (hsaving b hb).ne⟩
    finishing := fun hf => by simp [Node.rebase] at hf }

lemma Sound.recount (hr : S.stage.atRest)
    (haof : Orderly F.aof) (hcontent : F.aof.content = S.follower.aof.content) (hsaved : Saved F)
    (hreplid : F.replid = S.follower.replid) (hloading : F.loading = false) (hstage : stage.atRest)
    (happending : ∀ raw, stage = .appending raw → raw ≠ []) (hconsumed : F.applied + stage.owing ≤ consumed)
    (hreach : ∀ b, Backs S b → (∀ raw, stage ≠ .appending raw) → F.applied + stage.owing ≤ b.reach S.entries) :
    Sound { S with follower := F, stage := stage, consumed := consumed } := by
  have hb := h.backed hr
  have hbacks (b : Base) (hback : Backs S b) :
      Backs { S with follower := F, stage := stage, consumed := consumed } b :=
    ⟨hback.gen, hback.replid, hback.header, hreach b hback⟩
  exact { h with
    orderly := haof
    content := hcontent.trans h.content
    appending := happending
    saved := hsaved
    gens := fun _ _ => h.gens_atRest hr
    backed := fun _ => ⟨hloading, hb.id.trans hreplid.symm, hconsumed, fun b hd => hbacks b (hb.dump b hd),
      fun hn => hreplid.trans (hb.none hn), fun b hs hg => hbacks b (hb.saving b hs hg)⟩
    finishing := fun hf => absurd hf hstage.not_finishing }

lemma Sound.appended (hr : S.stage.atRest)
    (haof : Orderly F.aof) (hcontent : F.aof.content = S.follower.aof.content ++ raw)
    (hraw : raw ≠ []) (hsaved : Saved F) (hreplid : F.replid = S.follower.replid) (hloading : F.loading = false)
    (hstage : stage.atRest) (happending : ∀ raw, stage ≠ .appending raw)
    (hconsumed : F.applied + stage.owing ≤ consumed) :
    Sound { S with
      follower := F, stage := stage, consumed := consumed, entries := S.entries ++ [⟨raw, S.gen, consumed⟩] } := by
  have hb := h.backed hr
  have hbacks (b : Base) (hback : Backs S b) :
      Backs { S with
        follower := F, stage := stage, consumed := consumed, entries := S.entries ++ [⟨raw, S.gen, consumed⟩] } b :=
    ⟨hback.gen, hback.replid, by rw [size_append]; exact Nat.le_add_right_of_le hback.header,
      fun _ => by rw [Base.reach_append hback.header]; exact hconsumed⟩
  exact { h with
    orderly := haof
    content := by simp [hcontent, h.content]
    raws := fun e he => by
      rcases mem_append.mp he with he | he
      · exact h.raws e he
      · rw [mem_singleton.mp he]
        exact hraw
    appending := fun raw heq => absurd heq (happending raw)
    saved := hsaved
    gens := fun _ _ e he => by
      rcases mem_append.mp he with he | he
      · exact h.gens_atRest hr e he
      · rw [mem_singleton.mp he]
    backed := fun _ => ⟨hloading, hb.id.trans hreplid.symm, hconsumed, fun b hd => hbacks b (hb.dump b hd),
      fun hn => hreplid.trans (hb.none hn), fun b hs hg => hbacks b (hb.saving b hs hg)⟩
    finishing := fun hf => absurd hf hstage.not_finishing }

end

lemma Backs.applied_le {b : Base} (h : Backs S b) (hs : S.stage = .idle) :
    S.follower.applied ≤ b.reach S.entries := by
  have := h.reach (by simp [hs])
  simpa [hs, Stage.owing] using this

lemma Sound.resume (h : Sound S) (hs : S.stage = .idle) : Sound S.resume := by
  have hr : S.stage.atRest := by simp [hs, Stage.atRest]
  have hid : S.resume = { S with
      follower := S.resume.follower, stage := .idle, consumed := S.follower.applied } := by
    rw [Node.resume]
    simp [(h.backed hr).id]
  have hreplid : S.resume.follower.replid = S.follower.replid := by
    simp [Node.resume, Follower.setSyncState, Follower.stateSave]
  rw [hid]
  exact h.recount hr h.orderly rfl (.stateSave _) hreplid rfl trivial nofun (Nat.le_refl _)
    fun b hback _ => hback.applied_le hs

lemma Sound.advance (h : Sound S) (hr : S.stage.atRest) (db : Db) (rawlen : ℕ) : Sound (S.advance db rawlen) :=
  have hb := h.backed hr
  h.recount hr h.orderly rfl ⟨h.saved.some, h.saved.none⟩ rfl hb.loading hr h.appending
    (Nat.le_add_right_of_le hb.consumed) fun _ hback => hback.reach

lemma log_eq (ht : takesRaw raw S.follower.aof = true) :
    S.log raw = S.entries ++ [⟨raw, S.gen, S.consumed⟩] := if_pos ht

lemma applied_noteApplied (hl : F.loading = false) (rawlen : ℕ) :
    (F.noteApplied rawlen).applied = F.applied + rawlen ∧ (F.noteApplied rawlen).replid = F.replid ∧
      (F.noteApplied rawlen).loading = F.loading ∧ (F.noteApplied rawlen).aof = F.aof := by
  rw [Follower.noteApplied, if_neg (by simp [hl])]
  exact ⟨rfl, rfl, rfl, rfl⟩

variable (h : Sound S)
include h

lemma Sound.appendDurable (hs : S.stage = .idle) (hraw : raw ≠ [])
    (ht : takesRaw raw S.follower.aof = true) (hconsumed : S.follower.applied + raw.length ≤ S.consumed) :
    Sound { S with
      follower := S.follower.appendDurable raw, entries := S.log raw, stage := .noting raw.length } := by
  have hr : S.stage.atRest := by simp [hs, Stage.atRest]
  obtain ⟨A, hA, horderly, hcontent⟩ := orderly_takes h.orderly ht
  obtain ⟨hsaved, haof, happlied, hreplid, hloading⟩ := appendDurable_spec h.saved hA
  rw [log_eq ht]
  refine h.appended hr ?_ ?_ hraw hsaved hreplid (hloading.trans (h.backed hr).loading) trivial nofun ?_
  · rw [haof]
    exact horderly
  · rw [haof]
    exact hcontent
  · rw [happlied]
    exact hconsumed

lemma Sound.noteApplied (hs : S.stage = .idle) (hraw : raw ≠ [])
    (hconsumed : S.follower.applied + raw.length ≤ S.consumed) :
    Sound { S with follower := S.follower.noteApplied raw.length, stage := .appending raw } := by
  have hr : S.stage.atRest := by simp [hs, Stage.atRest]
  obtain ⟨happlied, hreplid, hloading, haof⟩ := applied_noteApplied (h.backed hr).loading raw.length
  refine h.recount hr ?_ ?_ (h.saved.noteApplied _) hreplid (hloading.trans (h.backed hr).loading) trivial ?_ ?_ ?_
  · rw [haof]
    exact h.orderly
  · rw [haof]
  · rintro _ ⟨⟩
    exact hraw
  · rw [happlied]
    exact hconsumed
  · exact fun _ _ hne => absurd rfl (hne raw)

lemma Sound.execute (hs : S.stage = .idle) {now : ℤ} {fromReplication : Bool} {argv : List Bytes}
    (hraw : raw ≠ [])
    (he : endures S (.command now fromReplication argv raw) = true) :
    Sound (S.execute now fromReplication argv raw) := by
  have hr : S.stage.atRest := by simp [hs, Stage.atRest]
  have hadvance := h.advance hr (exec now S.follower.db (decode argv)).db raw.length
  have hconsumed : S.follower.applied + raw.length ≤ S.consumed + raw.length := by
    have := (h.backed hr).consumed
    rw [hs] at this
    exact Nat.add_le_add_right this _
  unfold Node.execute
  simp only
  split
  swap
  · exact hadvance
  rename_i hwrote
  rw [Bool.and_eq_true] at hwrote
  have hsucceeds := (exec_wrote_iff hwrote.2).mp hwrote.1
  split
  · rename_i hfrom
    have ht : takesRaw raw S.follower.aof = true := by simpa [endures, hfrom, hsucceeds] using he
    exact hadvance.appendDurable hs hraw ht hconsumed
  · exact hadvance.noteApplied hs hraw hconsumed

lemma Sound.settle (he : endures S .settle = true) : Sound S.settle := by
  unfold Node.settle
  split
  · rename_i rawlen hs
    have hr : S.stage.atRest := by simp [hs, Stage.atRest]
    have hb := h.backed hr
    have howing : S.stage.owing = rawlen := by rw [hs]; rfl
    obtain ⟨happlied, hreplid, hloading, haof⟩ := applied_noteApplied hb.loading rawlen
    refine h.recount hr ?_ ?_ (h.saved.noteApplied _) hreplid (hloading.trans hb.loading) trivial nofun ?_ ?_
    · rw [haof]
      exact h.orderly
    · rw [haof]
    · rw [happlied, ← howing]
      exact hb.consumed
    · intro b hback _
      rw [happlied, ← howing]
      exact hback.reach (by simp [hs])
  · rename_i raw hs
    have hr : S.stage.atRest := by simp [hs, Stage.atRest]
    have hb := h.backed hr
    have ht : takesRaw raw S.follower.aof = true := by simpa [endures, hs] using he
    obtain ⟨A, hA, horderly, hcontent⟩ := orderly_takes h.orderly ht
    have happend : S.follower.append raw = { S.follower with aof := A } := by rw [Follower.append, hA]
    rw [log_eq ht, happend]
    refine h.appended hr horderly hcontent (h.appending raw hs) ⟨h.saved.some, h.saved.none⟩ rfl hb.loading trivial
      nofun ?_
    have := hb.consumed
    rwa [hs] at this
  · exact h

lemma Sound.bgsaveStart (ho : S.follower.aof.inOrder order = true) (hs : S.stage = .idle ∨ S.stage = .receiving) :
    Sound (S.bgsaveStart order) := by
  have hdrained := h.onAof (h.orderly.drain ho) (Aof.content_drainPending ho)
  have hoffset : (S.onAof (Aof.drainPending order)).follower.aof.writeOffset = size S.entries := by
    rw [hdrained.orderly.offset, size_eq h, ← Aof.file_drainPending ho]
    rfl
  set T := S.onAof (Aof.drainPending order) with hT
  have hnew : T.stage.atRest → Backs T ⟨T.id, T.consumed, T.gen, T.follower.aof.writeOffset⟩ := by
    intro hr
    refine ⟨rfl, rfl, hoffset.le, fun _ => ?_⟩
    have hnil : beyond (size S.entries) 0 S.entries = [] := beyond_of_size_le (by omega) h.raws
    have hreach : Base.reach ⟨T.id, T.consumed, T.gen, T.follower.aof.writeOffset⟩ T.entries = T.consumed := by
      rw [hoffset]
      simp [Base.reach, show T.entries = S.entries from rfl, hnil]
    rw [hreach]
    exact (hdrained.backed hr).consumed
  have heq : S.bgsaveStart order = { T with
      saving := some ⟨T.id, T.consumed, T.gen, T.follower.aof.writeOffset⟩ } := by
    rw [Node.bgsaveStart, Node.mix_of_inOrder ho]
  rw [heq]
  exact { hdrained with
    saving := fun b hb => by
      obtain rfl := Option.some.inj hb
      exact Nat.le_refl _
    backed := fun hr =>
      have hb := hdrained.backed hr
      { hb with
        dump := fun b hd => { hb.dump b hd with }
        saving := fun b hsaving _ => by
          obtain rfl := Option.some.inj hsaving
          exact { hnew hr with } }
    finishing := fun hf => by
      have hf' : S.stage = .renamed ∨ S.stage = .patched := hf
      rcases hs with hs | hs <;> simp [hs] at hf' }

lemma Sound.bgsaveDone (he : endures S .bgsaveDone = true) : Sound S.bgsaveDone := by
  unfold Node.bgsaveDone
  split
  · exact h
  rename_i b hsaving
  have hgen : b.gen = S.gen := by simpa [endures, hsaving] using he
  exact { h with
    saving := nofun
    backed := fun hr =>
      have hb := h.backed hr
      { hb with
        dump := fun b' hd => by
          obtain rfl := Option.some.inj hd
          exact { hb.saving b hsaving hgen with }
        none := fun hn => absurd hn (Option.some_ne_none _)
        saving := nofun }
    finishing := fun hf => absurd hgen ((h.finishing hf).saving b hsaving).ne }

lemma Sound.restart (he : endures S (.stop order n db) = true) : Sound (S.restart order n db) := by
  obtain ⟨hr, hnot, hn, ho, hall⟩ := h.stop he
  have hb := h.backed hr
  have hentries : replayed 0 (S.follower.aof.file.length + n) 0 S.entries = S.entries := by
    rw [replayed_eq hall, beyond_zero]
  have hsaved : Saved { S.follower with loading := false, db := db, aof := reopen order n S.follower.aof } :=
    ⟨h.saved.some, h.saved.none⟩
  obtain ⟨hsaved', hreplid, happlied, hloading, haof⟩ := stateLoad_spec hsaved
  have heq : S.restart order n db = { S with
      follower := (S.restart order n db).follower, stage := .idle
      consumed := (S.restart order n db).follower.applied } := by
    have hid : S.id = (S.restart order n db).follower.replid := hb.id.trans hreplid.symm
    rw [Node.restart, Node.mix_of_inOrder ho] at hid ⊢
    simp only [hentries, hid]
  rw [heq]
  refine h.recount hr ?_ ?_ hsaved' hreplid hloading trivial (fun _ hstage => by cases hstage) (Nat.le_refl _)
    fun b hback _ => ?_
  · rw [show (S.restart order n db).follower.aof = _ from haof]
    exact orderly_reopen ..
  · rw [show (S.restart order n db).follower.aof = _ from haof]
    exact content_reopen ho hn
  · rw [show (S.restart order n db).follower.applied = _ from happlied]
    exact (Nat.le_add_right _ _).trans (hback.reach hnot)

lemma Sound.guarded {p : Prop} [Decidable p] {T : Node} (hT : p → Sound T) : Sound (if p then T else S) := by
  split
  · rename_i hp
    exact hT hp
  · exact h

lemma Sound.step {i : NodeInput} (he : endures S i = true) : Sound (S.step i) := by
  cases i with
  | fullResync replid offset => exact h.guarded fun hs => h.fullResync hs replid offset
  | rename => exact h.guarded fun _ => h.rename
  | patch => exact h.guarded fun hs => h.patch hs
  | rebase db => exact h.guarded fun hs => h.rebase hs he
  | «continue» => exact h.guarded fun hs => h.resume (hs.resolve_right (by simpa [endures] using he))
  | command now fromReplication argv raw => exact h.guarded fun hs => h.execute hs.1 hs.2.1 he
  | settle => exact h.settle he
  | flush => exact h.onAof h.orderly.flush.1 h.orderly.flush.2
  | written i =>
    obtain rfl : i = 0 := of_decide_eq_true he
    rw [show S.step (.written 0) = S.onAof (Aof.complete 0) by simp [Node.step, Node.mix]]
    exact h.onAof h.orderly.complete (Aof.content_complete _)
  | bgsaveStart order => exact h.guarded fun hs => h.bgsaveStart he hs.2
  | bgsaveDone => exact h.bgsaveDone he
  | stop order n db => exact h.restart he

end

/-- A node with an empty file. -/
def Node.start (ebpfTcp : Bool) (A : Aof) : Node where
  follower := { ebpfTcp := ebpfTcp
                aof := { A with file := [], outstanding := [], cur := [], writeOffset := 0, rewrite := none } }

lemma Sound.start (ebpfTcp : Bool) (A : Aof) : Sound (.start ebpfTcp A) where
  orderly := ⟨fun _ => rfl, rfl⟩
  content := rfl
  mixed := rfl
  raws := nofun
  appending := nofun
  saved := ⟨nofun, fun _ => ⟨rfl, rfl⟩⟩
  saving := nofun
  gens := nofun
  backed := fun _ => ⟨rfl, rfl, Nat.le_refl _, nofun, fun _ => rfl, nofun⟩
  finishing := fun hf => by simp [Node.start] at hf

/-- A full sync and a write. -/
def syncAndWrite : List NodeInput :=
  [.fullResync (str "a") 1000, .rename, .patch, .rebase .empty,
    .command 0 true [str "SET", str "k", str "v"] (str "SET k v\n"), .settle]

/-- The write gets to the file. -/
def syncAndWriteOut : List NodeInput := syncAndWrite ++ [.flush, .written 0]

end PocketKv.Replication
