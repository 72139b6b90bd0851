import PocketKv.Persistence.SlotLog

/-!
# What becomes of a write to the append-only file
-/

namespace PocketKv.Persistence

open Library Resp List Function

variable {s : ℕ} {drain : Bool}

namespace Slots

/-- What was appended and is not in the file. -/
def rest (S : Slots) : Bytes := (S.unwritten.flatMap fun s => (S.slots s).buf) ++ S.curBuf

/-- The file is what was appended up to the last slot that is written, and the offset is its end. -/
def Exact (before : Bytes) (S : Slots) : Prop := S.file ++ S.rest = before ++ S.appended ∧ S.writeOffset = S.file.length

/-- All completions are collected. -/
def quiet (S : Slots) : Bool := S.cqes.isEmpty && match S.thread with | .failed _ => false | _ => true

/-- The kernel carries out the writes in the order in which they were submitted. -/
def inOrder (S : Slots) : SlotInput → Bool
  | .kernel i _ => ((S.sqes[i]?).bind Sqe.target).isNone || ((S.sqes.take i).filterMap Sqe.target).isEmpty
  | _ => true

variable {S T : Slots} {n i : ℕ} {before : Bytes} {res : Option ℕ} {cqes : List (ℕ × Option ℕ)} {t : ThreadAt}

/-! ### The main thread -/

/-- What the writing thread and the kernel see has not changed. -/
structure Aside (S T : Slots) : Prop where
  fatal : T.fatal = S.fatal
  thread : T.thread = S.thread
  sqes : T.sqes = S.sqes
  cqes : T.cqes = S.cqes
  file : T.file = S.file
  writeOffset : T.writeOffset = S.writeOffset
  inflight : T.inflight = S.inflight
  slots : ∀ a ∈ S.inflight, T.slots a = S.slots a

lemma aside_update {w : WriteSlot} (hs : s ∉ S.inflight ++ S.ready) {free taken : List ℕ} {cur : Option ℕ} {submitted : ℕ}
    {appended : Bytes} : Aside S { S with slots := update S.slots s w, free, taken, cur, submitted, appended } := by
  refine ⟨rfl, rfl, rfl, rfl, rfl, rfl, rfl, fun a ha => ?_⟩
  exact update_of_ne (ne_of_mem_of_not_mem (mem_append_left _ ha) hs) ..

lemma rest_eq (S : Slots) : S.rest = S.bufs.flatten ++ S.curBuf := rfl

lemma rest_moved (h : S.Ok n) (hmove : Moved S T) (hT : ∀ drain, T.thread ≠ .failed drain)
    (hcontent : S.file ++ S.rest = before ++ S.appended) : T.file ++ T.rest = before ++ T.appended := by
  obtain ⟨hfile, hlogged⟩ := logged_moved h hmove hT
  rw [rest_eq] at hcontent
  rw [rest_eq, hfile]
  cases hlogged with
  | same hbufs hcur happended => rw [hbufs, hcur, happended, hcontent]
  | added raw hbufs hcur happended =>
    rw [hbufs, hcur, happended, ← append_assoc, ← append_assoc, ← append_assoc, ← hcontent, append_assoc S.file]
  | handed _ hbufs hcur happended =>
    rw [hbufs, hcur, happended, flatten_append, flatten_singleton, append_nil, hcontent]

lemma ne_failed (h : between t = true) (drain : Bool) : t ≠ .failed drain := by
  rintro rfl
  cases h

/-! ### A write that fails -/

/-- The good completions are among those seen. -/
def Counted (S : Slots) : Prop := ∀ a, (S.slots a).cqeOk ≤ (S.slots a).cqeSeen

lemma Counted.update (h : S.Counted) {w : WriteSlot} (hw : w.cqeOk ≤ w.cqeSeen) (a : ℕ) :
    (update S.slots s w a).cqeOk ≤ (update S.slots s w a).cqeSeen := by
  by_cases has : a = s
  · rw [has, update_self]
    exact hw
  · rw [update_of_ne has]
    exact h a

lemma Counted.moved (h : S.Counted) (hmove : Moved S T) : T.Counted := by
  cases hmove with
  | idle | pushReady | popCompleted | turn | fail | popReady | halfSubmit | submit | pushCompleted => exact h
  | addBytes | takeFree => exact h.update (h _)
  | slotPushFree => exact h.update le_rfl
  | abort => exact h.update (Nat.zero_le _)
  | @reap s res cqes _ _ _ =>
    have hcounted : (S.countCqe s res cqes).Counted := by
      refine h.update ?_
      have hs := h s
      dsimp only
      split <;> omega
    unfold reapCompletion takeSeen
    split <;> exact hcounted

/-- The last completion that a slot is going to get is a bad one, and it is not collected. -/
def Failing (S : Slots) : Prop :=
  ∃ front s back, S.cqes = front ++ (s, none) :: back ∧ s ∉ back.map Prod.fst ∧ S.sqeCount s = 0 ∧
    S.cqeCount s + (S.slots s).cqeSeen = 2

/-- A failure is reported, or is going to be. -/
def Doomed (S : Slots) : Prop := S.fatal = true ∨ (∃ drain, S.thread = .failed drain) ∨ S.Failing

lemma cqeCount_pos (h : (s, res) ∈ S.cqes) : 0 < S.cqeCount s :=
  count_pos_iff.mpr (mem_map_of_mem h)

namespace Doomed

variable (h : S.Doomed)
include h

lemma carry (hthread : ∀ drain, S.thread ≠ .failed drain) (hfatal : S.fatal = true → T.fatal = true)
    (hfailing : S.Failing → T.Failing) : T.Doomed := by
  rcases h with h | ⟨drain, h⟩ | h
  · exact .inl (hfatal h)
  · exact absurd h (hthread drain)
  · exact .inr (.inr (hfailing h))

lemma fatal_of_quiet (hquiet : S.quiet = true) : S.fatal = true := by
  simp only [quiet, Bool.and_eq_true, List.isEmpty_iff] at hquiet
  obtain ⟨hnil, hthread⟩ := hquiet
  rcases h with hfatal | ⟨drain, hfailed⟩ | ⟨front, s, back, hcqes, -⟩
  · exact hfatal
  · rw [hfailed] at hthread
    cases hthread
  · rw [hnil] at hcqes
    exact absurd hcqes.symm (append_ne_nil_of_right_ne_nil _ (cons_ne_nil _ _))

lemma aside (hok : S.Owned) (hT : Aside S T) : T.Doomed := by
  rcases h with hfatal | ⟨drain, hfailed⟩ | ⟨front, s, back, hcqes, hback, hsqes, hcount⟩
  · exact .inl (hT.fatal.trans hfatal)
  · exact .inr (.inl ⟨drain, hT.thread.trans hfailed⟩)
  · have hmem : (s, none) ∈ S.cqes := by rw [hcqes]; simp
    have hpos := cqeCount_pos hmem
    refine .inr (.inr ⟨front, s, back, hT.cqes.trans hcqes, hback, ?_, ?_⟩)
    · rw [sqeCount, hT.sqes]
      exact hsqes
    · rw [cqeCount, hT.cqes, hT.slots s (hok.busy s (by omega)).1]
      exact hcount

lemma setThread (hthread : ∀ drain, S.thread ≠ .failed drain) {ready inflight : List ℕ} {work drainDone : Bool} :
    { S with thread := t, ready, inflight, work, drainDone }.Doomed := h.carry hthread id id

lemma takeSeen (hthread : S.thread = .reaping drain) : (S.takeSeen s drain).Doomed := by
  unfold Slots.takeSeen
  split
  · exact h.carry (by rw [hthread]; nofun) (fun hfatal => by rw [hfatal]; rfl) id
  · exact h

lemma reapCompletion (hcounted : S.Counted)
    (hcqes : S.cqes = (s, res) :: cqes) (hthread : S.thread = .reaping drain) :
    (S.reapCompletion s res cqes drain).Doomed := by
  have hself : (S.countCqe s res cqes).slots s = { S.slots s with
      cqeSeen := (S.slots s).cqeSeen + 1,
      cqeOk := if res.isSome then (S.slots s).cqeOk + 1 else (S.slots s).cqeOk } := update_self ..
  have hother {a : ℕ} (ha : a ≠ s) : (S.countCqe s res cqes).slots a = S.slots a := update_of_ne ha ..
  have hcount (a : ℕ) : S.cqeCount a = (cqes.map Prod.fst).count a + if s = a then 1 else 0 := by
    rw [cqeCount, hcqes, map_cons, count_cons]
    simp
  rcases h with hfatal | ⟨drain', hfailed⟩ | ⟨front, t, back, hsplit, hback, hsqes, htwo⟩
  · exact takeSeen (S := S.countCqe s res cqes) (.inl hfatal) hthread
  · rw [hthread] at hfailed
    cases hfailed
  rw [hcqes] at hsplit
  cases front with
  | nil =>
    obtain ⟨hhead, rfl⟩ := List.cons.inj hsplit
    obtain ⟨rfl, rfl⟩ := Prod.mk.inj hhead
    rw [hcount, if_pos rfl, count_eq_zero_of_not_mem hback] at htwo
    have hok := hcounted s
    left
    unfold Slots.reapCompletion Slots.takeSeen
    rw [if_pos (by rw [hself]; show (S.slots s).cqeSeen + 1 = 2; omega)]
    have hbad : ((S.countCqe s none cqes).slots s).cqeOk ≠ 2 := by
      rw [hself]
      show (S.slots s).cqeOk ≠ 2
      omega
    simp [hbad]
  | cons x front =>
    obtain ⟨-, hrest⟩ := List.cons.inj hsplit
    refine takeSeen (S := S.countCqe s res cqes) (.inr (.inr ⟨front, t, back, hrest, hback, hsqes, ?_⟩)) hthread
    rw [hcount] at htwo
    show (cqes.map Prod.fst).count t + ((S.countCqe s res cqes).slots t).cqeSeen = 2
    by_cases hts : t = s
    · subst hts
      rw [if_pos rfl] at htwo
      rw [hself]
      show _ + ((S.slots t).cqeSeen + 1) = 2
      omega
    · rw [if_neg (Ne.symm hts)] at htwo
      rw [hother hts]
      exact htwo

lemma submit (hok : S.Owned) (hthread : S.thread = .holding s drain) :
    { S with sqes := S.sqes ++ [Sqe.write s true], thread := t }.Doomed := by
  refine h.carry (by rw [hthread]; nofun) id ?_
  rintro ⟨front, a, back, hcqes, hback, hsqes, hcount⟩
  have hmem : (a, none) ∈ S.cqes := by rw [hcqes]; simp
  have hpos := cqeCount_pos hmem
  have has : s ≠ a := fun has => (hok.busy a (by omega)).2 (by rw [hthread, has]; rfl)
  refine ⟨front, a, back, hcqes, hback, ?_, hcount⟩
  have hnone : Sqe.count a (.write s true) = 0 := if_neg has
  rw [sqeCount] at hsqes ⊢
  simp [hsqes, hnone]

lemma kernel {u : ℕ} {new : List (ℕ × Option ℕ)} (hcqes : T.cqes = S.cqes ++ new) (hnew : ∀ c ∈ new, c.1 = u)
    (hu : 0 < S.sqeCount u) (hcount : ∀ a, T.sqeCount a + T.cqeCount a = S.sqeCount a + S.cqeCount a)
    (hfatal : T.fatal = S.fatal) (hthread : T.thread = S.thread) (hslots : T.slots = S.slots) : T.Doomed := by
  rcases h with h | ⟨drain, h⟩ | ⟨front, s, back, hsplit, hback, hsqes, htwo⟩
  · exact .inl (hfatal.trans h)
  · exact .inr (.inl ⟨drain, hthread.trans h⟩)
  · have hsu : s ≠ u := fun hsu => by rw [hsu] at hsqes; omega
    have hnot : s ∉ new.map Prod.fst := fun hmem => by
      obtain ⟨c, hc, rfl⟩ := mem_map.mp hmem
      exact hsu (hnew c hc)
    have hsame : T.cqeCount s = S.cqeCount s := by
      rw [cqeCount, hcqes, map_append, count_append, count_eq_zero_of_not_mem hnot, Nat.add_zero, cqeCount]
    have htotal := hcount s
    refine .inr (.inr ⟨front, s, back ++ new, ?_, ?_, by omega, by rw [hsame, hslots, htwo]⟩)
    · rw [hcqes, hsplit, append_assoc, cons_append]
    · rw [map_append, mem_append]
      exact fun h => h.elim hback hnot

end Doomed

/-! ### Writes that succeed -/

/-- Every write so far was carried out in full. -/
structure Tidy (S : Slots) : Prop where
  offset : S.writeOffset + (S.cqes.map fun c => c.2.getD 0).sum = S.file.length
  /-- Each write has its `fsync`. -/
  linked : ∀ s, Sqe.write s false ∉ S.sqes
  /-- A slot that waits for its `fsync` has got its first completion. -/
  synced : ∀ s, Sqe.fsync s ∈ S.sqes → S.sqeCount s = 1 ∧ S.cqeCount s + (S.slots s).cqeSeen = 1

/-- All is well. -/
structure Sound (before : Bytes) (S : Slots) : Prop extends S.Tidy where
  content : S.file ++ S.rest = before ++ S.appended

lemma sound_init (perCommand : Bool) (file : Bytes) : (init perCommand file).Sound file := by
  refine ⟨⟨rfl, nofun, nofun⟩, ?_⟩
  simp [rest, unwritten, curBuf, init, ThreadAt.held]

lemma sqeCount_pos_of_fsync (h : Sqe.fsync s ∈ S.sqes) : 0 < S.sqeCount s := by
  have hone : Sqe.count s (.fsync s) = 1 := if_pos rfl
  have hle : Sqe.count s (.fsync s) ≤ S.sqeCount s := le_sum_of_mem (mem_map_of_mem h)
  omega

lemma Sound.exact_of_quiet (h : S.Sound before) (hquiet : S.quiet = true) : S.Exact before := by
  simp only [quiet, Bool.and_eq_true, List.isEmpty_iff] at hquiet
  have hoffset := h.offset
  rw [hquiet.1] at hoffset
  exact ⟨h.content, hoffset⟩

namespace Tidy

variable (h : S.Tidy)
include h

lemma frame (hfile : T.file = S.file) (hoffset : T.writeOffset = S.writeOffset) (hsqes : T.sqes = S.sqes)
    (hcqes : T.cqes = S.cqes) (hseen : ∀ a, 0 < S.sqeCount a → (T.slots a).cqeSeen = (S.slots a).cqeSeen) : T.Tidy := by
  refine ⟨by rw [hoffset, hcqes, hfile, h.offset], fun s hs => h.linked s (hsqes ▸ hs), fun s hs => ?_⟩
  rw [hsqes] at hs
  rw [sqeCount, cqeCount, hsqes, hcqes, hseen s (sqeCount_pos_of_fsync hs)]
  exact h.synced s hs

lemma aside (hok : S.Owned) (hT : Aside S T) : T.Tidy :=
  h.frame hT.file hT.writeOffset hT.sqes hT.cqes fun a ha => by
    rw [hT.slots a (hok.busy a (Nat.add_pos_left ha _)).1]

lemma submit (hok : S.Owned) (hthread : S.thread = .holding s drain) :
    { S with sqes := S.sqes ++ [Sqe.write s true], thread := .submitting drain }.Tidy := by
  have hother {a : ℕ} (ha : Sqe.fsync a ∈ S.sqes) : Sqe.count a (.write s true) = 0 := by
    refine if_neg fun has => ?_
    have hpos := sqeCount_pos_of_fsync ha
    exact (hok.busy a (by omega)).2 (by rw [hthread, has]; rfl)
  refine ⟨h.offset, fun a ha => ?_, fun a ha => ?_⟩
  · rcases mem_append.mp ha with ha | ha
    · exact h.linked a ha
    · cases mem_singleton.mp ha
  · rcases mem_append.mp ha with ha | ha
    · have hsynced := h.synced a ha
      rw [sqeCount] at hsynced
      simp only [sqeCount, map_append, map_cons, map_nil, sum_append, sum_cons, sum_nil, hother ha]
      exact hsynced
    · cases mem_singleton.mp ha

lemma countCqe (hcqes : S.cqes = (s, res) :: cqes) : (S.countCqe s res cqes).Tidy := by
  refine ⟨?_, h.linked, fun a ha => ?_⟩
  · have hoffset := h.offset
    rw [hcqes, map_cons, sum_cons, ← Nat.add_assoc] at hoffset
    exact hoffset
  · obtain ⟨hone, hsum⟩ := h.synced a ha
    refine ⟨hone, ?_⟩
    rw [cqeCount, hcqes, map_cons, count_cons] at hsum
    show (cqes.map Prod.fst).count a + ((S.countCqe s res cqes).slots a).cqeSeen = 1
    by_cases has : a = s
    · have hseen : ((S.countCqe s res cqes).slots s).cqeSeen = (S.slots s).cqeSeen + 1 := by simp [Slots.countCqe, modify]
      rw [has] at hsum ⊢
      rw [hseen]
      simp only [beq_self_eq_true, if_true] at hsum
      omega
    · have hseen : (S.countCqe s res cqes).slots a = S.slots a := update_of_ne has ..
      rw [hseen]
      simp only [beq_eq_false_iff_ne.mpr (Ne.symm has), Bool.false_eq_true, if_false] at hsum
      exact hsum

lemma takeSeen (drain : Bool) : (S.takeSeen s drain).Tidy := by
  unfold Slots.takeSeen
  split
  · exact { h with }
  · exact h

lemma kernel {k : ℕ} (hcqes : T.cqes = S.cqes ++ [(s, some k)]) (hfile : T.file.length = S.file.length + k)
    (hoffset : T.writeOffset = S.writeOffset) (hslots : T.slots = S.slots)
    (hcount : ∀ a, T.sqeCount a + T.cqeCount a = S.sqeCount a + S.cqeCount a)
    (hsqes : ∀ q ∈ T.sqes, q = .fsync s ∨ q ∈ S.sqes)
    (hself : Sqe.fsync s ∈ T.sqes → T.sqeCount s = 1 ∧ T.cqeCount s + (S.slots s).cqeSeen = 1) : T.Tidy := by
  refine ⟨?_, fun a ha => h.linked a ((hsqes _ ha).resolve_left nofun), fun a ha => ?_⟩
  · rw [hoffset, hcqes, hfile, ← h.offset]
    simp [Nat.add_assoc]
  rw [hslots]
  by_cases has : a = s
  · subst has
    exact hself ha
  · have hsame : T.cqeCount a = S.cqeCount a := by
      rw [cqeCount, hcqes, map_append, count_append, cqeCount]
      simp [Ne.symm has]
    have htotal := hcount a
    obtain ⟨hone, hsum⟩ := h.synced a ((hsqes _ ha).resolve_left fun heq => has (Sqe.fsync.inj heq))
    omega

end Tidy

namespace Sound

variable (h : S.Sound before)
include h

lemma carryOut (hok : S.Owned) {linked : Bool} (hq : S.sqes[i]? = some (.write s linked))
    (horder : (S.sqes.take i).filterMap Sqe.target = []) (res : Option ℕ) :
    (S.carryOut i s linked res).Doomed ∨ (S.carryOut i s linked res).Sound before := by
  have hlinked : linked = true := by
    cases linked with
    | true => rfl
    | false => exact absurd (mem_of_getElem? hq) (h.linked s)
  subst hlinked
  -- both completions of the slot are still to come
  have hcount := sqeCount_split hq s
  have hwrite : Sqe.count s (.write s true) = 2 := by simp [Sqe.count]
  have hcredit := hok.credit s
  have htotal := count_carryOut hq res s
  by_cases hfull : res.map (min · (S.slots s).buf.length) = some (S.slots s).buf.length
  · right
    have hsqes : (S.carryOut i s true res).sqes = S.sqes.take i ++ .fsync s :: S.sqes.drop (i + 1) := by
      simp [Slots.carryOut, hfull]
    have hcqes : (S.carryOut i s true res).cqes = S.cqes ++ [(s, some (S.slots s).buf.length)] := by
      simp [Slots.carryOut, hfull]
    have hfile : (S.carryOut i s true res).file = S.file ++ (S.slots s).buf := by
      simp [Slots.carryOut, hfull]
    have hself : (S.carryOut i s true res).cqeCount s = S.cqeCount s + 1 := by
      rw [cqeCount, hcqes]
      simp [cqeCount]
    refine ⟨h.kernel hcqes (by rw [hfile, length_append]) rfl rfl (count_carryOut hq res) (fun q hmem => ?_)
      fun _ => by omega, ?_⟩
    · rw [hsqes] at hmem
      rcases mem_append.mp hmem with hmem | hmem
      · exact .inr (mem_of_mem_take hmem)
      · exact (mem_cons.mp hmem).imp_right mem_of_mem_drop
    · obtain ⟨post, hbufs, hafter⟩ := bufs_carryOut hq res
      have hcontent := h.content
      rw [rest_eq, hbufs, horder] at hcontent
      rw [rest_eq, hfile, hafter, horder, append_assoc]
      simp only [map_nil, nil_append, flatten_cons, append_assoc] at hcontent ⊢
      exact hcontent
  · left
    have hcqes : (S.carryOut i s true res).cqes =
        S.cqes ++ [(s, res.map (min · (S.slots s).buf.length))] ++ (s, none) :: [] := by
      simp [Slots.carryOut, hfull]
    have hsqes : (S.carryOut i s true res).sqeCount s = 0 := by
      simp only [Slots.carryOut, hfull, decide_false, Bool.and_false, Bool.false_eq_true, if_false, nil_append, sqeCount,
        map_append, sum_append]
      omega
    refine .inr (.inr ⟨_, s, [], hcqes, not_mem_nil, hsqes, ?_⟩)
    show (S.carryOut i s true res).cqeCount s + (S.slots s).cqeSeen = 2
    omega

lemma carryOutFsync (hq : S.sqes[i]? = some (.fsync s)) (res : Option ℕ) :
    (S.carryOutFsync i s res).Doomed ∨ (S.carryOutFsync i s res).Sound before := by
  obtain ⟨hone, hsum⟩ := h.synced s (mem_of_getElem? hq)
  have hself : (S.carryOutFsync i s res).cqeCount s = S.cqeCount s + 1 := by simp [cqeCount, Slots.carryOutFsync]
  have htotal := count_carryOutFsync hq res s
  cases res with
  | none =>
    refine .inl (.inr (.inr ⟨S.cqes, s, [], rfl, not_mem_nil, by omega, ?_⟩))
    show (S.carryOutFsync i s none).cqeCount s + (S.slots s).cqeSeen = 2
    omega
  | some k =>
    refine .inr ⟨h.kernel (k := 0) rfl rfl rfl rfl (count_carryOutFsync hq _) (fun q hmem => .inr ?_) fun hs => ?_, ?_⟩
    · exact (mem_append.mp hmem).elim mem_of_mem_take mem_of_mem_drop
    · have hpos := sqeCount_pos_of_fsync hs
      omega
    · rw [rest_eq, bufs_carryOutFsync hq]
      exact h.content

end Sound

/-! ### Whole runs -/

/-- What holds in every state of a run in which the kernel keeps to the order. -/
structure Tracked (before : Bytes) (S : Slots) : Prop where
  ok : S.Ok before.length
  counted : S.Counted
  outcome : S.Doomed ∨ S.Sound before

lemma tracked_init (perCommand : Bool) (file : Bytes) : (init perCommand file).Tracked file :=
  ⟨ok_init perCommand file, fun _ => le_rfl, .inr (sound_init perCommand file)⟩

section

variable (h : S.Tracked before)
include h

lemma Tracked.moved (hmove : Moved S T) : T.Tracked before := by
  refine ⟨h.ok.moved hmove, h.counted.moved hmove, ?_⟩
  -- without a failure the content is as it was before, or has grown with what was appended
  have houtcome (hdoomed : S.Doomed → T.Doomed) (htidy : S.Tidy → T.Tidy) (hT : ∀ drain, T.thread ≠ .failed drain) :
      T.Doomed ∨ T.Sound before :=
    h.outcome.imp hdoomed fun hs => ⟨htidy hs.toTidy, rest_moved h.ok hmove hT hs.content⟩
  have haside (hT : Aside S T) : T.Doomed ∨ T.Sound before := by
    by_cases hfailed : ∃ drain, T.thread = .failed drain
    · exact .inl (.inr (.inl hfailed))
    · exact houtcome (fun hd => hd.aside h.ok.owned hT) (fun ht => ht.aside h.ok.owned hT) (not_exists.mp hfailed)
  cases hmove with
  | idle | pushReady | popCompleted => exact haside ⟨rfl, rfl, rfl, rfl, rfl, rfl, rfl, fun _ _ => rfl⟩
  | addBytes raw cap hcur => exact haside (aside_update (h.ok.placed.idle (.inr (.inl hcur))))
  | takeFree hcur hfree => exact haside (aside_update (h.ok.placed.idle (.inl (hfree ▸ mem_cons_self))))
  | slotPushFree htaken => exact haside (aside_update (h.ok.placed.idle (.inr (.inr (htaken ▸ mem_cons_self)))))
  | turn hthread ht =>
    exact houtcome (fun hd => hd.setThread (ne_failed hthread)) (fun ht => { ht with }) (ne_failed ht)
  | fail => exact .inl (.inl rfl)
  | popReady hthread hready =>
    exact houtcome (fun hd => hd.setThread (by rw [hthread]; nofun)) (fun ht => { ht with }) nofun
  | abort | halfSubmit => exact .inl (.inr (.inl ⟨_, rfl⟩))
  | submit hthread =>
    exact houtcome (fun hd => hd.submit h.ok.owned hthread) (fun ht => ht.submit h.ok.owned hthread) nofun
  | @reap s res cqes drain hthread hcqes =>
    refine houtcome (fun hd => hd.reapCompletion h.counted hcqes hthread) (fun ht => (ht.countCqe hcqes).takeSeen drain) ?_
    intro drain' hfailed
    unfold reapCompletion takeSeen at hfailed
    split at hfailed
    · cases hfailed
    · cases hthread.symm.trans hfailed
  | pushCompleted hthread =>
    exact houtcome (fun hd => hd.carry (by rw [hthread]; nofun) id id) (fun ht => { ht with }) nofun

lemma outcome_kernel (hguard : S.inOrder (.kernel i res) = true) :
    (S.kernelStep i res).Doomed ∨ (S.kernelStep i res).Sound before := by
  unfold kernelStep
  cases hq : S.sqes[i]? with
  | none => exact h.outcome
  | some q =>
    have hpos {s : ℕ} (hs : 0 < q.count s) : 0 < S.sqeCount s := by
      rw [sqeCount_split hq]
      omega
    cases q with
    | write s linked =>
      rcases h.outcome with hd | hs
      · left
        refine hd.kernel (u := s) rfl (fun c hc => ?_) (hpos ?_) (count_carryOut hq res) rfl rfl rfl
        · rcases mem_cons.mp hc with rfl | hc
          · rfl
          · split at hc
            · rw [mem_singleton.mp hc]
            · cases hc
        · cases linked <;> simp [Sqe.count]
      · refine hs.carryOut h.ok.owned hq ?_ res
        simpa [inOrder, hq, Sqe.target] using hguard
    | fsync s =>
      rcases h.outcome with hd | hs
      · left
        refine hd.kernel (u := s) rfl (fun c hc => ?_) (hpos (by simp [Sqe.count])) (count_carryOutFsync hq res) rfl rfl rfl
        rw [mem_singleton.mp hc]
      · exact hs.carryOutFsync hq res

lemma Tracked.step {i : SlotInput} (hguard : S.inOrder i = true) : (S.step i).Tracked before := by
  rcases S.step_moves i with ⟨j, res, rfl⟩ | hmoves
  · refine ⟨h.ok.kernelStep j res, ?_, outcome_kernel h hguard⟩
    show (S.kernelStep j res).Counted
    unfold kernelStep
    split <;> exact h.counted
  · exact keeps_moves (fun hmove h => h.moved hmove) hmoves h

end

/-! ### After a failure -/

lemma fatal_moved (hmove : Moved S T) (h : S.fatal = true) : T.fatal = true := by
  cases hmove with
  | fail => rfl
  | @reap s res cqes _ _ _ =>
    have hcounted : (S.countCqe s res cqes).fatal = true := h
    unfold reapCompletion takeSeen
    split
    · rw [hcounted]
      rfl
    · exact hcounted
  | _ => exact h

lemma fatal_step (h : S.fatal = true) (i : SlotInput) : (S.step i).fatal = true := by
  rcases S.step_moves i with ⟨j, res, rfl⟩ | hmoves
  · show (S.kernelStep j res).fatal = true
    unfold kernelStep
    split <;> exact h
  · exact keeps_moves fatal_moved hmoves h

lemma fatal_run (h : S.fatal = true) (is : List SlotInput) : (is.foldl step S).fatal = true := by
  induction is generalizing S with
  | nil => exact h
  | cons i is ih => exact ih (fatal_step h i)

/-- From now on the state is fatal, and every append returns `KVS_PERSIST_ERR` and does nothing. -/
def Refuses (S : Slots) : Prop :=
  ∀ is : List SlotInput, (is.foldl step S).fatal = true ∧ ∀ raw alloc, (is.foldl step S).main = [] →
    (is.foldl step S).step (.append raw alloc) = { is.foldl step S with replies := (is.foldl step S).replies ++ [false] }

lemma refuses_of_fatal (h : S.fatal = true) : S.Refuses := by
  intro is
  have hlater := fatal_run h is
  refine ⟨hlater, fun raw alloc hmain => ?_⟩
  simp [step, appendPrepare, hmain, hlater]

end Slots

/-! ### Without the slots -/

/-- The state with `aof_fsync_sync`. -/
structure SyncLog where
  /-- `aof_fsync_per_command`. -/
  perCommand : Bool
  /-- `g_aof_buf`. -/
  buf : Bytes := []
  /-- `g_aof_write_offset`. -/
  writeOffset : ℕ
  /-- `g_aof_write_submitted`. -/
  submitted : ℕ
  /-- `g_persist_fatal_error`. -/
  fatal : Bool := false
  file : Bytes
  appended : Bytes := []
  /-- What `persist_append_prepare` returned; `false` stands for `KVS_PERSIST_ERR`. -/
  replies : List Bool := []

/-- `persist_init` with `aof_fsync_sync`. -/
def SyncLog.init (perCommand : Bool) (file : Bytes) : SyncLog :=
  { perCommand, file, submitted := file.length, writeOffset := file.length }

/-- `written` is the number of bytes that `pwrite` writes, if it does not fail. -/
inductive SyncInput where
  /-- `persist_append_prepare`; `uring`: `persist_uring_init_once` succeeds, `alloc`: memory is to be had. -/
  | append (raw : Bytes) (uring alloc : Bool) (written : Option ℕ) (synced : Bool)
  /-- `persist_flush_pending`. -/
  | flush (written : Option ℕ) (synced : Bool)

namespace SyncLog

/-- `persist_sync_append_write`. -/
def appendWrite (written : Option ℕ) (synced : Bool) (L : SyncLog) : SyncLog :=
  if L.buf = [] then L
  else
    let count := written.map (min · L.buf.length)
    let L := { L with file := L.file ++ L.buf.take (count.getD 0) }
    if count ≠ some L.buf.length then L
    else
      let L := { L with writeOffset := L.writeOffset + L.buf.length, submitted := L.writeOffset + L.buf.length }
      if synced then { L with buf := [] } else L

/-- The bytes go into the buffer. -/
def addBytes (raw : Bytes) (L : SyncLog) : SyncLog :=
  { L with buf := L.buf ++ raw, submitted := L.submitted + raw.length, appended := L.appended ++ raw,
           replies := L.replies ++ [true] }

/-- The buffer is to be written. -/
def writes (L : SyncLog) : Bool := L.perCommand || decide (aofSlotMax ≤ L.buf.length)

/-- The calls. -/
def step (L : SyncLog) : SyncInput → SyncLog
  | .append raw uring alloc written synced =>
    if L.fatal || !uring || !alloc then { L with replies := L.replies ++ [false] }
    else if (L.addBytes raw).writes then (L.addBytes raw).appendWrite written synced
    else L.addBytes raw
  | .flush written synced => L.appendWrite written synced

/-- There is nothing to write, or `pwrite` writes all of it and `fdatasync` succeeds. -/
def succeeds (written : Option ℕ) (synced : Bool) (L : SyncLog) : Bool :=
  L.buf.isEmpty || ((written.any fun k => decide (L.buf.length ≤ k)) && synced)

/-- The write succeeds, or writes nothing and is tried again, as none is due for each command. -/
def harmless (written : Option ℕ) (synced : Bool) (L : SyncLog) : Bool :=
  L.succeeds written synced || !L.perCommand && written.getD 0 == 0

/-- The write of the call, if there is one, is harmless. -/
def complete (L : SyncLog) : SyncInput → Bool
  | .append raw uring alloc written synced =>
    L.fatal || !uring || !alloc || !(L.addBytes raw).writes || (L.addBytes raw).harmless written synced
  | .flush written synced => L.harmless written synced

/-- The file is what was appended up to the last write, and the offset is its end. -/
def Exact (before : Bytes) (L : SyncLog) : Prop := L.file ++ L.buf = before ++ L.appended ∧ L.writeOffset = L.file.length

/-- The file is right, and with a write for each command nothing is left in the buffer. -/
structure Sound (before : Bytes) (L : SyncLog) : Prop where
  exactly : L.Exact before
  empty : L.perCommand = true → L.buf = []

variable {L : SyncLog} {before : Bytes}

lemma sound_init (perCommand : Bool) (file : Bytes) : (init perCommand file).Sound file := ⟨⟨rfl, rfl⟩, fun _ => rfl⟩

lemma Exact.appendWrite (h : L.Exact before) {written : Option ℕ} {synced : Bool} (hw : L.succeeds written synced = true) :
    (L.appendWrite written synced).Exact before ∧ (L.appendWrite written synced).buf = [] := by
  obtain ⟨hcontent, hoffset⟩ := h
  unfold SyncLog.appendWrite
  split
  · rename_i hnil
    exact ⟨⟨hcontent, hoffset⟩, hnil⟩
  rename_i hne
  simp only [succeeds, List.isEmpty_iff, Bool.or_eq_true, Bool.and_eq_true, hne, false_or, Option.any_eq_true,
    decide_eq_true_eq] at hw
  obtain ⟨⟨k, rfl, hk⟩, rfl⟩ := hw
  simp only [Option.map_some, min_eq_right hk, ne_eq, not_true, if_false, if_true, Option.getD_some, take_length]
  refine ⟨⟨?_, ?_⟩, trivial⟩
  · rw [append_nil, hcontent]
  · rw [hoffset, length_append]

lemma Exact.harmless (h : L.Exact before) {written : Option ℕ} {synced : Bool} (hw : L.harmless written synced = true) :
    (L.appendWrite written synced).Sound before := by
  rcases Bool.or_eq_true_iff.mp hw with hw | hw
  · obtain ⟨hexact, hnil⟩ := h.appendWrite hw
    exact ⟨hexact, fun _ => hnil⟩
  simp only [Bool.and_eq_true, Bool.not_eq_true', beq_iff_eq] at hw
  obtain ⟨hbatch, hnone⟩ := hw
  have hcount : (written.map (min · L.buf.length)).getD 0 = 0 := by cases written <;> simp_all
  have hper : ∀ L' : SyncLog, L'.perCommand = L.perCommand → L'.perCommand = true → L'.buf = [] := fun L' h' htrue => by
    rw [h', hbatch] at htrue
    cases htrue
  unfold SyncLog.appendWrite
  split
  · exact ⟨h, hper L rfl⟩
  rename_i hne
  have hshort : written.map (min · L.buf.length) ≠ some L.buf.length := fun hsome => by
    rw [hsome] at hcount
    exact hne (length_eq_zero_iff.mp hcount)
  simp only [hcount, take_zero, append_nil, if_pos hshort]
  exact ⟨h, hper _ rfl⟩

lemma Exact.addBytes (h : L.Exact before) (raw : Bytes) : (L.addBytes raw).Exact before := by
  refine ⟨?_, h.2⟩
  show L.file ++ (L.buf ++ raw) = before ++ (L.appended ++ raw)
  rw [← append_assoc, h.1, append_assoc]

lemma Sound.step (h : L.Sound before) {i : SyncInput} (hi : L.complete i = true) : (L.step i).Sound before := by
  cases i with
  | append raw uring alloc written synced =>
    simp only [complete, Bool.or_eq_true] at hi
    unfold SyncLog.step
    dsimp only
    split
    · exact ⟨h.exactly, h.empty⟩
    rename_i hopen
    simp only [Bool.or_eq_true] at hopen
    split
    · rename_i hwrites
      have hw : (L.addBytes raw).harmless written synced = true := by
        rcases hi with (hclosed | hnone) | hw
        · exact absurd hclosed hopen
        · rw [hwrites] at hnone
          cases hnone
        · exact hw
      exact (h.exactly.addBytes raw).harmless hw
    · rename_i hwrites
      refine ⟨h.exactly.addBytes raw, fun hper => absurd ?_ hwrites⟩
      have hper' : (L.addBytes raw).perCommand = true := hper
      rw [writes, hper', Bool.true_or]
  | flush written synced => exact h.exactly.harmless hi

end SyncLog

/-- **The outcome of a write is not hidden.** With the slots, if the kernel carries out the writes in the order of
their submission: whenever all completions are collected, the file is what was appended up to the last slot that is
written, or the fatal state is reached for good and every append refused. With `aof_fsync_sync`, if every write
is harmless: the file is what was appended up to the last write. -/
theorem outcome_reported (perCommand : Bool) (file : Bytes) :
    (∀ is, GuardedRun Slots.step (fun S i => S.inOrder i = true) (.init perCommand file) is →
      let S := is.foldl Slots.step (.init perCommand file)
      S.quiet = true → S.Exact file ∨ S.fatal = true ∧ S.Refuses) ∧
    (∀ is, GuardedRun SyncLog.step (fun L i => L.complete i = true) (.init perCommand file) is →
      let L := is.foldl SyncLog.step (.init perCommand file)
      L.Exact file ∧ (L.perCommand = true → L.file = file ++ L.appended)) := by
  constructor
  · intro is hrun S hquiet
    have hS : S.Tracked file := GuardedRun.invariant (fun S i h hi => h.step hi) (Slots.tracked_init perCommand file) hrun
    rcases hS.outcome with hdoomed | hsound
    · have hfatal := hdoomed.fatal_of_quiet hquiet
      exact .inr ⟨hfatal, Slots.refuses_of_fatal hfatal⟩
    · exact .inl (hsound.exact_of_quiet hquiet)
  · intro is hrun L
    have hL : L.Sound file := GuardedRun.invariant (fun L i h hi => h.step hi) (SyncLog.sound_init perCommand file) hrun
    refine ⟨hL.exactly, fun hper => ?_⟩
    have hcontent := hL.exactly.1
    rwa [hL.empty hper, append_nil] at hcontent

/-- Two appends that are submitted. -/
def twoBatches : List SlotInput :=
  [.append (str "a") true, .main, .main, .main, .main, .append (str "b") true, .main, .main, .main, .main,
    .wake, .thread 8 true true, .thread 8 true true, .thread 8 true true, .thread 8 true true, .thread 8 true true]

/-- The completions are collected. -/
def collectAll : List SlotInput := .collect :: List.replicate 7 (.thread 8 true true)

/-- The first write is short. -/
def shortRun : List SlotInput := twoBatches ++ .kernel 0 (some 0) :: .kernel 0 (some 1) :: .kernel 0 (some 0) :: collectAll

/-- Two appends with the first write short, and one synchronous append that is written. -/
theorem outcome_reported_short :
    (let S := shortRun.foldl Slots.step (.init true [])
     S.file = str "b" ∧ S.fatal = true ∧ S.Refuses) ∧
    (let L := [SyncInput.append (str "a") true true (some 1) true].foldl SyncLog.step (.init true [])
     L.file = str "a" ∧ L.Exact []) := by
  obtain ⟨hasync, hsync⟩ := outcome_reported true []
  constructor
  · intro S
    have hrun : GuardedRun Slots.step (fun S i => S.inOrder i = true) (.init true []) shortRun := by decide +kernel
    have hquiet : S.quiet = true := by decide +kernel
    have hfile : S.file = str "b" := by decide +kernel
    have happended : S.appended = str "ab" := by decide +kernel
    rcases hasync shortRun hrun hquiet with hexact | hfatal
    · have hcontent : S.file ++ S.rest = [] ++ S.appended := hexact.1
      rw [hfile, happended] at hcontent
      exact absurd (congrArg List.head? hcontent) (by simp [str])
    · exact ⟨hfile, hfatal⟩
  · intro L
    have hrun : GuardedRun SyncLog.step (fun L i => L.complete i = true) (.init true [])
        [SyncInput.append (str "a") true true (some 1) true] := by decide +kernel
    exact ⟨by decide +kernel, (hsync _ hrun).1⟩

/-- The second write is carried out first. -/
def swappedRun : List SlotInput :=
  twoBatches ++ .kernel 1 (some 1) :: .kernel 0 (some 1) :: .kernel 0 (some 0) :: .kernel 0 (some 0) :: collectAll

/-- **A lost write that is answered `+OK`**, as `pwrite` fails with `aof_fsync_sync` and the state is not fatal;
**and a file in another order**, as the kernel carries out the second of two writes first. -/
theorem outcome_hidden :
    (let L := [SyncInput.append (str "SET a 1") true true none true].foldl SyncLog.step (.init true [])
     L.replies = [true] ∧ L.file = [] ∧ L.fatal = false) ∧
    (let S := swappedRun.foldl Slots.step (.init true [])
     S.quiet = true ∧ S.file = str "ba" ∧ S.appended = str "ab" ∧ S.fatal = false ∧ S.replies = [true, true]) := by
  decide +kernel

end PocketKv.Persistence
