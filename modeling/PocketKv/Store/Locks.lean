import PocketKv.Library.Run
import PocketKv.Store.Keys

/-!
# Locks
-/

namespace PocketKv.Store

open Library Resp Function

variable {now n : ℤ} {ev : ℤ × StoreEvent} {c : Cmd} {wrote : Bool}

/-! ### The handlers -/

section Handlers

variable {ms : ℤ} {s : Db} {e : Engine} {k token : Bytes}

lemma lockAcquire_eq (now ms : ℤ) (s : Db) (e : Engine) (k token : Bytes) : lockAcquire now s e k token ms =
    if ms ≤ 0 then (.fail, s)
    else if (s.liveKv now (e, k)).isSome then (.miss, tryExpire now s e k)
    else if (tryExpire now s e k).full e then (.fail, tryExpire now s e k)
    else (.ok, ((tryExpire now s e k).put e k token).stamp e k (wrap64 (now + ms))) := by
  unfold lockAcquire
  by_cases hms : ms ≤ 0
  · rw [if_pos hms, if_pos hms]
  simp only [engineExist_eq_liveKv]
  by_cases hheld : (s.liveKv now (e, k)).isSome = true
  · rw [if_pos hheld, if_pos hheld]
  rw [if_neg hheld, if_neg hheld, engineSet, engineExist_eq_liveKv, if_neg hheld]
  by_cases hroom : (tryExpire now s e k).full e = true
  · rw [if_pos hroom, if_pos hroom]
  · rw [if_neg hroom, if_neg hroom]
    simp only [expireSet, if_neg hms]
    rfl

/-- `LOCK`, `UNLOCK` and `RENEW`. -/
def Cmd.locks : Cmd → Bool
  | .lock .. | .unlock .. | .renew .. => true
  | _ => false

lemma settleLock_one (failed : String) (r : Rc × Db) :
    (settleLock failed r).reply = .int 1 ↔ (settleLock failed r).wrote = true := by
  obtain ⟨rc, t⟩ := r
  cases rc <;> simp [settleLock]

lemma reply_eq_one (hc : c.locks = true) : (exec now s c).reply = .int 1 ↔ (exec now s c).wrote = true := by
  cases c with
  | lock | unlock | renew => exact settleLock_one ..
  | _ => cases hc

lemma Ran.expires_of_locks {t : Db} (hran : Ran now s c wrote t) (hc : c.locks = true)
    (hw : wrote = false) : Expires now s t := by
  cases hran with
  | lockLate | renewLate => exact .refl now s
  | lockMiss | unlockMiss | renewMiss => exact .one now s _ _
  | lock | unlock | renew => cases hw
  | _ => cases hc

end Handlers

/-! ### Leases -/

/-- What a client was promised: the lock from a time on, for a number of units of time. -/
structure Lease where
  since : ℤ
  length : ℤ
  deriving DecidableEq

/-- The store with the leases of a lock. -/
structure Watched where
  db : Db
  now : ℤ
  leases : Bytes → Option Lease

/-- The token was promised the lock, with lengths in seconds, and has not given it back. -/
def Watched.holds (w : Watched) (now : ℤ) (token : Bytes) : Prop :=
  ∃ l, w.leases token = some l ∧ now < l.since + 1000 * l.length

/-- What the reply `1` to a command means for the leases of a lock. -/
def Cmd.leases (now : ℤ) (k : Bytes) (leases : Bytes → Option Lease) : Cmd → Bytes → Option Lease
  | .lock k' token n | .renew k' token n => if k' = k then update leases token (some ⟨now, n⟩) else leases
  | .unlock k' token => if k' = k then update leases token none else leases
  | _ => leases

/-- The command of an event. -/
def StoreEvent.cmd : StoreEvent → Option Cmd
  | .command argv => some (decode argv)
  | .cycle _ => none

/-- The event is a command that is answered `1`. -/
def StoreEvent.granted (now : ℤ) (s : Db) (ev : StoreEvent) : Prop :=
  ev.cmd.map (fun c => (exec now s c).reply) = some (.int 1)

instance (now : ℤ) (s : Db) (ev : StoreEvent) : Decidable (ev.granted now s) :=
  inferInstanceAs (Decidable (_ = _))

/-- An event, with what its reply promises. -/
def Watched.step (k : Bytes) (w : Watched) (ev : ℤ × StoreEvent) : Watched where
  db := ev.2.apply ev.1 w.db
  now := ev.1
  leases := match ev.2.cmd with
    | none => w.leases
    | some c => if ev.2.granted ev.1 w.db then c.leases ev.1 k w.leases else w.leases

/-- The empty store. -/
def Watched.start : Watched := ⟨.empty, 0, fun _ => none⟩

/-- The event comes after the ones before it, and other commands do not touch the lock. -/
def Watched.proper (k : Bytes) (w : Watched) (ev : ℤ × StoreEvent) : Prop :=
  w.now ≤ ev.1 ∧ ∀ c, ev.2.cmd = some c → (.array, k) ∈ c.keys → c.locks = true

/-! ### What an event does to a lock -/

/-- The key is as before, or past its deadline and gone. -/
def Lapses (now : ℤ) (x : Slot) (s s' : Db) : Prop :=
  AgreeAt x s s' ∨ expireIsExpired now s x.1 x.2 = true ∧ s'.kv.lookup x = none ∧ s'.ttl.lookup x = none

lemma Expires.lapses {s s' : Db} (h : Expires now s s') (x : Slot) : Lapses now x s s' := by
  obtain ⟨slots, rfl⟩ := h
  rw [Lapses, AgreeAt, (lookup_expireAll slots x).1, (lookup_expireAll slots x).2]
  by_cases hx : x ∈ slots ∧ expireIsExpired now s x.1 x.2 = true
  · rw [if_pos hx, if_pos hx]
    exact .inr ⟨hx.2, rfl, rfl⟩
  · rw [if_neg hx, if_neg hx]
    exact .inl ⟨rfl, rfl⟩

/-- What an event does to a lock. -/
inductive Turn (k : Bytes) (w : Watched) (ev : ℤ × StoreEvent) (w' : Watched) : Prop where
  | lapse (hdb : Lapses ev.1 (.array, k) w.db w'.db) (hleases : w'.leases = w.leases)
    (hrefused : ∀ c, ev.2.cmd = some c → (.array, k) ∈ c.keys → ¬ ev.2.granted ev.1 w.db)
  | grant (token : Bytes) (n : ℤ) (hcmd : ev.2.cmd = some (.lock k token n)) (hn : 0 < n)
    (hroom : (tryExpire ev.1 w.db .array k).full .array = false) (hfree : w.db.liveKv ev.1 (.array, k) = none)
    (hkv : w'.db.kv.lookup (.array, k) = some token) (httl : w'.db.ttl.lookup (.array, k) = some (wrap64 (ev.1 + n)))
    (hleases : w'.leases = update w.leases token (some ⟨ev.1, n⟩))
  | free (token : Bytes) (hcmd : ev.2.cmd = some (.unlock k token)) (hheld : w.db.liveKv ev.1 (.array, k) = some token)
    (hkv : w'.db.kv.lookup (.array, k) = none) (hleases : w'.leases = update w.leases token none)
  | extend (token : Bytes) (n : ℤ) (hcmd : ev.2.cmd = some (.renew k token n)) (hn : 0 < n)
    (hheld : w.db.liveKv ev.1 (.array, k) = some token) (hkv : w'.db.kv.lookup (.array, k) = some token)
    (httl : w'.db.ttl.lookup (.array, k) = some (wrap64 (ev.1 + n)))
    (hleases : w'.leases = update w.leases token (some ⟨ev.1, n⟩))

section Turn

variable {k : Bytes} {w : Watched} {argv : List Bytes}

lemma granted_iff : (StoreEvent.command argv).granted now w.db ↔ (exec now w.db (decode argv)).reply = .int 1 := by
  simp [StoreEvent.granted, StoreEvent.cmd]

lemma Turn.other (hkeys : (.array, k) ∉ (decode argv).keys) :
    Turn k w (now, .command argv) (w.step k (now, .command argv)) := by
  refine .lapse (.inl (exec_frame now w.db hkeys)) ?_ fun c hc hmem => ?_
  · have hsame : (decode argv).leases now k w.leases = w.leases := by
      cases hc : decode argv with
      | lock k' token n | renew k' token n | unlock k' token =>
        rw [hc] at hkeys
        have hne : k' ≠ k := fun heq => hkeys (by simp [Cmd.keys, heq])
        rw [Cmd.leases, if_neg hne]
      | control | owner | docset | docdel | docdrop | docexist | doccount | read | set | mset | mod | del | get | mget
      | exist | expire | setex | ttl | persist | unknown => rfl
    simp only [Watched.step, StoreEvent.cmd, hsame, ite_self]
  · cases hc
    exact absurd hmem hkeys

lemma Turn.refused (hreply : (exec now w.db (decode argv)).reply ≠ .int 1)
    (hexpires : Expires now w.db (exec now w.db (decode argv)).db) :
    Turn k w (now, .command argv) (w.step k (now, .command argv)) := by
  have hrefused : ¬ (StoreEvent.command argv).granted now w.db := fun h => hreply (granted_iff.mp h)
  refine .lapse (hexpires.lapses _) ?_ fun _ _ _ => hrefused
  simp only [Watched.step, StoreEvent.cmd, if_neg hrefused]

lemma Turn.granted {t : Db} (hran : Ran now w.db c wrote t) (hwrote : wrote = true)
    (hlocks : c.locks = true) (hkeys : (.array, k) ∈ c.keys) {ev : StoreEvent} (hcmd : ev.cmd = some c) {w' : Watched}
    (hdb : w'.db = t) (hleases : w'.leases = c.leases now k w.leases) : Turn k w (now, ev) w' := by
  have hlive (k : Bytes) : (tryExpire now w.db .array k).kv.lookup (.array, k) = w.db.liveKv now (.array, k) :=
    engineGet_tryExpire .array k
  cases hran with
  | lock token hn hnew hroom =>
    obtain rfl := (Prod.mk.inj (List.mem_singleton.mp hkeys)).2
    have hfull : (tryExpire now w.db .array k).full .array = false := by
      rwa [hasRoom, hnew, Bool.false_or, Bool.not_eq_true'] at hroom
    rw [Cmd.leases, if_pos rfl] at hleases
    refine .grant token _ hcmd hn hfull ((hlive k).symm.trans (lookup_of_not_live hnew)) ?_ ?_ hleases
    · rw [hdb]
      exact AList.lookup_insert _
    · rw [hdb]
      exact AList.lookup_insert _
  | unlock hget =>
    obtain rfl := (Prod.mk.inj (List.mem_singleton.mp hkeys)).2
    rw [Cmd.leases, if_pos rfl] at hleases
    refine .free _ hcmd ((hlive k).symm.trans hget) ?_ hleases
    rw [hdb]
    exact AList.lookup_erase ..
  | renew hn hget =>
    obtain rfl := (Prod.mk.inj (List.mem_singleton.mp hkeys)).2
    rw [Cmd.leases, if_pos rfl] at hleases
    refine .extend _ _ hcmd hn ((hlive k).symm.trans hget) ?_ ?_ hleases
    · rw [hdb]
      exact hget
    · rw [hdb]
      exact AList.lookup_insert _
  | lockLate | lockMiss | unlockMiss | renewLate | renewMiss => cases hwrote
  | _ => cases hlocks

lemma turn_step (w : Watched) (hev : w.proper k ev) : Turn k w ev (w.step k ev) := by
  obtain ⟨now, ev⟩ := ev
  cases ev with
  | cycle slots =>
    have hexpires : Expires now w.db (expireAll now w.db slots) := ⟨slots, rfl⟩
    exact .lapse (hexpires.lapses _) rfl fun _ hc => by cases hc
  | command argv =>
    by_cases hkeys : (.array, k) ∈ (decode argv).keys
    · have hlocks := hev.2 _ rfl hkeys
      have hran := exec_ran now w.db (decode argv)
      by_cases hwrote : (exec now w.db (decode argv)).wrote = true
      · refine .granted hran hwrote hlocks hkeys rfl rfl ?_
        simp only [Watched.step, StoreEvent.cmd, if_pos (granted_iff.mpr ((reply_eq_one hlocks).mpr hwrote))]
      · exact .refused (fun h => hwrote ((reply_eq_one hlocks).mp h))
          (hran.expires_of_locks hlocks (Bool.eq_false_iff.mpr hwrote))
    · exact .other hkeys

end Turn

/-! ### The store and the leases -/

/-- The token in the store has a lease, and a lease that runs has its token there. -/
structure Guards (x : Slot) (w : Watched) (now : ℤ) : Prop where
  past : ∀ token l, w.leases token = some l → 0 ≤ l.since ∧ l.since ≤ now ∧ 0 < l.length
  leased : ∀ token, w.db.kv.lookup x = some token →
    ∃ l, w.leases token = some l ∧ w.db.ttl.lookup x = some (wrap64 (l.since + l.length))
  stored : ∀ token l, w.leases token = some l → now < wrap64 (l.since + l.length) →
    w.db.kv.lookup x = some token ∧ w.db.ttl.lookup x = some (wrap64 (l.since + l.length))

namespace Guards

variable {x : Slot} {w w' : Watched} {now' : ℤ} {token : Bytes} {l : Lease}

lemma mono (h : Guards x w now) (hle : now ≤ now') : Guards x w now' where
  past token l hl := by
    obtain ⟨hpos, hsince, hlen⟩ := h.past token l hl
    exact ⟨hpos, hsince.trans hle, hlen⟩
  leased := h.leased
  stored token l hl hlive := h.stored token l hl (hle.trans_lt hlive)

lemma expired_iff {d : ℤ} (hd : w.db.ttl.lookup x = some d) : expireIsExpired now w.db x.1 x.2 = true ↔ d ≤ now := by
  unfold expireIsExpired
  rw [hd]
  exact decide_eq_true_iff

section

variable (h : Guards x w now)
include h

lemma live (hl : w.leases token = some l) (hlive : now < wrap64 (l.since + l.length)) :
    w.db.liveKv now x = some token := by
  obtain ⟨hkv, httl⟩ := h.stored token l hl hlive
  rw [Db.liveKv, if_neg fun hexp => absurd ((expired_iff httl).mp hexp) (by omega), hkv]

lemma lease_of_live (hlive : w.db.liveKv now x = some token) :
    ∃ l, w.leases token = some l ∧ now < wrap64 (l.since + l.length) := by
  unfold Db.liveKv at hlive
  split at hlive
  · cases hlive
  rename_i hexp
  obtain ⟨l, hl, httl⟩ := h.leased token hlive
  exact ⟨l, hl, lt_of_not_ge fun hle => hexp ((expired_iff httl).mpr hle)⟩

lemma holds_of_lt (hl : w.leases token = some l) (hlive : now < wrap64 (l.since + l.length)) :
    w.holds now token := by
  obtain ⟨hpos, -, hlen⟩ := h.past token l hl
  have hwrap := wrap64_le (show 0 ≤ l.since + l.length by omega)
  exact ⟨l, hl, by omega⟩

lemma lapse (hdb : Lapses now x w.db w'.db) (hleases : w'.leases = w.leases) : Guards x w' now := by
  rcases hdb with ⟨hkv, httl⟩ | ⟨hexp, hkv, httl⟩
  · constructor
    · rw [hleases]
      exact h.past
    · rw [hleases, hkv, httl]
      exact h.leased
    · rw [hleases, hkv, httl]
      exact h.stored
  · constructor
    · rw [hleases]
      exact h.past
    · intro token htoken
      rw [hkv] at htoken
      cases htoken
    · intro token l hl hlive
      rw [hleases] at hl
      have hle := (expired_iff (h.stored token l hl hlive).2).mp hexp
      omega

lemma grant (hnow : 0 ≤ now) (hn : 0 < n)
    (hother : ∀ token', w.db.liveKv now x = some token' → token' = token)
    (hkv : w'.db.kv.lookup x = some token) (httl : w'.db.ttl.lookup x = some (wrap64 (now + n)))
    (hleases : w'.leases = update w.leases token (some ⟨now, n⟩)) : Guards x w' now where
  past token' l hl := by
    rw [hleases, update_apply] at hl
    split at hl
    · cases hl
      exact ⟨hnow, le_refl now, hn⟩
    · exact h.past token' l hl
  leased token' htoken := by
    obtain rfl : token = token' := Option.some.inj (hkv.symm.trans htoken)
    exact ⟨⟨now, n⟩, by rw [hleases, update_self], httl⟩
  stored token' l hl hlive := by
    rw [hleases, update_apply] at hl
    split at hl
    · rename_i heq
      cases hl
      exact ⟨heq ▸ hkv, httl⟩
    · rename_i hne
      exact absurd (hother token' (h.live hl hlive)) hne

lemma free (hheld : w.db.liveKv now x = some token) (hkv : w'.db.kv.lookup x = none)
    (hleases : w'.leases = update w.leases token none) : Guards x w' now where
  past token' l hl := by
    rw [hleases, update_apply] at hl
    split at hl
    · cases hl
    · exact h.past token' l hl
  leased token' htoken := by
    rw [hkv] at htoken
    cases htoken
  stored token' l hl hlive := by
    rw [hleases, update_apply] at hl
    split at hl
    · cases hl
    · rename_i hne
      exact absurd (Option.some.inj ((h.live hl hlive).symm.trans hheld)) hne

end

lemma turn {k : Bytes} (h : Guards (.array, k) w ev.1) (hnow : 0 ≤ ev.1)
    (hturn : Turn k w ev w') : Guards (.array, k) w' ev.1 := by
  cases hturn with
  | lapse hdb hleases _ => exact h.lapse hdb hleases
  | grant token n _ hn _ hfree hkv httl hleases =>
    exact h.grant hnow hn (fun token' hlive => by rw [hfree] at hlive; cases hlive) hkv httl hleases
  | free token _ hheld hkv hleases => exact h.free hheld hkv hleases
  | extend token n _ hn hheld hkv httl hleases =>
    exact h.grant hnow hn (fun token' hlive => Option.some.inj (hlive.symm.trans hheld)) hkv httl hleases

end Guards

/-! ### The contract -/

/-- One token holds the lock, and only this one gives it back. -/
structure Contract (k : Bytes) (w : Watched) (ev : ℤ × StoreEvent) : Prop where
  single : ∀ u, ev.1 ≤ u → ∀ a b, (w.step k ev).holds u a → (w.step k ev).holds u b → a = b
  acquire : ∀ token n, ev.2.cmd = some (.lock k token n) → ev.2.granted ev.1 w.db → ∀ a, w.holds ev.1 a → a = token
  owner : ∀ token, ev.2.cmd = some (.unlock k token) ∨ (∃ n, ev.2.cmd = some (.renew k token n)) →
    ev.2.granted ev.1 w.db → w.holds ev.1 token

/-- A `LOCK` that could succeed finds every lease of another token that runs by the manual also running if its
length is taken as milliseconds, in a 64-bit sum. -/
def Prompt (k : Bytes) (w : Watched) (ev : ℤ × StoreEvent) : Prop :=
  ∀ token n, ev.2.cmd = some (.lock k token n) → 0 < n → (tryExpire ev.1 w.db .array k).full .array = false →
    ∀ a l, a ≠ token → w.leases a = some l → ev.1 < l.since + 1000 * l.length → ev.1 < wrap64 (l.since + l.length)

/-- At most one token holds the lock. -/
def Watched.Single (w : Watched) (now : ℤ) : Prop := ∀ a b, w.holds now a → w.holds now b → a = b

section Contract

variable {k token : Bytes} {w w' : Watched}

lemma Watched.holds.mono {now' : ℤ} (h : w.holds now' token) (hle : now ≤ now') : w.holds now token := by
  obtain ⟨l, hl, hlt⟩ := h
  exact ⟨l, hl, by omega⟩

lemma Watched.Single.mono {now' : ℤ} (h : w.Single now) (hle : now ≤ now') : w.Single now' := fun a b ha hb =>
  h a b (ha.mono hle) (hb.mono hle)

lemma holds_update {token a : Bytes} {l : Option Lease} (hleases : w'.leases = update w.leases token l)
    (hne : a ≠ token) : w'.holds now a ↔ w.holds now a := by
  simp only [Watched.holds, hleases, update_of_ne hne]

lemma prompt_of_free (h : Guards (.array, k) w ev.1) (hfree : w.db.liveKv ev.1 (.array, k) = none)
    (hcmd : ev.2.cmd = some (.lock k token n)) (hn : 0 < n) (hroom : (tryExpire ev.1 w.db .array k).full .array = false) :
    Prompt k w ev ↔ ∀ a, w.holds ev.1 a → a = token := by
  constructor
  · rintro hprompt a ⟨l, hl, hlt⟩
    by_contra hne
    have hlive := h.live hl (hprompt token n hcmd hn hroom a l hne hl hlt)
    rw [hfree] at hlive
    cases hlive
  · intro hall token' n' hcmd' _ _ a l hne hl hlt
    cases Option.some.inj (hcmd.symm.trans hcmd')
    exact absurd (hall a ⟨l, hl, hlt⟩) hne

lemma prompt_of_refused (h : Guards (.array, k) w ev.1) (hsingle : w.Single ev.1)
    (hrefused : ∀ c, ev.2.cmd = some c → (.array, k) ∈ c.keys → ¬ ev.2.granted ev.1 w.db) : Prompt k w ev := by
  intro token n hcmd hn hroom a l hne hl hlt
  have hdeny := hrefused _ hcmd (by simp [Cmd.keys])
  have hheld : (w.db.liveKv ev.1 (.array, k)).isSome = true := by
    by_contra hfree
    refine hdeny ?_
    rw [StoreEvent.granted, hcmd, Option.map_some, exec]
    rw [lockAcquire_eq, if_neg (by omega), if_neg hfree, if_neg (by simp [hroom])]
    rfl
  obtain ⟨b, hb⟩ := Option.isSome_iff_exists.mp hheld
  obtain ⟨lb, hlb, hrun⟩ := h.lease_of_live hb
  -- the token in the store holds the lock, and so it is the only one
  obtain rfl := hsingle a b ⟨l, hl, hlt⟩ (h.holds_of_lt hlb hrun)
  cases Option.some.inj (hl.symm.trans hlb)
  exact hrun

lemma prompt_of_ne (hcmd : ∀ token n, ev.2.cmd ≠ some (.lock k token n)) : Prompt k w ev := fun token n h =>
  absurd h (hcmd token n)

lemma single_update
    (hleases : w'.leases = update w.leases token (some ⟨now, n⟩)) (hall : ∀ a, w.holds now a → a = token) :
    w'.Single now := by
  have hown : ∀ a, w'.holds now a → a = token := fun a ha => by
    by_contra hne
    exact hne (hall a ((holds_update hleases hne).mp ha))
  exact fun a b ha hb => (hown a ha).trans (hown b hb).symm

lemma prompt_iff_contract (h : Guards (.array, k) w ev.1) (hsingle : w.Single ev.1) (hev : w.proper k ev) :
    Prompt k w ev ↔ Contract k w ev := by
  cases turn_step w hev with
  | lapse hdb hleases hrefused =>
    refine iff_of_true (prompt_of_refused h hsingle hrefused) ⟨fun u hu => ?_, fun token n hcmd hgranted => ?_, ?_⟩
    · have hsame : (w.step k ev).Single ev.1 := by
        simpa only [Watched.Single, Watched.holds, hleases] using hsingle
      exact hsame.mono hu
    · exact absurd hgranted (hrefused _ hcmd (by simp [Cmd.keys]))
    · rintro token (hcmd | ⟨n, hcmd⟩) hgranted
      · exact absurd hgranted (hrefused _ hcmd (by simp [Cmd.keys]))
      · exact absurd hgranted (hrefused _ hcmd (by simp [Cmd.keys]))
  | grant token n hcmd hn hroom hfree _ _ hleases =>
    rw [prompt_of_free h hfree hcmd hn hroom]
    constructor
    · intro hall
      refine ⟨fun u hu => (single_update hleases hall).mono hu, fun token' n' hcmd' _ a ha => ?_, ?_⟩
      · cases Option.some.inj (hcmd.symm.trans hcmd')
        exact hall a ha
      · rintro token' (hcmd' | ⟨n', hcmd'⟩)
        · cases hcmd.symm.trans hcmd'
        · cases hcmd.symm.trans hcmd'
    · intro hcontract a ha
      by_contra hne
      have htoken : (w.step k ev).holds ev.1 token :=
        ⟨⟨ev.1, n⟩, by rw [hleases, update_self], by simp only; omega⟩
      exact hne (hcontract.single ev.1 le_rfl a token ((holds_update hleases hne).mpr ha) htoken)
  | free token hcmd hheld _ hleases =>
    obtain ⟨l, hl, hlt⟩ := h.lease_of_live hheld
    refine iff_of_true (prompt_of_ne fun token' n' h' => by cases hcmd.symm.trans h') ⟨fun u hu => ?_, ?_, ?_⟩
    · have hback : ∀ a, (w.step k ev).holds ev.1 a → w.holds ev.1 a := fun a ha => by
        refine (holds_update hleases fun heq => ?_).mp ha
        obtain ⟨l', hl', -⟩ := ha
        rw [hleases, heq, update_self] at hl'
        cases hl'
      have hafter : (w.step k ev).Single ev.1 := fun a b ha hb => hsingle a b (hback a ha) (hback b hb)
      exact hafter.mono hu
    · intro token' n' hcmd'
      cases hcmd.symm.trans hcmd'
    · rintro token' (hcmd' | ⟨n', hcmd'⟩) _
      · cases Option.some.inj (hcmd.symm.trans hcmd')
        exact h.holds_of_lt hl hlt
      · cases hcmd.symm.trans hcmd'
  | extend token n hcmd hn hheld _ _ hleases =>
    obtain ⟨l, hl, hlt⟩ := h.lease_of_live hheld
    have hholds := h.holds_of_lt hl hlt
    refine iff_of_true (prompt_of_ne fun token' n' h' => by cases hcmd.symm.trans h') ⟨fun u hu => ?_, ?_, ?_⟩
    · exact (single_update hleases fun a ha => hsingle a token ha hholds).mono hu
    · intro token' n' hcmd'
      cases hcmd.symm.trans hcmd'
    · rintro token' (hcmd' | ⟨n', hcmd'⟩) _
      · cases hcmd.symm.trans hcmd'
      · cases Option.some.inj (hcmd.symm.trans hcmd')
        exact hholds

/-- The invariant. -/
structure Kept (k : Bytes) (w : Watched) : Prop where
  start : 0 ≤ w.now
  guards : Guards (.array, k) w w.now
  single : w.Single w.now

lemma kept_start (k : Bytes) : Kept k .start where
  start := le_rfl
  guards := by
    constructor
    · intro _ _ h
      cases h
    · intro _ h
      cases h
    · intro _ _ h
      cases h
  single _ _ := by
    rintro ⟨l, hl, -⟩
    cases hl

lemma Kept.step (h : Kept k w) (hev : w.proper k ev) (hcontract : Contract k w ev) : Kept k (w.step k ev) where
  start := h.start.trans hev.1
  guards := (h.guards.mono hev.1).turn (h.start.trans hev.1) (turn_step w hev)
  single := hcontract.single ev.1 le_rfl

/-- **The lock contract**: a history keeps the contract at all its events just if all `LOCK`s are prompt. -/
theorem lock_contract (k : Bytes) (evs : List (ℤ × StoreEvent))
    (hevs : GuardedRun (Watched.step k) (Watched.proper k) .start evs) :
    GuardedRun (Watched.step k) (Prompt k) .start evs ↔ GuardedRun (Watched.step k) (Contract k) .start evs := by
  have hiff : ∀ w ev, Kept k w → w.proper k ev → (Prompt k w ev ↔ Contract k w ev) := fun w ev hw hev =>
    prompt_iff_contract (hw.guards.mono hev.1) (hw.single.mono hev.1) hev
  exact GuardedRun.congr (fun w ev hw hev hprompt => hw.step hev ((hiff w ev hw hev).mp hprompt)) hiff (kept_start k) hevs

end Contract

/-- `LOCK l token 5`, at a time. -/
def lockAt (now : ℤ) (token : String) : ℤ × StoreEvent := (now, .command [str "LOCK", str "l", str token, str "5"])

lemma proper_lockAt (token : String) {w : Watched} (hw : w.now ≤ now) (h : (lockAt now token).2.cmd.map Cmd.locks = some true) :
    w.proper (str "l") (lockAt now token) :=
  ⟨hw, fun c hc _ => by rw [hc] at h; exact Option.some.inj h⟩

/-- A second client comes within the milliseconds. -/
theorem lock_contract_refused :
    GuardedRun (Watched.step (str "l")) (Contract (str "l")) .start [lockAt 0 "a", lockAt 3 "b"] := by
  have hproper : GuardedRun (Watched.step (str "l")) (Watched.proper (str "l")) .start [lockAt 0 "a", lockAt 3 "b"] :=
    ⟨proper_lockAt "a" le_rfl (by decide +kernel), proper_lockAt "b" (by decide) (by decide +kernel), trivial⟩
  have hfirst : Prompt (str "l") .start (lockAt 0 "a") := by
    intro token n _ _ _ a l _ hl
    cases hl
  refine (lock_contract (str "l") _ hproper).mp ⟨hfirst, ?_, trivial⟩
  intro token n _ _ _ a l _ hl hlt
  have hleases : (Watched.start.step (str "l") (lockAt 0 "a")).leases =
      update (fun _ => none) (str "a") (some ⟨0, 5⟩) := rfl
  rw [hleases, update_apply] at hl
  split at hl
  · cases hl
    decide
  · cases hl

/-- **Two clients hold the lock**: it is promised for five seconds, and given away again after one. -/
theorem lock_held_twice :
    GuardedRun (Watched.step (str "l")) (Watched.proper (str "l")) .start [lockAt 0 "a", lockAt 1000 "b"] ∧
      ¬ GuardedRun (Watched.step (str "l")) (Contract (str "l")) .start [lockAt 0 "a", lockAt 1000 "b"] := by
  refine ⟨⟨proper_lockAt "a" le_rfl (by decide +kernel), proper_lockAt "b" (by decide) (by decide +kernel), trivial⟩, ?_⟩
  rintro ⟨-, hcontract, -⟩
  have heq := hcontract.single 1000 le_rfl (str "a") (str "b") ⟨⟨0, 5⟩, by decide +kernel, by decide⟩
    ⟨⟨1000, 5⟩, by decide +kernel, by decide⟩
  exact absurd heq (by decide)

end PocketKv.Store
