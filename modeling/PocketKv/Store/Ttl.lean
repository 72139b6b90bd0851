import PocketKv.Store.Steps

/-!
# The deadline that a command sets
-/

namespace PocketKv.Store

open Resp

/-- The number that `atoll` looks for, without its bounds. -/
def numeral (bs : Bytes) : ℤ :=
  let (neg, v) := scanNumber bs
  if neg then -v else v

/-- `EXPIRE`, or `SETEX` with a value; `t` is the argument with the seconds. -/
def deadlineCmd (e : Engine) (k t : Bytes) : Option Bytes → Cmd
  | none => .expire e k (atoll t)
  | some v => .setex e k (atoll t) v

/-- What the command needs apart from its seconds. -/
def findsKey (now : ℤ) (s : Db) (e : Engine) (k : Bytes) : Option Bytes → Bool
  | none => live now s e k
  | some _ => hasRoom now s e k

/-- Seconds of 64 bits whose product is positive in 64 bits give a deadline in the future that 64 bits hold. -/
def Timely (now secs : ℤ) : Prop :=
  -2 ^ 63 ≤ secs ∧ secs < 2 ^ 63 ∧ 0 < 1000 * secs % 2 ^ 64 ∧ 1000 * secs % 2 ^ 64 < 2 ^ 63 →
    0 < secs ∧ now + 1000 * secs < 2 ^ 63

instance (now secs : ℤ) : Decidable (Timely now secs) := inferInstanceAs (Decidable (_ → _))

variable {now d : ℤ} {s : Db} {e : Engine} {k t : Bytes} {v : Option Bytes}

lemma atoll_cases (t : Bytes) : atoll t = numeral t ∧ -2 ^ 63 ≤ numeral t ∧ numeral t < 2 ^ 63 ∨
    2 ^ 63 ≤ numeral t ∧ atoll t = 2 ^ 63 - 1 ∨ numeral t < -2 ^ 63 ∧ atoll t = -2 ^ 63 := by
  unfold atoll numeral
  dsimp only
  split <;> omega

lemma wrap64_pos (x : ℤ) : 0 < wrap64 x ↔ 0 < x % 2 ^ 64 ∧ x % 2 ^ 64 < 2 ^ 63 := by
  have hmod : wrap64 x = if x % 2 ^ 64 < 2 ^ 63 then x % 2 ^ 64 else x % 2 ^ 64 - 2 ^ 64 := Int.bmod_def x _
  rw [hmod]
  split <;> omega

lemma wrap64_atoll_pos (t : Bytes) : 0 < wrap64 (atoll t * 1000) ↔
    -2 ^ 63 ≤ numeral t ∧ numeral t < 2 ^ 63 ∧ 0 < 1000 * numeral t % 2 ^ 64 ∧ 1000 * numeral t % 2 ^ 64 < 2 ^ 63 := by
  rcases atoll_cases t with ⟨heq, hlo, hhi⟩ | ⟨hout, heq⟩ | ⟨hout, heq⟩
  · rw [heq, wrap64_pos, mul_comm]
    exact ⟨fun h => ⟨hlo, hhi, h⟩, fun h => h.2.2⟩
  · rw [heq]
    exact iff_of_false (by decide) fun h => by omega
  · rw [heq]
    exact iff_of_false (by decide) fun h => by omega

lemma exec_deadlineCmd (hfinds : findsKey now s e k v = true) (hpos : 0 < wrap64 (atoll t * 1000)) :
    ∃ s', engineExist s' e k = true ∧
      exec now s (deadlineCmd e k t v) = ⟨s'.stamp e k (wrap64 (now + wrap64 (atoll t * 1000))), .ok, true⟩ := by
  cases v with
  | none =>
    have hexist := engineExist_tryExpire.trans hfinds
    refine ⟨tryExpire now s e k, hexist, ?_⟩
    simp [deadlineCmd, exec, hexist, expireSet_of_pos hpos, settle]
  | some v =>
    refine ⟨(tryExpire now s e k).put e k v, by simp [engineExist, Db.put], ?_⟩
    simp only [deadlineCmd, exec, engineSet_eq_put (hasRoom_iff.mp hfinds), expiring, expireSet_of_pos hpos, settle]

lemma wrote_deadlineCmd : (exec now s (deadlineCmd e k t v)).wrote = true ↔
    findsKey now s e k v = true ∧ 0 < wrap64 (atoll t * 1000) := by
  cases v with
  | none => rw [deadlineCmd, exec_wrote_iff rfl, Cmd.succeeds, Bool.and_eq_true, decide_eq_true_eq, findsKey]
  | some v => rw [deadlineCmd, exec_wrote_iff rfl, Cmd.succeeds, Bool.and_eq_true, decide_eq_true_eq, findsKey]

lemma exec_ttl_stamp (hexist : engineExist s e k = true) (hd : now < d) :
    (exec now (s.stamp e k d) (.ttl e k)).reply = .int ((d - now + 999) / 1000) := by
  have hlookup : (s.stamp e k d).ttl.lookup (e, k) = some d := AList.lookup_insert _
  have hsame : engineExist (s.stamp e k d) e k = true := hexist
  have hlive : live now (s.stamp e k d) e k = true := by simp [live, hsame, expireIsExpired, hlookup, hd]
  simp [exec, tryExpire_of_live hlive, hsame, expireTtl, hlookup, if_neg (not_le.mpr hd)]

/-- **The deadline is exact** just if the seconds are timely or the command has no key to work on: if it succeeds the
deadline is the clock plus 1000 times the seconds, `TTL` reports the seconds, and a deadline that 64 bits do not hold
or that is not in the future is refused. -/
theorem deadline_exact_iff (hnow : -2 ^ 63 ≤ now ∧ now < 2 ^ 63) (s : Db) (e : Engine) (k t : Bytes) (v : Option Bytes) :
    (((exec now s (deadlineCmd e k t v)).wrote = true →
        (exec now s (deadlineCmd e k t v)).db.ttl.lookup (e, k) = some (now + 1000 * numeral t) ∧
        (exec now (exec now s (deadlineCmd e k t v)).db (.ttl e k)).reply = .int (numeral t)) ∧
      (¬ (now < now + 1000 * numeral t ∧ now + 1000 * numeral t < 2 ^ 63) →
        (exec now s (deadlineCmd e k t v)).wrote = false)) ↔
      (findsKey now s e k v = true → Timely now (numeral t)) := by
  constructor
  · rintro ⟨-, hrefused⟩ hfinds hsecs
    by_contra hlate
    have hwrote := wrote_deadlineCmd.mpr ⟨hfinds, (wrap64_atoll_pos t).mpr hsecs⟩
    rw [hrefused (by omega)] at hwrote
    cases hwrote
  · intro htimely
    have hgood (hwrote : (exec now s (deadlineCmd e k t v)).wrote = true) :
        0 < numeral t ∧ now + 1000 * numeral t < 2 ^ 63 :=
      have ⟨hfinds, hpos⟩ := wrote_deadlineCmd.mp hwrote
      htimely hfinds ((wrap64_atoll_pos t).mp hpos)
    refine ⟨fun hwrote => ?_, fun hlate => ?_⟩
    · obtain ⟨hsecs, hfits⟩ := hgood hwrote
      obtain ⟨hfinds, hpos⟩ := wrote_deadlineCmd.mp hwrote
      obtain ⟨s', hexist, hexec⟩ := exec_deadlineCmd (t := t) hfinds hpos
      have hexact : wrap64 (now + wrap64 (atoll t * 1000)) = now + 1000 * numeral t := by
        have hsame : atoll t = numeral t := by
          have := atoll_cases t
          have := (wrap64_atoll_pos t).mp hpos
          omega
        rw [wrap64, wrap64, Int.add_bmod_bmod, hsame, mul_comm]
        exact Int.bmod_eq_of_le_mul_two (by omega) (by omega)
      rw [hexec, hexact]
      refine ⟨by simp [Db.stamp], (exec_ttl_stamp hexist (by omega)).trans ?_⟩
      congr 1
      omega
    · by_contra hwrote
      have := hgood (by simpa using hwrote)
      omega

/-- The data with one key. -/
def oneHashKey : Db := ⟨AList.singleton (.hash, str "k") (str "v"), ∅, ∅⟩

theorem deadline_exact_ten :
    (exec 1000 oneHashKey (deadlineCmd .hash (str "k") (str "10") none)).wrote = true ∧
      (exec 1000 oneHashKey (deadlineCmd .hash (str "k") (str "10") none)).db.ttl.lookup (.hash, str "k") = some 11000 := by
  have hnow : -2 ^ 63 ≤ (1000 : ℤ) ∧ (1000 : ℤ) < 2 ^ 63 := by decide
  have hexact := ((deadline_exact_iff hnow oneHashKey .hash (str "k") (str "10") none).mpr fun _ => by decide).1 (by decide)
  exact ⟨by decide, hexact.1⟩

/-- 18446744073709552 seconds are taken for 384 milliseconds. -/
theorem deadline_wraps :
    (exec 1000 oneHashKey (deadlineCmd .hash (str "k") (str "18446744073709552") none)).wrote = true ∧
      (exec 1000 oneHashKey (deadlineCmd .hash (str "k") (str "18446744073709552") none)).db.ttl.lookup (.hash, str "k") =
        some 1384 := by
  decide

end PocketKv.Store
