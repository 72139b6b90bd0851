import Mathlib.Tactic

/-!
# Incremental scanners
-/

namespace PocketKv.Library

open List

/-- What a scanner decides on its input. -/
inductive Verdict (ε : Type*) where
  /-- There is not enough of it. -/
  | more
  /-- The first `n` items are taken, with the events `es`. -/
  | take (n : ℕ) (es : List ε)
  deriving DecidableEq

/-- `f` turns an event, and the items that were taken with it, into new events. -/
def Verdict.emit {α ε ε' : Type*} (f : List α → ε → List ε') (xs : List α) : Verdict ε → Verdict ε'
  | .more => .more
  | .take n es => .take n (es.flatMap (f (xs.take n)))

lemma Verdict.emit_emit {α ε ε' ζ : Type*} (f : List α → ε → List ε') (g : ε' → List ζ)
    (xs : List α) (v : Verdict ε) :
    (v.emit f xs).emit (fun _ => g) xs = v.emit (fun ys e => (f ys e).flatMap g) xs := by
  cases v <;> simp [Verdict.emit, flatMap_assoc]

/-- `step` decides on the input, `keep` is what a call keeps of the rest. -/
structure Scanner (α ε : Type*) where
  step : List α → Verdict ε
  keep : List α → List α

/-- Decisions are not revised when input is appended, and each takes at least one item. -/
structure Stable {α ε : Type*} (step : List α → Verdict ε) : Prop where
  pos {xs : List α} {n : ℕ} {es : List ε} : step xs = .take n es → 0 < n
  le {xs : List α} {n : ℕ} {es : List ε} : step xs = .take n es → n ≤ xs.length
  append {xs : List α} {n : ℕ} {es : List ε} (ys : List α) : step xs = .take n es → step (xs ++ ys) = .take n es

lemma Stable.emit {α ε ε' : Type*} {step : List α → Verdict ε} (hs : Stable step)
    (f : List α → ε → List ε') : Stable fun xs => (step xs).emit f xs := by
  have key {xs : List α} {n : ℕ} {es : List ε'} (h : (step xs).emit f xs = .take n es) :
      ∃ es', step xs = .take n es' ∧ es'.flatMap (f (xs.take n)) = es := by
    cases hv : step xs with
    | more => simp [hv, Verdict.emit] at h
    | take m es' =>
      simp only [hv, Verdict.emit, Verdict.take.injEq] at h
      obtain ⟨rfl, rfl⟩ := h
      exact ⟨es', rfl, rfl⟩
  refine ⟨fun h => ?_, fun h => ?_, fun {xs n es} ys h => ?_⟩
  · obtain ⟨_, hv, _⟩ := key h
    exact hs.pos hv
  · obtain ⟨_, hv, _⟩ := key h
    exact hs.le hv
  · obtain ⟨es', hv, rfl⟩ := key h
    simp [hs.append ys hv, Verdict.emit, take_append_of_le_length (hs.le hv)]

namespace Scanner

variable {α ε : Type*}

/-- The loop of a call: at most `fuel` decisions, each with the input it was made on and its events, and the
undecided rest. -/
def loop (step : List α → Verdict ε) : ℕ → List α → List (List α × List ε) × List α
  | 0, xs => ([], xs)
  | _ + 1, [] => ([], [])
  | fuel + 1, x :: xs =>
    match step (x :: xs) with
    | .more => ([], x :: xs)
    | .take n es =>
      let r := loop step fuel ((x :: xs).drop n)
      ((x :: xs, es) :: r.1, r.2)

/-- All decisions on `xs`. The length of the input is fuel enough. -/
def decisions (S : Scanner α ε) (xs : List α) : List (List α × List ε) × List α :=
  loop S.step xs.length xs

/-- The events of all decisions on `xs`, and the undecided rest. -/
def run (S : Scanner α ε) (xs : List α) : List ε × List α :=
  ((S.decisions xs).1.flatMap (·.2), (S.decisions xs).2)

/-- One call: what it does, and what it leaves for the next one. -/
def call (S : Scanner α ε) (xs : List α) : List ε × List α :=
  ((S.run xs).1, S.keep (S.run xs).2)

/-- The positions at which a run over `xs` asks for a decision, each with all the input that follows. -/
def visited (S : Scanner α ε) (xs : List α) : List (List α) :=
  (S.decisions xs).1.map (·.1) ++ if (S.decisions xs).2 = [] then [] else [(S.decisions xs).2]

/-- A call for each chunk, on what the last call left and the chunk. -/
def feed (S : Scanner α ε) : List α → List (List α) → List ε × List α
  | left, [] => ([], left)
  | left, c :: cs =>
    let r := S.call (left ++ c)
    let t := feed S r.2 cs
    (r.1 ++ t.1, t.2)

/-! ### Runs -/

lemma loop_fuel {step : List α → Verdict ε} (hs : Stable step) :
    ∀ {f g : ℕ} {xs : List α}, xs.length ≤ f → xs.length ≤ g → loop step f xs = loop step g xs := by
  intro f
  induction f with
  | zero =>
    intro g xs hf _
    obtain rfl : xs = [] := length_eq_zero_iff.mp (by omega)
    cases g <;> rfl
  | succ f ih =>
    intro g xs hf hg
    cases xs with
    | nil => cases g <;> rfl
    | cons x xs =>
      obtain ⟨g, rfl⟩ : ∃ g', g = g' + 1 := ⟨g - 1, by simp at hg; omega⟩
      simp only [loop]
      cases hv : step (x :: xs) with
      | more => rfl
      | take n es =>
        have hn := hs.pos hv
        have hl : ((x :: xs).drop n).length ≤ xs.length := by simp; omega
        have hf' : xs.length ≤ f := by simpa using hf
        have hg' : xs.length ≤ g := by simpa using hg
        simp only [ih (Nat.le_trans hl hf') (Nat.le_trans hl hg')]

variable {S : Scanner α ε} {items : List (List α × List ε)} {xs ys : List α} {n : ℕ} {es : List ε}

lemma feed_cons (left c : List α) (cs : List (List α)) :
    S.feed left (c :: cs) = ((S.call (left ++ c)).1 ++ (S.feed (S.call (left ++ c)).2 cs).1,
      (S.feed (S.call (left ++ c)).2 cs).2) := rfl

lemma decisions_of_more (h : S.step xs = .more) : S.decisions xs = ([], xs) := by
  cases xs with
  | nil => rfl
  | cons x xs => simp [decisions, loop, h]

lemma run_of_more (h : S.step xs = .more) : S.run xs = ([], xs) := by
  rw [run, decisions_of_more h]
  rfl

lemma visited_of_more (h : S.step xs = .more) : S.visited xs ⊆ [xs] := by
  rw [visited, decisions_of_more h]
  split <;> simp

section

variable (hs : Stable S.step)
include hs

lemma decisions_of_take (h : S.step xs = .take n es) :
    S.decisions xs = ((xs, es) :: (S.decisions (xs.drop n)).1, (S.decisions (xs.drop n)).2) := by
  have hn := hs.pos h
  cases xs with
  | nil => exact absurd (hs.le h) (by simp; omega)
  | cons x xs =>
    have hl : ((x :: xs).drop n).length ≤ xs.length := by simp; omega
    simp only [decisions, length_cons, loop, h]
    rw [loop_fuel hs hl (Nat.le_refl _)]

lemma run_of_take (h : S.step xs = .take n es) :
    S.run xs = (es ++ (S.run (xs.drop n)).1, (S.run (xs.drop n)).2) := by
  rw [run, decisions_of_take hs h]
  rfl

lemma visited_of_take (h : S.step xs = .take n es) : S.visited xs = xs :: S.visited (xs.drop n) := by
  rw [visited, decisions_of_take hs h]
  rfl

lemma mem_visited_self (h : xs ≠ []) : xs ∈ S.visited xs := by
  cases hv : S.step xs with
  | more => simp [visited, decisions_of_more hv, h]
  | take n es => simp [visited_of_take hs hv]

/-- **Induction along a run**: from a decision to the input that is left after it. -/
lemma induct {motive : List α → Prop} (more : ∀ {xs}, S.step xs = .more → motive xs)
    (take : ∀ {xs n es}, S.step xs = .take n es → motive (xs.drop n) → motive xs) (xs : List α) : motive xs := by
  induction h : xs.length using Nat.strongRecOn generalizing xs with
  | ind m ih =>
    cases hv : S.step xs with
    | more => exact more hv
    | take n es =>
      have hn := hs.pos hv
      have hle := hs.le hv
      exact take hv (ih (xs.drop n).length (by simp; omega) _ rfl)

lemma run_append (xs ys : List α) :
    S.run (xs ++ ys) =
      ((S.run xs).1 ++ (S.run ((S.run xs).2 ++ ys)).1, (S.run ((S.run xs).2 ++ ys)).2) := by
  -- Each decision on the first part stands on the whole.
  induction xs using induct hs with
  | more hv => simp [run_of_more hv]
  | take hv ih =>
    rw [run_of_take hs (hs.append ys hv), run_of_take hs hv, drop_append_of_le_length (hs.le hv), ih]
    simp

lemma run_rest (xs : List α) : S.run (S.run xs).2 = ([], (S.run xs).2) := by
  induction xs using induct hs with
  | more hv => simp only [run_of_more hv]
  | take hv ih => rwa [run_of_take hs hv]

lemma run_of_visited (h : ys ∈ S.visited xs) :
    ys <:+ xs ∧ ∃ es, S.run xs = (es ++ (S.run ys).1, (S.run ys).2) := by
  induction xs using induct hs with
  | more hv =>
    obtain rfl := mem_singleton.mp (visited_of_more hv h)
    exact ⟨suffix_rfl, [], rfl⟩
  | @take xs n es hv ih =>
    rw [visited_of_take hs hv, mem_cons] at h
    rcases h with rfl | h
    · exact ⟨suffix_rfl, [], rfl⟩
    · obtain ⟨hsuffix, es', hrun⟩ := ih h
      refine ⟨hsuffix.trans (drop_suffix n xs), es ++ es', ?_⟩
      rw [run_of_take hs hv, hrun, append_assoc]

lemma run_forall {p : ε → Prop} (h : ∀ {xs n es}, S.step xs = .take n es → ∀ e ∈ es, p e) (xs : List α) :
    ∀ e ∈ (S.run xs).1, p e := by
  induction xs using induct hs with
  | more hv => simp [run_of_more hv]
  | take hv ih =>
    rw [run_of_take hs hv]
    exact forall_mem_append.mpr ⟨h hv, ih⟩

lemma run_congr {ε' ζ : Type*} {T : Scanner α ε'} (ht : Stable T.step) {f : ε → List ζ} {g : ε' → List ζ}
    (h : ∀ ys ∈ S.visited xs, (S.step ys).emit (fun _ => f) ys = (T.step ys).emit (fun _ => g) ys) :
    (S.run xs).1.flatMap f = (T.run xs).1.flatMap g ∧ (S.run xs).2 = (T.run xs).2 := by
  induction xs using induct hs with
  | @more xs hv =>
    by_cases hnil : xs = []
    · subst hnil
      exact ⟨rfl, rfl⟩
    have hx := h xs (mem_visited_self hs hnil)
    cases hw : T.step xs with
    | more => simp [run_of_more hv, run_of_more hw]
    | take n es => simp [hv, hw, Verdict.emit] at hx
  | @take xs n es hv ih =>
    rw [visited_of_take hs hv, forall_mem_cons] at h
    obtain ⟨hx, hrest⟩ := h
    cases hw : T.step xs with
    | more => simp [hv, hw, Verdict.emit] at hx
    | take m es' =>
      simp only [hv, hw, Verdict.emit, Verdict.take.injEq] at hx
      obtain ⟨rfl, hes⟩ := hx
      obtain ⟨h1, h2⟩ := ih hrest
      simp [run_of_take hs hv, run_of_take ht hw, hes, h1, h2]

variable (h : ∀ x ∈ items, S.step x.1 = .take x.1.length x.2)
include h

lemma run_flatten : S.run (items.map (·.1)).flatten = (items.flatMap (·.2), []) := by
  induction items with
  | nil => rfl
  | cons x items ih =>
    have hx := hs.append (items.map (·.1)).flatten (h x (.head _))
    rw [map_cons, flatten_cons, run_of_take hs hx, drop_left, ih fun y hy => h y (.tail _ hy)]
    rfl

lemma run_rest_of_prefix {p : List α} (hp : p <+: (items.map (·.1)).flatten) :
    (S.run p).2 = [] ∨ ∃ x ∈ items, (S.run p).2 <+: x.1 := by
  induction items generalizing p with
  | nil =>
    rw [prefix_nil.mp hp]
    exact .inl rfl
  | cons x items ih =>
    have hx := h x (.head _)
    rw [map_cons, flatten_cons] at hp
    rcases prefix_or_prefix_of_prefix hp (prefix_append _ _) with hpx | ⟨q, rfl⟩
    · -- The input ends within the piece: all of it is decided, or nothing.
      cases hv : S.step p with
      | more =>
        rw [run_of_more hv]
        exact .inr ⟨x, .head _, hpx⟩
      | take n es =>
        obtain ⟨q, hq⟩ := hpx
        have hx' := hs.append q hv
        rw [hq, hx] at hx'
        have hn : n = x.1.length := by
          injection hx' with hn _
          exact hn.symm
        rw [run_of_take hs hv, drop_of_length_le (by rw [hn, ← hq]; simp)]
        exact .inl rfl
    · have hx' := hs.append q hx
      rw [run_of_take hs hx', drop_left]
      rcases ih (fun y hy => h y (.tail _ hy)) ((prefix_append_right_inj _).mp hp) with hnil | ⟨y, hy, hpre⟩
      · exact .inl hnil
      · exact .inr ⟨y, .tail _ hy, hpre⟩

end

lemma feed_eq_call (hs : Stable S.step) (left : List α) {cs : List (List α)} (hne : cs ≠ [])
    (hk : ∀ i, 0 < i → i < cs.length →
      S.keep (S.run (left ++ (cs.take i).flatten)).2 = (S.run (left ++ (cs.take i).flatten)).2) :
    S.feed left cs = S.call (left ++ cs.flatten) := by
  induction cs generalizing left with
  | nil => exact absurd rfl hne
  | cons c cs ih =>
    rcases cs with _ | ⟨d, ds⟩
    · simp [feed]
    · -- The first call keeps all it could not decide, so the others continue its run.
      have hkeep : S.keep (S.run (left ++ c)).2 = (S.run (left ++ c)).2 := by
        simpa using hk 1 (by simp) (by simp)
      have happ (zs : List α) := run_append hs (left ++ c) zs
      have hrec : S.feed (S.run (left ++ c)).2 (d :: ds) =
          S.call ((S.run (left ++ c)).2 ++ (d :: ds).flatten) := by
        refine ih _ (by simp) fun i _ hi => ?_
        have h := hk (i + 1) (by simp) (by simpa using hi)
        have hr : (S.run (left ++ ((c :: d :: ds).take (i + 1)).flatten)).2 =
            (S.run ((S.run (left ++ c)).2 ++ ((d :: ds).take i).flatten)).2 := by
          rw [take_succ_cons, flatten_cons, ← append_assoc, happ]
        rwa [hr] at h
      have hcall : S.call (left ++ c) = S.run (left ++ c) := by simp [call, hkeep]
      have hfl : left ++ (c :: d :: ds).flatten = left ++ c ++ (d :: ds).flatten := by simp
      rw [feed_cons, hcall, hrec, hfl]
      simp only [call, happ]

end Scanner

end PocketKv.Library
