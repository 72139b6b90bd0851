import Mathlib.Tactic

/-!
# Guarded runs
-/

namespace PocketKv.Library

variable {σ ι : Type*}

/-- Every input meets `guard` in the state before its step. -/
def GuardedRun (step : σ → ι → σ) (guard : σ → ι → Prop) : σ → List ι → Prop
  | _, [] => True
  | s, i :: is => guard s i ∧ GuardedRun step guard (step s i) is

variable {step : σ → ι → σ} {guard : σ → ι → Prop} {is js : List ι} {s : σ}

instance GuardedRun.decidable [∀ s i, Decidable (guard s i)] :
    ∀ (s : σ) (is : List ι), Decidable (GuardedRun step guard s is)
  | _, [] => .isTrue trivial
  | s, i :: is =>
    have := GuardedRun.decidable (step s i) is
    inferInstanceAs (Decidable (guard s i ∧ GuardedRun step guard (step s i) is))

lemma GuardedRun.mono {guard' : σ → ι → Prop} (h : ∀ s i, guard s i → guard' s i)
    (hrun : GuardedRun step guard s is) : GuardedRun step guard' s is := by
  induction is generalizing s with
  | nil => trivial
  | cons i is ih => exact ⟨h s i hrun.1, ih hrun.2⟩

lemma GuardedRun.append (hi : GuardedRun step guard s is)
    (hj : GuardedRun step guard (is.foldl step s) js) : GuardedRun step guard s (is ++ js) := by
  induction is generalizing s with
  | nil => exact hj
  | cons i is ih => exact ⟨hi.1, ih hi.2 hj⟩

lemma GuardedRun.of_prefix (hjs : js <+: is) (hi : GuardedRun step guard s is) : GuardedRun step guard s js := by
  induction js generalizing s is with
  | nil => trivial
  | cons j js ih =>
    obtain ⟨ks, rfl⟩ := hjs
    exact ⟨hi.1, ih ⟨ks, rfl⟩ hi.2⟩

lemma GuardedRun.last {i : ι} (h : GuardedRun step guard s (is ++ [i])) : guard (is.foldl step s) i := by
  induction is generalizing s with
  | nil => exact h.1
  | cons j is ih => exact ih h.2

lemma GuardedRun.of_forall (h : ∀ s i, guard s i) (s : σ) (is : List ι) : GuardedRun step guard s is := by
  induction is generalizing s with
  | nil => trivial
  | cons i is ih => exact ⟨h s i, ih _⟩

lemma GuardedRun.const_iff {p : ι → Prop} : GuardedRun step (fun _ i => p i) s is ↔ ∀ i ∈ is, p i := by
  induction is generalizing s with
  | nil => exact iff_of_true trivial (List.forall_mem_nil p)
  | cons i is ih => exact (and_congr_right fun _ => ih).trans (List.forall_mem_cons).symm

lemma GuardedRun.invariant {Inv : σ → Prop} (hstep : ∀ s i, Inv s → guard s i → Inv (step s i))
    (hs : Inv s) (hrun : GuardedRun step guard s is) :
    Inv (is.foldl step s) := by
  induction is generalizing s with
  | nil => exact hs
  | cons i is ih => exact ih (hstep s i hs hrun.1) hrun.2

lemma GuardedRun.iff_forall_prefix {proper : σ → ι → Prop} {K Inv : σ → Prop}
    (hkeep : ∀ s i, K s → proper s i → K (step s i))
    (hstep : ∀ s i, K s → proper s i → Inv s → (guard s i ↔ Inv (step s i)))
    (hk : K s) (hs : Inv s) (hproper : GuardedRun step proper s is) :
    GuardedRun step guard s is ↔ ∀ js, js <+: is → Inv (js.foldl step s) := by
  induction is generalizing s with
  | nil =>
    refine ⟨fun _ js hjs => ?_, fun _ => trivial⟩
    rw [List.prefix_nil.mp hjs]
    exact hs
  | cons i is ih =>
    have hnext := hstep s i hk hproper.1 hs
    have hk' := hkeep s i hk hproper.1
    constructor
    · rintro ⟨hguard, hrest⟩ js hjs
      rcases List.prefix_cons_iff.mp hjs with rfl | ⟨js', rfl, hjs'⟩
      · exact hs
      · exact (ih hk' (hnext.mp hguard) hproper.2).mp hrest js' hjs'
    · intro hall
      have hinv : Inv (step s i) := hall [i] (by simp)
      refine ⟨hnext.mpr hinv, (ih hk' hinv hproper.2).mpr fun js hjs => ?_⟩
      exact hall (i :: js) (List.cons_prefix_cons.mpr ⟨rfl, hjs⟩)

lemma GuardedRun.congr {proper guard' : σ → ι → Prop} {K : σ → Prop}
    (hkeep : ∀ s i, K s → proper s i → guard s i → K (step s i))
    (hiff : ∀ s i, K s → proper s i → (guard s i ↔ guard' s i))
    (hk : K s) (hproper : GuardedRun step proper s is) :
    GuardedRun step guard s is ↔ GuardedRun step guard' s is := by
  induction is generalizing s with
  | nil => exact Iff.rfl
  | cons i is ih =>
    have hhead := hiff s i hk hproper.1
    constructor
    · rintro ⟨hguard, hrest⟩
      exact ⟨hhead.mp hguard, (ih (hkeep s i hk hproper.1 hguard) hproper.2).mp hrest⟩
    · rintro ⟨hguard', hrest⟩
      have hguard := hhead.mpr hguard'
      exact ⟨hguard, (ih (hkeep s i hk hproper.1 hguard) hproper.2).mpr hrest⟩

section Answers

variable {τ ρ : Type*}

/-- The answers of a run. -/
def answers (call : σ → ι → ρ × σ) : σ → List ι → List ρ
  | _, [] => []
  | s, i :: is => (call s i).1 :: answers call (call s i).2 is

lemma answers_eq {call : σ → ι → ρ × σ} {call' : τ → ι → ρ × τ} {R : σ → τ → Prop}
    (hstep : ∀ s t i, R s t → guard s i → (call s i).1 = (call' t i).1 ∧ R (call s i).2 (call' t i).2)
    {t : τ} (hR : R s t) (hrun : GuardedRun (fun s i => (call s i).2) guard s is) :
    answers call s is = answers call' t is ∧
      R (is.foldl (fun s i => (call s i).2) s) (is.foldl (fun t i => (call' t i).2) t) := by
  induction is generalizing s t with
  | nil => exact ⟨rfl, hR⟩
  | cons i is ih =>
    obtain ⟨hanswer, hnext⟩ := hstep s t i hR hrun.1
    obtain ⟨hanswers, hend⟩ := ih hnext hrun.2
    exact ⟨congrArg₂ List.cons hanswer hanswers, hend⟩

end Answers

end PocketKv.Library
