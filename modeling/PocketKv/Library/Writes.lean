import Mathlib.Tactic

/-!
# Memories and writes
-/

namespace PocketKv.Library

open Function

variable {κ ν : Type*} [DecidableEq κ]

variable {ws : List (κ × ν)} {c : κ} {m : κ → Option ν}

/-- The writes one after the other. -/
def applyWrites (m : κ → Option ν) (ws : List (κ × ν)) : κ → Option ν :=
  ws.foldl (fun m w => Function.update m w.1 (some w.2)) m

@[simp] lemma applyWrites_nil (m : κ → Option ν) : applyWrites m [] = m := rfl

lemma applyWrites_cons (m : κ → Option ν) (w : κ × ν) (ws : List (κ × ν)) :
    applyWrites m (w :: ws) = applyWrites (Function.update m w.1 (some w.2)) ws := rfl

lemma applyWrites_append (m : κ → Option ν) (ws vs : List (κ × ν)) :
    applyWrites m (ws ++ vs) = applyWrites (applyWrites m ws) vs :=
  List.foldl_append

lemma applyWrites_of_notMem (h : c ∉ ws.map Prod.fst) (m : κ → Option ν) : applyWrites m ws c = m c := by
  induction ws generalizing m with
  | nil => rfl
  | cons w ws ih =>
    rw [List.map_cons, List.mem_cons, not_or] at h
    rw [applyWrites_cons, ih h.2, update_of_ne h.1]

lemma applyWrites_of_mem (h : c ∈ ws.map Prod.fst) (m m' : κ → Option ν) :
    applyWrites m ws c = applyWrites m' ws c := by
  induction ws generalizing m m' with
  | nil => simp at h
  | cons w ws ih =>
    rw [applyWrites_cons, applyWrites_cons]
    by_cases hc : c ∈ ws.map Prod.fst
    · exact ih hc _ _
    · have hw : c = w.1 := by
        rw [List.map_cons, List.mem_cons] at h
        exact h.resolve_right hc
      rw [applyWrites_of_notMem hc, applyWrites_of_notMem hc, hw, update_self, update_self]

lemma applyWrites_ne_none (h : m c ≠ none) (ws : List (κ × ν)) : applyWrites m ws c ≠ none := by
  induction ws generalizing m with
  | nil => exact h
  | cons w ws ih =>
    rw [applyWrites_cons]
    refine ih ?_
    rw [update_apply]
    split
    · exact Option.some_ne_none _
    · exact h

lemma applyWrites_ne_none_of_mem (h : c ∈ ws.map Prod.fst) (m : κ → Option ν) : applyWrites m ws c ≠ none := by
  obtain ⟨w, hw, rfl⟩ := List.mem_map.mp h
  obtain ⟨us, vs, rfl⟩ := List.append_of_mem hw
  rw [applyWrites_append, applyWrites_cons]
  refine applyWrites_ne_none ?_ vs
  rw [update_self]
  exact Option.some_ne_none _

lemma applyWrites_eq
    (h : ∀ c, m c = none ∨ c ∈ ws.map Prod.fst) : applyWrites m ws = applyWrites (fun _ => none) ws := by
  funext c
  by_cases hc : c ∈ ws.map Prod.fst
  · exact applyWrites_of_mem hc _ _
  · rw [applyWrites_of_notMem hc, applyWrites_of_notMem hc]
    exact (h c).resolve_right hc

lemma mem_of_applyWrites (h : applyWrites (fun _ => none) ws c ≠ none) : c ∈ ws.map Prod.fst := by
  by_contra hc
  exact h (applyWrites_of_notMem hc _)

lemma mem_of_applyWrites_eq {v : ν} (h : applyWrites (fun _ => none) ws c = some v) : (c, v) ∈ ws := by
  induction ws using List.reverseRecOn with
  | nil => cases h
  | append_singleton ws w ih =>
    rw [applyWrites_append, applyWrites_cons, applyWrites_nil, update_apply] at h
    split at h
    · rename_i hw
      obtain rfl := Option.some.inj h
      simp [hw]
    · exact List.mem_append_left _ (ih h)

lemma applyWrites_cell {o : Option ν} (h : ∀ v, (c, v) ∈ ws → o = some v)
    (hcover : o ≠ none → c ∈ ws.map Prod.fst) : applyWrites (fun _ => none) ws c = o := by
  cases hc : applyWrites (fun _ => none) ws c with
  | some v => exact (h v (mem_of_applyWrites_eq hc)).symm
  | none =>
    by_contra ho
    exact applyWrites_ne_none_of_mem (hcover (Ne.symm ho)) _ hc

end PocketKv.Library
