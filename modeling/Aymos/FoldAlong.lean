import Mathlib.Data.List.Basic

/-!
Folds over a log, with what holds at each entry.

`Along step Q s xs` says that folding `xs` from the state `s` meets each entry in a state in which
`Q` holds of it.
-/

namespace Aymos.FoldAlong

variable {σ α : Type*} {step : σ → α → σ} {Q : σ → α → Prop} {s : σ} {xs ys : List α}

/-- Every entry is met in a state in which `Q` holds of it. -/
def Along (step : σ → α → σ) (Q : σ → α → Prop) : σ → List α → Prop
  | _, [] => True
  | s, a :: as => Q s a ∧ Along step Q (step s a) as

lemma along_append : Along step Q s (xs ++ ys) ↔
    Along step Q s xs ∧ Along step Q (xs.foldl step s) ys := by
  induction xs generalizing s with
  | nil => exact ⟨fun h => ⟨trivial, h⟩, fun h => h.2⟩
  | cons a xs ih =>
    rw [List.cons_append, Along, Along, ih, List.foldl_cons, and_assoc]

lemma along_of_forall (h : ∀ s, ∀ a ∈ xs, Q s a) : Along step Q s xs := by
  induction xs generalizing s with
  | nil => trivial
  | cons a xs ih =>
    exact ⟨h s a List.mem_cons_self, ih fun s b hb => h s b (List.mem_cons_of_mem _ hb)⟩

/-- **Entry by entry**: `Q` holds of each entry in the state that the entries before it lead to. -/
theorem along_iff : Along step Q s xs ↔
    ∀ before a after, xs = before ++ a :: after → Q (before.foldl step s) a := by
  refine ⟨?_, fun h => ?_⟩
  · rintro h before a after rfl
    exact (along_append.mp h).2.1
  · induction xs generalizing s with
    | nil => trivial
    | cons a xs ih =>
      refine ⟨h [] a xs rfl, ih fun before b after hsplit => ?_⟩
      have hb := h (a :: before) b after (by rw [hsplit, List.cons_append])
      exact hb

end Aymos.FoldAlong
