import Mathlib.Order.Lattice
import Mathlib.Data.List.Range

/-!
A search for the least index.

A loop over the indices from 1 on keeps the best one found, or a mark that is no index while it has
found none. It replaces the best by an index with the property whose key is smaller.
-/

namespace Aymos.LeastSearch

variable {α : Type*} [LinearOrder α] (p : ℕ → Prop) (key : ℕ → α) (none : ℕ)

/-- What the search has found among the indices from 1 to `m`. -/
def Found (m best : ℕ) : Prop :=
  (best = none ∧ ∀ j, 1 ≤ j → j ≤ m → ¬p j) ∨
    (1 ≤ best ∧ best ≤ m ∧ p best ∧ ∀ j, 1 ≤ j → j ≤ m → p j → key best ≤ key j)

/-- One step of a search. -/
structure Searches (step : ℕ → ℕ → ℕ) (bound : ℕ) : Prop where
  skip : ∀ best i, 1 ≤ i → i ≤ bound → ¬p i → step best i = best
  first : ∀ i, 1 ≤ i → i ≤ bound → p i → step none i = i
  better : ∀ best i, 1 ≤ best → best < i → i ≤ bound → p best → p i →
    step best i = if key i < key best then i else best

variable {p key none}

lemma Found.step {step : ℕ → ℕ → ℕ} {bound m best : ℕ} (hs : Searches p key none step bound)
    (hm : m + 1 ≤ bound) (h : Found p key none m best) :
    Found p key none (m + 1) (step best (m + 1)) := by
  have hle : ∀ j, j ≤ m + 1 → j = m + 1 ∨ j ≤ m := fun j hj => by omega
  by_cases hp : p (m + 1)
  · rcases h with ⟨rfl, hno⟩ | ⟨h1, hbm, hpb, hleast⟩
    · rw [hs.first _ (Nat.le_add_left 1 m) hm hp]
      refine Or.inr ⟨Nat.le_add_left 1 m, le_rfl, hp, fun j hj1 hjm hpj => ?_⟩
      rcases hle j hjm with rfl | hj
      · exact le_rfl
      · exact absurd hpj (hno j hj1 hj)
    · rw [hs.better _ _ h1 (Nat.lt_succ_of_le hbm) hm hpb hp]
      split
      · next hlt =>
        refine Or.inr ⟨Nat.le_add_left 1 m, le_rfl, hp, fun j hj1 hjm hpj => ?_⟩
        rcases hle j hjm with rfl | hj
        · exact le_rfl
        · exact hlt.le.trans (hleast j hj1 hj hpj)
      · next hge =>
        refine Or.inr ⟨h1, hbm.trans (Nat.le_succ m), hpb, fun j hj1 hjm hpj => ?_⟩
        rcases hle j hjm with rfl | hj
        · exact not_lt.mp hge
        · exact hleast j hj1 hj hpj
  · rw [hs.skip _ _ (Nat.le_add_left 1 m) hm hp]
    have hback : ∀ j, j ≤ m + 1 → p j → j ≤ m := fun j hj hpj =>
      (hle j hj).resolve_left fun heq => hp (heq ▸ hpj)
    rcases h with ⟨rfl, hno⟩ | ⟨h1, hbm, hpb, hleast⟩
    · exact Or.inl ⟨rfl, fun j hj1 hjm hpj => hno j hj1 (hback j hjm hpj) hpj⟩
    · exact Or.inr ⟨h1, hbm.trans (Nat.le_succ m), hpb, fun j hj1 hjm hpj =>
        hleast j hj1 (hback j hjm hpj) hpj⟩

/-- **The loop** finds an index with the least key. -/
theorem found_foldl {step : ℕ → ℕ → ℕ} {bound : ℕ} (hs : Searches p key none step bound) {m : ℕ}
    (hm : m ≤ bound) : Found p key none m ((List.range' 1 m).foldl step none) := by
  induction m with
  | zero => exact Or.inl ⟨rfl, fun j hj1 hj0 => absurd (hj1.trans hj0) (by decide)⟩
  | succ m ih =>
    rw [List.range'_1_concat, List.foldl_append, Nat.add_comm 1 m]
    exact (ih (Nat.le_of_succ_le hm)).step hs hm

end Aymos.LeastSearch
