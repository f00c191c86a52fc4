import Aymos.Feasibility
import Mathlib.Algebra.Order.Field.Rat
import Mathlib.Algebra.Order.BigOperators.Ring.Finset
import Mathlib.Data.Rat.Cast.Order

/-!
A test of feasibility that looks at the sources of the jobs only.

The jobs of a source come one after the other: none is released before the deadline of the one
before. A source that asks for at most `C` ticks a job, and gives it at least `D`, has the density
`C / D`. Where the densities of all sources add up to less than one, no window is ever crowded.
-/

namespace Aymos.Density

open Finset Demand Feasibility

variable {J ι : Type*} {T : Terms J}

/-- The windows of two jobs do not overlap. -/
def Apart (T : Terms J) (j j' : J) : Prop :=
  T.deadline j ≤ T.release j' ∨ T.deadline j' ≤ T.release j

/-- **Sources of jobs**, with the most that each asks for a job and the least that it gives it. -/
structure Sporadic (T : Terms J) (Released : J → Prop) (sources : Finset ι) (source : J → ι)
    (C D : ι → ℕ) : Prop where
  mem : ∀ j, Released j → source j ∈ sources
  pos : ∀ j, Released j → 0 < D (source j)
  window : ∀ j, Released j → T.release j + D (source j) ≤ T.deadline j
  demand : ∀ j, Released j → T.demand j ≤ C (source j)
  apart : ∀ j j', Released j → Released j' → source j = source j' → j ≠ j' → Apart T j j'

section Packing

variable {S : Finset J} {s d D : ℕ}

/-- **Windows that do not overlap** fit into the one around them. -/
lemma card_mul_le (hlength : ∀ j ∈ S, T.release j + D ≤ T.deadline j)
    (hin : ∀ j ∈ S, s ≤ T.release j ∧ T.deadline j ≤ d)
    (hapart : ∀ j ∈ S, ∀ j' ∈ S, j ≠ j' → Apart T j j') : #S * D ≤ d - s := by
  have hdisjoint : (S : Set J).PairwiseDisjoint fun j => Ico (T.release j) (T.deadline j) := by
    intro j hj j' hj' hne
    refine disjoint_left.mpr fun t ht ht' => ?_
    obtain ⟨h1, h2⟩ := mem_Ico.mp ht
    obtain ⟨h3, h4⟩ := mem_Ico.mp ht'
    rcases hapart j hj j' hj' hne with h | h
    · omega
    · omega
  have hsub : S.biUnion (fun j => Ico (T.release j) (T.deadline j)) ⊆ Ico s d := by
    intro t ht
    obtain ⟨j, hj, ht⟩ := mem_biUnion.mp ht
    obtain ⟨h1, h2⟩ := mem_Ico.mp ht
    have hjob := hin j hj
    exact mem_Ico.mpr ⟨hjob.1.trans h1, h2.trans_le hjob.2⟩
  calc #S * D = ∑ _j ∈ S, D := (sum_const_nat fun _ _ => rfl).symm
    _ ≤ ∑ j ∈ S, #(Ico (T.release j) (T.deadline j)) := sum_le_sum fun j hj => by
      have hjob := hlength j hj
      rw [Nat.card_Ico]
      omega
    _ = #(S.biUnion fun j => Ico (T.release j) (T.deadline j)) := (card_biUnion hdisjoint).symm
    _ ≤ #(Ico s d) := card_le_card hsub
    _ = d - s := Nat.card_Ico s d

end Packing

variable [DecidableEq ι] {Released : J → Prop} {sources : Finset ι}
  {source : J → ι} {C D : ι → ℕ} {S : Finset J} {s d : ℕ}

/-- What the jobs of one source demand of a window. -/
lemma Sporadic.source_demand (h : Sporadic T Released sources source C D)
    (hjobs : ∀ j ∈ S, Released j ∧ s ≤ T.release j ∧ T.deadline j ≤ d) (i : ι) :
    ((∑ j ∈ S with source j = i, T.demand j : ℕ) : ℚ) ≤ (d - s : ℕ) * ((C i : ℚ) / D i) := by
  obtain ⟨F, hF⟩ : ∃ F, F = S.filter fun j => source j = i := ⟨_, rfl⟩
  have hmem : ∀ j ∈ F, Released j ∧ (s ≤ T.release j ∧ T.deadline j ≤ d) ∧ source j = i := by
    intro j hj
    rw [hF, mem_filter] at hj
    exact ⟨(hjobs j hj.1).1, (hjobs j hj.1).2, hj.2⟩
  have hdensity : (0 : ℚ) ≤ (C i : ℚ) / D i := div_nonneg (Nat.cast_nonneg _) (Nat.cast_nonneg _)
  rw [← hF]
  rcases F.eq_empty_or_nonempty with hempty | ⟨j₀, hj₀⟩
  · rw [hempty, sum_empty, Nat.cast_zero]
    exact mul_nonneg (Nat.cast_nonneg _) hdensity
  · have hpos : 0 < D i := (hmem j₀ hj₀).2.2 ▸ h.pos j₀ (hmem j₀ hj₀).1
    have hne : (D i : ℚ) ≠ 0 := Nat.cast_ne_zero.mpr hpos.ne'
    have hpacked : #F * D i ≤ d - s := by
      refine card_mul_le (fun j hj => ?_) (fun j hj => (hmem j hj).2.1) fun j hj j' hj' hne => ?_
      · rw [← (hmem j hj).2.2]
        exact h.window j (hmem j hj).1
      · exact h.apart j j' (hmem j hj).1 (hmem j' hj').1
          ((hmem j hj).2.2.trans (hmem j' hj').2.2.symm) hne
    have hdemand : ∑ j ∈ F, T.demand j ≤ #F * C i := calc
      ∑ j ∈ F, T.demand j ≤ ∑ _j ∈ F, C i := sum_le_sum fun j hj => by
        rw [← (hmem j hj).2.2]
        exact h.demand j (hmem j hj).1
      _ = #F * C i := sum_const_nat fun _ _ => rfl
    calc ((∑ j ∈ F, T.demand j : ℕ) : ℚ) ≤ (#F * C i : ℕ) := Nat.cast_le.mpr hdemand
      _ = (#F * D i : ℕ) * ((C i : ℚ) / D i) := by
        rw [Nat.cast_mul, Nat.cast_mul, mul_assoc, mul_div_cancel₀ _ hne]
      _ ≤ (d - s : ℕ) * ((C i : ℚ) / D i) :=
        mul_le_mul_of_nonneg_right (Nat.cast_le.mpr hpacked) hdensity

/-- **No window is crowded** by sources whose densities add up to less than one. -/
theorem Sporadic.not_crowded (h : Sporadic T Released sources source C D)
    (hdensity : ∑ i ∈ sources, (C i : ℚ) / D i < 1) : ¬ Crowded T Released s d S := by
  intro hcrowd
  have hmaps : ∀ j ∈ S, source j ∈ sources := fun j hj => h.mem j (hcrowd.jobs j hj).1
  have hnonempty : S.Nonempty := by
    rw [nonempty_iff_ne_empty]
    rintro rfl
    exact absurd hcrowd.crowd (Nat.not_lt_zero _)
  obtain ⟨j, hj⟩ := hnonempty
  have hsd : s < d := by
    obtain ⟨hreleased, hs, hd⟩ := hcrowd.jobs j hj
    have hpos := h.pos j hreleased
    have hwindow := h.window j hreleased
    omega
  have hsum : ((∑ j ∈ S, T.demand j : ℕ) : ℚ) < (d - s : ℕ) := calc
    ((∑ j ∈ S, T.demand j : ℕ) : ℚ)
        = ∑ i ∈ sources, ((∑ j ∈ S with source j = i, T.demand j : ℕ) : ℚ) := by
      rw [← sum_fiberwise_of_maps_to hmaps, Nat.cast_sum]
    _ ≤ ∑ i ∈ sources, (d - s : ℕ) * ((C i : ℚ) / D i) :=
      sum_le_sum fun i _ => h.source_demand hcrowd.jobs i
    _ = (d - s : ℕ) * ∑ i ∈ sources, (C i : ℚ) / D i := (mul_sum ..).symm
    _ < (d - s : ℕ) * 1 :=
      mul_lt_mul_of_pos_left hdensity (Nat.cast_pos.mpr (Nat.sub_pos_of_lt hsd))
    _ = (d - s : ℕ) := mul_one _
  have hlt := Nat.cast_lt.mp hsum
  have hcrowd := hcrowd.crowd
  omega

end Aymos.Density
