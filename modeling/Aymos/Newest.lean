import Mathlib.Data.List.Perm.Subperm
import Mathlib.Data.List.Sort
import Mathlib.Order.Defs.LinearOrder

/-!
The newest entries of a list.

The rank of an entry is the number of entries that are greater. A list in descending order that is
cut after its first entries loses the entries of greater ranks, and nothing else.
-/

namespace Aymos.Newest

variable {α : Type*} [LinearOrder α]

/-- How many entries of a list are greater. -/
def rank (entries : List α) (x : α) : ℕ := entries.countP (x < ·)

variable {entries entries' : List α} {x : α} {k : ℕ}

lemma rank_perm (h : entries.Perm entries') (x : α) : rank entries x = rank entries' x :=
  h.countP_eq _

/-- With more entries the rank is no less. -/
lemma rank_mono (h : entries.Nodup) (hsub : ∀ y ∈ entries, y ∈ entries') (x : α) :
    rank entries x ≤ rank entries' x := (h.subperm hsub).countP_le _

/-- **The entries after the first ones** are those of greater ranks. -/
theorem mem_drop_iff (h : entries.Pairwise (· > ·)) :
    x ∈ entries.drop k ↔ x ∈ entries ∧ k ≤ rank entries x := by
  induction entries generalizing k with
  | nil => simp
  | cons a entries ih =>
    obtain ⟨ha, hentries⟩ := List.pairwise_cons.mp h
    cases k with
    | zero => exact ⟨fun hx => ⟨hx, Nat.zero_le _⟩, fun hx => hx.1⟩
    | succ k =>
      have hzero : rank (a :: entries) a = 0 := by
        refine List.countP_eq_zero.mpr fun b hb => ?_
        rw [decide_eq_true_eq]
        rcases List.mem_cons.mp hb with rfl | hb
        · exact lt_irrefl _
        · exact not_lt.mpr (ha b hb).le
      rw [List.drop_succ_cons, ih hentries]
      constructor
      · rintro ⟨hx, hk⟩
        refine ⟨List.mem_cons_of_mem a hx, ?_⟩
        rw [rank, List.countP_cons_of_pos (by simpa using ha x hx)]
        exact Nat.succ_le_succ hk
      · rintro ⟨hx, hk⟩
        rcases List.mem_cons.mp hx with rfl | hx
        · rw [hzero] at hk
          exact absurd hk (Nat.not_succ_le_zero k)
        · rw [rank, List.countP_cons_of_pos (by simpa using ha x hx)] at hk
          exact ⟨hx, Nat.le_of_succ_le_succ hk⟩

/-- **At most `k` entries have a rank below `k`.** -/
theorem length_filter_rank_le (h : entries.Pairwise (· > ·)) (k : ℕ) :
    (entries.filter fun x => decide (rank entries x < k)).length ≤ k := by
  have hnodup : entries.Nodup := h.imp fun hlt => hlt.ne'
  have hsub : ∀ x ∈ entries.filter (fun x => decide (rank entries x < k)), x ∈ entries.take k := by
    intro x hx
    rw [List.mem_filter, decide_eq_true_eq] at hx
    rw [← List.take_append_drop k entries, List.mem_append] at hx
    refine hx.1.resolve_right fun hdrop => ?_
    rw [List.take_append_drop] at hx
    exact absurd ((mem_drop_iff h).mp hdrop).2 (not_le.mpr hx.2)
  calc (entries.filter fun x => decide (rank entries x < k)).length
      ≤ (entries.take k).length := ((hnodup.filter _).subperm hsub).length_le
    _ ≤ k := List.length_take_le ..

end Aymos.Newest
