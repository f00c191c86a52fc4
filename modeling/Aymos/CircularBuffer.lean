import Mathlib.Data.List.Range
import Mathlib.Logic.Function.Basic
import Mathlib.Data.Nat.ModEq

/-!
Queues kept in a ring of cells.

The cells are a map from indices, of which the ones below the capacity matter. The queue starts
at the index `read`, wraps at the capacity, and is `count` long.
-/

namespace Aymos.CircularBuffer

variable {α : Type*}

/-- The cells of the queue, oldest first. -/
def contents (cells : ℕ → α) (capacity read count : ℕ) : List α :=
  (List.range count).map fun i => cells ((read + i) % capacity)

/-- Writing a list from the index `write` on: the cells and the index after it. -/
def writeAll (capacity : ℕ) : (ℕ → α) → ℕ → List α → (ℕ → α) × ℕ
  | cells, write, [] => (cells, write)
  | cells, write, x :: xs =>
    writeAll capacity (Function.update cells write x) ((write + 1) % capacity) xs

variable {cells : ℕ → α} {capacity read count : ℕ}

@[simp] lemma contents_length : (contents cells capacity read count).length = count := by
  simp [contents]

@[simp] lemma contents_zero : contents cells capacity read 0 = [] := rfl

lemma contents_succ : contents cells capacity read (count + 1) =
    contents cells capacity read count ++ [cells ((read + count) % capacity)] := by
  simp [contents, List.range_succ]

/-- Different offsets of less than a turn are different cells. -/
lemma offset_ne {i n : ℕ} (hi : i < n) (hn : n < capacity) :
    (read + i) % capacity ≠ (read + n) % capacity := by
  intro h
  have hm : i ≡ n [MOD capacity] := Nat.ModEq.add_left_cancel' read h
  rw [Nat.ModEq, Nat.mod_eq_of_lt (hi.trans hn), Nat.mod_eq_of_lt hn] at hm
  omega

/-- A write behind the queue makes it one longer. -/
lemma contents_update (h : count < capacity) (x : α) :
    contents (Function.update cells ((read + count) % capacity) x) capacity read (count + 1) =
      contents cells capacity read count ++ [x] := by
  rw [contents_succ, Function.update_self]
  congr 1
  refine List.map_congr_left fun i hi => ?_
  exact Function.update_of_ne (offset_ne (List.mem_range.mp hi) h) _ _

/-- **A batch behind the queue is appended to it**, and the index ends up behind the batch. -/
theorem contents_writeAll (xs : List α) (h : count + xs.length ≤ capacity) :
    contents (writeAll capacity cells ((read + count) % capacity) xs).1 capacity read
        (count + xs.length) = contents cells capacity read count ++ xs ∧
      (writeAll capacity cells ((read + count) % capacity) xs).2 =
        (read + (count + xs.length)) % capacity := by
  induction xs generalizing cells count with
  | nil => simp [writeAll]
  | cons x xs ih =>
    have hl : (x :: xs).length = xs.length + 1 := rfl
    have hw : ((read + count) % capacity + 1) % capacity = (read + (count + 1)) % capacity := by
      rw [Nat.mod_add_mod, Nat.add_assoc]
    obtain ⟨hc, hi⟩ := @ih (Function.update cells ((read + count) % capacity) x)
      (count + 1) (by omega)
    unfold writeAll
    rw [hw, show count + (x :: xs).length = count + 1 + xs.length by omega]
    refine ⟨?_, hi⟩
    rw [hc, contents_update (by omega), List.append_assoc]
    rfl

/-- The queue without its oldest cell. -/
lemma contents_eq_cons (hr : read < capacity) :
    contents cells capacity read (count + 1) =
      cells read :: contents cells capacity ((read + 1) % capacity) count := by
  unfold contents
  rw [List.range_succ_eq_map, List.map_cons, List.map_map, Nat.add_zero, Nat.mod_eq_of_lt hr]
  congr 1
  refine List.map_congr_left fun i _ => ?_
  rw [Function.comp_apply, Nat.mod_add_mod, Nat.add_assoc, Nat.add_comm 1 i]

end Aymos.CircularBuffer
