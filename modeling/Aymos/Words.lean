import Mathlib.Algebra.Group.Nat.Defs
import Mathlib.Logic.Function.Iterate

/-!
The fixed-width integers of the kernel, as natural numbers.

Where the source lets a value wrap or narrow, the model says so with `u16`, `u32` or `u64`.
-/

namespace Aymos.Words

def uint8Max : ℕ := 0xFF
def uint16Max : ℕ := 0xFFFF
def uint32Max : ℕ := 0xFFFFFFFF
def uint64Max : ℕ := 0xFFFFFFFFFFFFFFFF
def int32Max : ℕ := 0x7FFFFFFF

def u16 (n : ℕ) : ℕ := n % 2 ^ 16
def u32 (n : ℕ) : ℕ := n % 2 ^ 32
def u64 (n : ℕ) : ℕ := n % 2 ^ 64

lemma u32_lt (n : ℕ) : u32 n < 2 ^ 32 := Nat.mod_lt _ (by decide)

lemma u32_of_le {n : ℕ} (h : n ≤ uint32Max) : u32 n = n :=
  Nat.mod_eq_of_lt (by unfold uint32Max at h; omega)

lemma u64_of_le {n : ℕ} (h : n ≤ uint64Max) : u64 n = n :=
  Nat.mod_eq_of_lt (by unfold uint64Max at h; omega)

/-- The operation counters stop at the largest 32-bit value. -/
def incrementSaturating (value : ℕ) : ℕ := if value ≠ uint32Max then value + 1 else value

lemma incrementSaturating_of_lt {n : ℕ} (h : n < uint32Max) : incrementSaturating n = n + 1 :=
  if_pos (by omega)

lemma le_incrementSaturating (n : ℕ) : n ≤ incrementSaturating n := by
  unfold incrementSaturating
  split <;> omega

lemma incrementSaturating_pos (n : ℕ) : 0 < incrementSaturating n := by
  unfold incrementSaturating uint32Max
  split <;> omega

lemma incrementSaturating_min (n : ℕ) :
    incrementSaturating (min n uint32Max) = min (n + 1) uint32Max := by
  unfold incrementSaturating
  split <;> omega

/-- Counting `n` times. -/
lemma incrementSaturating_iterate (n a : ℕ) :
    incrementSaturating^[n] (min a uint32Max) = min (a + n) uint32Max := by
  induction n generalizing a with
  | zero => rfl
  | succ n ih =>
    rw [Function.iterate_succ_apply, incrementSaturating_min, ih, Nat.add_right_comm, Nat.add_assoc]

lemma toNat_le_uint16Max (n : UInt16) : n.toNat ≤ uint16Max := Nat.le_of_lt_succ n.toNat_lt

end Aymos.Words
