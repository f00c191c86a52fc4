import Mathlib.Data.Nat.Bitwise
import Mathlib.Data.List.Range

/-!
Fields of a word.

A field lies below the others, which are shifted past it; masks and shifts take the fields apart
again. A set of small numbers is a word with their bits set.
-/

namespace Aymos.BitFields

/-- The field `low` of `width` bits below the fields `high`. -/
def join (width low high : ℕ) : ℕ := low ||| (high <<< width)

section Join

variable {width low high : ℕ}

lemma join_eq_add (h : low < 2 ^ width) : join width low high = 2 ^ width * high + low := by
  rw [join, Nat.or_comm, ← Nat.shiftLeft_add_eq_or_of_lt h, Nat.shiftLeft_eq, Nat.mul_comm]

lemma join_and (h : low < 2 ^ width) : join width low high &&& (2 ^ width - 1) = low := by
  rw [Nat.and_two_pow_sub_one_eq_mod, join_eq_add h, Nat.mul_add_mod, Nat.mod_eq_of_lt h]

lemma join_shiftRight (h : low < 2 ^ width) : join width low high >>> width = high := by
  rw [Nat.shiftRight_eq_div_pow, join_eq_add h, Nat.mul_add_div (Nat.two_pow_pos width),
    Nat.div_eq_of_lt h, Nat.add_zero]

lemma join_lt {v : ℕ} (h : low < 2 ^ width) (hv : high < 2 ^ v) :
    join width low high < 2 ^ (width + v) := by
  have hle : 2 ^ width * (high + 1) ≤ 2 ^ width * 2 ^ v := Nat.mul_le_mul_left _ hv
  rw [Nat.mul_add, Nat.mul_one] at hle
  rw [join_eq_add h, Nat.pow_add]
  omega

lemma join_testBit (h : low < 2 ^ width) (i : ℕ) :
    (join width low high).testBit (width + i) = high.testBit i := by
  have hlow : low.testBit (width + i) = false :=
    Nat.testBit_lt_two_pow (h.trans_le (Nat.pow_le_pow_right Nat.two_pos (Nat.le_add_right _ _)))
  rw [join, Nat.testBit_or, hlow, Bool.false_or, Nat.testBit_shiftLeft]
  simp

/-- Three fields beneath a fourth. -/
lemma join_four (w a b c d : ℕ) :
    a ||| (b <<< w) ||| (c <<< (w + w)) ||| (d <<< (w + w + w)) =
      join w a (join w b (join w c d)) := by
  simp only [join, Nat.shiftLeft_or_distrib, Nat.shiftLeft_add, Nat.or_assoc]

/-- A number is its low part below the rest. -/
lemma join_split (w n : ℕ) : join w (n % 2 ^ w) (n / 2 ^ w) = n := by
  rw [join_eq_add (Nat.mod_lt _ (Nat.two_pow_pos w)), Nat.div_add_mod]

end Join

/-! ### Sets of bits -/

/-- The loop that sets the bit of every listed number with a property. -/
lemma testBit_mask {p : ℕ → Prop} [DecidablePred p] (is : List ℕ) (mask j : ℕ) :
    (is.foldl (fun mask i => if p i then mask ||| (1 <<< i) else mask) mask).testBit j =
      (mask.testBit j || decide (j ∈ is ∧ p j)) := by
  induction is generalizing mask with
  | nil => simp
  | cons i is ih =>
    rw [List.foldl_cons, ih]
    by_cases hp : p i
    · rw [if_pos hp, Nat.testBit_or, Nat.one_shiftLeft, Nat.testBit_two_pow]
      by_cases hj : i = j
      · subst hj
        simp [hp]
      · have hj' : j ≠ i := Ne.symm hj
        simp [hj, hj']
    · rw [if_neg hp]
      by_cases hj : j = i
      · subst hj
        simp [hp]
      · simp [hj]

end Aymos.BitFields
