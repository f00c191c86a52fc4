import Mathlib.Logic.Function.Basic
import Mathlib.Tactic.Ring
import Mathlib.Data.Nat.Notation

/-!
Byte-addressed memory with little-endian words.

A memory is a total map from addresses to bytes. A word of `n` bytes is loaded from and
stored at its lowest address. Loading after a store sees the stored value at the same place
and the old value at any place the store does not overlap.
-/

namespace Aymos.ByteMem

/-- The content of every byte address. -/
abbrev Mem := ℕ → UInt8

/-- The `n`-byte little-endian word at `a`. -/
def load (m : Mem) : ℕ → ℕ → ℕ
  | _, 0 => 0
  | a, n + 1 => (m a).toNat + 256 * load m (a + 1) n

/-- Writes the low `n` bytes of `v` at `a`. -/
def store (m : Mem) : ℕ → ℕ → ℕ → Mem
  | _, 0, _ => m
  | a, n + 1, v => Function.update (store m (a + 1) n (v / 256)) a (UInt8.ofNat v)

@[simp] lemma load_zero (m : Mem) (a : ℕ) : load m a 0 = 0 := rfl

lemma load_succ (m : Mem) (a n : ℕ) : load m a (n + 1) = (m a).toNat + 256 * load m (a + 1) n :=
  rfl

lemma load_lt (m : Mem) (a n : ℕ) : load m a n < 256 ^ n := by
  induction n generalizing a with
  | zero => simp
  | succ n ih =>
    have hbyte : (m a).toNat < 256 := (m a).toNat_lt
    have := ih (a + 1)
    rw [load_succ, pow_succ]
    omega

/-- A word depends on its own bytes only. -/
lemma load_congr {m m' : Mem} {a n : ℕ} (h : ∀ x, a ≤ x → x < a + n → m x = m' x) :
    load m a n = load m' a n := by
  induction n generalizing a with
  | zero => rfl
  | succ n ih =>
    rw [load_succ, load_succ, h a (by omega) (by omega),
      ih fun x hx hx' => h x (by omega) (by omega)]

/-- A word is zero exactly when all its bytes are. -/
lemma load_eq_zero_iff {m : Mem} {a n : ℕ} :
    load m a n = 0 ↔ ∀ x, a ≤ x → x < a + n → m x = 0 := by
  induction n generalizing a with
  | zero => simp; omega
  | succ n ih =>
    have hbyte : (m a).toNat = 0 ↔ m a = 0 := by
      rw [← UInt8.toNat_inj]; simp
    rw [load_succ, show (m a).toNat + 256 * load m (a + 1) n = 0 ↔
      (m a).toNat = 0 ∧ load m (a + 1) n = 0 by omega, ih, hbyte]
    constructor
    · rintro ⟨h0, h⟩ x hx hx'
      rcases eq_or_lt_of_le hx with rfl | hlt
      · exact h0
      · exact h x (by omega) (by omega)
    · exact fun h => ⟨h a le_rfl (by omega), fun x hx hx' => h x (by omega) (by omega)⟩

/-- A store leaves every byte outside its range alone. -/
lemma store_apply_of_notMem {m : Mem} {a n v x : ℕ} (h : x < a ∨ a + n ≤ x) :
    store m a n v x = m x := by
  induction n generalizing a v with
  | zero => rfl
  | succ n ih =>
    have hne : x ≠ a := by omega
    rw [store, Function.update_of_ne hne, ih (by omega)]

/-- The word just stored reads back, cut to its width. -/
lemma load_store_self (m : Mem) (a n v : ℕ) : load (store m a n v) a n = v % 256 ^ n := by
  induction n generalizing a v with
  | zero => simp [Nat.mod_one]
  | succ n ih =>
    have htail : load (store m a (n + 1) v) (a + 1) n =
        load (store m (a + 1) n (v / 256)) (a + 1) n :=
      load_congr fun x hx _ => by
        rw [store, Function.update_of_ne (show x ≠ a by omega)]
    have hbyte : (UInt8.ofNat v).toNat = v % 256 := UInt8.toNat_ofNat'
    have hsplit : v % 256 ^ (n + 1) = v % 256 + 256 * (v / 256 % 256 ^ n) := by
      rw [pow_succ', Nat.mod_mul]
    rw [load_succ, htail, ih, store, Function.update_self, hbyte, hsplit]

/-- A store does not change a word it does not overlap. -/
lemma load_store_of_disjoint {m : Mem} {a n v b k : ℕ} (h : a + n ≤ b ∨ b + k ≤ a) :
    load (store m a n v) b k = load m b k :=
  load_congr fun x hx hx' => store_apply_of_notMem (by omega)

end Aymos.ByteMem
