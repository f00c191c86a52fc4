import Mathlib.Data.Nat.Notation
import Mathlib.Tactic.Ring

/-!
Numbers as bytes, least significant first.
-/

namespace Aymos.LittleEndian

/-- The `width` low bytes of a number. -/
def toBytes : ℕ → ℕ → List UInt8
  | 0, _ => []
  | width + 1, n => UInt8.ofNat n :: toBytes width (n / 256)

/-- The number that bytes stand for. -/
def ofBytes : List UInt8 → ℕ
  | [] => 0
  | b :: bs => b.toNat + 256 * ofBytes bs

/-- The number in `width` bytes from the position `at_` on. -/
def field (bytes : List UInt8) (at_ width : ℕ) : ℕ := ofBytes ((bytes.drop at_).take width)

@[simp] lemma toBytes_length (width n : ℕ) : (toBytes width n).length = width := by
  induction width generalizing n with
  | zero => rfl
  | succ width ih => rw [toBytes, List.length_cons, ih]

/-- A number in two parts. -/
lemma toBytes_add (a b n : ℕ) : toBytes (a + b) n = toBytes a n ++ toBytes b (n / 256 ^ a) := by
  induction a generalizing n with
  | zero => rw [Nat.zero_add, pow_zero, Nat.div_one]; rfl
  | succ a ih =>
    rw [Nat.succ_add, toBytes, toBytes, ih, List.cons_append, Nat.div_div_eq_div_mul, ← pow_succ']

/-- The bytes depend only on what fits in them. -/
lemma toBytes_mod (width n : ℕ) : toBytes width (n % 256 ^ width) = toBytes width n := by
  induction width generalizing n with
  | zero => rfl
  | succ width ih =>
    have hb : UInt8.ofNat (n % 256 ^ (width + 1)) = UInt8.ofNat n := by
      refine UInt8.toNat_inj.mp ?_
      rw [UInt8.toNat_ofNat', UInt8.toNat_ofNat']
      exact Nat.mod_mod_of_dvd n (Dvd.intro_left (256 ^ width) (pow_succ 256 width).symm)
    rw [toBytes, toBytes, hb, pow_succ', Nat.mod_mul_right_div_self, ih]

/-- **Reading back** the bytes of a number gives what fits in them. -/
theorem ofBytes_toBytes (width n : ℕ) : ofBytes (toBytes width n) = n % 256 ^ width := by
  induction width generalizing n with
  | zero => rw [pow_zero, Nat.mod_one]; rfl
  | succ width ih =>
    rw [toBytes, ofBytes, ih, UInt8.toNat_ofNat', pow_succ' 256 width]
    exact Nat.mod_mul.symm

lemma ofBytes_toBytes_of_lt {width n : ℕ} (h : n < 256 ^ width) :
    ofBytes (toBytes width n) = n := by
  rw [ofBytes_toBytes, Nat.mod_eq_of_lt h]

/-- **Writing back** the number of some bytes gives the bytes. -/
theorem toBytes_ofBytes (bytes : List UInt8) : toBytes bytes.length (ofBytes bytes) = bytes := by
  induction bytes with
  | nil => rfl
  | cons b bytes ih =>
    have hb : UInt8.ofNat (b.toNat + 256 * ofBytes bytes) = b := by
      refine UInt8.toNat_inj.mp ?_
      rw [UInt8.toNat_ofNat']
      have hlt := b.toNat_lt
      omega
    have hdiv : (b.toNat + 256 * ofBytes bytes) / 256 = ofBytes bytes := by
      have hlt := b.toNat_lt
      omega
    rw [ofBytes, List.length_cons, toBytes, hb, hdiv, ih]

lemma ofBytes_lt (bytes : List UInt8) : ofBytes bytes < 256 ^ bytes.length := by
  rw [← Nat.mod_eq_iff_lt (Nat.ne_of_gt (Nat.pow_pos (by decide))), ← ofBytes_toBytes,
    toBytes_ofBytes]

lemma field_lt (bytes : List UInt8) (at_ width : ℕ) : field bytes at_ width < 256 ^ width :=
  (ofBytes_lt _).trans_le (Nat.pow_le_pow_right (by decide) (List.length_take_le ..))

/-- The bytes of a field. -/
lemma toBytes_field {bytes : List UInt8} {at_ width : ℕ} (h : at_ + width ≤ bytes.length) :
    toBytes width (field bytes at_ width) = (bytes.drop at_).take width := by
  have hlen : ((bytes.drop at_).take width).length = width := by
    rw [List.length_take, List.length_drop]
    omega
  conv_rhs => rw [← toBytes_ofBytes ((bytes.drop at_).take width), hlen]
  rfl

/-- A field and what comes after it. -/
lemma drop_eq_field {bytes : List UInt8} {at_ : ℕ} (width : ℕ) (h : at_ + width ≤ bytes.length) :
    bytes.drop at_ = toBytes width (field bytes at_ width) ++ bytes.drop (at_ + width) := by
  rw [toBytes_field h, ← List.drop_drop, List.take_append_drop]

/-- The number behind a prefix. -/
lemma field_append (pre bytes post : List UInt8) :
    field (pre ++ (bytes ++ post)) pre.length bytes.length = ofBytes bytes := by
  unfold field
  rw [List.drop_left, List.take_left]

end Aymos.LittleEndian
