import Mathlib.Algebra.CharP.Two
import Mathlib.Algebra.Polynomial.Div
import Mathlib.Algebra.Field.ZMod
import Mathlib.Algebra.Polynomial.FieldDivision
import Mathlib.Tactic.LinearCombination

/-!
Cyclic redundancy checks.

A word is read as a polynomial over `ZMod 2`, bit `i` being the coefficient of `X ^ i`, and a
string of bits as one with its first bit the highest. Long division by a generator, one bit of the
message at a time, leaves its remainder. A register that is kept mirrored and takes the message a
chunk at a time computes the same remainder of the message times a power of `X`. No burst of
errors as long as the remainder leaves it as it was.
-/

namespace Aymos.Crc

open Polynomial

variable {w : ℕ}

/-- A bit as a polynomial. -/
noncomputable def bit (b : Bool) : (ZMod 2)[X] := if b then 1 else 0

/-- The polynomial of a word. -/
noncomputable def poly (x : BitVec w) : (ZMod 2)[X] :=
  ∑ i ∈ Finset.range w, bit (x.getLsbD i) * X ^ i

/-- The polynomial of a string of bits, first bit highest. -/
noncomputable def message : List Bool → (ZMod 2)[X]
  | [] => 0
  | b :: bs => bit b * X ^ bs.length + message bs

/-- The polynomial of degree `w` whose lower coefficients are the bits of `g`. -/
noncomputable def generator (g : BitVec w) : (ZMod 2)[X] := X ^ w + poly g

/-- One bit of long division by the generator of `g`. -/
def divide (g r : BitVec w) (b : Bool) : BitVec w :=
  (r <<< 1) ^^^ (BitVec.ofBool b).setWidth w ^^^ (if r.msb then g else 0)

/-- One step of the mirrored register. -/
def mirrored (g crc : BitVec w) : BitVec w :=
  (crc >>> 1) ^^^ (if crc.getLsbD 0 then g.reverse else 0)

/-- The mirrored register after a chunk of the message, its lowest bit first. -/
def mirroredChunk (g : BitVec w) {n : ℕ} (crc : BitVec w) (chunk : BitVec n) : BitVec w :=
  (mirrored g)^[n] (crc ^^^ chunk.setWidth w)

/-- The bits of a chunk, lowest first. -/
def bits {n : ℕ} (chunk : BitVec n) : List Bool := (List.range n).map chunk.getLsbD

/-- The checksum of a string of bits: the string is extended by `w` zeros, its first `w` bits are
complemented, and the remainder of the division is complemented and mirrored. -/
def checksum (g : BitVec w) (string : List Bool) : BitVec w :=
  let padded := string ++ List.replicate w false
  ~~~(((padded.take w).map not ++ padded.drop w).foldl (divide g) 0).reverse

/-! ### Words as polynomials -/

@[simp] lemma bit_false : bit false = 0 := rfl
@[simp] lemma bit_true : bit true = 1 := rfl

lemma bit_xor (a b : Bool) : bit (a ^^ b) = bit a + bit b := by
  cases a <;> cases b <;> simp [CharTwo.add_self_eq_zero]

lemma coeff_bit_mul (b : Bool) (p : (ZMod 2)[X]) (k : ℕ) :
    (bit b * p).coeff k = if b then p.coeff k else 0 := by
  cases b <;> simp

lemma coeff_poly (x : BitVec w) (k : ℕ) : (poly x).coeff k = if x.getLsbD k then 1 else 0 := by
  unfold poly
  rw [finsetSum_coeff]
  by_cases hk : k < w
  · rw [Finset.sum_eq_single_of_mem k (Finset.mem_range.mpr hk)]
    · rw [coeff_bit_mul, coeff_X_pow_self]
    · intro i _ hi
      rw [coeff_bit_mul, coeff_X_pow, if_neg (Ne.symm hi), ite_self]
  · rw [BitVec.getLsbD_of_ge x k (by omega), Finset.sum_eq_zero, if_neg Bool.false_ne_true]
    intro i hi
    have hi := Finset.mem_range.mp hi
    rw [coeff_bit_mul, coeff_X_pow, if_neg (by omega : k ≠ i), ite_self]

lemma degree_poly_lt (x : BitVec w) : (poly x).degree < w := by
  rw [degree_lt_iff_coeff_zero]
  intro k hk
  rw [coeff_poly, BitVec.getLsbD_of_ge x k hk, if_neg Bool.false_ne_true]

lemma poly_injective : Function.Injective (poly (w := w)) := by
  intro x y h
  refine BitVec.eq_of_getLsbD_eq fun i _ => ?_
  have hc := congrArg (fun p => p.coeff i) h
  simp only [coeff_poly] at hc
  cases hx : x.getLsbD i <;> cases hy : y.getLsbD i <;> simp [hx, hy] at hc ⊢

@[simp] lemma poly_zero : poly (0#w) = 0 := by simp [poly]

lemma poly_xor (x y : BitVec w) : poly (x ^^^ y) = poly x + poly y := by
  simp only [poly, BitVec.getLsbD_xor, bit_xor, add_mul, Finset.sum_add_distrib]

lemma poly_ite (b : Bool) (x : BitVec w) : poly (if b then x else 0) = bit b * poly x := by
  cases b <;> simp

/-- A shift up multiplies by `X`, and the bit that falls out is the coefficient of `X ^ w`. -/
lemma X_mul_poly (x : BitVec w) : X * poly x = bit x.msb * X ^ w + poly (x <<< 1) := by
  ext k
  rw [coeff_add, coeff_bit_mul, coeff_poly, BitVec.getLsbD_shiftLeft]
  cases k with
  | zero =>
    rw [coeff_X_mul_zero, coeff_X_pow]
    cases w with
    | zero => simp [BitVec.of_length_zero]
    | succ w => simp
  | succ k =>
    rw [coeff_X_mul, coeff_poly, coeff_X_pow, Nat.add_sub_cancel]
    rcases Nat.lt_trichotomy (k + 1) w with h | h | h
    · simp [h, Nat.ne_of_lt h]
    · subst h
      simp [BitVec.msb_eq_getLsbD_last]
    · rw [BitVec.getLsbD_of_ge x k (by omega)]
      simp [Nat.ne_of_gt h]

lemma shiftLeft_reverse (x : BitVec w) : x.reverse <<< 1 = (x >>> 1).reverse := by
  refine BitVec.eq_of_getLsbD_eq fun i hi => ?_
  rw [BitVec.getLsbD_shiftLeft, BitVec.getLsbD_reverse, BitVec.getLsbD_reverse,
    BitVec.getMsbD_eq_getLsbD, BitVec.getMsbD_eq_getLsbD, BitVec.getLsbD_ushiftRight]
  cases i with
  | zero => simp [BitVec.getLsbD_of_ge x (1 + (w - 1)) (by omega)]
  | succ i =>
    have hk : w - 1 - i = 1 + (w - 1 - (i + 1)) := by omega
    simp [hi, hk, Nat.lt_of_succ_lt hi]

lemma xor_reverse (x y : BitVec w) : (x ^^^ y).reverse = x.reverse ^^^ y.reverse := by
  refine BitVec.eq_of_getLsbD_eq fun i hi => ?_
  simp only [BitVec.getLsbD_reverse, BitVec.getMsbD_xor, BitVec.getLsbD_xor]

lemma allOnes_reverse : (BitVec.allOnes w).reverse = BitVec.allOnes w := by
  refine BitVec.eq_of_getLsbD_eq fun i hi => ?_
  rw [BitVec.getLsbD_reverse, BitVec.getMsbD_eq_getLsbD, BitVec.getLsbD_allOnes,
    BitVec.getLsbD_allOnes]
  simp [hi]
  omega

/-! ### Strings as polynomials -/

lemma message_append (xs ys : List Bool) :
    message (xs ++ ys) = X ^ ys.length * message xs + message ys := by
  induction xs with
  | nil => simp [message]
  | cons b xs ih =>
    rw [List.cons_append, message, message, ih, List.length_append, pow_add]
    ring

lemma message_concat (xs : List Bool) (b : Bool) :
    message (xs ++ [b]) = X * message xs + bit b := by
  rw [message_append]
  simp [message]

@[simp] lemma message_zeros (n : ℕ) : message (List.replicate n false) = 0 := by
  induction n with
  | zero => rfl
  | succ n ih => rw [List.replicate_succ, message, ih, bit_false, zero_mul, add_zero]

/-- Complementing a string adds the string of ones. -/
lemma message_not (xs : List Bool) :
    message (xs.map not) = message xs + message (List.replicate xs.length true) := by
  induction xs with
  | nil => simp [message]
  | cons b xs ih =>
    have hb : bit (!b) = bit b + 1 := by
      rw [← Bool.xor_true, bit_xor, bit_true]
    rw [List.map_cons, message, ih, List.length_cons, List.replicate_succ, message, message,
      List.length_map, List.length_replicate, hb, bit_true]
    ring

lemma bits_length {n : ℕ} (chunk : BitVec n) : (bits chunk).length = n := by simp [bits]

/-- The bits of a chunk, lowest first, are the mirrored word. -/
lemma message_bits {n : ℕ} (chunk : BitVec n) : message (bits chunk) = poly chunk.reverse := by
  have h : ∀ k, message ((List.range k).map chunk.getLsbD) =
      ∑ i ∈ Finset.range k, bit (chunk.getLsbD i) * X ^ (k - 1 - i) := by
    intro k
    induction k with
    | zero => rfl
    | succ k ih =>
      rw [List.range_succ, List.map_append, List.map_singleton, message_concat, ih,
        Finset.sum_range_succ, Finset.mul_sum, Nat.add_sub_cancel, Nat.sub_self, pow_zero, mul_one]
      refine congrArg (· + bit (chunk.getLsbD k)) (Finset.sum_congr rfl fun i hi => ?_)
      have hi := Finset.mem_range.mp hi
      rw [show k - i = k - 1 - i + 1 by omega, pow_succ]
      ring
  unfold bits poly
  rw [h n, ← Finset.sum_range_reflect]
  refine Finset.sum_congr rfl fun i hi => ?_
  have hi := Finset.mem_range.mp hi
  rw [BitVec.getLsbD_reverse, BitVec.getMsbD_eq_getLsbD]
  simp only [hi, decide_true, Bool.true_and]
  rw [show n - 1 - (n - 1 - i) = i by omega]

lemma message_ones (n : ℕ) : message (List.replicate n true) = poly (BitVec.allOnes n) := by
  rw [← allOnes_reverse, ← message_bits, bits]
  refine congrArg message (List.eq_replicate_iff.mpr ⟨by simp, fun b hb => ?_⟩).symm
  obtain ⟨i, hi, rfl⟩ := List.mem_map.mp hb
  rw [BitVec.getLsbD_allOnes, decide_eq_true (List.mem_range.mp hi)]

/-! ### Division -/

lemma generator_monic (g : BitVec w) : (generator g).Monic := monic_X_pow_add (degree_poly_lt g)

lemma generator_degree (g : BitVec w) : (generator g).degree = w := by
  rw [generator, degree_add_eq_left_of_degree_lt, degree_X_pow]
  rw [degree_X_pow]
  exact degree_poly_lt g

/-- What is left after multiples of the generator are taken off is the remainder. -/
lemma eq_remainder {g r : BitVec w} {p q : (ZMod 2)[X]} (h : p = q * generator g + poly r) :
    poly r = p %ₘ generator g := by
  refine ((div_modByMonic_unique q (poly r) (generator_monic g) ⟨?_, ?_⟩).2).symm
  · rw [h]
    ring
  · rw [generator_degree]
    exact degree_poly_lt r

/-- A step of the division takes off a multiple of the generator. -/
lemma divide_step (hw : 0 < w) (g r : BitVec w) (b : Bool) :
    X * poly r + bit b = bit r.msb * generator g + poly (divide g r b) := by
  have hb : poly ((BitVec.ofBool b).setWidth w) = bit b := by
    ext k
    rw [coeff_poly, BitVec.getLsbD_setWidth, ← mul_one (bit b), coeff_bit_mul, coeff_one]
    cases k <;> cases b <;> simp [hw]
  have h2 : bit r.msb * poly g + bit r.msb * poly g = 0 := CharTwo.add_self_eq_zero _
  rw [X_mul_poly, divide, poly_xor, poly_xor, hb, poly_ite, generator]
  linear_combination -h2

/-- **Long division leaves the remainder.** -/
theorem foldl_divide (hw : 0 < w) (g r : BitVec w) (string : List Bool) :
    poly (string.foldl (divide g) r) =
      (X ^ string.length * poly r + message string) %ₘ generator g := by
  have h : ∃ q, X ^ string.length * poly r + message string =
      q * generator g + poly (string.foldl (divide g) r) := by
    induction string generalizing r with
    | nil => exact ⟨0, by simp [message]⟩
    | cons b string ih =>
      obtain ⟨q, hq⟩ := ih (divide g r b)
      refine ⟨q + X ^ string.length * bit r.msb, ?_⟩
      have hs := divide_step hw g r b
      rw [List.foldl_cons, List.length_cons, message]
      linear_combination hq + X ^ string.length * hs
  obtain ⟨q, hq⟩ := h
  exact eq_remainder hq

/-! ### The mirrored register -/

lemma mirrored_step (g crc : BitVec w) : X * poly crc.reverse =
    bit (crc.getLsbD 0) * generator g + poly (mirrored g crc).reverse := by
  have h2 : bit (crc.getLsbD 0) * poly g + bit (crc.getLsbD 0) * poly g = 0 :=
    CharTwo.add_self_eq_zero _
  have hr : (if crc.getLsbD 0 then g.reverse else 0).reverse =
      if crc.getLsbD 0 then g else 0 := by
    split
    · exact BitVec.reverse_reverse_eq
    · exact BitVec.reverse_eq_zero_iff.mpr rfl
  rw [X_mul_poly, BitVec.msb_reverse, shiftLeft_reverse, mirrored, xor_reverse, hr, poly_xor,
    poly_ite, generator]
  linear_combination -h2

lemma mirrored_steps (g crc : BitVec w) (n : ℕ) : ∃ q, X ^ n * poly crc.reverse =
    q * generator g + poly ((mirrored g)^[n] crc).reverse := by
  induction n generalizing crc with
  | zero => exact ⟨0, by simp⟩
  | succ n ih =>
    obtain ⟨q, hq⟩ := ih (mirrored g crc)
    refine ⟨q + X ^ n * bit (crc.getLsbD 0), ?_⟩
    have hs := mirrored_step g crc
    rw [Function.iterate_succ_apply]
    linear_combination hq + X ^ n * hs

/-- A chunk in the low bits of a register, mirrored. -/
lemma poly_setWidth_reverse {n : ℕ} (h : n ≤ w) (chunk : BitVec n) :
    poly (chunk.setWidth w).reverse = X ^ (w - n) * poly chunk.reverse := by
  ext k
  rw [coeff_poly, coeff_X_pow_mul', coeff_poly, BitVec.getLsbD_reverse, BitVec.getLsbD_reverse,
    BitVec.getMsbD_eq_getLsbD, BitVec.getMsbD_eq_getLsbD, BitVec.getLsbD_setWidth]
  by_cases hk : k < w
  · by_cases hn : w - n ≤ k
    · have he : w - 1 - k = n - 1 - (k - (w - n)) := by omega
      have hlt : k - (w - n) < n := by omega
      have hlt' : w - 1 - k < w := by omega
      simp [hk, hn, he ▸ hlt', hlt, he]
    · simp [hk, hn, BitVec.getLsbD_of_ge chunk (w - 1 - k) (by omega)]
  · simp [hk, show ¬ k - (w - n) < n by omega]

lemma poly_mirroredChunk {n : ℕ} (h : n ≤ w) (g crc : BitVec w) (chunk : BitVec n) :
    ∃ q, X ^ n * poly crc.reverse + X ^ w * message (bits chunk) =
      q * generator g + poly (mirroredChunk g crc chunk).reverse := by
  obtain ⟨q, hq⟩ := mirrored_steps g (crc ^^^ chunk.setWidth w) n
  refine ⟨q, ?_⟩
  have hp : (X : (ZMod 2)[X]) ^ w = X ^ n * X ^ (w - n) := by
    rw [← pow_add, Nat.add_sub_cancel' h]
  rw [xor_reverse, poly_xor, poly_setWidth_reverse h] at hq
  rw [message_bits, hp, mirroredChunk]
  linear_combination hq

/-- **The mirrored register leaves the remainder** of the message times `X ^ w`. -/
theorem foldl_mirrored {n : ℕ} (h : n ≤ w) (g crc : BitVec w) (chunks : List (BitVec n)) :
    poly (chunks.foldl (mirroredChunk g) crc).reverse =
      (X ^ (n * chunks.length) * poly crc.reverse + X ^ w * message (chunks.flatMap bits)) %ₘ
        generator g := by
  have hrun : ∃ q, X ^ (n * chunks.length) * poly crc.reverse +
      X ^ w * message (chunks.flatMap bits) =
        q * generator g + poly (chunks.foldl (mirroredChunk g) crc).reverse := by
    induction chunks generalizing crc with
    | nil => exact ⟨0, by simp [message]⟩
    | cons chunk chunks ih =>
      obtain ⟨q, hq⟩ := ih (mirroredChunk g crc chunk)
      obtain ⟨q', hq'⟩ := poly_mirroredChunk h g crc chunk
      refine ⟨q + X ^ (n * chunks.length) * q', ?_⟩
      have hlen : (chunks.flatMap bits).length = n * chunks.length := by
        rw [List.length_flatMap]
        simp [bits_length, Nat.mul_comm]
      rw [List.foldl_cons, List.length_cons, List.flatMap_cons, message_append, hlen,
        Nat.mul_succ, pow_add]
      linear_combination hq + X ^ (n * chunks.length) * hq'
  obtain ⟨q, hq⟩ := hrun
  exact eq_remainder hq

/-! ### The checksum -/

/-- Complementing the first `w` bits of a string that has them. -/
lemma message_complement {string : List Bool} (h : w ≤ string.length) :
    message ((string.take w).map not ++ string.drop w) =
      message string + X ^ (string.length - w) * poly (BitVec.allOnes w) := by
  have hs : message string = X ^ (string.length - w) * message (string.take w) +
      message (string.drop w) := by
    rw [← List.length_drop, ← message_append, List.take_append_drop]
  rw [message_append, message_not, List.length_drop, List.length_take_of_le h, message_ones, hs]
  ring

/-- **The checksum** is the complement of what a mirrored register of ones ends with. -/
theorem foldl_mirrored_eq_checksum {n : ℕ} (hw : 0 < w) (h : n ≤ w) (g : BitVec w)
    (chunks : List (BitVec n)) :
    ~~~(chunks.foldl (mirroredChunk g) (BitVec.allOnes w)) =
      checksum g (chunks.flatMap bits) := by
  have hlen : (chunks.flatMap bits).length = n * chunks.length := by
    rw [List.length_flatMap]
    simp [bits_length, Nat.mul_comm]
  have he : (chunks.foldl (mirroredChunk g) (BitVec.allOnes w)).reverse =
      (((chunks.flatMap bits ++ List.replicate w false).take w).map not ++
        (chunks.flatMap bits ++ List.replicate w false).drop w).foldl (divide g) 0 := by
    refine poly_injective ?_
    rw [foldl_mirrored h, foldl_divide hw, message_complement (by simp), message_append,
      message_zeros, allOnes_reverse]
    simp [hlen, add_comm]
  unfold checksum
  dsimp only
  rw [← he, BitVec.reverse_reverse_eq]

/-! ### Bursts -/

/-- A string and its checksum, lowest bit first. -/
def codeword (g : BitVec w) (string : List Bool) : List Bool := string ++ bits (checksum g string)

lemma poly_not (x : BitVec w) : poly (~~~x) = poly x + poly (BitVec.allOnes w) := by
  rw [← poly_xor, BitVec.xor_allOnes]

lemma message_checksum (hw : 0 < w) (g : BitVec w) (string : List Bool) :
    ∃ q, message (bits (checksum g string)) = X ^ w * message string +
      (X ^ string.length + 1) * poly (BitVec.allOnes w) + q * generator g := by
  have hdivide := foldl_divide hw g 0
    (((string ++ List.replicate w false).take w).map not ++
      (string ++ List.replicate w false).drop w)
  have hzero : poly (0 : BitVec w) = 0 := poly_zero
  rw [hzero, mul_zero, zero_add, message_complement (by simp), message_append, message_zeros,
    List.length_append, List.length_replicate, Nat.add_sub_cancel, add_zero] at hdivide
  obtain ⟨q, hq⟩ : ∃ q, X ^ w * message string + X ^ string.length * poly (BitVec.allOnes w) =
      (X ^ w * message string + X ^ string.length * poly (BitVec.allOnes w)) %ₘ generator g +
        generator g * q := ⟨_, (modByMonic_add_div _ _).symm⟩
  refine ⟨-q, ?_⟩
  unfold checksum
  dsimp only
  have hreverse (x : BitVec w) : (~~~x.reverse).reverse = ~~~x := by
    rw [← BitVec.xor_allOnes, xor_reverse, allOnes_reverse, BitVec.reverse_reverse_eq,
      BitVec.xor_allOnes]
  rw [message_bits, hreverse, poly_not, hdivide]
  linear_combination -hq

/-- Two codewords of one length differ by a multiple of the generator. -/
lemma generator_dvd (hw : 0 < w) (g : BitVec w) {x y : List Bool} (h : x.length = y.length) :
    generator g ∣ message (codeword g x) - message (codeword g y) := by
  obtain ⟨q, hq⟩ := message_checksum hw g x
  obtain ⟨q', hq'⟩ := message_checksum hw g y
  refine ⟨q - q', ?_⟩
  have hx : X ^ w * message x + X ^ w * message x = 0 := CharTwo.add_self_eq_zero _
  have hy : X ^ w * message y + X ^ w * message y = 0 := CharTwo.add_self_eq_zero _
  unfold codeword
  rw [message_append, message_append, bits_length, bits_length, hq, hq', h]
  linear_combination hx - hy

lemma degree_message_lt (string : List Bool) : (message string).degree < string.length := by
  induction string with
  | nil => simp [message]
  | cons b string ih =>
    rw [message, List.length_cons]
    have hlt : (string.length : WithBot ℕ) < ((string.length + 1 : ℕ) : WithBot ℕ) :=
      WithBot.coe_lt_coe.mpr (Nat.lt_succ_self _)
    refine lt_of_le_of_lt (degree_add_le _ _) (max_lt ?_ (ih.trans hlt))
    cases b with
    | false => simp
    | true =>
      rw [bit_true, one_mul, degree_X_pow]
      exact hlt

lemma message_injective {u v : List Bool} (hlen : u.length = v.length)
    (h : message u = message v) : u = v := by
  induction u generalizing v with
  | nil => exact (List.eq_nil_of_length_eq_zero hlen.symm).symm
  | cons b u ih =>
    cases v with
    | nil => cases hlen
    | cons c v =>
      have htail : u.length = v.length := Nat.succ.inj hlen
      have htop (b : Bool) (u : List Bool) :
          (message (b :: u)).coeff u.length = if b then 1 else 0 := by
        rw [message, coeff_add, coeff_bit_mul, coeff_X_pow_self,
          coeff_eq_zero_of_degree_lt (degree_message_lt u), add_zero]
      have hb : b = c := by
        have hcoeff := htop b u
        rw [h, htail, htop c v] at hcoeff
        cases b <;> cases c <;> simp at hcoeff ⊢
      subst hb
      rw [message, message, htail] at h
      rw [ih htail (add_left_cancel h)]

/-- The generator has a constant term, so that it shares no factor with a power of `X`. -/
lemma isCoprime_generator {g : BitVec w} (hw : 0 < w) (hg : g.getLsbD 0 = true) (n : ℕ) :
    IsCoprime (generator g) (X ^ n) := by
  refine IsCoprime.pow_right (IsCoprime.symm ?_)
  have hX : Irreducible (X : (ZMod 2)[X]) := irreducible_X
  rw [hX.coprime_iff_not_dvd, X_dvd_iff, generator, coeff_add, coeff_poly, if_pos hg,
    coeff_X_pow, if_neg (by omega), zero_add]
  exact one_ne_zero

/-- **A burst no longer than the checksum is detected**: two codewords of one length that agree
outside a window of `w` bits are equal. -/
theorem burst_detected {g : BitVec w} (hw : 0 < w) (hg : g.getLsbD 0 = true)
    {x y before u v after : List Bool} (hlen : x.length = y.length)
    (hx : codeword g x = before ++ u ++ after) (hy : codeword g y = before ++ v ++ after)
    (huv : u.length = v.length) (hu : u.length ≤ w) : u = v := by
  have hdvd := generator_dvd hw g hlen
  have hdiff : message (codeword g x) - message (codeword g y) =
      X ^ after.length * (message u - message v) := by
    rw [hx, hy, message_append, message_append, message_append, message_append, huv]
    ring
  rw [hdiff] at hdvd
  have hzero : message u - message v = 0 := by
    refine eq_zero_of_dvd_of_degree_lt ((isCoprime_generator hw hg _).dvd_of_dvd_mul_left hdvd) ?_
    rw [generator_degree]
    refine lt_of_le_of_lt (degree_sub_le _ _) (max_lt ?_ ?_)
    · exact lt_of_lt_of_le (degree_message_lt u) (WithBot.coe_le_coe.mpr hu)
    · exact lt_of_lt_of_le (degree_message_lt v) (WithBot.coe_le_coe.mpr (huv ▸ hu))
  exact message_injective huv (sub_eq_zero.mp hzero)

end Aymos.Crc
