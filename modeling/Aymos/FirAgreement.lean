import Aymos.BitFields
import Aymos.FirQ15
import Mathlib.Algebra.BigOperators.Intervals
import Mathlib.Algebra.Order.BigOperators.Group.Finset
import Mathlib.Algebra.Order.Ring.Abs
import Mathlib.Tactic.Linarith

/-!
The FIR filters compute one function.

Every partial sum of at most 64 products of 16-bit numbers fits a 64-bit accumulator with room to
spare, so that the order and the pairing of the products do not matter, nor does it matter that
the Cortex-M4 accumulator wraps.
-/

namespace Aymos.FirAgreement

open ByteMem Words Allocator FirQ15 BitFields

/-! ### Integers -/

/-- A value of `int16_t`. -/
def Narrow (z : ℤ) : Prop := -2 ^ 15 ≤ z ∧ z < 2 ^ 15

lemma toInt16_narrow (z : ℤ) : Narrow (toInt16 z) := by
  rw [Narrow, toInt16, Int.bmod_def]
  split <;> omega

lemma toInt16_eq {z : ℤ} (h : Narrow z) : toInt16 z = z := by
  obtain ⟨hlow, hhigh⟩ := h
  rw [toInt16, Int.bmod_def]
  split <;> omega

lemma toInt32_eq {z : ℤ} (h : -2 ^ 31 ≤ z ∧ z < 2 ^ 31) : toInt32 z = z := by
  obtain ⟨hlow, hhigh⟩ := h
  rw [toInt32, Int.bmod_def]
  split <;> omega

lemma int64_eq {z : ℤ} (h : |z| < 2 ^ 63) : int64 z = some z := by
  rw [abs_lt] at h
  exact if_pos ⟨h.1.le, h.2⟩

/-- The 16 bits of a value give it back. -/
lemma toInt16_toUint16 (z : ℤ) : toInt16 (toUint16 z) = toInt16 z := by
  have hpos : 0 ≤ z % 2 ^ 16 := Int.emod_nonneg z (by norm_num)
  rw [toUint16, Int.toNat_of_nonneg hpos, toInt16, toInt16]
  exact Int.emod_bmod z (2 ^ 16)

lemma toUint16_lt (z : ℤ) : toUint16 z < 2 ^ 16 := by
  unfold toUint16
  omega

/-! ### Lanes -/

lemma pack_low (low high : ℤ) : u16 (pack low high) = toUint16 low := by
  have h : pack low high = join 16 (toUint16 low) (toUint16 high) := rfl
  rw [u16, ← Nat.and_two_pow_sub_one_eq_mod, h, join_and (toUint16_lt low)]

lemma pack_high (low high : ℤ) : u16 (pack low high >>> 16) = toUint16 high := by
  have h : pack low high = join 16 (toUint16 low) (toUint16 high) := rfl
  rw [u16, h, join_shiftRight (toUint16_lt low), Nat.mod_eq_of_lt (toUint16_lt high)]

lemma signedLane_eq {value : ℕ} (h : value < 2 ^ 16) : signedLane value = toInt16 value := by
  rw [signedLane, toInt16, Int.bmod_def]
  split <;> split <;> omega

variable {low high : ℤ}

/-- **The lanes of a pair** are the numbers it was packed from. -/
lemma lanes_pack (hl : Narrow low) (hh : Narrow high) :
    lowLane (pack low high) = low ∧ highLane (pack low high) = high := by
  rw [lowLane, highLane, pack_low, pack_high, toInt16_toUint16, toInt16_toUint16, toInt16_eq hl,
    toInt16_eq hh]
  exact ⟨rfl, rfl⟩

lemma signedLanes_pack (hl : Narrow low) (hh : Narrow high) :
    signedLane (u16 (pack low high)) = low ∧ signedLane (u16 (pack low high >>> 16)) = high := by
  rw [pack_low, pack_high, signedLane_eq (toUint16_lt low), signedLane_eq (toUint16_lt high),
    toInt16_toUint16, toInt16_toUint16, toInt16_eq hl, toInt16_eq hh]
  exact ⟨rfl, rfl⟩

/-! ### Dot products -/

variable {x h : ℕ → ℤ} {t : ℕ}

/-- The dot product of the first `t` coefficients with as many samples. -/
def dot (x h : ℕ → ℤ) (t : ℕ) : ℤ := ∑ i ∈ Finset.range t, x i * h i

lemma dot_zero : dot x h 0 = 0 := rfl

lemma dot_succ (t : ℕ) : dot x h (t + 1) = dot x h t + x t * h t := Finset.sum_range_succ _ _

lemma product_bound {a b : ℤ} (ha : Narrow a) (hb : Narrow b) : |a * b| ≤ 2 ^ 30 := by
  have ha' : |a| ≤ 2 ^ 15 := abs_le.mpr ⟨ha.1, ha.2.le⟩
  have hb' : |b| ≤ 2 ^ 15 := abs_le.mpr ⟨hb.1, hb.2.le⟩
  calc |a * b| = |a| * |b| := abs_mul a b
    _ ≤ 2 ^ 15 * 2 ^ 15 := mul_le_mul ha' hb' (abs_nonneg b) (by norm_num)
    _ = 2 ^ 30 := by norm_num

/-- **The bound of a partial sum.** -/
lemma dot_bound (hx : ∀ i, Narrow (x i)) (hh : ∀ i, Narrow (h i)) (t : ℕ) :
    |dot x h t| ≤ t * 2 ^ 30 := by
  induction t with
  | zero => simp [dot_zero]
  | succ t ih =>
    calc |dot x h (t + 1)| = |dot x h t + x t * h t| := by rw [dot_succ]
      _ ≤ |dot x h t| + |x t * h t| := abs_add_le _ _
      _ ≤ t * 2 ^ 30 + 2 ^ 30 := add_le_add ih (product_bound (hx t) (hh t))
      _ = (t + 1 : ℕ) * 2 ^ 30 := by push_cast; ring

/-- Up to 64 taps a partial sum stays far inside 64 bits. -/
lemma dot_lt (hx : ∀ i, Narrow (x i)) (hh : ∀ i, Narrow (h i)) (ht : t ≤ maxTaps) :
    |dot x h t| ≤ 2 ^ 36 := by
  have hb := dot_bound hx hh t
  have ht : (t : ℤ) ≤ 64 := by exact_mod_cast ht
  linarith

/-- **The quotient fits 32 bits.** -/
lemma quotient_bound {z : ℤ} (hz : |z| ≤ 2 ^ 36) : -2 ^ 31 ≤ z.tdiv 32768 ∧ z.tdiv 32768 < 2 ^ 31 := by
  have hsign : (32768 : ℤ).sign = 1 := rfl
  rw [abs_le] at hz
  rw [Int.tdiv_eq_ediv, hsign]
  split <;> omega

/-! ### One output -/

variable {c : Call} {m m' : Mem} {k : ℕ}

/-- The samples from the one of an output on. -/
def window (c : Call) (m : Mem) (k i : ℕ) : ℤ := at16 m c.samples (k + i)

/-- The partial sums of the dot product of the coefficients with the samples of an output. -/
def partialSum (c : Call) (m : Mem) (k t : ℕ) : ℤ := dot (window c m k) (at16 m c.coefficients) t

/-- **One output**: the dot product over 32768, cut to 16 bits. -/
def outputValue (c : Call) (m : Mem) (k : ℕ) : ℤ :=
  max (-2 ^ 15) (min ((partialSum c m k c.tapCount).tdiv 32768) (2 ^ 15 - 1))

lemma at16_narrow (m : Mem) (array i : ℕ) : Narrow (at16 m array i) := by
  rw [at16, readInt16]
  exact toInt16_narrow _

/-- A number in an array depends on its own bytes only. -/
lemma at16_congr {array i : ℕ}
    (hsame : ∀ a, array + 2 * i ≤ a → a < array + 2 * i + 2 → m a = m' a) :
    at16 m array i = at16 m' array i := by
  rw [at16, at16, readInt16, readInt16, load_congr hsame]

lemma window_narrow (c : Call) (m : Mem) (k i : ℕ) : Narrow (window c m k i) := by
  rw [window]
  exact at16_narrow m c.samples (k + i)

lemma outputValue_narrow (c : Call) (m : Mem) (k : ℕ) : Narrow (outputValue c m k) := by
  unfold Narrow outputValue
  omega

lemma partialSum_bound {t : ℕ} (ht : t ≤ maxTaps) : |partialSum c m k t| ≤ 2 ^ 36 :=
  dot_lt (window_narrow c m k) (at16_narrow m c.coefficients) ht

lemma saturate_truncate {z : ℤ} (hz : |z| ≤ 2 ^ 36) :
    saturate (truncate z) = max (-2 ^ 15) (min (z.tdiv 32768) (2 ^ 15 - 1)) := by
  rw [truncate, toInt32_eq (quotient_bound hz), saturate]
  split
  · omega
  · split <;> omega

lemma mac_eq {a b accumulator : ℤ} (ha : Narrow a) (hb : Narrow b)
    (hacc : |accumulator| ≤ 2 ^ 36) : mac accumulator a b = some (accumulator + a * b) := by
  have hp := product_bound ha hb
  have hproduct : int64 (a * b) = some (a * b) := int64_eq (hp.trans_lt (by norm_num))
  have hsum : |accumulator + a * b| < 2 ^ 63 := by
    have htri := abs_add_le accumulator (a * b)
    linarith
  rw [mac, hproduct]
  exact int64_eq hsum

/-- **The loop over single taps.** -/
lemma scalar_loop {t : ℕ} (ht : t ≤ maxTaps) :
    (List.range t).foldlM (fun accumulator tapIndex =>
      mac accumulator (at16 m c.samples (k + tapIndex)) (at16 m c.coefficients tapIndex)) (0 : ℤ) =
      some (partialSum c m k t) := by
  induction t with
  | zero => rw [List.range_zero, List.foldlM_nil, partialSum, dot_zero, Option.pure_def]
  | succ t ih =>
    have hmac := mac_eq (window_narrow c m k t) (at16_narrow m c.coefficients t)
      (partialSum_bound (c := c) (m := m) (k := k) (Nat.le_of_succ_le ht))
    have hnext : partialSum c m k (t + 1) =
        partialSum c m k t + window c m k t * at16 m c.coefficients t := dot_succ t
    rw [List.range_succ, List.foldlM_append, ih (Nat.le_of_succ_le ht), Option.bind_eq_bind,
      Option.bind_some, List.foldlM_cons, ← window, hmac, hnext, Option.bind_eq_bind,
      Option.bind_some, List.foldlM_nil, Option.pure_def]

lemma scalarFilter_eq (ht : c.tapCount ≤ maxTaps) :
    scalarFilter c m k = some (outputValue c m k) := by
  have hvalue := saturate_truncate (partialSum_bound (c := c) (m := m) (k := k) ht)
  rw [scalarFilter, scalar_loop ht, outputValue, ← hvalue, Option.bind_eq_bind, Option.bind_some,
    Option.pure_def]

/-- **What the loop over pairs keeps** holds of what it leaves. -/
lemma pairLoop_inv {α : Type} {step : ℕ → α → Option α} {tapCount : ℕ} {Inv : ℕ → α → Prop}
    (hstep : ∀ t a, t + 1 < tapCount → Inv t a → ∃ a', step t a = some a' ∧ Inv (t + 2) a')
    {t : ℕ} {a : α} (h : Inv t a) (ht : t ≤ tapCount) :
    ∃ t' a', pairLoop step tapCount t a = some (t', a') ∧ Inv t' a' ∧ t' ≤ tapCount ∧
      tapCount ≤ t' + 1 := by
  induction t, a using pairLoop.induct tapCount with
  | case1 t a hlt ih =>
    obtain ⟨a', hs, hinv⟩ := hstep t a hlt h
    rw [pairLoop, if_pos hlt, hs]
    exact ih a' hinv hlt
  | case2 t a hge =>
    rw [pairLoop, if_neg hge]
    exact ⟨t, a, rfl, h, ht, by omega⟩

/-- One more pair of products. -/
lemma partialSum_pair (c : Call) (m : Mem) (k t : ℕ) :
    partialSum c m k (t + 2) = partialSum c m k t + (window c m k t * at16 m c.coefficients t +
      window c m k (t + 1) * at16 m c.coefficients (t + 1)) := by
  rw [partialSum, dot_succ, dot_succ, add_assoc]
  rfl

/-- The last tap, when the loop over pairs has left one over. -/
lemma partialSum_tail {t : ℕ} (h1 : t ≤ c.tapCount) (h2 : c.tapCount ≤ t + 1) :
    partialSum c m k c.tapCount = if t < c.tapCount then
      partialSum c m k t + window c m k t * at16 m c.coefficients t else partialSum c m k t := by
  split
  · rw [show c.tapCount = t + 1 by omega]
    exact dot_succ t
  · rw [show c.tapCount = t by omega]

/-- The products of two pairs, by their lanes. -/
lemma portablePairMac_of_lanes {s p : ℕ} {a a' b b' : ℤ} (ha : Narrow a) (ha' : Narrow a')
    (hb : Narrow b) (hb' : Narrow b') (hs : signedLane (u16 s) = a ∧ signedLane (u16 (s >>> 16)) = a')
    (hp : signedLane (u16 p) = b ∧ signedLane (u16 (p >>> 16)) = b') :
    portablePairMac s p = some (a * b + a' * b') := by
  have hlow := product_bound ha hb
  have hhigh := product_bound ha' hb'
  have hsum := (abs_add_le (a * b) (a' * b')).trans (add_le_add hlow hhigh)
  simp only [portablePairMac, hs.1, hs.2, hp.1, hp.2, int64_eq (hlow.trans_lt (by norm_num)),
    int64_eq (hhigh.trans_lt (by norm_num)), Option.bind_eq_bind, Option.bind_some]
  exact int64_eq (hsum.trans_lt (by norm_num))

lemma portablePairMac_eq (array array' a b : ℕ) :
    portablePairMac (pairAt m array a) (pairAt m array' b) =
      some (at16 m array a * at16 m array' b + at16 m array (a + 1) * at16 m array' (b + 1)) := by
  have ha := at16_narrow m array a
  have ha' := at16_narrow m array (a + 1)
  have hb := at16_narrow m array' b
  have hb' := at16_narrow m array' (b + 1)
  rw [pairAt, pairAt]
  exact portablePairMac_of_lanes ha ha' hb hb' (signedLanes_pack ha ha') (signedLanes_pack hb hb')

lemma packedFilter_eq (ht : c.tapCount ≤ maxTaps) :
    packedFilter c m k = some (outputValue c m k) := by
  have hstep : ∀ t (accumulator : ℤ), t + 1 < c.tapCount → accumulator = partialSum c m k t →
      ∃ accumulator', (do
        let products ← portablePairMac (pairAt m c.samples (k + t)) (pairAt m c.coefficients t)
        int64 (accumulator + products)) = some accumulator' ∧
          accumulator' = partialSum c m k (t + 2) := by
    rintro t _ hlt rfl
    have hsum := partialSum_bound (c := c) (m := m) (k := k) (t := t + 2) (by omega)
    have hadd := int64_eq (hsum.trans_lt (by norm_num))
    refine ⟨_, ?_, rfl⟩
    rw [partialSum_pair] at hadd ⊢
    rw [portablePairMac_eq]
    exact hadd
  obtain ⟨t, _, hloop, rfl, hle, hge⟩ := pairLoop_inv hstep (a := 0) (t := 0) rfl (Nat.zero_le _)
  have hvalue := saturate_truncate (partialSum_bound (c := c) (m := m) (k := k) ht)
  have htail := partialSum_tail (m := m) (k := k) hle hge
  have hmac := mac_eq (window_narrow c m k t) (at16_narrow m c.coefficients t)
    (partialSum_bound (c := c) (m := m) (k := k) (hle.trans ht))
  rw [packedFilter, hloop, outputValue, ← hvalue, htail]
  by_cases hlt : t < c.tapCount
  · simp only [Option.bind_eq_bind, Option.bind_some, if_pos hlt]
    rw [show at16 m c.samples (k + t) = window c m k t from rfl, hmac]
    rfl
  · simp only [Option.bind_eq_bind, Option.bind_some, if_neg hlt]
    rfl

/-! ### The wrapping accumulator -/

lemma toUint64_lt (z : ℤ) : toUint64 z < 2 ^ 64 := by
  unfold toUint64
  omega

lemma toUint64_add (z z' : ℤ) : toUint64 (toUint64 z + z') = toUint64 (z + z') := by
  unfold toUint64
  omega

lemma u64_add (z z' : ℤ) : u64 (toUint64 z + toUint64 z') = toUint64 (z + z') := by
  unfold u64 toUint64
  omega

/-- **The sign is recovered** from the wrapped accumulator. -/
lemma signedAccumulator_eq {z : ℤ} (hz : |z| ≤ 2 ^ 36) :
    signedAccumulator (toUint64 z) = some z := by
  have hlt := toUint64_lt z
  rw [abs_le] at hz
  rw [signedAccumulator]
  split
  · next hle =>
    refine congrArg some ?_
    unfold toUint64 at hle ⊢
    omega
  · next hgt =>
    have hback : -1 - ((uint64Max - toUint64 z : ℕ) : ℤ) = z := by
      unfold uint64Max toUint64 at *
      omega
    rw [hback]
    exact int64_eq (abs_lt.mpr ⟨by omega, by omega⟩)

lemma ssat_eq (D : Intrinsics) {z : ℤ} (hz : |z| ≤ 2 ^ 36) :
    toInt16 (D.ssat (truncate z) 16) = max (-2 ^ 15) (min (z.tdiv 32768) (2 ^ 15 - 1)) := by
  rw [D.ssat_eq _ 16 (by norm_num) (by norm_num), truncate, toInt32_eq (quotient_bound hz)]
  exact toInt16_eq ⟨le_max_left _ _, by omega⟩

/-- One pair of taps on the wrapping accumulator. -/
lemma smlald_eq (D : Intrinsics) (c : Call) (m : Mem) (k t : ℕ) :
    D.smlald (pairAt m c.samples (k + t)) (pairAt m c.coefficients t)
      (toUint64 (partialSum c m k t)) = toUint64 (partialSum c m k (t + 2)) := by
  obtain ⟨hs, hs'⟩ := lanes_pack (at16_narrow m c.samples (k + t))
    (at16_narrow m c.samples (k + t + 1))
  obtain ⟨hc, hc'⟩ := lanes_pack (at16_narrow m c.coefficients t)
    (at16_narrow m c.coefficients (t + 1))
  rw [D.smlald_eq, pairAt, pairAt, hs, hs', hc, hc', add_assoc, toUint64_add, partialSum_pair]
  rfl

lemma m4Filter_eq (D : Intrinsics) (ht : c.tapCount ≤ maxTaps) :
    m4Filter D c m k = some (outputValue c m k) := by
  have hstep : ∀ t (accumulator : ℕ), t + 1 < c.tapCount →
      accumulator = toUint64 (partialSum c m k t) →
      ∃ accumulator', some (D.smlald (pairAt m c.samples (k + t)) (pairAt m c.coefficients t)
        accumulator) = some accumulator' ∧ accumulator' = toUint64 (partialSum c m k (t + 2)) := by
    rintro t _ - rfl
    exact ⟨_, rfl, smlald_eq D c m k t⟩
  have hzero : 0 = toUint64 (partialSum c m k 0) := by
    rw [partialSum, dot_zero]
    rfl
  obtain ⟨t, _, hloop, rfl, hle, hge⟩ := pairLoop_inv hstep hzero (Nat.zero_le _)
  have hbound := partialSum_bound (c := c) (m := m) (k := k) ht
  have htail := partialSum_tail (m := m) (k := k) hle hge
  have hproduct := int64_eq ((product_bound (window_narrow c m k t)
    (at16_narrow m c.coefficients t)).trans_lt (by norm_num))
  have hsigned := signedAccumulator_eq hbound
  rw [m4Filter, hloop, outputValue, ← ssat_eq D hbound]
  by_cases hlt : t < c.tapCount
  · rw [if_pos hlt] at htail
    simp only [Option.bind_eq_bind, Option.bind_some, if_pos hlt]
    rw [← window, hproduct, Option.bind_some, u64_add, ← htail, hsigned]
    rfl
  · rw [if_neg hlt] at htail
    simp only [Option.bind_eq_bind, Option.bind_some, if_neg hlt]
    rw [← htail, hsigned]
    rfl

/-! ### All outputs -/

/-- Memory with the first `n` values in an array of `int16_t`. -/
def written (m : Mem) (array : ℕ) (value : ℕ → ℤ) (n : ℕ) : Mem :=
  (List.range n).foldl (fun m i => store m (array + 2 * i) 2 (toUint16 (value i))) m

section Written

variable {array n : ℕ} {value : ℕ → ℤ}

lemma written_succ : written m array value (n + 1) =
    store (written m array value n) (array + 2 * n) 2 (toUint16 (value n)) := by
  rw [written, List.range_succ, List.foldl_append]
  rfl

/-- Nothing outside the array is written. -/
lemma written_apart {a : ℕ} (ha : a < array ∨ array + 2 * n ≤ a) :
    written m array value n a = m a := by
  induction n with
  | zero => rfl
  | succ n ih =>
    rw [written_succ, store_apply_of_notMem (by omega)]
    exact ih (by omega)

/-- **The values read back.** -/
lemma at16_written (hv : ∀ i, Narrow (value i)) {i : ℕ} (hi : i < n) :
    at16 (written m array value n) array i = value i := by
  induction n with
  | zero => omega
  | succ n ih =>
    rw [at16, readInt16, written_succ]
    rcases eq_or_ne i n with rfl | hne
    · have hbits : toUint16 (value i) % 256 ^ 2 = toUint16 (value i) :=
        Nat.mod_eq_of_lt (toUint16_lt _)
      rw [load_store_self, hbits, toInt16_toUint16, toInt16_eq (hv i)]
    · rw [load_store_of_disjoint (by omega)]
      exact ih (by omega)

/-- **The loop over the outputs**, when what is written does not change what is still to come. -/
lemma outputLoop_eq {filter : Mem → ℕ → Option ℤ}
    (hfilter : ∀ i < n, filter (written m array value i) i = some (value i)) :
    outputLoop filter array n m = some (written m array value n) := by
  induction n with
  | zero => rfl
  | succ n ih =>
    rw [outputLoop] at ih ⊢
    rw [List.range_succ, List.foldlM_append, ih fun i hi => hfilter i (by omega)]
    simp only [Option.bind_eq_bind, Option.bind_some, List.foldlM_cons, List.foldlM_nil,
      hfilter n (by omega), written_succ]
    rfl

end Written

/-! ### Calls -/

variable {T : Target}

/-- **A call with valid buffers.** -/
structure ValidCall (T : Target) (c : Call) : Prop where
  samples : c.samples ≠ 0
  coefficients : c.coefficients ≠ 0
  output : c.output ≠ 0
  tap : 1 ≤ c.tapCount
  taps : c.tapCount ≤ maxTaps
  enough : c.tapCount ≤ c.sampleCount
  room : c.sampleCount - c.tapCount + 1 ≤ c.outputCapacity
  samplesEnd : c.samples + 2 * c.sampleCount ≤ T.sizeMax
  coefficientsEnd : c.coefficients + 2 * c.tapCount ≤ T.sizeMax
  outputEnd : c.output + 2 * (c.sampleCount - c.tapCount + 1) ≤ T.sizeMax
  /-- The output overlaps neither input. -/
  apartSamples : c.output + 2 * (c.sampleCount - c.tapCount + 1) ≤ c.samples ∨
    c.samples + 2 * c.sampleCount ≤ c.output
  apartCoefficients : c.output + 2 * (c.sampleCount - c.tapCount + 1) ≤ c.coefficients ∨
    c.coefficients + 2 * c.tapCount ≤ c.output

lemma byteRange_eq {pointer count : ℕ} (h : pointer + 2 * count ≤ T.sizeMax) :
    byteRange T pointer count = some (pointer, pointer + 2 * count) := by
  rw [byteRange, if_neg (by omega)]
  simp only
  rw [if_neg (by omega), Nat.mul_comm]

lemma ValidCall.count (h : ValidCall T c) :
    validOutputCount c.sampleCount c.tapCount = c.sampleCount - c.tapCount + 1 := by
  have h1 := h.tap
  have h2 := h.taps
  have h3 := h.enough
  exact if_neg (by omega)

/-- **The checks accept every valid call.** -/
lemma ValidCall.validate (h : ValidCall T c) : validate T c = .ok := by
  have h1 := h.tap
  have h2 := h.taps
  have h3 := h.enough
  have h4 := h.room
  have hapart := h.apartSamples
  have hapart' := h.apartCoefficients
  rw [FirQ15.validate, if_neg (by simp [h.samples, h.coefficients, h.output]), if_neg (by omega),
    if_neg (by omega)]
  simp only [h.count, byteRange_eq h.samplesEnd, byteRange_eq h.coefficientsEnd,
    byteRange_eq h.outputEnd]
  rw [if_neg (by omega), if_neg]
  simp only [rangesOverlap, decide_eq_true_eq]
  omega

/-- An output depends on the bytes of the inputs only. -/
lemma outputValue_congr (hle : c.tapCount ≤ c.sampleCount)
    (hsame : ∀ a, (c.samples ≤ a ∧ a < c.samples + 2 * c.sampleCount) ∨
      (c.coefficients ≤ a ∧ a < c.coefficients + 2 * c.tapCount) → m' a = m a)
    (hk : k < c.sampleCount - c.tapCount + 1) : outputValue c m' k = outputValue c m k := by
  have hsum : partialSum c m' k c.tapCount = partialSum c m k c.tapCount := by
    rw [partialSum, partialSum, dot, dot]
    refine Finset.sum_congr rfl fun i hi => ?_
    have hi := Finset.mem_range.mp hi
    have hcoefficient : at16 m' c.coefficients i = at16 m c.coefficients i :=
      at16_congr fun a h1 h2 => hsame a (by omega)
    rw [window, window, hcoefficient, at16_congr fun a h1 h2 => hsame a (by omega)]
  rw [outputValue, outputValue, hsum]

/-- The inputs stay as they are while the outputs are written. -/
lemma ValidCall.outputValue_written (h : ValidCall T c) {value : ℕ → ℤ} {n k : ℕ}
    (hn : n ≤ c.sampleCount - c.tapCount + 1) (hk : k < c.sampleCount - c.tapCount + 1) :
    outputValue c (written m c.output value n) k = outputValue c m k := by
  have hapart := h.apartSamples
  have hapart' := h.apartCoefficients
  exact outputValue_congr h.enough (fun a ha => written_apart (by omega)) hk

/-- **A filter that computes each output** fills the output array. -/
lemma ValidCall.runFilter (h : ValidCall T c) {filter : Call → Mem → ℕ → Option ℤ}
    (hfilter : ∀ m k, filter c m k = some (outputValue c m k)) (m : Mem) :
    runFilter T filter c m = some (.ok, written m c.output (outputValue c m)
      (c.sampleCount - c.tapCount + 1)) := by
  rw [FirQ15.runFilter, if_neg (by simp [h.validate]), h.count, outputLoop_eq fun i hi => ?_]
  · rfl
  · rw [hfilter, h.outputValue_written hi.le hi]

/-- What every filter leaves in memory. -/
structure Filtered (c : Call) (m m' : Mem) : Prop where
  outputs : ∀ k < c.sampleCount - c.tapCount + 1, at16 m' c.output k = outputValue c m k
  apart : ∀ a, a < c.output ∨ c.output + 2 * (c.sampleCount - c.tapCount + 1) ≤ a → m' a = m a

/-- **The filters compute one function**: with valid buffers they all succeed and write the same
outputs, no signed accumulator overflows and no value is narrowed. -/
theorem filters_agree (h : ValidCall T c) (D : Intrinsics) (m : Mem) :
    ∃ m', aymosFirQ15Scalar T c m = some (.ok, m') ∧
      aymosFirQ15PackedPortable T c m = some (.ok, m') ∧
      aymosFirQ15M4 T D c m = some (.ok, m') ∧ Filtered c m m' ∧
      ∀ k t, t ≤ c.tapCount → int64 (partialSum c m k t) = some (partialSum c m k t) ∧
        toInt32 ((partialSum c m k t).tdiv 32768) = (partialSum c m k t).tdiv 32768 := by
  refine ⟨_, h.runFilter (fun m k => scalarFilter_eq h.taps) m,
    h.runFilter (fun m k => packedFilter_eq h.taps) m,
    h.runFilter (fun m k => m4Filter_eq D h.taps) m, ⟨fun k hk => ?_, fun a ha => ?_⟩,
    fun k t ht => ⟨?_, ?_⟩⟩
  · exact at16_written (outputValue_narrow c m) hk
  · exact written_apart ha
  · exact int64_eq ((partialSum_bound (ht.trans h.taps)).trans_lt (by norm_num))
  · exact toInt32_eq (quotient_bound (partialSum_bound (ht.trans h.taps)))

/-- The intrinsics by their laws. -/
def documented : Intrinsics where
  smlald x y sum := toUint64 (sum + lowLane x * lowLane y + highLane x * highLane y)
  ssat value bits := max (-2 ^ (bits - 1)) (min value (2 ^ (bits - 1) - 1))
  smlald_eq _ _ _ := rfl
  ssat_eq _ _ _ _ := rfl

/-- Three taps over four samples. -/
def sampleCall : Call := ⟨0x1000, 4, 0x2000, 3, 0x3000, 2⟩

def sampleMemory : Mem :=
  written (written (fun _ => 0) 0x1000 (fun i => [16384, -8192, 4096, 32767].getD i 0) 4) 0x2000
    (fun i => [16384, 8192, -4096].getD i 0) 3

/-- The second output is negative, and its fraction is cut off. -/
theorem filters_agree_sample :
    ∃ m', aymosFirQ15M4 .arm32 documented sampleCall sampleMemory = some (.ok, m') ∧
      aymosFirQ15Scalar .arm32 sampleCall sampleMemory = some (.ok, m') ∧
      at16 m' 0x3000 0 = 5632 ∧ at16 m' 0x3000 1 = -7167 := by
  have hvalid : ValidCall .arm32 sampleCall :=
    ⟨by decide, by decide, by decide, by decide, by decide, by decide, by decide, by decide,
      by decide, by decide, by decide, by decide⟩
  obtain ⟨m', hscalar, -, hm4, hfiltered, -⟩ := filters_agree hvalid documented sampleMemory
  refine ⟨m', hm4, hscalar, ?_, ?_⟩
  · exact (hfiltered.outputs 0 (by decide)).trans (by decide +kernel)
  · exact (hfiltered.outputs 1 (by decide)).trans (by decide +kernel)

end Aymos.FirAgreement
