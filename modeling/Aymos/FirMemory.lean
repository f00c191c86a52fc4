import Aymos.FirAgreement
import Mathlib.Order.CompletePartialOrder
import Mathlib.Order.Interval.Set.Disjoint

/-!
The FIR filters and the memory around their buffers.

Every size and address here is a machine word and wraps as the machine wraps it, and each byte that
is written is noted. The checks turn away every call whose ranges would wrap, run past the
capacity or overlap, so on the calls they accept no sum has wrapped.
-/

namespace Aymos.FirMemory

open ByteMem Words Allocator FirQ15 FirAgreement

variable (T : Target)

/-! ### The checks on machine words -/

/-- `byte_range`. -/
def byteRangeWords (pointer count : ℕ) : Option (ℕ × ℕ) :=
  if count > T.sizeMax / 2 then none
  else
    let bytes := count * 2 % T.modulus
    if bytes > T.wsub T.sizeMax pointer then none
    else some (pointer, T.wadd pointer bytes)

/-- `aymos_fir_q15_valid_output_count`. -/
def validOutputCountWords (sampleCount tapCount : ℕ) : ℕ :=
  if tapCount = 0 ∨ tapCount > maxTaps ∨ sampleCount < tapCount then 0
  else T.wadd (T.wsub sampleCount tapCount) 1

/-- `aymos_fir_q15_validate`. -/
def validateWords (c : Call) : Status :=
  if c.samples = 0 ∨ c.coefficients = 0 ∨ c.output = 0 then .nullPointer
  else if c.tapCount = 0 ∨ c.tapCount > maxTaps then .invalidTapCount
  else if c.sampleCount < c.tapCount then .inputTooShort
  else
    let outputCount := validOutputCountWords T c.sampleCount c.tapCount
    if c.outputCapacity < outputCount then .outputTooSmall
    else
      match byteRangeWords T c.samples c.sampleCount, byteRangeWords T c.coefficients c.tapCount,
        byteRangeWords T c.output outputCount with
      | some samples, some coefficients, some output =>
        if rangesOverlap output samples ∨ rangesOverlap output coefficients then
          .overlappingOutput
        else .ok
      | _, _, _ => .sizeOverflow

/-! ### Memory and what is written to it -/

/-- Memory, with the address of every byte written so far. -/
structure Trail where
  mem : Mem
  written : List ℕ

/-- The memory that a read at any sum of words sees. -/
def wrapped (m : Mem) : Mem := fun a => m (a % T.modulus)

/-- An `int16_t` is written. -/
def writeInt16 (t : Trail) (a v : ℕ) : Trail :=
  { mem := Function.update (Function.update t.mem (T.wadd a 1) (UInt8.ofNat (v / 256))) a
      (UInt8.ofNat v)
    written := t.written ++ [a, T.wadd a 1] }

/-- The loop over the outputs. -/
def outputLoopWords (filter : Mem → ℕ → Option ℤ) (output count : ℕ) (t : Trail) : Option Trail :=
  (List.range count).foldlM (fun t sampleIndex => do
    let value ← filter (wrapped T t.mem) sampleIndex
    return writeInt16 T t (T.wadd output (2 * sampleIndex)) (toUint16 value)) t

/-- The three filters. -/
inductive Fir
  | scalar
  | packedPortable
  | m4 (D : Intrinsics)

/-- One output of a filter. -/
def Fir.filter : Fir → Call → Mem → ℕ → Option ℤ
  | .scalar => scalarFilter
  | .packedPortable => packedFilter
  | .m4 D => m4Filter D

/-- A call of a filter. -/
def Fir.run (f : Fir) (c : Call) (m : Mem) : Option (Status × Trail) :=
  if validateWords T c ≠ .ok then some (validateWords T c, ⟨m, []⟩)
  else
    (outputLoopWords T (f.filter c) c.output (validOutputCountWords T c.sampleCount c.tapCount)
      ⟨m, []⟩).map fun t => (.ok, t)

/-- The arguments of a call, as the machine words they are. -/
structure Arguments extends Call where
  samples_le : samples ≤ T.sizeMax
  sampleCount_le : sampleCount ≤ T.sizeMax
  coefficients_le : coefficients ≤ T.sizeMax
  tapCount_le : tapCount ≤ T.sizeMax
  output_le : output ≤ T.sizeMax
  outputCapacity_le : outputCapacity ≤ T.sizeMax

variable {T} {c : Call} {m : Mem}

/-! ### No sum of an accepted call wraps -/

lemma modulus_pos (T : Target) : 0 < T.modulus := by
  cases T <;> decide

lemma sizeMax_lt (T : Target) : T.sizeMax < T.modulus := by
  have := modulus_pos T
  unfold Target.sizeMax
  omega

lemma wadd_eq {a b : ℕ} (h : a + b ≤ T.sizeMax) : T.wadd a b = a + b :=
  Nat.mod_eq_of_lt (h.trans_lt (sizeMax_lt T))

lemma wsub_eq {a b : ℕ} (hab : b ≤ a) (ha : a ≤ T.sizeMax) : T.wsub a b = a - b := by
  have hlt := sizeMax_lt T
  rw [Target.wsub, show a + T.modulus - b = (a - b) + T.modulus by omega, Nat.add_mod_right]
  exact Nat.mod_eq_of_lt (by omega)

lemma byteRangeWords_eq {pointer : ℕ} (hp : pointer ≤ T.sizeMax) (count : ℕ) :
    byteRangeWords T pointer count = byteRange T pointer count := by
  have hlt := sizeMax_lt T
  rw [byteRangeWords, byteRange]
  by_cases hc : count > T.sizeMax / 2
  · rw [if_pos hc, if_pos hc]
  · have hbytes : count * 2 % T.modulus = count * 2 := Nat.mod_eq_of_lt (by omega)
    rw [if_neg hc, if_neg hc]
    simp only [hbytes, wsub_eq hp (le_refl _)]
    split
    · rfl
    · rw [wadd_eq (by omega)]

lemma validOutputCountWords_eq {sampleCount tapCount : ℕ} (hs : sampleCount ≤ T.sizeMax) :
    validOutputCountWords T sampleCount tapCount = validOutputCount sampleCount tapCount := by
  rw [validOutputCountWords, validOutputCount]
  split
  · rfl
  · rw [wsub_eq (by omega) hs, wadd_eq (by omega)]

/-- **The checks on machine words** are the checks on numbers. -/
lemma validateWords_eq (a : Arguments T) : validateWords T a.toCall = validate T a.toCall := by
  simp only [validateWords, validOutputCountWords_eq a.sampleCount_le,
    byteRangeWords_eq a.samples_le, byteRangeWords_eq a.coefficients_le,
    byteRangeWords_eq a.output_le]
  rfl

/-! ### What the checks accept -/

/-- The bytes of the output array, of the samples and of the coefficients. -/
def outputBytes (c : Call) : Set ℕ :=
  Set.Ico c.output (c.output + 2 * (c.sampleCount - c.tapCount + 1))

def sampleBytes (c : Call) : Set ℕ := Set.Ico c.samples (c.samples + 2 * c.sampleCount)

def coefficientBytes (c : Call) : Set ℕ := Set.Ico c.coefficients (c.coefficients + 2 * c.tapCount)

variable (T) in
/-- **A call that may be made**: its pointers are not null, there are 1 to 64 taps, enough samples
and enough capacity, the end of no range wraps, and the output is disjoint from both inputs. -/
structure Acceptable (c : Call) : Prop where
  pointers : c.samples ≠ 0 ∧ c.coefficients ≠ 0 ∧ c.output ≠ 0
  taps : 1 ≤ c.tapCount ∧ c.tapCount ≤ 64
  enough : c.tapCount ≤ c.sampleCount
  capacity : c.sampleCount - c.tapCount + 1 ≤ c.outputCapacity
  samplesEnd : c.samples + 2 * c.sampleCount < T.modulus
  coefficientsEnd : c.coefficients + 2 * c.tapCount < T.modulus
  outputEnd : c.output + 2 * (c.sampleCount - c.tapCount + 1) < T.modulus
  samplesApart : Disjoint (outputBytes c) (sampleBytes c)
  coefficientsApart : Disjoint (outputBytes c) (coefficientBytes c)

/-- Two ranges that are not empty are disjoint when one ends before the other. -/
lemma disjoint_iff {a b n k : ℕ} (hn : 0 < n) (hk : 0 < k) :
    Disjoint (Set.Ico a (a + n)) (Set.Ico b (b + k)) ↔ a + n ≤ b ∨ b + k ≤ a := by
  rw [Set.Ico_disjoint_Ico]
  omega

lemma acceptable_iff : Acceptable T c ↔ ValidCall T c := by
  have hlt := sizeMax_lt T
  have hmod : T.modulus = T.sizeMax + 1 := by
    unfold Target.sizeMax at *
    omega
  constructor
  · intro h
    have h1 := h.taps.1
    have h2 := h.enough
    have hs := (disjoint_iff (by omega) (by omega)).mp h.samplesApart
    have hc := (disjoint_iff (by omega) (by omega)).mp h.coefficientsApart
    have h3 := h.samplesEnd
    have h4 := h.coefficientsEnd
    have h5 := h.outputEnd
    exact ⟨h.pointers.1, h.pointers.2.1, h.pointers.2.2, h1, h.taps.2, h2, h.capacity, by omega,
      by omega, by omega, hs, hc⟩
  · intro h
    have h1 := h.tap
    have h2 := h.enough
    have h3 := h.samplesEnd
    have h4 := h.coefficientsEnd
    have h5 := h.outputEnd
    exact ⟨⟨h.samples, h.coefficients, h.output⟩, ⟨h1, h.taps⟩, h2, h.room, by omega, by omega,
      by omega, (disjoint_iff (by omega) (by omega)).mpr h.apartSamples,
      (disjoint_iff (by omega) (by omega)).mpr h.apartCoefficients⟩

lemma byteRange_eq_some {pointer count : ℕ} {r : ℕ × ℕ} (hp : pointer ≤ T.sizeMax)
    (h : byteRange T pointer count = some r) :
    pointer + 2 * count ≤ T.sizeMax ∧ r = (pointer, pointer + 2 * count) := by
  rw [byteRange] at h
  split at h
  · cases h
  · simp only at h
    split at h
    · cases h
    · obtain rfl := Option.some.inj h
      exact ⟨by omega, by rw [Nat.mul_comm]⟩

/-- **The checks accept the acceptable calls**, and no others. -/
lemma validate_iff (a : Arguments T) : validate T a.toCall = .ok ↔ ValidCall T a.toCall := by
  refine ⟨fun h => ?_, ValidCall.validate⟩
  rw [validate] at h
  split at h
  · cases h
  next hnull =>
  split at h
  · cases h
  next htaps =>
  split at h
  · cases h
  next henough =>
  have hcount : validOutputCount a.sampleCount a.tapCount = a.sampleCount - a.tapCount + 1 :=
    if_neg (by omega)
  simp only [hcount] at h
  split at h
  · cases h
  next hroom =>
  split at h
  · next samples coefficients output hs hc ho =>
    obtain ⟨hsEnd, rfl⟩ := byteRange_eq_some a.samples_le hs
    obtain ⟨hcEnd, rfl⟩ := byteRange_eq_some a.coefficients_le hc
    obtain ⟨hoEnd, rfl⟩ := byteRange_eq_some a.output_le ho
    split at h
    · cases h
    · next hapart =>
      simp only [rangesOverlap, decide_eq_true_eq, not_or, not_and, not_lt] at hapart
      refine ⟨by tauto, by tauto, by tauto, by omega, by omega, by omega, by omega, hsEnd,
        hcEnd, hoEnd, ?_, ?_⟩
      · have := hapart.1
        omega
      · have := hapart.2
        omega
  · cases h

/-! ### The outputs -/

/-- The addresses of the bytes of the first outputs, in the order in which they are written. -/
def outputAddresses (output n : ℕ) : List ℕ :=
  (List.range n).flatMap fun k => [output + 2 * k, output + 2 * k + 1]

lemma mem_outputAddresses {output n a : ℕ} :
    a ∈ outputAddresses output n ↔ output ≤ a ∧ a < output + 2 * n := by
  simp only [outputAddresses, List.mem_flatMap, List.mem_range, List.mem_cons, List.not_mem_nil,
    or_false]
  constructor
  · rintro ⟨k, hk, rfl | rfl⟩ <;> omega
  · rintro ⟨h1, h2⟩
    exact ⟨(a - output) / 2, by omega, by omega⟩

/-- A byte in range is read at its own address. -/
lemma wrapped_apply {a : ℕ} (ha : a < T.modulus) : wrapped T m a = m a := by
  rw [wrapped, Nat.mod_eq_of_lt ha]

/-- A write of an `int16_t` whose bytes are in range. -/
lemma writeInt16_eq {t : Trail} {a v : ℕ} (ha : a + 1 ≤ T.sizeMax) :
    writeInt16 T t a v = ⟨store t.mem a 2 v, t.written ++ [a, a + 1]⟩ := by
  rw [writeInt16, wadd_eq ha]
  rfl

/-- Every filter computes the output, from the memory that its reads see. -/
lemma filter_eq (f : Fir) (ht : c.tapCount ≤ maxTaps) (m : Mem) (k : ℕ) :
    f.filter c m k = some (outputValue c m k) := by
  cases f with
  | scalar => exact scalarFilter_eq ht
  | packedPortable => exact packedFilter_eq ht
  | m4 D => exact m4Filter_eq D ht

/-- The inputs read through the wrap are the inputs before the first output. -/
lemma outputValue_wrapped (h : ValidCall T c) {n k : ℕ} (hn : n ≤ c.sampleCount - c.tapCount + 1)
    (hk : k < c.sampleCount - c.tapCount + 1) :
    outputValue c (wrapped T (written m c.output (outputValue c m) n)) k = outputValue c m k := by
  have hlt := sizeMax_lt T
  have h1 := h.samplesEnd
  have h2 := h.coefficientsEnd
  have hs := h.apartSamples
  have hc := h.apartCoefficients
  refine outputValue_congr h.enough (fun a ha => ?_) hk
  rw [wrapped_apply (by omega)]
  exact written_apart (by omega)

/-- **The loop over the outputs** of an accepted call, up to any output. -/
lemma outputLoopWords_eq (h : ValidCall T c) (f : Fir) (m : Mem) {n : ℕ}
    (hn : n ≤ c.sampleCount - c.tapCount + 1) :
    outputLoopWords T (f.filter c) c.output n ⟨m, []⟩ =
      some ⟨written m c.output (outputValue c m) n, outputAddresses c.output n⟩ := by
  have hend := h.outputEnd
  induction n with
  | zero => rfl
  | succ n ih =>
    have hvalue := outputValue_wrapped (m := m) h (n := n) (k := n) (by omega) (by omega)
    have haddr : T.wadd c.output (2 * n) = c.output + 2 * n := wadd_eq (by omega)
    have haddresses : outputAddresses c.output (n + 1) =
        outputAddresses c.output n ++ [c.output + 2 * n, c.output + 2 * n + 1] := by
      simp [outputAddresses, List.range_succ]
    rw [outputLoopWords] at ih ⊢
    rw [List.range_succ, List.foldlM_append, ih (by omega)]
    simp only [Option.bind_eq_bind, Option.bind_some, List.foldlM_cons, List.foldlM_nil,
      filter_eq f h.taps, hvalue, haddr, haddresses, written_succ,
      writeInt16_eq (show c.output + 2 * n + 1 ≤ T.sizeMax by omega), Option.pure_def]

/-- The bytes of the output that a call writes are the first ones in memory. -/
lemma run_valid (a : Arguments T) (h : ValidCall T a.toCall) (f : Fir) (m : Mem) :
    f.run T a.toCall m = some (.ok,
      ⟨written m a.output (outputValue a.toCall m) (a.sampleCount - a.tapCount + 1),
        outputAddresses a.output (a.sampleCount - a.tapCount + 1)⟩) := by
  have hcheck : ¬validateWords T a.toCall ≠ .ok := by
    rw [validateWords_eq, h.validate]
    exact fun hne => hne rfl
  rw [Fir.run, if_neg hcheck, validOutputCountWords_eq a.sampleCount_le, h.count,
    outputLoopWords_eq h f m (le_refl _)]
  rfl

lemma run_invalid (a : Arguments T) (h : ¬ValidCall T a.toCall) (f : Fir) (m : Mem) :
    ∃ status, status ≠ .ok ∧ f.run T a.toCall m = some (status, ⟨m, []⟩) := by
  have hcheck : validateWords T a.toCall ≠ .ok := by
    rw [validateWords_eq]
    exact fun hok => h ((validate_iff a).mp hok)
  exact ⟨_, hcheck, if_pos hcheck⟩

/-- What an output array holds does not depend on the memory it is written to. -/
lemma written_congr {m' : Mem} {array n x : ℕ} {value value' : ℕ → ℤ}
    (hv : ∀ k < n, value' k = value k) (h1 : array ≤ x) (h2 : x < array + 2 * n) :
    written m' array value' n x = written m array value n x := by
  induction n with
  | zero => omega
  | succ n ih =>
    rw [written_succ, written_succ, hv n (Nat.lt_succ_self n)]
    by_cases hx : x < array + 2 * n
    · rw [store_apply_of_notMem (Or.inl hx), store_apply_of_notMem (Or.inl hx)]
      exact ih (fun k hk => hv k (by omega)) hx
    · obtain rfl | rfl : x = array + 2 * n ∨ x = array + 2 * n + 1 := by omega
      · simp [store]
      · simp [store]

/-- Memory that agrees with `m` on the bytes of a set. -/
def AgreeOn (s : Set ℕ) (m m' : Mem) : Prop := ∀ a ∈ s, m' a = m a

/-- **The checks protect memory**, in each filter and for all arguments: the call is accepted exactly
where its ranges fit the address space and the capacity and the output is disjoint from the
inputs; it writes to the output array alone, and to nothing where it is not accepted; after any
number of outputs the inputs are as they were; and what is written depends on the inputs alone. -/
theorem arguments_protect_memory (f : Fir) (a : Arguments T) (m : Mem) :
    ∃ status t, f.run T a.toCall m = some (status, t) ∧
      (status = .ok ↔ Acceptable T a.toCall) ∧
      (status ≠ .ok → t = ⟨m, []⟩) ∧
      (∀ x ∈ t.written, x ∈ outputBytes a.toCall) ∧
      (∀ x, x ∉ t.written → t.mem x = m x) ∧
      (status = .ok → ∀ n ≤ a.sampleCount - a.tapCount + 1, ∃ t',
        outputLoopWords T (f.filter a.toCall) a.output n ⟨m, []⟩ = some t' ∧
          AgreeOn (sampleBytes a.toCall ∪ coefficientBytes a.toCall) m t'.mem) ∧
      (status = .ok → ∀ m', AgreeOn (sampleBytes a.toCall ∪ coefficientBytes a.toCall) m m' →
        ∃ t', f.run T a.toCall m' = some (.ok, t') ∧ AgreeOn (outputBytes a.toCall) t.mem t'.mem) := by
  by_cases h : ValidCall T a.toCall
  · have hs := h.apartSamples
    have hc := h.apartCoefficients
    have hvalue : ∀ m', AgreeOn (sampleBytes a.toCall ∪ coefficientBytes a.toCall) m m' →
        ∀ k < a.sampleCount - a.tapCount + 1, outputValue a.toCall m' k = outputValue a.toCall m k :=
      fun m' hm' k hk => outputValue_congr h.enough (fun x hx => hm' x hx) hk
    refine ⟨_, _, run_valid a h f m, ⟨fun _ => acceptable_iff.mpr h, fun _ => rfl⟩,
      fun hne => absurd rfl hne, fun x hx => mem_outputAddresses.mp hx, fun x hx => ?_,
      fun _ n hn => ⟨_, outputLoopWords_eq h f m hn, fun x hx => ?_⟩, fun _ m' hm' =>
        ⟨_, run_valid a h f m', fun x hx => ?_⟩⟩
    · rw [mem_outputAddresses] at hx
      exact written_apart (by omega)
    · have hx : (a.samples ≤ x ∧ x < a.samples + 2 * a.sampleCount) ∨
        (a.coefficients ≤ x ∧ x < a.coefficients + 2 * a.tapCount) := hx
      exact written_apart (by omega)
    · exact written_congr (hvalue m' hm') hx.1 hx.2
  · obtain ⟨status, hne, hrun⟩ := run_invalid a h f m
    refine ⟨status, _, hrun, ⟨fun hok => absurd hok hne, fun hacc => absurd (acceptable_iff.mp hacc) h⟩,
      fun _ => rfl, fun x hx => ?_, fun _ _ => rfl, fun hok => absurd hok hne,
      fun hok => absurd hok hne⟩
    cases hx

/-- A call whose ranges are apart. -/
def apartArguments : Arguments .arm32 where
  toCall := sampleCall
  samples_le := by decide
  sampleCount_le := by decide
  coefficients_le := by decide
  tapCount_le := by decide
  output_le := by decide
  outputCapacity_le := by decide

/-- The same call with its output over the last sample. -/
def overlappingArguments : Arguments .arm32 :=
  { apartArguments with
    output := 0x1006
    output_le := by decide }

example : (Fir.scalar.run .arm32 apartArguments.toCall sampleMemory).map
    (fun r => (r.1, r.2.written)) = some (.ok, [0x3000, 0x3001, 0x3002, 0x3003]) := by
  decide +kernel

example : (Fir.scalar.run .arm32 overlappingArguments.toCall sampleMemory).map
    (fun r => (r.1, r.2.written)) = some (.overlappingOutput, []) := by
  decide +kernel

end Aymos.FirMemory
