import Aymos.SignalRun

/-!
The checksums in `apps/signal_lab/main.c`.

They are those of the stream of samples and of its outputs. The numbers are computed over natural
numbers and lists, which the kernel evaluates fast, and this computation is shown to be the one that
the tasks make.
-/

namespace Aymos.SignalVectors

open Words FirQ15 FirAgreement Wire ResultLine SignalTasks SignalRun

/-! ### Shift registers -/

/-- A shift register over natural numbers. -/
def shiftNat (feedback state : ℕ) : ℕ := (state >>> 1) ^^^ (feedback * (state % 2))

/-- **The mask of the source** selects the feedback of an odd state. -/
lemma shift_toNat (feedback state : BitVec 32) :
    ((state >>> 1) ^^^ (feedback &&& (0#32 - (state &&& 1#32)))).toNat =
      shiftNat feedback.toNat state.toNat := by
  have hmask : feedback &&& (0#32 - (state &&& 1#32)) =
      if state.getLsbD 0 then feedback else 0#32 := by
    rw [BitVec.and_one_eq_setWidth_ofBool_getLsbD]
    cases state.getLsbD 0 with
    | false => simp
    | true =>
      have hones : 0#32 - BitVec.setWidth 32 (BitVec.ofBool true) = BitVec.allOnes 32 := by decide
      rw [hones, BitVec.and_allOnes]
      rfl
  have hbit : state.toNat % 2 = (state.getLsbD 0).toNat := by
    rw [BitVec.getLsbD, Nat.testBit_zero]
    rcases Nat.mod_two_eq_zero_or_one state.toNat with h | h <;> rw [h] <;> rfl
  rw [hmask, BitVec.toNat_xor, BitVec.toNat_ushiftRight, shiftNat, hbit]
  cases state.getLsbD 0 with
  | false => rfl
  | true => rw [Bool.toNat_true, Nat.mul_one, if_pos rfl]

def lfsrNat : ℕ → ℕ := shiftNat 0x80200003

lemma lfsrNext_toNat (state : BitVec 32) : (lfsrNext state).toNat = lfsrNat state.toNat :=
  shift_toNat _ _

def crcBitNat : ℕ → ℕ := shiftNat 0xEDB88320

def crcByteNat (crc byte : ℕ) : ℕ :=
  crcBitNat (crcBitNat (crcBitNat (crcBitNat (crcBitNat (crcBitNat (crcBitNat (crcBitNat
    (crc ^^^ byte))))))))

lemma crc32Byte_toNat (crc : BitVec 32) (byte : UInt8) :
    (crc32Byte crc byte).toNat = crcByteNat crc.toNat byte.toNat := by
  have hbit : ∀ c : BitVec 32, (crc32Bit c).toNat = crcBitNat c.toNat := fun c => shift_toNat _ c
  have hbyte : (byte.toBitVec.setWidth 32).toNat = byte.toNat := by
    rw [BitVec.toNat_setWidth]
    exact Nat.mod_eq_of_lt (byte.toNat_lt.trans (by decide))
  simp only [crc32Byte, Function.iterate_succ, Function.iterate_zero, Function.comp_apply, id_eq,
    hbit, BitVec.toNat_xor, hbyte, crcByteNat]

def crcQ15Nat (crc : ℕ) (value : ℤ) : ℕ :=
  let bits := toUint16 value
  crcByteNat (crcByteNat crc (bits % 256)) (bits >>> 8)

lemma crc32Q15_toNat (state : BitVec 32) (values : List ℤ) :
    (crc32Q15 state values).toNat = values.foldl crcQ15Nat state.toNat := by
  induction values generalizing state with
  | nil => rfl
  | cons value values ih =>
    have hhigh : (UInt8.ofNat (toUint16 value >>> 8)).toNat = toUint16 value >>> 8 := by
      rw [UInt8.toNat_ofNat', Nat.shiftRight_eq_div_pow]
      exact Nat.mod_eq_of_lt (Nat.div_lt_of_lt_mul (toUint16_lt value))
    rw [crc32Q15, List.foldl_cons, ← crc32Q15, ih, List.foldl_cons, crc32Byte_toNat,
      crc32Byte_toNat, hhigh, UInt8.toNat_ofNat']
    rfl

/-! ### Samples and outputs -/

/-- Samples from a state on. -/
def samplesFrom : ℕ → ℕ → List ℤ
  | 0, _ => []
  | n + 1, state =>
    let state := lfsrNat state
    signedSample (state % 65536) :: samplesFrom n state

lemma samplesFrom_eq (n k : ℕ) :
    samplesFrom n (stateAfter k).toNat = (List.range n).map fun i => sample (k + i) := by
  induction n generalizing k with
  | zero => rfl
  | succ n ih =>
    rw [samplesFrom, List.range_succ_eq_map, List.map_cons, List.map_map, ← lfsrNext_toNat,
      ← stateAfter_succ, ih]
    refine congrArg₂ List.cons rfl (List.map_congr_left fun i _ => ?_)
    exact congrArg sample (by omega)

lemma stateAfter_toNat (n : ℕ) : (stateAfter n).toNat = lfsrNat^[n] signalSeed := by
  induction n with
  | zero => rfl
  | succ n ih => rw [stateAfter_succ, lfsrNext_toNat, ih, Function.iterate_succ_apply']

/-- The samples of a frame. -/
def frameList (frame : ℕ) : List ℤ :=
  samplesFrom sampleCount (lfsrNat^[sampleCount * frame] signalSeed)

lemma frameList_eq (frame : ℕ) : frameList frame = frameSamples frame := by
  rw [frameList, ← stateAfter_toNat, samplesFrom_eq]
  rfl

/-- The output of the first samples of a list. -/
def outputHead (samples : List ℤ) : ℤ :=
  max (-2 ^ 15) (min ((List.zipWith (· * ·) samples coefficients).sum.tdiv 32768) (2 ^ 15 - 1))

/-- The outputs of a list of samples. -/
def outputsFrom : ℕ → List ℤ → List ℤ
  | 0, _ => []
  | n + 1, samples => outputHead samples :: outputsFrom n samples.tail

lemma sum_zipWith (g h : ℕ → ℤ) {t n : ℕ} (hn : t ≤ n) :
    (List.zipWith (· * ·) ((List.range n).map g) ((List.range t).map h)).sum = dot g h t := by
  induction t generalizing g h n with
  | zero => simp [dot]
  | succ t ih =>
    obtain ⟨n, rfl⟩ := Nat.exists_eq_succ_of_ne_zero (Nat.ne_zero_of_lt hn)
    rw [List.range_succ_eq_map, List.range_succ_eq_map, List.map_cons, List.map_cons,
      List.zipWith_cons_cons, List.sum_cons, List.map_map, List.map_map,
      ih _ _ (Nat.le_of_succ_le_succ hn), dot, dot, Finset.sum_range_succ', add_comm]
    rfl

lemma outputHead_eq (g : ℕ → ℤ) {n : ℕ} (hn : tapCount ≤ n) :
    outputHead ((List.range n).map g) =
      max (-2 ^ 15) (min ((dot g (fun i => coefficients.getD i 0) tapCount).tdiv 32768)
        (2 ^ 15 - 1)) := by
  have hcoefficients :
      (List.range tapCount).map (fun i => coefficients.getD i 0) = coefficients := by decide
  rw [outputHead, ← sum_zipWith g _ hn, hcoefficients]

lemma outputsFrom_eq (g : ℕ → ℤ) {k n : ℕ} (hn : k + (tapCount - 1) ≤ n) :
    outputsFrom k ((List.range n).map g) = (List.range k).map fun i =>
      max (-2 ^ 15) (min ((dot (fun j => g (i + j)) (fun j => coefficients.getD j 0)
        tapCount).tdiv 32768) (2 ^ 15 - 1)) := by
  have htaps : tapCount = 16 := rfl
  induction k generalizing g n with
  | zero => rfl
  | succ k ih =>
    obtain ⟨n, rfl⟩ : ∃ m, n = m + 1 := ⟨n - 1, by omega⟩
    rw [outputsFrom, outputHead_eq g (by omega), List.range_succ_eq_map, List.map_cons,
      List.tail_cons, List.map_map, ih _ (by omega), List.range_succ_eq_map, List.map_cons,
      List.map_map]
    refine congrArg₂ List.cons ?_ (List.map_congr_left fun i _ => ?_)
    · simp only [Nat.zero_add]
    · simp only [Function.comp_apply, Nat.succ_eq_add_one, Nat.add_right_comm]

/-- The outputs of a frame. -/
def outputList (frame : ℕ) : List ℤ := outputsFrom ResultLine.validOutputCount (frameList frame)

lemma outputList_eq (frame : ℕ) : outputList frame = frameOutputs frame := by
  rw [outputList, frameList_eq, frameSamples, outputsFrom_eq _ (by decide)]
  rfl

/-! ### The checksums of the source -/

/-- The checksum of numbers, over natural numbers. -/
def checksumNat (values : List ℤ) : ℕ := values.foldl crcQ15Nat 0xFFFFFFFF ^^^ 0xFFFFFFFF

lemma checksum_toNat (values : List ℤ) : (crc32 (bytesOf values)).toNat = checksumNat values := by
  have hxor : ~~~crc32Q15 0xFFFFFFFF#32 values =
      crc32Q15 0xFFFFFFFF#32 values ^^^ BitVec.allOnes 32 := (BitVec.xor_allOnes).symm
  rw [← crc32Q15_bytes, hxor, BitVec.toNat_xor, crc32Q15_toNat]
  rfl

/-- **The checksums of the frames.** -/
theorem frame_checksums : ∀ frame < frameCount,
    crc32 (bytesOf (frameSamples frame)) = expectedFrameInputCrc.getD frame 0 ∧
      crc32 (bytesOf (frameOutputs frame)) = expectedFrameOutputCrc.getD frame 0 := by
  have hall : ∀ frame < frameCount,
      checksumNat (frameList frame) = (expectedFrameInputCrc.getD frame 0).toNat ∧
        checksumNat (outputList frame) = (expectedFrameOutputCrc.getD frame 0).toNat := by
    decide +kernel
  intro frame hf
  obtain ⟨hinput, houtput⟩ := hall frame hf
  rw [← checksum_toNat, frameList_eq] at hinput
  rw [← checksum_toNat, outputList_eq] at houtput
  exact ⟨BitVec.eq_of_toNat_eq hinput, BitVec.eq_of_toNat_eq houtput⟩

/-- **The checksums of the run.** -/
theorem aggregate_checksums : (crc32 (bytesOf (allSamples frameCount))).toNat = expectedInputCrc ∧
    (crc32 (bytesOf (allOutputs frameCount))).toNat = expectedOutputCrc := by
  have hinput : checksumNat ((List.range frameCount).flatMap frameList) = expectedInputCrc := by
    decide +kernel
  have houtput : checksumNat ((List.range frameCount).flatMap outputList) = expectedOutputCrc := by
    decide +kernel
  rw [← checksum_toNat] at hinput houtput
  rw [List.flatMap_congr fun frame _ => frameList_eq frame] at hinput
  rw [List.flatMap_congr fun frame _ => outputList_eq frame] at houtput
  exact ⟨hinput, houtput⟩

end Aymos.SignalVectors
