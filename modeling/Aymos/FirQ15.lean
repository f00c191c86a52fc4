import Aymos.Allocator
import Mathlib.Algebra.Order.Ring.Int

/-!
The FIR filters of `dsp/src`.

The three filters read their samples and coefficients from memory while they write their outputs
to it. Signed arithmetic that leaves its type is undefined in the source, and such a step has no
result here. What the Cortex-M4 filter takes from CMSIS Core is a parameter with the documented
laws of the two instructions.
-/

namespace Aymos.FirQ15

open ByteMem Words Allocator

def maxTaps : ℕ := 64

/-- `aymos_fir_q15_status_t`. -/
inductive Status
  | ok
  | nullPointer
  | invalidTapCount
  | inputTooShort
  | outputTooSmall
  | sizeOverflow
  | overlappingOutput
  deriving DecidableEq, Repr

/-- The arguments of a filter. -/
structure Call where
  samples : ℕ
  sampleCount : ℕ
  coefficients : ℕ
  tapCount : ℕ
  output : ℕ
  outputCapacity : ℕ
  deriving DecidableEq, Repr

/-! ### Integers of the source -/

/-- The result of a signed 64-bit operation. -/
def int64 (z : ℤ) : Option ℤ := if -2 ^ 63 ≤ z ∧ z < 2 ^ 63 then some z else none

def toInt32 (z : ℤ) : ℤ := z.bmod (2 ^ 32)
def toInt16 (z : ℤ) : ℤ := z.bmod (2 ^ 16)
def toUint64 (z : ℤ) : ℕ := (z % 2 ^ 64).toNat
def toUint16 (z : ℤ) : ℕ := (z % 2 ^ 16).toNat

/-- The `int16_t` at an address. -/
def readInt16 (m : Mem) (a : ℕ) : ℤ := toInt16 (load m a 2)

/-- `array[index]`. -/
def at16 (m : Mem) (array index : ℕ) : ℤ := readInt16 m (array + 2 * index)

/-! ### `fir_q15_common.c` -/

/-- `byte_range`: the first byte and the one after the last. -/
def byteRange (T : Target) (pointer count : ℕ) : Option (ℕ × ℕ) :=
  if count > T.sizeMax / 2 then none
  else
    let bytes := count * 2
    if bytes > T.sizeMax - pointer then none
    else some (pointer, pointer + bytes)

def rangesOverlap (first second : ℕ × ℕ) : Bool := first.1 < second.2 ∧ second.1 < first.2

def validOutputCount (sampleCount tapCount : ℕ) : ℕ :=
  if tapCount = 0 ∨ tapCount > maxTaps ∨ sampleCount < tapCount then 0
  else sampleCount - tapCount + 1

/-- `aymos_fir_q15_validate`. -/
def validate (T : Target) (c : Call) : Status :=
  if c.samples = 0 ∨ c.coefficients = 0 ∨ c.output = 0 then .nullPointer
  else if c.tapCount = 0 ∨ c.tapCount > maxTaps then .invalidTapCount
  else if c.sampleCount < c.tapCount then .inputTooShort
  else
    let outputCount := validOutputCount c.sampleCount c.tapCount
    if c.outputCapacity < outputCount then .outputTooSmall
    else
      match byteRange T c.samples c.sampleCount, byteRange T c.coefficients c.tapCount,
        byteRange T c.output outputCount with
      | some samples, some coefficients, some output =>
        if rangesOverlap output samples ∨ rangesOverlap output coefficients then
          .overlappingOutput
        else .ok
      | _, _, _ => .sizeOverflow

/-- `aymos_fir_q15_truncate`. -/
def truncate (q30Value : ℤ) : ℤ := toInt32 (q30Value.tdiv 32768)

/-- `aymos_fir_q15_saturate`. -/
def saturate (q15Value : ℤ) : ℤ :=
  if q15Value > 32767 then 32767 else if q15Value < -32768 then -32768 else q15Value

/-- `aymos_fir_q15_pack`. -/
def pack (lowLane highLane : ℤ) : ℕ := toUint16 lowLane ||| (toUint16 highLane <<< 16)

/-! ### The loops -/

/-- The loop over the outputs, with the filter of one output. -/
def outputLoop (filter : Mem → ℕ → Option ℤ) (output count : ℕ) (m : Mem) : Option Mem :=
  (List.range count).foldlM (fun m sampleIndex => do
    let value ← filter m sampleIndex
    return store m (output + 2 * sampleIndex) 2 (toUint16 value)) m

/-- The loop over pairs of taps, from a tap on: the first tap left over, and the accumulator. -/
def pairLoop {α : Type} (step : ℕ → α → Option α) (tapCount tapIndex : ℕ) (accumulator : α) :
    Option (ℕ × α) :=
  if tapIndex + 1 < tapCount then
    (step tapIndex accumulator).bind (pairLoop step tapCount (tapIndex + 2))
  else some (tapIndex, accumulator)
termination_by tapCount - tapIndex

/-- A filter: the arguments are checked, then the outputs are written in order. -/
def runFilter (T : Target) (filter : Call → Mem → ℕ → Option ℤ) (c : Call) (m : Mem) :
    Option (Status × Mem) :=
  if validate T c ≠ .ok then some (validate T c, m)
  else
    (outputLoop (filter c) c.output (validOutputCount c.sampleCount c.tapCount) m).map
      fun m => (.ok, m)

/-! ### `fir_q15_scalar.c` -/

/-- One product added to the accumulator. -/
def mac (accumulator sample coefficient : ℤ) : Option ℤ := do
  let product ← int64 (sample * coefficient)
  int64 (accumulator + product)

def scalarFilter (c : Call) (m : Mem) (sampleIndex : ℕ) : Option ℤ := do
  let accumulator ← (List.range c.tapCount).foldlM (fun accumulator tapIndex =>
    mac accumulator (at16 m c.samples (sampleIndex + tapIndex)) (at16 m c.coefficients tapIndex))
    (0 : ℤ)
  return saturate (truncate accumulator)

def aymosFirQ15Scalar (T : Target) : Call → Mem → Option (Status × Mem) :=
  runFilter T scalarFilter

/-! ### `fir_q15_packed_portable.c` -/

def signedLane (value : ℕ) : ℤ := if value ≤ 32767 then value else -1 - (65535 - value : ℕ)

def portablePairMac (samplePair coefficientPair : ℕ) : Option ℤ := do
  let sampleLow := signedLane (u16 samplePair)
  let sampleHigh := signedLane (u16 (samplePair >>> 16))
  let coefficientLow := signedLane (u16 coefficientPair)
  let coefficientHigh := signedLane (u16 (coefficientPair >>> 16))
  let low ← int64 (sampleLow * coefficientLow)
  let high ← int64 (sampleHigh * coefficientHigh)
  int64 (low + high)

/-- The pair of `int16_t` from an index on. -/
def pairAt (m : Mem) (array index : ℕ) : ℕ := pack (at16 m array index) (at16 m array (index + 1))

def packedFilter (c : Call) (m : Mem) (sampleIndex : ℕ) : Option ℤ := do
  let (tapIndex, accumulator) ← pairLoop (fun tapIndex (accumulator : ℤ) => do
    let products ← portablePairMac (pairAt m c.samples (sampleIndex + tapIndex))
      (pairAt m c.coefficients tapIndex)
    int64 (accumulator + products)) c.tapCount 0 (0 : ℤ)
  let accumulator ←
    if tapIndex < c.tapCount then
      mac accumulator (at16 m c.samples (sampleIndex + tapIndex)) (at16 m c.coefficients tapIndex)
    else some accumulator
  return saturate (truncate accumulator)

def aymosFirQ15PackedPortable (T : Target) : Call → Mem → Option (Status × Mem) :=
  runFilter T packedFilter

/-! ### `fir_q15_m4.c` -/

/-- The low and the high lane of a pair. -/
def lowLane (pair : ℕ) : ℤ := toInt16 (u16 pair)
def highLane (pair : ℕ) : ℤ := toInt16 (u16 (pair >>> 16))

/-- The intrinsics of CMSIS Core, as the architecture documents them. -/
structure Intrinsics where
  smlald : ℕ → ℕ → ℕ → ℕ
  ssat : ℤ → ℕ → ℤ
  /-- `SMLALD` adds the products of both lanes to a 64-bit accumulator that wraps. -/
  smlald_eq : ∀ x y sum, smlald x y sum =
    toUint64 (sum + lowLane x * lowLane y + highLane x * highLane y)
  /-- `SSAT` saturates to a signed integer of some bits. -/
  ssat_eq : ∀ value bits, 1 ≤ bits → bits ≤ 32 →
    ssat value bits = max (-2 ^ (bits - 1)) (min value (2 ^ (bits - 1) - 1))

def signedAccumulator (value : ℕ) : Option ℤ :=
  if value ≤ 2 ^ 63 - 1 then some value else int64 (-1 - (uint64Max - value : ℕ))

def m4Filter (D : Intrinsics) (c : Call) (m : Mem) (sampleIndex : ℕ) : Option ℤ := do
  let (tapIndex, accumulator) ← pairLoop (fun tapIndex (accumulator : ℕ) =>
    some (D.smlald (pairAt m c.samples (sampleIndex + tapIndex))
      (pairAt m c.coefficients tapIndex) accumulator)) c.tapCount 0 0
  let accumulator ←
    if tapIndex < c.tapCount then do
      let tail ← int64 (at16 m c.samples (sampleIndex + tapIndex) * at16 m c.coefficients tapIndex)
      some (u64 (accumulator + toUint64 tail))
    else some accumulator
  let scaled := truncate (← signedAccumulator accumulator)
  return toInt16 (D.ssat scaled 16)

def aymosFirQ15M4 (T : Target) (D : Intrinsics) : Call → Mem → Option (Status × Mem) :=
  runFilter T (m4Filter D)

end Aymos.FirQ15
