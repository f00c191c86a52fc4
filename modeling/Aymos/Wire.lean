import Aymos.Crc
import Aymos.LittleEndian
import Aymos.Trace

/-!
The transport of `kernel/src/trace_runtime.c`: records and the footer as bytes, the frames they
are sent in, and the loop of `os_trace_finish` that empties a closed ring.
-/

namespace Aymos.Wire

open Words Trace LittleEndian

def frameVersion : ℕ := 1
def frameRecord : ℕ := 1
def frameFooter : ℕ := 2
def recordSize : ℕ := 32
def footerPayloadSize : ℕ := 28

def ascii (text : List Char) : List UInt8 := text.map fun c => UInt8.ofNat c.toNat

/-- The sync of a frame. -/
def frameSync : List UInt8 := ascii ['A', 'Y', 'M', 'T']

def crlf : List UInt8 := [13, 10]

/-- What the application writes before the first frame. -/
def preamble : List UInt8 :=
  ascii ['A', 'Y', 'M', 'O', 'S', ' ', 'R', 'E', 'A', 'D', 'Y'] ++ crlf ++
    ascii ['T', 'R', 'A', 'C', 'E', ' ', 'B', 'E', 'G', 'I', 'N'] ++ crlf

/-- What the application writes after the last frame. -/
def trailer : List UInt8 :=
  ascii ['A', 'Y', 'M', 'O', 'S', ' ', 'T', 'R', 'A', 'C', 'E', ' ', 'D', 'O', 'N', 'E'] ++ crlf

/-! ### Packing -/

def putU16 (value : ℕ) : List UInt8 := [UInt8.ofNat value, UInt8.ofNat (value >>> 8)]

def putU32 (value : ℕ) : List UInt8 :=
  [UInt8.ofNat value, UInt8.ofNat (value >>> 8), UInt8.ofNat (value >>> 16),
    UInt8.ofNat (value >>> 24)]

def putU64 (value : ℕ) : List UInt8 := putU32 (u32 value) ++ putU32 (u32 (value >>> 32))

def encodeRecord (record : TraceRecord) : List UInt8 :=
  putU64 record.tick ++ putU32 record.sequence ++ putU16 record.schema ++
    [UInt8.ofNat record.event, UInt8.ofNat record.flags] ++ putU16 record.task ++
    putU16 record.related ++ putU32 record.value0 ++ putU32 record.value1 ++ putU32 record.value2

/-- The payload of the footer. -/
def encodeFooter (final : TraceFinal) : List UInt8 :=
  putU32 final.attempted ++ putU32 final.emitted ++ putU32 final.dropped ++
    putU32 final.finalSequence ++ putU32 final.flags ++ putU64 final.finalTick

/-! ### Frames -/

/-- A turn of the inner loop of `crc32`. -/
def crc32Bit (crc : BitVec 32) : BitVec 32 :=
  let mask := 0#32 - (crc &&& 1#32)
  (crc >>> 1) ^^^ (0xEDB88320#32 &&& mask)

/-- A turn of the outer loop. -/
def crc32Byte (crc : BitVec 32) (byte : UInt8) : BitVec 32 :=
  crc32Bit^[8] (crc ^^^ byte.toBitVec.setWidth 32)

def crc32 (data : List UInt8) : BitVec 32 := ~~~(data.foldl crc32Byte 0xFFFFFFFF#32)

/-- What a frame's checksum covers. -/
def frameBody (type : ℕ) (payload : List UInt8) : List UInt8 :=
  [UInt8.ofNat frameVersion, UInt8.ofNat type] ++ putU16 traceSchemaVersion ++
    putU16 payload.length ++ putU16 0 ++ payload

/-- The bytes `send_frame` gives to the UART, if it accepts the payload. -/
def sendFrame (type : ℕ) (payload : List UInt8) : Option (List UInt8) :=
  if payload.length ≠ recordSize ∧ payload.length ≠ footerPayloadSize then none
  else
    let body := frameBody type payload
    some (frameSync ++ body ++ putU32 (crc32 body).toNat)

/-- The loop of `os_trace_finish`: the ring once it is empty, and the bytes sent for its
records. The bound is the number of turns, one more than there are records. -/
def sendRecords : ℕ → TraceRing → Option (TraceRing × List UInt8)
  | 0, ring => some (ring, [])
  | turns + 1, ring =>
    match osTraceRingPop ring with
    | (ring, none) => some (ring, [])
    | (ring, some record) => do
      let frame ← sendFrame frameRecord (encodeRecord record)
      let (ring, frames) ← sendRecords turns ring
      some (ring, frame ++ frames)

/-- `os_trace_finish`, with whether it runs in the idle thread: the bytes sent, if the ring was
open. A UART that takes every frame is assumed. -/
def osTraceFinish (inIdle : Bool) (ring : TraceRing) (tick : ℕ) : Option (List UInt8) :=
  if !inIdle then none
  else
    match osTraceRingClose ring tick with
    | (_, none) => none
    | (ring, some final) => do
      let (_, frames) ← sendRecords (ring.count + 1) ring
      let footer ← sendFrame frameFooter (encodeFooter final)
      some (frames ++ footer)

/-! ### Sizes and values -/

lemma putU16_eq (value : ℕ) : putU16 value = toBytes 2 value := by
  simp [putU16, toBytes, Nat.shiftRight_eq_div_pow]

lemma putU32_eq (value : ℕ) : putU32 value = toBytes 4 value := by
  simp [putU32, toBytes, Nat.shiftRight_eq_div_pow, Nat.div_div_eq_div_mul]

lemma putU64_eq (value : ℕ) : putU64 value = toBytes 8 value := by
  rw [putU64, putU32_eq, putU32_eq, toBytes_add 4 4, Nat.shiftRight_eq_div_pow]
  exact congrArg₂ (· ++ ·) (toBytes_mod 4 value) (toBytes_mod 4 (value / 2 ^ 32))

@[simp] lemma encodeRecord_length (record : TraceRecord) :
    (encodeRecord record).length = recordSize := rfl

@[simp] lemma encodeFooter_length (final : TraceFinal) :
    (encodeFooter final).length = footerPayloadSize := rfl

/-! ### The checksum -/

def ieeePolynomial : BitVec 32 := 0x04C11DB7#32

/-- `binascii.crc32`: the CRC-32 of IEEE 802.3, each byte sent lowest bit first. -/
def ieeeCrc32 (data : List UInt8) : BitVec 32 :=
  Crc.checksum ieeePolynomial (data.flatMap fun byte => Crc.bits byte.toBitVec)

lemma crc32Bit_eq (crc : BitVec 32) : crc32Bit crc = Crc.mirrored ieeePolynomial crc := by
  have hp : ieeePolynomial.reverse = 0xEDB88320#32 := by decide +kernel
  have hm : crc &&& 1#32 = if crc.getLsbD 0 then 1#32 else 0#32 := by
    rw [BitVec.and_one_eq_setWidth_ofBool_getLsbD]
    cases crc.getLsbD 0 <;> rfl
  unfold crc32Bit Crc.mirrored
  rw [hp, hm]
  cases crc.getLsbD 0 <;> rfl

/-- **The bitwise loop computes the CRC-32 of IEEE 802.3.** -/
theorem crc32_eq_ieee (data : List UInt8) : crc32 data = ieeeCrc32 data := by
  have hb : crc32Bit = Crc.mirrored ieeePolynomial := funext crc32Bit_eq
  have hf : data.foldl crc32Byte 0xFFFFFFFF#32 =
      (data.map UInt8.toBitVec).foldl (Crc.mirroredChunk ieeePolynomial)
        (BitVec.allOnes 32) := by
    rw [List.foldl_map]
    unfold crc32Byte Crc.mirroredChunk
    rw [hb]
    rfl
  rw [crc32, hf, Crc.foldl_mirrored_eq_checksum (by decide) (by decide), ieeeCrc32, List.flatMap_map]

end Aymos.Wire
