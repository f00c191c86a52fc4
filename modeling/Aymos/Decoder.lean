import Aymos.Wire
import Mathlib.Tactic.IntervalCases

/-!
The framing, record and footer checks of `tools/aymos_lab/trace.py`.

`decodeStream` is `decode` up to its three validators: the loop over the frames and the checks of
the footer and of what follows it. Of a record's entry the details, which the source derives from
the other fields, are left to the validators.
-/

namespace Aymos.Decoder

open Words Trace LittleEndian Wire

def maxInputBytes : ℕ := 1024 * 1024
def maxFrames : ℕ := 4096
def maxResyncScanBytes : ℕ := 4096
def maxTaskId : ℕ := 4
def invalidTaskId : ℕ := 0xFFFF
def headerSize : ℕ := 12
def crcSize : ℕ := 4

/-- `EVENT_NAMES`. -/
def eventOfCode : ℕ → Option TraceEvent
  | 1 => some .kernelStart
  | 2 => some .taskCreate
  | 3 => some .taskRelease
  | 4 => some .taskSelect
  | 5 => some .selectCandidate
  | 6 => some .taskStart
  | 7 => some .taskPreempt
  | 8 => some .taskYield
  | 9 => some .taskSleep
  | 10 => some .taskWake
  | 11 => some .taskExit
  | 12 => some .contextSwitch
  | 13 => some .idleStart
  | 14 => some .idleStop
  | 15 => some .deadlineMet
  | 16 => some .deadlineMiss
  | 17 => some .alloc
  | 18 => some .free
  | 19 => some .taskWaitPeriod
  | 20 => some .taskReleaseSkipped
  | 21 => some .ownerRelease
  | 22 => some .overflow
  | _ => none

@[simp] lemma eventOfCode_code (event : TraceEvent) : eventOfCode event.code = some event := by
  cases event <;> rfl

lemma eventOfCode_valid {code : ℕ} (h : osTraceEventValid code = true) :
    ∃ event, eventOfCode code = some event ∧ event.code = code := by
  obtain ⟨h1, h2⟩ := Bool.and_eq_true_iff.mp h
  have hlo : 1 ≤ code := of_decide_eq_true h1
  have hhi : code ≤ 22 := of_decide_eq_true h2
  interval_cases code <;> exact ⟨_, rfl, rfl⟩

/-! ### Failures -/

/-- A number in hexadecimal, with zeros in front up to the width. -/
def hexadecimal (width n : ℕ) : String :=
  let digits := Nat.toDigits 16 n
  String.ofList (List.replicate (width - digits.length) '0' ++ digits)

/-- `bytes.find`, for a pattern that is not empty. -/
def find (data pattern : List UInt8) (start stop : ℕ) : Option ℕ :=
  (List.range' start (stop - start)).find? fun i =>
    decide (i + pattern.length ≤ stop) && pattern.isPrefixOf (data.drop i)

/-- `_fail`: the text of the error. -/
def fail (message : String) (offset : ℕ) (frame sequence : Option ℕ)
    (data : Option (List UInt8)) : String :=
  let place := s!"offset {offset}"
  let place := match frame with
    | none => place
    | some frame => place ++ s!", frame {frame}"
  let place := match sequence with
    | none => place
    | some sequence => place ++ s!", sequence {sequence}"
  let message := match data with
    | none => message
    | some data =>
      let stop := min data.length (offset + 1 + maxResyncScanBytes)
      match find data frameSync (offset + 1) stop with
      | some nextSync => message ++ s!"; bounded diagnostic found next sync at offset {nextSync}"
      | none =>
        let scanned : ℤ := stop - offset - 1
        message ++ s!"; no sync in next {scanned} bytes"
  place ++ ": " ++ message

def taskValid (task : ℕ) : Bool := task == invalidTaskId || task ≤ maxTaskId

/-! ### Unpacking -/

/-- The fields of `HEADER`. -/
structure FrameHeader where
  magic : List UInt8
  framing : ℕ
  frameType : ℕ
  schema : ℕ
  length : ℕ
  flags : ℕ

def unpackHeader (bytes : List UInt8) : FrameHeader :=
  { magic := bytes.take 4
    framing := field bytes 4 1
    frameType := field bytes 5 1
    schema := field bytes 6 2
    length := field bytes 8 2
    flags := field bytes 10 2 }

/-- The fields of `RECORD`. -/
def unpackRecord (bytes : List UInt8) : TraceRecord :=
  { tick := field bytes 0 8
    sequence := field bytes 8 4
    schema := field bytes 12 2
    event := field bytes 14 1
    flags := field bytes 15 1
    task := field bytes 16 2
    related := field bytes 18 2
    value0 := field bytes 20 4
    value1 := field bytes 24 4
    value2 := field bytes 28 4 }

/-- The fields of `FOOTER`. -/
def unpackFooter (bytes : List UInt8) : TraceFinal :=
  { attempted := field bytes 0 4
    emitted := field bytes 4 4
    dropped := field bytes 8 4
    finalSequence := field bytes 12 4
    flags := field bytes 16 4
    finalTick := field bytes 20 8 }

/-! ### Frames -/

/-- A record as the decoder lists it. The source shows `raw` in hexadecimal. -/
structure DecodedRecord where
  tick : ℕ
  sequence : ℕ
  event : TraceEvent
  task : Option ℕ
  related : Option ℕ
  value0 : ℕ
  value1 : ℕ
  value2 : ℕ
  raw : List UInt8
  deriving DecidableEq

/-- The variables of the loop over the frames. -/
structure DecodeState where
  offset : ℕ
  records : List DecodedRecord
  footer : Option TraceFinal
  expectedSequence : ℕ
  previousTick : ℕ
  frameIndex : ℕ
  footerEnd : ℕ
  rawRecords : List UInt8

def optionalTask (task : ℕ) : Option ℕ := if task = invalidTaskId then none else some task

/-- What the loop does with the payload of a footer. -/
def takeFooter (s : DecodeState) (payload : List UInt8) (frameSize : ℕ) :
    Except String DecodeState :=
  if s.footer.isSome then .error (fail "duplicate footer" s.offset s.frameIndex none none)
  else
    .ok { s with
      footer := some (unpackFooter payload)
      footerEnd := s.offset + frameSize
      offset := s.offset + frameSize
      frameIndex := s.frameIndex + 1 }

/-- What the loop does with the payload of a record. -/
def takeRecord (s : DecodeState) (payload : List UInt8) (frameSize : ℕ) :
    Except String DecodeState :=
  if s.footer.isSome then
    .error (fail "record appears after footer" s.offset s.frameIndex none none)
  else
    let r := unpackRecord payload
    if r.schema ≠ traceSchemaVersion then
      .error (fail s!"record schema {r.schema} does not match frame" s.offset s.frameIndex
        r.sequence none)
    else
      match eventOfCode r.event with
      | none => .error (fail s!"unknown event {r.event}" s.offset s.frameIndex r.sequence none)
      | some event =>
        if r.flags ≠ 0 then
          .error (fail s!"unknown record flags 0x{hexadecimal 0 r.flags}" s.offset s.frameIndex
            r.sequence none)
        else if !taskValid r.task ∨ !taskValid r.related then
          .error (fail s!"impossible task IDs task={r.task} related={r.related}" s.offset
            s.frameIndex r.sequence none)
        else if r.sequence ≠ s.expectedSequence then
          .error (fail s!"sequence gap: expected {s.expectedSequence}, got {r.sequence}" s.offset
            s.frameIndex r.sequence none)
        else if s.records ≠ [] ∧ r.tick < s.previousTick then
          .error (fail s!"nonmonotonic tick {r.tick} after {s.previousTick}" s.offset s.frameIndex
            r.sequence none)
        else
          .ok { s with
            records := s.records ++
              [⟨r.tick, r.sequence, event, optionalTask r.task, optionalTask r.related,
                r.value0, r.value1, r.value2, payload⟩]
            rawRecords := s.rawRecords ++ payload
            expectedSequence := s.expectedSequence + 1
            previousTick := r.tick
            offset := s.offset + frameSize
            frameIndex := s.frameIndex + 1 }

/-- The checks of a frame that begins the bytes that are left, and what is done with it. -/
def takeFrame (data : List UInt8) (s : DecodeState) : Except String DecodeState :=
  let left := data.drop s.offset
  if left.length < headerSize then
    .error (fail "truncated frame header" s.offset s.frameIndex none none)
  else
    let header := unpackHeader left
    let expectedLength := if header.frameType = frameRecord then recordSize else footerPayloadSize
    let frameSize := headerSize + header.length + crcSize
    let payload := (left.drop headerSize).take header.length
    let expectedCrc := field left (headerSize + header.length) crcSize
    let actualCrc := (ieeeCrc32 ((left.take (headerSize + header.length)).drop 4)).toNat
    if header.magic ≠ frameSync then
      .error (fail "invalid frame sync or trailing garbage" s.offset s.frameIndex none data)
    else if header.framing ≠ frameVersion then
      .error (fail s!"unknown framing version {header.framing}" s.offset s.frameIndex none none)
    else if header.schema ≠ traceSchemaVersion then
      .error (fail s!"unknown schema version {header.schema}" s.offset s.frameIndex none none)
    else if header.frameType ≠ frameRecord ∧ header.frameType ≠ frameFooter then
      .error (fail s!"unknown frame type {header.frameType}" s.offset s.frameIndex none none)
    else if header.length ≠ expectedLength then
      .error (fail s!"invalid payload length {header.length}; expected {expectedLength}" s.offset
        s.frameIndex none none)
    else if header.flags ≠ 0 then
      .error (fail s!"unknown frame flags 0x{hexadecimal 0 header.flags}" s.offset s.frameIndex
        none none)
    else if frameSize > left.length then
      .error (fail "truncated frame payload or CRC" s.offset s.frameIndex none none)
    else if actualCrc ≠ expectedCrc then
      .error (fail s!"CRC32 mismatch: got 0x{hexadecimal 8 expectedCrc}, expected 0x{hexadecimal 8 actualCrc}"
        s.offset s.frameIndex none data)
    else if header.frameType = frameFooter then takeFooter s payload frameSize
    else takeRecord s payload frameSize

/-- The loop over the frames, with the number of frames it may still take. -/
def takeFrames (data : List UInt8) (requireTrailer : Bool) :
    ℕ → DecodeState → Except String DecodeState
  | more, s =>
    if s.offset ≥ data.length then .ok s
    else if requireTrailer && trailer.isPrefixOf (data.drop s.offset) then .ok s
    else
      match more with
      | 0 => .error (fail s!"frame count exceeds {maxFrames}" s.offset s.frameIndex none none)
      | more + 1 =>
        match takeFrame data s with
        | .error e => .error e
        | .ok s => if s.footer.isSome then .ok s else takeFrames data requireTrailer more s

/-! ### The end of the stream -/

/-- The checks of the footer. -/
def checkFooter (footer : TraceFinal) (records : List DecodedRecord) (footerEnd frameIndex : ℕ) :
    Except String Unit :=
  let offset := footerEnd - footerPayloadSize - crcSize
  let frame := frameIndex - 1
  let expectedFinal := if footer.attempted = 0 then 0xFFFFFFFF else footer.attempted - 1
  if footer.flags ≠ 0 then
    .error (fail s!"footer reports unsupported/incomplete flags 0x{hexadecimal 0 footer.flags}"
      offset frame none none)
  else if footer.emitted ≠ records.length then
    .error (fail s!"footer emitted={footer.emitted} but decoded {records.length} records"
      offset frame none none)
  else if footer.attempted ≠ footer.emitted + footer.dropped then
    .error (fail "footer attempted != emitted + dropped" offset frame none none)
  else if footer.finalSequence ≠ expectedFinal then
    .error (fail s!"footer final sequence {footer.finalSequence} != {expectedFinal}"
      offset frame none none)
  else if footer.dropped ≠ 0 then
    .error (fail s!"complete run dropped {footer.dropped} records" offset frame none none)
  else
    match records.getLast? with
    | some last =>
      if footer.finalTick < last.tick then
        .error (fail "footer final tick precedes the last record" offset frame none none)
      else .ok ()
    | none => .ok ()

/-- The check of what follows the footer. -/
def checkEnd (data : List UInt8) (requireTrailer : Bool) (s : DecodeState) : Except String Unit :=
  if requireTrailer then
    if data.drop s.offset ≠ trailer then
      .error (fail "missing exact terminal line or trailing garbage" s.offset s.frameIndex
        none none)
    else .ok ()
  else if s.offset ≠ data.length then
    .error (fail "trailing garbage after footer" s.offset s.frameIndex none none)
  else .ok ()

/-- What a stream decodes to. -/
structure DecodedTrace where
  footer : TraceFinal
  records : List DecodedRecord
  rawRecords : List UInt8

/-- The part of `decode` after the start of the stream has been recognized. -/
def decodeFrom (data : List UInt8) (offset : ℕ) (requireTrailer : Bool) :
    Except String DecodedTrace := do
  let s ← takeFrames data requireTrailer maxFrames ⟨offset, [], none, 0, 0, 0, 0, []⟩
  match s.footer with
  | none => .error (fail "missing terminal footer" s.offset s.frameIndex none none)
  | some footer =>
    checkFooter footer s.records s.footerEnd s.frameIndex
    checkEnd data requireTrailer s
    .ok ⟨footer, s.records, s.rawRecords⟩

/-- `decode` up to its validators. -/
def decodeStream (data : List UInt8) : Except String DecodedTrace :=
  if data.length > maxInputBytes then
    .error s!"input is {data.length} bytes; limit is {maxInputBytes}"
  else if preamble.isPrefixOf data then decodeFrom data preamble.length true
  else if frameSync.isPrefixOf data then decodeFrom data 0 false
  else .error (fail "missing exact trace preamble or frame sync" 0 none none data)

/-- What a stream that decodes has passed. -/
lemma decodeFrom_ok {data : List UInt8} {offset : ℕ} {requireTrailer : Bool}
    {trace : DecodedTrace} (h : decodeFrom data offset requireTrailer = .ok trace) :
    ∃ s, takeFrames data requireTrailer maxFrames ⟨offset, [], none, 0, 0, 0, 0, []⟩ = .ok s ∧
      s.footer = some trace.footer ∧ s.records = trace.records ∧
      s.rawRecords = trace.rawRecords ∧
      checkFooter trace.footer s.records s.footerEnd s.frameIndex = .ok () ∧
      checkEnd data requireTrailer s = .ok () := by
  unfold decodeFrom at h
  cases hs : takeFrames data requireTrailer maxFrames ⟨offset, [], none, 0, 0, 0, 0, []⟩ with
  | error e =>
    rw [hs] at h
    cases h
  | ok s =>
    rw [hs] at h
    change (match s.footer with
      | none => _
      | some footer => _) = _ at h
    cases hf : s.footer with
    | none =>
      rw [hf] at h
      cases h
    | some footer =>
      rw [hf] at h
      dsimp only at h
      cases hc : checkFooter footer s.records s.footerEnd s.frameIndex with
      | error e =>
        rw [hc] at h
        cases h
      | ok =>
        rw [hc] at h
        cases he : checkEnd data requireTrailer s with
        | error e =>
          rw [he] at h
          cases h
        | ok =>
          rw [he] at h
          obtain rfl := Except.ok.inj h
          exact ⟨s, rfl, hf, rfl, rfl, hc, he⟩

end Aymos.Decoder
