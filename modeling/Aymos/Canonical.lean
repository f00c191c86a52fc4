import Aymos.RoundTrip
import Aymos.Validate

/-!
Accepted streams are canonical.

Every frame that the loop takes is the frame of what it makes of it, so that the records and the
footer of a stream that decodes give the stream back.
-/

namespace Aymos.Canonical

open Words Trace LittleEndian Wire Decoder RoundTrip Validate

/-! ### Payloads -/

/-- A payload of the length of a record is the record that is read from it. -/
lemma encodeRecord_unpack {payload : List UInt8} (h : payload.length = recordSize) :
    encodeRecord (unpackRecord payload) = payload := by
  have hlen : payload.length = 32 := h
  have hdrop : payload.drop 32 = [] := List.drop_eq_nil_of_le (le_of_eq hlen)
  have hparts : payload = toBytes 8 (field payload 0 8) ++ (toBytes 4 (field payload 8 4) ++
      (toBytes 2 (field payload 12 2) ++ (toBytes 1 (field payload 14 1) ++
      (toBytes 1 (field payload 15 1) ++ (toBytes 2 (field payload 16 2) ++
      (toBytes 2 (field payload 18 2) ++ (toBytes 4 (field payload 20 4) ++
      (toBytes 4 (field payload 24 4) ++ (toBytes 4 (field payload 28 4) ++ [])))))))))  := by
    rw [← hdrop, ← drop_eq_field 4 (by omega), ← drop_eq_field 4 (by omega),
      ← drop_eq_field 4 (by omega), ← drop_eq_field 2 (by omega), ← drop_eq_field 2 (by omega),
      ← drop_eq_field 1 (by omega), ← drop_eq_field 1 (by omega), ← drop_eq_field 2 (by omega),
      ← drop_eq_field 4 (by omega), ← drop_eq_field 8 (by omega), List.drop_zero]
  conv_rhs => rw [hparts]
  simp only [encodeRecord, unpackRecord, putU64_eq, putU32_eq, putU16_eq, List.append_assoc,
    List.append_nil]
  rfl

lemma encodeFooter_unpack {payload : List UInt8} (h : payload.length = footerPayloadSize) :
    encodeFooter (unpackFooter payload) = payload := by
  have hlen : payload.length = 28 := h
  have hdrop : payload.drop 28 = [] := List.drop_eq_nil_of_le (le_of_eq hlen)
  have hparts : payload = toBytes 4 (field payload 0 4) ++ (toBytes 4 (field payload 4 4) ++
      (toBytes 4 (field payload 8 4) ++ (toBytes 4 (field payload 12 4) ++
      (toBytes 4 (field payload 16 4) ++ (toBytes 8 (field payload 20 8) ++ [])))))  := by
    rw [← hdrop, ← drop_eq_field 8 (by omega), ← drop_eq_field 4 (by omega),
      ← drop_eq_field 4 (by omega), ← drop_eq_field 4 (by omega), ← drop_eq_field 4 (by omega),
      ← drop_eq_field 4 (by omega), List.drop_zero]
  conv_rhs => rw [hparts]
  simp only [encodeFooter, unpackFooter, putU64_eq, putU32_eq, List.append_assoc, List.append_nil]

/-! ### Frames -/

/-- A payload of the length that its type calls for. -/
def Sized (type : ℕ) (payload : List UInt8) : Prop :=
  type = frameRecord ∧ payload.length = recordSize ∨
    type = frameFooter ∧ payload.length = footerPayloadSize

/-- Bytes whose header and checksum are those of a frame begin with that frame. -/
lemma frame_of_parts {left payload : List UInt8} {type : ℕ}
    (hlen : headerSize + payload.length + crcSize ≤ left.length)
    (hmagic : left.take 4 = frameSync) (hframing : field left 4 1 = frameVersion)
    (htype : field left 5 1 = type) (hschema : field left 6 2 = traceSchemaVersion)
    (hlength : field left 8 2 = payload.length) (hflags : field left 10 2 = 0)
    (hpayload : (left.drop headerSize).take payload.length = payload)
    (hcrc : (ieeeCrc32 ((left.take (headerSize + payload.length)).drop 4)).toNat =
      field left (headerSize + payload.length) crcSize) :
    left = frame type payload ++ left.drop (headerSize + payload.length + crcSize) := by
  unfold headerSize crcSize at *
  have hbody : left.drop 4 = frameBody type payload ++ left.drop (12 + payload.length) := by
    have hrest : left.drop 12 = payload ++ left.drop (12 + payload.length) := by
      conv_lhs => rw [← List.take_append_drop payload.length (left.drop 12), hpayload,
        List.drop_drop]
    rw [drop_eq_field 1 (by omega), drop_eq_field 1 (by omega), drop_eq_field 2 (by omega),
      drop_eq_field 2 (by omega), drop_eq_field 2 (by omega), hrest, hframing, htype, hschema,
      hlength, hflags, frameBody, putU16_eq, putU16_eq, putU16_eq]
    simp only [List.append_assoc]
    rfl
  have hsplit : left = frameSync ++ (frameBody type payload ++ left.drop (12 + payload.length)) := by
    rw [← hbody, ← hmagic, List.take_append_drop]
  have hchecked : (left.take (12 + payload.length)).drop 4 = frameBody type payload := by
    have hcount : (12 + payload.length) - 4 = (frameBody type payload).length := by
      rw [frameBody_length]
      omega
    rw [List.drop_take, hbody, hcount, List.take_left]
  rw [hchecked, ← crc32_eq_ieee] at hcrc
  have htail : left.drop (12 + payload.length) =
      putU32 (crc32 (frameBody type payload)).toNat ++ left.drop (12 + payload.length + 4) := by
    rw [putU32_eq, hcrc, ← drop_eq_field 4 (by omega)]
  conv_lhs => rw [hsplit, htail]
  rw [frame]
  simp only [List.append_assoc]

/-- A check that raises did not fail in a run that returns. -/
lemma ok_of_guard {α ε : Type} {p : Prop} [Decidable p] {e : ε} {result : Except ε α} {a : α}
    (h : (if p then .error e else result) = .ok a) : ¬p ∧ result = .ok a := by
  split at h
  · cases h
  · next hp => exact ⟨hp, h⟩

/-- **A frame that is taken** is the frame of its payload. -/
lemma takeFrame_ok {data : List UInt8} {s s' : DecodeState} (h : takeFrame data s = .ok s') :
    ∃ type payload rest, Sized type payload ∧ data.drop s.offset = frame type payload ++ rest := by
  unfold takeFrame at h
  dsimp only at h
  generalize hexpected : (if (unpackHeader (data.drop s.offset)).frameType = frameRecord then
    recordSize else footerPayloadSize) = expected at h
  obtain ⟨hheader, h⟩ := ok_of_guard h
  obtain ⟨hmagic, h⟩ := ok_of_guard h
  obtain ⟨hframing, h⟩ := ok_of_guard h
  obtain ⟨hschema, h⟩ := ok_of_guard h
  obtain ⟨hkind, h⟩ := ok_of_guard h
  obtain ⟨hlength, h⟩ := ok_of_guard h
  obtain ⟨hflags, h⟩ := ok_of_guard h
  obtain ⟨hsize, h⟩ := ok_of_guard h
  obtain ⟨hcrc, -⟩ := ok_of_guard h
  simp only [unpackHeader, ne_eq, not_not, not_and_or, not_lt] at *
  generalize data.drop s.offset = left at *
  have hpayload : ((left.drop headerSize).take (field left 8 2)).length = field left 8 2 := by
    rw [List.length_take, List.length_drop]
    omega
  refine ⟨field left 5 1, (left.drop headerSize).take (field left 8 2), _, ?_,
    frame_of_parts (by rw [hpayload]; exact hsize) hmagic hframing rfl hschema hpayload.symm hflags
      (by rw [hpayload]) (by rw [hpayload]; exact hcrc)⟩
  rw [Sized, hpayload, hlength]
  rcases hkind with hkind | hkind
  · exact Or.inl ⟨hkind, hexpected.symm.trans (if_pos hkind)⟩
  · have hne : field left 5 1 ≠ frameRecord := by
      rw [hkind]
      decide
    exact Or.inr ⟨hkind, hexpected.symm.trans (if_neg hne)⟩

/-! ### Records and footers -/

/-- The record that a listed record stands for. -/
def recordOf (d : DecodedRecord) : TraceRecord where
  tick := d.tick
  sequence := d.sequence
  schema := traceSchemaVersion
  event := d.event.code
  flags := 0
  task := d.task.getD invalidTaskId
  related := d.related.getD invalidTaskId
  value0 := d.value0
  value1 := d.value1
  value2 := d.value2

lemma eventOfCode_some {code : ℕ} {event : TraceEvent} (h : eventOfCode code = some event) :
    event.code = code := by
  unfold eventOfCode at h
  split at h <;> first | (cases h; rfl) | cases h

lemma optionalTask_getD (task : ℕ) : (optionalTask task).getD invalidTaskId = task := by
  unfold optionalTask
  split
  · next h => rw [h]; rfl
  · rfl

/-- **A record that is taken** is listed with its payload, which its fields give back. -/
lemma takeRecord_ok {s s' : DecodeState} {payload : List UInt8} {size : ℕ}
    (hlen : payload.length = recordSize) (h : takeRecord s payload size = .ok s') :
    ∃ d, d.raw = payload ∧ encodeRecord (recordOf d) = payload ∧ s'.footer = none ∧
      s'.records = s.records ++ [d] ∧ s'.rawRecords = s.rawRecords ++ payload ∧
      s'.offset = s.offset + size := by
  unfold takeRecord at h
  dsimp only at h
  obtain ⟨hfooter, h⟩ := ok_of_guard h
  obtain ⟨hschema, h⟩ := ok_of_guard h
  split at h
  · cases h
  next event hevent =>
  obtain ⟨hflags, h⟩ := ok_of_guard h
  obtain ⟨-, h⟩ := ok_of_guard h
  obtain ⟨-, h⟩ := ok_of_guard h
  obtain ⟨-, h⟩ := ok_of_guard h
  obtain rfl := Except.ok.inj h
  refine ⟨_, rfl, ?_, by simpa using hfooter, rfl, rfl, rfl⟩
  rw [not_not] at hschema hflags
  have hrecord : recordOf ⟨(unpackRecord payload).tick, (unpackRecord payload).sequence, event,
      optionalTask (unpackRecord payload).task, optionalTask (unpackRecord payload).related,
      (unpackRecord payload).value0, (unpackRecord payload).value1, (unpackRecord payload).value2,
      payload⟩ = unpackRecord payload := by
    rw [recordOf, optionalTask_getD, optionalTask_getD, eventOfCode_some hevent, ← hschema,
      ← hflags]
  rw [hrecord, encodeRecord_unpack hlen]

lemma takeFooter_ok {s s' : DecodeState} {payload : List UInt8} {size : ℕ}
    (hlen : payload.length = footerPayloadSize) (h : takeFooter s payload size = .ok s') :
    ∃ footer, s'.footer = some footer ∧ encodeFooter footer = payload ∧
      s'.records = s.records ∧ s'.rawRecords = s.rawRecords ∧ s'.offset = s.offset + size := by
  unfold takeFooter at h
  obtain ⟨-, h⟩ := ok_of_guard h
  obtain rfl := Except.ok.inj h
  exact ⟨_, rfl, encodeFooter_unpack hlen, rfl, rfl, rfl⟩

/-! ### Streams -/

/-- The frame of a listed record. -/
def recordFrame (d : DecodedRecord) : List UInt8 := frame frameRecord (encodeRecord (recordOf d))

def footerFrame (footer : TraceFinal) : List UInt8 := frame frameFooter (encodeFooter footer)

/-- The frame of a footer, if there is one. -/
def footerBytes : Option TraceFinal → List UInt8
  | none => []
  | some footer => footerFrame footer

/-- What the loop has read between two of its states. -/
structure Reads (data : List UInt8) (s s' : DecodeState) (new : List DecodedRecord) : Prop where
  records : s'.records = s.records ++ new
  raw : ∀ d ∈ new, d.raw = encodeRecord (recordOf d)
  rawRecords : s'.rawRecords = s.rawRecords ++ new.flatMap DecodedRecord.raw
  bytes : data.drop s.offset =
    new.flatMap recordFrame ++ (footerBytes s'.footer ++ data.drop s'.offset)

variable {data : List UInt8}

/-- **One turn of the loop** reads one frame. -/
lemma takeFrame_reads {s s' : DecodeState} (h : takeFrame data s = .ok s') : ∃ new, Reads data s s' new := by
  obtain ⟨type, payload, rest, hsized, hbytes⟩ := takeFrame_ok h
  rw [takeFrame_frame hbytes hsized] at h
  have hdrop : data.drop (s.offset + (frame type payload).length) = rest := by
    rw [← List.drop_drop, hbytes, List.drop_left]
  rcases hsized with ⟨rfl, hlen⟩ | ⟨rfl, hlen⟩
  · rw [if_neg (by decide)] at h
    obtain ⟨d, hraw, hencode, hnone, hrecords, hrawRecords, hoffset⟩ := takeRecord_ok hlen h
    refine ⟨[d], hrecords, ?_, ?_, ?_⟩
    · rw [List.forall_mem_singleton, hraw, hencode]
    · rw [hrawRecords, List.flatMap_singleton, hraw]
    · rw [hnone, hoffset, hdrop, List.flatMap_singleton, recordFrame, hencode, hbytes]
      rfl
  · rw [if_pos rfl] at h
    obtain ⟨footer, hsome, hencode, hrecords, hrawRecords, hoffset⟩ := takeFooter_ok hlen h
    refine ⟨[], ?_, by simp, ?_, ?_⟩
    · rw [hrecords, List.append_nil]
    · rw [hrawRecords, List.flatMap_nil, List.append_nil]
    · rw [hsome, hoffset, hdrop, footerBytes, footerFrame, hencode, hbytes]
      rfl

lemma Reads.trans {s s' s'' : DecodeState} {new new' : List DecodedRecord}
    (h : Reads data s s' new) (hfooter : s'.footer = none) (h' : Reads data s' s'' new') :
    Reads data s s'' (new ++ new') := by
  refine ⟨?_, ?_, ?_, ?_⟩
  · rw [h'.records, h.records, List.append_assoc]
  · exact List.forall_mem_append.mpr ⟨h.raw, h'.raw⟩
  · rw [h'.rawRecords, h.rawRecords, List.flatMap_append, List.append_assoc]
  · rw [h.bytes, hfooter, h'.bytes, List.flatMap_append, List.append_assoc]
    rfl

lemma Reads.refl {s : DecodeState} (hfooter : s.footer = none) : Reads data s s [] := by
  refine ⟨(List.append_nil _).symm, by simp, (List.append_nil _).symm, ?_⟩
  rw [hfooter]
  rfl

/-- **The loop** reads the frames of what it lists, and of a footer. -/
lemma takeFrames_reads {requireTrailer : Bool} (more : ℕ) {s s' : DecodeState}
    (hfooter : s.footer = none) (h : takeFrames data requireTrailer more s = .ok s') :
    ∃ new, Reads data s s' new := by
  induction more generalizing s with
  | zero =>
    rw [takeFrames.eq_def] at h
    dsimp only at h
    split at h
    · obtain rfl := Except.ok.inj h
      exact ⟨[], .refl hfooter⟩
    split at h
    · obtain rfl := Except.ok.inj h
      exact ⟨[], .refl hfooter⟩
    · cases h
  | succ more ih =>
    rw [takeFrames.eq_def] at h
    dsimp only at h
    split at h
    · obtain rfl := Except.ok.inj h
      exact ⟨[], .refl hfooter⟩
    split at h
    · obtain rfl := Except.ok.inj h
      exact ⟨[], .refl hfooter⟩
    cases hframe : takeFrame data s with
    | error e =>
      rw [hframe] at h
      cases h
    | ok s₁ =>
      rw [hframe] at h
      dsimp only at h
      obtain ⟨new, hnew⟩ := takeFrame_reads hframe
      split at h
      · obtain rfl := Except.ok.inj h
        exact ⟨new, hnew⟩
      next hnone =>
      have hnone₁ : s₁.footer = none := by simpa using hnone
      obtain ⟨new', hnew'⟩ := ih hnone₁ h
      exact ⟨new ++ new', hnew.trans hnone₁ hnew'⟩

/-- **The documented framing** of what a stream decodes to, with the lines of the application
around it or without. -/
def encodeTrace (framed : Bool) (trace : DecodedTrace) : List UInt8 :=
  (if framed then preamble else []) ++ trace.records.flatMap recordFrame ++
    footerFrame trace.footer ++ if framed then trailer else []

/-- A stream that decodes, once its start has been recognized. -/
lemma decodeFrom_canonical {offset : ℕ} {requireTrailer : Bool} {trace : DecodedTrace}
    (h : decodeFrom data offset requireTrailer = .ok trace) :
    data.drop offset = trace.records.flatMap recordFrame ++ (footerFrame trace.footer ++
        if requireTrailer then trailer else []) ∧
      (∀ d ∈ trace.records, d.raw = encodeRecord (recordOf d)) ∧
      trace.rawRecords = trace.records.flatMap DecodedRecord.raw := by
  obtain ⟨s, hs, hfooter, hrecords, hraw, -, hend⟩ := decodeFrom_ok h
  obtain ⟨new, hnew⟩ := takeFrames_reads maxFrames rfl hs
  have hlist : trace.records = new := by rw [← hrecords, hnew.records, List.nil_append]
  have htail : data.drop s.offset = if requireTrailer then trailer else [] := by
    unfold checkEnd at hend
    split at hend
    · next hrequire =>
      rw [if_pos hrequire]
      split at hend
      · cases hend
      · next htrailer => exact not_not.mp htrailer
    · next hrequire =>
      rw [if_neg hrequire]
      split at hend
      · cases hend
      · next hlen => rw [not_not.mp hlen, List.drop_length]
  refine ⟨?_, ?_, ?_⟩
  · rw [hlist, ← htail, hnew.bytes, hfooter]
    rfl
  · rw [hlist]
    exact hnew.raw
  · rw [← hraw, hnew.rawRecords, hlist, List.nil_append]

/-- **A stream that decodes** is the framing of what it decodes to. -/
theorem decodeStream_canonical {trace : DecodedTrace} (h : decodeStream data = .ok trace) :
    encodeTrace (preamble.isPrefixOf data) trace = data ∧
      (∀ d ∈ trace.records, d.raw = encodeRecord (recordOf d)) ∧
      trace.rawRecords = trace.records.flatMap DecodedRecord.raw := by
  unfold decodeStream at h
  split at h
  · cases h
  split at h
  · next hpreamble =>
    obtain ⟨hbytes, hraw, hraws⟩ := decodeFrom_canonical h
    refine ⟨?_, hraw, hraws⟩
    obtain ⟨rest, hrest⟩ := List.isPrefixOf_iff_prefix.mp hpreamble
    rw [← hrest, List.drop_left] at hbytes
    rw [hpreamble, encodeTrace, ← hrest, hbytes]
    simp only [if_true, List.append_assoc]
  split at h
  · next hpreamble hsync =>
    obtain ⟨hbytes, hraw, hraws⟩ := decodeFrom_canonical h
    refine ⟨?_, hraw, hraws⟩
    rw [List.drop_zero] at hbytes
    rw [Bool.not_eq_true _ |>.mp hpreamble, encodeTrace]
    conv_rhs => rw [hbytes]
    simp only [Bool.false_eq_true, if_false, List.nil_append, List.append_assoc]
  · cases h

end Aymos.Canonical
