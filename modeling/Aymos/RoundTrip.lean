import Aymos.Decoder

/-!
What the firmware sends, decoded.

A frame that `send_frame` makes passes every check of the decoder's loop. The stream of a list of
records with its footer then decodes, by induction over the records, to the same records.
-/

namespace Aymos.RoundTrip

open Words Trace LittleEndian Wire Decoder

/-! ### Fields -/

/-- A record whose fields fit the types they have in the source. -/
structure Typed (r : TraceRecord) : Prop where
  tick : r.tick < 2 ^ 64
  sequence : r.sequence < 2 ^ 32
  schema : r.schema < 2 ^ 16
  event : r.event < 2 ^ 8
  flags : r.flags < 2 ^ 8
  task : r.task < 2 ^ 16
  related : r.related < 2 ^ 16
  value0 : r.value0 < 2 ^ 32
  value1 : r.value1 < 2 ^ 32
  value2 : r.value2 < 2 ^ 32

/-- A footer whose fields fit the types they have in the source. -/
structure TypedFinal (f : TraceFinal) : Prop where
  attempted : f.attempted < 2 ^ 32
  emitted : f.emitted < 2 ^ 32
  dropped : f.dropped < 2 ^ 32
  finalSequence : f.finalSequence < 2 ^ 32
  flags : f.flags < 2 ^ 32
  finalTick : f.finalTick < 2 ^ 64

lemma ofBytes_putU16 {n : ℕ} (h : n < 2 ^ 16) : ofBytes (putU16 n) = n := by
  rw [putU16_eq, ofBytes_toBytes_of_lt h]

lemma ofBytes_putU32 {n : ℕ} (h : n < 2 ^ 32) : ofBytes (putU32 n) = n := by
  rw [putU32_eq, ofBytes_toBytes_of_lt h]

lemma ofBytes_putU64 {n : ℕ} (h : n < 2 ^ 64) : ofBytes (putU64 n) = n := by
  rw [putU64_eq, ofBytes_toBytes_of_lt h]

lemma ofBytes_single {n : ℕ} (h : n < 2 ^ 8) : ofBytes [UInt8.ofNat n] = n :=
  @ofBytes_toBytes_of_lt 1 _ h

/-- **A record comes back** from its payload. -/
theorem unpackRecord_encode {r : TraceRecord} (h : Typed r) : unpackRecord (encodeRecord r) = r := by
  have he : unpackRecord (encodeRecord r) =
      ⟨ofBytes (putU64 r.tick), ofBytes (putU32 r.sequence), ofBytes (putU16 r.schema),
        ofBytes [UInt8.ofNat r.event], ofBytes [UInt8.ofNat r.flags], ofBytes (putU16 r.task),
        ofBytes (putU16 r.related), ofBytes (putU32 r.value0), ofBytes (putU32 r.value1),
        ofBytes (putU32 r.value2)⟩ := rfl
  rw [he, ofBytes_putU64 h.tick, ofBytes_putU32 h.sequence, ofBytes_putU16 h.schema,
    ofBytes_single h.event, ofBytes_single h.flags, ofBytes_putU16 h.task,
    ofBytes_putU16 h.related, ofBytes_putU32 h.value0, ofBytes_putU32 h.value1,
    ofBytes_putU32 h.value2]

theorem unpackFooter_encode {f : TraceFinal} (h : TypedFinal f) :
    unpackFooter (encodeFooter f) = f := by
  have he : unpackFooter (encodeFooter f) =
      ⟨ofBytes (putU32 f.attempted), ofBytes (putU32 f.emitted), ofBytes (putU32 f.dropped),
        ofBytes (putU32 f.finalSequence), ofBytes (putU32 f.flags),
        ofBytes (putU64 f.finalTick)⟩ := rfl
  rw [he, ofBytes_putU32 h.attempted, ofBytes_putU32 h.emitted, ofBytes_putU32 h.dropped,
    ofBytes_putU32 h.finalSequence, ofBytes_putU32 h.flags, ofBytes_putU64 h.finalTick]

/-! ### One frame -/

/-- The bytes of a frame. -/
def frame (type : ℕ) (payload : List UInt8) : List UInt8 :=
  frameSync ++ frameBody type payload ++ putU32 (crc32 (frameBody type payload)).toNat

lemma sendFrame_record (r : TraceRecord) :
    sendFrame frameRecord (encodeRecord r) = some (frame frameRecord (encodeRecord r)) := rfl

lemma sendFrame_footer (f : TraceFinal) :
    sendFrame frameFooter (encodeFooter f) = some (frame frameFooter (encodeFooter f)) := rfl

section Frame

variable {type : ℕ} {payload rest : List UInt8}

lemma frameBody_length : (frameBody type payload).length = 8 + payload.length := by
  simp only [frameBody, List.length_append]
  simp [putU16]

lemma frame_length : (frame type payload).length = 12 + payload.length + 4 := by
  rw [frame, List.length_append, List.length_append, frameBody_length]
  simp only [putU32, List.length_cons, List.length_nil]
  have hs : frameSync.length = 4 := rfl
  omega

/-- The header that the decoder reads from a frame. -/
lemma unpackHeader_frame : unpackHeader (frame type payload ++ rest) =
    ⟨frameSync, 1, ofBytes [UInt8.ofNat type], 1, ofBytes (putU16 payload.length), 0⟩ := rfl

lemma frame_payload : ((frame type payload ++ rest).drop headerSize).take payload.length =
    payload := by
  have h : (frame type payload ++ rest).drop headerSize =
    payload ++ putU32 (crc32 (frameBody type payload)).toNat ++ rest := rfl
  rw [h, List.append_assoc, List.take_left]

lemma frame_checked : ((frame type payload ++ rest).take (headerSize + payload.length)).drop 4 =
    frameBody type payload := by
  have hl : headerSize + payload.length = (frameSync ++ frameBody type payload).length := by
    rw [List.length_append, frameBody_length]
    exact Nat.add_assoc 4 8 payload.length
  rw [frame, List.append_assoc (frameSync ++ frameBody type payload), hl, List.take_left]
  rfl

lemma frame_crc : field (frame type payload ++ rest) (headerSize + payload.length) crcSize =
    (crc32 (frameBody type payload)).toNat := by
  have hl : headerSize + payload.length = (frameSync ++ frameBody type payload).length := by
    rw [List.length_append, frameBody_length]
    exact Nat.add_assoc 4 8 payload.length
  have hc : crcSize = (putU32 (crc32 (frameBody type payload)).toNat).length := rfl
  rw [frame, List.append_assoc (frameSync ++ frameBody type payload), hl, hc, field_append]
  exact ofBytes_putU32 (crc32 (frameBody type payload)).isLt

/-- **A frame passes the checks of the loop.** -/
theorem takeFrame_frame {data : List UInt8} {s : DecodeState}
    (hdata : data.drop s.offset = frame type payload ++ rest)
    (htype : type = frameRecord ∧ payload.length = recordSize ∨
      type = frameFooter ∧ payload.length = footerPayloadSize) :
    takeFrame data s = if type = frameFooter then takeFooter s payload (frame type payload).length
      else takeRecord s payload (frame type payload).length := by
  have ht : ofBytes [UInt8.ofNat type] = type :=
    ofBytes_single (by rcases htype with ⟨rfl, -⟩ | ⟨rfl, -⟩ <;> decide)
  have hp : ofBytes (putU16 payload.length) = payload.length :=
    ofBytes_putU16 (by rcases htype with ⟨-, h⟩ | ⟨-, h⟩ <;> rw [h] <;> decide)
  have hlen : (frame type payload ++ rest).length = 12 + payload.length + 4 + rest.length := by
    rw [List.length_append, frame_length]
  have hexp : payload.length =
      if type = frameRecord then recordSize else footerPayloadSize := by
    rcases htype with ⟨rfl, h⟩ | ⟨rfl, h⟩ <;> exact h
  have hknown : ¬ (type ≠ frameRecord ∧ type ≠ frameFooter) := by
    rcases htype with ⟨rfl, -⟩ | ⟨rfl, -⟩ <;> decide
  unfold takeFrame
  simp only [hdata, unpackHeader_frame, ht, hp]
  rw [if_neg (by rw [hlen, headerSize]; omega), if_neg (by simp), if_neg (by decide),
    if_neg (by decide), if_neg hknown, if_neg (by rw [← hexp]; simp), if_neg (by simp),
    if_neg (by rw [hlen, headerSize, crcSize]; omega), frame_checked, frame_crc, frame_payload,
    ← crc32_eq_ieee, if_neg (by simp), frame_length]
  rfl

end Frame

/-! ### One record -/

/-- A record that the decoder's checks of one record accept. -/
structure Sendable (r : TraceRecord) : Prop where
  typed : Typed r
  schema : r.schema = traceSchemaVersion
  event : osTraceEventValid r.event = true
  flags : r.flags = 0
  task : r.task ≤ maxTaskId ∨ r.task = invalidTaskId
  related : r.related ≤ maxTaskId ∨ r.related = invalidTaskId

/-- What the decoder lists for a record. -/
def decoded (r : TraceRecord) : DecodedRecord :=
  ⟨r.tick, r.sequence, (eventOfCode r.event).getD .kernelStart, optionalTask r.task,
    optionalTask r.related, r.value0, r.value1, r.value2, encodeRecord r⟩

/-- **The same field values**, the invalid task being shown as none. -/
structure Recovers (d : DecodedRecord) (r : TraceRecord) : Prop where
  tick : d.tick = r.tick
  sequence : d.sequence = r.sequence
  event : d.event.code = r.event
  task : d.task = if r.task = invalidTaskId then none else some r.task
  related : d.related = if r.related = invalidTaskId then none else some r.related
  value0 : d.value0 = r.value0
  value1 : d.value1 = r.value1
  value2 : d.value2 = r.value2
  raw : d.raw = encodeRecord r

lemma Sendable.recovers {r : TraceRecord} (h : Sendable r) : Recovers (decoded r) r := by
  obtain ⟨event, he, hc⟩ := eventOfCode_valid h.event
  refine ⟨rfl, rfl, ?_, rfl, rfl, rfl, rfl, rfl, rfl⟩
  rw [decoded, he]
  exact hc

lemma taskValid_of {task : ℕ} (h : task ≤ maxTaskId ∨ task = invalidTaskId) :
    taskValid task = true := by
  rcases h with h | h <;> simp [taskValid, h]

/-- The state of the loop after a record. -/
def afterRecord (s : DecodeState) (r : TraceRecord) : DecodeState :=
  { s with
    records := s.records ++ [decoded r]
    rawRecords := s.rawRecords ++ encodeRecord r
    expectedSequence := s.expectedSequence + 1
    previousTick := r.tick
    offset := s.offset + (frame frameRecord (encodeRecord r)).length
    frameIndex := s.frameIndex + 1 }

lemma takeRecord_encode {s : DecodeState} {r : TraceRecord} (h : Sendable r)
    (hfooter : s.footer = none) (hseq : r.sequence = s.expectedSequence)
    (htick : s.records ≠ [] → s.previousTick ≤ r.tick) :
    takeRecord s (encodeRecord r) (frame frameRecord (encodeRecord r)).length =
      .ok (afterRecord s r) := by
  obtain ⟨event, he, -⟩ := eventOfCode_valid h.event
  have hd : decoded r = ⟨r.tick, r.sequence, event, optionalTask r.task, optionalTask r.related,
      r.value0, r.value1, r.value2, encodeRecord r⟩ := by rw [decoded, he]; rfl
  have ht : ¬ (s.records ≠ [] ∧ r.tick < s.previousTick) := fun hb => by
    have hle := htick hb.1
    omega
  unfold takeRecord afterRecord
  rw [hfooter, if_neg (by simp), unpackRecord_encode h.typed, hd]
  simp only [h.schema, he, h.flags, taskValid_of h.task, taskValid_of h.related, hseq, ht, ne_eq,
    not_true_eq_false, if_false, Bool.not_true, Bool.false_eq_true, or_self]

/-! ### The loop -/

/-- The frames of the records that are still to be read, with the footer and the trailer. -/
def framesOf (records : List TraceRecord) (final : TraceFinal) : List UInt8 :=
  records.flatMap (fun r => frame frameRecord (encodeRecord r)) ++
    (frame frameFooter (encodeFooter final) ++ trailer)

section Loop

variable {data : List UInt8} {final : TraceFinal}

lemma offset_lt {s : DecodeState} {xs : List UInt8} (h : data.drop s.offset = xs)
    (hx : 0 < xs.length) : s.offset < data.length := by
  rw [← h, List.length_drop] at hx
  omega

lemma takeFrames_frame {s : DecodeState} {more type : ℕ} {payload rest : List UInt8}
    (h : data.drop s.offset = frame type payload ++ rest) :
    takeFrames data true (more + 1) s =
      match takeFrame data s with
      | .error e => .error e
      | .ok s => if s.footer.isSome then .ok s else takeFrames data true more s := by
  have hlt : s.offset < data.length := offset_lt h (by rw [List.length_append, frame_length]; omega)
  have ht : trailer.isPrefixOf (data.drop s.offset) = false := by
    rw [h]
    rfl
  rw [takeFrames.eq_def]
  dsimp only
  rw [if_neg (by omega), ht, Bool.and_false]
  exact if_neg Bool.false_ne_true

/-- **The loop reads the frames of the records back**, up to the trailer. -/
theorem takeFrames_framesOf (hfinal : TypedFinal final) {records : List TraceRecord}
    {s : DecodeState} {more : ℕ} (hmore : records.length < more)
    (hdata : data.drop s.offset = framesOf records final) (hfooter : s.footer = none)
    (hrecords : ∀ r ∈ records, Sendable r)
    (hseq : records.map TraceRecord.sequence = List.range' s.expectedSequence records.length)
    (hticks : (records.map TraceRecord.tick).Pairwise (· ≤ ·))
    (hprevious : s.records ≠ [] → ∀ r ∈ records, s.previousTick ≤ r.tick) :
    ∃ s', takeFrames data true more s = .ok s' ∧ s'.footer = some final ∧
      s'.records = s.records ++ records.map decoded ∧
      s'.rawRecords = s.rawRecords ++ records.flatMap encodeRecord ∧
      data.drop s'.offset = trailer := by
  induction records generalizing s more with
  | nil =>
    obtain ⟨more, rfl⟩ := Nat.exists_eq_succ_of_ne_zero (Nat.ne_zero_of_lt hmore)
    have hleft : data.drop s.offset = frame frameFooter (encodeFooter final) ++ trailer := hdata
    rw [takeFrames_frame hleft, takeFrame_frame hleft (.inr ⟨rfl, rfl⟩), if_pos rfl, takeFooter,
      hfooter, if_neg (by simp), unpackFooter_encode hfinal]
    refine ⟨_, rfl, rfl, by simp, by simp, ?_⟩
    rw [← List.drop_drop, hleft, List.drop_left]
  | cons r records ih =>
    have hleft : data.drop s.offset =
        frame frameRecord (encodeRecord r) ++ framesOf records final := by
      rw [hdata, framesOf, List.flatMap_cons, List.append_assoc]
      rfl
    have hr := hrecords r List.mem_cons_self
    rw [List.map_cons, List.length_cons, List.range'_succ, List.cons.injEq] at hseq
    rw [List.map_cons, List.pairwise_cons] at hticks
    have hstep := takeRecord_encode hr hfooter hseq.1
      (fun hne => hprevious hne r List.mem_cons_self)
    have hnext : data.drop (afterRecord s r).offset = framesOf records final := by
      rw [afterRecord, ← List.drop_drop, hleft, List.drop_left]
    obtain ⟨more, rfl⟩ := Nat.exists_eq_succ_of_ne_zero (Nat.ne_zero_of_lt hmore)
    obtain ⟨s', hs, hf, hrec, hraw, hend⟩ := ih (s := afterRecord s r)
      (Nat.lt_of_succ_lt_succ hmore) hnext hfooter
      (fun r' h => hrecords r' (List.mem_cons_of_mem r h)) hseq.2 hticks.2
      (fun _ r' h => hticks.1 r'.tick (List.mem_map_of_mem h))
    refine ⟨s', ?_, hf, ?_, ?_, hend⟩
    · rw [takeFrames_frame hleft, takeFrame_frame hleft (.inl ⟨rfl, rfl⟩), if_neg (by decide), hstep]
      have hn : (afterRecord s r).footer.isSome = false := by
        rw [afterRecord, hfooter]
        rfl
      simp only [hn, Bool.false_eq_true, if_false]
      exact hs
    · rw [hrec, afterRecord, List.append_assoc]
      rfl
    · rw [hraw, afterRecord, List.append_assoc]
      rfl

end Loop

/-! ### The stream -/

/-- What is sent for a list of records and a footer, between the lines of the application. -/
def sendTrace (records : List TraceRecord) (final : TraceFinal) : Option (List UInt8) := do
  let frames ← records.mapM fun r => sendFrame frameRecord (encodeRecord r)
  let footer ← sendFrame frameFooter (encodeFooter final)
  some (preamble ++ frames.flatten ++ footer ++ trailer)

/-- The footer of a run that lost nothing. -/
structure ZeroLoss (records : List TraceRecord) (final : TraceFinal) : Prop where
  attempted : final.attempted = records.length
  emitted : final.emitted = records.length
  dropped : final.dropped = 0
  finalSequence : final.finalSequence =
    if records.length = 0 then uint32Max else records.length - 1
  flags : final.flags = 0
  finalTick : final.finalTick < 2 ^ 64
  last : ∀ last ∈ records.getLast?, last.tick ≤ final.finalTick

section Stream

variable {records : List TraceRecord} {final : TraceFinal}

lemma ZeroLoss.typed (h : ZeroLoss records final) (hn : records.length ≤ 4095) :
    TypedFinal final := by
  refine ⟨?_, ?_, ?_, ?_, ?_, h.finalTick⟩
  · rw [h.attempted]
    omega
  · rw [h.emitted]
    omega
  · rw [h.dropped]
    decide
  · rw [h.finalSequence]
    unfold uint32Max
    split <;> omega
  · rw [h.flags]
    decide

lemma sendTrace_eq (records : List TraceRecord) (final : TraceFinal) :
    sendTrace records final = some (preamble ++ framesOf records final) := by
  have hm : (records.mapM fun r => sendFrame frameRecord (encodeRecord r)) =
      some (records.map fun r => frame frameRecord (encodeRecord r)) := by
    induction records with
    | nil => rfl
    | cons r records ih => rw [List.mapM_cons, sendFrame_record, ih]; rfl
  unfold sendTrace
  rw [hm, sendFrame_footer]
  simp only [framesOf, List.flatMap_def, List.append_assoc]
  rfl

lemma framesOf_length (records : List TraceRecord) (final : TraceFinal) :
    (framesOf records final).length = 48 * records.length + 62 := by
  rw [framesOf, List.length_append, List.length_append, List.length_flatMap]
  simp only [frame_length, encodeRecord_length, encodeFooter_length, recordSize, footerPayloadSize]
  rw [List.map_const', List.sum_replicate]
  have ht : trailer.length = 18 := rfl
  rw [smul_eq_mul, ht]
  omega

/-- **The footer of a run that lost nothing is accepted.** -/
lemma checkFooter_zeroLoss (h : ZeroLoss records final) (footerEnd frameIndex : ℕ) :
    checkFooter final (records.map decoded) footerEnd frameIndex = .ok () := by
  have hfinal : final.finalSequence =
      if final.attempted = 0 then 0xFFFFFFFF else final.attempted - 1 := by
    rw [h.finalSequence, h.attempted]
    rfl
  unfold checkFooter
  dsimp only
  rw [if_neg (by simp [h.flags]), if_neg (by simp [h.emitted]),
    if_neg (by simp [h.attempted, h.emitted, h.dropped]), if_neg (by rw [← hfinal]; simp),
    if_neg (by simp [h.dropped]), List.getLast?_map]
  cases hl : records.getLast? with
  | none => rfl
  | some last =>
    have hle := h.last last (by rw [hl]; rfl)
    exact if_neg (by simp only [decoded]; omega)

/-- **The wire round trip**: what is sent for up to 4095 records passes the framing, checksum,
record and footer checks, and the same field values come back in the same order, with the
payloads one after the other. The checksum of the firmware is the one the decoder computes. -/
theorem wire_round_trip (hn : records.length ≤ 4095) (hrecords : ∀ r ∈ records, Sendable r)
    (hseq : records.map TraceRecord.sequence = List.range records.length)
    (hticks : (records.map TraceRecord.tick).Pairwise (· ≤ ·))
    (hfinal : ZeroLoss records final) :
    ∃ bytes trace, sendTrace records final = some bytes ∧ decodeStream bytes = .ok trace ∧
      List.Forall₂ Recovers trace.records records ∧
      trace.rawRecords = records.flatMap encodeRecord ∧ trace.footer = final ∧
      ∀ data, crc32 data = ieeeCrc32 data := by
  set data := preamble ++ framesOf records final with hdata
  have hp : preamble.length = 26 := rfl
  have hlen : data.length = 48 * records.length + 88 := by
    rw [hdata, List.length_append, framesOf_length, hp]
    omega
  have hmore : records.length < maxFrames := by
    rw [maxFrames]
    omega
  have hdrop : data.drop preamble.length = framesOf records final := by
    rw [hdata, List.drop_left]
  obtain ⟨s, hs, hf, hrec, hraw, hend⟩ := takeFrames_framesOf
    (s := ⟨preamble.length, [], none, 0, 0, 0, 0, []⟩) (hfinal.typed hn)
    hmore hdrop rfl hrecords (by rw [hseq, List.range_eq_range']) hticks (fun hne => absurd rfl hne)
  refine ⟨data, ⟨final, records.map decoded, records.flatMap encodeRecord⟩,
    sendTrace_eq records final, ?_, ?_, rfl, rfl, crc32_eq_ieee⟩
  · rw [decodeStream, if_neg (by rw [hlen, maxInputBytes]; omega), if_pos, decodeFrom, hs]
    · have hc := checkFooter_zeroLoss hfinal s.footerEnd s.frameIndex
      have he : checkEnd data true s = .ok () := by
        rw [checkEnd, if_pos rfl, if_neg (not_not.mpr hend)]
      dsimp only [bind, Except.bind]
      simp only [hf, hrec, hraw, List.nil_append, hc, he]
    · rw [List.isPrefixOf_iff_prefix]
      exact List.prefix_append _ _
  · rw [List.forall₂_map_left_iff]
    exact List.forall₂_same.mpr fun r hr => (hrecords r hr).recovers

/-- Two records and their footer. -/
theorem wire_round_trip_two :
    ∃ bytes trace,
      sendTrace [⟨0, 0, 1, 1, 0, 0xFFFF, 0xFFFF, 0, 5, 0⟩, ⟨9, 1, 1, 2, 0, 1, 0xFFFF, 1, 3, 2⟩]
        ⟨2, 2, 0, 1, 0, 40⟩ = some bytes ∧ decodeStream bytes = .ok trace ∧
      trace.footer = ⟨2, 2, 0, 1, 0, 40⟩ := by
  obtain ⟨bytes, trace, hs, hd, -, -, hf, -⟩ := @wire_round_trip
    [⟨0, 0, 1, 1, 0, 0xFFFF, 0xFFFF, 0, 5, 0⟩, ⟨9, 1, 1, 2, 0, 1, 0xFFFF, 1, 3, 2⟩]
    ⟨2, 2, 0, 1, 0, 40⟩ (by decide) (fun r hr => by
      rcases List.mem_cons.mp hr with rfl | hr
      · exact ⟨⟨by decide, by decide, by decide, by decide, by decide, by decide, by decide,
          by decide, by decide, by decide⟩, rfl, rfl, rfl, .inr rfl, .inr rfl⟩
      · obtain rfl := List.mem_singleton.mp hr
        exact ⟨⟨by decide, by decide, by decide, by decide, by decide, by decide, by decide,
          by decide, by decide, by decide⟩, rfl, rfl, rfl, .inl (by decide), .inr rfl⟩)
    rfl (by decide) ⟨rfl, rfl, rfl, rfl, rfl, by decide, by simp⟩
  exact ⟨bytes, trace, hs, hd, hf⟩

end Stream

end Aymos.RoundTrip
