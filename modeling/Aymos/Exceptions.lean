import Aymos.Canonical

/-!
The exceptions that can leave `decode`.

Here every operation of the source that can raise by itself does: unpacking, indexing, looking a
key up, comparing what has no order. The checks come first everywhere, so that a `TraceError` is
all that is ever raised.
-/

namespace Aymos.Exceptions

open Words Scheduler Trace LittleEndian Wire Decoder RoundTrip Validate Canonical

inductive Exception
  | traceError (message : String)
  | structError
  | keyError
  | indexError
  | typeError
  deriving DecidableEq

/-! ### Operations that raise -/

/-- `unpack_from`. -/
def unpackFrom {α : Type} (unpack : List UInt8 → α) (size : ℕ) (data : List UInt8) (offset : ℕ) :
    Except Exception α :=
  if data.length < offset + size then .error .structError
  else .ok (unpack ((data.drop offset).take size))

/-- A dictionary's entry. -/
def entry {α : Type} : Option α → Except Exception α
  | some a => .ok a
  | none => .error .keyError

/-- A list's item. -/
def item {α : Type} (xs : List α) (i : ℕ) : Except Exception α :=
  match xs[i]? with
  | some a => .ok a
  | none => .error .indexError

/-- An entry of what may be `None`. -/
def notNone {α : Type} : Option α → Except Exception α
  | some a => .ok a
  | none => .error .typeError

/-- `record["details"]`, of a selection. -/
def selectEntry (r : DecodedRecord) : Except Exception SelectDetails :=
  entry (if r.event = .taskSelect then some (selectDetails r) else none)

/-- `record["details"]`, of a candidate. -/
def candidateEntry (r : DecodedRecord) : Except Exception Candidate :=
  entry (if r.event = .selectCandidate then some (candidateDetails r) else none)

/-- `sorted`, by keys that end with the task. A task that is `None` has no order. -/
def sortedItems (items : List Candidate) : Except Exception (List Candidate) :=
  if items.any fun candidate => candidate.task == none then .error .typeError
  else .ok (items.insertionSort KeyLe)

/-! ### The decoder -/

/-- A run that raises nothing but `TraceError`. -/
def raising {α : Type} (result : Except String α) : Except Exception α :=
  result.mapError .traceError

/-- What the loop does with the payload of a record. -/
def takeRecordRaising (s : DecodeState) (payload : List UInt8) (frameSize : ℕ) :
    Except Exception DecodeState :=
  let r := unpackRecord payload
  let raise (message : String) : Except Exception DecodeState :=
    .error (.traceError (fail message s.offset s.frameIndex r.sequence none))
  if s.footer.isSome then
    .error (.traceError (fail "record appears after footer" s.offset s.frameIndex none none))
  else if r.schema ≠ traceSchemaVersion then
    raise s!"record schema {r.schema} does not match frame"
  else if eventOfCode r.event = none then raise s!"unknown event {r.event}"
  else if r.flags ≠ 0 then raise s!"unknown record flags 0x{hexadecimal 0 r.flags}"
  else if !taskValid r.task ∨ !taskValid r.related then
    raise s!"impossible task IDs task={r.task} related={r.related}"
  else if r.sequence ≠ s.expectedSequence then
    raise s!"sequence gap: expected {s.expectedSequence}, got {r.sequence}"
  else if s.records ≠ [] ∧ r.tick < s.previousTick then
    raise s!"nonmonotonic tick {r.tick} after {s.previousTick}"
  else do
    let event ← entry (eventOfCode r.event)
    .ok { s with
      records := s.records ++
        [⟨r.tick, r.sequence, event, optionalTask r.task, optionalTask r.related,
          r.value0, r.value1, r.value2, payload⟩]
      rawRecords := s.rawRecords ++ payload
      expectedSequence := s.expectedSequence + 1
      previousTick := r.tick
      offset := s.offset + frameSize
      frameIndex := s.frameIndex + 1 }

/-- The loop's checks of one frame, and what is done with it. -/
def takeFrameRaising (data : List UInt8) (s : DecodeState) : Except Exception DecodeState :=
  let raise (message : String) (shown : Option (List UInt8)) : Except Exception DecodeState :=
    .error (.traceError (fail message s.offset s.frameIndex none shown))
  if data.length - s.offset < headerSize then raise "truncated frame header" none
  else do
    let header ← unpackFrom unpackHeader headerSize data s.offset
    let expectedLength := if header.frameType = frameRecord then recordSize else footerPayloadSize
    let frameSize := headerSize + header.length + crcSize
    let payloadStart := s.offset + headerSize
    if header.magic ≠ frameSync then raise "invalid frame sync or trailing garbage" data
    else if header.framing ≠ frameVersion then
      raise s!"unknown framing version {header.framing}" none
    else if header.schema ≠ traceSchemaVersion then
      raise s!"unknown schema version {header.schema}" none
    else if header.frameType ≠ frameRecord ∧ header.frameType ≠ frameFooter then
      raise s!"unknown frame type {header.frameType}" none
    else if header.length ≠ expectedLength then
      raise s!"invalid payload length {header.length}; expected {expectedLength}" none
    else if header.flags ≠ 0 then
      raise s!"unknown frame flags 0x{hexadecimal 0 header.flags}" none
    else if frameSize > data.length - s.offset then
      raise "truncated frame payload or CRC" none
    else do
      let expectedCrc ← unpackFrom ofBytes crcSize data (payloadStart + header.length)
      let actualCrc :=
        (ieeeCrc32 (((data.drop s.offset).take (headerSize + header.length)).drop 4)).toNat
      if actualCrc ≠ expectedCrc then
        raise s!"CRC32 mismatch: got 0x{hexadecimal 8 expectedCrc}, expected 0x{hexadecimal 8 actualCrc}"
          data
      else if header.frameType = frameFooter then do
        let payload ← unpackFrom id footerPayloadSize data payloadStart
        raising (takeFooter s payload frameSize)
      else do
        let payload ← unpackFrom id recordSize data payloadStart
        takeRecordRaising s payload frameSize

/-- The loop over the frames. -/
def takeFramesRaising (data : List UInt8) (requireTrailer : Bool) :
    ℕ → DecodeState → Except Exception DecodeState
  | more, s =>
    if s.offset ≥ data.length then .ok s
    else if requireTrailer && trailer.isPrefixOf (data.drop s.offset) then .ok s
    else
      match more with
      | 0 => .error (.traceError
          (fail s!"frame count exceeds {maxFrames}" s.offset s.frameIndex none none))
      | more + 1 =>
        match takeFrameRaising data s with
        | .error e => .error e
        | .ok s => if s.footer.isSome then .ok s else takeFramesRaising data requireTrailer more s

/-- The checks of the footer. -/
def checkFooterRaising (footer : TraceFinal) (records : List DecodedRecord)
    (footerEnd frameIndex : ℕ) : Except Exception Unit :=
  let raise (message : String) : Except Exception Unit :=
    .error (.traceError
      (fail message (footerEnd - footerPayloadSize - crcSize) (frameIndex - 1 : ℕ) none none))
  let expectedFinal := if footer.attempted = 0 then 0xFFFFFFFF else footer.attempted - 1
  if footer.flags ≠ 0 then
    raise s!"footer reports unsupported/incomplete flags 0x{hexadecimal 0 footer.flags}"
  else if footer.emitted ≠ records.length then
    raise s!"footer emitted={footer.emitted} but decoded {records.length} records"
  else if footer.attempted ≠ footer.emitted + footer.dropped then
    raise "footer attempted != emitted + dropped"
  else if footer.finalSequence ≠ expectedFinal then
    raise s!"footer final sequence {footer.finalSequence} != {expectedFinal}"
  else if footer.dropped ≠ 0 then raise s!"complete run dropped {footer.dropped} records"
  else if records = [] then .ok ()
  else do
    let last ← item records (records.length - 1)
    if footer.finalTick < last.tick then raise "footer final tick precedes the last record"
    else .ok ()

/-- The part of `decode` after the start of the stream has been recognized. -/
def decodeFromRaising (data : List UInt8) (offset : ℕ) (requireTrailer : Bool) :
    Except Exception DecodedTrace := do
  let s ← takeFramesRaising data requireTrailer maxFrames ⟨offset, [], none, 0, 0, 0, 0, []⟩
  if s.footer = none then
    .error (.traceError (fail "missing terminal footer" s.offset s.frameIndex none none))
  else
    let footer ← notNone s.footer
    checkFooterRaising footer s.records s.footerEnd s.frameIndex
    raising (checkEnd data requireTrailer s)
    .ok ⟨footer, s.records, s.rawRecords⟩

def decodeStreamRaising (data : List UInt8) : Except Exception DecodedTrace :=
  if data.length > maxInputBytes then
    .error (.traceError s!"input is {data.length} bytes; limit is {maxInputBytes}")
  else if preamble.isPrefixOf data then decodeFromRaising data preamble.length true
  else if frameSync.isPrefixOf data then decodeFromRaising data 0 false
  else
    .error (.traceError (fail "missing exact trace preamble or frame sync" 0 none none data))

/-! ### The validators -/

def snapshotRaise (sequence : ℕ) (message : String) : Except Exception Unit :=
  raising (snapshotError sequence message)

/-- The checks that depend on the purpose of a selection. -/
def checkPurposeRaising (record : DecodedRecord) (details : SelectDetails)
    (items : List Candidate) : Except Exception Unit :=
  let marked := items.filter (·.incumbent)
  match details.purpose with
  | none => snapshotRaise record.sequence "unknown selection purpose"
  | some .dispatch =>
    let expectedMarked :=
      if (items.map (·.task)).contains record.related then [record.related] else []
    if items.any fun item => item.state != 2 then
      snapshotRaise record.sequence "dispatch candidate is not READY"
    else if marked.map (·.task) ≠ expectedMarked then
      snapshotRaise record.sequence "dispatch incumbent marker differs"
    else .ok ()
  | some _ =>
    if details.excluded ≠ none ∨ record.related = none ∨ record.task = record.related then
      snapshotRaise record.sequence "impossible probe selection"
    else if record.related = some 0 then
      if marked ≠ [] ∨ items.any fun item => item.state != 2 then
        snapshotRaise record.sequence "idle probe metadata differs"
      else .ok ()
    else if items.length < 2 ∨ marked.length ≠ 1 then
      snapshotRaise record.sequence "probe incumbent/state metadata differs"
    else do
      let first ← item marked 0
      if first.task ≠ record.related ∨ first.state ≠ 3 ∨
          items.any fun item => item.task != record.related && item.state != 2 then
        snapshotRaise record.sequence "probe incumbent/state metadata differs"
      else .ok ()

/-- The reason that the keys of the ordered candidates call for. -/
def expectedReasonRaising (fallback : Bool) (ordered : List Candidate) :
    Except Exception SelectReason :=
  if ordered.length = 1 then .ok (if fallback then .excludedFallback else .onlyReady)
  else do
    let first ← item ordered 0
    let second ← item ordered 1
    if first.absoluteDeadline ≠ second.absoluteDeadline then .ok .deadline
    else if first.priority ≠ second.priority then .ok .priority
    else .ok .stableTid

/-- The checks of the winner of a selection and of its reason. -/
def checkWinnerRaising (record : DecodedRecord) (details : SelectDetails)
    (items : List Candidate) : Except Exception Unit :=
  let eligible := items.filter (·.eligible)
  if record.task = some 0 then
    if items ≠ [] ∨ eligible ≠ [] ∨ details.readyMask ≠ 0 ∨ details.eligibleCount ≠ 0 ∨
        details.excluded ≠ none ∨ details.reason ≠ some .idle ∨
        details.purpose ≠ some .dispatch then
      snapshotRaise record.sequence "invalid idle selection snapshot"
    else .ok ()
  else if !(items.map (·.task)).contains record.task then
    snapshotRaise record.sequence "selected task absent from candidates"
  else do
    let fallback := eligible.isEmpty && record.task == details.excluded
    let selectable := if fallback then items.filter (·.task == record.task) else eligible
    let ordered ← sortedItems selectable
    if ordered = [] then
      snapshotRaise record.sequence "selected task contradicts candidate keys"
    else
      let first ← item ordered 0
      if first.task ≠ record.task then
        snapshotRaise record.sequence "selected task contradicts candidate keys"
      else
        let expected ← expectedReasonRaising fallback ordered
        if details.reason ≠ some expected then
          let shown := match details.reason with
            | some reason => reasonName reason
            | none => s!"unknown:{details.reasonCode}"
          snapshotRaise record.sequence (s!"tie reason {shown} != " ++ reasonName expected)
        else .ok ()

/-- The checks of a snapshot once its candidates have been found. -/
def checkSnapshotRaising (record : DecodedRecord) (details : SelectDetails)
    (candidates : List DecodedRecord) : Except Exception Unit := do
  if details.readyMask &&& 0x1E ≠ details.readyMask then
    snapshotRaise record.sequence "READY mask has reserved bits"
  raising (checkLinks record [] candidates)
  let items ← candidates.mapM candidateEntry
  let eligible := items.filter (·.eligible)
  let readyCandidates := (items.filter (·.state == 2)).map (·.task)
  let expected := ((List.range' 1 maxTaskId).filter (details.readyMask.testBit ·)).map some
  if readyCandidates.toFinset ≠ expected.toFinset then
    snapshotRaise record.sequence "READY mask and candidate set differ"
  if eligible.length ≠ details.eligibleCount then
    snapshotRaise record.sequence "eligible count differs"
  raising (rejectAny items (fun item => item.excluded != (item.task == details.excluded))
    "excluded marker differs")
  checkPurposeRaising record details items
  raising (rejectAny items (fun item => item.eligible != (item.task != details.excluded))
    "eligibility marker differs")
  checkWinnerRaising record details items

/-- The loop of `_validate_selection_snapshots`. -/
def validateSnapshotsRaising : ℕ → List DecodedRecord → Except Exception Unit
  | _, [] => .ok ()
  | skip + 1, _ :: records => validateSnapshotsRaising skip records
  | 0, record :: records =>
    if record.event ≠ .taskSelect then
      if record.event = .selectCandidate then
        snapshotRaise record.sequence "orphan selection candidate"
      else validateSnapshotsRaising 0 records
    else do
      let details ← selectEntry record
      let count := details.candidateCount
      let candidates := records.take count
      if count > maxTaskId then
        snapshotRaise record.sequence s!"candidate count {count} exceeds {maxTaskId}"
      else if candidates.length ≠ count ∨
          candidates.any fun item => item.event != .selectCandidate then
        snapshotRaise record.sequence "incomplete contiguous candidate snapshot"
      else do
        checkSnapshotRaising record details candidates
        validateSnapshotsRaising count records

/-- `decode`, with every exception that can leave it. -/
def decodeRaising (data : List UInt8) : Except Exception DecodedTrace := do
  let trace ← decodeStreamRaising data
  validateSnapshotsRaising 0 trace.records
  raising (validateEventRoles trace.records)
  raising (validateEventPayloads trace.records)
  if trace.records.any fun r => r.event == .overflow then
    .error (.traceError "complete zero-loss trace contains a trace_overflow record")
  .ok trace

/-! ### Agreement -/

section Raising

variable {α β : Type}

@[simp] lemma raising_ok (a : α) : raising (.ok a) = .ok a := rfl
@[simp] lemma raising_error (e : String) :
    (raising (.error e) : Except Exception α) = .error (.traceError e) := rfl

lemma raising_bind (x : Except String α) (f : α → Except String β) :
    raising (x >>= f) = raising x >>= fun a => raising (f a) := by
  cases x <;> rfl

lemma raising_ite (c : Prop) [Decidable c] (x y : Except String α) :
    raising (if c then x else y) = if c then raising x else raising y := by
  split <;> rfl

lemma ok_bind (a : α) (f : α → Except Exception β) : (Except.ok a >>= f) = f a := rfl

lemma unpackFrom_ok {unpack : List UInt8 → α} {size : ℕ} {data : List UInt8} {offset : ℕ}
    (h : offset + size ≤ data.length) :
    unpackFrom unpack size data offset = .ok (unpack ((data.drop offset).take size)) :=
  if_neg (by omega)

end Raising

lemma takeRecordRaising_eq (s : DecodeState) (payload : List UInt8) (frameSize : ℕ) :
    takeRecordRaising s payload frameSize = raising (takeRecord s payload frameSize) := by
  unfold takeRecordRaising takeRecord
  dsimp only
  cases hevent : eventOfCode (unpackRecord payload).event with
  | none => simp only [raising_ite, raising_error, if_true]
  | some event =>
    simp only [raising_ite, raising_error, raising_ok, reduceCtorEq, if_false, entry, ok_bind]

lemma unpackHeader_take (left : List UInt8) : unpackHeader (left.take headerSize) = unpackHeader left := by
  have hfield : ∀ at_ width, at_ + width ≤ 12 →
      field (left.take headerSize) at_ width = field left at_ width := by
    intro at_ width hle
    unfold field headerSize
    rw [List.drop_take, List.take_take, Nat.min_eq_left (by omega)]
  unfold unpackHeader
  rw [hfield 4 1 (by omega), hfield 5 1 (by omega), hfield 6 2 (by omega), hfield 8 2 (by omega),
    hfield 10 2 (by omega), List.take_take]
  rfl

lemma takeFrameRaising_eq (data : List UInt8) (s : DecodeState) :
    takeFrameRaising data s = raising (takeFrame data s) := by
  unfold takeFrameRaising takeFrame
  simp only [raising_ite, raising_error, List.length_drop]
  refine ite_congr rfl (fun _ => rfl) fun hheader => ?_
  have hroom : s.offset + headerSize ≤ data.length := by
    unfold headerSize at hheader ⊢
    omega
  rw [unpackFrom_ok hroom, ok_bind, unpackHeader_take]
  refine ite_congr rfl (fun _ => rfl) fun _ => ite_congr rfl (fun _ => rfl) fun _ =>
    ite_congr rfl (fun _ => rfl) fun _ => ite_congr rfl (fun _ => rfl) fun hkind =>
    ite_congr rfl (fun _ => rfl) fun hlength => ite_congr rfl (fun _ => rfl) fun _ =>
    ite_congr rfl (fun _ => rfl) fun hsize => ?_
  generalize unpackHeader (data.drop s.offset) = header at *
  rw [not_not] at hlength
  have hfits : s.offset + headerSize + header.length + crcSize ≤ data.length := by omega
  have hcrc : ofBytes ((data.drop (s.offset + headerSize + header.length)).take crcSize) =
      field (data.drop s.offset) (headerSize + header.length) crcSize := by
    rw [field, List.drop_drop, Nat.add_assoc]
  rw [unpackFrom_ok hfits, ok_bind, hcrc]
  refine ite_congr rfl (fun _ => rfl) fun _ => ?_
  have hpayload : ∀ size, header.length = size →
      unpackFrom id size data (s.offset + headerSize) =
        .ok (((data.drop s.offset).drop headerSize).take header.length) := by
    rintro size rfl
    rw [unpackFrom_ok (by omega), List.drop_drop, id]
  refine ite_congr rfl (fun hfooter => ?_) fun hrecord => ?_
  · rw [if_neg (by rw [hfooter]; decide)] at hlength
    rw [hpayload _ hlength, ok_bind]
  · have hkind' : header.frameType = frameRecord := by
      by_contra hne
      exact hkind ⟨hne, hrecord⟩
    rw [if_pos hkind'] at hlength
    rw [hpayload _ hlength, ok_bind, takeRecordRaising_eq]

lemma takeFramesRaising_eq (data : List UInt8) (requireTrailer : Bool) (more : ℕ)
    (s : DecodeState) :
    takeFramesRaising data requireTrailer more s =
      raising (takeFrames data requireTrailer more s) := by
  induction more generalizing s with
  | zero =>
    rw [takeFramesRaising.eq_def, takeFrames.eq_def]
    simp only [raising_ite, raising_ok, raising_error]
  | succ more ih =>
    rw [takeFramesRaising.eq_def, takeFrames.eq_def]
    dsimp only
    rw [raising_ite, raising_ite, takeFrameRaising_eq]
    refine ite_congr rfl (fun _ => rfl) fun _ => ite_congr rfl (fun _ => rfl) fun _ => ?_
    cases takeFrame data s with
    | error e => rfl
    | ok s =>
      dsimp only [raising_ok]
      rw [raising_ite, ih]
      rfl

lemma checkFooterRaising_eq (footer : TraceFinal) (records : List DecodedRecord)
    (footerEnd frameIndex : ℕ) :
    checkFooterRaising footer records footerEnd frameIndex =
      raising (checkFooter footer records footerEnd frameIndex) := by
  unfold checkFooterRaising checkFooter
  simp only [raising_ite, raising_error]
  refine ite_congr rfl (fun _ => rfl) fun _ => ite_congr rfl (fun _ => rfl) fun _ =>
    ite_congr rfl (fun _ => rfl) fun _ => ite_congr rfl (fun _ => rfl) fun _ =>
    ite_congr rfl (fun _ => rfl) fun _ => ?_
  cases hlast : records.getLast? with
  | none =>
    rw [if_pos (List.getLast?_eq_none_iff.mp hlast)]
    rfl
  | some last =>
    have hne : records ≠ [] := by
      rintro rfl
      cases hlast
    rw [List.getLast?_eq_getElem?] at hlast
    rw [if_neg hne, item, hlast]
    simp only [ok_bind, raising_ite, raising_error, raising_ok]

lemma decodeFromRaising_eq (data : List UInt8) (offset : ℕ) (requireTrailer : Bool) :
    decodeFromRaising data offset requireTrailer =
      raising (decodeFrom data offset requireTrailer) := by
  unfold decodeFromRaising decodeFrom
  rw [takeFramesRaising_eq, raising_bind]
  cases takeFrames data requireTrailer maxFrames ⟨offset, [], none, 0, 0, 0, 0, []⟩ with
  | error e => rfl
  | ok s =>
    rw [raising_ok, ok_bind, ok_bind]
    cases hfooter : s.footer with
    | none => rfl
    | some footer =>
      rw [if_neg (Option.some_ne_none _), notNone, ok_bind, checkFooterRaising_eq]
      simp only [raising_bind, raising_ok]

lemma decodeStreamRaising_eq (data : List UInt8) :
    decodeStreamRaising data = raising (decodeStream data) := by
  unfold decodeStreamRaising decodeStream
  simp only [raising_ite, raising_error, decodeFromRaising_eq]

lemma checkPurposeRaising_eq (record : DecodedRecord) (items : List Candidate) :
    checkPurposeRaising record (selectDetails record) items =
      raising (checkPurpose record items) := by
  unfold checkPurposeRaising checkPurpose
  dsimp only
  rcases (selectDetails record).purpose with _ | purpose
  · rfl
  cases purpose with
  | dispatch => simp only [raising_ite, raising_ok, snapshotRaise, List.contains_iff_mem]
  | systickProbe | runtimeCreateProbe =>
    simp only [raising_ite, raising_ok, snapshotRaise]
    refine ite_congr rfl (fun _ => rfl) fun _ => ite_congr rfl (fun _ => rfl) fun _ => ?_
    by_cases hshape : items.length < 2 ∨ (items.filter (·.incumbent)).length ≠ 1
    · rw [if_pos hshape, if_pos (hshape.imp_right Or.inl)]
    · rw [if_neg hshape]
      obtain ⟨htwo, hone⟩ := not_or.mp hshape
      obtain ⟨first, hfirst⟩ := List.length_eq_one_iff.mp (not_not.mp hone)
      rw [hfirst, item]
      simp only [List.getElem?_cons_zero, ok_bind, List.map_cons, List.head?_cons, ne_eq,
        Option.some.injEq, htwo, List.length_singleton, not_true_eq_false, false_or]

lemma sortedItems_eq {items : List Candidate} (htasks : ∀ candidate ∈ items, candidate.task ≠ none) :
    sortedItems items = .ok (items.insertionSort KeyLe) := by
  refine if_neg ?_
  rw [List.any_eq_true]
  rintro ⟨candidate, hmem, hnone⟩
  exact htasks candidate hmem (beq_iff_eq.mp hnone)

lemma expectedReasonRaising_eq {fallback : Bool} {ordered : List Candidate} (hne : ordered ≠ []) :
    expectedReasonRaising fallback ordered = .ok (expectedReason fallback ordered) := by
  rcases ordered with _ | ⟨first, _ | ⟨second, rest⟩⟩
  · exact absurd rfl hne
  · rfl
  · unfold expectedReasonRaising expectedReason
    rw [if_neg (by simp)]
    simp only [item, List.getElem?_cons_zero, List.getElem?_cons_succ, ok_bind]
    split
    · rfl
    split <;> rfl

lemma checkWinnerRaising_eq (record : DecodedRecord) {items : List Candidate}
    (htasks : ∀ candidate ∈ items, candidate.task ≠ none) :
    checkWinnerRaising record (selectDetails record) items =
      raising (checkWinner record items) := by
  unfold checkWinnerRaising checkWinner
  simp only [raising_ite, raising_ok, snapshotRaise]
  refine ite_congr rfl (fun _ => rfl) fun _ => ite_congr ?_ (fun _ => rfl) fun _ => ?_
  · rw [Bool.not_eq_true', ← Bool.not_eq_true, List.contains_iff_mem]
  generalize ((items.filter (·.eligible)).isEmpty &&
    record.task == (selectDetails record).excluded) = fallback
  have hselectable : ∀ candidate ∈ if fallback then items.filter (·.task == record.task)
      else items.filter (·.eligible), candidate.task ≠ none := by
    intro candidate hmem
    split at hmem <;> exact htasks candidate (List.mem_filter.mp hmem).1
  generalize (if fallback then items.filter (·.task == record.task)
    else items.filter (·.eligible)) = selectable at *
  rw [sortedItems_eq hselectable, ok_bind]
  generalize selectable.insertionSort KeyLe = ordered
  rcases ordered with _ | ⟨first, rest⟩
  · rfl
  · rw [if_neg (by simp), item]
    simp only [List.getElem?_cons_zero, ok_bind, expectedReasonRaising_eq (List.cons_ne_nil _ _)]
    exact ite_congr (by simp) (fun _ => rfl) fun _ => rfl

/-- The candidates that pass have tasks. -/
lemma checkLinks_tasks {record : DecodedRecord} {seen : List (Option ℕ)}
    {candidates : List DecodedRecord} (h : checkLinks record seen candidates = .ok ()) :
    ∀ candidate ∈ candidates, candidate.task ≠ none := by
  induction candidates generalizing seen with
  | nil => simp
  | cons candidate candidates ih =>
    rw [checkLinks] at h
    split at h
    · cases h
    next hpresent =>
    split at h
    · cases h
    exact List.forall_mem_cons.mpr ⟨fun hnone => hpresent (Or.inl hnone), ih h⟩

lemma mapM_candidateEntry {candidates : List DecodedRecord}
    (h : ∀ candidate ∈ candidates, candidate.event = .selectCandidate) :
    candidates.mapM candidateEntry = .ok (candidates.map candidateDetails) := by
  induction candidates with
  | nil => rfl
  | cons candidate candidates ih =>
    have hc : candidateEntry candidate = .ok (candidateDetails candidate) := by
      rw [candidateEntry, if_pos (h candidate List.mem_cons_self)]
      rfl
    rw [List.mapM_cons, hc, ok_bind, ih fun c hc => h c (List.mem_cons_of_mem _ hc)]
    rfl

lemma checkSnapshotRaising_eq (record : DecodedRecord) {candidates : List DecodedRecord}
    (hevents : ∀ candidate ∈ candidates, candidate.event = .selectCandidate) :
    checkSnapshotRaising record (selectDetails record) candidates =
      raising (checkSnapshot record candidates) := by
  unfold checkSnapshotRaising checkSnapshot
  simp only [raising_bind, raising_ite, snapshotRaise]
  refine ite_congr rfl (fun _ => rfl) fun _ => ?_
  cases hlinks : checkLinks record [] candidates with
  | error e => rfl
  | ok =>
    have htasks : ∀ candidate ∈ candidates.map candidateDetails, candidate.task ≠ none := by
      intro candidate hmem
      obtain ⟨r, hr, rfl⟩ := List.mem_map.mp hmem
      exact checkLinks_tasks hlinks r hr
    simp only [raising_ok, ok_bind, mapM_candidateEntry hevents, checkPurposeRaising_eq,
      checkWinnerRaising_eq record htasks]

lemma validateSnapshotsRaising_eq (skip : ℕ) (records : List DecodedRecord) :
    validateSnapshotsRaising skip records = raising (validateSnapshotsFrom skip records) := by
  induction records generalizing skip with
  | nil => cases skip <;> rfl
  | cons record records ih =>
    cases skip with
    | succ skip => exact ih skip
    | zero =>
      rw [validateSnapshotsRaising, validateSnapshotsFrom]
      rw [raising_ite, raising_ite, ih]
      refine ite_congr rfl (fun _ => rfl) fun hselect => ?_
      rw [selectEntry, if_pos (not_not.mp hselect)]
      simp only [entry, ok_bind, raising_ite, snapshotRaise]
      refine ite_congr rfl (fun _ => rfl) fun _ => ite_congr rfl (fun _ => rfl) fun hshape => ?_
      have hevents : ∀ candidate ∈ records.take (selectDetails record).candidateCount,
          candidate.event = .selectCandidate := by
        intro candidate hmem
        by_contra hne
        exact hshape (Or.inr (List.any_eq_true.mpr ⟨candidate, hmem, by simpa using hne⟩))
      rw [checkSnapshotRaising_eq record hevents, ih, raising_bind]

/-- **Nothing but a `TraceError` leaves the decoder.** -/
lemma decodeRaising_eq (data : List UInt8) : decodeRaising data = raising (decode data) := by
  unfold decodeRaising decode
  simp only [raising_bind, decodeStreamRaising_eq, validateSnapshotsRaising_eq, raising_ite,
    validateSelectionSnapshots, raising_ok]
  rfl

lemma raising_error_inv {α : Type} {result : Except String α} {e : Exception}
    (h : raising result = .error e) : ∃ message, e = .traceError message := by
  cases result with
  | error message => exact ⟨message, (Except.error.inj h).symm⟩
  | ok a => cases h

lemma bind_ok_inv {ε α β : Type} {x : Except ε α} {f : α → Except ε β} {b : β}
    (h : (x >>= f) = .ok b) : ∃ a, x = .ok a ∧ f a = .ok b := by
  cases x with
  | error e => cases h
  | ok a => exact ⟨a, rfl, h⟩

lemma decode_ok {data : List UInt8} {trace : DecodedTrace} (h : decode data = .ok trace) :
    decodeStream data = .ok trace := by
  obtain ⟨trace', hstream, h⟩ := bind_ok_inv h
  obtain ⟨_, -, h⟩ := bind_ok_inv h
  obtain ⟨_, -, h⟩ := bind_ok_inv h
  obtain ⟨_, -, h⟩ := bind_ok_inv h
  split at h
  · cases h
  · obtain rfl := Except.ok.inj h
    exact hstream

lemma decodeRaising_ok {data : List UInt8} {trace : DecodedTrace}
    (h : decodeRaising data = .ok trace) : decodeStream data = .ok trace := by
  rw [decodeRaising_eq] at h
  cases hdecode : decode data with
  | error e =>
    rw [hdecode] at h
    cases h
  | ok trace' =>
    rw [hdecode] at h
    obtain rfl := Except.ok.inj h
    exact decode_ok hdecode

/-- **Strict decoding is total and canonical**: every byte string decodes or raises a
`TraceError`; what it decodes to frames to the string itself, each record's fields giving its
bytes; and no other string with the same framing decodes to the same. -/
theorem decode_canonical (data : List UInt8) :
    ((∃ trace, decodeRaising data = .ok trace) ∨
      ∃ message, decodeRaising data = .error (.traceError message)) ∧
    (∀ trace, decodeRaising data = .ok trace →
      encodeTrace (preamble.isPrefixOf data) trace = data ∧
      (∀ d ∈ trace.records, d.raw = encodeRecord (recordOf d)) ∧
      trace.rawRecords = trace.records.flatMap DecodedRecord.raw) ∧
    ∀ data' trace, preamble.isPrefixOf data' = preamble.isPrefixOf data →
      decodeRaising data = .ok trace → decodeRaising data' = .ok trace → data' = data := by
  refine ⟨?_, fun trace h => decodeStream_canonical (decodeRaising_ok h),
    fun data' trace hmode h h' => ?_⟩
  · cases hdecode : decodeRaising data with
    | ok trace => exact Or.inl ⟨trace, rfl⟩
    | error e =>
      rw [decodeRaising_eq] at hdecode
      obtain ⟨message, rfl⟩ := raising_error_inv hdecode
      exact Or.inr ⟨message, rfl⟩
  · obtain ⟨hbytes, -⟩ := decodeStream_canonical (decodeRaising_ok h)
    obtain ⟨hbytes', -⟩ := decodeStream_canonical (decodeRaising_ok h')
    rw [← hbytes, ← hbytes', hmode]

end Aymos.Exceptions
