import Aymos.Canonical
import Aymos.Occurrences
import Aymos.Pipeline
import Aymos.ResultLine
import Aymos.Script

/-!
The capture of the signal lab: `_expected_semantic_projection`, `validate_schedule` and
`validate_capture` in `tools/aymos_lab/signal_lab.py`.

A capture is a trace, its trailer and the result line. The fields that the host compares, with the
numbers the decoder checks, leave a record no freedom, so that there is one trace it accepts.
-/

namespace Aymos.SignalCapture

open Words Scheduler Trace Kernel Machine Boot EmissionLog Safety Lifecycle Startup Scenario Script
  Wire Decoder RoundTrip Footer Validate Canonical TraceVerdict Pipeline ResultLine Occurrences

/-! ### The expected records -/

/-- `SemanticRecord`. -/
structure SemanticRecord where
  event : TraceEvent
  task : Option ℕ
  related : Option ℕ
  tick : ℕ
  value0 : ℕ := 0
  value1 : ℕ := 0
  value2 : ℕ := 0
  deriving DecidableEq

/-- `deadline`. -/
def deadlineOf (event : TraceEvent) (task tick absolute job : ℕ) : SemanticRecord :=
  ⟨event, task, none, tick, absolute, 0, job⟩

/-- `select_ready`. -/
def selectReady (tick : ℕ) (current : Option ℕ) (selected absolute priority purpose : ℕ) :
    List SemanticRecord :=
  let summary := 1 ||| (purpose <<< 8) ||| (0xFF <<< 16) ||| (1 <<< 24)
  let candidate := priority ||| (2 <<< 8) ||| (1 <<< 18)
  [⟨.taskSelect, selected, current, tick, 1 <<< selected, summary, 1⟩,
    ⟨.selectCandidate, selected, selected, tick, absolute, 0, candidate⟩]

/-- `select_idle`. -/
def selectIdle (tick current : ℕ) : SemanticRecord :=
  let summary := 5 ||| (1 <<< 8) ||| (0xFF <<< 16)
  ⟨.taskSelect, some 0, current, tick, 0, summary, 0⟩

/-- `switch`. -/
def switchOf (tick : ℕ) (outgoing : Option ℕ) (incoming cause outgoingState : ℕ) :
    SemanticRecord :=
  ⟨.contextSwitch, outgoing, incoming, tick, cause, outgoingState, 0⟩

/-- The end of a job, and the dispatch of the next task. -/
def handOver (base task next priority job : ℕ) : List SemanticRecord :=
  let tick := base + task
  let last := base = 18
  [deadlineOf .deadlineMet task tick (base + task + 2) job,
    if last then ⟨.taskExit, some task, none, tick, 4, 0, 0⟩
    else ⟨.taskWaitPeriod, some task, none, tick, base + task + 5, 0, 0⟩] ++
  selectReady tick (some task) next (base + task + 3) priority 1 ++
  [switchOf tick (some task) next (if last then 4 else 5) (if last then 5 else 1)]

/-- The loop over the later periods. -/
def laterPeriod (base : ℕ) : List SemanticRecord :=
  let job := base / 6 + 1
  let last := base = 18
  [deadlineOf .taskRelease 1 base (base + 3) job] ++
  selectReady base (some 0) 1 (base + 3) 0 2 ++
  selectReady base (some 0) 1 (base + 3) 0 1 ++
  [⟨.idleStop, some 0, some 1, base, 0, 0, 0⟩, ⟨.taskPreempt, some 0, some 1, base, 1, 0, 0⟩,
    switchOf base (some 0) 1 6 2,
    deadlineOf .taskRelease 2 (base + 1) (base + 4) job] ++
  handOver base 1 2 1 job ++
  [deadlineOf .taskRelease 3 (base + 2) (base + 5) job] ++
  handOver base 2 3 2 job ++
  [deadlineOf .deadlineMet 3 (base + 3) (base + 5) job,
    if last then ⟨.taskExit, some 3, none, base + 3, 4, 0, 0⟩
    else ⟨.taskWaitPeriod, some 3, none, base + 3, base + 8, 0, 0⟩,
    selectIdle (base + 3) 3, ⟨.idleStart, some 0, some 3, base + 3, 0, 0, 0⟩,
    switchOf (base + 3) (some 3) 0 (if last then 4 else 5) (if last then 5 else 1)]

/-- `_expected_semantic_projection`. -/
def expectedSemanticProjection : List SemanticRecord :=
  [⟨.taskCreate, some 1, none, 0, 1, 0, 2⟩, deadlineOf .taskRelease 1 0 3 1,
    ⟨.taskCreate, some 2, none, 0, 1, 1, 1⟩, ⟨.taskCreate, some 3, none, 0, 1, 2, 1⟩,
    ⟨.kernelStart, none, none, 0, 0, 5, 0⟩] ++
  selectReady 0 none 1 3 0 1 ++
  [switchOf 0 none 1 1 0, deadlineOf .taskStart 1 0 3 1,
    deadlineOf .taskRelease 2 1 4 1, deadlineOf .deadlineMet 1 1 3 1,
    ⟨.taskWaitPeriod, some 1, none, 1, 6, 0, 0⟩] ++
  selectReady 1 (some 1) 2 4 1 1 ++
  [switchOf 1 (some 1) 2 5 1, deadlineOf .taskStart 2 1 4 1,
    deadlineOf .taskRelease 3 2 5 1, deadlineOf .deadlineMet 2 2 4 1,
    ⟨.taskWaitPeriod, some 2, none, 2, 7, 0, 0⟩] ++
  selectReady 2 (some 2) 3 5 2 1 ++
  [switchOf 2 (some 2) 3 5 1, deadlineOf .taskStart 3 2 5 1,
    deadlineOf .deadlineMet 3 3 5 1, ⟨.taskWaitPeriod, some 3, none, 3, 8, 0, 0⟩,
    selectIdle 3 3, ⟨.idleStart, some 0, some 3, 3, 0, 0, 0⟩, switchOf 3 (some 3) 0 5 1] ++
  [6, 12, 18].flatMap laterPeriod

def expectedRecordCount : ℕ := expectedSemanticProjection.length

def hostTraceCapacity : ℕ := 256
def hostFinalTick : ℕ := 21

/-! ### The checks -/

def semanticOf (d : DecodedRecord) : SemanticRecord :=
  ⟨d.event, d.task, d.related, d.tick, d.value0, d.value1, d.value2⟩

/-- `semantic_projection`. -/
def semanticProjection (records : List DecodedRecord) : List SemanticRecord :=
  records.map semanticOf

def showOptional : Option ℕ → String
  | none => "None"
  | some n => toString n

/-- How a projection is shown. -/
def showProjection (records : List SemanticRecord) : String :=
  let items := records.map fun r =>
    "('" ++ eventName r.event ++ "', " ++ ", ".intercalate ([showOptional r.task,
      showOptional r.related] ++ [r.tick, r.value0, r.value1, r.value2].map toString) ++ ")"
  "(" ++ ", ".intercalate items ++ (if items.length = 1 then ",)" else ")")

/-- How a footer is shown. -/
def showFooter (f : TraceFinal) : String :=
  let items := [("attempted", f.attempted), ("emitted", f.emitted), ("dropped", f.dropped),
    ("final_sequence", f.finalSequence), ("flags", f.flags), ("final_tick", f.finalTick)]
  "\x7b" ++
    ", ".intercalate (items.map fun (key, value) => "'" ++ key ++ "': " ++ toString value) ++ "\x7d"

/-- The footer that the host expects. -/
def expectedFooter : TraceFinal :=
  { attempted := expectedRecordCount
    emitted := expectedRecordCount
    dropped := 0
    finalSequence := expectedRecordCount - 1
    flags := 0
    finalTick := hostFinalTick }

/-- `validate_schedule`. -/
def validateSchedule (trace : DecodedTrace) : Except String Unit := do
  expect showFooter trace.footer expectedFooter "footer"
  expect toString trace.records.length expectedRecordCount "record count"
  if expectedRecordCount > hostTraceCapacity then
    .error "expected trace exceeds the static ring capacity"
  else
    expect showProjection (semanticProjection trace.records) expectedSemanticProjection
      "semantic record projection"

/-- `validate_capture`, on the bytes of a file that does not change. -/
def validateCapture (data : List UInt8) (implementation : String) :
    Except String (DecodedTrace × SignalResult) := do
  if data.length > maxInputBytes then
    .error s!"input is {data.length} bytes; limit is {maxInputBytes}"
  else if count trailer data ≠ 1 then .error "UART capture must contain one trace trailer"
  else
    match find data trailer 0 data.length with
    | none => .error "subsection not found"
    | some index => do
      let traceEnd := index + trailer.length
      let trace ← decode (data.take traceEnd)
      let result ← parseResult (data.drop traceEnd) implementation
      validateSchedule trace
      .ok (trace, result)

/-! ### The trace that is accepted -/

/-- The record that stands for an expected one, with its number. -/
def recordAt (s : SemanticRecord) (sequence : ℕ) : TraceRecord where
  tick := s.tick
  sequence := sequence
  schema := traceSchemaVersion
  event := s.event.code
  flags := 0
  task := s.task.getD invalidTaskId
  related := s.related.getD invalidTaskId
  value0 := s.value0
  value1 := s.value1
  value2 := s.value2

/-- The records that the host accepts. -/
def expectedRecords : List TraceRecord :=
  List.zipWith recordAt expectedSemanticProjection (List.range' 0 expectedRecordCount)

variable {data : List UInt8}

/-- The records that the loop has listed are numbered from zero on. -/
structure Numbered (s : DecodeState) : Prop where
  sequences : s.records.map DecodedRecord.sequence = List.range' 0 s.records.length
  next : s.expectedSequence = s.records.length

lemma takeFrame_numbered {s s' : DecodeState} (h : takeFrame data s = .ok s')
    (hs : Numbered s) : Numbered s' := by
  obtain ⟨type, payload, rest, hsized, hbytes⟩ := takeFrame_ok h
  rw [takeFrame_frame hbytes hsized] at h
  split at h
  · rw [takeFooter] at h
    obtain ⟨-, h⟩ := ok_of_guard h
    obtain rfl := Except.ok.inj h
    exact ⟨hs.sequences, hs.next⟩
  · rw [takeRecord] at h
    obtain ⟨-, h⟩ := ok_of_guard h
    obtain ⟨-, h⟩ := ok_of_guard h
    split at h
    · cases h
    obtain ⟨-, h⟩ := ok_of_guard h
    obtain ⟨-, h⟩ := ok_of_guard h
    obtain ⟨hseq, h⟩ := ok_of_guard h
    obtain ⟨-, h⟩ := ok_of_guard h
    obtain rfl := Except.ok.inj h
    refine ⟨?_, ?_⟩
    · rw [List.map_append, hs.sequences, List.length_append, List.length_singleton,
        List.range'_concat, Nat.zero_add, Nat.one_mul, ← hs.next, ← not_not.mp hseq]
      rfl
    · rw [List.length_append, List.length_singleton]
      exact congrArg (· + 1) hs.next

lemma takeFrames_numbered {requireTrailer : Bool} (more : ℕ) {s s' : DecodeState}
    (h : takeFrames data requireTrailer more s = .ok s') (hs : Numbered s) : Numbered s' := by
  induction more generalizing s with
  | zero =>
    rw [takeFrames.eq_def] at h
    dsimp only at h
    split at h
    · exact Except.ok.inj h ▸ hs
    split at h
    · exact Except.ok.inj h ▸ hs
    · cases h
  | succ more ih =>
    rw [takeFrames.eq_def] at h
    dsimp only at h
    split at h
    · exact Except.ok.inj h ▸ hs
    split at h
    · exact Except.ok.inj h ▸ hs
    cases hframe : takeFrame data s with
    | error e =>
      rw [hframe] at h
      cases h
    | ok s₁ =>
      rw [hframe] at h
      dsimp only at h
      have hs₁ := takeFrame_numbered hframe hs
      split at h
      · exact Except.ok.inj h ▸ hs₁
      · exact ih h hs₁

/-- **The records of a trace are numbered** from zero on. -/
lemma decodeStream_numbered {trace : DecodedTrace} (h : decodeStream data = .ok trace) :
    trace.records.map DecodedRecord.sequence = List.range' 0 trace.records.length := by
  have hfrom : ∀ {offset requireTrailer}, decodeFrom data offset requireTrailer = .ok trace →
      trace.records.map DecodedRecord.sequence = List.range' 0 trace.records.length := fun h => by
    obtain ⟨s, hs, -, hrecords, -⟩ := decodeFrom_ok h
    rw [← hrecords]
    exact (takeFrames_numbered maxFrames hs ⟨rfl, rfl⟩).sequences
  unfold decodeStream at h
  split at h
  · cases h
  split at h
  · exact hfrom h
  split at h
  · exact hfrom h
  · cases h

/-- **The schedule leaves a trace no freedom.** -/
lemma records_of_schedule {trace : DecodedTrace} (h : decodeStream data = .ok trace)
    (hschedule : validateSchedule trace = .ok ()) :
    trace.footer = expectedFooter ∧ trace.records.map Canonical.recordOf = expectedRecords := by
  rw [validateSchedule] at hschedule
  cases hfooter : expect showFooter trace.footer expectedFooter "footer" with
  | error e =>
    rw [hfooter] at hschedule
    cases hschedule
  | ok =>
    cases hcount : expect toString trace.records.length expectedRecordCount "record count" with
    | error e =>
      rw [hfooter, hcount] at hschedule
      cases hschedule
    | ok =>
      rw [hfooter, hcount] at hschedule
      dsimp only [bind, Except.bind] at hschedule
      obtain ⟨-, hschedule⟩ := ok_of_guard hschedule
      refine ⟨expect_ok.mp hfooter, ?_⟩
      have hrecord : ∀ d : DecodedRecord, Canonical.recordOf d =
        recordAt (semanticOf d) d.sequence := fun _ => rfl
      rw [expectedRecords, ← expect_ok.mp hcount, ← expect_ok.mp hschedule,
        ← decodeStream_numbered h, semanticProjection, List.zipWith_map, List.zipWith_self]
      exact List.map_congr_left fun d _ => hrecord d

/-! ### One trailer -/

/-- A byte that no line of text begins with. -/
def low (c : UInt8) : Bool := c.toNat < 32

/-- Marks at the low bytes of a frame, none of them in its checksum. -/
def frameMarks (type : ℕ) (payload : List UInt8) : List Bool :=
  [false, false, false, false] ++ (frameBody type payload).map low ++ [false, false, false, false]

lemma marks_frame (type : ℕ) (payload : List UInt8) :
    Marks low (frameMarks type payload) (frame type payload) :=
  List.rel_append (List.rel_append (marks_none frameSync) (marks_self _)) (marks_none (putU32 _))

/-- What comes before the trailer in a capture that is accepted. -/
def captureStart : List UInt8 :=
  preamble ++ (recordFrames expectedRecords ++ frame frameFooter (encodeFooter expectedFooter))

lemma captureStart_trailer :
    captureStart ++ trailer = preamble ++ framesOf expectedRecords expectedFooter := by
  simp only [captureStart, framesOf, recordFrames, List.append_assoc]

def captureMarks : List Bool :=
  preamble.map low ++ (expectedRecords.flatMap (fun r => frameMarks frameRecord (encodeRecord r)) ++
    frameMarks frameFooter (encodeFooter expectedFooter))

lemma marks_capture : Marks low captureMarks captureStart := by
  refine List.rel_append (marks_self _) (List.rel_append ?_ (marks_frame _ _))
  rw [recordFrames]
  generalize expectedRecords = records
  induction records with
  | nil => exact .nil
  | cons r records ih => exact List.rel_append (marks_frame _ _) ih

/-- **The trace does not contain its trailer.** -/
lemma absent_start (line : List UInt8) : Absent trailer captureStart (trailer ++ line) := by
  have hcovered : covered 16 0 captureMarks = true := by decide +kernel
  have hword : ∀ c ∈ trailer.take 16, low c = false := by decide +kernel
  have hinside := covered_absent hcovered marks_capture (by decide) (by decide) hword
  exact absent_border hinside (by decide +kernel)

variable {implementation : String} {groups : List (List UInt8)}

lemma no_y {labels groups : List (List UInt8)} (hlabels : ∀ label ∈ labels, 89 ∉ label)
    (hgroups : ∀ group ∈ groups, 89 ∉ group) : 89 ∉ labelled (labels.zip groups) := by
  intro h
  obtain ⟨⟨label, group⟩, hin, hy⟩ := List.mem_flatMap.mp h
  rcases List.mem_append.mp hy with hy | hy
  · exact hlabels label (List.of_mem_zip hin).1 hy
  · exact hgroups group (List.of_mem_zip hin).2 hy

/-- **Nor does the result line.** Of the letters of the trailer it has the second only once. -/
lemma absent_line (hmem : implementation ∈ implementations)
    (hdecimals : ∀ digits ∈ groups, Decimal digits) :
    Absent trailer (renderLine implementation groups (hostHexes.map hex32)) [] := by
  have hrest : 89 ∉ (renderLine implementation groups (hostHexes.map hex32)).drop 2 := by
    have hname : 89 ∉ ascii implementation.toList := by
      revert hmem implementation
      decide
    have hgroups : ∀ group ∈ groups, 89 ∉ group := fun group hg hy =>
      absurd ((hdecimals group hg).digit 89 hy) (by decide)
    have hhexes : 89 ∉ labelled (hexLabels.zip (hostHexes.map hex32)) ++ crlf := by decide
    have hstart : 89 ∉ resultStart.drop 2 := by decide
    have hdecimals := @no_y decimalLabels groups (by decide) hgroups
    have hdrop : (renderLine implementation groups (hostHexes.map hex32)).drop 2 =
      resultStart.drop 2 ++ (ascii implementation.toList ++ (labelled (decimalLabels.zip groups) ++
        (labelled (hexLabels.zip (hostHexes.map hex32)) ++ crlf))) := rfl
    rw [hdrop]
    simp only [List.mem_append, not_or] at hhexes ⊢
    exact ⟨hstart, hname, hdecimals, hhexes⟩
  intro i hi hp
  rw [List.append_nil] at hp
  obtain ⟨rest, hline⟩ := hp
  cases i with
  | zero =>
    have hat := congrArg (fun bytes => bytes[6]?) hline
    have htrailer : (trailer ++ rest)[6]? = some 84 := rfl
    have hresult : ((renderLine implementation groups (hostHexes.map hex32)).drop 0)[6]? =
      some 83 := rfl
    simp only [htrailer, hresult] at hat
    exact absurd hat (by decide)
  | succ i =>
    have hat := congrArg (fun bytes => bytes[1]?) hline
    have htrailer : (trailer ++ rest)[1]? = some 89 := rfl
    simp only [htrailer, List.getElem?_drop] at hat
    refine hrest (List.mem_of_getElem? (i := i) ?_)
    rw [List.getElem?_drop, hat]
    congr 1
    omega

/-- The first place of the trailer. -/
lemma find_trailer (line : List UInt8) :
    find (captureStart ++ (trailer ++ line)) trailer 0
      (captureStart ++ (trailer ++ line)).length = some captureStart.length := by
  have habsent := absent_start line
  rw [find, List.find?_range'_eq_some]
  refine ⟨?_, ?_, fun j _ hj => ?_⟩
  · rw [List.drop_left, Bool.and_eq_true, decide_eq_true_eq]
    refine ⟨?_, List.isPrefixOf_iff_prefix.mpr (List.prefix_append _ _)⟩
    simp only [List.length_append]
    omega
  · have hlen : trailer.length = 18 := rfl
    simp only [List.mem_range'_1, List.length_append]
    omega
  · rw [Bool.not_eq_true', Bool.and_eq_false_iff]
    right
    rw [← Bool.not_eq_true, List.isPrefixOf_iff_prefix]
    exact habsent j hj

/-! ### The capture that is accepted -/

lemma ok_of_toBool {check : Except String Unit} (h : check.toBool = true) : check = .ok () := by
  cases check with
  | error e => cases h
  | ok u => rfl

lemma expected_sendable : ∀ r ∈ expectedRecords, Sendable r := by
  have hall : ∀ r ∈ expectedRecords, (r.tick < 2 ^ 64 ∧ r.sequence < 2 ^ 32 ∧ r.schema < 2 ^ 16 ∧
      r.event < 2 ^ 8 ∧ r.flags < 2 ^ 8 ∧ r.task < 2 ^ 16 ∧ r.related < 2 ^ 16 ∧
      r.value0 < 2 ^ 32 ∧ r.value1 < 2 ^ 32 ∧ r.value2 < 2 ^ 32) ∧ r.schema = traceSchemaVersion ∧
      osTraceEventValid r.event = true ∧ r.flags = 0 ∧
      (r.task ≤ maxTaskId ∨ r.task = invalidTaskId) ∧
      (r.related ≤ maxTaskId ∨ r.related = invalidTaskId) := by decide +kernel
  intro r hr
  obtain ⟨⟨h1, h2, h3, h4, h5, h6, h7, h8, h9, h10⟩, hschema, hevent, hflags, htask, hrel⟩ :=
    hall r hr
  exact ⟨⟨h1, h2, h3, h4, h5, h6, h7, h8, h9, h10⟩, hschema, hevent, hflags, htask, hrel⟩

/-- **The expected trace is accepted.** -/
lemma decode_expected : decode (captureStart ++ trailer) =
    .ok ⟨expectedFooter, expectedRecords.map decoded, expectedRecords.flatMap encodeRecord⟩ := by
  have hzero : ZeroLoss expectedRecords expectedFooter :=
    ⟨by decide +kernel, by decide +kernel, rfl, by decide +kernel, rfl, by decide,
      by decide +kernel⟩
  rw [captureStart_trailer, decode_ok_iff]
  refine ⟨decodeStream_framesOf (by decide +kernel) expected_sendable (by decide +kernel)
    (by decide +kernel) hzero, ⟨ok_of_toBool (by decide +kernel), by decide +kernel⟩,
    by decide +kernel⟩

lemma validateSchedule_ok {trace : DecodedTrace} (hfooter : trace.footer = expectedFooter)
    (hcount : trace.records.length = expectedRecordCount)
    (hrecords : semanticProjection trace.records = expectedSemanticProjection) :
    validateSchedule trace = .ok () := by
  have hcapacity : ¬expectedRecordCount > hostTraceCapacity := by decide
  rw [validateSchedule, expect_ok.mpr hfooter, expect_ok.mpr hcount, expect_ok.mpr hrecords]
  dsimp only [bind, Except.bind]
  rw [if_neg hcapacity]

/-- The bytes of a trace that the host accepts up to its trailer. -/
lemma bytes_of_schedule {trace : DecodedTrace} (htrailer : trailer <:+ data)
    (h : decodeStream data = .ok trace) (hschedule : validateSchedule trace = .ok ()) :
    data = captureStart ++ trailer := by
  obtain ⟨hbytes, -⟩ := decodeStream_canonical h
  obtain ⟨hfooter, hrecords⟩ := records_of_schedule h hschedule
  have hframes : trace.records.flatMap recordFrame = recordFrames expectedRecords := by
    rw [← hrecords, recordFrames, List.flatMap_map]
    rfl
  rw [encodeTrace, hframes, hfooter] at hbytes
  cases hframed : preamble.isPrefixOf data with
  | true =>
    rw [hframed, if_pos rfl, if_pos rfl] at hbytes
    rw [← hbytes, captureStart, footerFrame]
    simp only [List.append_assoc]
  | false =>
    -- Without its lines a trace ends with a checksum.
    rw [hframed, if_neg Bool.false_ne_true, if_neg Bool.false_ne_true, List.nil_append,
      List.append_nil] at hbytes
    obtain ⟨start, hstart⟩ := htrailer
    have hlast := congrArg List.getLast? (hbytes.trans hstart.symm)
    have hfooterLast : (footerFrame expectedFooter).getLast? ≠ trailer.getLast? := by
      decide +kernel
    rw [List.getLast?_append_of_ne_nil _ (by decide), List.getLast?_append_of_ne_nil _ (by decide)]
      at hlast
    exact absurd hlast hfooterLast

/-- What the host accepts, once the trailer is found. -/
lemma validateCapture_of {start line : List UInt8} {implementation : String} {trace : DecodedTrace}
    {result : SignalResult} (hlen : (start ++ (trailer ++ line)).length ≤ maxInputBytes)
    (hcount : count trailer (start ++ (trailer ++ line)) = 1)
    (hfind : find (start ++ (trailer ++ line)) trailer 0 (start ++ (trailer ++ line)).length =
      some start.length)
    (htrace : decode (start ++ trailer) = .ok trace)
    (hresult : parseResult line implementation = .ok result)
    (hschedule : validateSchedule trace = .ok ()) :
    validateCapture (start ++ (trailer ++ line)) implementation = .ok (trace, result) := by
  rw [validateCapture, if_neg (not_lt.mpr hlen), if_neg (not_not.mpr hcount), hfind]
  dsimp only [bind, Except.bind]
  rw [← List.append_assoc, ← List.length_append, List.take_left, List.drop_left, htrace]
  dsimp only
  rw [hresult]
  dsimp only
  rw [hschedule]

/-- The capture that the host accepts from an implementation, the decimal numbers of its line
written so. -/
def captureOf (implementation : String) (groups : List (List UInt8)) : List UInt8 :=
  preamble ++ framesOf expectedRecords expectedFooter ++
    renderLine implementation groups (hostHexes.map hex32)

lemma capture_of_ok {implementation : String} {accepted : DecodedTrace × SignalResult}
    (h : validateCapture data implementation = .ok accepted) :
    implementation ∈ implementations ∧ data.length ≤ maxInputBytes ∧
      ∃ groups, Spells groups hostDecimals ∧ data = captureOf implementation groups := by
  rw [validateCapture] at h
  obtain ⟨hlen, h⟩ := ok_of_guard h
  obtain ⟨-, h⟩ := ok_of_guard h
  cases hfind : find data trailer 0 data.length with
  | none =>
    rw [hfind] at h
    cases h
  | some index =>
    rw [hfind] at h
    dsimp only [bind, Except.bind] at h
    rw [find] at hfind
    have hat := List.find?_some hfind
    rw [Bool.and_eq_true, decide_eq_true_eq, List.isPrefixOf_iff_prefix] at hat
    obtain ⟨-, line, hline⟩ := hat
    have hdata : data = data.take index ++ trailer ++ line := by
      rw [List.append_assoc, hline, List.take_append_drop]
    cases htrace : decode (data.take (index + trailer.length)) with
    | error e =>
      rw [htrace] at h
      cases h
    | ok trace =>
      rw [htrace] at h
      dsimp only at h
      cases hresult : parseResult (data.drop (index + trailer.length)) implementation with
      | error e =>
        rw [hresult] at h
        cases h
      | ok result =>
        rw [hresult] at h
        dsimp only at h
        cases hschedule : validateSchedule trace with
        | error e =>
          rw [hschedule] at h
          cases h
        | ok =>
          obtain ⟨hmem, groups, hspells, hgroups⟩ := parseResult_ok_iff.mp ⟨result, hresult⟩
          have htake : data.take (index + trailer.length) = data.take index ++ trailer := by
            rw [List.take_add, ← hline, List.take_left]
          rw [htake] at htrace
          have hbytes := bytes_of_schedule (List.suffix_append _ _) (decode_ok_iff.mp htrace).1
            hschedule
          refine ⟨hmem, not_lt.mp hlen, groups, hspells, ?_⟩
          rw [captureOf, ← captureStart_trailer, ← hbytes, ← hgroups, ← htake,
            List.take_append_drop]

lemma ok_of_capture {implementation : String} {groups : List (List UInt8)}
    (hmem : implementation ∈ implementations)
    (hlen : (captureOf implementation groups).length ≤ maxInputBytes)
    (hspells : Spells groups hostDecimals) : ∃ accepted,
      validateCapture (captureOf implementation groups) implementation = .ok accepted := by
  have hline := absent_line hmem hspells.decimal
  have hcount := count_once (by decide)
    (absent_start (renderLine implementation groups (hostHexes.map hex32))) hline
  obtain ⟨result, hresult⟩ := parseResult_ok_iff.mpr ⟨hmem, groups, hspells, rfl⟩
  have hschedule : validateSchedule ⟨expectedFooter, expectedRecords.map decoded,
      expectedRecords.flatMap encodeRecord⟩ = .ok () :=
    validateSchedule_ok rfl (by decide +kernel) (by decide +kernel)
  rw [captureOf, ← captureStart_trailer, List.append_assoc] at hlen ⊢
  exact ⟨_, validateCapture_of hlen hcount (find_trailer _) decode_expected hresult hschedule⟩

/-- **The host accepts one capture**, up to zeros in front of the decimal numbers of its line. -/
theorem validateCapture_ok_iff {implementation : String} :
    (∃ accepted, validateCapture data implementation = .ok accepted) ↔
      implementation ∈ implementations ∧ data.length ≤ maxInputBytes ∧
        ∃ groups, Spells groups hostDecimals ∧ data = captureOf implementation groups := by
  constructor
  · rintro ⟨accepted, h⟩
    exact capture_of_ok h
  · rintro ⟨hmem, hlen, groups, hspells, rfl⟩
    exact ok_of_capture hmem hlen hspells

/-! ### The capture of a run -/

section Run

variable {img : Image} {labels : List Label} {k : KernelState} {log : Log}

/-- The decimal numbers as the board writes them. -/
lemma board_spells : Spells (resultDecimals.map decimal) hostDecimals :=
  ⟨by decide, by
    have hall : ∀ digits ∈ resultDecimals.map decimal,
        digits ≠ [] ∧ digits.all isDigit = true := by decide
    exact fun digits hd => ⟨(hall digits hd).1, List.all_eq_true.mp (hall digits hd).2⟩,
    by decide⟩

lemma writeResult_line {implementation : String} {line : List UInt8}
    (hline : writeResult implementation = some line) :
    line = renderLine implementation (resultDecimals.map decimal) (hostHexes.map hex32) ∧
      line.length ≤ resultLineCapacity := by
  rw [writeResult, formatResult_eq, fit] at hline
  split at hline
  · next hfits =>
    obtain rfl := Option.some.inj hline
    exact ⟨rfl, hfits⟩
  · cases hline

/-- A record that can be sent is read back. -/
lemma recordOf_decoded {r : TraceRecord} (h : Sendable r) : Canonical.recordOf (decoded r) = r := by
  obtain ⟨htick, hseq, hevent, htask, hrelated, h0, h1, h2⟩ := h.recovers
  have hoptional : ∀ id, (if id = invalidTaskId then none else some id).getD invalidTaskId = id :=
    fun id => by
      split
      · next h => exact h.symm
      · rfl
  obtain ⟨-, hschema, -, hflags, -⟩ := h
  cases r
  simp only [Canonical.recordOf, htick, hseq, hevent, htask, hrelated, h0, h1, h2, hoptional] at *
  subst hschema hflags
  rfl

/-- **There is one place for the trailer**, where the records before it have their length. -/
lemma start_unique {start line line' : List UInt8} {n : ℕ}
    (hstart : (start ++ trailer).length = preamble.length + (48 * n + 62))
    (hline : Absent trailer line' [])
    (h : start ++ (trailer ++ line) = captureStart ++ (trailer ++ line')) :
    start = captureStart := by
  have htrailer : trailer.length = 18 := rfl
  have hcapture : (captureStart ++ trailer).length =
      preamble.length + (48 * expectedRecords.length + 62) := by
    rw [captureStart_trailer, List.length_append, framesOf_length]
  have hall := congrArg List.length h
  simp only [List.length_append] at hstart hcapture hall
  have hat : (captureStart ++ (trailer ++ line')).drop start.length = trailer ++ line := by
    rw [← h, List.drop_left]
  rcases lt_trichotomy start.length captureStart.length with hlt | heq | hgt
  · exact absurd ⟨line, hat.symm⟩ (absent_start line' start.length hlt)
  · exact (List.append_inj h heq).1
  · rw [← List.append_assoc, List.drop_append, List.drop_eq_nil_of_le, List.nil_append] at hat
    · refine absurd ⟨line, ?_⟩ (hline (start.length - (captureStart ++ trailer).length) ?_)
      · rw [List.length_append]
        omega
      · rw [List.append_nil, hat]
    · simp only [List.length_append]
      omega

/-- **The host accepts the capture of a run** exactly when the run has emitted the records that it
expects, and has stopped at the tick that it expects. -/
theorem run_captured_iff (h : Logged img Lively labels k log) {implementation : String}
    {line : List UInt8} (hmem : implementation ∈ implementations)
    (hline : writeResult implementation = some line) :
    (∃ accepted, validateCapture (received k ++ line) implementation = .ok accepted) ↔
      stampLog 0 log = expectedRecords ∧ k.monotonicTicks = hostFinalTick := by
  obtain ⟨rfl, hshort⟩ := writeResult_line hline
  have hdecode : decode (preamble ++ framesOf expectedRecords expectedFooter) =
      .ok ⟨expectedFooter, expectedRecords.map decoded, expectedRecords.flatMap encodeRecord⟩ :=
    captureStart_trailer ▸ decode_expected
  constructor
  · rintro ⟨accepted, haccepted⟩
    obtain ⟨-, -, groups, hspells, hdata⟩ := capture_of_ok haccepted
    have hstart := framesOf_eq k.traceRing.records (finalOf k.traceRing k.monotonicTicks)
    have hlength := congrArg List.length hstart
    rw [@List.length_append _ preamble, framesOf_length] at hlength
    have hreceived : received k = preamble ++ framesOf expectedRecords expectedFooter := by
      rw [captureOf, ← captureStart_trailer, received, ← hstart, List.append_assoc,
        List.append_assoc captureStart] at hdata
      rw [received, ← hstart, ← captureStart_trailer,
        start_unique hlength (absent_line hmem hspells.decimal) hdata]
    rw [← hreceived] at hdecode
    have hfits := decode_lost h hdecode
    obtain ⟨htrace, -⟩ := (decode_fits h hfits).mp hdecode
    obtain ⟨hfooter, hrecords, -⟩ := DecodedTrace.mk.inj htrace
    refine ⟨?_, (congrArg TraceFinal.finalTick hfooter).symm⟩
    have hback : ∀ {records : List TraceRecord}, (∀ r ∈ records, Sendable r) →
        (records.map decoded).map Canonical.recordOf = records := fun hsend => by
      rw [List.map_map]
      exact (List.map_congr_left fun r hr => recordOf_decoded (hsend r hr)).trans (List.map_id _)
    rw [← hback (log_framed h hfits).2, ← hback expected_sendable, hrecords, decodedLog]
  · rintro ⟨hrecords, htick⟩
    have hcount : log.length = expectedRecordCount := by
      rw [← stampLog_length 0 log, hrecords]
      decide +kernel
    have hfits : log.length ≤ traceCapacity := hcount.trans_le (by decide)
    have hold := (h.recorded.lossless (h.lossless hfits)).2.2.2
    obtain ⟨h1, h2, h3, h4, h5, -, -⟩ := zeroLoss_of_fits h hfits
    have hlength : k.traceRing.records.length = expectedRecordCount := by
      rw [hold, stampLog_length, hcount]
    rw [hlength] at h1 h2 h4
    have hfinal : finalOf k.traceRing k.monotonicTicks = expectedFooter := by
      have htick' : (finalOf k.traceRing k.monotonicTicks).finalTick = hostFinalTick := htick
      cases hfooter : finalOf k.traceRing k.monotonicTicks
      rw [hfooter] at h1 h2 h3 h4 h5 htick'
      dsimp only at h1 h2 h3 h4 h5 htick'
      rw [h1, h2, h3, h4, h5, htick']
      rfl
    have hdata : received k ++ renderLine implementation (resultDecimals.map decimal)
        (hostHexes.map hex32) = captureOf implementation (resultDecimals.map decimal) := by
      rw [received, hold, hrecords, hfinal, captureOf]
    rw [hdata]
    refine ok_of_capture hmem ?_ board_spells
    have hexpected : expectedRecords.length = expectedRecordCount := by decide +kernel
    have hcapacity : preamble.length + (48 * expectedRecordCount + 62) + resultLineCapacity ≤
        maxInputBytes := by decide
    rw [captureOf, List.length_append, List.length_append, framesOf_length, hexpected]
    omega

/-- A task of the lab. -/
def labTask (delay : ℕ) (priority : UInt8) : TaskTimingConfig :=
  { periodic 6 3 with initialReleaseDelayTicks := delay, priority := priority }

/-- A task that is charged a tick, and waits for the next period. -/
def turn : List Act := [.tick, .waitNextPeriod] ++ switch

/-- The turns of a frame, and the ticks up to the next one. -/
def labFrame : List Act := turn ++ turn ++ turn ++ [.tick, .tick, .tick] ++ switch

/-- A task that is charged its last tick, and exits. -/
def lastTurn : List Act := [.tick, .taskExit] ++ switch

/-- **The run of the lab.** -/
def labRun : List Act :=
  [.create (labTask 0 0), .create (labTask 1 1), .create (labTask 2 2)] ++ start ++ labFrame ++
    labFrame ++ labFrame ++ lastTurn ++ lastTurn ++ lastTurn

set_option maxRecDepth 10000 in
lemma labRun_records :
    (play always labRun bootCtl).map (fun r => (stampLog 0 r.2, r.1.ticks)) =
      some (expectedRecords, hostFinalTick) := by
  decide +kernel

/-- The host accepts the capture of the run of the lab. -/
theorem run_captured_iff_lab : ∃ labels k log line accepted, Logged sampleImage Lively labels k log ∧
    writeResult "m4" = some line ∧ stampLog 0 log = expectedRecords ∧
      validateCapture (received k ++ line) "m4" = .ok accepted := by
  obtain ⟨c, log, ⟨labels, k, hr, rfl, -⟩, hview⟩ := stage_of_script labRun_records
  obtain ⟨hrecords, hticks⟩ := Prod.mk.inj hview
  have hlively := lively_of_disciplined hr
  have hline : writeResult "m4" =
      some (renderLine "m4" (resultDecimals.map decimal) (resultHexes.map hex32)) := by
    rw [writeResult, formatResult_eq, fit, if_pos (by decide +kernel)]
  obtain ⟨accepted, haccepted⟩ :=
    (run_captured_iff hlively (by decide) hline).mpr ⟨hrecords, hticks⟩
  exact ⟨labels, k, log, _, accepted, hlively, hline, hrecords, haccepted⟩

end Run

end Aymos.SignalCapture
