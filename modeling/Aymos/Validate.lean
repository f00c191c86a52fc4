import Aymos.Decoder
import Mathlib.Data.List.Sort
import Mathlib.Data.Finset.Dedup

/-!
The validators of `tools/aymos_lab/trace.py`: selection snapshots, the roles of the tasks of an
event, and its payload.
-/

namespace Aymos.Validate

open Words Scheduler Trace Wire Decoder

/-- The names of the events. -/
def eventName : TraceEvent → String
  | .kernelStart => "kernel_start"
  | .taskCreate => "task_create"
  | .taskRelease => "task_release"
  | .taskSelect => "task_select"
  | .selectCandidate => "select_candidate"
  | .taskStart => "task_start"
  | .taskPreempt => "task_preempt"
  | .taskYield => "task_yield"
  | .taskSleep => "task_sleep"
  | .taskWake => "task_wake"
  | .taskExit => "task_exit"
  | .contextSwitch => "context_switch"
  | .idleStart => "idle_start"
  | .idleStop => "idle_stop"
  | .deadlineMet => "deadline_met"
  | .deadlineMiss => "deadline_miss"
  | .alloc => "alloc"
  | .free => "free"
  | .taskWaitPeriod => "task_wait_period"
  | .taskReleaseSkipped => "task_release_skipped"
  | .ownerRelease => "owner_release"
  | .overflow => "trace_overflow"

/-- `_deadline`. -/
def deadline (value0 value1 : ℕ) : ℕ := value0 ||| (value1 <<< 32)

/-! ### Details -/

/-- `SELECT_REASONS`. -/
def reasonOfCode : ℕ → Option SelectReason
  | 1 => some .onlyReady
  | 2 => some .deadline
  | 3 => some .priority
  | 4 => some .stableTid
  | 5 => some .idle
  | 6 => some .excludedFallback
  | _ => none

def reasonName : SelectReason → String
  | .onlyReady => "only_ready"
  | .deadline => "deadline"
  | .priority => "priority"
  | .stableTid => "stable_tid"
  | .idle => "idle"
  | .excludedFallback => "excluded_fallback"

def purposeOfCode : ℕ → Option SelectPurpose
  | 1 => some .dispatch
  | 2 => some .systickProbe
  | 3 => some .runtimeCreateProbe
  | _ => none

/-- The details of a `task_select`. A reason or purpose that is not known is `none`. -/
structure SelectDetails where
  readyMask : ℕ
  reasonCode : ℕ
  reason : Option SelectReason
  purpose : Option SelectPurpose
  excluded : Option ℕ
  eligibleCount : ℕ
  candidateCount : ℕ

def selectDetails (r : DecodedRecord) : SelectDetails :=
  { readyMask := r.value0
    reasonCode := r.value1 &&& 0xFF
    reason := reasonOfCode (r.value1 &&& 0xFF)
    purpose := purposeOfCode ((r.value1 >>> 8) &&& 0xFF)
    excluded := if (r.value1 >>> 16) &&& 0xFF = 0xFF then none else some ((r.value1 >>> 16) &&& 0xFF)
    eligibleCount := (r.value1 >>> 24) &&& 0xFF
    candidateCount := r.value2 }

/-- The details of a `select_candidate`, with its task. -/
structure Candidate where
  sequence : ℕ
  task : Option ℕ
  absoluteDeadline : ℕ
  priority : ℕ
  state : ℕ
  excluded : Bool
  incumbent : Bool
  eligible : Bool

def candidateDetails (r : DecodedRecord) : Candidate :=
  { sequence := r.sequence
    task := r.task
    absoluteDeadline := deadline r.value0 r.value1
    priority := r.value2 &&& 0xFF
    state := (r.value2 >>> 8) &&& 0xFF
    excluded := r.value2 &&& (1 <<< 16) != 0
    incumbent := r.value2 &&& (1 <<< 17) != 0
    eligible := r.value2 &&& (1 <<< 18) != 0 }

/-! ### Selection snapshots -/

/-- The error at a record. -/
def snapshotError (sequence : ℕ) (message : String) : Except String Unit :=
  .error (s!"sequence {sequence}: " ++ message)

/-- The loop over the candidates that are not in `seen`. -/
def checkLinks (record : DecodedRecord) (seen : List (Option ℕ)) :
    List DecodedRecord → Except String Unit
  | [] => .ok ()
  | candidate :: candidates =>
    if candidate.task = none ∨ candidate.task = some 0 ∨ candidate.task ∈ seen then
      snapshotError candidate.sequence "candidate is absent/duplicate"
    else if candidate.related ≠ record.task ∨ candidate.tick ≠ record.tick then
      snapshotError candidate.sequence "candidate snapshot linkage mismatch"
    else checkLinks record (candidate.task :: seen) candidates

/-- The first candidate with a property gives its error. -/
def rejectAny (items : List Candidate) (bad : Candidate → Bool) (message : String) :
    Except String Unit :=
  match items.find? bad with
  | some item => snapshotError item.sequence message
  | none => .ok ()

/-- The checks that depend on the purpose of a selection. -/
def checkPurpose (record : DecodedRecord) (items : List Candidate) : Except String Unit :=
  let details := selectDetails record
  let marked := items.filter (·.incumbent)
  match details.purpose with
  | none => snapshotError record.sequence "unknown selection purpose"
  | some .dispatch =>
    let expectedMarked :=
      if record.related ∈ items.map (·.task) then [record.related] else []
    if items.any fun item => item.state != 2 then
      snapshotError record.sequence "dispatch candidate is not READY"
    else if marked.map (·.task) ≠ expectedMarked then
      snapshotError record.sequence "dispatch incumbent marker differs"
    else .ok ()
  | some _ =>
    if details.excluded ≠ none ∨ record.related = none ∨ record.task = record.related then
      snapshotError record.sequence "impossible probe selection"
    else if record.related = some 0 then
      if marked ≠ [] ∨ items.any fun item => item.state != 2 then
        snapshotError record.sequence "idle probe metadata differs"
      else .ok ()
    else if items.length < 2 ∨ marked.length ≠ 1 ∨
        (marked.map (·.task)).head? ≠ some record.related ∨
        (marked.map (·.state)).head? ≠ some 3 ∨
        items.any fun item => item.task != record.related && item.state != 2 then
      snapshotError record.sequence "probe incumbent/state metadata differs"
    else .ok ()

/-- The order of the keys `(absolute_deadline, priority, task)`. -/
def KeyLe (a b : Candidate) : Prop :=
  a.absoluteDeadline < b.absoluteDeadline ∨ a.absoluteDeadline = b.absoluteDeadline ∧
    (a.priority < b.priority ∨ a.priority = b.priority ∧ a.task.getD 0 ≤ b.task.getD 0)

instance : DecidableRel KeyLe := fun a b => by unfold KeyLe; infer_instance

/-- The reason that the keys of the ordered candidates call for. -/
def expectedReason (fallback : Bool) : List Candidate → SelectReason
  | first :: second :: _ =>
    if first.absoluteDeadline ≠ second.absoluteDeadline then .deadline
    else if first.priority ≠ second.priority then .priority
    else .stableTid
  | _ => if fallback then .excludedFallback else .onlyReady

/-- The checks of the winner of a selection and of its reason. -/
def checkWinner (record : DecodedRecord) (items : List Candidate) : Except String Unit :=
  let details := selectDetails record
  let eligible := items.filter (·.eligible)
  if record.task = some 0 then
    if items ≠ [] ∨ eligible ≠ [] ∨ details.readyMask ≠ 0 ∨ details.eligibleCount ≠ 0 ∨
        details.excluded ≠ none ∨ details.reason ≠ some .idle ∨
        details.purpose ≠ some .dispatch then
      snapshotError record.sequence "invalid idle selection snapshot"
    else .ok ()
  else if record.task ∉ items.map (·.task) then
    snapshotError record.sequence "selected task absent from candidates"
  else
    let fallback := eligible.isEmpty && record.task == details.excluded
    let selectable := if fallback then items.filter (·.task == record.task) else eligible
    let ordered := selectable.insertionSort KeyLe
    let expected := expectedReason fallback ordered
    if (ordered.map (·.task)).head? ≠ some record.task then
      snapshotError record.sequence "selected task contradicts candidate keys"
    else if details.reason ≠ some expected then
      let shown := match details.reason with
        | some reason => reasonName reason
        | none => s!"unknown:{details.reasonCode}"
      snapshotError record.sequence (s!"tie reason {shown} != " ++ reasonName expected)
    else .ok ()

/-- The checks of a snapshot once its candidates have been found. -/
def checkSnapshot (record : DecodedRecord) (candidates : List DecodedRecord) :
    Except String Unit := do
  let details := selectDetails record
  let items := candidates.map candidateDetails
  let eligible := items.filter (·.eligible)
  let readyCandidates := (items.filter (·.state == 2)).map (·.task)
  let expected := ((List.range' 1 maxTaskId).filter (details.readyMask.testBit ·)).map some
  if details.readyMask &&& 0x1E ≠ details.readyMask then
    snapshotError record.sequence "READY mask has reserved bits"
  checkLinks record [] candidates
  if readyCandidates.toFinset ≠ expected.toFinset then
    snapshotError record.sequence "READY mask and candidate set differ"
  if eligible.length ≠ details.eligibleCount then
    snapshotError record.sequence "eligible count differs"
  rejectAny items (fun item => item.excluded != (item.task == details.excluded))
    "excluded marker differs"
  checkPurpose record items
  rejectAny items (fun item => item.eligible != (item.task != details.excluded))
    "eligibility marker differs"
  checkWinner record items

/-- The loop of `_validate_selection_snapshots`, that is to skip the candidates it has seen. -/
def validateSnapshotsFrom : ℕ → List DecodedRecord → Except String Unit
  | _, [] => .ok ()
  | skip + 1, _ :: records => validateSnapshotsFrom skip records
  | 0, record :: records =>
    if record.event ≠ .taskSelect then
      if record.event = .selectCandidate then
        snapshotError record.sequence "orphan selection candidate"
      else validateSnapshotsFrom 0 records
    else
      let count := (selectDetails record).candidateCount
      let candidates := records.take count
      if count > maxTaskId then
        snapshotError record.sequence s!"candidate count {count} exceeds {maxTaskId}"
      else if candidates.length ≠ count ∨
          candidates.any fun item => item.event != .selectCandidate then
        snapshotError record.sequence "incomplete contiguous candidate snapshot"
      else do
        checkSnapshot record candidates
        validateSnapshotsFrom count records

/-- `_validate_selection_snapshots`. -/
def validateSelectionSnapshots (records : List DecodedRecord) : Except String Unit :=
  validateSnapshotsFrom 0 records

/-! ### Roles -/

def isUser : Option ℕ → Bool
  | some task => 1 ≤ task && task ≤ maxTaskId
  | none => false

def isUserOrIdle (task : Option ℕ) : Bool := isUser task || task == some 0

def rolesValid (r : DecodedRecord) : Bool :=
  match r.event with
  | .kernelStart => r.task == none && r.related == none
  | .taskCreate => isUser r.task && (r.related == none || isUser r.related)
  | .taskRelease => isUser r.task && r.related == none
  | .taskSelect => isUserOrIdle r.task && (r.related == none || isUserOrIdle r.related)
  | .selectCandidate => isUser r.task && isUserOrIdle r.related
  | .taskStart | .taskYield | .taskSleep | .taskWake | .taskExit | .deadlineMet | .deadlineMiss
  | .alloc | .free | .taskWaitPeriod => isUser r.task && r.related == none
  | .taskReleaseSkipped | .ownerRelease => isUser r.task && r.related == none
  | .taskPreempt => isUserOrIdle r.task && isUser r.related
  | .contextSwitch => (r.task == none || isUserOrIdle r.task) && isUserOrIdle r.related
  | .idleStart => r.task == some 0 && (r.related == none || isUser r.related)
  | .idleStop => r.task == some 0 && isUser r.related
  | .overflow => r.task == none && r.related == none

/-- `_validate_event_roles`. -/
def validateEventRoles (records : List DecodedRecord) : Except String Unit :=
  records.forM fun r =>
    if !rolesValid r then
      .error (s!"sequence {r.sequence}: impossible task roles for " ++ eventName r.event)
    else .ok ()

/-! ### Payloads -/

def payloadValid (r : DecodedRecord) : Bool :=
  match r.event with
  | .kernelStart => r.value0 == 0 && r.value1 == 5 && r.value2 == 0
  | .taskCreate => [0, 1].contains r.value0 && r.value1 ≤ 0xFF && [1, 2].contains r.value2
  | .taskRelease | .taskStart | .taskWake | .deadlineMet | .deadlineMiss => 0 < r.value2
  | .taskPreempt => [1, 2, 3].contains r.value0 && r.value1 == 0 && r.value2 == 0
  | .taskYield | .idleStart | .idleStop => r.value0 == 0 && r.value1 == 0 && r.value2 == 0
  | .taskSleep => 0 < r.value2 && r.tick ≤ deadline r.value0 r.value1
  | .taskExit => 0 < r.value0 && r.value2 == 0
  | .contextSwitch => (1 ≤ r.value0 && r.value0 < 9) && r.value1 < 6 && r.value2 == 0
  | .alloc =>
    0 < r.value0 && ((r.value2 == 0 && r.value1 == 0xFFFFFFFF) ||
      (r.value2 == 1 && r.value1 != 0xFFFFFFFF))
  | .free =>
    r.value1 == 1 && [0, 1].contains r.value2 && (r.value2 == 0 || r.value0 != 0xFFFFFFFF)
  | .taskWaitPeriod => r.value2 == 0 && r.tick < deadline r.value0 r.value1
  | .taskReleaseSkipped => 0 < r.value2
  | .ownerRelease => 0 < r.value0 && some r.value1 == r.task && r.value2 == 1
  | .overflow => 0 < r.value0 && r.value2 ≤ r.value1
  | .taskSelect | .selectCandidate => true

/-- The further check of the records of a selection. -/
def metadataValid (r : DecodedRecord) : Bool :=
  match r.event with
  | .taskSelect =>
    (reasonOfCode (r.value1 &&& 0xFF)).isSome &&
      [1, 2, 3].contains ((r.value1 >>> 8) &&& 0xFF) &&
      [1, 2, 3, 4, 0xFF].contains ((r.value1 >>> 16) &&& 0xFF)
  | .selectCandidate =>
    r.value2 &&& 0x7FFFF == r.value2 && [2, 3].contains ((r.value2 >>> 8) &&& 0xFF)
  | _ => true

/-- `_validate_event_payloads`. -/
def validateEventPayloads (records : List DecodedRecord) : Except String Unit :=
  records.forM fun r =>
    if !payloadValid r then
      .error (s!"sequence {r.sequence}: invalid payload for " ++ eventName r.event)
    else if !metadataValid r then
      if r.event = .taskSelect then
        .error s!"sequence {r.sequence}: invalid selection summary metadata"
      else .error s!"sequence {r.sequence}: invalid candidate metadata"
    else .ok ()

/-- `decode`. -/
def decode (data : List UInt8) : Except String DecodedTrace := do
  let trace ← decodeStream data
  validateSelectionSnapshots trace.records
  validateEventRoles trace.records
  validateEventPayloads trace.records
  if trace.records.any fun r => r.event == .overflow then
    .error "complete zero-loss trace contains a trace_overflow record"
  .ok trace

end Aymos.Validate
