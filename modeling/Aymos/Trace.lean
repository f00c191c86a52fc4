import Aymos.Scheduler
import Mathlib.Logic.Function.Basic

/-!
The trace ring of `kernel/src/trace.c` and the records `kernel/src/trace_runtime.c` puts in it.

The ring's storage is a map from slots to records. What the ring holds, oldest first, is
`TraceRing.records`. The kernel never takes records out while it runs.
-/

namespace Aymos.Trace

open Words Scheduler

/-- `os_trace_event_t`. -/
inductive TraceEvent
  | kernelStart
  | taskCreate
  | taskRelease
  | taskSelect
  | selectCandidate
  | taskStart
  | taskPreempt
  | taskYield
  | taskSleep
  | taskWake
  | taskExit
  | contextSwitch
  | idleStart
  | idleStop
  | deadlineMet
  | deadlineMiss
  | alloc
  | free
  | taskWaitPeriod
  | taskReleaseSkipped
  | ownerRelease
  | overflow
  deriving DecidableEq, Repr

def TraceEvent.code : TraceEvent → ℕ
  | .kernelStart => 1
  | .taskCreate => 2
  | .taskRelease => 3
  | .taskSelect => 4
  | .selectCandidate => 5
  | .taskStart => 6
  | .taskPreempt => 7
  | .taskYield => 8
  | .taskSleep => 9
  | .taskWake => 10
  | .taskExit => 11
  | .contextSwitch => 12
  | .idleStart => 13
  | .idleStop => 14
  | .deadlineMet => 15
  | .deadlineMiss => 16
  | .alloc => 17
  | .free => 18
  | .taskWaitPeriod => 19
  | .taskReleaseSkipped => 20
  | .ownerRelease => 21
  | .overflow => 22

lemma TraceEvent.code_injective : Function.Injective TraceEvent.code := by
  intro a b h
  cases a <;> cases b <;> first | rfl | exact absurd h (by decide)

/-- `os_trace_select_reason_t`. -/
inductive SelectReason
  | onlyReady
  | deadline
  | priority
  | stableTid
  | idle
  | excludedFallback
  deriving DecidableEq, Repr

def SelectReason.code : SelectReason → ℕ
  | .onlyReady => 1
  | .deadline => 2
  | .priority => 3
  | .stableTid => 4
  | .idle => 5
  | .excludedFallback => 6

/-- `os_trace_select_purpose_t`. -/
inductive SelectPurpose
  | dispatch
  | systickProbe
  | runtimeCreateProbe
  deriving DecidableEq, Repr

def SelectPurpose.code : SelectPurpose → ℕ
  | .dispatch => 1
  | .systickProbe => 2
  | .runtimeCreateProbe => 3

def traceTaskInvalid : ℕ := uint16Max
def traceSchemaVersion : ℕ := 1
def traceMaxBatchRecords : ℕ := 5
def traceCapacity : ℕ := 256

/-- `os_trace_record_t`. -/
structure TraceRecord where
  tick : ℕ
  sequence : ℕ
  schema : ℕ
  event : ℕ
  flags : ℕ
  task : ℕ
  related : ℕ
  value0 : ℕ
  value1 : ℕ
  value2 : ℕ
  deriving DecidableEq, Repr

/-- `os_trace_input_t`. The event is a code, which need not be that of an event. -/
structure TraceInput where
  event : ℕ
  flags : ℕ
  task : ℕ
  related : ℕ
  value0 : ℕ
  value1 : ℕ
  value2 : ℕ
  deriving DecidableEq, Repr

/-- `os_trace_ring_t` with its storage. -/
structure TraceRing where
  slots : ℕ → TraceRecord
  capacity : ℕ
  readIndex : ℕ
  writeIndex : ℕ
  count : ℕ
  nextSequence : ℕ
  attempted : ℕ
  emitted : ℕ
  dropped : ℕ
  reportedDropped : ℕ
  enabled : Bool
  sequenceExhausted : Bool

/-- `os_trace_final_t`. -/
structure TraceFinal where
  attempted : ℕ
  emitted : ℕ
  dropped : ℕ
  finalSequence : ℕ
  flags : ℕ
  finalTick : ℕ
  deriving DecidableEq, Repr

def TraceRecord.zero : TraceRecord := ⟨0, 0, 0, 0, 0, 0, 0, 0, 0, 0⟩

/-- The records in the ring, oldest first. -/
def TraceRing.records (ring : TraceRing) : List TraceRecord :=
  (List.range ring.count).map fun i => ring.slots ((ring.readIndex + i) % ring.capacity)

def osTraceEventValid (event : ℕ) : Bool :=
  TraceEvent.kernelStart.code ≤ event && event ≤ TraceEvent.overflow.code

/-- `os_trace_ring_init` on aligned storage. -/
def osTraceRingInit (capacity : ℕ) : Option TraceRing :=
  if capacity = 0 ∨ capacity > uint32Max then none
  else some
    { slots := fun _ => TraceRecord.zero
      capacity := capacity
      readIndex := 0
      writeIndex := 0
      count := 0
      nextSequence := 0
      attempted := 0
      emitted := 0
      dropped := 0
      reportedDropped := 0
      enabled := true
      sequenceExhausted := false }

/-- The record an input becomes. -/
def recordOf (tick sequence : ℕ) (input : TraceInput) : TraceRecord :=
  { tick := tick
    sequence := sequence
    schema := traceSchemaVersion
    event := input.event % 2 ^ 8
    flags := input.flags
    task := input.task
    related := input.related
    value0 := input.value0
    value1 := input.value1
    value2 := input.value2 }

/-- The loop that writes a batch: the storage and the index after it. -/
def writeRecords (capacity tick : ℕ) :
    (ℕ → TraceRecord) → ℕ → ℕ → List TraceInput → (ℕ → TraceRecord) × ℕ
  | slots, write, _, [] => (slots, write)
  | slots, write, sequence, input :: inputs =>
    writeRecords capacity tick (Function.update slots write (recordOf tick (u32 sequence) input))
      ((write + 1) % capacity) (sequence + 1) inputs

/-- The ring and whether the batch was stored. -/
def osTraceRingPushBatch (ring : TraceRing) (tick : ℕ) (inputs : List TraceInput) :
    TraceRing × Bool :=
  let count := inputs.length
  if ring.capacity = 0 ∨ !ring.enabled ∨ count = 0 ∨ count > ring.capacity ∨
      count > traceMaxBatchRecords then (ring, false)
  else if inputs.any fun input => !osTraceEventValid input.event || input.flags != 0 then
    (ring, false)
  else if ring.sequenceExhausted ∨ ring.nextSequence > uint32Max - (count - 1) then
    ({ ring with
        sequenceExhausted := true
        attempted := incrementSaturating^[count] ring.attempted
        dropped := incrementSaturating^[count] ring.dropped }, false)
  else
    let firstSequence := ring.nextSequence
    let nextSequence := u32 (ring.nextSequence + count)
    let ring := { ring with
      attempted := incrementSaturating^[count] ring.attempted
      nextSequence := nextSequence
      sequenceExhausted := ring.sequenceExhausted || nextSequence == 0 }
    if count > ring.capacity - ring.count then
      ({ ring with dropped := incrementSaturating^[count] ring.dropped }, false)
    else
      let written := writeRecords ring.capacity tick ring.slots ring.writeIndex firstSequence inputs
      ({ ring with
          slots := written.1
          writeIndex := written.2
          count := ring.count + count
          emitted := incrementSaturating^[count] ring.emitted }, true)

def osTraceRingPush (ring : TraceRing) (tick : ℕ) (input : TraceInput) : TraceRing × Bool :=
  osTraceRingPushBatch ring tick [input]

/-- The ring and the record taken out of it. -/
def osTraceRingPop (ring : TraceRing) : TraceRing × Option TraceRecord :=
  if ring.count = 0 then (ring, none)
  else
    ({ ring with
        readIndex := (ring.readIndex + 1) % ring.capacity
        count := ring.count - 1 }, some (ring.slots ring.readIndex))

def osTraceRingReportOverflow (ring : TraceRing) (tick : ℕ) : TraceRing × Bool :=
  if !ring.enabled ∨ ring.capacity = 0 ∨ ring.count ≥ ring.capacity ∨ ring.sequenceExhausted ∨
      ring.dropped = ring.reportedDropped then (ring, false)
  else
    match osTraceRingPush ring tick
      ⟨TraceEvent.overflow.code, 0, traceTaskInvalid, traceTaskInvalid,
        ring.dropped, ring.attempted, ring.emitted⟩ with
    | (ring', false) => (ring', false)
    | (ring', true) => ({ ring' with reportedDropped := ring.dropped }, true)

/-- The ring and the totals reported when it is closed. -/
def osTraceRingClose (ring : TraceRing) (finalTick : ℕ) : TraceRing × Option TraceFinal :=
  if !ring.enabled then (ring, none)
  else
    ({ ring with enabled := false }, some
      { attempted := ring.attempted
        emitted := ring.emitted
        dropped := ring.dropped
        finalSequence :=
          if ring.attempted = 0 then uint32Max
          else if ring.sequenceExhausted then uint32Max
          else u32 (ring.nextSequence + uint32Max) -- one less, modulo `2 ^ 32`
        flags := if ring.sequenceExhausted then 1 else 0
        finalTick := finalTick })

/-! ### Emission -/

/-- `os_trace_emit`, at the tick the kernel's clock shows. -/
def osTraceEmit (ring : TraceRing) (tick : ℕ) (event : TraceEvent)
    (task related value0 value1 value2 : ℕ) : TraceRing :=
  let ring := (osTraceRingReportOverflow ring tick).1
  (osTraceRingPush ring tick ⟨event.code, 0, task, related, value0, value1, value2⟩).1

/-- A task that is ready, or the incumbent a probe is made against. -/
def isCandidate (tasks : ℕ → SchedTask) (incumbent : ℕ) (purpose : SelectPurpose) (index : ℕ) :
    Bool :=
  ((tasks index).state == .ready && (tasks index).jobActive) ||
    (index == incumbent && (tasks index).state == .running && (tasks index).jobActive &&
      purpose != .dispatch)

def snapshotOutranks (candidate incumbent : SchedTask) : Bool :=
  if candidate.absoluteDeadlineOrder ≠ incumbent.absoluteDeadlineOrder then
    candidate.absoluteDeadlineOrder < incumbent.absoluteDeadlineOrder
  else if candidate.priority ≠ incumbent.priority then candidate.priority < incumbent.priority
  else candidate.id < incumbent.id

/-- The loop of `selection_reason` that finds the runner-up. -/
def runnerUpStep (tasks : ℕ → SchedTask) (selected incumbent excluded : ℕ)
    (purpose : SelectPurpose) (runnerUp index : ℕ) : ℕ :=
  if index = selected ∨ index = excluded ∨ !isCandidate tasks incumbent purpose index then runnerUp
  else if runnerUp = taskIdInvalid ∨ snapshotOutranks (tasks index) (tasks runnerUp) then index
  else runnerUp

def selectionReason (tasks : ℕ → SchedTask) (taskCount selected incumbent excluded : ℕ)
    (purpose : SelectPurpose) (eligibleCount : ℕ) : SelectReason :=
  if selected = taskIdIdle then .idle
  else if selected = excluded ∧ eligibleCount = 0 then .excludedFallback
  else if eligibleCount ≤ 1 then .onlyReady
  else
    let runnerUp := (List.range' 1 (taskCount - 1)).foldl
      (runnerUpStep tasks selected incumbent excluded purpose) taskIdInvalid
    if runnerUp = taskIdInvalid ∨
        (tasks selected).absoluteDeadlineOrder ≠ (tasks runnerUp).absoluteDeadlineOrder then
      .deadline
    else if (tasks selected).priority ≠ (tasks runnerUp).priority then .priority
    else .stableTid

def readyMask (tasks : ℕ → SchedTask) (taskCount : ℕ) : ℕ :=
  (List.range' 1 (taskCount - 1)).foldl (fun mask index =>
    if (tasks index).state = .ready ∧ (tasks index).jobActive then mask ||| (1 <<< index)
    else mask) 0

/-- One candidate record of a selection batch. -/
def candidateInput (tasks : ℕ → SchedTask) (selected incumbent excluded index : ℕ) : TraceInput :=
  { event := TraceEvent.selectCandidate.code
    flags := 0
    task := index
    related := selected
    value0 := u32 (tasks index).absoluteDeadlineOrder
    value1 := u32 ((tasks index).absoluteDeadlineOrder / 2 ^ 32)
    value2 := (tasks index).priority ||| ((tasks index).state.code <<< 8) |||
      ((if index = excluded then 1 else 0) <<< 16) |||
      ((if index = incumbent then 1 else 0) <<< 17) |||
      ((if index ≠ excluded then 1 else 0) <<< 18) }

/-- The batch of a selection: its summary, then one record for each candidate. -/
def selectionInputs (tasks : ℕ → SchedTask) (taskCount selected incumbent excluded : ℕ)
    (purpose : SelectPurpose) : List TraceInput :=
  let candidates := (List.range' 1 (taskCount - 1)).filter (isCandidate tasks incumbent purpose)
  let eligibleCount := (candidates.filter fun index => index ≠ excluded).length
  let reason := selectionReason tasks taskCount selected incumbent excluded purpose eligibleCount
  { event := TraceEvent.taskSelect.code
    flags := 0
    task := selected
    related := if incumbent = taskIdInvalid then traceTaskInvalid else incumbent
    value0 := readyMask tasks taskCount
    value1 := reason.code ||| (purpose.code <<< 8) |||
      ((if excluded = taskIdInvalid then uint8Max else excluded) <<< 16) |||
      (eligibleCount <<< 24)
    value2 := candidates.length } ::
    candidates.map (candidateInput tasks selected incumbent excluded)

def osTraceEmitSelection (ring : TraceRing) (tick : ℕ) (tasks : ℕ → SchedTask)
    (taskCount selected incumbent excluded : ℕ) (purpose : SelectPurpose) : TraceRing :=
  if taskCount = 0 ∨ taskCount > maxUserTasks + 1 ∨ selected ≥ taskCount then ring
  else
    let ring := (osTraceRingReportOverflow ring tick).1
    (osTraceRingPushBatch ring tick
      (selectionInputs tasks taskCount selected incumbent excluded purpose)).1

end Aymos.Trace
