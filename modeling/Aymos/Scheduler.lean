import Aymos.Words
import Mathlib.Data.List.Range

/-!
The scheduling policy of `kernel/src/scheduler.c`.

A function that the source lets update a record through a pointer takes the record and
returns the new one, with the flag the source returns. Orders are 64-bit and ticks, counters
and intervals 32-bit natural numbers; the narrowings the source makes are written `u32` and
the sums it guards are left exact.
-/

namespace Aymos.Scheduler

open Words

def taskIdIdle : ℕ := 0
def taskIdInvalid : ℕ := uint8Max
def maxUserTasks : ℕ := 4
def maxTimeInterval : ℕ := int32Max

/-- `os_task_state_t`, in the order of its codes. -/
inductive TaskState
  | dormant
  | waitingRelease
  | ready
  | running
  | sleeping
  | exiting
  deriving DecidableEq, Repr

def TaskState.code : TaskState → ℕ
  | .dormant => 0
  | .waitingRelease => 1
  | .ready => 2
  | .running => 3
  | .sleeping => 4
  | .exiting => 5

/-- `os_task_kind_t`. -/
inductive TaskKind
  | oneShot
  | periodic
  deriving DecidableEq, Repr

def TaskKind.code : TaskKind → ℕ
  | .oneShot => 0
  | .periodic => 1

/-- `os_task_timing_config_t`. The type of `kind` excludes the values the source refuses. -/
structure TaskTimingConfig where
  kind : TaskKind
  initialReleaseDelayTicks : ℕ
  periodTicks : ℕ
  relativeDeadlineTicks : ℕ
  executionBudgetTicks : ℕ
  priority : UInt8
  deriving DecidableEq, Repr

/-- `os_sched_task_t`. -/
structure SchedTask where
  releaseOrder : ℕ
  nextReleaseOrder : ℕ
  wakeOrder : ℕ
  absoluteDeadlineOrder : ℕ
  releaseTick : ℕ
  nextReleaseTick : ℕ
  wakeTick : ℕ
  periodTicks : ℕ
  relativeDeadlineTicks : ℕ
  absoluteDeadlineTick : ℕ
  executionBudgetTicks : ℕ
  totalExecutionTicks : ℕ
  jobExecutionTicks : ℕ
  completedJobCount : ℕ
  deadlineMissCount : ℕ
  missedReleaseCount : ℕ
  jobSequence : ℕ
  id : ℕ
  state : TaskState
  kind : TaskKind
  priority : ℕ
  jobActive : Bool
  deadlineMissLatched : Bool
  timeRangeExhausted : Bool
  deriving DecidableEq, Repr

def osTickIntervalValid (interval : ℕ) : Bool := interval ≤ maxTimeInterval

def osTickBefore (first second : ℕ) : Bool := first < second

def osTickReached (now target : ℕ) : Bool := !osTickBefore now target

def osSchedConfigValid (config : TaskTimingConfig) : Bool :=
  if config.relativeDeadlineTicks = 0 ∨
      !osTickIntervalValid config.initialReleaseDelayTicks ∨
      !osTickIntervalValid config.periodTicks ∨
      !osTickIntervalValid config.relativeDeadlineTicks ∨
      !osTickIntervalValid config.executionBudgetTicks ∨
      config.initialReleaseDelayTicks > maxTimeInterval - config.relativeDeadlineTicks then false
  else
    match config.kind with
    | .oneShot => config.periodTicks == 0
    | .periodic =>
      config.periodTicks != 0 && config.relativeDeadlineTicks ≤ config.periodTicks

/-- `os_sched_task_reset`: the record in reset form. -/
def osSchedTaskReset (id : ℕ) : SchedTask :=
  { releaseOrder := 0
    nextReleaseOrder := 0
    wakeOrder := 0
    absoluteDeadlineOrder := 0
    releaseTick := 0
    nextReleaseTick := 0
    wakeTick := 0
    periodTicks := 0
    relativeDeadlineTicks := 0
    absoluteDeadlineTick := 0
    executionBudgetTicks := 0
    totalExecutionTicks := 0
    jobExecutionTicks := 0
    completedJobCount := 0
    deadlineMissCount := 0
    missedReleaseCount := 0
    jobSequence := 0
    id := id
    state := .dormant
    kind := .oneShot
    priority := 0
    jobActive := false
    deadlineMissLatched := false
    timeRangeExhausted := false }

def activateJob (task : SchedTask) : SchedTask × Bool :=
  if task.state ≠ .waitingRelease ∨ task.jobActive then (task, false)
  else if task.releaseOrder > uint64Max - task.relativeDeadlineTicks ∨
      (task.kind = .periodic ∧ task.releaseOrder > uint64Max - task.periodTicks) then
    ({ task with timeRangeExhausted := true }, false)
  else
    let nextReleaseOrder :=
      match task.kind with
      | .periodic => task.releaseOrder + task.periodTicks
      | .oneShot => 0
    ({ task with
        absoluteDeadlineOrder := task.releaseOrder + task.relativeDeadlineTicks
        absoluteDeadlineTick := u32 (task.releaseOrder + task.relativeDeadlineTicks)
        jobExecutionTicks := 0
        deadlineMissLatched := false
        jobActive := true
        jobSequence := incrementSaturating task.jobSequence
        nextReleaseOrder := nextReleaseOrder
        nextReleaseTick := u32 nextReleaseOrder
        state := .ready }, true)

def osSchedTaskConfigure (task : SchedTask) (config : TaskTimingConfig) (now : ℕ) :
    SchedTask × Bool :=
  if task.state ≠ .dormant ∨ !osSchedConfigValid config ∨
      now > uint64Max - config.initialReleaseDelayTicks ∨
      now + config.initialReleaseDelayTicks > uint64Max - config.relativeDeadlineTicks then
    (task, false)
  else
    let id := task.id
    let task := osSchedTaskReset id
    let releaseOrder := now + config.initialReleaseDelayTicks
    if config.kind = .periodic ∧ releaseOrder > uint64Max - config.periodTicks then (task, false)
    else
      let task := { task with
        kind := config.kind
        releaseOrder := releaseOrder
        releaseTick := u32 releaseOrder
        nextReleaseOrder := releaseOrder
        nextReleaseTick := u32 releaseOrder
        periodTicks := config.periodTicks
        relativeDeadlineTicks := config.relativeDeadlineTicks
        executionBudgetTicks := config.executionBudgetTicks
        priority := config.priority.toNat
        state := .waitingRelease }
      if config.initialReleaseDelayTicks = 0 then activateJob task else (task, true)

def osSchedTransition (task : SchedTask) (expected next : TaskState) : SchedTask × Bool :=
  if task.state ≠ expected ∨ expected = next then (task, false)
  else ({ task with state := next }, true)

def osSchedReleaseDue (task : SchedTask) (now : ℕ) : SchedTask × Bool :=
  if task.state ≠ .waitingRelease ∨ task.jobActive ∨
      !osTickReached now task.nextReleaseOrder then (task, false)
  else
    activateJob { task with
      releaseOrder := task.nextReleaseOrder, releaseTick := task.nextReleaseTick }

def osSchedWakeDue (task : SchedTask) (now : ℕ) : SchedTask × Bool :=
  if task.state ≠ .sleeping ∨ !task.jobActive ∨ !osTickReached now task.wakeOrder then (task, false)
  else ({ task with state := .ready }, true)

def osSchedSleep (task : SchedTask) (now sleepTicks : ℕ) : SchedTask × Bool :=
  if task.state ≠ .running ∨ !task.jobActive ∨ sleepTicks = 0 ∨
      !osTickIntervalValid sleepTicks ∨ now > uint64Max - sleepTicks then (task, false)
  else
    ({ task with
        wakeOrder := now + sleepTicks
        wakeTick := u32 (now + sleepTicks)
        state := .sleeping }, true)

def osSchedRecordDeadlineMiss (task : SchedTask) (now : ℕ) : SchedTask × Bool :=
  if !task.jobActive ∨ task.deadlineMissLatched ∨
      !osTickReached now task.absoluteDeadlineOrder then (task, false)
  else
    ({ task with
        deadlineMissLatched := true
        deadlineMissCount := incrementSaturating task.deadlineMissCount }, true)

def osSchedCompleteJob (task : SchedTask) (now : ℕ) : SchedTask × Bool :=
  if task.state ≠ .running ∨ !task.jobActive then (task, false)
  else
    let task := (osSchedRecordDeadlineMiss task now).1
    ({ task with
        jobActive := false
        completedJobCount := incrementSaturating task.completedJobCount }, true)

def osSchedWaitNextPeriod (task : SchedTask) (now : ℕ) : SchedTask × Bool :=
  if task.kind ≠ .periodic then (task, false)
  else
    match osSchedCompleteJob task now with
    | (task, false) => (task, false)
    | (task, true) => ({ task with state := .waitingRelease }, true)

def osSchedRecordActiveRelease (task : SchedTask) (now : ℕ) : SchedTask × Bool :=
  if task.kind ≠ .periodic ∨ !task.jobActive ∨ task.state = .dormant ∨ task.state = .exiting ∨
      !osTickReached now task.nextReleaseOrder then (task, false)
  else if task.periodTicks = 0 ∨ task.nextReleaseOrder > uint64Max - task.periodTicks then
    ({ task with timeRangeExhausted := true }, false)
  else
    ({ task with
        missedReleaseCount := incrementSaturating task.missedReleaseCount
        nextReleaseOrder := task.nextReleaseOrder + task.periodTicks
        nextReleaseTick := u32 (task.nextReleaseOrder + task.periodTicks) }, true)

def osSchedAccountRunningTick (task : SchedTask) : SchedTask :=
  if task.state ≠ .running ∨ !task.jobActive then task
  else
    { task with
      totalExecutionTicks := incrementSaturating task.totalExecutionTicks
      jobExecutionTicks := incrementSaturating task.jobExecutionTicks }

def osSchedOutranks (candidate incumbent : SchedTask) : Bool :=
  if candidate.state ≠ .ready ∨ !candidate.jobActive then false
  else if incumbent.id = taskIdIdle then candidate.id != taskIdIdle
  else if candidate.id = taskIdIdle ∨ !incumbent.jobActive ∨
      (incumbent.state ≠ .ready ∧ incumbent.state ≠ .running) then false
  else if candidate.absoluteDeadlineOrder ≠ incumbent.absoluteDeadlineOrder then
    osTickBefore candidate.absoluteDeadlineOrder incumbent.absoluteDeadlineOrder
  else if candidate.priority ≠ incumbent.priority then candidate.priority < incumbent.priority
  else candidate.id < incumbent.id

/-- The body of the loop of `os_sched_select`. -/
def selectStep (tasks : ℕ → SchedTask) (excluded best index : ℕ) : ℕ :=
  let candidate := tasks index
  if candidate.id ≠ index ∨ candidate.id = excluded ∨ candidate.state ≠ .ready ∨
      !candidate.jobActive then best
  else if best = taskIdInvalid ∨ osSchedOutranks candidate (tasks best) then candidate.id
  else best

def osSchedSelect (tasks : ℕ → SchedTask) (taskCount excluded : ℕ) : ℕ :=
  if taskCount = 0 ∨ taskCount > taskIdInvalid then taskIdInvalid
  else
    let best := (List.range' 1 (taskCount - 1)).foldl (selectStep tasks excluded) taskIdInvalid
    let best :=
      if best = taskIdInvalid ∧ excluded ≠ taskIdInvalid ∧ excluded < taskCount ∧
          excluded ≠ taskIdIdle ∧ (tasks excluded).id = excluded ∧
          (tasks excluded).state = .ready ∧ (tasks excluded).jobActive then excluded
      else best
    if best = taskIdInvalid ∧ (tasks taskIdIdle).id = taskIdIdle ∧
        (tasks taskIdIdle).state = .ready then taskIdIdle
    else best

/-! ### No operation changes the identifier -/

section Identifiers

variable (t : SchedTask) (now : ℕ)

@[simp] lemma activateJob_id : (activateJob t).1.id = t.id := by
  unfold activateJob
  split
  · rfl
  · split <;> rfl

@[simp] lemma osSchedTaskConfigure_id (config : TaskTimingConfig) :
    (osSchedTaskConfigure t config now).1.id = t.id := by
  unfold osSchedTaskConfigure
  split
  · rfl
  · simp only
    split
    · rfl
    · split
      · exact activateJob_id _
      · rfl

@[simp] lemma osSchedReleaseDue_id : (osSchedReleaseDue t now).1.id = t.id := by
  unfold osSchedReleaseDue
  split
  · rfl
  · exact activateJob_id _

@[simp] lemma osSchedWakeDue_id : (osSchedWakeDue t now).1.id = t.id := by
  unfold osSchedWakeDue
  split <;> rfl

@[simp] lemma osSchedSleep_id (sleepTicks : ℕ) : (osSchedSleep t now sleepTicks).1.id = t.id := by
  unfold osSchedSleep
  split <;> rfl

@[simp] lemma osSchedRecordDeadlineMiss_id : (osSchedRecordDeadlineMiss t now).1.id = t.id := by
  unfold osSchedRecordDeadlineMiss
  split <;> rfl

@[simp] lemma osSchedCompleteJob_id : (osSchedCompleteJob t now).1.id = t.id := by
  unfold osSchedCompleteJob
  split
  · rfl
  · exact osSchedRecordDeadlineMiss_id t now

@[simp] lemma osSchedWaitNextPeriod_id : (osSchedWaitNextPeriod t now).1.id = t.id := by
  have hc := osSchedCompleteJob_id t now
  unfold osSchedWaitNextPeriod
  split
  · rfl
  · rcases h : osSchedCompleteJob t now with ⟨t', _ | _⟩ <;> simpa [h] using hc

@[simp] lemma osSchedRecordActiveRelease_id : (osSchedRecordActiveRelease t now).1.id = t.id := by
  unfold osSchedRecordActiveRelease
  split
  · rfl
  · split <;> rfl

@[simp] lemma osSchedAccountRunningTick_id : (osSchedAccountRunningTick t).id = t.id := by
  unfold osSchedAccountRunningTick
  split <;> rfl

end Identifiers

end Aymos.Scheduler
