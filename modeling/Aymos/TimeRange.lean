import Aymos.Scheduler

/-!
The 64-bit sums of a scheduler record.

`Scheduler` leaves the sums that the source guards exact. Here the same operations form them as
the machine does, modulo `2 ^ 64`, in the guards as well as in what is stored. On every record
that the operations can lead to both agree: what is stored is the sum it stands for, and a sum
past the last order is refused.
-/

namespace Aymos.TimeRange

open Aymos.Words Aymos.Scheduler

/-! ### Operations with machine sums -/

def activateJob64 (task : SchedTask) : SchedTask × Bool :=
  if task.state ≠ .waitingRelease ∨ task.jobActive then (task, false)
  else if task.releaseOrder > uint64Max - task.relativeDeadlineTicks ∨
      (task.kind = .periodic ∧ task.releaseOrder > uint64Max - task.periodTicks) then
    ({ task with timeRangeExhausted := true }, false)
  else
    let absoluteDeadlineOrder := u64 (task.releaseOrder + task.relativeDeadlineTicks)
    let nextReleaseOrder :=
      if task.kind = .periodic then u64 (task.releaseOrder + task.periodTicks) else 0
    ({ task with
        absoluteDeadlineOrder := absoluteDeadlineOrder
        absoluteDeadlineTick := u32 absoluteDeadlineOrder
        jobExecutionTicks := 0
        deadlineMissLatched := false
        jobActive := true
        jobSequence := incrementSaturating task.jobSequence
        nextReleaseOrder := nextReleaseOrder
        nextReleaseTick := u32 nextReleaseOrder
        state := .ready }, true)

def osSchedTaskConfigure64 (task : SchedTask) (config : TaskTimingConfig) (now : ℕ) :
    SchedTask × Bool :=
  if task.state ≠ .dormant ∨ !osSchedConfigValid config ∨
      now > uint64Max - config.initialReleaseDelayTicks ∨
      u64 (now + config.initialReleaseDelayTicks) > uint64Max - config.relativeDeadlineTicks then
    (task, false)
  else
    let id := task.id
    let task := osSchedTaskReset id
    let releaseOrder := u64 (now + config.initialReleaseDelayTicks)
    if config.kind = .periodic ∧ releaseOrder > uint64Max - config.periodTicks then (task, false)
    else
      let task := { task with
        kind := config.kind
        releaseOrder := releaseOrder
        releaseTick := u32 releaseOrder
        nextReleaseOrder := releaseOrder
        nextReleaseTick := u32 releaseOrder
        periodTicks := config.periodTicks
        relativeDeadlineTicks := config.relativeDeadlineTicks
        executionBudgetTicks := config.executionBudgetTicks
        priority := config.priority.toNat
        state := .waitingRelease }
      if config.initialReleaseDelayTicks = 0 then activateJob64 task else (task, true)

def osSchedReleaseDue64 (task : SchedTask) (now : ℕ) : SchedTask × Bool :=
  if task.state ≠ .waitingRelease ∨ task.jobActive ∨
      !osTickReached now task.nextReleaseOrder then (task, false)
  else
    activateJob64 { task with
      releaseOrder := task.nextReleaseOrder, releaseTick := task.nextReleaseTick }

def osSchedSleep64 (task : SchedTask) (now sleepTicks : ℕ) : SchedTask × Bool :=
  if task.state ≠ .running ∨ !task.jobActive ∨ sleepTicks = 0 ∨
      !osTickIntervalValid sleepTicks ∨ now > uint64Max - sleepTicks then (task, false)
  else
    let wakeOrder := u64 (now + sleepTicks)
    ({ task with wakeOrder := wakeOrder, wakeTick := u32 wakeOrder, state := .sleeping }, true)

def osSchedRecordActiveRelease64 (task : SchedTask) (now : ℕ) : SchedTask × Bool :=
  if task.kind ≠ .periodic ∨ !task.jobActive ∨ task.state = .dormant ∨ task.state = .exiting ∨
      !osTickReached now task.nextReleaseOrder then (task, false)
  else if task.periodTicks = 0 ∨ task.nextReleaseOrder > uint64Max - task.periodTicks then
    ({ task with timeRangeExhausted := true }, false)
  else
    let nextReleaseOrder := u64 (task.nextReleaseOrder + task.periodTicks)
    ({ task with
        missedReleaseCount := incrementSaturating task.missedReleaseCount
        nextReleaseOrder := nextReleaseOrder
        nextReleaseTick := u32 nextReleaseOrder }, true)

/-- The calls made on one record. -/
inductive Op
  | configure (config : TaskTimingConfig)
  | releaseDue
  | wakeDue
  | sleep (sleepTicks : ℕ)
  | waitNextPeriod
  | completeJob
  | recordActiveRelease
  /-- `os_sched_transition` from READY to RUNNING, and back. -/
  | dispatch
  | preempt
  deriving DecidableEq, Repr

/-- A call, with the sums the machine forms. -/
def Op.run64 (op : Op) (task : SchedTask) (now : ℕ) : SchedTask × Bool :=
  match op with
  | .configure config => osSchedTaskConfigure64 task config now
  | .releaseDue => osSchedReleaseDue64 task now
  | .wakeDue => osSchedWakeDue task now
  | .sleep sleepTicks => osSchedSleep64 task now sleepTicks
  | .waitNextPeriod => osSchedWaitNextPeriod task now
  | .completeJob => osSchedCompleteJob task now
  | .recordActiveRelease => osSchedRecordActiveRelease64 task now
  | .dispatch => osSchedTransition task .ready .running
  | .preempt => osSchedTransition task .running .ready

/-- A call, with exact sums. -/
def Op.run (op : Op) (task : SchedTask) (now : ℕ) : SchedTask × Bool :=
  match op with
  | .configure config => osSchedTaskConfigure task config now
  | .releaseDue => osSchedReleaseDue task now
  | .wakeDue => osSchedWakeDue task now
  | .sleep sleepTicks => osSchedSleep task now sleepTicks
  | .waitNextPeriod => osSchedWaitNextPeriod task now
  | .completeJob => osSchedCompleteJob task now
  | .recordActiveRelease => osSchedRecordActiveRelease task now
  | .dispatch => osSchedTransition task .ready .running
  | .preempt => osSchedTransition task .running .ready

/-! ### What a record stands for -/

/-- The ghost of a configured record: what it was configured with, at what order its first
release stood, how many releases have come up since, and which of them the record and its last
job are at. -/
structure Plan where
  config : TaskTimingConfig
  start : ℕ
  /-- Releases taken up or skipped. -/
  releases : ℕ
  /-- The release in `release_order`. -/
  index : ℕ
  /-- The release of the last job. -/
  job : ℕ
  /-- What the last sleep was to last until. -/
  wake : ℕ
  deriving DecidableEq, Repr

/-- The order of the `k`-th release. -/
def Plan.release (p : Plan) (k : ℕ) : ℕ := p.start + k * p.config.periodTicks

/-- The order of the release that comes up next; a one-shot has one release. -/
def Plan.next (p : Plan) : ℕ :=
  if p.config.kind = .periodic ∨ p.releases = 0 then p.release p.releases else 0

/-- The deadline of the last job. -/
def Plan.deadline (p : Plan) : ℕ :=
  if p.releases = 0 then 0 else p.release p.job + p.config.relativeDeadlineTicks

/-- **The stored orders are the sums they stand for**, and fit 64 bits. -/
structure SumsExact (p : Plan) (task : SchedTask) : Prop where
  release : task.releaseOrder = p.release p.index
  next : task.nextReleaseOrder = p.next
  deadline : task.absoluteDeadlineOrder = p.deadline
  wake : task.wakeOrder = p.wake
  fit : task.releaseOrder ≤ uint64Max ∧ task.nextReleaseOrder ≤ uint64Max ∧
    task.absoluteDeadlineOrder ≤ uint64Max ∧ task.wakeOrder ≤ uint64Max

/-- The call gets past the checks that are not about sums. -/
def Op.Applies (op : Op) (task : SchedTask) (now : ℕ) : Prop :=
  match op with
  | .configure config => task.state = .dormant ∧ osSchedConfigValid config = true
  | .releaseDue =>
    task.state = .waitingRelease ∧ task.jobActive = false ∧ task.nextReleaseOrder ≤ now
  | .sleep sleepTicks =>
    task.state = .running ∧ task.jobActive = true ∧ sleepTicks ≠ 0 ∧ sleepTicks ≤ maxTimeInterval
  | .recordActiveRelease =>
    task.kind = .periodic ∧ task.jobActive = true ∧ task.state ≠ .dormant ∧
      task.state ≠ .exiting ∧ task.nextReleaseOrder ≤ now
  | _ => False

instance (op : Op) (task : SchedTask) (now : ℕ) : Decidable (op.Applies task now) :=
  match op with
  | .configure _ => inferInstanceAs (Decidable (_ ∧ _))
  | .releaseDue => inferInstanceAs (Decidable (_ ∧ _ ∧ _))
  | .sleep _ => inferInstanceAs (Decidable (_ ∧ _ ∧ _ ∧ _))
  | .recordActiveRelease => inferInstanceAs (Decidable (_ ∧ _ ∧ _ ∧ _ ∧ _))
  | .wakeDue | .waitNextPeriod | .completeJob | .dispatch | .preempt =>
    inferInstanceAs (Decidable False)

/-- The exact sums the call needs. A one-shot has period zero. -/
def Op.sums (op : Op) (task : SchedTask) (now : ℕ) : List ℕ :=
  match op with
  | .configure config =>
    let releaseOrder := now + config.initialReleaseDelayTicks
    [releaseOrder, releaseOrder + config.relativeDeadlineTicks, releaseOrder + config.periodTicks]
  | .releaseDue =>
    [task.nextReleaseOrder + task.relativeDeadlineTicks, task.nextReleaseOrder + task.periodTicks]
  | .sleep sleepTicks => [now + sleepTicks]
  | .recordActiveRelease => [task.nextReleaseOrder + task.periodTicks]
  | _ => []

/-- Every sum fits 64 bits. -/
def Op.Fits (op : Op) (task : SchedTask) (now : ℕ) : Prop :=
  ∀ sum ∈ op.sums task now, sum ≤ uint64Max

instance (op : Op) (task : SchedTask) (now : ℕ) : Decidable (op.Fits task now) :=
  inferInstanceAs (Decidable (∀ sum ∈ op.sums task now, sum ≤ uint64Max))

/-- The call is a release, taken up or skipped. -/
def Op.IsRelease : Op → Prop
  | .releaseDue | .recordActiveRelease => True
  | _ => False

/-- What a call does to a plan, in exact sums. -/
def Plan.after (p : Plan) (op : Op) (task : SchedTask) (now : ℕ) : Plan :=
  match op with
  | .releaseDue =>
    if ¬op.Applies task now then p
    else if op.Fits task now then
      { p with index := p.releases, job := p.releases, releases := p.releases + 1 }
    else { p with index := p.releases }
  | .sleep sleepTicks =>
    if op.Applies task now ∧ op.Fits task now then { p with wake := now + sleepTicks } else p
  | .recordActiveRelease =>
    if op.Applies task now ∧ op.Fits task now then { p with releases := p.releases + 1 } else p
  | _ => p

/-- The plan a call leaves behind: configuring makes one. -/
def planAfter (plan : Option Plan) (op : Op) (task : SchedTask) (now : ℕ) : Option Plan :=
  match plan, op with
  | some p, op => some (p.after op task now)
  | none, .configure config =>
    if (Op.configure config).Applies task now ∧ (Op.configure config).Fits task now then
      some
        { config := config
          start := now + config.initialReleaseDelayTicks
          releases := if config.initialReleaseDelayTicks = 0 then 1 else 0
          index := 0
          job := 0
          wake := 0 }
    else none
  | none, _ => none

/-- The records the calls lead to from the reset form, with the order of the last call. -/
inductive Run (id : ℕ) : Option Plan → SchedTask → ℕ → Prop
  | reset : Run id none (osSchedTaskReset id) 0
  | call {plan : Option Plan} {task : SchedTask} {last now : ℕ} (op : Op) :
    Run id plan task last → last ≤ now → now ≤ uint64Max →
    Run id (planAfter plan op task now) (op.run64 task now).1 now

/-! ### Agreement with the exact sums -/

/-- The intervals of the record are as narrow as the source's. -/
structure Narrow (task : SchedTask) : Prop where
  period : task.periodTicks ≤ maxTimeInterval
  deadline : task.relativeDeadlineTicks ≤ maxTimeInterval

lemma osSchedConfigValid_iff {config : TaskTimingConfig} :
    osSchedConfigValid config = true ↔ config.relativeDeadlineTicks ≠ 0 ∧
      config.periodTicks ≤ maxTimeInterval ∧ config.executionBudgetTicks ≤ maxTimeInterval ∧
      config.initialReleaseDelayTicks + config.relativeDeadlineTicks ≤ maxTimeInterval ∧
      match config.kind with
      | .oneShot => config.periodTicks = 0
      | .periodic =>
        config.periodTicks ≠ 0 ∧ config.relativeDeadlineTicks ≤ config.periodTicks := by
  unfold osSchedConfigValid osTickIntervalValid
  simp only [Bool.not_eq_true', decide_eq_false_iff_not, not_le]
  split
  · simp only [Bool.false_eq_true, false_iff]
    omega
  · cases config.kind <;> simp <;> omega

/-- A sum whose guard has passed does not wrap. -/
lemma u64_add {a b : ℕ} (hb : b ≤ maxTimeInterval) (hguard : ¬a > uint64Max - b) :
    u64 (a + b) = a + b := by
  refine u64_of_le ?_
  unfold maxTimeInterval int32Max at hb
  unfold uint64Max at hguard ⊢
  omega

lemma activateJob64_eq {task : SchedTask} (hn : Narrow task) :
    activateJob64 task = activateJob task := by
  unfold activateJob64 activateJob
  split
  · rfl
  split
  · rfl
  next hguard =>
  simp only [not_or, not_and] at hguard
  rw [u64_add hn.deadline hguard.1]
  cases hk : task.kind with
  | oneShot => simp only [reduceCtorEq, if_false]
  | periodic =>
    rw [if_pos rfl, u64_add hn.period (hguard.2 hk)]

lemma osSchedTaskConfigure64_eq (task : SchedTask) (config : TaskTimingConfig) (now : ℕ) :
    osSchedTaskConfigure64 task config now = osSchedTaskConfigure task config now := by
  unfold osSchedTaskConfigure64 osSchedTaskConfigure
  by_cases hvalid : osSchedConfigValid config = true
  · obtain ⟨-, hperiod, -, hdelay, -⟩ := osSchedConfigValid_iff.mp hvalid
    by_cases hguard : now > uint64Max - config.initialReleaseDelayTicks
    · rw [if_pos (by tauto), if_pos (by tauto)]
    · have hsum : u64 (now + config.initialReleaseDelayTicks) =
          now + config.initialReleaseDelayTicks := u64_add (by omega) hguard
      have hactivate : ∀ t : SchedTask, t.periodTicks = config.periodTicks →
          t.relativeDeadlineTicks = config.relativeDeadlineTicks →
          activateJob64 t = activateJob t :=
        fun t hp hd => activateJob64_eq ⟨by omega, by omega⟩
      simp only [hsum]
      split
      · rfl
      split
      · rfl
      split
      · exact hactivate _ rfl rfl
      · rfl
  · rw [if_pos (by simp [hvalid]), if_pos (by simp [hvalid])]

/-- **The machine's sums are the exact ones** on a record with narrow intervals. -/
lemma run64_eq {task : SchedTask} (hn : Narrow task) (op : Op) (now : ℕ) :
    op.run64 task now = op.run task now := by
  cases op with
  | configure config => exact osSchedTaskConfigure64_eq task config now
  | releaseDue =>
    simp only [Op.run64, Op.run]
    unfold osSchedReleaseDue64 osSchedReleaseDue
    split
    · rfl
    · exact activateJob64_eq ⟨hn.period, hn.deadline⟩
  | sleep sleepTicks =>
    simp only [Op.run64, Op.run]
    unfold osSchedSleep64 osSchedSleep
    split
    · rfl
    next hguard =>
    simp only [not_or, osTickIntervalValid, Bool.not_eq_true', decide_eq_false_iff_not,
      not_not] at hguard
    rw [u64_add hguard.2.2.2.1 hguard.2.2.2.2]
  | recordActiveRelease =>
    simp only [Op.run64, Op.run]
    unfold osSchedRecordActiveRelease64 osSchedRecordActiveRelease
    split
    · rfl
    split
    · rfl
    next hguard =>
    rw [u64_add hn.period (not_or.mp hguard).2]
  | wakeDue => rfl
  | waitNextPeriod => rfl
  | completeJob => rfl
  | dispatch => rfl
  | preempt => rfl

/-! ### What each call does -/

/-- What is known of a record and its plan. -/
structure Recorded (p : Plan) (task : SchedTask) : Prop where
  valid : osSchedConfigValid p.config = true
  kind : task.kind = p.config.kind
  period : task.periodTicks = p.config.periodTicks
  relative : task.relativeDeadlineTicks = p.config.relativeDeadlineTicks
  sums : SumsExact p task
  first : p.start + p.config.relativeDeadlineTicks ≤ uint64Max ∧
    p.start + p.config.periodTicks ≤ uint64Max
  configured : task.state ≠ .dormant
  waiting : task.state = .waitingRelease →
    task.jobActive = false ∧ (task.kind = .oneShot → p.releases = 0)
  started : task.state ≠ .waitingRelease → p.releases ≠ 0

lemma narrow_of_valid {config : TaskTimingConfig} (hvalid : osSchedConfigValid config = true) :
    config.periodTicks ≤ maxTimeInterval ∧ config.relativeDeadlineTicks ≤ maxTimeInterval := by
  obtain ⟨-, hperiod, -, hdelay, -⟩ := osSchedConfigValid_iff.mp hvalid
  omega

lemma Recorded.narrow {p : Plan} {task : SchedTask} (hr : Recorded p task) : Narrow task := by
  obtain ⟨hperiod, hdeadline⟩ := narrow_of_valid hr.valid
  exact ⟨by rw [hr.period]; exact hperiod, by rw [hr.relative]; exact hdeadline⟩

/-- A one-shot has no period, a periodic task has one. -/
lemma period_eq_zero_iff {config : TaskTimingConfig} (hvalid : osSchedConfigValid config = true) :
    config.periodTicks = 0 ↔ config.kind = .oneShot := by
  obtain ⟨-, -, -, -, hkind⟩ := osSchedConfigValid_iff.mp hvalid
  cases hk : config.kind with
  | oneShot => rw [hk] at hkind; simpa using hkind
  | periodic => rw [hk] at hkind; simpa using hkind.1

/-- The record of a job that has just been released. -/
def activated (task : SchedTask) : SchedTask :=
  let nextReleaseOrder := if task.kind = .periodic then task.releaseOrder + task.periodTicks else 0
  { task with
    absoluteDeadlineOrder := task.releaseOrder + task.relativeDeadlineTicks
    absoluteDeadlineTick := u32 (task.releaseOrder + task.relativeDeadlineTicks)
    jobExecutionTicks := 0
    deadlineMissLatched := false
    jobActive := true
    jobSequence := incrementSaturating task.jobSequence
    nextReleaseOrder := nextReleaseOrder
    nextReleaseTick := u32 nextReleaseOrder
    state := .ready }

/-- **`activate_job`** on a waiting record: both sums fit, or nothing but the flag changes. -/
lemma activateJob_eq (task : SchedTask) (hstate : task.state = .waitingRelease)
    (hactive : task.jobActive = false) (hnarrow : Narrow task)
    (hone : task.kind = .oneShot → task.periodTicks = 0) (hfit : task.releaseOrder ≤ uint64Max) :
    activateJob task =
      if task.releaseOrder + task.relativeDeadlineTicks ≤ uint64Max ∧
          task.releaseOrder + task.periodTicks ≤ uint64Max then (activated task, true)
      else ({ task with timeRangeExhausted := true }, false) := by
  have hp := hnarrow.period
  have hd := hnarrow.deadline
  unfold maxTimeInterval int32Max at hp hd
  unfold activateJob
  rw [if_neg (by simp [hstate, hactive])]
  by_cases hsums : task.releaseOrder + task.relativeDeadlineTicks ≤ uint64Max ∧
      task.releaseOrder + task.periodTicks ≤ uint64Max
  · rw [if_pos hsums, if_neg]
    · unfold activated
      cases hk : task.kind <;> simp
    · rintro (hover | ⟨-, hover⟩)
      · unfold uint64Max at hover hsums
        omega
      · unfold uint64Max at hover hsums
        omega
  · rw [if_neg hsums, if_pos]
    rw [not_and_or, not_le, not_le] at hsums
    rcases hsums with hover | hover
    · left
      unfold uint64Max at hover ⊢
      omega
    · right
      cases hk : task.kind with
      | oneShot =>
        have := hone hk
        omega
      | periodic =>
        refine ⟨rfl, ?_⟩
        unfold uint64Max at hover ⊢
        omega

lemma Recorded.one_shot {p : Plan} {task : SchedTask} (hr : Recorded p task)
    (hk : task.kind = .oneShot) : task.periodTicks = 0 := by
  rw [hr.period]
  exact (period_eq_zero_iff hr.valid).mpr (hr.kind ▸ hk)

/-- The record whose release has come up. -/
def released (task : SchedTask) : SchedTask :=
  { task with releaseOrder := task.nextReleaseOrder, releaseTick := task.nextReleaseTick }

lemma releaseDue_eq {p : Plan} {task : SchedTask} (hr : Recorded p task) (now : ℕ) :
    osSchedReleaseDue task now =
      if Op.releaseDue.Applies task now then
        if Op.releaseDue.Fits task now then (activated (released task), true)
        else ({ released task with timeRangeExhausted := true }, false)
      else (task, false) := by
  have hguard : (task.state ≠ .waitingRelease ∨ task.jobActive = true ∨
      (!osTickReached now task.nextReleaseOrder) = true) ↔
      ¬Op.releaseDue.Applies task now := by
    simp only [Op.Applies, osTickReached, osTickBefore, Bool.not_not, decide_eq_true_eq, not_and_or,
      Bool.not_eq_false, not_le]
  rw [osSchedReleaseDue]
  by_cases happ : Op.releaseDue.Applies task now
  · obtain ⟨hstate, hactive, -⟩ := id happ
    have hactivate := activateJob_eq (released task) hstate hactive
      ⟨hr.narrow.period, hr.narrow.deadline⟩ hr.one_shot hr.sums.fit.2.1
    have hfits : Op.releaseDue.Fits task now ↔
        (released task).releaseOrder + (released task).relativeDeadlineTicks ≤ uint64Max ∧
          (released task).releaseOrder + (released task).periodTicks ≤ uint64Max := by
      simp only [Op.Fits, Op.sums, List.forall_mem_cons, List.not_mem_nil, false_imp_iff,
        implies_true, and_true]
      rfl
    rw [if_neg fun hbad => hguard.mp hbad happ, if_pos happ]
    refine hactivate.trans ?_
    exact if_congr hfits.symm rfl rfl
  · rw [if_pos (hguard.mpr happ), if_neg happ]

lemma sleep_eq (task : SchedTask) (now sleepTicks : ℕ) :
    osSchedSleep task now sleepTicks =
      if (Op.sleep sleepTicks).Applies task now ∧ (Op.sleep sleepTicks).Fits task now then
        ({ task with
            wakeOrder := now + sleepTicks
            wakeTick := u32 (now + sleepTicks)
            state := .sleeping }, true)
      else (task, false) := by
  have hiff : (Op.sleep sleepTicks).Applies task now ∧ (Op.sleep sleepTicks).Fits task now ↔
      ¬(task.state ≠ .running ∨ (!task.jobActive) = true ∨ sleepTicks = 0 ∨
        (!osTickIntervalValid sleepTicks) = true ∨ now > uint64Max - sleepTicks) := by
    simp only [Op.Applies, Op.Fits, Op.sums, List.forall_mem_cons, List.not_mem_nil, false_imp_iff,
      implies_true, and_true, osTickIntervalValid, Bool.not_eq_true', decide_eq_false_iff_not,
      not_or, not_not, Bool.not_eq_false]
    constructor
    · rintro ⟨⟨hstate, hactive, hzero, hint⟩, hfit⟩
      exact ⟨hstate, hactive, hzero, hint, by omega⟩
    · rintro ⟨hstate, hactive, hzero, hint, hfit⟩
      refine ⟨⟨hstate, hactive, hzero, hint⟩, ?_⟩
      unfold maxTimeInterval int32Max at hint
      unfold uint64Max at hfit ⊢
      omega
  rw [osSchedSleep]
  by_cases hok : (Op.sleep sleepTicks).Applies task now ∧ (Op.sleep sleepTicks).Fits task now
  · rw [if_neg (hiff.mp hok), if_pos hok]
  · rw [if_pos (not_not.mp fun hbad => hok (hiff.mpr hbad)), if_neg hok]

lemma recordActiveRelease_eq {p : Plan} {task : SchedTask} (hr : Recorded p task) (now : ℕ) :
    osSchedRecordActiveRelease task now =
      if Op.recordActiveRelease.Applies task now then
        if Op.recordActiveRelease.Fits task now then
          ({ task with
              missedReleaseCount := incrementSaturating task.missedReleaseCount
              nextReleaseOrder := task.nextReleaseOrder + task.periodTicks
              nextReleaseTick := u32 (task.nextReleaseOrder + task.periodTicks) }, true)
        else ({ task with timeRangeExhausted := true }, false)
      else (task, false) := by
  have hguard : (task.kind ≠ .periodic ∨ (!task.jobActive) = true ∨ task.state = .dormant ∨
      task.state = .exiting ∨ (!osTickReached now task.nextReleaseOrder) = true) ↔
      ¬Op.recordActiveRelease.Applies task now := by
    simp only [Op.Applies, osTickReached, osTickBefore, Bool.not_not, decide_eq_true_eq, not_and_or,
      Bool.not_eq_true', not_le, Bool.not_eq_true, ne_eq, not_not]
  rw [osSchedRecordActiveRelease]
  by_cases happ : Op.recordActiveRelease.Applies task now
  · rw [if_neg fun hbad => hguard.mp hbad happ, if_pos happ]
    have hperiod : task.periodTicks ≠ 0 := by
      rw [hr.period]
      intro hzero
      have hk := (period_eq_zero_iff hr.valid).mp hzero
      have hp : task.kind = .periodic := happ.1
      rw [hr.kind, hk] at hp
      cases hp
    have hfits : Op.recordActiveRelease.Fits task now ↔
        ¬(task.periodTicks = 0 ∨ task.nextReleaseOrder > uint64Max - task.periodTicks) := by
      have hnarrow := hr.narrow.period
      have hnext := hr.sums.fit.2.1
      simp only [Op.Fits, Op.sums, List.forall_mem_cons, List.not_mem_nil, false_imp_iff,
        implies_true, and_true, hperiod, false_or]
      unfold maxTimeInterval int32Max at hnarrow
      unfold uint64Max at hnext ⊢
      omega
    by_cases hfit : Op.recordActiveRelease.Fits task now
    · rw [if_neg (hfits.mp hfit), if_pos hfit]
    · rw [if_pos (not_not.mp fun hbad => hfit (hfits.mpr hbad)), if_neg hfit]
  · rw [if_pos (hguard.mpr happ), if_neg happ]

/-- The record that has been given its configuration. -/
def waitingRecord (id : ℕ) (config : TaskTimingConfig) (now : ℕ) : SchedTask :=
  { osSchedTaskReset id with
    kind := config.kind
    releaseOrder := now + config.initialReleaseDelayTicks
    releaseTick := u32 (now + config.initialReleaseDelayTicks)
    nextReleaseOrder := now + config.initialReleaseDelayTicks
    nextReleaseTick := u32 (now + config.initialReleaseDelayTicks)
    periodTicks := config.periodTicks
    relativeDeadlineTicks := config.relativeDeadlineTicks
    executionBudgetTicks := config.executionBudgetTicks
    priority := config.priority.toNat
    state := .waitingRelease }

/-- What configuring a record in reset form gives. -/
def configuredRecord (id : ℕ) (config : TaskTimingConfig) (now : ℕ) : SchedTask :=
  if config.initialReleaseDelayTicks = 0 then activated (waitingRecord id config now)
  else waitingRecord id config now

/-- **`os_sched_task_configure`** on a record in reset form: all sums fit, or it stays so. -/
lemma configure_eq (id : ℕ) (config : TaskTimingConfig) (now : ℕ) :
    osSchedTaskConfigure (osSchedTaskReset id) config now =
      if (Op.configure config).Applies (osSchedTaskReset id) now ∧
          (Op.configure config).Fits (osSchedTaskReset id) now then
        (configuredRecord id config now, true)
      else (osSchedTaskReset id, false) := by
  have happlies : (Op.configure config).Applies (osSchedTaskReset id) now ↔
      osSchedConfigValid config = true := by simp [Op.Applies, osSchedTaskReset]
  by_cases hvalid : osSchedConfigValid config = true
  · obtain ⟨hperiod, hdeadline⟩ := narrow_of_valid hvalid
    obtain ⟨-, -, -, hdelay, -⟩ := osSchedConfigValid_iff.mp hvalid
    have hfits : (Op.configure config).Fits (osSchedTaskReset id) now ↔
        now + config.initialReleaseDelayTicks + config.relativeDeadlineTicks ≤ uint64Max ∧
          now + config.initialReleaseDelayTicks + config.periodTicks ≤ uint64Max := by
      simp only [Op.Fits, Op.sums, List.forall_mem_cons, List.not_mem_nil, false_imp_iff,
        implies_true, and_true, and_iff_right_iff_imp]
      omega
    have hzero := period_eq_zero_iff hvalid
    unfold maxTimeInterval int32Max at hperiod hdeadline hdelay
    by_cases hfit : (Op.configure config).Fits (osSchedTaskReset id) now
    · obtain ⟨hd, hp⟩ := hfits.mp hfit
      have hfirst : ¬((osSchedTaskReset id).state ≠ .dormant ∨ (!osSchedConfigValid config) = true ∨
          now > uint64Max - config.initialReleaseDelayTicks ∨
          now + config.initialReleaseDelayTicks > uint64Max - config.relativeDeadlineTicks) := by
        simp only [osSchedTaskReset, hvalid, not_or, not_not, Bool.not_true, Bool.false_eq_true,
          not_false_eq_true, true_and]
        unfold uint64Max at hd ⊢
        omega
      have hsecond : ¬(config.kind = .periodic ∧
          now + config.initialReleaseDelayTicks > uint64Max - config.periodTicks) := by
        rintro ⟨-, hover⟩
        unfold uint64Max at hp hover
        omega
      rw [if_pos ⟨happlies.mpr hvalid, hfit⟩, osSchedTaskConfigure, if_neg hfirst]
      simp only [if_neg hsecond]
      by_cases hnow : config.initialReleaseDelayTicks = 0
      · have hactivate := activateJob_eq (waitingRecord id config now) rfl rfl
          ⟨by unfold maxTimeInterval int32Max; exact hperiod,
            by unfold maxTimeInterval int32Max; exact hdeadline⟩ hzero.mpr (by
            simp only [waitingRecord]
            omega)
        rw [if_pos ⟨hd, hp⟩] at hactivate
        rw [if_pos hnow, configuredRecord, if_pos hnow]
        exact hactivate
      · rw [if_neg hnow, configuredRecord, if_neg hnow]
        rfl
    · -- one of the two guards refuses, and the reset changes nothing
      rw [if_neg fun hok => hfit hok.2, osSchedTaskConfigure]
      split
      · rfl
      next hfirst =>
      simp only [not_or, not_lt] at hfirst
      have hperiodic : config.kind = .periodic ∧
          now + config.initialReleaseDelayTicks > uint64Max - config.periodTicks := by
        have hover : ¬(now + config.initialReleaseDelayTicks + config.periodTicks ≤ uint64Max) := by
          intro hp
          refine hfit (hfits.mpr ⟨?_, hp⟩)
          unfold uint64Max at hfirst ⊢
          omega
        cases hk : config.kind with
        | oneShot =>
          have := hzero.mpr hk
          unfold uint64Max at hfirst hover
          omega
        | periodic =>
          refine ⟨rfl, ?_⟩
          unfold uint64Max at hover ⊢
          omega
      simp only [if_pos hperiodic]
      rfl
  · rw [if_neg fun hok => hvalid (happlies.mp hok.1), osSchedTaskConfigure,
      if_pos (Or.inr (Or.inl (by simp [hvalid])))]

/-! ### Whole runs -/

/-- A change that leaves the orders, the intervals and the state's side of the plan alone. -/
lemma Recorded.keep {p : Plan} {task task' : SchedTask} (hr : Recorded p task)
    (hsame : task'.releaseOrder = task.releaseOrder ∧ task'.nextReleaseOrder = task.nextReleaseOrder ∧
      task'.absoluteDeadlineOrder = task.absoluteDeadlineOrder ∧ task'.wakeOrder = task.wakeOrder ∧
      task'.kind = task.kind ∧ task'.periodTicks = task.periodTicks ∧
      task'.relativeDeadlineTicks = task.relativeDeadlineTicks)
    (hconf : task'.state ≠ .dormant)
    (hwait : task'.state = .waitingRelease →
      task'.jobActive = false ∧ (task'.kind = .oneShot → p.releases = 0))
    (hstart : task'.state ≠ .waitingRelease → p.releases ≠ 0) : Recorded p task' := by
  obtain ⟨h1, h2, h3, h4, h5, h6, h7⟩ := hsame
  obtain ⟨hrel, hnext, hdead, hwake, hfit⟩ := hr.sums
  refine ⟨hr.valid, h5.trans hr.kind, h6.trans hr.period, h7.trans hr.relative,
    ⟨h1.trans hrel, h2.trans hnext, h3.trans hdead, h4.trans hwake, ?_⟩, hr.first, hconf, hwait,
    hstart⟩
  rw [h1, h2, h3, h4]
  exact hfit

/-- The next release of a record that waits, or of a periodic one, is counted from the first. -/
lemma Recorded.next_eq {p : Plan} {task : SchedTask} (hr : Recorded p task)
    (hk : task.kind = .periodic ∨ p.releases = 0) :
    task.nextReleaseOrder = p.release p.releases := by
  rw [hr.sums.next, Plan.next, if_pos (hr.kind ▸ hk)]

lemma release_succ (p : Plan) (k : ℕ) :
    p.release (k + 1) = p.release k + p.config.periodTicks := by
  unfold Plan.release
  rw [Nat.succ_mul]
  omega

/-- A record whose job has just been released, when both sums fit. -/
lemma recorded_activated {p : Plan} {task : SchedTask} (hvalid : osSchedConfigValid p.config = true)
    (hkind : task.kind = p.config.kind) (hperiod : task.periodTicks = p.config.periodTicks)
    (hrelative : task.relativeDeadlineTicks = p.config.relativeDeadlineTicks)
    (hrel : task.releaseOrder = p.release p.index) (hwake : task.wakeOrder = p.wake)
    (hfit : task.wakeOrder ≤ uint64Max)
    (hfirst : p.start + p.config.relativeDeadlineTicks ≤ uint64Max ∧
      p.start + p.config.periodTicks ≤ uint64Max)
    (hjob : p.job = p.index) (hcount : p.releases = p.index + 1)
    (hsums : task.releaseOrder + task.relativeDeadlineTicks ≤ uint64Max ∧
      task.releaseOrder + task.periodTicks ≤ uint64Max) : Recorded p (activated task) := by
  have hnz : p.releases ≠ 0 := by omega
  have hnext : (activated task).nextReleaseOrder = p.next := by
    simp only [activated, Plan.next, hnz, or_false, hkind]
    by_cases hk : p.config.kind = .periodic
    · rw [if_pos hk, if_pos hk, hcount, release_succ, hrel, hperiod]
    · rw [if_neg hk, if_neg hk]
  refine ⟨hvalid, hkind, hperiod, hrelative, ⟨hrel, hnext, ?_, hwake, ?_⟩, hfirst, by simp [activated],
    by simp [activated], fun _ => hnz⟩
  · simp only [activated, Plan.deadline, if_neg hnz, hjob]
    rw [hrel, hrelative]
  · refine ⟨by simp only [activated]; omega, ?_, hsums.1, hfit⟩
    simp only [activated]
    split <;> omega

lemma Recorded.releaseDue {p : Plan} {task : SchedTask} (hr : Recorded p task) (now : ℕ) :
    Recorded (p.after .releaseDue task now) (osSchedReleaseDue task now).1 := by
  rw [releaseDue_eq hr]
  simp only [Plan.after]
  by_cases happ : Op.releaseDue.Applies task now
  · rw [if_pos happ, if_neg (not_not.mpr happ)]
    have hnext : task.nextReleaseOrder = p.release p.releases := by
      refine hr.next_eq ?_
      cases hk : task.kind with
      | periodic => exact Or.inl rfl
      | oneShot => exact Or.inr ((hr.waiting happ.1).2 hk)
    by_cases hfit : Op.releaseDue.Fits task now
    · rw [if_pos hfit, if_pos hfit]
      refine recorded_activated hr.valid hr.kind hr.period hr.relative hnext hr.sums.wake
        hr.sums.fit.2.2.2 hr.first rfl rfl ⟨hfit _ (by simp [Op.sums, released]),
          hfit _ (by simp [Op.sums, released])⟩
    · rw [if_neg hfit, if_neg hfit]
      obtain ⟨hrel, hnext', hdead, hwake, hfits⟩ := hr.sums
      exact ⟨hr.valid, hr.kind, hr.period, hr.relative,
        ⟨hnext, hnext', hdead, hwake, hfits.2.1, hfits.2.1, hfits.2.2.1, hfits.2.2.2⟩, hr.first,
        hr.configured, hr.waiting, hr.started⟩
  · rw [if_neg happ, if_pos happ]
    exact hr

lemma Recorded.sleep {p : Plan} {task : SchedTask} (hr : Recorded p task) (now sleepTicks : ℕ) :
    Recorded (p.after (.sleep sleepTicks) task now) (osSchedSleep task now sleepTicks).1 := by
  rw [sleep_eq]
  simp only [Plan.after]
  by_cases hok : (Op.sleep sleepTicks).Applies task now ∧ (Op.sleep sleepTicks).Fits task now
  · rw [if_pos hok, if_pos hok]
    obtain ⟨hrel, hnext, hdead, hwake, hfits⟩ := hr.sums
    have hrunning : task.state ≠ .waitingRelease := by rw [hok.1.1]; decide
    exact ⟨hr.valid, hr.kind, hr.period, hr.relative,
      ⟨hrel, hnext, hdead, rfl, hfits.1, hfits.2.1, hfits.2.2.1, hok.2 _ (by simp [Op.sums])⟩,
      hr.first, by simp, by simp, fun _ => hr.started hrunning⟩
  · rw [if_neg hok, if_neg hok]
    exact hr

lemma Recorded.recordActiveRelease {p : Plan} {task : SchedTask} (hr : Recorded p task) (now : ℕ) :
    Recorded (p.after .recordActiveRelease task now) (osSchedRecordActiveRelease task now).1 := by
  rw [recordActiveRelease_eq hr]
  simp only [Plan.after]
  by_cases happ : Op.recordActiveRelease.Applies task now
  · rw [if_pos happ]
    by_cases hfit : Op.recordActiveRelease.Fits task now
    · rw [if_pos hfit, if_pos ⟨happ, hfit⟩]
      obtain ⟨hrel, hnext, hdead, hwake, hfits⟩ := hr.sums
      have hactive : task.jobActive = true := happ.2.1
      have hperiodic : task.kind = .periodic := happ.1
      have hstate : task.state ≠ .waitingRelease := fun hw => by
        rw [(hr.waiting hw).1] at hactive
        cases hactive
      have hnz := hr.started hstate
      refine ⟨hr.valid, hr.kind, hr.period, hr.relative, ⟨hrel, ?_, ?_, hwake, hfits.1,
        hfit _ (by simp [Op.sums]), hfits.2.2.1, hfits.2.2.2⟩, hr.first, hr.configured,
        fun hw => absurd hw hstate, fun _ => Nat.succ_ne_zero _⟩
      · simp only [Plan.next]
        rw [if_pos (Or.inl (hr.kind ▸ hperiodic)), hr.next_eq (Or.inl hperiodic), hr.period]
        exact (release_succ p p.releases).symm
      · rw [hdead, Plan.deadline, Plan.deadline, if_neg hnz, if_neg (Nat.succ_ne_zero _)]
        rfl
    · rw [if_neg hfit, if_neg fun hok => hfit hok.2]
      exact hr.keep ⟨rfl, rfl, rfl, rfl, rfl, rfl, rfl⟩ hr.configured hr.waiting hr.started
  · rw [if_neg happ, if_neg fun hok => happ hok.1]
    exact hr

lemma Recorded.completeJob {p : Plan} {task : SchedTask} (hr : Recorded p task) (now : ℕ) :
    Recorded p (osSchedCompleteJob task now).1 ∧
      ((osSchedCompleteJob task now).2 = true → task.state = .running ∧
        (osSchedCompleteJob task now).1.jobActive = false) := by
  rw [osSchedCompleteJob]
  split
  · exact ⟨hr, fun hfalse => by cases hfalse⟩
  next hguard =>
  simp only [not_or, not_not] at hguard
  have hrunning : task.state ≠ .waitingRelease := by rw [hguard.1]; decide
  refine ⟨?_, fun _ => ⟨hguard.1, rfl⟩⟩
  have hmiss : ∀ t : SchedTask, t = (osSchedRecordDeadlineMiss task now).1 →
      t.releaseOrder = task.releaseOrder ∧ t.nextReleaseOrder = task.nextReleaseOrder ∧
      t.absoluteDeadlineOrder = task.absoluteDeadlineOrder ∧ t.wakeOrder = task.wakeOrder ∧
      t.kind = task.kind ∧ t.periodTicks = task.periodTicks ∧
      t.relativeDeadlineTicks = task.relativeDeadlineTicks ∧ t.state = task.state := by
    rintro t rfl
    unfold osSchedRecordDeadlineMiss
    split <;> exact ⟨rfl, rfl, rfl, rfl, rfl, rfl, rfl, rfl⟩
  obtain ⟨h1, h2, h3, h4, h5, h6, h7, h8⟩ := hmiss _ rfl
  refine hr.keep ⟨h1, h2, h3, h4, h5, h6, h7⟩ ?_ (fun hw => ?_) fun _ => hr.started hrunning
  · rw [h8]
    exact hr.configured
  · exact absurd (h8.symm.trans hw) hrunning

lemma Recorded.waitNextPeriod {p : Plan} {task : SchedTask} (hr : Recorded p task) (now : ℕ) :
    Recorded p (osSchedWaitNextPeriod task now).1 := by
  obtain ⟨hc, hdone⟩ := hr.completeJob now
  rw [osSchedWaitNextPeriod]
  split
  · exact hr
  next hkind =>
  rw [not_not] at hkind
  rcases hrun : osSchedCompleteJob task now with ⟨t, ok⟩
  rw [hrun] at hc hdone
  cases ok with
  | false => exact hc
  | true =>
    obtain ⟨hstate, hactive⟩ := hdone rfl
    have hnz := hr.started (by rw [hstate]; decide)
    refine hc.keep ⟨rfl, rfl, rfl, rfl, rfl, rfl, rfl⟩ (by simp) (fun _ => ⟨hactive, fun hone => ?_⟩)
      fun hw => absurd rfl hw
    have hk : t.kind = task.kind := hc.kind.trans hr.kind.symm
    have hone' : t.kind = .oneShot := hone
    rw [hk, hkind] at hone'
    cases hone'

lemma Recorded.transition {p : Plan} {task : SchedTask} (hr : Recorded p task)
    {expected next : TaskState} (hexp : expected ≠ .waitingRelease)
    (hnext : next ≠ .waitingRelease ∧ next ≠ .dormant) :
    Recorded p (osSchedTransition task expected next).1 := by
  rw [osSchedTransition]
  split
  · exact hr
  next hguard =>
  simp only [not_or, not_not] at hguard
  exact hr.keep ⟨rfl, rfl, rfl, rfl, rfl, rfl, rfl⟩ hnext.2 (fun hw => absurd hw hnext.1)
    fun _ => hr.started (by rw [hguard.1]; exact hexp)

/-- **One call** on a configured record. -/
lemma Recorded.call {p : Plan} {task : SchedTask} (hr : Recorded p task) (op : Op) (now : ℕ) :
    Recorded (p.after op task now) (op.run task now).1 := by
  cases op with
  | configure config =>
    have hstays : osSchedTaskConfigure task config now = (task, false) :=
      if_pos (Or.inl hr.configured)
    simp only [Op.run, Plan.after, hstays]
    exact hr
  | releaseDue => exact hr.releaseDue now
  | wakeDue =>
    simp only [Op.run, Plan.after, osSchedWakeDue]
    split
    · exact hr
    next hguard =>
    simp only [not_or, not_not] at hguard
    exact hr.keep ⟨rfl, rfl, rfl, rfl, rfl, rfl, rfl⟩ (by simp) (by simp)
      fun _ => hr.started (by rw [hguard.1]; decide)
  | sleep sleepTicks => exact hr.sleep now sleepTicks
  | waitNextPeriod => exact hr.waitNextPeriod now
  | completeJob => exact (hr.completeJob now).1
  | recordActiveRelease => exact hr.recordActiveRelease now
  | dispatch => exact hr.transition (by decide) (by decide)
  | preempt => exact hr.transition (by decide) (by decide)

lemma recorded_configured {id now : ℕ} {config : TaskTimingConfig} {p : Plan}
    (hplan : planAfter none (.configure config) (osSchedTaskReset id) now = some p) :
    Recorded p (osSchedTaskConfigure (osSchedTaskReset id) config now).1 := by
  rw [configure_eq]
  simp only [planAfter] at hplan
  split at hplan
  · next hok =>
    rw [if_pos hok]
    obtain ⟨⟨-, hvalid⟩, hfit⟩ := hok
    have hstart : now + config.initialReleaseDelayTicks ≤ uint64Max := hfit _ (by simp [Op.sums])
    have hdead : now + config.initialReleaseDelayTicks + config.relativeDeadlineTicks ≤ uint64Max :=
      hfit _ (by simp [Op.sums])
    have hper : now + config.initialReleaseDelayTicks + config.periodTicks ≤ uint64Max :=
      hfit _ (by simp [Op.sums])
    rw [Option.some.injEq] at hplan
    subst hplan
    rw [configuredRecord]
    by_cases hnow : config.initialReleaseDelayTicks = 0
    · rw [if_pos hnow, if_pos hnow]
      exact recorded_activated hvalid rfl rfl rfl (by simp [waitingRecord, Plan.release])
        rfl (Nat.zero_le _) ⟨hdead, hper⟩ rfl rfl ⟨hdead, hper⟩
    · rw [if_neg hnow, if_neg hnow]
      refine ⟨hvalid, rfl, rfl, rfl, ⟨?_, ?_, rfl, rfl, hstart, hstart, Nat.zero_le _,
        Nat.zero_le _⟩, ⟨hdead, hper⟩, by simp [waitingRecord], fun _ => ⟨rfl, fun _ => rfl⟩,
        fun hw => absurd rfl hw⟩
      · simp [waitingRecord, Plan.release]
      · simp [waitingRecord, Plan.next, Plan.release]
  · cases hplan

/-- A record in reset form has been configured or is in reset form still. -/
lemma reset_call (id : ℕ) (op : Op) (now : ℕ) :
    (planAfter none op (osSchedTaskReset id) now = none →
      (op.run (osSchedTaskReset id) now).1 = osSchedTaskReset id) ∧
    ∀ p, planAfter none op (osSchedTaskReset id) now = some p →
      Recorded p (op.run (osSchedTaskReset id) now).1 := by
  cases op with
  | configure config =>
    refine ⟨fun hnone => ?_, fun p hp => recorded_configured hp⟩
    simp only [planAfter] at hnone
    split at hnone
    · cases hnone
    · next hno =>
      simp only [Op.run]
      rw [configure_eq, if_neg hno]
  | releaseDue => exact ⟨fun _ => rfl, fun p hp => by cases hp⟩
  | wakeDue => exact ⟨fun _ => rfl, fun p hp => by cases hp⟩
  | sleep sleepTicks => exact ⟨fun _ => rfl, fun p hp => by cases hp⟩
  | waitNextPeriod => exact ⟨fun _ => rfl, fun p hp => by cases hp⟩
  | completeJob => exact ⟨fun _ => rfl, fun p hp => by cases hp⟩
  | recordActiveRelease => exact ⟨fun _ => rfl, fun p hp => by cases hp⟩
  | dispatch => exact ⟨fun _ => rfl, fun p hp => by cases hp⟩
  | preempt => exact ⟨fun _ => rfl, fun p hp => by cases hp⟩

lemma narrow_reset (id : ℕ) : Narrow (osSchedTaskReset id) := ⟨Nat.zero_le _, Nat.zero_le _⟩

/-- **Every run** leads to a record in reset form or to one that its plan describes. -/
lemma Run.inv {id last : ℕ} {plan : Option Plan} {task : SchedTask} (hr : Run id plan task last) :
    (plan = none → task = osSchedTaskReset id) ∧ ∀ p, plan = some p → Recorded p task := by
  induction hr with
  | reset => exact ⟨fun _ => rfl, fun p hp => by cases hp⟩
  | @call plan task last now op _ _ _ ih =>
    cases plan with
    | none =>
      rw [ih.1 rfl, run64_eq (narrow_reset id)]
      exact reset_call id op now
    | some p =>
      have hrec := ih.2 p rfl
      rw [run64_eq hrec.narrow]
      refine ⟨(fun hnone => by cases hnone), fun q hq => ?_⟩
      rw [planAfter, Option.some.injEq] at hq
      rw [← hq]
      exact hrec.call op now

/-- A call that refuses a sum: it says so, and the job, the state and the deadline are as they
were. -/
structure Refused (op : Op) (task : SchedTask) (result : SchedTask × Bool) : Prop where
  flag : result.2 = false
  job : result.1.jobActive = task.jobActive
  state : result.1.state = task.state
  deadline : result.1.absoluteDeadlineOrder = task.absoluteDeadlineOrder
  exhausted : op.IsRelease → result.1.timeRangeExhausted = true

/-- A call that gets as far as its sums succeeds when they fit, and refuses when not. -/
lemma Recorded.outcome {p : Plan} {task : SchedTask} (hr : Recorded p task) {op : Op} {now : ℕ}
    (happ : op.Applies task now) :
    (op.Fits task now → (op.run task now).2 = true) ∧
      (¬op.Fits task now → Refused op task (op.run task now)) := by
  cases op with
  | configure config => exact absurd happ.1 hr.configured
  | releaseDue =>
    simp only [Op.run]
    rw [releaseDue_eq hr, if_pos happ]
    exact ⟨fun hfit => by rw [if_pos hfit],
      fun hfit => by rw [if_neg hfit]; exact ⟨rfl, rfl, rfl, rfl, fun _ => rfl⟩⟩
  | sleep sleepTicks =>
    simp only [Op.run]
    rw [sleep_eq]
    exact ⟨fun hfit => by rw [if_pos ⟨happ, hfit⟩],
      fun hfit => by rw [if_neg fun hok => hfit hok.2]; exact ⟨rfl, rfl, rfl, rfl, False.elim⟩⟩
  | recordActiveRelease =>
    simp only [Op.run]
    rw [recordActiveRelease_eq hr, if_pos happ]
    exact ⟨fun hfit => by rw [if_pos hfit],
      fun hfit => by rw [if_neg hfit]; exact ⟨rfl, rfl, rfl, rfl, fun _ => rfl⟩⟩
  | wakeDue => exact happ.elim
  | waitNextPeriod => exact happ.elim
  | completeJob => exact happ.elim
  | dispatch => exact happ.elim
  | preempt => exact happ.elim

lemma reset_outcome {id now : ℕ} {op : Op} (happ : op.Applies (osSchedTaskReset id) now) :
    (op.Fits (osSchedTaskReset id) now → (op.run (osSchedTaskReset id) now).2 = true) ∧
      (¬op.Fits (osSchedTaskReset id) now →
        Refused op (osSchedTaskReset id) (op.run (osSchedTaskReset id) now)) := by
  cases op with
  | configure config =>
    simp only [Op.run]
    rw [configure_eq]
    exact ⟨fun hfit => by rw [if_pos ⟨happ, hfit⟩],
      fun hfit => by rw [if_neg fun hok => hfit hok.2]; exact ⟨rfl, rfl, rfl, rfl, False.elim⟩⟩
  | releaseDue => exact absurd happ.1 (by simp [osSchedTaskReset])
  | sleep sleepTicks => exact absurd happ.1 (by simp [osSchedTaskReset])
  | recordActiveRelease => exact absurd happ.1 (by simp [osSchedTaskReset])
  | wakeDue => exact happ.elim
  | waitNextPeriod => exact happ.elim
  | completeJob => exact happ.elim
  | dispatch => exact happ.elim
  | preempt => exact happ.elim

/-- **Scheduler time arithmetic never wraps**: in every run the stored orders are the exact sums
they stand for, and a call whose sums do not all fit 64 bits refuses. -/
theorem time_never_wraps {id last : ℕ} {plan : Option Plan} {task : SchedTask}
    (hr : Run id plan task last) :
    (plan = none → task = osSchedTaskReset id) ∧
      (∀ p, plan = some p → SumsExact p task ∧
        (task.kind = .oneShot → task.jobActive = true → task.nextReleaseOrder = 0)) ∧
      ∀ (op : Op) (now : ℕ), last ≤ now → now ≤ uint64Max → op.Applies task now →
        (op.Fits task now → (op.run64 task now).2 = true) ∧
          (¬op.Fits task now → Refused op task (op.run64 task now)) := by
  obtain ⟨hreset, hrecorded⟩ := hr.inv
  refine ⟨hreset, fun p hp => ?_, fun op now _ _ happ => ?_⟩
  · have hrec := hrecorded p hp
    refine ⟨hrec.sums, fun hone hactive => ?_⟩
    have hstate : task.state ≠ .waitingRelease := fun hw => by
      rw [(hrec.waiting hw).1] at hactive
      cases hactive
    rw [hrec.sums.next, Plan.next, if_neg]
    rintro (hk | hzero)
    · rw [hrec.kind, hk] at hone
      cases hone
    · exact hrec.started hstate hzero
  · cases plan with
    | none =>
      rw [hreset rfl] at happ ⊢
      rw [run64_eq (narrow_reset id)]
      exact reset_outcome happ
    | some p =>
      have hrec := hrecorded p rfl
      rw [run64_eq hrec.narrow]
      exact hrec.outcome happ

/-- A periodic task configured so late that its third release has no order. -/
def lateConfig : TaskTimingConfig :=
  { kind := .periodic
    initialReleaseDelayTicks := 0
    periodTicks := 10
    relativeDeadlineTicks := 5
    executionBudgetTicks := 1
    priority := 0 }

theorem time_never_wraps_late : ∃ (plan : Option Plan) (task : SchedTask),
    Run 1 plan task (uint64Max - 12) ∧ task.nextReleaseOrder = uint64Max - 2 ∧
      Refused .recordActiveRelease task (Op.recordActiveRelease.run64 task uint64Max) := by
  have hrun := Run.call (.configure lateConfig) (@Run.reset 1) (Nat.zero_le (uint64Max - 12))
    (by decide)
  refine ⟨_, _, hrun, by decide, ?_⟩
  have hlate := (time_never_wraps hrun).2.2 .recordActiveRelease uint64Max (by decide) le_rfl
    (by decide)
  exact hlate.2 (by decide)

end Aymos.TimeRange
