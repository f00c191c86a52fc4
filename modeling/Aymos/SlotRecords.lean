import Aymos.Creation
import Aymos.Script
import Aymos.SlotSteps

/-!
What the record of a slot says of itself.

The operations of the scheduler each change a few fields of a record, and the kernel's handlers
change its state besides. `Coherent` is what relates the fields whatever the state: every
operation keeps it, also one that refuses. With the invariants of the control and of the task
table it makes up `RecordInv`, which holds of every slot between the steps of the machine.
-/

namespace Aymos.SlotRecords

open Words Allocator Scheduler Trace WordMem Kernel Machine Handlers Frames Services Switch Slots
  Control Boot Ownership EmissionLog Safety Startup Scenario Script Creation SlotSteps

/-- `tick` is the low half of the 64-bit `order`. -/
structure LowHalf (order tick : ℕ) : Prop where
  order_le : order ≤ uint64Max
  tick_eq : tick = u32 order

lemma lowHalf_u32 {order : ℕ} (h : order ≤ uint64Max) : LowHalf order (u32 order) := ⟨h, rfl⟩

/-- **The fields of a record agree.** -/
structure Coherent (t : SchedTask) : Prop where
  period_le : t.periodTicks ≤ maxTimeInterval
  relativeDeadline_le : t.relativeDeadlineTicks ≤ maxTimeInterval
  release : LowHalf t.releaseOrder t.releaseTick
  nextRelease : LowHalf t.nextReleaseOrder t.nextReleaseTick
  wake : LowHalf t.wakeOrder t.wakeTick
  deadline : LowHalf t.absoluteDeadlineOrder t.absoluteDeadlineTick
  execution : t.jobExecutionTicks ≤ t.totalExecutionTicks
  /-- The job under way has been counted as started, not yet as completed. -/
  sequence : t.jobSequence =
    if t.jobActive then incrementSaturating t.completedJobCount else t.completedJobCount

variable {i now : ℕ} {t t' : SchedTask}

/-! ### Updates -/

lemma incrementSaturating_le_of_le {m n : ℕ} (h : m ≤ n) :
    incrementSaturating m ≤ incrementSaturating n := by
  unfold incrementSaturating
  split <;> split <;> omega

/-- Two 32-bit intervals after a 64-bit order. -/
lemma order_fits {order interval : ℕ} (hi : interval ≤ maxTimeInterval)
    (h : ¬order > uint64Max - interval) : order + interval ≤ uint64Max := by
  unfold maxTimeInterval int32Max at hi
  unfold uint64Max at h ⊢
  omega

lemma coherent_reset (id : ℕ) : Coherent (osSchedTaskReset id) where
  period_le := Nat.zero_le _
  relativeDeadline_le := Nat.zero_le _
  release := lowHalf_u32 (Nat.zero_le _)
  nextRelease := lowHalf_u32 (Nat.zero_le _)
  wake := lowHalf_u32 (Nat.zero_le _)
  deadline := lowHalf_u32 (Nat.zero_le _)
  execution := Nat.le_refl _
  sequence := rfl

lemma Coherent.inState (h : Coherent t) (s : TaskState) : Coherent (inState t s) := { h with }

lemma Coherent.latchMiss (h : Coherent t) : Coherent (latchMiss t) := { h with }

lemma Coherent.exhaust (h : Coherent t) : Coherent (exhaust t) := { h with }

lemma Coherent.redate (h : Coherent t) : Coherent (redate t) := { h with release := h.nextRelease }

lemma Coherent.charge (h : Coherent t) : Coherent (charge t) :=
  { h with execution := incrementSaturating_le_of_le h.execution }

lemma Coherent.skipRelease (h : Coherent t)
    (hfit : ¬t.nextReleaseOrder > uint64Max - t.periodTicks) : Coherent (skipRelease t) :=
  { h with nextRelease := lowHalf_u32 (order_fits h.period_le hfit) }

lemma Coherent.sleepUntil (h : Coherent t) {order : ℕ} (hle : order ≤ uint64Max) :
    Coherent (sleepUntil t order) := { h with wake := lowHalf_u32 hle }

/-- A job starts in a record without one. -/
lemma Coherent.startJob (h : Coherent t) (ha : t.jobActive = false) (hfit : ¬JobExhausts t) :
    Coherent (startJob t) := by
  obtain ⟨hdeadline, hperiod⟩ := not_or.mp hfit
  have hnext : followingRelease t ≤ uint64Max := by
    rw [followingRelease]
    split
    · next hk => exact order_fits h.period_le fun hgt => hperiod ⟨hk, hgt⟩
    · exact Nat.zero_le _
  have hseq := h.sequence
  rw [ha] at hseq
  exact
    { h with
      nextRelease := lowHalf_u32 hnext
      deadline := lowHalf_u32 (order_fits h.relativeDeadline_le hdeadline)
      execution := Nat.zero_le _
      sequence := congrArg incrementSaturating hseq }

/-- The job of a record completes. -/
lemma Coherent.finishJob (h : Coherent t) (ha : t.jobActive = true) : Coherent (finishJob t) := by
  have hseq := h.sequence
  rw [ha] at hseq
  exact { h with sequence := hseq }

/-! ### Operations -/

lemma Coherent.activateJob (h : Coherent t) : Coherent (activateJob t).1 := by
  rw [activateJob_eq]
  split
  · next hw =>
    split
    · exact h.exhaust
    · next hfit => exact h.startJob hw.2 hfit
  · exact h

lemma Coherent.accountRunningTick (h : Coherent t) : Coherent (osSchedAccountRunningTick t) := by
  rw [osSchedAccountRunningTick_eq]
  split
  · exact h.charge
  · exact h

lemma Coherent.recordDeadlineMiss (h : Coherent t) (now : ℕ) :
    Coherent (osSchedRecordDeadlineMiss t now).1 := by
  rw [osSchedRecordDeadlineMiss_eq]
  split
  · exact h.latchMiss
  · exact h

lemma Coherent.recordActiveRelease (h : Coherent t) (now : ℕ) :
    Coherent (osSchedRecordActiveRelease t now).1 := by
  rw [osSchedRecordActiveRelease_eq]
  split
  · split
    · exact h.exhaust
    · next hfit => exact h.skipRelease (not_or.mp hfit).2
  · exact h

lemma Coherent.releaseDue (h : Coherent t) (now : ℕ) : Coherent (osSchedReleaseDue t now).1 := by
  rw [osSchedReleaseDue_eq]
  split
  · next hdue =>
    split
    · exact h.redate.exhaust
    · next hfit => exact h.redate.startJob hdue.2.1 hfit
  · exact h

lemma Coherent.wakeDue (h : Coherent t) (now : ℕ) : Coherent (osSchedWakeDue t now).1 := by
  rw [osSchedWakeDue_eq]
  split
  · exact h.inState _
  · exact h

lemma Coherent.sleep (h : Coherent t) {ticks : ℕ} (hs : osSchedSleep t now ticks = (t', true)) :
    Coherent t' := by
  obtain ⟨⟨-, -, -, hle, hfit⟩, rfl⟩ := osSchedSleep_eq_true.mp hs
  exact h.sleepUntil (order_fits hle (not_lt.mpr hfit))

lemma Coherent.completeJob (h : Coherent t) (hs : osSchedCompleteJob t now = (t', true)) :
    Coherent t' := by
  obtain ⟨⟨-, ha⟩, rfl⟩ := osSchedCompleteJob_eq_true.mp hs
  refine (h.recordDeadlineMiss now).finishJob ?_
  rw [osSchedRecordDeadlineMiss_eq]
  split <;> exact ha

lemma Coherent.waitNextPeriod (h : Coherent t) (hs : osSchedWaitNextPeriod t now = (t', true)) :
    Coherent t' := by
  obtain ⟨⟨-, hst, ha⟩, rfl⟩ := osSchedWaitNextPeriod_eq_true.mp hs
  exact (h.completeJob (osSchedCompleteJob_eq_true.mpr ⟨⟨hst, ha⟩, rfl⟩)).inState _

/-- A record that is configured, whatever it held before. -/
lemma coherent_configure {config : TaskTimingConfig}
    (hs : osSchedTaskConfigure t config now = (t', true)) : Coherent t' := by
  obtain ⟨hv, -, hle, hcases⟩ := osSchedTaskConfigure_cases hs
  have horder : now + config.initialReleaseDelayTicks ≤ uint64Max := le_trans hle (Nat.sub_le _ _)
  have harmed : Coherent (armed t.id config now) :=
    { coherent_reset t.id with
      period_le := hv.period_le
      relativeDeadline_le := hv.deadline_le
      release := lowHalf_u32 horder
      nextRelease := lowHalf_u32 horder }
  rcases hcases with ⟨-, ha⟩ | ⟨-, rfl⟩
  · have hstart := harmed.activateJob
    rw [ha] at hstart
    exact hstart
  · exact harmed

/-- **A tick**: its stages are operations on the record. -/
lemma Coherent.tick (h : Coherent t) (now : ℕ) : Coherent (tickTask now t) := by
  have hchecked : Coherent (checked now t) := h.accountRunningTick.recordDeadlineMiss now
  have hreleased : Coherent (released now t) := (hchecked.recordActiveRelease now).releaseDue now
  exact hreleased.wakeDue now

/-- **A step of a slot.** -/
lemma Coherent.step {l : Label} {now' : ℕ} {records : List TraceInput} (h : Coherent t)
    (hstep : SlotStep i now t l now' t' records) : Coherent t' := by
  cases hstep with
  | same => exact h
  | ticked => exact h.tick _
  | preempted => exact (h.tick _).inState _
  | retired => exact h.inState _
  | resumed => exact h.inState _
  | reclaimed => exact coherent_reset i
  | cleared => exact coherent_reset i
  | created _ hconf => exact coherent_configure hconf
  | yielded => exact h.inState _
  | slept hsleep => exact h.sleep hsleep
  | waited hwait => exact h.waitNextPeriod hwait
  | exited hdone => exact (h.completeJob hdone).inState _

/-! ### Along runs -/

variable {img : Image} {P : KernelState → Label → Prop} {labels : List Label} {k : KernelState}

/-- **The record of every slot is coherent**, along every run. -/
theorem coherent_of_reaches (h : Reaches img P labels k) (hi : i ∈ userSlots) :
    Coherent (k.schedules i) :=
  slot_induction (Q := fun _ _ t => Coherent t) h hi (fun _ => coherent_reset i)
    fun _ _ hq hstep => hq.step hstep

/-- **The invariant of slot `i`**: what its record `t` and its entry `task` in the table of tasks
say of each other. -/
structure RecordInv (i : ℕ) (task : Tcb) (t : SchedTask) : Prop where
  active : t.jobActive = true ↔ t.state = .ready ∨ t.state = .running ∨ t.state = .sleeping
  free : t.state = .dormant ↔ task.stackClaimed = false
  reset : t.state = .dormant → t = osSchedTaskReset i ∧ task = Tcb.zero
  id : t.id = i
  release : LowHalf t.releaseOrder t.releaseTick
  nextRelease : LowHalf t.nextReleaseOrder t.nextReleaseTick
  wake : LowHalf t.wakeOrder t.wakeTick
  deadline : LowHalf t.absoluteDeadlineOrder t.absoluteDeadlineTick
  execution : t.jobExecutionTicks ≤ t.totalExecutionTicks
  /-- Below saturation a job under way is the one after those completed. -/
  busy : t.jobActive = true → t.completedJobCount ≠ uint32Max →
    0 < t.jobSequence ∧ t.completedJobCount = t.jobSequence - 1
  idle : t.jobActive = false → t.completedJobCount = t.jobSequence

/-- The counts of a coherent record. -/
lemma Coherent.busy (h : Coherent t) (ha : t.jobActive = true)
    (hc : t.completedJobCount ≠ uint32Max) :
    0 < t.jobSequence ∧ t.completedJobCount = t.jobSequence - 1 := by
  have hseq : t.jobSequence = t.completedJobCount + 1 := by
    rw [h.sequence, if_pos ha]
    exact if_pos hc
  omega

lemma Coherent.idle (h : Coherent t) (ha : t.jobActive = false) :
    t.completedJobCount = t.jobSequence := by
  rw [h.sequence, ha]
  rfl

/-- **The record of every user slot is sound** in every state of the kernel between two steps of
the machine. -/
theorem records_sound (h : Reaches img P labels k) (hi : i ∈ userSlots) :
    RecordInv i (k.tasks i) (k.schedules i) := by
  have htable := h.control.table
  have hvacated := vacated_of_reaches h
  have hcoherent := coherent_of_reaches h hi
  have hfree : (k.schedules i).state = .dormant ↔ (k.tasks i).stackClaimed = false :=
    htable.free i hi
  exact
    { active := (htable.slots i hi).active
      free := hfree
      reset := fun hd => ⟨htable.reset i hi hd, hvacated.zero i (hfree.mp hd)⟩
      id := htable.id i (mem_userSlots.mp hi).2
      release := hcoherent.release
      nextRelease := hcoherent.nextRelease
      wake := hcoherent.wake
      deadline := hcoherent.deadline
      execution := hcoherent.execution
      busy := hcoherent.busy
      idle := hcoherent.idle }

/-- A task whose first job misses its deadline and completes, up to its second job. -/
def secondJob : List Act :=
  [.create (periodic 4 2)] ++ start ++ [.tick, .tick, .waitNextPeriod] ++ switch ++ [.tick, .tick] ++
    switch

/-- While the second job of a task runs. -/
theorem records_sound_second : ∃ labels k, Reaches sampleImage Disciplined labels k ∧
    (k.schedules 1).state = .running ∧ (k.schedules 1).completedJobCount = 1 ∧
      (k.schedules 1).deadlineMissCount = 1 ∧ (k.schedules 1).jobSequence = 2 ∧
      RecordInv 1 (k.tasks 1) (k.schedules 1) := by
  obtain ⟨c, log, ⟨labels, k, hr, rfl, -⟩, hview⟩ := @stage_of_script secondJob _
    (fun r => ((r.1.schedules 1).state, (r.1.schedules 1).completedJobCount,
      (r.1.schedules 1).deadlineMissCount, (r.1.schedules 1).jobSequence))
    (.running, 1, 1, 2) (by decide +kernel)
  simp only [Prod.mk.injEq] at hview
  obtain ⟨hstate, hcompleted, hmissed, hsequence⟩ := hview
  exact ⟨labels, k, hr.reaches, hstate, hcompleted, hmissed, hsequence,
    records_sound hr.reaches (by decide)⟩

end Aymos.SlotRecords
