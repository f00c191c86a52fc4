import Aymos.Handlers

/-!
One slot through time.

Each scheduler operation is a guard and an update. With the guards the stages of a tick are
taken apart by the state of the slot. `SlotInv` is what holds of a slot whenever no tick is under
way: no timed event of the slot is overdue.
-/

namespace Aymos.Slots

open Words Scheduler Kernel Handlers Select

/-! ### Updates -/

/-- A running task is charged a tick. -/
@[simps]
def charge (t : SchedTask) : SchedTask :=
  { t with
    totalExecutionTicks := incrementSaturating t.totalExecutionTicks
    jobExecutionTicks := incrementSaturating t.jobExecutionTicks }

/-- A job misses its deadline. -/
@[simps]
def latchMiss (t : SchedTask) : SchedTask :=
  { t with
    deadlineMissLatched := true
    deadlineMissCount := incrementSaturating t.deadlineMissCount }

/-- An active job overruns a release. -/
@[simps]
def skipRelease (t : SchedTask) : SchedTask :=
  { t with
    missedReleaseCount := incrementSaturating t.missedReleaseCount
    nextReleaseOrder := t.nextReleaseOrder + t.periodTicks
    nextReleaseTick := u32 (t.nextReleaseOrder + t.periodTicks) }

/-- The orders leave the range of the clock. -/
@[simps]
def exhaust (t : SchedTask) : SchedTask := { t with timeRangeExhausted := true }

/-- The release order of the job to come. -/
@[simps]
def redate (t : SchedTask) : SchedTask :=
  { t with releaseOrder := t.nextReleaseOrder, releaseTick := t.nextReleaseTick }

/-- The release after the job that starts. -/
def followingRelease (t : SchedTask) : ℕ :=
  match t.kind with
  | .periodic => t.releaseOrder + t.periodTicks
  | .oneShot => 0

/-- A job starts. -/
@[simps]
def startJob (t : SchedTask) : SchedTask :=
  { t with
    absoluteDeadlineOrder := t.releaseOrder + t.relativeDeadlineTicks
    absoluteDeadlineTick := u32 (t.releaseOrder + t.relativeDeadlineTicks)
    jobExecutionTicks := 0
    deadlineMissLatched := false
    jobActive := true
    jobSequence := incrementSaturating t.jobSequence
    nextReleaseOrder := followingRelease t
    nextReleaseTick := u32 (followingRelease t)
    state := .ready }

/-- A job completes. -/
@[simps]
def finishJob (t : SchedTask) : SchedTask :=
  { t with jobActive := false, completedJobCount := incrementSaturating t.completedJobCount }

/-- A task goes to sleep until `order`. -/
@[simps]
def sleepUntil (t : SchedTask) (order : ℕ) : SchedTask :=
  { t with wakeOrder := order, wakeTick := u32 order, state := .sleeping }

/-! ### Operations as guarded updates -/

section Guards

variable (t : SchedTask) (now : ℕ)

lemma osSchedAccountRunningTick_eq : osSchedAccountRunningTick t =
    if t.state = .running ∧ t.jobActive = true then charge t else t := by
  rw [osSchedAccountRunningTick, ← ite_not]
  refine if_congr ?_ rfl rfl
  simp

lemma osSchedRecordDeadlineMiss_eq : osSchedRecordDeadlineMiss t now =
    if t.jobActive = true ∧ t.deadlineMissLatched = false ∧ t.absoluteDeadlineOrder ≤ now then
      (latchMiss t, true) else (t, false) := by
  rw [osSchedRecordDeadlineMiss, ← ite_not]
  refine if_congr ?_ rfl rfl
  simp [osTickReached, osTickBefore]

lemma osSchedWakeDue_eq : osSchedWakeDue t now =
    if t.state = .sleeping ∧ t.jobActive = true ∧ t.wakeOrder ≤ now then
      (inState t .ready, true) else (t, false) := by
  rw [osSchedWakeDue, ← ite_not]
  refine if_congr ?_ rfl rfl
  simp [osTickReached, osTickBefore]

/-- The release of a periodic task falls due while its job is active. -/
def Overruns : Prop :=
  t.kind = .periodic ∧ t.jobActive = true ∧ t.state ≠ .dormant ∧ t.state ≠ .exiting ∧
    t.nextReleaseOrder ≤ now

instance : Decidable (Overruns t now) := inferInstanceAs (Decidable (_ ∧ _))

lemma osSchedRecordActiveRelease_eq : osSchedRecordActiveRelease t now =
    if Overruns t now then
      if t.periodTicks = 0 ∨ t.nextReleaseOrder > uint64Max - t.periodTicks then (exhaust t, false)
      else (skipRelease t, true)
    else (t, false) := by
  rw [osSchedRecordActiveRelease, ← ite_not]
  refine if_congr ?_ rfl rfl
  simp [Overruns, osTickReached, osTickBefore]

/-- The orders of a job do not fit in the clock. -/
def JobExhausts : Prop :=
  t.releaseOrder > uint64Max - t.relativeDeadlineTicks ∨
    (t.kind = .periodic ∧ t.releaseOrder > uint64Max - t.periodTicks)

instance : Decidable (JobExhausts t) := inferInstanceAs (Decidable (_ ∨ _))

lemma activateJob_eq : activateJob t =
    if t.state = .waitingRelease ∧ t.jobActive = false then
      if JobExhausts t then (exhaust t, false) else (startJob t, true)
    else (t, false) := by
  rw [activateJob, ← ite_not]
  refine if_congr ?_ rfl rfl
  simp

lemma osSchedReleaseDue_eq : osSchedReleaseDue t now =
    if t.state = .waitingRelease ∧ t.jobActive = false ∧ t.nextReleaseOrder ≤ now then
      if JobExhausts (redate t) then (exhaust (redate t), false) else (startJob (redate t), true)
    else (t, false) := by
  rw [osSchedReleaseDue, ← ite_not]
  by_cases h : t.state = .waitingRelease ∧ t.jobActive = false ∧ t.nextReleaseOrder ≤ now
  · rw [if_pos (by simpa [osTickReached, osTickBefore] using h), if_pos h]
    have hact : (redate t).state = .waitingRelease ∧ (redate t).jobActive = false := ⟨h.1, h.2.1⟩
    exact (activateJob_eq (redate t)).trans (if_pos hact)
  · rw [if_neg (by simpa [osTickReached, osTickBefore] using h), if_neg h]

lemma osSchedSleep_eq_true {t t' : SchedTask} {now ticks : ℕ} :
    osSchedSleep t now ticks = (t', true) ↔
      (t.state = .running ∧ t.jobActive = true ∧ 0 < ticks ∧ ticks ≤ maxTimeInterval ∧
        now ≤ uint64Max - ticks) ∧ t' = sleepUntil t (now + ticks) := by
  have hguard : (¬(t.state ≠ .running ∨ (!t.jobActive) = true ∨ ticks = 0 ∨
      (!osTickIntervalValid ticks) = true ∨ now > uint64Max - ticks)) ↔
      (t.state = .running ∧ t.jobActive = true ∧ 0 < ticks ∧ ticks ≤ maxTimeInterval ∧
        now ≤ uint64Max - ticks) := by
    simp [osTickIntervalValid, Nat.pos_iff_ne_zero]
  rw [osSchedSleep, ← hguard]
  split
  · simp_all
  · simp only [not_false_eq_true, true_and, Prod.mk.injEq, and_true, eq_comm (b := t'), *]
    rfl

lemma osSchedCompleteJob_eq_true {t t' : SchedTask} {n : ℕ} :
    osSchedCompleteJob t n = (t', true) ↔
      (t.state = .running ∧ t.jobActive = true) ∧
        t' = finishJob (osSchedRecordDeadlineMiss t n).1 := by
  rw [osSchedCompleteJob]
  split
  · next h =>
    simp only [Prod.mk.injEq, Bool.false_eq_true, and_false, false_iff, not_and]
    rintro ⟨h1, h2⟩
    simp [h1, h2] at h
  · next h =>
    simp only [not_or, not_not, Bool.not_eq_true', Bool.not_eq_false] at h
    simp only [h, true_and, Prod.mk.injEq, and_true, and_self, eq_comm (b := t')]
    rfl

lemma osSchedWaitNextPeriod_eq_true {t t' : SchedTask} {n : ℕ} :
    osSchedWaitNextPeriod t n = (t', true) ↔
      (t.kind = .periodic ∧ t.state = .running ∧ t.jobActive = true) ∧
        t' = inState (finishJob (osSchedRecordDeadlineMiss t n).1) .waitingRelease := by
  rw [osSchedWaitNextPeriod]
  split
  · next h => simp [h]
  · next h =>
    have hk : t.kind = .periodic := not_not.mp h
    rcases hc : osSchedCompleteJob t n with ⟨u, _ | _⟩
    · simp only [Prod.mk.injEq, Bool.false_eq_true, and_false, false_iff, not_and]
      rintro ⟨-, hs, ha⟩
      have := (osSchedCompleteJob_eq_true (t := t) (n := n)).mpr ⟨⟨hs, ha⟩, rfl⟩
      rw [hc] at this
      cases this
    · obtain ⟨⟨hs, ha⟩, rfl⟩ := osSchedCompleteJob_eq_true.mp hc
      simp only [hk, hs, ha, true_and, Prod.mk.injEq, and_true, and_self, eq_comm (b := t')]
      rfl

end Guards

/-! ### Configuration -/

/-- The record of a slot whose task waits for its first release. -/
@[simps]
def armed (id : ℕ) (config : TaskTimingConfig) (now : ℕ) : SchedTask :=
  { osSchedTaskReset id with
    kind := config.kind
    releaseOrder := now + config.initialReleaseDelayTicks
    releaseTick := u32 (now + config.initialReleaseDelayTicks)
    nextReleaseOrder := now + config.initialReleaseDelayTicks
    nextReleaseTick := u32 (now + config.initialReleaseDelayTicks)
    periodTicks := config.periodTicks
    relativeDeadlineTicks := config.relativeDeadlineTicks
    executionBudgetTicks := config.executionBudgetTicks
    priority := config.priority.toNat
    state := .waitingRelease }

/-- What a valid configuration promises. -/
structure ConfigValid (config : TaskTimingConfig) : Prop where
  deadline_pos : 0 < config.relativeDeadlineTicks
  deadline_le : config.relativeDeadlineTicks ≤ maxTimeInterval
  delay_le : config.initialReleaseDelayTicks ≤ maxTimeInterval
  period_le : config.periodTicks ≤ maxTimeInterval
  period : config.kind = .periodic →
    0 < config.periodTicks ∧ config.relativeDeadlineTicks ≤ config.periodTicks

lemma configValid_of {config : TaskTimingConfig} (h : osSchedConfigValid config = true) :
    ConfigValid config := by
  rw [osSchedConfigValid] at h
  split at h
  · cases h
  · next hguard =>
    simp only [not_or, osTickIntervalValid, Bool.not_eq_true', decide_eq_false_iff_not,
      not_not] at hguard
    obtain ⟨h1, h2, h3, h4, -, -⟩ := hguard
    refine ⟨Nat.pos_of_ne_zero h1, h4, h2, h3, fun hk => ?_⟩
    rw [hk] at h
    simpa [Nat.pos_iff_ne_zero] using h

/-- **`os_sched_task_configure`** when it succeeds: the task waits for its first release, or its
first job is activated at once. -/
lemma osSchedTaskConfigure_cases {t t' : SchedTask} {config : TaskTimingConfig} {now : ℕ}
    (h : osSchedTaskConfigure t config now = (t', true)) :
    ConfigValid config ∧ t.state = .dormant ∧
      now + config.initialReleaseDelayTicks ≤ uint64Max - config.relativeDeadlineTicks ∧
      ((config.initialReleaseDelayTicks = 0 ∧ activateJob (armed t.id config now) = (t', true)) ∨
        (config.initialReleaseDelayTicks ≠ 0 ∧ t' = armed t.id config now)) := by
  rw [osSchedTaskConfigure] at h
  split at h
  · cases h
  · next hguard =>
    simp only [not_or, not_not, Bool.not_eq_true', Bool.not_eq_false, not_lt] at hguard
    obtain ⟨hd, hv, -, hle⟩ := hguard
    refine ⟨configValid_of hv, hd, hle, ?_⟩
    simp only at h
    split at h
    · cases h
    · split at h
      · next h0 => exact Or.inl ⟨h0, h⟩
      · next hne =>
        refine Or.inr ⟨hne, ?_⟩
        cases h
        rfl

/-- The record that a successful configuration leaves. -/
lemma osSchedTaskConfigure_eq_true {t t' : SchedTask} {config : TaskTimingConfig} {now : ℕ}
    (h : osSchedTaskConfigure t config now = (t', true)) :
    ConfigValid config ∧ t.state = .dormant ∧
      now + config.initialReleaseDelayTicks ≤ uint64Max - config.relativeDeadlineTicks ∧
      t' = if config.initialReleaseDelayTicks = 0 then startJob (armed t.id config now)
        else armed t.id config now := by
  obtain ⟨hv, hd, hle, hcases⟩ := osSchedTaskConfigure_cases h
  refine ⟨hv, hd, hle, ?_⟩
  rcases hcases with ⟨h0, ha⟩ | ⟨hne, rfl⟩
  · rw [if_pos h0]
    rw [activateJob_eq, if_pos ⟨rfl, rfl⟩] at ha
    split at ha
    · cases ha
    · cases ha
      rfl
  · rw [if_neg hne]

/-! ### A tick by the state of the slot -/

variable {n : ℕ} {t : SchedTask}

lemma accounted_eq : accounted t =
    if t.state = .running ∧ t.jobActive = true then charge t else t :=
  osSchedAccountRunningTick_eq t

lemma checked_eq : checked n t =
    if t.jobActive = true ∧ t.deadlineMissLatched = false ∧ t.absoluteDeadlineOrder ≤ n then
      latchMiss (accounted t) else accounted t := by
  rw [checked, osSchedRecordDeadlineMiss_eq, accounted_eq]
  split_ifs <;> simp_all

/-- Records that agree on the job and its place in the selection: what the first stages of a tick
leave alone. -/
structure SameJob (t t' : SchedTask) : Prop where
  state : t'.state = t.state
  jobActive : t'.jobActive = t.jobActive
  deadline : t'.absoluteDeadlineOrder = t.absoluteDeadlineOrder
  priority : t'.priority = t.priority
  id : t'.id = t.id
  kind : t'.kind = t.kind
  period : t'.periodTicks = t.periodTicks
  relativeDeadline : t'.relativeDeadlineTicks = t.relativeDeadlineTicks
  release : t'.releaseOrder = t.releaseOrder
  wake : t'.wakeOrder = t.wakeOrder
  sequence : t'.jobSequence = t.jobSequence
  completed : t'.completedJobCount = t.completedJobCount

lemma SameJob.key {t t' : SchedTask} (h : SameJob t t') : key t' = key t := by
  rw [Select.key, Select.key, h.deadline, h.priority, h.id]

/-- The next release, the count of skipped ones and the range flag, which the miss check leaves
alone. -/
lemma checked_release : (checked n t).nextReleaseOrder = t.nextReleaseOrder ∧
    (checked n t).missedReleaseCount = t.missedReleaseCount ∧
    (checked n t).timeRangeExhausted = t.timeRangeExhausted := by
  rw [checked_eq, accounted_eq]
  split_ifs <;> exact ⟨rfl, rfl, rfl⟩

lemma checked_sameJob : SameJob t (checked n t) := by
  rw [checked_eq, accounted_eq]
  split_ifs <;> constructor <;> rfl

/-- The latch and the miss count after the miss check. -/
lemma checked_latch : (checked n t).deadlineMissLatched =
      (t.deadlineMissLatched || (t.jobActive && decide (t.absoluteDeadlineOrder ≤ n))) ∧
    (checked n t).deadlineMissCount =
      if ticksMiss n t then incrementSaturating t.deadlineMissCount else t.deadlineMissCount := by
  have hcount : (accounted t).deadlineMissCount = t.deadlineMissCount ∧
      (accounted t).deadlineMissLatched = t.deadlineMissLatched ∧
      (accounted t).jobActive = t.jobActive ∧
      (accounted t).absoluteDeadlineOrder = t.absoluteDeadlineOrder := by
    rw [accounted_eq]
    split_ifs <;> exact ⟨rfl, rfl, rfl, rfl⟩
  rw [checked_eq, ticksMiss, osSchedRecordDeadlineMiss_eq, hcount.2.1, hcount.2.2.1, hcount.2.2.2]
  split
  · next h => simp [h.1, h.2.2, hcount.1]
  · next h =>
    refine ⟨?_, by simpa using hcount.1⟩
    rw [hcount.2.1]
    cases hl : t.deadlineMissLatched <;> cases hj : t.jobActive <;> simp_all

lemma ticksMiss_iff : ticksMiss n t = true ↔
    t.jobActive = true ∧ t.deadlineMissLatched = false ∧ t.absoluteDeadlineOrder ≤ n := by
  have h : (accounted t).deadlineMissLatched = t.deadlineMissLatched ∧
      (accounted t).jobActive = t.jobActive ∧
      (accounted t).absoluteDeadlineOrder = t.absoluteDeadlineOrder := by
    rw [accounted_eq]
    split_ifs <;> exact ⟨rfl, rfl, rfl⟩
  rw [ticksMiss, osSchedRecordDeadlineMiss_eq, h.1, h.2.1, h.2.2]
  split <;> simp [*]

lemma overruns_checked : Overruns (checked n t) n ↔ Overruns t n := by
  have h := checked_sameJob (n := n) (t := t)
  rw [Overruns, Overruns, h.kind, h.jobActive, h.state, checked_release.1]

lemma skipped_of_not_overruns (h : ¬Overruns t n) :
    skipped n t = checked n t ∧ ticksSkip n t = false := by
  rw [skipped, ticksSkip, osSchedRecordActiveRelease_eq, if_neg (by rwa [overruns_checked])]
  exact ⟨rfl, rfl⟩

/-- A skip whose order fits in the clock. -/
lemma skipped_of_overruns (h : Overruns t n) (hp : 0 < t.periodTicks)
    (hfit : t.nextReleaseOrder ≤ uint64Max - t.periodTicks) :
    skipped n t = skipRelease (checked n t) ∧ ticksSkip n t = true := by
  have hs := checked_sameJob (n := n) (t := t)
  rw [skipped, ticksSkip, osSchedRecordActiveRelease_eq, if_pos (by rwa [overruns_checked]),
    if_neg (by rw [hs.period, checked_release.1]; omega)]
  exact ⟨rfl, rfl⟩

lemma skipped_of_exhausted (h : Overruns t n)
    (hfit : t.periodTicks = 0 ∨ t.nextReleaseOrder > uint64Max - t.periodTicks) :
    (skipped n t).timeRangeExhausted = true := by
  have hs := checked_sameJob (n := n) (t := t)
  rw [skipped, osSchedRecordActiveRelease_eq, if_pos (by rwa [overruns_checked]),
    if_pos (by rwa [hs.period, checked_release.1])]
  rfl

lemma skipped_sameJob : SameJob t (skipped n t) := by
  have h := checked_sameJob (n := n) (t := t)
  rw [skipped, osSchedRecordActiveRelease_eq]
  split_ifs
  · exact { h with }
  · exact { h with }
  · exact h

/-- A slot that does not wait for a release. -/
lemma tickTask_of_not_waiting (h : t.state ≠ .waitingRelease) :
    ticksRelease n t = false ∧ released n t = skipped n t ∧
      (tickTask n t, ticksWake n t) =
        if t.state = .sleeping ∧ t.jobActive = true ∧ t.wakeOrder ≤ n then
          (inState (skipped n t) .ready, true) else (skipped n t, false) := by
  have hs := skipped_sameJob (n := n) (t := t)
  have hrel : osSchedReleaseDue (skipped n t) n = (skipped n t, false) := by
    rw [osSchedReleaseDue_eq, if_neg (by simp [hs.state, h])]
  have hreleased : released n t = skipped n t := by rw [released, hrel]
  refine ⟨by rw [ticksRelease, hrel], hreleased, ?_⟩
  rw [tickTask, ticksWake, hreleased, osSchedWakeDue_eq, hs.state, hs.jobActive, hs.wake]

/-- A slot without an active job is past the first stages as it is. -/
lemma skipped_of_inactive (h : t.jobActive = false) :
    skipped n t = t ∧ ticksMiss n t = false ∧ ticksSkip n t = false := by
  have hacc : accounted t = t := by rw [accounted_eq, if_neg (by simp [h])]
  have hchk : checked n t = t := by rw [checked_eq, if_neg (by simp [h]), hacc]
  obtain ⟨hsk, hskip⟩ := skipped_of_not_overruns (n := n) (t := t) (by simp [Overruns, h])
  refine ⟨by rw [hsk, hchk], ?_, hskip⟩
  rw [← Bool.not_eq_true, ticksMiss_iff]
  simp [h]

/-- A slot that waits for its release. -/
lemma tickTask_of_waiting (h : t.state = .waitingRelease) (ha : t.jobActive = false) :
    ticksWake n t = false ∧ tickTask n t = released n t ∧
      (released n t, ticksRelease n t) =
        if t.nextReleaseOrder ≤ n then
          if JobExhausts (redate t) then (exhaust (redate t), false)
          else (startJob (redate t), true)
        else (t, false) := by
  have hrel : osSchedReleaseDue (skipped n t) n = if t.nextReleaseOrder ≤ n then
      if JobExhausts (redate t) then (exhaust (redate t), false)
      else (startJob (redate t), true) else (t, false) := by
    rw [(skipped_of_inactive ha).1, osSchedReleaseDue_eq]
    simp [h, ha]
  have hstate : (released n t).state ≠ .sleeping := by
    rw [released, hrel]
    split_ifs <;> simp [h]
  have hwake : osSchedWakeDue (released n t) n = (released n t, false) := by
    rw [osSchedWakeDue_eq, if_neg (by simp [hstate])]
  refine ⟨by rw [ticksWake, hwake], by rw [tickTask, hwake], ?_⟩
  rw [ticksRelease, released, hrel]

/-- A slot with nothing to do. -/
lemma tickTask_of_inactive (h : t.state ≠ .waitingRelease) (ha : t.jobActive = false) :
    tickTask n t = t ∧ ticksWake n t = false := by
  have := (tickTask_of_not_waiting (n := n) h).2.2
  rw [if_neg (by simp [ha]), (skipped_of_inactive ha).1, Prod.mk.injEq] at this
  exact this

/-- An active job that does not sleep keeps its state and its key through a tick. -/
lemma tickTask_of_contender (h : IsContender t) : (tickTask n t).state = t.state ∧
    (tickTask n t).jobActive = true ∧ key (tickTask n t) = key t := by
  have hs := skipped_sameJob (n := n) (t := t)
  have hw : t.state ≠ .waitingRelease := by rcases h.2 with hst | hst <;> simp [hst]
  have hwake := (tickTask_of_not_waiting (n := n) hw).2.2
  rw [if_neg (by rcases h.2 with hst | hst <;> simp [hst]), Prod.mk.injEq] at hwake
  rw [hwake.1]
  exact ⟨hs.state, hs.jobActive.trans h.1, hs.key⟩

/-- A tick changes the state of a slot only by making it ready. -/
lemma tickTask_state (ha : t.state = .waitingRelease → t.jobActive = false) :
    (tickTask n t).state = t.state ∨
      ((t.state = .waitingRelease ∨ t.state = .sleeping) ∧ (tickTask n t).state = .ready ∧
        tickReady n t = true) := by
  by_cases hw : t.state = .waitingRelease
  · obtain ⟨-, htick, hrel⟩ := tickTask_of_waiting (n := n) hw (ha hw)
    rw [htick, tickReady]
    split_ifs at hrel
    all_goals rw [(Prod.mk.inj hrel).1, (Prod.mk.inj hrel).2]
    · exact Or.inl rfl
    · exact Or.inr ⟨Or.inl hw, rfl, rfl⟩
    · exact Or.inl rfl
  · have hwake := (tickTask_of_not_waiting (n := n) hw).2.2
    rw [tickReady]
    split at hwake
    · next hs =>
      rw [(Prod.mk.inj hwake).1, (Prod.mk.inj hwake).2, Bool.or_true]
      exact Or.inr ⟨Or.inr hs.1, rfl, rfl⟩
    · rw [(Prod.mk.inj hwake).1]
      exact Or.inl (skipped_sameJob (n := n)).state

/-! ### The invariant of a slot -/

variable {now : ℕ}

/-- **No timed event of the slot is overdue** at the tick `now`. -/
structure SlotInv (now : ℕ) (t : SchedTask) : Prop where
  active : t.jobActive = true ↔ t.state = .ready ∨ t.state = .running ∨ t.state = .sleeping
  inRange : t.timeRangeExhausted = false
  deadline_pos : t.state ≠ .dormant → 0 < t.relativeDeadlineTicks
  deadline_le : t.relativeDeadlineTicks ≤ maxTimeInterval
  period_le : t.periodTicks ≤ maxTimeInterval
  period : t.kind = .periodic → 0 < t.periodTicks ∧ t.relativeDeadlineTicks ≤ t.periodTicks
  sleeping : t.state = .sleeping → now < t.wakeOrder
  waiting : t.state = .waitingRelease →
    now < t.nextReleaseOrder ∧ t.nextReleaseOrder ≤ now + maxTimeInterval
  next : t.jobActive = true → t.kind = .periodic →
    now < t.nextReleaseOrder ∧ t.nextReleaseOrder ≤ now + t.periodTicks
  latch : t.jobActive = true → (t.deadlineMissLatched = true ↔ t.absoluteDeadlineOrder ≤ now)
  job : t.jobActive = true →
    t.absoluteDeadlineOrder = t.releaseOrder + t.relativeDeadlineTicks ∧ t.releaseOrder ≤ now

lemma slotInv_reset (now id : ℕ) : SlotInv now (osSchedTaskReset id) where
  active := by simp [osSchedTaskReset]
  inRange := rfl
  deadline_pos h := absurd rfl h
  deadline_le := Nat.zero_le _
  period_le := Nat.zero_le _
  period h := by cases h
  sleeping h := by cases h
  waiting h := by cases h
  next h := by cases h
  latch h := by cases h
  job h := by cases h

/-- A job that starts at its release. -/
lemma slotInv_startJob (hr : t.timeRangeExhausted = false)
    (hpos : 0 < t.relativeDeadlineTicks) (hle : t.relativeDeadlineTicks ≤ maxTimeInterval)
    (hple : t.periodTicks ≤ maxTimeInterval)
    (hper : t.kind = .periodic → 0 < t.periodTicks ∧ t.relativeDeadlineTicks ≤ t.periodTicks)
    (hnow : t.releaseOrder = now) : SlotInv now (startJob t) where
  active := by simp
  inRange := hr
  deadline_pos _ := hpos
  deadline_le := hle
  period_le := hple
  period := hper
  sleeping h := by cases h
  waiting h := by cases h
  next _ hk := by
    have hk : t.kind = .periodic := hk
    have := hper hk
    simp only [startJob_nextReleaseOrder, followingRelease, hk, startJob_periodTicks, hnow]
    omega
  latch _ := by
    simp only [startJob_deadlineMissLatched, startJob_absoluteDeadlineOrder, Bool.false_eq_true,
      false_iff, hnow]
    omega
  job _ := ⟨rfl, hnow.le⟩

lemma slotInv_configure {t' : SchedTask} {config : TaskTimingConfig}
    (h : osSchedTaskConfigure t config now = (t', true)) : SlotInv now t' := by
  obtain ⟨hv, -, -, rfl⟩ := osSchedTaskConfigure_eq_true h
  split
  · next h0 =>
    exact slotInv_startJob rfl hv.deadline_pos hv.deadline_le hv.period_le hv.period
      (by simp [h0])
  · next h0 =>
    exact
      { active := by simp [osSchedTaskReset]
        inRange := rfl
        deadline_pos := fun _ => hv.deadline_pos
        deadline_le := hv.deadline_le
        period_le := hv.period_le
        period := hv.period
        sleeping := by simp
        waiting := fun _ => by
          have := hv.delay_le
          simp only [armed_nextReleaseOrder]
          omega
        next := fun h => by simp [osSchedTaskReset] at h
        latch := fun h => by simp [osSchedTaskReset] at h
        job := fun h => by simp [osSchedTaskReset] at h }

/-! ### The invariant through a tick -/

/-- A release that a tick finds due is due at that very tick. -/
lemma SlotInv.overruns (h : SlotInv now t) (ho : Overruns t (now + 1)) :
    t.jobActive = true ∧ t.kind = .periodic ∧ t.nextReleaseOrder = now + 1 := by
  have := h.next ho.2.1 ho.1
  exact ⟨ho.2.1, ho.1, by have := ho.2.2.2.2; omega⟩

/-- An active slot past the stages that record misses and skipped releases. -/
lemma SlotInv.skipped (h : SlotInv now t) (ha : t.jobActive = true)
    (hx : (skipped (now + 1) t).timeRangeExhausted = false) :
    ((Handlers.skipped (now + 1) t).deadlineMissLatched = true ↔
      t.absoluteDeadlineOrder ≤ now + 1) ∧
    (t.kind = .periodic → now + 1 < (Handlers.skipped (now + 1) t).nextReleaseOrder ∧
      (Handlers.skipped (now + 1) t).nextReleaseOrder ≤ now + 1 + t.periodTicks) := by
  have hlatch : ((checked (now + 1) t).deadlineMissLatched = true ↔
      t.absoluteDeadlineOrder ≤ now + 1) := by
    rw [checked_latch.1, ha, Bool.or_eq_true, h.latch ha]
    simp only [Bool.true_and, decide_eq_true_eq]
    omega
  by_cases ho : Overruns t (now + 1)
  · obtain ⟨-, hk, hnext⟩ := h.overruns ho
    by_cases hfit : t.periodTicks = 0 ∨ t.nextReleaseOrder > uint64Max - t.periodTicks
    · rw [skipped_of_exhausted ho hfit] at hx
      cases hx
    · have hp := (h.period hk).1
      rw [(skipped_of_overruns ho hp (by omega)).1]
      refine ⟨hlatch, fun _ => ?_⟩
      simp only [skipRelease_nextReleaseOrder, checked_release.1, checked_sameJob.period]
      omega
  · rw [(skipped_of_not_overruns ho).1, checked_release.1]
    refine ⟨hlatch, fun hk => ?_⟩
    have hn := h.next ha hk
    have hne : t.nextReleaseOrder ≠ now + 1 := fun heq => ho ⟨hk, ha, by
      have := h.active.mp ha
      rcases this with hs | hs | hs <;> simp [hs, heq]⟩
    omega

/-- An active slot after the checks of a tick, ready or running or asleep for longer. -/
lemma SlotInv.skipped_inState (h : SlotInv now t) (ha : t.jobActive = true)
    (hx : (Handlers.skipped (now + 1) t).timeRangeExhausted = false) {s : TaskState}
    (hstate : s = .ready ∨ s = .running ∨ (s = .sleeping ∧ now + 1 < t.wakeOrder)) :
    SlotInv (now + 1) (inState (Handlers.skipped (now + 1) t) s) := by
  obtain ⟨hlatch, hnext⟩ := h.skipped ha hx
  have hs := skipped_sameJob (n := now + 1) (t := t)
  exact
    { active := by
        simp only [inState_jobActive, inState_state, hs.jobActive, ha, true_iff]
        exact hstate.imp_right fun hst => hst.imp_right And.left
      inRange := hx
      deadline_pos := fun _ => by
        simpa [hs.relativeDeadline] using h.deadline_pos (by
          rcases h.active.mp ha with hst | hst | hst <;> simp [hst])
      deadline_le := by simpa [hs.relativeDeadline] using h.deadline_le
      period_le := by simpa [hs.period] using h.period_le
      period := by simpa [hs.kind, hs.period, hs.relativeDeadline] using h.period
      sleeping := by
        simp only [inState_state, inState_wakeOrder, hs.wake]
        rintro rfl
        simpa using hstate
      waiting := by
        simp only [inState_state]
        rintro rfl
        simp at hstate
      next := fun _ hk => by
        simpa [hs.period] using hnext (by simpa [hs.kind] using hk)
      latch := fun _ => by simpa [hs.deadline] using hlatch
      job := fun _ => by
        have := h.job ha
        simp only [inState_absoluteDeadlineOrder, inState_releaseOrder,
          inState_relativeDeadlineTicks, hs.deadline, hs.release, hs.relativeDeadline]
        omega }

/-- **A tick keeps the invariant of a slot.** -/
theorem SlotInv.tick (h : SlotInv now t) (hx : tickExhausts (now + 1) t = false) :
    SlotInv (now + 1) (tickTask (now + 1) t) := by
  rw [tickExhausts, Bool.or_eq_false_iff] at hx
  by_cases hw : t.state = .waitingRelease
  · have ha : t.jobActive = false := by
      rw [← Bool.not_eq_true, h.active]
      simp [hw]
    obtain ⟨-, htick, hrel⟩ := tickTask_of_waiting (n := now + 1) hw ha
    have hwait := h.waiting hw
    rw [htick]
    split at hrel
    · next hdue =>
      split at hrel
      · rw [(Prod.mk.inj hrel).1] at hx
        cases hx.2
      · rw [(Prod.mk.inj hrel).1]
        refine slotInv_startJob h.inRange (h.deadline_pos (by simp [hw])) h.deadline_le h.period_le
          h.period ?_
        simp only [redate_releaseOrder]
        omega
    · rw [(Prod.mk.inj hrel).1]
      exact { h with
        sleeping := fun hs => by simp [hw] at hs
        waiting := fun _ => by omega
        next := fun hact => by simp [ha] at hact
        latch := fun hact => by simp [ha] at hact
        job := fun hact => by simp [ha] at hact }
  · by_cases ha : t.jobActive = true
    · obtain ⟨-, -, hwake⟩ := tickTask_of_not_waiting (n := now + 1) hw
      have hbase := fun s => h.skipped_inState ha hx.1 (s := s)
      split at hwake
      · rw [(Prod.mk.inj hwake).1]
        exact hbase .ready (Or.inl rfl)
      · next hnot =>
        rw [(Prod.mk.inj hwake).1]
        have := hbase t.state (by
          rcases h.active.mp ha with hst | hst | hst
          · exact Or.inl hst
          · exact Or.inr (Or.inl hst)
          · exact Or.inr (Or.inr ⟨hst, by
              by_contra hle
              exact hnot ⟨hst, ha, by omega⟩⟩))
        rwa [← (skipped_sameJob (n := now + 1) (t := t)).state, inState_self] at this
    · have ha : t.jobActive = false := by simpa using ha
      rw [(tickTask_of_inactive hw ha).1]
      exact { h with
        sleeping := fun hs => absurd (h.active.mpr (by simp [hs])) (by simp [ha])
        waiting := fun hs => absurd hs hw
        next := fun hact => by simp [ha] at hact
        latch := fun hact => by simp [ha] at hact
        job := fun hact => by simp [ha] at hact }

/-- **No slot leaves the range of the clock** while the clock stays below `2 ^ 63`. -/
theorem SlotInv.not_exhausts (h : SlotInv now t) (hnow : now + 1 < 2 ^ 63) :
    tickExhausts (now + 1) t = false := by
  have hmax : maxTimeInterval + 2 ^ 63 + maxTimeInterval ≤ uint64Max := by decide
  have hple := h.period_le
  have hdle := h.deadline_le
  have hskip : (Handlers.skipped (now + 1) t).timeRangeExhausted = false := by
    by_cases ho : Overruns t (now + 1)
    · obtain ⟨-, hk, hnext⟩ := h.overruns ho
      rw [(skipped_of_overruns ho (h.period hk).1 (by omega)).1, skipRelease_timeRangeExhausted,
        checked_release.2.2]
      exact h.inRange
    · rw [(skipped_of_not_overruns ho).1, checked_release.2.2]
      exact h.inRange
  rw [tickExhausts, hskip, Bool.false_or]
  by_cases hw : t.state = .waitingRelease
  · have ha : t.jobActive = false := by
      rw [← Bool.not_eq_true, h.active]
      simp [hw]
    obtain ⟨-, -, hrel⟩ := tickTask_of_waiting (n := now + 1) hw ha
    have hfit : t.nextReleaseOrder ≤ now + 1 → ¬JobExhausts (redate t) := by
      intro hdue hex
      simp only [JobExhausts, redate_releaseOrder, redate_relativeDeadlineTicks,
        redate_periodTicks] at hex
      omega
    split at hrel
    · next hdue =>
      rw [if_neg (hfit hdue)] at hrel
      rw [(Prod.mk.inj hrel).1]
      exact h.inRange
    · rw [(Prod.mk.inj hrel).1]
      exact h.inRange
  · rw [(tickTask_of_not_waiting hw).2.1]
    exact hskip

/-! ### The invariant through the other operations -/

lemma SlotInv.inState (h : SlotInv now t) (ha : t.jobActive = true) {s : TaskState}
    (hs : s = .ready ∨ s = .running) : SlotInv now (inState t s) :=
  { h with
    active := by
      simp only [inState_jobActive, inState_state, ha, true_iff]
      tauto
    deadline_pos := fun _ => h.deadline_pos (by
      rcases h.active.mp ha with hst | hst | hst <;> simp [hst])
    sleeping := by
      simp only [inState_state]
      rintro rfl
      simp at hs
    waiting := by
      simp only [inState_state]
      rintro rfl
      simp at hs }

lemma SlotInv.sleepUntil (h : SlotInv now t) (ha : t.jobActive = true) {order : ℕ}
    (ho : now < order) : SlotInv now (sleepUntil t order) :=
  { h with
    active := by simp [ha]
    deadline_pos := fun _ => h.deadline_pos (by
      rcases h.active.mp ha with hst | hst | hst <;> simp [hst])
    sleeping := fun _ => ho
    waiting := fun hs => by simp at hs }

/-- A completed job has no miss left to record. -/
lemma SlotInv.recordDeadlineMiss (h : SlotInv now t) (ha : t.jobActive = true) :
    osSchedRecordDeadlineMiss t now = (t, false) := by
  rw [osSchedRecordDeadlineMiss_eq, if_neg]
  rintro ⟨-, hl, hd⟩
  rw [(h.latch ha).mpr hd] at hl
  cases hl

lemma SlotInv.finishJob (h : SlotInv now t) (ha : t.jobActive = true) {s : TaskState}
    (hs : s = .exiting ∨ (s = .waitingRelease ∧ t.kind = .periodic)) :
    SlotInv now (Handlers.inState (finishJob t) s) :=
  { h with
    active := by
      simp only [inState_jobActive, finishJob_jobActive, inState_state, Bool.false_eq_true,
        false_iff]
      rcases hs with rfl | ⟨rfl, -⟩ <;> simp
    deadline_pos := fun _ => h.deadline_pos (by
      rcases h.active.mp ha with hst | hst | hst <;> simp [hst])
    sleeping := by
      simp only [inState_state]
      rintro rfl
      simp at hs
    waiting := by
      simp only [inState_state]
      rintro rfl
      have hk : t.kind = .periodic := by simpa using hs
      have hn := h.next ha hk
      have hp := h.period_le
      simp only [inState_nextReleaseOrder, finishJob_nextReleaseOrder]
      omega
    next := fun hact => by simp at hact
    latch := fun hact => by simp at hact
    job := fun hact => by simp at hact }

end Aymos.Slots
