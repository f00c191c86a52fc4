import Aymos.Script
import Aymos.SlotSteps

/-!
Timed events fall due at their own tick.

Under the invariant of a slot a tick finds a wake, a release, a skipped release or a miss exactly
when the clock comes to its order, and no other step of the kernel finds one.
-/

namespace Aymos.Timing

open Words Allocator Scheduler Trace WordMem Kernel Machine Handlers Frames Services Switch Slots
  Control Boot Ownership EmissionLog Safety Startup Scenario Script SlotSteps

variable {now i : ℕ} {t t' : SchedTask}

/-! ### What a tick finds due -/

lemma miss_due (h : SlotInv now t) : ticksMiss (now + 1) t = true ↔
    t.jobActive = true ∧ t.absoluteDeadlineOrder = now + 1 := by
  rw [Slots.ticksMiss_iff]
  constructor
  · rintro ⟨ha, hl, hd⟩
    have hnot : ¬t.absoluteDeadlineOrder ≤ now := fun hle => by
      rw [(h.latch ha).mpr hle] at hl
      cases hl
    exact ⟨ha, by omega⟩
  · rintro ⟨ha, hd⟩
    refine ⟨ha, ?_, hd.le⟩
    rw [← Bool.not_eq_true, h.latch ha]
    omega

lemma overruns_due (h : SlotInv now t) : Overruns t (now + 1) ↔
    t.jobActive = true ∧ t.kind = .periodic ∧ t.nextReleaseOrder = now + 1 := by
  refine ⟨h.overruns, fun ⟨ha, hk, hn⟩ => ⟨hk, ha, ?_, ?_, hn.le⟩⟩
  · rcases h.active.mp ha with hs | hs | hs <;> simp [hs]
  · rcases h.active.mp ha with hs | hs | hs <;> simp [hs]

/-- The orders of a periodic task whose release does not exhaust the clock. -/
lemma skip_fits (h : SlotInv now t) (hx : tickExhausts (now + 1) t = false)
    (ho : Overruns t (now + 1)) :
    0 < t.periodTicks ∧ t.nextReleaseOrder ≤ uint64Max - t.periodTicks := by
  obtain ⟨-, hk, -⟩ := h.overruns ho
  have hp := (h.period hk).1
  refine ⟨hp, ?_⟩
  by_contra hgt
  rw [tickExhausts, skipped_of_exhausted ho (Or.inr (not_le.mp hgt)), Bool.true_or] at hx
  cases hx

/-- The record of a slot past the skipped release. -/
lemma skipped_due (h : SlotInv now t) (hx : tickExhausts (now + 1) t = false) :
    skipped (now + 1) t = (if Overruns t (now + 1) then skipRelease (checked (now + 1) t)
      else checked (now + 1) t) ∧ (ticksSkip (now + 1) t = true ↔ Overruns t (now + 1)) := by
  by_cases ho : Overruns t (now + 1)
  · obtain ⟨hp, hfit⟩ := skip_fits h hx ho
    obtain ⟨hs, hskip⟩ := skipped_of_overruns ho hp hfit
    exact ⟨hs.trans (if_pos ho).symm, iff_of_true hskip ho⟩
  · obtain ⟨hs, hskip⟩ := skipped_of_not_overruns ho
    refine ⟨hs.trans (if_neg ho).symm, iff_of_false ?_ ho⟩
    rw [hskip]
    decide

/-- A slot that waits is released when the clock comes to its release. -/
lemma waiting_due (h : SlotInv now t) (hx : tickExhausts (now + 1) t = false)
    (hw : t.state = .waitingRelease) : ticksWake (now + 1) t = false ∧
      tickTask (now + 1) t = released (now + 1) t ∧
      (released (now + 1) t, ticksRelease (now + 1) t) =
        (if t.nextReleaseOrder = now + 1 then (startJob (redate t), true) else (t, false)) ∧
      (t.nextReleaseOrder = now + 1 → ¬JobExhausts (redate t)) := by
  obtain ⟨hwake, htick, hrel⟩ := tickTask_of_waiting (n := now + 1) hw (SlotInv.waiting_inactive h hw)
  have hlt := (h.waiting hw).1
  have hfit : t.nextReleaseOrder = now + 1 → ¬JobExhausts (redate t) := fun hdue hex => by
    rw [if_pos hdue.le, if_pos hex] at hrel
    rw [tickExhausts, (Prod.mk.inj hrel).1] at hx
    simp at hx
  refine ⟨hwake, htick, ?_, hfit⟩
  rw [hrel]
  by_cases hdue : t.nextReleaseOrder = now + 1
  · rw [if_pos hdue.le, if_neg (hfit hdue), if_pos hdue]
  · rw [if_neg (by omega), if_neg hdue]

lemma release_due (h : SlotInv now t) (hx : tickExhausts (now + 1) t = false) :
    ticksRelease (now + 1) t = true ↔
      t.state = .waitingRelease ∧ t.nextReleaseOrder = now + 1 := by
  by_cases hw : t.state = .waitingRelease
  · obtain ⟨-, -, hrel, -⟩ := waiting_due h hx hw
    by_cases hdue : t.nextReleaseOrder = now + 1
    · rw [if_pos hdue] at hrel
      exact iff_of_true (Prod.mk.inj hrel).2 ⟨hw, hdue⟩
    · rw [if_neg hdue] at hrel
      refine iff_of_false ?_ fun hd => hdue hd.2
      rw [(Prod.mk.inj hrel).2]
      decide
  · refine iff_of_false ?_ fun hd => hw hd.1
    rw [(tickTask_of_not_waiting hw).1]
    decide

/-- A slot that does not wait is woken when the clock comes to its wake order. -/
lemma sleeping_due (h : SlotInv now t) (hw : t.state ≠ .waitingRelease) :
    ticksRelease (now + 1) t = false ∧ released (now + 1) t = skipped (now + 1) t ∧
      (tickTask (now + 1) t, ticksWake (now + 1) t) =
        if t.state = .sleeping ∧ t.wakeOrder = now + 1 then
          (inState (skipped (now + 1) t) .ready, true) else (skipped (now + 1) t, false) := by
  obtain ⟨hrel, heq, hwake⟩ := tickTask_of_not_waiting (n := now + 1) hw
  refine ⟨hrel, heq, hwake.trans (if_congr ⟨fun ⟨hs, _, hle⟩ => ?_, fun ⟨hs, hd⟩ => ?_⟩ rfl rfl)⟩
  · have hlt := h.sleeping hs
    exact ⟨hs, by omega⟩
  · exact ⟨hs, h.active.mpr (Or.inr (Or.inr hs)), hd.le⟩

lemma wake_due (h : SlotInv now t) (hx : tickExhausts (now + 1) t = false) :
    ticksWake (now + 1) t = true ↔ t.state = .sleeping ∧ t.wakeOrder = now + 1 := by
  by_cases hw : t.state = .waitingRelease
  · refine iff_of_false ?_ fun hd => ?_
    · rw [(waiting_due h hx hw).1]
      decide
    · exact absurd (hw.symm.trans hd.1) (by decide)
  · obtain ⟨-, -, hwake⟩ := sleeping_due h hw
    by_cases hdue : t.state = .sleeping ∧ t.wakeOrder = now + 1
    · rw [if_pos hdue] at hwake
      exact iff_of_true (Prod.mk.inj hwake).2 hdue
    · rw [if_neg hdue] at hwake
      refine iff_of_false ?_ hdue
      rw [(Prod.mk.inj hwake).2]
      decide

/-- An active job through a tick. -/
structure TicksJob (now : ℕ) (t t' : SchedTask) : Prop where
  job : SameJob (inState t t'.state) t'
  state : t'.state = if t.state = .sleeping ∧ t.wakeOrder = now + 1 then .ready else t.state
  latch : t'.deadlineMissLatched = true ↔ t.absoluteDeadlineOrder ≤ now + 1
  misses : t'.deadlineMissCount = if t.absoluteDeadlineOrder = now + 1 then
    incrementSaturating t.deadlineMissCount else t.deadlineMissCount
  next : t'.nextReleaseOrder = if t.kind = .periodic ∧ t.nextReleaseOrder = now + 1 then
    t.nextReleaseOrder + t.periodTicks else t.nextReleaseOrder
  missed : t'.missedReleaseCount = if t.kind = .periodic ∧ t.nextReleaseOrder = now + 1 then
    incrementSaturating t.missedReleaseCount else t.missedReleaseCount

/-- **An active job through a tick.** -/
lemma job_tick (h : SlotInv now t) (hx : tickExhausts (now + 1) t = false)
    (ha : t.jobActive = true) : TicksJob now t (tickTask (now + 1) t) := by
  have hw : t.state ≠ .waitingRelease := fun hw => by
    rw [SlotInv.waiting_inactive h hw] at ha
    cases ha
  obtain ⟨-, -, hwake⟩ := sleeping_due h hw
  have hs := skipped_sameJob (n := now + 1) (t := t)
  obtain ⟨hskip, -⟩ := skipped_due h hx
  obtain ⟨hnext, hmissed, -⟩ := checked_release (n := now + 1) (t := t)
  obtain ⟨hlatch, hcount⟩ := checked_latch (n := now + 1) (t := t)
  have hdue : Overruns t (now + 1) ↔ t.kind = .periodic ∧ t.nextReleaseOrder = now + 1 := by
    rw [overruns_due h]
    exact and_iff_right ha
  have hrest : (skipped (now + 1) t).deadlineMissLatched = (checked (now + 1) t).deadlineMissLatched ∧
      (skipped (now + 1) t).deadlineMissCount = (checked (now + 1) t).deadlineMissCount := by
    rw [hskip]
    split <;> exact ⟨rfl, rfl⟩
  have hlast : ∃ s, tickTask (now + 1) t = inState (skipped (now + 1) t) s ∧
      s = if t.state = .sleeping ∧ t.wakeOrder = now + 1 then .ready else t.state := by
    split at hwake
    · next hdue => exact ⟨.ready, (Prod.mk.inj hwake).1, (if_pos hdue).symm⟩
    · next hdue =>
      refine ⟨t.state, ?_, (if_neg hdue).symm⟩
      rw [(Prod.mk.inj hwake).1, ← hs.state]
      rfl
  obtain ⟨s, hlast, hstate⟩ := hlast
  rw [hlast]
  refine ⟨{ hs with state := rfl }, hstate, ?_, ?_, ?_, ?_⟩
  · rw [inState_deadlineMissLatched, hrest.1, hlatch, ha, Bool.or_eq_true, h.latch ha]
    simp only [Bool.true_and, decide_eq_true_eq]
    omega
  · rw [inState_deadlineMissCount, hrest.2, hcount]
    refine if_congr ?_ rfl rfl
    rw [miss_due h]
    exact and_iff_right ha
  · rw [inState_nextReleaseOrder, hskip]
    simp only [hdue]
    split
    · simp [hnext, checked_sameJob.period]
    · exact hnext
  · rw [inState_missedReleaseCount, hskip]
    simp only [hdue]
    split
    · simp [hmissed]
    · exact hmissed

/-! ### What the records carry -/

/-- A slot whose job fits in the records of the trace. -/
structure Recordable (t : SchedTask) : Prop where
  priority : t.priority < 2 ^ 8
  deadline : t.jobActive = true → t.absoluteDeadlineOrder < 2 ^ 64
  sequence : t.jobActive = true → 0 < t.jobSequence

lemma recordable_reset (id : ℕ) : Recordable (osSchedTaskReset id) :=
  ⟨Nat.two_pow_pos 8, fun ha => (nomatch ha), fun ha => (nomatch ha)⟩

/-- A job that starts within the range of the clock. -/
lemma recordable_startJob (hp : t.priority < 2 ^ 8)
    (hfit : t.releaseOrder + t.relativeDeadlineTicks ≤ uint64Max) : Recordable (startJob t) :=
  ⟨hp, fun _ => Nat.lt_succ_of_le hfit, fun _ => incrementSaturating_pos _⟩

lemma Recordable.of_job (h : Recordable t) {s : TaskState} (hjob : SameJob (inState t s) t') :
    Recordable t' := by
  have ha : t'.jobActive = t.jobActive := hjob.jobActive
  have hp : t'.priority = t.priority := hjob.priority
  have hd : t'.absoluteDeadlineOrder = t.absoluteDeadlineOrder := hjob.deadline
  have hs : t'.jobSequence = t.jobSequence := hjob.sequence
  exact ⟨hp ▸ h.priority, fun hact => hd ▸ h.deadline (ha ▸ hact),
    fun hact => hs ▸ h.sequence (ha ▸ hact)⟩

lemma Recordable.inState (h : Recordable t) (s : TaskState) : Recordable (inState t s) :=
  ⟨h.priority, h.deadline, h.sequence⟩

lemma Recordable.tick (h : Recordable t) (hslot : SlotInv now t)
    (hx : tickExhausts (now + 1) t = false) : Recordable (tickTask (now + 1) t) := by
  cases ha : t.jobActive with
  | true => exact h.of_job (job_tick hslot hx ha).job
  | false =>
    by_cases hw : t.state = .waitingRelease
    · obtain ⟨-, htick, hrel, hfit⟩ := waiting_due hslot hx hw
      rw [htick]
      by_cases hdue : t.nextReleaseOrder = now + 1
      · rw [if_pos hdue] at hrel
        rw [(Prod.mk.inj hrel).1]
        refine recordable_startJob h.priority ?_
        have hno := hfit hdue
        have hle := hslot.deadline_le
        simp only [JobExhausts, not_or, not_lt, redate_releaseOrder,
          redate_relativeDeadlineTicks] at hno
        simp only [redate_releaseOrder, redate_relativeDeadlineTicks]
        unfold maxTimeInterval int32Max at hle
        unfold uint64Max at hno ⊢
        omega
      · rw [if_neg hdue] at hrel
        rw [(Prod.mk.inj hrel).1]
        exact h
    · rw [(tickTask_of_inactive hw ha).1]
      exact h

lemma recordable_configure {config : TaskTimingConfig}
    (h : osSchedTaskConfigure t config now = (t', true)) : Recordable t' := by
  obtain ⟨-, -, hle, rfl⟩ := osSchedTaskConfigure_eq_true h
  have hp : config.priority.toNat < 2 ^ 8 := config.priority.toNat_lt
  split
  · refine recordable_startJob hp ?_
    simp only [armed_releaseOrder, armed_relativeDeadlineTicks]
    have hd := (osSchedTaskConfigure_eq_true h).1.deadline_le
    unfold maxTimeInterval int32Max at hd
    unfold uint64Max at hle ⊢
    omega
  · exact ⟨hp, fun ha => (nomatch ha), fun ha => (nomatch ha)⟩

lemma Recordable.step {l : Label} {now' : ℕ} {records : List TraceInput} (h : Recordable t)
    (hslot : SlotInv now t) (hstep : SlotStep i now t l now' t' records) : Recordable t' := by
  cases hstep with
  | same => exact h
  | ticked hx => exact h.tick hslot hx
  | preempted hx => exact (h.tick hslot hx).inState _
  | retired => exact h.inState _
  | resumed => exact h.inState _
  | reclaimed => exact recordable_reset i
  | cleared => exact recordable_reset i
  | created _ hconf => exact recordable_configure hconf
  | yielded => exact h.inState _
  | slept hsleep =>
    obtain ⟨-, rfl⟩ := osSchedSleep_eq_true.mp hsleep
    exact ⟨h.priority, h.deadline, h.sequence⟩
  | waited hwait =>
    obtain ⟨⟨-, -, ha⟩, rfl⟩ := osSchedWaitNextPeriod_eq_true.mp hwait
    rw [hslot.recordDeadlineMiss ha]
    exact ⟨h.priority, fun hact => (nomatch hact), fun hact => (nomatch hact)⟩
  | exited hdone =>
    obtain ⟨⟨-, ha⟩, rfl⟩ := osSchedCompleteJob_eq_true.mp hdone
    rw [hslot.recordDeadlineMiss ha]
    exact ⟨h.priority, fun hact => (nomatch hact), fun hact => (nomatch hact)⟩

/-- **Every slot fits in the records**, along every run. -/
theorem recordable_of_reaches {img : Image} {P : KernelState → Label → Prop} {labels : List Label}
    {k : KernelState} (h : Reaches img P labels k) (hi : i ∈ userSlots) :
    Recordable (k.schedules i) :=
  slot_induction (Q := fun _ _ t => Recordable t) h hi (fun _ => recordable_reset i)
    fun hslot _ hq hstep => hq.step hslot hstep

/-! ### Events on time -/

/-- **No timed event is overdue.** -/
structure InTime (now : ℕ) (t : SchedTask) : Prop where
  sleeping : t.state = .sleeping → now < t.wakeOrder
  waiting : t.state = .waitingRelease → now < t.nextReleaseOrder
  next : t.jobActive = true → t.kind = .periodic →
    now < t.nextReleaseOrder ∧ t.nextReleaseOrder ≤ now + t.periodTicks
  latch : t.jobActive = true → (t.deadlineMissLatched = true ↔ t.absoluteDeadlineOrder ≤ now)

/-- How many of the records are of an event. -/
def tally (event : TraceEvent) (records : List TraceInput) : ℕ :=
  records.countP fun r => r.event == event.code

/-- **A step takes each timed event exactly when the clock comes to it**: what becomes of the slot,
and how many records tell of it. -/
structure OnTime (now : ℕ) (t : SchedTask) (now' : ℕ) (t' : SchedTask)
    (records : List TraceInput) : Prop where
  wakes : t.state = .sleeping → t'.state = if t.wakeOrder = now' then .ready else .sleeping
  wake : tally .taskWake records = if t.state = .sleeping ∧ t.wakeOrder = now' then 1 else 0
  releases : t.state = .waitingRelease →
    if t.nextReleaseOrder = now' then t'.jobActive = true ∧ t'.releaseOrder = now' else t' = t
  release : tally .taskRelease records =
    if (t.state = .waitingRelease ∧ t.nextReleaseOrder = now') ∨
      (t.state = .dormant ∧ t'.state = .ready) then 1 else 0
  skips : t.jobActive = true → t'.nextReleaseOrder =
    if t.kind = .periodic ∧ t.nextReleaseOrder = now' then t.nextReleaseOrder + t.periodTicks
    else t.nextReleaseOrder
  skip : tally .taskReleaseSkipped records =
    if t.jobActive = true ∧ t.kind = .periodic ∧ t.nextReleaseOrder = now' then 1 else 0
  misses : t.jobActive = true → t'.deadlineMissCount =
    if now < now' ∧ t.absoluteDeadlineOrder = now' then incrementSaturating t.deadlineMissCount
    else t.deadlineMissCount
  miss : tally .deadlineMiss records =
    if t.jobActive = true ∧ now < now' ∧ t.absoluteDeadlineOrder = now' then 1 else 0

lemma inTime_of_slotInv (h : SlotInv now t) : InTime now t :=
  ⟨h.sleeping, fun hw => (h.waiting hw).1, h.next, h.latch⟩

/-- The records of a tick. -/
lemma tally_tick (now i : ℕ) (t : SchedTask) :
    tally .deadlineMiss (tickBatches now i t).flatten = (if ticksMiss now t then 1 else 0) ∧
      tally .taskReleaseSkipped (tickBatches now i t).flatten =
        (if ticksSkip now t then 1 else 0) ∧
      tally .taskRelease (tickBatches now i t).flatten = (if ticksRelease now t then 1 else 0) ∧
      tally .taskWake (tickBatches now i t).flatten = if ticksWake now t then 1 else 0 := by
  rw [tickBatches]
  cases ticksMiss now t <;> cases ticksSkip now t <;> cases ticksRelease now t <;>
    cases ticksWake now t <;> exact ⟨rfl, rfl, rfl, rfl⟩

/-- The records of a step that finds nothing due. -/
def Silent (records : List TraceInput) : Prop :=
  tally .taskWake records = 0 ∧ tally .taskRelease records = 0 ∧
    tally .taskReleaseSkipped records = 0 ∧ tally .deadlineMiss records = 0

/-- A step that is no tick and fills no slot. -/
lemma onTime_silent {records : List TraceInput} (h : SlotInv now t) (hs : Silent records)
    (hsleep : t.state = .sleeping → t'.state = .sleeping) (hwait : t.state = .waitingRelease → t' = t)
    (hdormant : t.state = .dormant → t'.state ≠ .ready)
    (hjob : t.jobActive = true → t'.nextReleaseOrder = t.nextReleaseOrder ∧
      t'.deadlineMissCount = t.deadlineMissCount) : OnTime now t now t' records := by
  obtain ⟨h1, h2, h3, h4⟩ := hs
  refine ⟨fun hst => ?_, ?_, fun hst => ?_, ?_, fun ha => ?_, ?_, fun ha => ?_, ?_⟩
  · rw [if_neg (h.sleeping hst).ne', hsleep hst]
  · rw [h1, if_neg fun hd => (h.sleeping hd.1).ne' hd.2]
  · rw [if_neg (h.waiting hst).1.ne']
    exact hwait hst
  · rw [h2, if_neg]
    rintro (⟨hst, hd⟩ | ⟨hst, hr⟩)
    · exact (h.waiting hst).1.ne' hd
    · exact hdormant hst hr
  · rw [if_neg fun hd => (h.next ha hd.1).1.ne' hd.2, (hjob ha).1]
  · rw [h3, if_neg fun hd => (h.next hd.1 hd.2.1).1.ne' hd.2.2]
  · rw [if_neg fun hd => lt_irrefl _ hd.1, (hjob ha).2]
  · rw [h4, if_neg fun hd => lt_irrefl _ hd.2.1]

/-- A tick, after which a running task may be made ready. -/
lemma onTime_tick (h : SlotInv now t) (hx : tickExhausts (now + 1) t = false) {s : TaskState}
    (hs : s = (tickTask (now + 1) t).state ∨ t.state = .running) :
    OnTime now t (now + 1) (inState (tickTask (now + 1) t) s)
      (tickBatches (now + 1) i t).flatten := by
  obtain ⟨hmiss, hskip, hrelease, hwake⟩ := tally_tick (now + 1) i t
  have hsame : t.state ≠ .running → inState (tickTask (now + 1) t) s = tickTask (now + 1) t :=
    fun hne => by rw [hs.resolve_right hne, inState_self]
  have hlt : now < now + 1 := Nat.lt_succ_self now
  refine ⟨fun hst => ?_, ?_, fun hst => ?_, ?_, fun ha => ?_, ?_, fun ha => ?_, ?_⟩
  · rw [hsame (by simp [hst]), (job_tick h hx (h.active.mpr (by simp [hst]))).state]
    simp [hst]
  · rw [hwake]
    exact if_congr (wake_due h hx) rfl rfl
  · rw [hsame (by simp [hst])]
    obtain ⟨-, htick, hrel, -⟩ := waiting_due h hx hst
    rw [htick]
    by_cases hdue : t.nextReleaseOrder = now + 1
    · rw [if_pos hdue] at hrel ⊢
      rw [(Prod.mk.inj hrel).1]
      exact ⟨rfl, hdue⟩
    · rw [if_neg hdue] at hrel ⊢
      exact (Prod.mk.inj hrel).1
  · rw [hrelease]
    refine if_congr ((release_due h hx).trans ⟨Or.inl, fun hd => hd.resolve_right ?_⟩) rfl rfl
    rintro ⟨hst, hr⟩
    have ha : t.jobActive = false := by
      rw [← Bool.not_eq_true, h.active]
      simp [hst]
    rw [hsame (by simp [hst]), (tickTask_of_inactive (by simp [hst]) ha).1, hst] at hr
    cases hr
  · rw [inState_nextReleaseOrder, (job_tick h hx ha).next]
  · rw [hskip]
    refine if_congr ?_ rfl rfl
    rw [(skipped_due h hx).2]
    exact overruns_due h
  · rw [inState_deadlineMissCount, (job_tick h hx ha).misses]
    simp only [hlt, true_and]
  · rw [hmiss]
    refine if_congr ((miss_due h).trans ?_) rfl rfl
    rw [and_iff_right hlt]

lemma silent_nil : Silent [] := ⟨rfl, rfl, rfl, rfl⟩

/-- A call that completes a job records no miss. -/
lemma silent_outcome (h : SlotInv now t) (ha : t.jobActive = true) (e : TraceEvent)
    (he : e = .taskWaitPeriod ∨ e = .taskExit) (s : TaskState) (related v0 v1 v2 : ℕ) :
    Silent (outcomeRecords i t (inState (finishJob (osSchedRecordDeadlineMiss t now).1) s) ++
      [record e i related v0 v1 v2]) := by
  rw [h.recordDeadlineMiss ha, outcomeRecords, outcomeBatches]
  rcases he with rfl | rfl <;> cases hl : t.deadlineMissLatched <;>
    simp [hl, Silent, tally, record, deadlineRecord, TraceEvent.code]

/-- **Every step of a slot is on time.** -/
theorem onTime_of_step {l : Label} {now' : ℕ} {records : List TraceInput} (h : SlotInv now t)
    (hstep : SlotStep i now t l now' t' records) : OnTime now t now' t' records := by
  cases hstep with
  | same =>
    exact onTime_silent h silent_nil id (fun _ => rfl) (fun hst hr => by simp [hst] at hr)
      fun _ => ⟨rfl, rfl⟩
  | ticked hx =>
    rw [← inState_self (tickTask (now + 1) t)]
    exact onTime_tick h hx (Or.inl rfl)
  | preempted hx hrun => exact onTime_tick h hx (Or.inr hrun)
  | retired hst =>
    exact onTime_silent h silent_nil (by simp [hst]) (by simp [hst]) (by simp [hst])
      fun _ => ⟨rfl, rfl⟩
  | resumed hst =>
    have hne : t.state ≠ .sleeping ∧ t.state ≠ .waitingRelease ∧ t.state ≠ .dormant := by
      rcases hst with hst | hst <;> simp [hst]
    exact onTime_silent h silent_nil (fun hs => absurd hs hne.1) (fun hs => absurd hs hne.2.1)
      (fun hs => absurd hs hne.2.2) fun _ => ⟨rfl, rfl⟩
  | reclaimed hst =>
    have ha : t.jobActive ≠ true := fun ha => by
      have hs := h.active.mp ha
      simp [hst] at hs
    exact onTime_silent h silent_nil (by simp [hst]) (by simp [hst]) (by simp [hst])
      fun hact => absurd hact ha
  | cleared hst =>
    have ha : t.jobActive ≠ true := fun ha => by
      have hs := h.active.mp ha
      simp [hst] at hs
    exact onTime_silent h silent_nil (by simp [hst]) (by simp [hst])
      (fun _ hr => by cases hr) fun hact => absurd hact ha
  | @created config t' related hst hconf =>
    have ha : t.jobActive ≠ true := fun ha => by
      have hs := h.active.mp ha
      simp [hst] at hs
    refine ⟨by simp [hst], ?_, by simp [hst], ?_, fun hact => absurd hact ha, ?_,
      fun hact => absurd hact ha, ?_⟩
    · split <;> simp [tally, record, deadlineRecord, TraceEvent.code, hst]
    · split <;> simp [tally, record, deadlineRecord, TraceEvent.code, *]
    · split <;> simp [tally, record, deadlineRecord, TraceEvent.code, ha]
    · split <;> simp [tally, record, deadlineRecord, TraceEvent.code, ha]
  | yielded hst =>
    exact onTime_silent h ⟨rfl, rfl, rfl, rfl⟩ (by simp [hst]) (by simp [hst]) (by simp [hst])
      fun _ => ⟨rfl, rfl⟩
  | slept hsleep =>
    obtain ⟨⟨hst, -⟩, rfl⟩ := osSchedSleep_eq_true.mp hsleep
    exact onTime_silent h ⟨rfl, rfl, rfl, rfl⟩ (by simp [hst]) (by simp [hst]) (by simp [hst])
      fun _ => ⟨rfl, rfl⟩
  | waited hwait =>
    obtain ⟨⟨-, hst, ha⟩, rfl⟩ := osSchedWaitNextPeriod_eq_true.mp hwait
    refine onTime_silent h (silent_outcome h ha _ (Or.inl rfl) ..) (by simp [hst]) (by simp [hst])
      (by simp [hst]) fun _ => ?_
    rw [h.recordDeadlineMiss ha]
    exact ⟨rfl, rfl⟩
  | exited hdone =>
    obtain ⟨⟨hst, ha⟩, rfl⟩ := osSchedCompleteJob_eq_true.mp hdone
    refine onTime_silent h (silent_outcome h ha _ (Or.inr rfl) .exiting ..) (by simp [hst])
      (by simp [hst]) (by simp [hst]) fun _ => ?_
    rw [h.recordDeadlineMiss ha]
    exact ⟨rfl, rfl⟩

variable {img : Image} {P : KernelState → Label → Prop} {labels : List Label} {k : KernelState}

/-- **No overdue event is ever left pending**: in every state reached no timed event of a slot is
overdue, and every step takes each wake, release, skipped release and miss at exactly its own
tick, with one record. -/
theorem timed_events_on_time (h : Reaches img P labels k) (hi : i ∈ userSlots) :
    InTime k.monotonicTicks (k.schedules i) ∧
      ∀ l k', Step img k l k' → (∃ bs, Emitted k l k' bs) ∧ ∀ bs, Emitted k l k' bs →
        OnTime k.monotonicTicks (k.schedules i) k'.monotonicTicks (k'.schedules i)
          (about i bs) := by
  have hc := h.control
  have hslot := hc.table.slots i hi
  exact ⟨inTime_of_slotInv hslot, fun l k' hs => ⟨emitted_of_step hc hs, fun bs he =>
    onTime_of_step hslot (slotStep_of_step hc he.control hi)⟩⟩

/-- A task that is released every other tick, and takes longer. -/
def overrun : List Act := [.create (periodic 2 2)] ++ start ++ [.tick]

/-- The tick at which a job misses its deadline, and the release of the next one is skipped. -/
theorem timed_events_on_time_overrun : ∃ labels k k' bs,
    Reaches sampleImage Disciplined labels k ∧ Step sampleImage k .tick k' ∧
      Emitted k .tick k' bs ∧ (k.schedules 1).deadlineMissCount = 0 ∧
      (k'.schedules 1).deadlineMissCount = 1 ∧ (k.schedules 1).missedReleaseCount = 0 ∧
      (k'.schedules 1).missedReleaseCount = 1 ∧ InTime k.monotonicTicks (k.schedules 1) ∧
      OnTime k.monotonicTicks (k.schedules 1) k'.monotonicTicks (k'.schedules 1) (about 1 bs) := by
  obtain ⟨labels, k, k', log, bs, hr, -, hs, he, hview⟩ := @step_of_script .tick overrun _
    (fun c c' => [c, c'].map fun c =>
      ((c.schedules 1).deadlineMissCount, (c.schedules 1).missedReleaseCount))
    [(0, 0), (1, 1)] (by decide +kernel)
  simp only [List.map_cons, List.map_nil, List.cons.injEq, Prod.mk.injEq, and_true] at hview
  obtain ⟨⟨hmet, hnone⟩, hmissed, hskipped⟩ := hview
  obtain ⟨hintime, hsteps⟩ := timed_events_on_time hr.reaches (i := 1) (by decide)
  exact ⟨labels, k, k', bs, hr.reaches, hs, he, hmet, hmissed, hnone, hskipped, hintime,
    (hsteps .tick k' hs).2 bs he⟩

end Aymos.Timing
