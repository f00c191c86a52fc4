import Aymos.Occupancy
import Mathlib.Data.Set.Card
import Mathlib.Order.Interval.Finset.Nat

/-!
The releases of a periodic task.

The releases of a periodic task fall on `r₀`, `r₀ + p`, `r₀ + 2 * p` and so on. Each starts a job or
is skipped because the job before it is still active, and the next one is always ahead of the clock.
-/

namespace Aymos.Cadence

open Words Allocator Scheduler Trace WordMem Kernel Machine Handlers Frames Services Switch Slots
  Control Boot Ownership EmissionLog Safety Startup SlotSteps Timing Scenario Script Occupancy

/-! ### The grid of releases -/

/-- The releases that have fallen due by the tick `now`. -/
def releasesBy (r₀ p now : ℕ) : Set ℕ := {n | r₀ + n * p ≤ now}

variable {r₀ p d now m i : ℕ}

/-- The first release that is ahead counts those that are not. -/
lemma ncard_releasesBy (hdue : ∀ n < m, r₀ + n * p ≤ now) (hahead : now < r₀ + m * p) :
    (releasesBy r₀ p now).ncard = m := by
  have heq : releasesBy r₀ p now = ↑(Finset.range m) := by
    ext n
    simp only [releasesBy, Set.mem_ofPred_eq, Finset.coe_range, Set.mem_Iio]
    refine ⟨fun hn => ?_, hdue n⟩
    by_contra hge
    have hle : m * p ≤ n * p := Nat.mul_le_mul_right p (not_lt.mp hge)
    omega
  rw [heq, Set.ncard_coe_finset, Finset.card_range]

/-! ### The invariant of the cadence -/

/-- **The cadence of a periodic task**, up to the tick `now`. -/
structure OnCadence (r₀ p d now : ℕ) (t : SchedTask) : Prop where
  kind : t.kind = .periodic
  period : t.periodTicks = p
  relativeDeadline : t.relativeDeadlineTicks = d
  due : t.state ≠ .exiting → ∃ m, t.nextReleaseOrder = r₀ + m * p ∧
    (∀ n < m, r₀ + n * p ≤ now) ∧
    (m < uint32Max → t.jobSequence + t.missedReleaseCount = m)
  job : 0 < t.jobSequence → ∃ j, t.releaseOrder = r₀ + j * p ∧
    t.absoluteDeadlineOrder = t.releaseOrder + d

variable {t t' : SchedTask}

/-- A call that changes neither the next release nor the job. -/
lemma OnCadence.inState (h : OnCadence r₀ p d now t) (hst : t.state ≠ .exiting) (s : TaskState) :
    OnCadence r₀ p d now (inState t s) :=
  ⟨h.kind, h.period, h.relativeDeadline, fun _ => h.due hst, h.job⟩

/-- One more release has fallen due. -/
lemma due_succ (hdue : ∀ n < m, r₀ + n * p ≤ now) (hnext : r₀ + m * p = now + 1) :
    ∀ n < m + 1, r₀ + n * p ≤ now + 1 := fun n hn => by
  rcases (Nat.lt_succ_iff_lt_or_eq.mp hn) with hlt | rfl
  · exact (hdue n hlt).trans (Nat.le_succ now)
  · exact hnext.le

lemma next_succ : r₀ + m * p + p = r₀ + (m + 1) * p := by
  rw [Nat.succ_mul, Nat.add_assoc]

/-- **A release that starts a job.** -/
lemma OnCadence.release (h : OnCadence r₀ p d now t) (hst : t.state ≠ .exiting)
    (hnext : t.nextReleaseOrder = now + 1) : OnCadence r₀ p d (now + 1) (startJob (redate t)) := by
  obtain ⟨m, hm, hdue, hcount⟩ := h.due hst
  refine ⟨h.kind, h.period, h.relativeDeadline, fun _ => ⟨m + 1, ?_, ?_, fun hlt => ?_⟩, fun _ =>
    ⟨m, hm, ?_⟩⟩
  · simp only [startJob_nextReleaseOrder, followingRelease, redate_kind, h.kind,
      redate_releaseOrder, redate_periodTicks, h.period, hm, next_succ]
  · exact due_succ hdue (hm.symm.trans hnext)
  · have hsum := hcount (Nat.lt_of_succ_lt hlt)
    have hseq : t.jobSequence < uint32Max := by omega
    simp only [startJob_jobSequence, redate_jobSequence, startJob_missedReleaseCount,
      redate_missedReleaseCount, incrementSaturating_of_lt hseq]
    omega
  · simp only [startJob_absoluteDeadlineOrder, startJob_releaseOrder, redate_relativeDeadlineTicks,
      h.relativeDeadline]

/-- **A tick while the job is active**, which skips the release that falls due. -/
lemma OnCadence.active (h : OnCadence r₀ p d now t) (hst : t.state ≠ .exiting)
    (hjob : TicksJob now t t') : OnCadence r₀ p d (now + 1) t' := by
  have hs := hjob.job
  obtain ⟨m, hm, hdue, hcount⟩ := h.due hst
  refine ⟨hs.kind.trans h.kind, hs.period.trans h.period,
    hs.relativeDeadline.trans h.relativeDeadline, fun _ => ?_, fun hpos => ?_⟩
  · have hnext := hjob.next
    have hmissed := hjob.missed
    simp only [h.kind, true_and, h.period] at hnext hmissed
    have hseq : t'.jobSequence = t.jobSequence := hs.sequence
    by_cases hd : t.nextReleaseOrder = now + 1
    · rw [if_pos hd] at hnext hmissed
      refine ⟨m + 1, ?_, due_succ hdue (hm.symm.trans hd), fun hlt => ?_⟩
      · rw [hnext, hm, next_succ]
      · have hsum := hcount (Nat.lt_of_succ_lt hlt)
        rw [hseq, hmissed, incrementSaturating_of_lt (by omega)]
        omega
    · rw [if_neg hd] at hnext hmissed
      refine ⟨m, hnext.trans hm, fun n hn => (hdue n hn).trans (Nat.le_succ now), fun hlt => ?_⟩
      rw [hseq, hmissed]
      exact hcount hlt
  · have hseq : t'.jobSequence = t.jobSequence := hs.sequence
    rw [hseq] at hpos
    have hrel : t'.releaseOrder = t.releaseOrder := hs.release
    have hdead : t'.absoluteDeadlineOrder = t.absoluteDeadlineOrder := hs.deadline
    rw [hrel, hdead]
    exact h.job hpos

/-- A tick. -/
lemma OnCadence.tick (h : OnCadence r₀ p d now t) (hslot : SlotInv now t)
    (hx : tickExhausts (now + 1) t = false) : OnCadence r₀ p d (now + 1) (tickTask (now + 1) t) := by
  cases ha : t.jobActive with
  | true =>
    refine h.active (fun hst => ?_) (job_tick hslot hx ha)
    have hs := hslot.active.mp ha
    simp [hst] at hs
  | false =>
    have hlater : OnCadence r₀ p d (now + 1) t :=
      ⟨h.kind, h.period, h.relativeDeadline, fun hst => by
        obtain ⟨m, hm, hdue, hcount⟩ := h.due hst
        exact ⟨m, hm, fun n hn => (hdue n hn).trans (Nat.le_succ now), hcount⟩, h.job⟩
    by_cases hw : t.state = .waitingRelease
    · obtain ⟨-, htick, hrel, -⟩ := waiting_due hslot hx hw
      rw [htick]
      by_cases hdue : t.nextReleaseOrder = now + 1
      · rw [if_pos hdue] at hrel
        rw [(Prod.mk.inj hrel).1]
        exact h.release (by simp [hw]) hdue
      · rw [if_neg hdue] at hrel
        rw [(Prod.mk.inj hrel).1]
        exact hlater
    · rw [(tickTask_of_inactive hw ha).1]
      exact hlater

/-- The creation of a periodic task. -/
lemma onCadence_configure {config : TaskTimingConfig} {t₀ : ℕ} (hk : config.kind = .periodic)
    (h : osSchedTaskConfigure t config t₀ = (t', true)) :
    OnCadence (t₀ + config.initialReleaseDelayTicks) config.periodTicks
      config.relativeDeadlineTicks t₀ t' := by
  obtain ⟨-, -, -, rfl⟩ := osSchedTaskConfigure_eq_true h
  split
  · next h0 =>
    refine ⟨hk, rfl, rfl, fun _ => ⟨1, ?_, fun n hn => ?_, fun _ => rfl⟩, fun _ => ⟨0, ?_, rfl⟩⟩
    · simp only [startJob_nextReleaseOrder, followingRelease, armed_kind, hk, armed_releaseOrder,
        armed_periodTicks, one_mul]
    · rw [Nat.lt_one_iff.mp hn, h0]
      omega
    · simp
  · exact ⟨hk, rfl, rfl, fun _ => ⟨0, by simp, fun n hn => absurd hn (Nat.not_lt_zero n),
      fun _ => rfl⟩, fun hpos => absurd hpos (lt_irrefl 0)⟩

/-- **Every step keeps the cadence.** -/
lemma OnCadence.step {l : Label} {now' : ℕ} {records : List TraceInput}
    (h : OnCadence r₀ p d now t) (hslot : SlotInv now t) (hd : t.state ≠ .dormant)
    (hd' : t'.state ≠ .dormant) (hstep : SlotStep i now t l now' t' records) :
    OnCadence r₀ p d now' t' := by
  cases hstep with
  | same => exact h
  | ticked hx => exact h.tick hslot hx
  | preempted hx hrun =>
    have hst : (tickTask (now + 1) t).state ≠ .exiting := by
      have hact : t.jobActive = true := hslot.active.mpr (Or.inr (Or.inl hrun))
      rw [(job_tick hslot hx hact).state]
      simp [hrun]
    exact (h.tick hslot hx).inState hst _
  | retired hrun => exact h.inState (by simp [hrun]) _
  | resumed hst => exact h.inState (by rcases hst with hst | hst <;> simp [hst]) _
  | reclaimed => exact absurd rfl hd'
  | cleared => exact absurd rfl hd'
  | created hst => exact absurd hst hd
  | yielded hrun => exact h.inState (by simp [hrun]) _
  | slept hsleep =>
    obtain ⟨⟨hrun, -⟩, rfl⟩ := osSchedSleep_eq_true.mp hsleep
    exact ⟨h.kind, h.period, h.relativeDeadline, fun _ => h.due (by simp [hrun]), h.job⟩
  | waited hwait =>
    obtain ⟨⟨-, hrun, ha⟩, rfl⟩ := osSchedWaitNextPeriod_eq_true.mp hwait
    rw [hslot.recordDeadlineMiss ha]
    exact ⟨h.kind, h.period, h.relativeDeadline, fun _ => h.due (by simp [hrun]), h.job⟩
  | exited hdone =>
    obtain ⟨⟨hrun, ha⟩, rfl⟩ := osSchedCompleteJob_eq_true.mp hdone
    rw [hslot.recordDeadlineMiss ha]
    exact ⟨h.kind, h.period, h.relativeDeadline, fun hst => absurd rfl hst, h.job⟩

/-! ### Along runs -/

variable {img : Image} {P : KernelState → Label → Prop} {config : TaskConfig} {t₀ : ℕ}
  {k : KernelState} {log : Log}

/-- The cadence of the occupant of a slot. -/
lemma onCadence_of_occupied (h : Occupied img P i config t₀ k log)
    (hk : config.timing.kind = .periodic) :
    OnCadence (t₀ + config.timing.initialReleaseDelayTicks) config.timing.periodTicks
      config.timing.relativeDeadlineTicks k.monotonicTicks (k.schedules i) :=
  h.induction (Q := fun now t _ => OnCadence (t₀ + config.timing.initialReleaseDelayTicks)
      config.timing.periodTicks config.timing.relativeDeadlineTicks now t)
    (fun hconf => onCadence_configure hk hconf)
    (fun hslot _ hd hd' hq hstep => hq.step hslot hd hd' hstep)

/-- The next release of a periodic task is ahead of the clock. -/
lemma next_ahead (hslot : SlotInv now t) (hk : t.kind = .periodic) (hd : t.state ≠ .dormant)
    (hst : t.state ≠ .exiting) : now < t.nextReleaseOrder := by
  cases hs : t.state with
  | dormant => exact absurd hs hd
  | waitingRelease => exact (hslot.waiting hs).1
  | ready => exact (hslot.next (hslot.active.mpr (Or.inl hs)) hk).1
  | running => exact (hslot.next (hslot.active.mpr (Or.inr (Or.inl hs))) hk).1
  | sleeping => exact (hslot.next (hslot.active.mpr (Or.inr (Or.inr hs))) hk).1
  | exiting => exact absurd hs hst

/-- **No release is lost, duplicated or shifted.** As long as a periodic task holds its slot and has
not exited, the jobs that started and the releases that were skipped count the releases that have
fallen due, the next release follows them on the grid, and the current or last job has its
deadline at its own release. -/
theorem release_cadence (h : Occupied img P i config t₀ k log)
    (hk : config.timing.kind = .periodic) (hst : (k.schedules i).state ≠ .exiting)
    (hfew : (releasesBy (t₀ + config.timing.initialReleaseDelayTicks) config.timing.periodTicks
      k.monotonicTicks).ncard < 2 ^ 32 - 1) :
    (k.schedules i).jobSequence + (k.schedules i).missedReleaseCount =
        (releasesBy (t₀ + config.timing.initialReleaseDelayTicks) config.timing.periodTicks
          k.monotonicTicks).ncard ∧
      (k.schedules i).nextReleaseOrder = t₀ + config.timing.initialReleaseDelayTicks +
        ((k.schedules i).jobSequence + (k.schedules i).missedReleaseCount) *
          config.timing.periodTicks ∧
      (0 < (k.schedules i).jobSequence → ∃ j,
        (k.schedules i).releaseOrder = t₀ + config.timing.initialReleaseDelayTicks +
          j * config.timing.periodTicks ∧
        (k.schedules i).absoluteDeadlineOrder =
          (k.schedules i).releaseOrder + (k.schedules i).relativeDeadlineTicks) := by
  obtain ⟨labels, hr⟩ := h.reaches
  have hslot : SlotInv k.monotonicTicks (k.schedules i) := hr.control.table.slots i h.slot
  have hcad := onCadence_of_occupied h hk
  obtain ⟨m, hm, hdue, hcount⟩ := hcad.due hst
  have hahead := next_ahead hslot hcad.kind h.occupied hst
  rw [hm] at hahead
  have hcard := ncard_releasesBy hdue hahead
  rw [hcard] at hfew ⊢
  have hsum := hcount hfew
  refine ⟨hsum, hsum.symm ▸ hm, fun hpos => ?_⟩
  obtain ⟨j, hj, hdead⟩ := hcad.job hpos
  exact ⟨j, hj, hcad.relativeDeadline.symm ▸ hdead⟩

/-- Past a release that is skipped. -/
theorem release_cadence_skipping : ∃ k log,
    Occupied sampleImage Disciplined 1 (sampleConfig (periodic 2 2)) 0 k log ∧
      (k.schedules 1).jobSequence = 2 ∧ (k.schedules 1).missedReleaseCount = 1 ∧
      (k.schedules 1).jobSequence + (k.schedules 1).missedReleaseCount =
        (releasesBy (0 + 0) 2 k.monotonicTicks).ncard ∧
      (k.schedules 1).nextReleaseOrder =
        0 + 0 + ((k.schedules 1).jobSequence + (k.schedules 1).missedReleaseCount) * 2 ∧
      (0 < (k.schedules 1).jobSequence → ∃ j, (k.schedules 1).releaseOrder = 0 + 0 + j * 2 ∧
        (k.schedules 1).absoluteDeadlineOrder =
          (k.schedules 1).releaseOrder + (k.schedules 1).relativeDeadlineTicks) := by
  obtain ⟨c, log, ⟨labels, k, -, rfl, -, hocc⟩, hview⟩ :=
    @tenant_of_script (periodic 2 2) skipping _
    (fun r => ((r.1.ticks, (r.1.schedules 1).state), (r.1.schedules 1).jobSequence,
      (r.1.schedules 1).missedReleaseCount))
    ((5, .waitingRelease), 2, 1) (by decide +kernel)
  simp only [Prod.mk.injEq] at hview
  obtain ⟨⟨hticks, hstate⟩, hjobs, hskipped⟩ := hview
  have hticks : k.monotonicTicks = 5 := hticks
  have hstate : (k.schedules 1).state ≠ .exiting := by
    rw [show (k.schedules 1).state = .waitingRelease from hstate]
    decide
  have hthree : (releasesBy (0 + 0) 2 5).ncard = 3 :=
    ncard_releasesBy (fun n hn => by omega) (by decide)
  have hcadence := release_cadence hocc rfl hstate
    (by rw [hticks]; exact hthree.trans_lt (by decide))
  exact ⟨k, log, hocc, hjobs, hskipped, hcadence⟩

end Aymos.Cadence
