import Aymos.Demand
import Aymos.Dispatch
import Aymos.Script
import Aymos.SlotSteps

/-!
No deadline is missed that can be met.

Tasks that only compute, and that give up the processor as soon as their jobs have been charged all
they demand, meet every deadline under the kernel if any assignment of the ticks to the jobs could.
The kernel charges each tick to a job with the earliest deadline, so that the ticks it has charged
are a schedule of `Demand`.
-/

namespace Aymos.Optimality

open Words Allocator Scheduler Trace WordMem Kernel Machine Handlers Frames Services Switch Slots
  Select Control Boot EmissionLog SlotSteps Dispatch Demand Stacks Safety Startup Scenario Script

/-- A job, with its release tick and its absolute deadline. -/
structure Job where
  slot : ℕ
  release : ℕ
  deadline : ℕ
  deriving DecidableEq, Repr

/-- The job of the record in slot `i`. -/
def jobOf (i : ℕ) (t : SchedTask) : Job := ⟨i, t.releaseOrder, t.absoluteDeadlineOrder⟩

variable (demand : Job → ℕ)

/-- The job that is running has been charged all it demands. -/
def Done (k : KernelState) : Prop :=
  k.currentTask ≠ taskIdIdle ∧ (k.schedules k.currentTask).state = .running ∧
    demand (jobOf k.currentTask (k.schedules k.currentTask)) ≤
      (k.schedules k.currentTask).jobExecutionTicks

/-- **What the tasks do.** They are created before the start, neither sleep nor yield, and wait for
the next period or exit exactly when their job is done. No tick comes before the first dispatch,
while a switch is pending, or before a job that is done has left. -/
def Workload (k : KernelState) : Label → Prop
  | .tick => k.hasActiveContext = true ∧ k.mode = .thread ∧ k.cpu.pendsv = false ∧ ¬Done demand k
  | .create _ => k.running = false
  | .waitNextPeriod | .taskExit => Done demand k
  | .yield | .sleep _ => False
  | _ => True

/-- The runs from `os_kernel_init` by steps that all meet `P`, with the states they visit, the last
one first. -/
inductive Visits (img : Image) (P : KernelState → Label → Prop) :
    List KernelState → KernelState → Prop
  | boot {m : ByteMem.Mem} {ram : Ram} {pc : ℕ} : isUserPc img pc = true →
    Visits img P [booted img m ram pc] (booted img m ram pc)
  | step {states : List KernelState} {k k' : KernelState} {l : Label} : Visits img P states k →
    P k l → Step img k l k' → Visits img P (k' :: states) k'

/-- A job has been released, and has not completed. -/
def Pending (k : KernelState) (j : Job) : Prop :=
  ∃ i ∈ userSlots, (k.schedules i).jobActive = true ∧ j = jobOf i (k.schedules i)

/-- The jobs that are released in a run. -/
def Released (states : List KernelState) (j : Job) : Prop := ∃ k ∈ states, Pending k j

/-- What jobs ask for. -/
def terms : Terms Job := ⟨Job.release, Job.deadline, demand⟩

/-- **An assignment of the ticks** gives every job of a run the ticks it demands, after its release
and before its deadline. -/
def Feasible (assignment : ℕ → Option Job) (states : List KernelState) : Prop :=
  ∀ j, Released states j → Meets (terms demand) assignment j

variable {demand} {img : Image} {P : KernelState → Label → Prop} {labels : List Label}
  {k k' : KernelState} {l : Label} {states : List KernelState} {i now now' : ℕ} {t t' : SchedTask}
  {records : List TraceInput}

lemma Visits.reaches (h : Visits img P states k) : ∃ labels, Reaches img P labels k := by
  induction h with
  | boot hpc => exact ⟨[], _, _, _, _, hpc, osKernelInit_powerOn img _ _ _, .nil⟩
  | step _ hp hs ih =>
    obtain ⟨labels, hr⟩ := ih
    exact ⟨_, hr.step hp hs⟩

/-! ### One slot -/

/-- A record of a workload that has met its deadlines. -/
structure Clean (t : SchedTask) : Prop where
  misses : t.deadlineMissCount = 0
  awake : t.state ≠ .sleeping

lemma clean_reset (i : ℕ) : Clean (osSchedTaskReset i) := ⟨rfl, by simp [osSchedTaskReset]⟩

/-- What a step between ticks leaves of the active job. -/
structure SameActive (i : ℕ) (t t' : SchedTask) : Prop where
  active : t.jobActive = true
  job : jobOf i t' = jobOf i t
  charged : t'.jobExecutionTicks = t.jobExecutionTicks

/-- A job that is released at a tick. -/
structure Fresh (now : ℕ) (t : SchedTask) : Prop where
  release : t.releaseOrder = now
  deadline : now < t.absoluteDeadlineOrder
  charged : t.jobExecutionTicks = 0

/-- A job that completes before its deadline does not miss it. -/
lemma clean_completed (hclean : Clean t) (hdead : now < t.absoluteDeadlineOrder) :
    (finishJob (osSchedRecordDeadlineMiss t now).1).deadlineMissCount = 0 := by
  rw [osSchedRecordDeadlineMiss_eq, if_neg fun hx => absurd hx.2.2 (not_le.mpr hdead)]
  exact hclean.misses

/-- **A slot between ticks.** -/
lemma slot_between (h : SlotStep i now t l now' t' records) (hnow : now' = now)
    (hl : ∀ ticks, l ≠ .sleep ticks) (hclean : Clean t)
    (hdead : t.jobActive = true → now < t.absoluteDeadlineOrder) :
    Clean t' ∧ (t'.jobActive = true → SameActive i t t' ∨ Fresh now t') := by
  have hstate : ∀ {s : TaskState}, s ≠ .sleeping →
      Clean (inState t s) ∧ ((inState t s).jobActive = true →
        SameActive i t (inState t s) ∨ Fresh now (inState t s)) := fun hs =>
    ⟨⟨hclean.misses, hs⟩, fun ha => Or.inl ⟨ha, rfl, rfl⟩⟩
  have hreset : Clean (osSchedTaskReset i) ∧ ((osSchedTaskReset i).jobActive = true →
      SameActive i t (osSchedTaskReset i) ∨ Fresh now (osSchedTaskReset i)) :=
    ⟨clean_reset i, fun ha => by cases ha⟩
  cases h with
  | same => exact ⟨hclean, fun ha => Or.inl ⟨ha, rfl, rfl⟩⟩
  | ticked => omega
  | preempted => omega
  | retired => exact hstate (by decide)
  | resumed => exact hstate (by decide)
  | reclaimed => exact hreset
  | cleared => exact hreset
  | created _ hconf =>
    obtain ⟨hvalid, -, -, rfl⟩ := osSchedTaskConfigure_eq_true hconf
    split
    · next hzero =>
      have hrelease : (armed t.id _ now).releaseOrder = now := congrArg (now + ·) hzero
      refine ⟨⟨rfl, by simp⟩, fun _ => Or.inr ⟨hrelease, ?_, rfl⟩⟩
      have hpos := hvalid.deadline_pos
      simp only [startJob_absoluteDeadlineOrder, hrelease, armed_relativeDeadlineTicks]
      omega
    · exact ⟨⟨rfl, by simp [armed]⟩, fun ha => by cases ha⟩
  | yielded => exact hstate (by decide)
  | slept => exact absurd rfl (hl _)
  | waited hwait =>
    obtain ⟨⟨-, -, ha⟩, rfl⟩ := osSchedWaitNextPeriod_eq_true.mp hwait
    exact ⟨⟨clean_completed hclean (hdead ha), by simp⟩, fun ha => by cases ha⟩
  | exited hdone =>
    obtain ⟨⟨-, ha⟩, rfl⟩ := osSchedCompleteJob_eq_true.mp hdone
    exact ⟨⟨clean_completed hclean (hdead ha), by simp⟩, fun ha => by cases ha⟩

/-- What a tick leaves of the active job. -/
structure Charged (i : ℕ) (t t' : SchedTask) : Prop where
  active : t.jobActive = true
  job : jobOf i t' = jobOf i t
  charged : t'.jobExecutionTicks =
    if t.state = .running then incrementSaturating t.jobExecutionTicks else t.jobExecutionTicks

/-- Up to the skipped release, the tick of a job that does not miss its deadline. -/
lemma skipped_charged (hdead : now < t.absoluteDeadlineOrder) :
    (skipped now t).deadlineMissCount = t.deadlineMissCount ∧
      (skipped now t).jobExecutionTicks = (accounted t).jobExecutionTicks := by
  have hmiss : ¬(t.jobActive = true ∧ t.deadlineMissLatched = false ∧
      t.absoluteDeadlineOrder ≤ now) := fun hx => absurd hx.2.2 (not_le.mpr hdead)
  have hchecked : checked now t = accounted t := by rw [checked_eq, if_neg hmiss]
  have hcount : (accounted t).deadlineMissCount = t.deadlineMissCount := by
    rw [accounted_eq]
    split <;> rfl
  rw [skipped, hchecked, osSchedRecordActiveRelease_eq]
  split_ifs <;> exact ⟨hcount, rfl⟩

/-- The tick of an active job that does not miss its deadline. -/
lemma tick_active (hclean : Clean t) (ha : t.jobActive = true) (hw : t.state ≠ .waitingRelease)
    (hdead : now < t.absoluteDeadlineOrder) :
    Clean (tickTask now t) ∧ Charged i t (tickTask now t) := by
  have hwake := (tickTask_of_not_waiting (n := now) hw).2.2
  rw [if_neg fun hx => hclean.awake hx.1, Prod.mk.injEq] at hwake
  have hsame := skipped_sameJob (n := now) (t := t)
  obtain ⟨hmisses, hcharged⟩ := skipped_charged hdead
  rw [hwake.1]
  refine ⟨⟨hmisses.trans hclean.misses, fun hs => hclean.awake (hsame.state.symm.trans hs)⟩, ha, ?_,
    ?_⟩
  · rw [jobOf, hsame.release, hsame.deadline]
    rfl
  · rw [hcharged, accounted_eq]
    simp only [ha, and_true]
    split <;> rfl

/-- The tick of a slot that waits for its release. -/
lemma tick_waiting (hslot : SlotInv now t) (hx : tickExhausts (now + 1) t = false)
    (hclean : Clean t) (hw : t.state = .waitingRelease) :
    Clean (tickTask (now + 1) t) ∧ ((tickTask (now + 1) t).jobActive = true →
      Fresh (now + 1) (tickTask (now + 1) t)) := by
  have ha := SlotInv.waiting_inactive hslot hw
  obtain ⟨-, htick, hrel⟩ := tickTask_of_waiting (n := now + 1) hw ha
  rw [tickExhausts, Bool.or_eq_false_iff] at hx
  rw [htick]
  split_ifs at hrel with hdue hexhausts
  · -- the orders of the job do not fit in the clock
    rw [(Prod.mk.inj hrel).1] at hx
    exact absurd hx.2 (by simp)
  · have hrelease : t.nextReleaseOrder = now + 1 := by
      have := hslot.waiting hw
      omega
    have hpos := hslot.deadline_pos (by simp [hw])
    rw [(Prod.mk.inj hrel).1]
    refine ⟨⟨hclean.misses, by simp⟩, fun _ => ⟨hrelease, ?_, rfl⟩⟩
    simp only [startJob_absoluteDeadlineOrder, redate_releaseOrder, redate_relativeDeadlineTicks]
    omega
  · rw [(Prod.mk.inj hrel).1]
    exact ⟨hclean, fun hx => absurd (hx.symm.trans ha) (by decide)⟩

/-- A step that moves the clock. -/
lemma tick_of_slotStep (h : SlotStep i now t l now' t' records) (hnow : now' = now + 1) :
    tickExhausts (now + 1) t = false ∧
      ∃ u, u = tickTask (now + 1) t ∧ (t' = u ∨ t' = inState u .ready) := by
  cases h with
  | ticked hx => exact ⟨hx, _, rfl, Or.inl rfl⟩
  | preempted hx => exact ⟨hx, _, rfl, Or.inr rfl⟩
  | _ => exact absurd hnow (Nat.ne_of_lt (Nat.lt_succ_self now))

/-- **A slot through a tick.** -/
lemma slot_tick (hslot : SlotInv now t) (h : SlotStep i now t l now' t' records)
    (hnow : now' = now + 1) (hclean : Clean t)
    (hdead : t.jobActive = true → now + 1 < t.absoluteDeadlineOrder) :
    Clean t' ∧ (t'.jobActive = true → Charged i t t' ∨ Fresh (now + 1) t') := by
  obtain ⟨hx, u, hu, ht'⟩ := tick_of_slotStep h hnow
  have htick : Clean u ∧ (u.jobActive = true → Charged i t u ∨ Fresh (now + 1) u) := by
    rw [hu]
    by_cases hw : t.state = .waitingRelease
    · obtain ⟨hnext, hfresh⟩ := tick_waiting hslot hx hclean hw
      exact ⟨hnext, fun ha => Or.inr (hfresh ha)⟩
    · cases ha : t.jobActive with
      | true =>
        obtain ⟨hnext, hcharged⟩ := tick_active (i := i) hclean ha hw (hdead ha)
        exact ⟨hnext, fun _ => Or.inl hcharged⟩
      | false =>
        rw [(tickTask_of_inactive hw ha).1]
        exact ⟨hclean, fun hx => absurd (hx.symm.trans ha) (by decide)⟩
  rcases ht' with rfl | rfl
  · exact htick
  · refine ⟨⟨htick.1.misses, by simp⟩, fun ha => ?_⟩
    rcases htick.2 ha with hcharged | hfresh
    · exact Or.inl ⟨hcharged.active, hcharged.job, hcharged.charged⟩
    · exact Or.inr ⟨hfresh.release, hfresh.deadline, hfresh.charged⟩

/-! ### The ticks that the kernel charges -/

/-- The job that a tick is charged to. -/
def charge (k : KernelState) : Option Job :=
  if k.currentTask = taskIdIdle then none
  else some (jobOf k.currentTask (k.schedules k.currentTask))

/-- **The invariant of a workload**, with the jobs that the ticks have been charged to. -/
structure Serves (demand : Job → ℕ) (assignment g : ℕ → Option Job) (k : KernelState) : Prop where
  onTime : OnTime (terms demand) assignment g k.monotonicTicks (Pending k)
  charged : ∀ i ∈ userSlots, (k.schedules i).jobActive = true →
    served g 0 k.monotonicTicks (jobOf i (k.schedules i)) = (k.schedules i).jobExecutionTicks
  clean : ∀ i ∈ userSlots, Clean (k.schedules i)
  edf : EdfInv (ctl k)

variable {assignment g : ℕ → Option Job} {bs : List (List TraceInput)}

/-- **Between ticks** jobs complete, or are released by their creation. -/
lemma Serves.between (h : Serves demand assignment g k) (hc : ControlInv (ctl k))
    (he : Emitted k l k' bs) (hp : Workload demand k l)
    (hticks : k'.monotonicTicks = k.monotonicTicks)
    (hmeets : ∀ j, Pending k' j → Meets (terms demand) assignment j) :
    Serves demand assignment g k' := by
  have hslot : ∀ i ∈ userSlots, Clean (k'.schedules i) ∧ ((k'.schedules i).jobActive = true →
      SameActive i (k.schedules i) (k'.schedules i) ∨
        Fresh k.monotonicTicks (k'.schedules i)) := fun i hi => by
    refine slot_between (slotStep_of_step hc he.control hi) hticks (fun ticks hl => ?_)
      (h.clean i hi) fun ha => (h.onTime.pending _ ⟨i, hi, ha, rfl⟩).1
    rw [hl] at hp
    exact hp
  have hnext : ∀ j, Pending k' j → Pending k j ∨ (j.release = k.monotonicTicks ∧
      k.monotonicTicks < j.deadline ∧ Meets (terms demand) assignment j) := by
    intro j hj
    have hin := hmeets j hj
    obtain ⟨i, hi, ha, rfl⟩ := hj
    rcases (hslot i hi).2 ha with hsame | hfresh
    · exact Or.inl ⟨i, hi, hsame.active, hsame.job⟩
    · exact Or.inr ⟨hfresh.release, hfresh.deadline, hin⟩
  refine ⟨hticks ▸ h.onTime.between hnext, fun i hi ha => ?_, fun i hi => (hslot i hi).1, ?_⟩
  · rw [hticks]
    rcases (hslot i hi).2 ha with hsame | hfresh
    · rw [hsame.job, hsame.charged]
      exact h.charged i hi hsame.active
    · rw [hfresh.charged]
      exact h.onTime.fresh hfresh.release.ge
  · refine h.edf.step hc he.control fun hl => ?_
    rw [hl] at hp
    exact hp

/-- **The kernel charges the earliest deadline.** -/
lemma Serves.earliest (h : Serves demand assignment g k) (hc : ControlInv (ctl k))
    (hp : Workload demand k .tick) :
    (∀ r ∈ charge k, Pending k r ∧ served g 0 k.monotonicTicks r < demand r) ∧
      ∀ j, Pending k j → ∃ r ∈ charge k, r.deadline ≤ j.deadline := by
  obtain ⟨hactive, hmode, hpend, hdone⟩ := hp
  have hmode : k.mode ≠ .pendsvEntry := by
    rw [hmode]
    decide
  have hrun : (k.schedules k.currentTask).state = .running :=
    hc.runner hactive (Or.inl ⟨hpend, hmode⟩)
  have hlt : k.currentTask < osTaskCount := hc.current_lt (hc.active.mp hactive)
  refine ⟨fun r hr => ?_, ?_⟩
  · rw [charge] at hr
    split at hr
    · cases hr
    · next hidle =>
      obtain rfl := Option.some.inj hr
      have hi := userSlot_of_ne_idle hlt hidle
      have ha : (k.schedules k.currentTask).jobActive = true :=
        (hc.table.slots _ hi).active.mpr (Or.inr (Or.inl hrun))
      refine ⟨⟨_, hi, ha, rfl⟩, ?_⟩
      rw [h.charged _ hi ha]
      exact not_le.mp fun hle => hdone ⟨hidle, hrun, hle⟩
  · rintro j ⟨i, hi, ha, rfl⟩
    have hstate : (k.schedules i).state = .ready ∨ (k.schedules i).state = .running := by
      have hawake := (h.clean i hi).awake
      have hst := (hc.table.slots i hi).active.mp ha
      tauto
    have hid : (k.schedules k.currentTask).id = k.currentTask := hc.incumbent_id hactive
    have hidi : (k.schedules i).id ≠ taskIdIdle := by
      rw [show (k.schedules i).id = i from hc.table.id i (mem_userSlots.mp hi).2]
      exact (userSlot_ne_idle hi).symm
    rcases hstate with hready | hruns
    · -- a ready task goes neither before idle nor before the current one
      have hnot : ¬Urgent (k.schedules i) (k.schedules k.currentTask) :=
        h.edf.urgent hactive hpend hmode i hi
      have hidle : k.currentTask ≠ taskIdIdle := fun hidle =>
        hnot ⟨⟨hready, ha⟩, hidi, Or.inl (hid.trans hidle)⟩
      refine ⟨_, if_neg hidle, not_lt.mp fun hlt => hnot ⟨⟨hready, ha⟩, hidi, Or.inr ?_⟩⟩
      exact key_lt_iff.mpr (Or.inl hlt)
    · have hcur : i = k.currentTask := hc.runs i (mem_userSlots.mp hi).2 hruns
      have hidle : k.currentTask ≠ taskIdIdle := hcur ▸ (userSlot_ne_idle hi).symm
      exact ⟨_, if_neg hidle, hcur ▸ le_rfl⟩

/-- The charge of a tick, as the counter of a pending job has it. -/
lemma charge_eq_some (hc : ControlInv (ctl k)) (hrun : (k.schedules k.currentTask).state = .running)
    (hi : i ∈ userSlots) :
    charge k = some (jobOf i (k.schedules i)) ↔ (k.schedules i).state = .running := by
  rw [charge]
  constructor
  · intro hx
    split at hx
    · cases hx
    · have hslot : k.currentTask = i := congrArg Job.slot (Option.some.inj hx)
      rw [← hslot]
      exact hrun
  · intro hruns
    have hcur : i = k.currentTask := hc.runs i (mem_userSlots.mp hi).2 hruns
    rw [← hcur, if_neg (userSlot_ne_idle hi).symm]

/-- **A tick** of a workload. -/
lemma Serves.tick (h : Serves demand assignment g k) (hc : ControlInv (ctl k))
    (he : Emitted k .tick k' bs) (hp : Workload demand k .tick)
    (hticks : k'.monotonicTicks = k.monotonicTicks + 1)
    (hmeets : ∀ j, Pending k' j → Meets (terms demand) assignment j) :
    Serves demand assignment (Function.update g (k.monotonicTicks + 1) (charge k)) k' := by
  obtain ⟨hserves, hearliest⟩ := h.earliest hc hp
  obtain ⟨hactive, hmode, hpend, -⟩ := hp
  have hrun : (k.schedules k.currentTask).state = .running :=
    hc.runner hactive (Or.inl ⟨hpend, by rw [show (ctl k).mode = .thread from hmode]; decide⟩)
  have hslot : ∀ i ∈ userSlots, Clean (k'.schedules i) ∧ ((k'.schedules i).jobActive = true →
      Charged i (k.schedules i) (k'.schedules i) ∨
        Fresh (k.monotonicTicks + 1) (k'.schedules i)) := fun i hi => by
    refine slot_tick (hc.table.slots i hi) (slotStep_of_step hc he.control hi) hticks (h.clean i hi)
      fun ha => ?_
    obtain ⟨r, hr, hle⟩ := hearliest _ ⟨i, hi, ha, rfl⟩
    obtain ⟨hr, hlacks⟩ := hserves r hr
    exact (h.onTime.in_time hr hlacks).trans_le hle
  have hnext : ∀ j, Pending k' j → Pending k j ∨ (j.release = k.monotonicTicks + 1 ∧
      k.monotonicTicks + 1 < j.deadline ∧ Meets (terms demand) assignment j) := by
    intro j hj
    have hin := hmeets j hj
    obtain ⟨i, hi, ha, rfl⟩ := hj
    rcases (hslot i hi).2 ha with hcharged | hfresh
    · exact Or.inl ⟨i, hi, hcharged.active, hcharged.job⟩
    · exact Or.inr ⟨hfresh.release, hfresh.deadline, hin⟩
  have hon := h.onTime.tick hserves hearliest hnext
  refine ⟨hticks ▸ hon, fun i hi ha => ?_, fun i hi => (hslot i hi).1, h.edf.step hc he.control
    (by decide)⟩
  rw [hticks]
  rcases (hslot i hi).2 ha with hcharged | hfresh
  · have hold := h.charged i hi hcharged.active
    have hcongr : served (Function.update g (k.monotonicTicks + 1) (charge k)) 0 k.monotonicTicks
        (jobOf i (k.schedules i)) = served g 0 k.monotonicTicks (jobOf i (k.schedules i)) :=
      served_congr fun t _ ht => Function.update_of_ne (by omega) _ _
    rw [hcharged.job, hcharged.charged, served_succ (Nat.zero_le _), Function.update_self, hcongr,
      hold]
    simp only [charge_eq_some hc hrun hi]
    split
    · next hruns =>
      -- the counter of a job that fits before its deadline does not saturate
      obtain ⟨-, hlacks⟩ := hserves _ ((charge_eq_some hc hrun hi).mpr hruns)
      have hfits := (h.onTime.pending _ ⟨i, hi, hcharged.active, rfl⟩).2.2.demand_le
      have hjob : (k.schedules i).absoluteDeadlineOrder =
          (k.schedules i).releaseOrder + (k.schedules i).relativeDeadlineTicks :=
        ((hc.table.slots i hi).job hcharged.active).1
      have hinterval : (k.schedules i).relativeDeadlineTicks ≤ maxTimeInterval :=
        (hc.table.slots i hi).deadline_le
      refine (incrementSaturating_of_lt ?_).symm
      rw [← hold]
      have hmax : maxTimeInterval < uint32Max := by decide
      simp only [terms, jobOf] at hfits hlacks ⊢
      omega
    · rfl
  · rw [hfresh.charged]
    exact hon.fresh hfresh.release.ge

/-- **Every run of a workload** that could meet its deadlines. -/
theorem Visits.serves (h : Visits img (Workload demand) states k)
    (hfeasible : Feasible demand assignment states) : ∃ g, Serves demand assignment g k := by
  induction h with
  | @boot m ram pc hpc =>
    have hslot : ∀ i ∈ userSlots, (booted img m ram pc).schedules i = osSchedTaskReset i :=
      fun i hi => booted_slot hi m ram pc
    have hnone : ∀ j, ¬Pending (booted img m ram pc) j := by
      rintro j ⟨i, hi, ha, -⟩
      rw [hslot i hi] at ha
      cases ha
    refine ⟨fun _ => none, ⟨OnTime.start _ hnone fun j hx => ?_, fun i hi ha => ?_, fun i hi => ?_,
      ⟨rfl, fun hact => ?_⟩⟩⟩
    · cases hx
    · exact absurd ⟨i, hi, ha, rfl⟩ (hnone (jobOf i ((booted img m ram pc).schedules i)))
    · rw [hslot i hi]
      exact clean_reset i
    · cases hact
  | @step states k k' l hv hp hs ih =>
    obtain ⟨g, hg⟩ := ih fun j hj => by
      obtain ⟨k₀, hk₀, hj⟩ := hj
      exact hfeasible j ⟨k₀, List.mem_cons_of_mem _ hk₀, hj⟩
    obtain ⟨labels, hr⟩ := hv.reaches
    obtain ⟨bs, he⟩ := emitted_of_step hr.control hs
    have hmeets : ∀ j, Pending k' j → Meets (terms demand) assignment j := fun j hj =>
      hfeasible j ⟨k', List.mem_cons_self, hj⟩
    rcases he.control.clock with hsame | ⟨rfl, hmoved⟩
    · exact ⟨g, hg.between hr.control he hp hsame hmeets⟩
    · exact ⟨_, hg.tick hr.control he hp hmoved hmeets⟩

/-- **No deadline is missed that can be met.** Where some assignment of the ticks gives each job of
a run its demand in time, no task of the run has missed a deadline. -/
theorem no_deadline_missed (h : Visits img (Workload demand) states k)
    (hfeasible : Feasible demand assignment states) :
    ∀ i ∈ userSlots, (k.schedules i).deadlineMissCount = 0 := by
  obtain ⟨g, hg⟩ := Visits.serves h hfeasible
  exact fun i hi => (hg.clean i hi).misses

/-! ### Scripts of a workload -/

lemma Visits.head (h : Visits img P states k) : ∃ earlier, states = k :: earlier := by
  cases h with
  | boot => exact ⟨_, rfl⟩
  | step => exact ⟨_, rfl⟩

/-- The job that is running has been charged all it demands. -/
def finished (demand : Job → ℕ) (c : Ctl) : Bool :=
  decide (c.current ≠ taskIdIdle ∧ (incumbent c).state = .running ∧
    demand (jobOf c.current (incumbent c)) ≤ (incumbent c).jobExecutionTicks)

/-- The acts of a workload. -/
def allows (demand : Job → ℕ) (c : Ctl) : Act → Bool
  | .tick => c.active && c.mode == .thread && !c.pendsv && !finished demand c
  | .create _ => !c.running
  | .waitNextPeriod | .taskExit => finished demand c
  | .yield | .sleep _ => false
  | _ => true

lemma workload_of_allows {a : Act} (h : allows demand (ctl k) a = true) :
    Workload demand k a.label := by
  have hdone : finished demand (ctl k) = true → Done demand k := fun h => by
    rw [finished, decide_eq_true_eq] at h
    exact h
  cases a with
  | tick =>
    simp only [allows, finished, Bool.and_eq_true, beq_iff_eq, Bool.not_eq_eq_eq_not, Bool.not_true,
      decide_eq_false_iff_not] at h
    exact ⟨h.1.1.1, h.1.1.2, h.1.2, h.2⟩
  | create timing =>
    have hrun : (ctl k).running = false := by simpa [allows] using h
    exact hrun
  | waitNextPeriod => exact hdone h
  | taskExit => exact hdone h
  | yield => cases h
  | sleep ticks => cases h
  | pendEnter | pendCommit | pendReturn | primask masked | kernelStart | startSvc => exact trivial

/-- A run of a workload on the sample image to the control `c`, all of whose states are `good`. -/
def Course (demand : Job → ℕ) (good : Ctl → Bool) (c : Ctl) (log : Log) : Prop :=
  ∃ labels states k, Logged sampleImage Disciplined labels k log ∧ ctl k = c ∧ Unowned k ∧
    Visits sampleImage (Workload demand) states k ∧ ∀ k ∈ states, good (ctl k) = true

/-- **One more step** of a workload. -/
lemma Course.go {good : Ctl → Bool} {c c' : Ctl} {log : Log} {a : Act} {bs : List (List TraceInput)}
    (h : Course demand good c log) (hg : Goes c log a.label c' bs) (hok : allows demand c a = true)
    (hgood : good c' = true) : Course demand good c' (log ++ entries c'.ticks bs) := by
  obtain ⟨labels, states, k, hr, hctl, hnone, hv, hall⟩ := h
  obtain ⟨labels₁, k₁, k', hset, hr₁, hctl₁, hd, hs, he, rfl, hkeeps⟩ :=
    hg labels k hr hctl fun _ => hnone
  have hlast : good c = true := by
    obtain ⟨earlier, rfl⟩ := Visits.head hv
    exact hctl ▸ hall k List.mem_cons_self
  obtain ⟨states₁, hv₁, hall₁⟩ : ∃ states₁, Visits sampleImage (Workload demand) states₁ k₁ ∧
      ∀ k ∈ states₁, good (ctl k) = true := by
    rcases hset with ⟨-, rfl⟩ | ⟨-, hs₀, -⟩
    · exact ⟨states, hv, hall⟩
    · exact ⟨_, hv.step (l := .trampoline) trivial hs₀,
        List.forall_mem_cons.mpr ⟨hctl₁.symm ▸ hlast, hall⟩⟩
  exact ⟨_, _, k', hr₁.step hd hs he, rfl, hkeeps hnone,
    hv₁.step (workload_of_allows (hctl₁.symm ▸ hok)) hs, List.forall_mem_cons.mpr ⟨hgood, hall₁⟩⟩

/-- What a script of a workload leads to. -/
lemma course_of_script {good : Ctl → Bool} {script : List Act} {α : Type} {view : Ctl → α} {v : α}
    (hv : (good bootCtl, (play (fun c a c' => allows demand c a && good c') script bootCtl).map
      fun r => view r.1) = (true, some v)) :
    ∃ states k, Visits sampleImage (Workload demand) states k ∧
      (∀ k ∈ states, good (ctl k) = true) ∧ view (ctl k) = v := by
  obtain ⟨hgood, hv⟩ := Prod.mk.inj hv
  obtain ⟨⟨c, log⟩, hp, hview⟩ := Option.map_eq_some_iff.mp hv
  have hboot : Course demand good bootCtl [] :=
    ⟨[], _, _, .boot sampleEntry_user, rfl, unowned_booted _ _ _, .boot sampleEntry_user,
      fun k hk => List.mem_singleton.mp hk ▸ hgood⟩
  obtain ⟨labels, states, k, -, rfl, -, hvisits, hall⟩ := play_induction (Q := Course demand good)
    hboot hp fun h hok hg => by
      rw [Bool.and_eq_true] at hok
      exact h.go hg hok.1 hok.2
  exact ⟨states, k, hvisits, hall, hview⟩

/-! ### A workload of one job -/

/-- The job of the sample task, which demands three ticks. -/
def sampleJob : Job := ⟨1, 0, 8⟩

def sampleDemand (_ : Job) : ℕ := 3

/-- The first three ticks for the sample task. -/
def sampleAssignment (t : ℕ) : Option Job := if 1 ≤ t ∧ t ≤ 3 then some sampleJob else none

/-- No other job is pending. -/
def solo (c : Ctl) : Bool :=
  userSlots.all fun i => !(c.schedules i).jobActive || jobOf i (c.schedules i) == sampleJob

/-- Only the job of the sample task is released. -/
lemma released_solo (h : ∀ k ∈ states, solo (ctl k) = true) {j : Job} (hj : Released states j) :
    j = sampleJob := by
  obtain ⟨k, hk, i, hi, ha, rfl⟩ := hj
  have hsolo := List.all_eq_true.mp (h k hk) i hi
  rw [show ((ctl k).schedules i).jobActive = true from ha] at hsolo
  exact beq_iff_eq.mp hsolo

/-- The sample task, up to its first tick. -/
lemma visits_charged : ∃ states k, Visits sampleImage (Workload sampleDemand) states k ∧
    (∀ k ∈ states, solo (ctl k) = true) ∧ k.monotonicTicks = 1 ∧
    (k.schedules 1).jobExecutionTicks = 1 := by
  obtain ⟨states, k, hv, hsolo, hview⟩ := @course_of_script sampleDemand solo
    ([.create (periodic 10 8)] ++ start ++ [.tick]) _
    (fun c => (c.ticks, (c.schedules 1).jobExecutionTicks)) (1, 1) (by decide +kernel)
  obtain ⟨hticks, hcharged⟩ := Prod.mk.inj hview
  exact ⟨states, k, hv, hsolo, hticks, hcharged⟩

/-- A run of the sample workload. -/
theorem no_deadline_missed_sample : ∃ states k, Visits sampleImage (Workload sampleDemand) states k ∧
    Feasible sampleDemand sampleAssignment states ∧ k.monotonicTicks = 1 ∧
    (k.schedules 1).jobExecutionTicks = 1 ∧
    ∀ i ∈ userSlots, (k.schedules i).deadlineMissCount = 0 := by
  obtain ⟨states, k, hv, hsolo, hticks, hcharged⟩ := visits_charged
  have hfeasible : Feasible sampleDemand sampleAssignment states := by
    intro j hj
    rw [released_solo hsolo hj]
    decide
  exact ⟨states, k, hv, hfeasible, hticks, hcharged, no_deadline_missed hv hfeasible⟩

end Aymos.Optimality
