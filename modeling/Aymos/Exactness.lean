import Aymos.Feasibility
import Aymos.Optimality
import Aymos.Timing

/-!
The kernel as a test of feasibility.

A run of a workload misses a deadline exactly when no assignment of the ticks serves in time all the
jobs that were due. Up to the first miss the kernel's charges are such an assignment themselves.
-/

namespace Aymos.Exactness

open Words Scheduler Trace Kernel Machine Handlers Services Slots Select Control Boot EmissionLog
  SlotSteps Timing Dispatch Demand Feasibility Safety Startup Scenario Script Optimality

variable {demand : Job → ℕ} {assignment g : ℕ → Option Job} {img : Image} {k k' : KernelState}
  {l : Label} {states : List KernelState} {i now now' : ℕ} {t t' : SchedTask}
  {records : List TraceInput} {bs : List (List TraceInput)} {j : Job}

/-! ### One slot -/

/-- **An active job between ticks** stays, unless its task waits for the next period or exits. -/
lemma slot_stays (h : SlotStep i now t l now' t' records) (hnow : now' = now)
    (hslot : SlotInv now t) (hl : ∀ ticks, l ≠ .sleep ticks) (ha : t.jobActive = true) :
    (t'.jobActive = true ∧ jobOf i t' = jobOf i t) ∨
      (t.state = .running ∧ (l = .waitNextPeriod ∨ l = .taskExit)) := by
  have hstate := hslot.active.mp ha
  cases h with
  | same | retired | resumed | yielded => exact Or.inl ⟨ha, rfl⟩
  | ticked | preempted => omega
  | reclaimed hs => simp [hs] at hstate
  | cleared hs => simp [hs] at hstate
  | created hs => simp [hs] at hstate
  | slept => exact absurd rfl (hl _)
  | waited hwait =>
    obtain ⟨⟨-, hs, -⟩, -⟩ := osSchedWaitNextPeriod_eq_true.mp hwait
    exact Or.inr ⟨hs, Or.inl rfl⟩
  | exited hdone =>
    obtain ⟨⟨hs, -⟩, -⟩ := osSchedCompleteJob_eq_true.mp hdone
    exact Or.inr ⟨hs, Or.inr rfl⟩

/-- **An active job through a tick** stays, and misses its deadline if that is the tick. -/
lemma slot_ticked (hslot : SlotInv now t) (h : SlotStep i now t l now' t' records)
    (hnow : now' = now + 1) (ha : t.jobActive = true) :
    t'.jobActive = true ∧ jobOf i t' = jobOf i t ∧
      (t.absoluteDeadlineOrder = now + 1 → t'.deadlineMissCount ≠ 0) := by
  obtain ⟨hx, u, hu, ht'⟩ := tick_of_slotStep h hnow
  have htick := job_tick hslot hx ha
  rw [← hu] at htick
  have hactive : u.jobActive = true := htick.job.jobActive.trans ha
  have hjob : jobOf i u = jobOf i t := by
    rw [jobOf, htick.job.release, htick.job.deadline]
    rfl
  have hmiss : t.absoluteDeadlineOrder = now + 1 → u.deadlineMissCount ≠ 0 := fun hdue => by
    rw [htick.misses, if_pos hdue]
    exact (incrementSaturating_pos _).ne'
  rcases ht' with rfl | rfl
  · exact ⟨hactive, hjob, hmiss⟩
  · exact ⟨hactive, hjob, hmiss⟩

/-! ### The kernel between misses -/

/-- **The invariant of a workload** that has missed no deadline, with the jobs that the ticks have
been charged to. -/
structure Keeps (demand : Job → ℕ) (g : ℕ → Option Job) (states : List KernelState)
    (k : KernelState) : Prop where
  prompt : Prompt (terms demand) g k.monotonicTicks (Released states) (Pending k)
  charged : ∀ i ∈ userSlots, (k.schedules i).jobActive = true →
    served g 0 k.monotonicTicks (jobOf i (k.schedules i)) = (k.schedules i).jobExecutionTicks
  clean : ∀ i ∈ userSlots, Clean (k.schedules i)
  edf : EdfInv (ctl k)

lemma released_cons : Released (k :: states) j ↔ Released states j ∨ Pending k j := by
  simp [Released, or_comm]

/-- A job that waits for its next period or exits has been charged all it demands. -/
lemma leaves_done (hc : ControlInv (ctl k)) (hp : Workload demand k l) (hi : i ∈ userSlots)
    (hs : (k.schedules i).state = .running) (hl : l = .waitNextPeriod ∨ l = .taskExit) :
    demand (jobOf i (k.schedules i)) ≤ (k.schedules i).jobExecutionTicks := by
  have hcur : i = k.currentTask := hc.runs i (mem_userSlots.mp hi).2 hs
  have hdone : Done demand k := by
    rcases hl with rfl | rfl
    · exact hp
    · exact hp
  rw [hcur]
  exact hdone.2.2

/-- **Between ticks** no deadline is missed. -/
lemma Keeps.between (h : Keeps demand g states k) (hc : ControlInv (ctl k)) (he : Emitted k l k' bs)
    (hp : Workload demand k l) (hticks : k'.monotonicTicks = k.monotonicTicks) :
    Keeps demand g (k' :: states) k' := by
  have hl : ∀ ticks, l ≠ .sleep ticks := fun ticks hl => by
    rw [hl] at hp
    exact hp
  have hstep := fun i (hi : i ∈ userSlots) => slotStep_of_step hc he.control hi
  have hslot : ∀ i ∈ userSlots, Clean (k'.schedules i) ∧ ((k'.schedules i).jobActive = true →
      SameActive i (k.schedules i) (k'.schedules i) ∨
        Fresh k.monotonicTicks (k'.schedules i)) := fun i hi =>
    slot_between (hstep i hi) hticks hl (h.clean i hi) fun ha =>
      (h.prompt.pending _ ⟨i, hi, ha, rfl⟩).2.2
  refine ⟨hticks ▸ h.prompt.between (fun j => released_cons) (fun j hj => ?_) fun j hj => ?_,
    fun i hi ha => ?_, fun i hi => (hslot i hi).1, h.edf.step hc he.control fun hl => ?_⟩
  · obtain ⟨i, hi, ha, rfl⟩ := hj
    rcases (hslot i hi).2 ha with hsame | hfresh
    · exact Or.inl ⟨i, hi, hsame.active, hsame.job⟩
    · exact Or.inr ⟨hfresh.release, hfresh.deadline⟩
  · obtain ⟨i, hi, ha, rfl⟩ := hj
    rcases slot_stays (hstep i hi) hticks (hc.table.slots i hi) hl ha with ⟨ha', hjob⟩ | ⟨hs, hleave⟩
    · exact Or.inl ⟨i, hi, ha', hjob.symm⟩
    · right
      rw [h.charged i hi ha]
      exact leaves_done hc hp hi hs hleave
  · rw [hticks]
    rcases (hslot i hi).2 ha with hsame | hfresh
    · rw [hsame.job, hsame.charged]
      exact h.charged i hi hsame.active
    · rw [hfresh.charged]
      exact h.prompt.fresh hfresh.release.ge
  · rw [hl] at hp
    exact hp

/-- **The task that a tick interrupts** has the earliest deadline of all the pending jobs. -/
lemma charge_earliest (hc : ControlInv (ctl k)) (hedf : EdfInv (ctl k))
    (hawake : ∀ i ∈ userSlots, (k.schedules i).state ≠ .sleeping) (hp : Workload demand k .tick) :
    ∀ j, Pending k j → ∃ r ∈ charge k, r.deadline ≤ j.deadline := by
  obtain ⟨hactive, hmode, hpend, -⟩ := hp
  have hmode : k.mode ≠ .pendsvEntry := by
    rw [hmode]
    decide
  rintro j ⟨i, hi, ha, rfl⟩
  have hid : (k.schedules k.currentTask).id = k.currentTask := hc.incumbent_id hactive
  have hne : (k.schedules i).id ≠ taskIdIdle := by
    rw [show (k.schedules i).id = i from hc.table.id i (mem_userSlots.mp hi).2]
    exact (userSlot_ne_idle hi).symm
  rcases (hc.table.slots i hi).active.mp ha with hready | hruns | hsleeps
  · -- a ready task goes neither before idle nor before the current one
    have hnot : ¬Urgent (k.schedules i) (k.schedules k.currentTask) :=
      hedf.urgent hactive hpend hmode i hi
    have hidle : k.currentTask ≠ taskIdIdle := fun hidle =>
      hnot ⟨⟨hready, ha⟩, hne, Or.inl (hid.trans hidle)⟩
    refine ⟨_, if_neg hidle, not_lt.mp fun hlt => hnot ⟨⟨hready, ha⟩, hne, Or.inr ?_⟩⟩
    exact key_lt_iff.mpr (Or.inl hlt)
  · have hcur : i = k.currentTask := hc.runs i (mem_userSlots.mp hi).2 hruns
    have hidle : k.currentTask ≠ taskIdIdle := hcur ▸ (userSlot_ne_idle hi).symm
    exact ⟨_, if_neg hidle, hcur ▸ le_rfl⟩
  · exact absurd hsleeps (hawake i hi)

/-- The job that a tick is charged to is pending, and lacks a tick. -/
lemma Keeps.charge_lacks (h : Keeps demand g states k) (hc : ControlInv (ctl k))
    (hp : Workload demand k .tick) {r : Job} (hr : r ∈ charge k) :
    r = jobOf k.currentTask (k.schedules k.currentTask) ∧ k.currentTask ∈ userSlots ∧
      (k.schedules k.currentTask).jobActive = true ∧ Pending k r ∧
        served g 0 k.monotonicTicks r < demand r := by
  obtain ⟨hactive, hmode, hpend, hdone⟩ := hp
  have hrun : (k.schedules k.currentTask).state = .running :=
    hc.runner hactive (Or.inl ⟨hpend, by rw [show (ctl k).mode = .thread from hmode]; decide⟩)
  rw [Optimality.charge] at hr
  split at hr
  · cases hr
  · next hidle =>
    obtain rfl := Option.some.inj hr
    have hi : k.currentTask ∈ userSlots :=
      userSlot_of_ne_idle (hc.current_lt (hc.active.mp hactive)) hidle
    have ha : (k.schedules k.currentTask).jobActive = true :=
      (hc.table.slots _ hi).active.mpr (Or.inr (Or.inl hrun))
    refine ⟨rfl, hi, ha, ⟨_, hi, ha, rfl⟩, ?_⟩
    rw [h.charged _ hi ha]
    exact not_le.mp fun hle => hdone ⟨hidle, hrun, hle⟩

/-- **A tick** that is not yet the deadline of the job it is charged to. -/
lemma Keeps.tick (h : Keeps demand g states k) (hc : ControlInv (ctl k))
    (he : Emitted k .tick k' bs) (hp : Workload demand k .tick)
    (hticks : k'.monotonicTicks = k.monotonicTicks + 1)
    (hdue : ∀ r ∈ charge k, k.monotonicTicks + 1 < r.deadline) :
    Keeps demand (Function.update g (k.monotonicTicks + 1) (charge k)) (k' :: states) k' := by
  have hearliest := charge_earliest hc h.edf (fun i hi => (h.clean i hi).awake) hp
  have hrun : (k.schedules k.currentTask).state = .running :=
    hc.runner hp.1 (Or.inl ⟨hp.2.2.1, by rw [show (ctl k).mode = .thread from hp.2.1]; decide⟩)
  have hstep := fun i (hi : i ∈ userSlots) => slotStep_of_step hc he.control hi
  have hslot : ∀ i ∈ userSlots, Clean (k'.schedules i) ∧ ((k'.schedules i).jobActive = true →
      Charged i (k.schedules i) (k'.schedules i) ∨
        Fresh (k.monotonicTicks + 1) (k'.schedules i)) := fun i hi => by
    refine slot_tick (hc.table.slots i hi) (hstep i hi) hticks (h.clean i hi) fun ha => ?_
    obtain ⟨r, hr, hle⟩ := hearliest _ ⟨i, hi, ha, rfl⟩
    exact (hdue r hr).trans_le hle
  have hon : Prompt (terms demand) (Function.update g (k.monotonicTicks + 1) (charge k))
      (k.monotonicTicks + 1) (Released (k' :: states)) (Pending k') := by
    refine h.prompt.tick (fun r hr => (h.charge_lacks hc hp hr).2.2.2) hearliest hdue
      (fun j => released_cons) (fun j hj => ?_) fun j hj => ?_
    · obtain ⟨i, hi, ha, rfl⟩ := hj
      rcases (hslot i hi).2 ha with hcharged | hfresh
      · exact Or.inl ⟨i, hi, hcharged.active, hcharged.job⟩
      · exact Or.inr ⟨hfresh.release, hfresh.deadline⟩
    · obtain ⟨i, hi, ha, rfl⟩ := hj
      obtain ⟨ha', hjob, -⟩ := slot_ticked (hc.table.slots i hi) (hstep i hi) hticks ha
      exact ⟨i, hi, ha', hjob.symm⟩
  refine ⟨hticks ▸ hon, fun i hi ha => ?_, fun i hi => (hslot i hi).1, h.edf.step hc he.control
    (by decide)⟩
  rw [hticks]
  rcases (hslot i hi).2 ha with hcharged | hfresh
  · have hold := h.charged i hi hcharged.active
    have hcongr : served (Function.update g (k.monotonicTicks + 1) (charge k)) 0 k.monotonicTicks
        (jobOf i (k.schedules i)) = served g 0 k.monotonicTicks (jobOf i (k.schedules i)) :=
      served_congr fun t _ ht => Function.update_of_ne (by omega) _ _
    rw [hcharged.job, hcharged.charged, served_succ (Nat.zero_le _), Function.update_self, hcongr,
      hold]
    simp only [charge_eq_some hc hrun hi]
    split
    · -- the counter of a job whose deadline is to come does not saturate
      have hserved := @Prompt.served_le _ _ _ _ _ _ _ (jobOf i (k.schedules i)) h.prompt
      have hfuture := (h.prompt.pending _ ⟨i, hi, hcharged.active, rfl⟩).2.2
      have hjob : (k.schedules i).absoluteDeadlineOrder =
          (k.schedules i).releaseOrder + (k.schedules i).relativeDeadlineTicks :=
        ((hc.table.slots i hi).job hcharged.active).1
      have hinterval : (k.schedules i).relativeDeadlineTicks ≤ maxTimeInterval :=
        (hc.table.slots i hi).deadline_le
      refine (incrementSaturating_of_lt ?_).symm
      rw [← hold]
      have hmax : maxTimeInterval < uint32Max := by decide
      simp only [terms, jobOf] at hserved hfuture ⊢
      omega
    · rfl
  · rw [hfresh.charged]
    exact hon.fresh hfresh.release.ge

/-! ### The charges of a run -/

/-- **The job that the kernel has charged each tick to**, along the states of a run. -/
def charges : List KernelState → ℕ → Option Job
  | k' :: k :: states =>
    if k'.monotonicTicks = k.monotonicTicks then charges (k :: states)
    else Function.update (charges (k :: states)) k'.monotonicTicks (charge k)
  | _ => fun _ => none

lemma charges_between (hv : Visits img P states k) (hticks : k'.monotonicTicks = k.monotonicTicks) :
    charges (k' :: states) = charges states := by
  obtain ⟨earlier, rfl⟩ := Visits.head hv
  rw [charges, if_pos hticks]

lemma charges_tick (hv : Visits img P states k)
    (hticks : k'.monotonicTicks = k.monotonicTicks + 1) :
    charges (k' :: states) =
      Function.update (charges states) (k.monotonicTicks + 1) (charge k) := by
  obtain ⟨earlier, rfl⟩ := Visits.head hv
  rw [charges, if_neg (by omega), hticks]

/-! ### The first miss -/

/-- Some task has missed a deadline. -/
def Missed (states : List KernelState) : Prop :=
  ∃ k ∈ states, ∃ i ∈ userSlots, (k.schedules i).deadlineMissCount ≠ 0

/-- By a tick, jobs were due that demand more ticks than there were for them. -/
def Overloaded (demand : Job → ℕ) (states : List KernelState) (now : ℕ) : Prop :=
  ∃ s d S, d ≤ now ∧ Crowded (terms demand) (Released states) s d S

lemma Overloaded.mono (h : Overloaded demand states now) (hle : now ≤ now') :
    Overloaded demand (k :: states) now' := by
  obtain ⟨s, d, S, hd, hcrowd⟩ := h
  exact ⟨s, d, S, hd.trans hle, hcrowd.mono fun j hj => released_cons.mpr (Or.inl hj)⟩

lemma Missed.cons (h : Missed states) : Missed (k :: states) := by
  obtain ⟨k₀, hk₀, hmiss⟩ := h
  exact ⟨k₀, List.mem_cons_of_mem _ hk₀, hmiss⟩

/-- **A tick that is the deadline** of the job it is charged to is missed, and ends an overload. -/
lemma Keeps.misses (h : Keeps demand g states k) (hc : ControlInv (ctl k))
    (he : Emitted k .tick k' bs) (hp : Workload demand k .tick)
    (hticks : k'.monotonicTicks = k.monotonicTicks + 1) {r : Job} (hr : r ∈ charge k)
    (hdue : r.deadline ≤ k.monotonicTicks + 1) :
    Missed (k' :: states) ∧ Overloaded demand (k' :: states) k'.monotonicTicks := by
  obtain ⟨hjob, hi, ha, hpending, hlacks⟩ := h.charge_lacks hc hp hr
  have hfuture : k.monotonicTicks < r.deadline := (h.prompt.pending r hpending).2.2
  obtain ⟨-, -, hmiss⟩ := slot_ticked (hc.table.slots _ hi) (slotStep_of_step hc he.control hi)
    hticks ha
  have hdead : (k.schedules k.currentTask).absoluteDeadlineOrder = k.monotonicTicks + 1 := by
    have hr : r.deadline = (k.schedules k.currentTask).absoluteDeadlineOrder :=
      congrArg Job.deadline hjob
    omega
  obtain ⟨s, S, hcrowd⟩ := h.prompt.overload hpending hlacks hdue
  exact ⟨⟨k', List.mem_cons_self, _, hi, hmiss hdead⟩, s, _, S, hticks.ge,
    hcrowd.mono fun j hj => released_cons.mpr (Or.inl hj)⟩

/-- **Every run of a workload** keeps its deadlines so far, or has been overloaded. -/
theorem Visits.keeps_or_misses (h : Visits img (Workload demand) states k) :
    (¬Missed states ∧ Keeps demand (charges states) states k) ∨
      (Missed states ∧ Overloaded demand states k.monotonicTicks) := by
  induction h with
  | @boot m ram pc hpc =>
    have hslot : ∀ i ∈ userSlots, (booted img m ram pc).schedules i = osSchedTaskReset i :=
      fun i hi => booted_slot hi m ram pc
    have hnone : ∀ j, ¬Pending (booted img m ram pc) j := by
      rintro j ⟨i, hi, ha, -⟩
      rw [hslot i hi] at ha
      cases ha
    have hreleased : ∀ j, ¬Released [booted img m ram pc] j := by
      rintro j ⟨k, hk, hj⟩
      exact hnone j (List.mem_singleton.mp hk ▸ hj)
    left
    refine ⟨?_, Prompt.start hreleased hnone, fun i hi ha => ?_, fun i hi => ?_,
      ⟨rfl, fun hact => ?_⟩⟩
    · rintro ⟨k, hk, i, hi, hmiss⟩
      rw [List.mem_singleton.mp hk, hslot i hi] at hmiss
      exact hmiss rfl
    · exact absurd ⟨i, hi, ha, rfl⟩ (hnone (jobOf i ((booted img m ram pc).schedules i)))
    · rw [hslot i hi]
      exact clean_reset i
    · cases hact
  | @step states k k' l hv hp hs ih =>
    obtain ⟨labels, hr⟩ := hv.reaches
    obtain ⟨bs, he⟩ := emitted_of_step hr.control hs
    rcases ih with ⟨hno, hg⟩ | ⟨hmiss, hover⟩
    · have hgoes : Keeps demand (charges (k' :: states)) (k' :: states) k' →
          ¬Missed (k' :: states) ∧ Keeps demand (charges (k' :: states)) (k' :: states) k' :=
        fun hg => by
        refine ⟨?_, hg⟩
        rintro ⟨k₀, hk₀, i, hi, hmiss⟩
        rcases List.mem_cons.mp hk₀ with rfl | hk₀
        · exact hmiss (hg.clean i hi).misses
        · exact hno ⟨k₀, hk₀, i, hi, hmiss⟩
      rcases he.control.clock with hticks | ⟨rfl, hticks⟩
      · exact Or.inl (hgoes (charges_between hv hticks ▸ hg.between hr.control he hp hticks))
      · by_cases hdue : ∀ r ∈ charge k, k.monotonicTicks + 1 < r.deadline
        · exact Or.inl (hgoes (charges_tick hv hticks ▸ hg.tick hr.control he hp hticks hdue))
        · push Not at hdue
          obtain ⟨r, hr', hdue⟩ := hdue
          exact Or.inr (hg.misses hr.control he hp hticks hr' hdue)
    · have hle : k.monotonicTicks ≤ k'.monotonicTicks := by
        rcases he.control.clock with hticks | ⟨-, hticks⟩
        · exact hticks.ge
        · exact (Nat.le_succ _).trans hticks.ge
      exact Or.inr ⟨hmiss.cons, hover.mono hle⟩

/-- A run in which no deadline is missed. -/
lemma not_missed_iff : ¬Missed states ↔
    ∀ k' ∈ states, ∀ i ∈ userSlots, (k'.schedules i).deadlineMissCount = 0 := by
  simp only [Missed, not_exists, not_and, not_not]

/-- **The kernel misses a deadline exactly when it must.** In a run of a workload no task has missed
a deadline if and only if some assignment of the ticks gives each job that was due its demand in
time; and as long as none is missed the kernel's own charges, which its counters tell, are such an
assignment. -/
theorem misses_exactly (h : Visits img (Workload demand) states k) :
    ((∀ k' ∈ states, ∀ i ∈ userSlots, (k'.schedules i).deadlineMissCount = 0) ↔
      ∃ assignment, ∀ j, Released states j → j.deadline ≤ k.monotonicTicks →
        Meets (terms demand) assignment j) ∧
    ((∀ k' ∈ states, ∀ i ∈ userSlots, (k'.schedules i).deadlineMissCount = 0) →
      (∀ j, Released states j → j.deadline ≤ k.monotonicTicks →
        Meets (terms demand) (charges states) j) ∧
      ∀ i ∈ userSlots, (k.schedules i).jobActive = true →
        served (charges states) 0 k.monotonicTicks (jobOf i (k.schedules i)) =
          (k.schedules i).jobExecutionTicks) := by
  rw [← not_missed_iff]
  rcases Visits.keeps_or_misses h with ⟨hno, hg⟩ | ⟨hmissed, s, d, S, hd, hcrowd⟩
  · have hmeets : ∀ j, Released states j → j.deadline ≤ k.monotonicTicks →
        Meets (terms demand) (charges states) j := fun j hj hdue => hg.prompt.feasible hj hdue
    exact ⟨iff_of_true hno ⟨charges states, hmeets⟩, fun _ => ⟨hmeets, hg.charged⟩⟩
  · refine ⟨iff_of_false (fun hno => hno hmissed) fun ⟨assignment, hmeets⟩ => ?_,
      fun hno => absurd hmissed hno⟩
    have hserved : ∀ j ∈ S, Meets (terms demand) assignment j := fun j hj => by
      obtain ⟨hreleased, -, hdue⟩ := hcrowd.jobs j hj
      exact hmeets j hreleased (hdue.trans hd)
    have hle := sum_demand_le (fun j hj => (hcrowd.jobs j hj).2) hserved
    exact absurd hcrowd.crowd (not_lt.mpr hle)

/-- The first job meets its deadline at the fourth tick, which leaves one tick for the second job
before its own at the fifth. -/
def crowd : List Act :=
  [.create (periodic 10 4), .create (oneShot 0 5)] ++ start ++
    [.tick, .tick, .tick, .waitNextPeriod] ++ switch ++ [.tick]

/-- No user task has missed a deadline. -/
def unmissed (c : Ctl) : Bool := userSlots.all fun i => (c.schedules i).deadlineMissCount == 0

/-- Up to the first deadline, which is met. -/
lemma visits_met : ∃ states k, Visits sampleImage (Workload sampleDemand) states k ∧
    k.monotonicTicks = 4 ∧ (k.schedules 1).completedJobCount = 1 ∧
    ∀ k' ∈ states, ∀ i ∈ userSlots, (k'.schedules i).deadlineMissCount = 0 := by
  obtain ⟨states, k, hv, hall, hview⟩ := @course_of_script sampleDemand unmissed crowd _
    (fun c => (c.ticks, (c.schedules 1).completedJobCount)) (4, 1) (by decide +kernel)
  obtain ⟨hticks, hcompleted⟩ := Prod.mk.inj hview
  exact ⟨states, k, hv, hticks, hcompleted, fun k' hk' i hi =>
    beq_iff_eq.mp (List.all_eq_true.mp (hall k' hk') i hi)⟩

/-- Up to the second deadline, which is missed. -/
lemma visits_missed : ∃ states k, Visits sampleImage (Workload sampleDemand) states k ∧
    k.monotonicTicks = 5 ∧ (k.schedules 2).deadlineMissCount = 1 ∧
    ¬∀ k' ∈ states, ∀ i ∈ userSlots, (k'.schedules i).deadlineMissCount = 0 := by
  obtain ⟨states, k, hv, -, hview⟩ := @course_of_script sampleDemand (fun _ => true)
    (crowd ++ [.tick]) _ (fun c => (c.ticks, (c.schedules 2).deadlineMissCount)) (5, 1)
    (by decide +kernel)
  obtain ⟨hticks, hmissed⟩ := Prod.mk.inj hview
  have hmissed : (k.schedules 2).deadlineMissCount = 1 := hmissed
  refine ⟨states, k, hv, hticks, hmissed, fun hall => ?_⟩
  obtain ⟨earlier, rfl⟩ := Visits.head hv
  exact absurd (hmissed.symm.trans (hall k List.mem_cons_self 2 (by decide))) (by decide)

/-- A deadline that is met, and one that no assignment could meet. -/
theorem misses_exactly_crowd :
    (∃ states k, Visits sampleImage (Workload sampleDemand) states k ∧ k.monotonicTicks = 4 ∧
      (k.schedules 1).completedJobCount = 1 ∧
      ∀ j, Released states j → j.deadline ≤ k.monotonicTicks →
        Meets (terms sampleDemand) (charges states) j) ∧
    ∃ states k, Visits sampleImage (Workload sampleDemand) states k ∧ k.monotonicTicks = 5 ∧
      (k.schedules 2).deadlineMissCount = 1 ∧
      ¬∃ assignment, ∀ j, Released states j → j.deadline ≤ k.monotonicTicks →
        Meets (terms sampleDemand) assignment j := by
  obtain ⟨states, k, hv, hticks, hcompleted, hmet⟩ := visits_met
  obtain ⟨states', k', hv', hticks', hmissed, hnot⟩ := visits_missed
  obtain ⟨-, hcharges⟩ := misses_exactly hv
  obtain ⟨hiff, -⟩ := misses_exactly hv'
  exact ⟨⟨states, k, hv, hticks, hcompleted, (hcharges hmet).1⟩,
    ⟨states', k', hv', hticks', hmissed, fun hex => hnot (hiff.mpr hex)⟩⟩

end Aymos.Exactness
