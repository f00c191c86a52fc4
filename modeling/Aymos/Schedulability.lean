import Aymos.Density
import Aymos.Exactness

/-!
Tests of a workload that foretell its deadlines.

A run of a workload misses no deadline exactly as long as no window of its jobs is crowded. Each
slot releases its jobs one after the other, so that a workload whose demands, over the relative
deadlines, add up to less than one misses none at all.
-/

namespace Aymos.Schedulability

open Words Scheduler Trace Kernel Machine Handlers Services Slots Select Control Boot EmissionLog
  SlotSteps Timing Dispatch Demand Feasibility Density Safety Startup Scenario Optimality Exactness

variable {demand : Job → ℕ} {img : Image} {k k' : KernelState} {l : Label}
  {states : List KernelState} {i now now' : ℕ} {t t' : SchedTask} {records : List TraceInput}
  {bs : List (List TraceInput)} {j : Job}

/-! ### The jobs of a slot -/

/-- The next release of an active periodic task is not before its deadline. -/
def NextAfter (t : SchedTask) : Prop :=
  t.jobActive = true → t.kind = .periodic → t.absoluteDeadlineOrder ≤ t.nextReleaseOrder

/-- **Where a slot stands** with a job that has been released in it. -/
inductive Behind (running : Bool) (i : ℕ) (t : SchedTask) (j : Job) : Prop
  | current (hactive : t.jobActive = true) (hj : j = jobOf i t)
  | earlier (hactive : t.jobActive = true) (hle : j.deadline ≤ t.releaseOrder)
  | waiting (hstate : t.state = .waitingRelease) (hle : j.deadline ≤ t.nextReleaseOrder)
  | left (hstate : t.state = .exiting ∨ t.state = .dormant) (hrunning : running = true)

/-- **How a step moves a slot.** -/
inductive SlotMove (i : ℕ) (t t' : SchedTask) (l : Label) : Prop
  | keeps (hactive : t.jobActive = true) (hactive' : t'.jobActive = true)
    (hjob : jobOf i t' = jobOf i t) (hkind : t'.kind = t.kind)
    (hnext : t.nextReleaseOrder ≤ t'.nextReleaseOrder)
  | waits (hstate : t.state = .waitingRelease) (hstate' : t'.state = .waitingRelease)
    (hnext : t'.nextReleaseOrder = t.nextReleaseOrder)
  | starts (hstate : t.state = .waitingRelease) (hactive' : t'.jobActive = true)
    (hrelease : t'.releaseOrder = t.nextReleaseOrder) (hnext : NextAfter t')
  | completes (hactive : t.jobActive = true) (hkind : t.kind = .periodic)
    (hstate' : t'.state = .waitingRelease) (hnext : t'.nextReleaseOrder = t.nextReleaseOrder)
  | leaves (hstate : t.state = .running ∨ t.state = .exiting)
    (hstate' : t'.state = .exiting ∨ t'.state = .dormant)
  | empty (hstate : t.state = .dormant) (hstate' : t'.state = .dormant)
  | fills (hstate : t.state = .dormant) (hcreate : ∃ config, l = .create config)
    (hnext : NextAfter t')

/-- A job that has just started. -/
lemma nextAfter_startJob (h : t.kind = .periodic → t.relativeDeadlineTicks ≤ t.periodTicks) :
    NextAfter (startJob t) := fun _ hk => by
  rw [startJob_kind] at hk
  have hle := h hk
  simp only [startJob_absoluteDeadlineOrder, startJob_nextReleaseOrder, followingRelease, hk]
  omega

/-- A slot that stays as it is. -/
lemma slotMove_same (hslot : SlotInv now t) : SlotMove i t t l := by
  by_cases ha : t.jobActive = true
  · exact .keeps ha ha rfl rfl le_rfl
  · have hs := fun hs => ha (hslot.active.mpr hs)
    cases hstate : t.state with
    | dormant => exact .empty hstate hstate
    | waitingRelease => exact .waits hstate hstate rfl
    | exiting => exact .leaves (Or.inr hstate) (Or.inl hstate)
    | ready => exact absurd (Or.inl hstate) hs
    | running => exact absurd (Or.inr (Or.inl hstate)) hs
    | sleeping => exact absurd (Or.inr (Or.inr hstate)) hs

/-- An active slot that changes its state as well. -/
lemma keeps_inState {u : SchedTask} (ha : t.jobActive = true) (hu : u.jobActive = true)
    (hjob : jobOf i u = jobOf i t) (hkind : u.kind = t.kind)
    (hnext : t.nextReleaseOrder ≤ u.nextReleaseOrder) (s : TaskState) :
    SlotMove i t (inState u s) l := .keeps ha hu hjob hkind hnext

/-- An active slot through a tick. -/
lemma keeps_tick (hslot : SlotInv now t) (hx : tickExhausts (now + 1) t = false)
    (ha : t.jobActive = true) (s : TaskState) :
    SlotMove i t (tickTask (now + 1) t) l ∧ SlotMove i t (inState (tickTask (now + 1) t) s) l := by
  have hjob := job_tick hslot hx ha
  generalize tickTask (now + 1) t = u at hjob ⊢
  have hactive : u.jobActive = true := hjob.job.jobActive.trans ha
  have hsame : jobOf i u = jobOf i t := by
    rw [jobOf, hjob.job.release, hjob.job.deadline]
    rfl
  have hnext : t.nextReleaseOrder ≤ u.nextReleaseOrder := by
    rw [hjob.next]
    split
    · exact Nat.le_add_right _ _
    · exact le_rfl
  exact ⟨.keeps ha hactive hsame hjob.job.kind hnext,
    keeps_inState ha hactive hsame hjob.job.kind hnext s⟩

/-- A slot through a tick. -/
lemma slotMove_tick (hslot : SlotInv now t) (hx : tickExhausts (now + 1) t = false) :
    SlotMove i t (tickTask (now + 1) t) l := by
  cases ha : t.jobActive with
  | true => exact (keeps_tick hslot hx ha .ready).1
  | false =>
    by_cases hw : t.state = .waitingRelease
    · obtain ⟨-, htick, hrel, -⟩ := waiting_due hslot hx hw
      rw [htick]
      split at hrel
      · rw [(Prod.mk.inj hrel).1]
        exact .starts hw rfl rfl (nextAfter_startJob fun hk => (hslot.period hk).2)
      · rw [(Prod.mk.inj hrel).1]
        exact .waits hw hw rfl
    · rw [(tickTask_of_inactive hw ha).1]
      exact slotMove_same hslot

/-- A creation fills a slot. -/
lemma slotMove_created {config : TaskConfig} (hd : t.state = .dormant)
    (hconf : osSchedTaskConfigure t config.timing now = (t', true)) :
    SlotMove i t t' (.create config) := by
  obtain ⟨hvalid, -, -, rfl⟩ := osSchedTaskConfigure_eq_true hconf
  refine .fills hd ⟨config, rfl⟩ ?_
  split
  · exact nextAfter_startJob fun hk => (hvalid.period hk).2
  · exact fun ha => by cases ha

/-- The completion of a job leaves the next release. -/
lemma recordMiss_next (t : SchedTask) (now : ℕ) :
    (osSchedRecordDeadlineMiss t now).1.nextReleaseOrder = t.nextReleaseOrder := by
  rw [osSchedRecordDeadlineMiss_eq]
  split <;> rfl

/-- **Every step of a slot moves it.** -/
lemma slotMove_of_slotStep (h : SlotStep i now t l now' t' records) (hslot : SlotInv now t)
    (hl : ∀ ticks, l ≠ .sleep ticks) : SlotMove i t t' l := by
  have hactive : t.state = .ready ∨ t.state = .running → ∀ s, SlotMove i t (inState t s) l :=
    fun hs s => by
      have ha := hslot.active.mpr (by tauto)
      exact .keeps ha ha rfl rfl le_rfl
  cases h with
  | same => exact slotMove_same hslot
  | ticked hx => exact slotMove_tick hslot hx
  | preempted hx hs => exact (keeps_tick hslot hx (hslot.active.mpr (Or.inr (Or.inl hs))) _).2
  | retired hs => exact hactive (Or.inr hs) _
  | resumed hs => exact hactive hs _
  | reclaimed hs => exact .leaves (Or.inr hs) (Or.inr rfl)
  | cleared hs => exact .empty hs rfl
  | created hd hconf => exact slotMove_created hd hconf
  | yielded hs => exact hactive (Or.inr hs) _
  | slept => exact absurd rfl (hl _)
  | waited hwait =>
    obtain ⟨⟨hk, -, ha⟩, rfl⟩ := osSchedWaitNextPeriod_eq_true.mp hwait
    exact .completes ha hk rfl (recordMiss_next t now)
  | exited hdone =>
    obtain ⟨⟨hs, -⟩, rfl⟩ := osSchedCompleteJob_eq_true.mp hdone
    exact .leaves (Or.inl hs) (Or.inl rfl)

/-! ### The order of the jobs -/

/-- **The next release** stays behind the deadline. -/
lemma NextAfter.move (h : NextAfter t) (hmove : SlotMove i t t' l) (hslot' : SlotInv now' t') :
    NextAfter t' := by
  have hnone : t'.jobActive = false → NextAfter t' := fun hno ha => by
    rw [hno] at ha
    cases ha
  cases hmove with
  | keeps ha _ hjob hkind hnext =>
    intro _ hk
    have hdead : t'.absoluteDeadlineOrder = t.absoluteDeadlineOrder := congrArg Job.deadline hjob
    rw [hdead]
    exact (h ha (hkind.symm.trans hk)).trans hnext
  | waits _ hs' => exact hnone (SlotInv.waiting_inactive hslot' hs')
  | starts _ _ _ hnext => exact hnext
  | completes _ _ hs' => exact hnone (SlotInv.waiting_inactive hslot' hs')
  | leaves _ hs' =>
    refine hnone (Bool.eq_false_iff.mpr fun ha => ?_)
    have hs := hslot'.active.mp ha
    rcases hs' with hs' | hs' <;> simp [hs'] at hs
  | empty _ hs' =>
    refine hnone (Bool.eq_false_iff.mpr fun ha => ?_)
    have hs := hslot'.active.mp ha
    simp [hs'] at hs
  | fills _ _ hnext => exact hnext

/-- **Where a slot stands after a step.** -/
lemma Behind.move {running running' : Bool} (h : Behind running i t j) (hmove : SlotMove i t t' l)
    (hslot : SlotInv now t) (hnext : NextAfter t)
    (hrunning : running = true ∨ t.state = .running ∨ t.state = .exiting → running' = true)
    (hcreate : ∀ config, l = .create config → running = false) : Behind running' i t' j := by
  have hactive : t.jobActive = true → t.state ≠ .waitingRelease ∧ t.state ≠ .dormant ∧
      t.state ≠ .exiting := fun ha => by
    rcases hslot.active.mp ha with hs | hs | hs <;> simp [hs]
  cases hmove with
  | keeps ha ha' hjob =>
    have hrelease : t'.releaseOrder = t.releaseOrder := congrArg Job.release hjob
    cases h with
    | current _ hj => exact .current ha' (hj.trans hjob.symm)
    | earlier _ hle => exact .earlier ha' (hle.trans hrelease.ge)
    | waiting hs => exact absurd hs (hactive ha).1
    | left hs hr =>
      obtain ⟨-, hd, hx⟩ := hactive ha
      exact absurd hs (by simp [hd, hx])
  | waits hs hs' hnext' =>
    cases h with
    | current ha => exact absurd hs (hactive ha).1
    | earlier ha => exact absurd hs (hactive ha).1
    | waiting _ hle => exact .waiting hs' (hle.trans hnext'.ge)
    | left hl => simp [hs] at hl
  | starts hs ha' hrelease =>
    cases h with
    | current ha => exact absurd hs (hactive ha).1
    | earlier ha => exact absurd hs (hactive ha).1
    | waiting _ hle => exact .earlier ha' (hle.trans hrelease.ge)
    | left hl => simp [hs] at hl
  | completes ha hk hs' hnext' =>
    have hdead := hnext ha hk
    have hjob := (hslot.job ha).1
    cases h with
    | current _ hj =>
      obtain rfl := hj
      exact .waiting hs' (hdead.trans hnext'.ge)
    | earlier _ hle => exact .waiting hs' (by omega)
    | waiting hs => exact absurd hs (hactive ha).1
    | left hs hr =>
      obtain ⟨-, hd, hx⟩ := hactive ha
      exact absurd hs (by simp [hd, hx])
  | leaves hs hs' => exact .left hs' (hrunning (Or.inr hs))
  | empty hs hs' =>
    cases h with
    | current ha => exact absurd hs (hactive ha).2.1
    | earlier ha => exact absurd hs (hactive ha).2.1
    | waiting hw => simp [hs] at hw
    | left _ hr => exact .left (Or.inr hs') (hrunning (Or.inl hr))
  | fills hs hl =>
    obtain ⟨config, hl⟩ := hl
    have hno := hcreate config hl
    cases h with
    | current ha => exact absurd hs (hactive ha).2.1
    | earlier ha => exact absurd hs (hactive ha).2.1
    | waiting hw => simp [hs] at hw
    | left _ hr => exact absurd hr (by simp [hno])

/-- The start of the kernel is for good. -/
lemma running_step {c c' : Ctl} (h : CtlStep c l c' bs) (hr : c.running = true) :
    c'.running = true := by
  cases h with
  | pendCommit => exact (retired_running _).trans hr
  | kernelStart => rfl
  | create =>
    rw [announced]
    split
    · exact hr
    · exact hr
  | _ => exact hr

/-- **The order of the jobs** that the slots have released. -/
structure Orderly (states : List KernelState) (k : KernelState) : Prop where
  slot : ∀ j, Released states j → j.slot ∈ userSlots
  behind : ∀ j, Released states j → Behind k.running j.slot (k.schedules j.slot) j
  apart : ∀ j j', Released states j → Released states j' → j.slot = j'.slot → j ≠ j' →
    j.deadline ≤ j'.release ∨ j'.deadline ≤ j.release
  next : ∀ i ∈ userSlots, NextAfter (k.schedules i)

/-- A job that is pending after a step is not before the others of its slot. -/
lemma Behind.apart {running : Bool} (h : Behind running i t j) (hslot : SlotInv now t)
    (ha : t.jobActive = true) : j = jobOf i t ∨ j.deadline ≤ (jobOf i t).release := by
  cases h with
  | current _ hj => exact Or.inl hj
  | earlier _ hle => exact Or.inr hle
  | waiting hs =>
    rw [SlotInv.waiting_inactive hslot hs] at ha
    cases ha
  | left hs =>
    have hactive := hslot.active.mp ha
    rcases hs with hs | hs <;> simp [hs] at hactive

/-- A task that runs or exits has been dispatched. -/
lemma running_of_state {c : Ctl} (hc : ControlInv c) (hi : i ∈ userSlots)
    (hs : (c.schedules i).state = .running ∨ (c.schedules i).state = .exiting) :
    c.running = true := by
  have hlt := (mem_userSlots.mp hi).2
  have hcur : i = c.current := hs.elim (hc.runs i hlt) (hc.exits i hlt)
  exact hc.started (hc.active.mpr (hcur ▸ ne_invalid_of_lt hlt))

/-- **A step of a workload** keeps the order of the jobs. -/
lemma Orderly.step (h : Orderly states k) (hc : ControlInv (ctl k)) (he : Emitted k l k' bs)
    (hp : Workload demand k l) : Orderly (k' :: states) k' := by
  have hc' : ControlInv (ctl k') := hc.step he.control
  have hl : ∀ ticks, l ≠ .sleep ticks := fun ticks hl => by
    rw [hl] at hp
    exact hp
  have hmove := fun i (hi : i ∈ userSlots) =>
    slotMove_of_slotStep (slotStep_of_step hc he.control hi) (hc.table.slots i hi) hl
  have hold : ∀ j, Released states j → Behind k'.running j.slot (k'.schedules j.slot) j := by
    intro j hj
    have hi := h.slot j hj
    refine (h.behind j hj).move (hmove _ hi) (hc.table.slots _ hi) (h.next _ hi) ?_ ?_
    · rintro (hr | hs)
      · exact running_step he.control hr
      · exact running_step he.control (running_of_state hc hi hs)
    · rintro config rfl
      exact hp
  have hnew : ∀ j, Pending k' j → j.slot ∈ userSlots ∧
      (k'.schedules j.slot).jobActive = true ∧ j = jobOf j.slot (k'.schedules j.slot) := by
    rintro j ⟨i, hi, ha, rfl⟩
    exact ⟨hi, ha, rfl⟩
  refine ⟨fun j hj => ?_, fun j hj => ?_, fun j j' hj hj' hslot hne => ?_,
    fun i hi => (h.next i hi).move (hmove i hi) (hc'.table.slots i hi)⟩
  · exact (released_cons.mp hj).elim (h.slot j) fun hj => (hnew j hj).1
  · rcases released_cons.mp hj with hj | hj
    · exact hold j hj
    · obtain ⟨-, ha, hj⟩ := hnew j hj
      exact .current ha hj
  · -- a job that was released before, and one that is pending
    have hpair : ∀ j j', Released states j → Pending k' j' → j.slot = j'.slot → j ≠ j' →
        j.deadline ≤ j'.release := by
      intro j j' hj hj' hslot hne
      obtain ⟨hi, ha, hjob⟩ := hnew j' hj'
      have hbehind := hold j hj
      rw [hslot] at hbehind
      rcases hbehind.apart (hc'.table.slots _ hi) ha with heq | hle
      · exact absurd (heq.trans hjob.symm) hne
      · rw [hjob]
        exact hle
    rcases released_cons.mp hj with hj | hj
    · rcases released_cons.mp hj' with hj' | hj'
      · exact h.apart j j' hj hj' hslot hne
      · exact Or.inl (hpair j j' hj hj' hslot hne)
    · rcases released_cons.mp hj' with hj' | hj'
      · exact Or.inr (hpair j' j hj' hj hslot.symm hne.symm)
      · obtain ⟨-, -, hjob⟩ := hnew j hj
        obtain ⟨-, -, hjob'⟩ := hnew j' hj'
        rw [hslot, ← hjob'] at hjob
        exact absurd hjob hne

/-- **Every run of a workload** releases the jobs of a slot one after the other. -/
theorem Visits.orderly (h : Visits img (Workload demand) states k) : Orderly states k := by
  induction h with
  | @boot m ram pc hpc =>
    have hslot : ∀ i ∈ userSlots, (booted img m ram pc).schedules i = osSchedTaskReset i :=
      fun i hi => booted_slot hi m ram pc
    have hnone : ∀ j, ¬Released [booted img m ram pc] j := by
      rintro j ⟨k, hk, i, hi, ha, -⟩
      rw [List.mem_singleton.mp hk, hslot i hi] at ha
      cases ha
    refine ⟨fun j hj => absurd hj (hnone j), fun j hj => absurd hj (hnone j),
      fun j _ hj => absurd hj (hnone j), fun i hi => ?_⟩
    rw [hslot i hi]
    exact fun ha => by cases ha
  | @step states k k' l hv hp hs ih =>
    obtain ⟨labels, hr⟩ := hv.reaches
    obtain ⟨bs, he⟩ := emitted_of_step hr.control hs
    exact ih.step hr.control he hp

/-! ### The tests -/

/-- **The processor demand decides.** A run of a workload has missed no deadline if and only if the
jobs that are released from any tick on and are due by any other have never demanded more ticks than
lie strictly between the two. -/
theorem misses_iff_demand (h : Visits img (Workload demand) states k) :
    (∀ k' ∈ states, ∀ i ∈ userSlots, (k'.schedules i).deadlineMissCount = 0) ↔
      ∀ s d (S : Finset Job), d ≤ k.monotonicTicks →
        (∀ j ∈ S, Released states j ∧ s ≤ j.release ∧ j.deadline ≤ d) →
          ∑ j ∈ S, demand j ≤ d - 1 - s := by
  rcases Visits.keeps_or_misses h with ⟨hno, hg⟩ | ⟨⟨k', hk', i, hi, hmiss⟩, hover⟩
  · refine iff_of_true (fun k' hk' i hi => ?_) fun s d S hd hjobs => ?_
    · by_contra hmiss
      exact hno ⟨k', hk', i, hi, hmiss⟩
    · have hserved : ∀ j ∈ S, Meets (terms demand) (charges states) j := fun j hj =>
        hg.prompt.feasible (hjobs j hj).1 ((hjobs j hj).2.2.trans hd)
      exact sum_demand_le (fun j hj => (hjobs j hj).2) hserved
  · refine iff_of_false (fun hall => hmiss (hall k' hk' i hi)) fun hall => ?_
    obtain ⟨s, d, S, hd, hcrowd⟩ := hover
    exact absurd hcrowd.crowd (not_lt.mpr (hall s d S hd hcrowd.jobs))

/-- A deadline that is met, and one that is missed. -/
theorem misses_iff_demand_crowd :
    (∃ states k, Visits sampleImage (Workload sampleDemand) states k ∧ k.monotonicTicks = 4 ∧
      (k.schedules 1).completedJobCount = 1 ∧
      ∀ s d (S : Finset Job), d ≤ k.monotonicTicks →
        (∀ j ∈ S, Released states j ∧ s ≤ j.release ∧ j.deadline ≤ d) →
          ∑ j ∈ S, sampleDemand j ≤ d - 1 - s) ∧
    ∃ states k, Visits sampleImage (Workload sampleDemand) states k ∧ k.monotonicTicks = 5 ∧
      (k.schedules 2).deadlineMissCount = 1 ∧
      ¬∀ s d (S : Finset Job), d ≤ k.monotonicTicks →
        (∀ j ∈ S, Released states j ∧ s ≤ j.release ∧ j.deadline ≤ d) →
          ∑ j ∈ S, sampleDemand j ≤ d - 1 - s := by
  obtain ⟨states, k, hv, hticks, hcompleted, hmet⟩ := visits_met
  obtain ⟨states', k', hv', hticks', hmissed, hnot⟩ := visits_missed
  exact ⟨⟨states, k, hv, hticks, hcompleted, (misses_iff_demand hv).mp hmet⟩,
    ⟨states', k', hv', hticks', hmissed, fun hall => hnot ((misses_iff_demand hv').mpr hall)⟩⟩

/-- **A density below one is enough.** Where every job of a slot demands at most `C` ticks and has a
relative deadline of at least `D`, and `C / D` over all slots adds up to less than one, no run of
the workload misses a deadline. -/
theorem no_miss_of_density (h : Visits img (Workload demand) states k) (C D : ℕ → ℕ)
    (hjobs : ∀ j, Released states j → demand j ≤ C j.slot ∧ 0 < D j.slot ∧
      j.release + D j.slot ≤ j.deadline)
    (hdensity : ∑ i ∈ userSlots.toFinset, (C i : ℚ) / D i < 1) :
    ∀ k' ∈ states, ∀ i ∈ userSlots, (k'.schedules i).deadlineMissCount = 0 := by
  have horder := Visits.orderly h
  have hsporadic : Sporadic (terms demand) (Released states) userSlots.toFinset Job.slot C D :=
    { mem := fun j hj => List.mem_toFinset.mpr (horder.slot j hj)
      pos := fun j hj => (hjobs j hj).2.1
      window := fun j hj => (hjobs j hj).2.2
      demand := fun j hj => (hjobs j hj).1
      apart := horder.apart }
  rcases Visits.keeps_or_misses h with ⟨hno, -⟩ | ⟨-, s, d, S, -, hcrowd⟩
  · intro k' hk' i hi
    by_contra hmiss
    exact hno ⟨k', hk', i, hi, hmiss⟩
  · exact absurd hcrowd (hsporadic.not_crowded hdensity)

/-- The sample task, with a density of three eighths. -/
theorem no_miss_of_density_sample : ∃ states k,
    Visits sampleImage (Workload sampleDemand) states k ∧ (k.schedules 1).jobExecutionTicks = 1 ∧
      ∀ k' ∈ states, ∀ i ∈ userSlots, (k'.schedules i).deadlineMissCount = 0 := by
  obtain ⟨states, k, hv, hsolo, -, hcharged⟩ := visits_charged
  refine ⟨states, k, hv, hcharged,
    no_miss_of_density hv (fun i => if i = 1 then 3 else 0) (fun _ => 8) ?_ (by decide +kernel)⟩
  intro j hj
  rw [released_solo hsolo hj]
  decide

end Aymos.Schedulability
