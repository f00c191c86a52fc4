import Aymos.ControlInv
import Aymos.EmissionLog

/-!
What a step does to one slot.

`SlotStep` lists the ways in which the record of a slot can change, each with the records of the
trace that tell of it. What is proved of every `SlotStep` holds of every slot along every run.
-/

namespace Aymos.SlotSteps

open Words Allocator Scheduler Trace WordMem Kernel Machine Handlers Frames Services Switch Slots
  Control Boot EmissionLog

/-! ### The records about a slot -/

/-- The events that tell what becomes of a task. -/
def lifecycle : List TraceEvent :=
  [.taskCreate, .taskRelease, .taskYield, .taskSleep, .taskWake, .taskExit, .deadlineMet,
    .deadlineMiss, .taskWaitPeriod, .taskReleaseSkipped]

/-- A record of the trace that tells of slot `i`. -/
def concerns (i : ℕ) (input : TraceInput) : Bool :=
  input.task == i && (lifecycle.map TraceEvent.code).contains input.event

/-- The records of the batches that tell of slot `i`. -/
def about (i : ℕ) (bs : List (List TraceInput)) : List TraceInput := bs.flatten.filter (concerns i)

variable {i j : ℕ} {bs bs' : List (List TraceInput)}

lemma about_append : about i (bs ++ bs') = about i bs ++ about i bs' := by
  rw [about, List.flatten_append, List.filter_append]
  rfl

lemma about_eq_nil (h : ∀ b ∈ bs, ∀ input ∈ b, concerns i input = false) : about i bs = [] :=
  List.filter_eq_nil_iff.mpr fun input hi => by
    obtain ⟨b, hb, hi⟩ := List.mem_flatten.mp hi
    simp [h b hb input hi]

lemma about_eq_flatten (h : ∀ b ∈ bs, ∀ input ∈ b, concerns i input = true) :
    about i bs = bs.flatten :=
  List.filter_eq_self.mpr fun input hi => by
    obtain ⟨b, hb, hi⟩ := List.mem_flatten.mp hi
    exact h b hb input hi

/-- Batches that all tell of slot `j`. -/
structure AllAbout (j : ℕ) (bs : List (List TraceInput)) : Prop where
  tell : ∀ b ∈ bs, ∀ input ∈ b, concerns j input = true

lemma concerns_ne {input : TraceInput} (h : concerns j input = true) (hne : i ≠ j) :
    concerns i input = false := by
  rw [concerns, Bool.and_eq_true, beq_iff_eq] at h
  have hti : (input.task == i) = false := by
    rw [beq_eq_false_iff_ne, h.1]
    exact hne.symm
  rw [concerns, hti, Bool.false_and]

lemma AllAbout.about_self (h : AllAbout i bs) : about i bs = bs.flatten := about_eq_flatten h.tell

lemma AllAbout.about_other (h : AllAbout j bs) (hne : i ≠ j) : about i bs = [] :=
  about_eq_nil fun b hb input hi => concerns_ne (h.tell b hb input hi) hne

lemma AllAbout.append (h : AllAbout j bs) (h' : AllAbout j bs') : AllAbout j (bs ++ bs') :=
  ⟨fun b hb => (List.mem_append.mp hb).elim (h.tell b) (h'.tell b)⟩

lemma concerns_record {e : TraceEvent} (he : e ∈ lifecycle) (j related v0 v1 v2 : ℕ) :
    concerns j (record e j related v0 v1 v2) = true := by
  have hc : (lifecycle.map TraceEvent.code).contains e.code = true :=
    List.contains_iff_mem.mpr (List.mem_map_of_mem he)
  simp only [concerns, record, hc, beq_self_eq_true, Bool.and_self]

lemma allAbout_single {e : TraceEvent} (he : e ∈ lifecycle) (j related v0 v1 v2 : ℕ) :
    AllAbout j [[record e j related v0 v1 v2]] := by
  refine ⟨fun b hb input hi => ?_⟩
  rw [List.mem_singleton.mp hb] at hi
  rw [List.mem_singleton.mp hi]
  exact concerns_record he ..

/-- A record that is made in one case only. -/
lemma allAbout_ite {e : TraceEvent} (he : e ∈ lifecycle) (p : Prop) [Decidable p]
    (j related v0 v1 v2 : ℕ) :
    AllAbout j (if p then [[record e j related v0 v1 v2]] else []) := by
  split
  · exact allAbout_single he ..
  · exact ⟨fun b hb => absurd hb List.not_mem_nil⟩

lemma allAbout_tick (now j : ℕ) (t : SchedTask) : AllAbout j (tickBatches now j t) := by
  have hmiss := allAbout_ite (e := .deadlineMiss) (by decide) (ticksMiss now t = true) j
  have hskip := allAbout_ite (e := .taskReleaseSkipped) (by decide) (ticksSkip now t = true) j
  have hrelease := allAbout_ite (e := .taskRelease) (by decide) (ticksRelease now t = true) j
  have hwake := allAbout_ite (e := .taskWake) (by decide) (ticksWake now t = true) j
  exact (((hmiss ..).append (hskip ..)).append (hrelease ..)).append (hwake ..)

lemma allAbout_outcome (miss : Bool) (j : ℕ) (t : SchedTask) :
    AllAbout j (outcomeBatches miss j t) := by
  rw [outcomeBatches]
  split
  · exact allAbout_single (e := .deadlineMiss) (by decide) ..
  · exact allAbout_ite (e := .deadlineMet) (by decide) ..

/-- The records of a tick that tell of slot `i` are those of its own stages. -/
lemma about_flatMap {f : ℕ → List (List TraceInput)} (hf : ∀ j, AllAbout j (f j)) {ids : List ℕ}
    (hnodup : ids.Nodup) (hi : i ∈ ids) : about i (ids.flatMap f) = (f i).flatten := by
  induction ids with
  | nil => exact absurd hi List.not_mem_nil
  | cons id ids ih =>
    rw [List.nodup_cons] at hnodup
    rw [List.flatMap_cons, about_append]
    rcases List.mem_cons.mp hi with rfl | hin
    · have hrest : about i (ids.flatMap f) = [] := about_eq_nil fun b hb input hinput => by
        obtain ⟨j, hj, hb⟩ := List.mem_flatMap.mp hb
        have hne : i ≠ j := fun heq => hnodup.1 (heq ▸ hj)
        exact concerns_ne ((hf j).tell b hb input hinput) hne
      rw [(hf i).about_self, hrest, List.append_nil]
    · have hne : i ≠ id := fun heq => hnodup.1 (heq ▸ hin)
      rw [(hf id).about_other hne, ih hnodup.2 hin, List.nil_append]

/-- A record of an event that tells of no slot. -/
lemma concerns_event {input : TraceInput} {event : TraceEvent} (he : input.event = event.code)
    (hl : event ∉ lifecycle) : concerns i input = false := by
  have hc : (lifecycle.map TraceEvent.code).contains input.event = false := by
    rw [he]
    revert hl
    cases event <;> decide
  rw [concerns, hc, Bool.and_false]

lemma concerns_other {e : TraceEvent} (hl : e ∉ lifecycle) (task related v0 v1 v2 : ℕ) :
    concerns i (record e task related v0 v1 v2) = false := concerns_event rfl hl

lemma about_selection {schedules : ℕ → SchedTask} {n selected incumbent excluded : ℕ}
    {purpose : SelectPurpose} :
    about i [selectionInputs schedules n selected incumbent excluded purpose] = [] :=
  about_eq_nil fun b hb input hi => by
    rw [List.mem_singleton.mp hb] at hi
    rcases selection_event hi with he | he
    · exact concerns_event he (by decide)
    · exact concerns_event he (by decide)

/-- A commit tells of no slot. -/
lemma about_commit {c c' : Ctl} (h : CtlStep c .pendCommit c' bs) : about i bs = [] :=
  about_eq_nil fun b hb input hi => by
    have hsite := site_of_mem h b hb
    generalize hl : Label.pendCommit = l at hsite
    cases hsite with
    | memory hq => subst hl; cases hq
    | dispatch =>
      rcases selection_event hi with he | he
      · exact concerns_event he (by decide)
      · exact concerns_event he (by decide)
    | ownerRelease =>
      rw [List.mem_singleton.mp hi]
      exact concerns_other (e := .ownerRelease) (by decide) ..
    | idleStop =>
      rw [List.mem_singleton.mp hi]
      exact concerns_other (e := .idleStop) (by decide) ..
    | idleStart =>
      rw [List.mem_singleton.mp hi]
      exact concerns_other (e := .idleStart) (by decide) ..
    | preempt =>
      rw [List.mem_singleton.mp hi]
      exact concerns_other (e := .taskPreempt) (by decide) ..
    | switch =>
      rw [List.mem_singleton.mp hi]
      exact concerns_other (e := .contextSwitch) (by decide) ..
    | start =>
      rw [List.mem_singleton.mp hi]
      exact concerns_other (e := .taskStart) (by decide) ..
    | outcomeMiss hor => rcases hor with rfl | rfl <;> cases hl
    | outcomeMet hor => rcases hor with rfl | rfl <;> cases hl
    | _ => cases hl

/-! ### The steps of a slot -/

/-- The records of the completion of a job, up to the call that completes it. -/
def outcomeRecords (i : ℕ) (t t' : SchedTask) : List TraceInput :=
  (outcomeBatches t.deadlineMissLatched i t').flatten

/-- **A step of slot `i`**, from the record `t` at the tick `now`, with the records of the trace
that tell of it. -/
inductive SlotStep (i now : ℕ) (t : SchedTask) :
    Label → ℕ → SchedTask → List TraceInput → Prop
  | same {l : Label} : SlotStep i now t l now t []
  | ticked : tickExhausts (now + 1) t = false →
    SlotStep i now t .tick (now + 1) (tickTask (now + 1) t) (tickBatches (now + 1) i t).flatten
  | preempted : tickExhausts (now + 1) t = false → t.state = .running →
    SlotStep i now t .tick (now + 1) (inState (tickTask (now + 1) t) .ready)
      (tickBatches (now + 1) i t).flatten
  | retired : t.state = .running → SlotStep i now t .pendCommit now (inState t .ready) []
  | resumed : t.state = .ready ∨ t.state = .running →
    SlotStep i now t .pendCommit now (inState t .running) []
  | reclaimed : t.state = .exiting →
    SlotStep i now t .pendCommit now (osSchedTaskReset i) []
  | cleared {config : TaskConfig} : t.state = .dormant →
    SlotStep i now t (.create config) now (osSchedTaskReset i) []
  | created {config : TaskConfig} {t' : SchedTask} {related : ℕ} : t.state = .dormant →
    osSchedTaskConfigure t config.timing now = (t', true) →
    SlotStep i now t (.create config) now t'
      (record .taskCreate i related t'.kind.code t'.priority t'.state.code ::
        if t'.state = .ready then [deadlineRecord .taskRelease i t'] else [])
  | yielded : t.state = .running →
    SlotStep i now t .yield now (inState t .ready) [record .taskYield i traceTaskInvalid 0 0 0]
  | slept {ticks : ℕ} {t' : SchedTask} : osSchedSleep t now ticks = (t', true) →
    SlotStep i now t (.sleep ticks) now t'
      [record .taskSleep i traceTaskInvalid (u32 t'.wakeOrder) (u32 (t'.wakeOrder / 2 ^ 32)) ticks]
  | waited {t' : SchedTask} : osSchedWaitNextPeriod t now = (t', true) →
    SlotStep i now t .waitNextPeriod now t' (outcomeRecords i t t' ++
      [record .taskWaitPeriod i traceTaskInvalid (u32 t'.nextReleaseOrder)
        (u32 (t'.nextReleaseOrder / 2 ^ 32)) 0])
  | exited {t' : SchedTask} : osSchedCompleteJob t now = (t', true) →
    SlotStep i now t .taskExit now (inState t' .exiting) (outcomeRecords i t t' ++
      [record .taskExit i traceTaskInvalid t'.completedJobCount t'.deadlineMissCount 0])

variable {c c' : Ctl} {l : Label}

lemma tickExhausts_of_any {now : ℕ} {schedules : ℕ → SchedTask} (hi : i ∈ userSlots)
    (h : anyExhausts now schedules userSlots = false) : tickExhausts now (schedules i) = false := by
  rw [← Bool.not_eq_true]
  exact List.any_eq_false.mp h i hi

lemma about_tick {now : ℕ} {schedules : ℕ → SchedTask} (hi : i ∈ userSlots) :
    about i (tickAllBatches now schedules userSlots) =
      (tickBatches now i (schedules i)).flatten :=
  about_flatMap (f := fun j => tickBatches now j (schedules j))
    (fun j => allAbout_tick now j (schedules j)) userSlots_nodup hi

/-- What a call by another task does to the slot. -/
lemma called_other {cause : ℕ} {t : SchedTask} (hne : i ≠ c.current) :
    (called c cause t).schedules i = c.schedules i := Function.update_of_ne hne _ _

lemma called_self {cause : ℕ} {t : SchedTask} : (called c cause t).schedules c.current = t :=
  Function.update_self ..

lemma announced_clock {k : Ctl} : (announced k j).ticks = k.ticks := by
  rw [announced]
  split <;> rfl

/-- The records of a creation tell of the slot that is filled. -/
lemma about_creation_self {t : SchedTask} : about i (creationBatches (filled c i t) i) =
    record .taskCreate i (traceTask (if (filled c i t).running then (filled c i t).current
      else taskIdInvalid)) t.kind.code t.priority t.state.code ::
      if t.state = .ready then [deadlineRecord .taskRelease i t] else [] := by
  have ht : (filled c i t).schedules i = t := Function.update_self ..
  have hprobe : about i (if createHits (filled c i t) i then
      [selectionInputs (filled c i t).schedules osTaskCount i (filled c i t).current taskIdInvalid
        .runtimeCreateProbe] else []) = [] := by
    split
    · exact about_selection
    · rfl
  have hrelease := allAbout_ite (e := .taskRelease) (by decide) (t.state = .ready) i
    traceTaskInvalid (u32 t.absoluteDeadlineOrder) (u32 (t.absoluteDeadlineOrder / 2 ^ 32))
    t.jobSequence
  rw [creationBatches, about_append, hprobe, List.append_nil, ht, about_append,
    (allAbout_single (e := .taskCreate) (by decide) ..).about_self]
  refine congrArg (_ :: ·) (hrelease.about_self.trans ?_)
  split <;> rfl

lemma about_creation_other {t : SchedTask} (hij : i ≠ j) :
    about i (creationBatches (filled c j t) j) = [] := by
  have hprobe : about i (if createHits (filled c j t) j then
      [selectionInputs (filled c j t).schedules osTaskCount j (filled c j t).current taskIdInvalid
        .runtimeCreateProbe] else []) = [] := by
    split
    · exact about_selection
    · rfl
  have hrelease := allAbout_ite (e := .taskRelease) (by decide)
    (((filled c j t).schedules j).state = .ready) j
    traceTaskInvalid (u32 ((filled c j t).schedules j).absoluteDeadlineOrder)
    (u32 (((filled c j t).schedules j).absoluteDeadlineOrder / 2 ^ 32))
    ((filled c j t).schedules j).jobSequence
  rw [creationBatches, about_append, hprobe, List.append_nil, about_append,
    (allAbout_single (e := .taskCreate) (by decide) ..).about_other hij]
  exact hrelease.about_other hij

/-- The slots after a commit. -/
lemma slotStep_commit (hi : i ∈ userSlots)
    (hready : ((retired c).schedules (next (retired c))).state = .ready) :
    SlotStep i c.ticks (c.schedules i) .pendCommit c.ticks
      ((resumed (retired c) (next (retired c))).schedules i) [] := by
  have hlt : i < osTaskCount := (mem_userSlots.mp hi).2
  have hold : (retired c).schedules i = c.schedules i ∨
      ((c.schedules i).state = .running ∧
        (retired c).schedules i = inState (c.schedules i) .ready) ∨
      ((c.schedules i).state = .exiting ∧ (retired c).schedules i = osSchedTaskReset i) := by
    by_cases hic : i = c.current
    · subst hic
      rw [retired, if_neg (ne_invalid_of_lt hlt)]
      split_ifs with hrun hexit
      · exact Or.inr (Or.inl ⟨hrun, Function.update_self ..⟩)
      · exact Or.inr (Or.inr ⟨hexit, Function.update_self ..⟩)
      · exact Or.inl rfl
    · exact Or.inl (retired_other hic)
  by_cases hin : i = next (retired c)
  · have hnew : (resumed (retired c) (next (retired c))).schedules i =
        inState ((retired c).schedules i) .running := by
      rw [← hin]
      exact Function.update_self ..
    rw [hnew]
    rw [← hin] at hready
    rcases hold with hs | ⟨hrun, hs⟩ | ⟨-, hs⟩
    · rw [hs] at hready ⊢
      exact .resumed (Or.inl hready)
    · rw [hs]
      exact .resumed (Or.inr hrun)
    · rw [hs] at hready
      cases hready
  · have hnew : (resumed (retired c) (next (retired c))).schedules i = (retired c).schedules i :=
      Function.update_of_ne hin _ _
    rw [hnew]
    rcases hold with hs | ⟨hrun, hs⟩ | ⟨hexit, hs⟩
    · rw [hs]
      exact .same
    · rw [hs]
      exact .retired hrun
    · rw [hs]
      exact .reclaimed hexit

/-- **Every step of the control is a step of each slot.** -/
theorem slotStep_of_step (h : ControlInv c) (hstep : CtlStep c l c' bs) (hi : i ∈ userSlots) :
    SlotStep i c.ticks (c.schedules i) l c'.ticks (c'.schedules i) (about i bs) := by
  have hlt : i < osTaskCount := (mem_userSlots.mp hi).2
  cases hstep with
  | quiet => exact .same
  | memory _ hrec =>
    obtain ⟨event, task, related, v0, v1, v2, hev, rfl⟩ := hrec
    have hnil : about i [[record event task related v0 v1 v2]] = [] :=
      about_eq_nil fun b hb input hin => by
        rw [List.mem_singleton.mp hb] at hin
        rw [List.mem_singleton.mp hin]
        rcases hev with rfl | rfl
        · exact concerns_other (e := .alloc) (by decide) ..
        · exact concerns_other (e := .free) (by decide) ..
    rw [hnil]
    exact .same
  | primask => exact .same
  | bootTick => exact .same
  | tick _ _ _ hx =>
    rw [about_tick hi, show (ticked c).schedules i = tickTask (c.ticks + 1) (c.schedules i) from
      tickSchedules_user hi]
    exact .ticked (tickExhausts_of_any hi hx)
  | tickPreempt _ _ _ hx hit =>
    rw [about_append, about_selection, List.append_nil, about_tick hi]
    have hti : (ticked c).schedules i = tickTask (c.ticks + 1) (c.schedules i) :=
      tickSchedules_user hi
    simp only [tickHits, Bool.and_eq_true] at hit
    obtain ⟨-, hrun, -⟩ := probeHits_spec (h.ticked hx).table.id hit.2
    by_cases hic : i = c.current
    · have hnew : (preempt (ticked c)).schedules i =
          inState (tickTask (c.ticks + 1) (c.schedules i)) .ready := by
        rw [← hti, hic]
        exact Function.update_self ..
      rw [hnew]
      refine .preempted (tickExhausts_of_any hi hx) ?_
      rw [← hic] at hrun
      rcases h.table.tick_state hlt (c.ticks + 1) with hst | ⟨-, hst, -, -⟩
      · exact hst.symm.trans hrun
      · rw [show ((ticked c).schedules i).state = .ready from ‹_›] at hrun
        cases hrun
    · have hnew : (preempt (ticked c)).schedules i = tickTask (c.ticks + 1) (c.schedules i) := by
        rw [← hti]
        exact Function.update_of_ne hic _ _
      rw [hnew]
      exact .ticked (tickExhausts_of_any hi hx)
  | pendEnter => exact .same
  | pendCommit hm hn hlt' hready hsrc hact hrun hfreed =>
    rw [about_commit (.pendCommit hm hn hlt' hready hsrc hact hrun hfreed),
      show (resumed (retired c) _).ticks = c.ticks from retired_ticks c]
    subst hn
    exact slotStep_commit hi hready
  | pendReturn => exact .same
  | kernelStart =>
    have hnil : about i [[record .kernelStart traceTaskInvalid traceTaskInvalid 0 osTaskCount 0]]
        = [] := about_eq_nil fun b hb input hin => by
      rw [List.mem_singleton.mp hb] at hin
      rw [List.mem_singleton.mp hin]
      exact concerns_other (by decide) ..
    rw [hnil]
    exact .same
  | startSvc => exact .same
  | @createFails config j h1 hlt' hd =>
    by_cases hij : i = j
    · subst hij
      rw [show (cleared c i).schedules i = osSchedTaskReset i from Function.update_self ..]
      exact .cleared hd
    · rw [show (cleared c j).schedules i = c.schedules i from Function.update_of_ne hij _ _]
      exact .same
  | @create config j t _ _ h1 hlt' hd _ hconf =>
    have hannounced : (announced (filled c j t) j).schedules = (filled c j t).schedules := by
      rw [announced]
      split <;> rfl
    rw [announced_clock, hannounced]
    by_cases hij : i = j
    · subst hij
      rw [about_creation_self, show (filled c i t).schedules i = t from Function.update_self ..]
      exact .created hd hconf
    · rw [about_creation_other hij, show (filled c j t).schedules i = c.schedules i from
        Function.update_of_ne hij _ _]
      exact .same
  | yield hcall =>
    by_cases hic : i = c.current
    · subst hic
      rw [(allAbout_single (e := .taskYield) (by decide) ..).about_self,
        show Ctl.schedules _ c.current = _ from called_self]
      exact .yielded hcall.2.2.2
    · rw [(allAbout_single (e := .taskYield) (by decide) ..).about_other hic,
        show Ctl.schedules _ i = _ from called_other hic]
      exact .same
  | sleep hcall hsleep =>
    by_cases hic : i = c.current
    · subst hic
      rw [(allAbout_single (e := .taskSleep) (by decide) ..).about_self, called_self]
      exact .slept hsleep
    · rw [(allAbout_single (e := .taskSleep) (by decide) ..).about_other hic,
        called_other hic]
      exact .same
  | @waitNextPeriod t hcall hidle hwait =>
    have hall := (allAbout_outcome (incumbent c).deadlineMissLatched c.current t).append
      (allAbout_single (e := .taskWaitPeriod) (by decide) c.current traceTaskInvalid
        (u32 t.nextReleaseOrder) (u32 (t.nextReleaseOrder / 2 ^ 32)) 0)
    by_cases hic : i = c.current
    · subst hic
      rw [hall.about_self, called_self, List.flatten_append]
      exact .waited hwait
    · rw [hall.about_other hic, called_other hic]
      exact .same
  | @taskExit t hcall hidle hdone =>
    have hall := (allAbout_outcome (incumbent c).deadlineMissLatched c.current t).append
      (allAbout_single (e := .taskExit) (by decide) c.current traceTaskInvalid
        t.completedJobCount t.deadlineMissCount 0)
    by_cases hic : i = c.current
    · subst hic
      rw [hall.about_self, called_self, List.flatten_append]
      exact .exited hdone
    · rw [hall.about_other hic, called_other hic]
      exact .same

/-! ### Along runs -/

variable {img : Image} {P : KernelState → Label → Prop} {labels : List Label} {k : KernelState}

lemma booted_slot (hi : i ∈ userSlots) (m : ByteMem.Mem) (ram : Ram) (pc : ℕ) :
    (booted img m ram pc).schedules i = osSchedTaskReset i := by
  change bootSchedules i = _
  rw [bootSchedules, if_neg (userSlot_ne_idle hi).symm, if_pos (mem_userSlots.mp hi).2]

/-- **What every step of a slot keeps holds of every slot along every run.** -/
theorem slot_induction {Q : ℕ → ℕ → SchedTask → Prop} (h : Reaches img P labels k)
    (hi : i ∈ userSlots) (hreset : ∀ now, Q i now (osSchedTaskReset i))
    (hstep : ∀ {now t l now' t' records}, SlotInv now t → t.id = i → Q i now t →
      SlotStep i now t l now' t' records → Q i now' t') :
    Q i k.monotonicTicks (k.schedules i) := by
  refine h.induction (Q := fun _ k => Q i k.monotonicTicks (k.schedules i))
    (fun m ram pc _ => ?_) fun labels k l k' hr ih _ hs => ?_
  · rw [booted_slot hi]
    exact hreset _
  · have hc := hr.control
    obtain ⟨bs, hctl, -⟩ := control_step img (ControlInv.wellIndexed hc) hs
    exact hstep (hc.table.slots i hi) (hc.table.id i (mem_userSlots.mp hi).2) ih
      (slotStep_of_step hc hctl hi)

end Aymos.SlotSteps
