import Aymos.Acceptance
import Aymos.FoldAlong
import Aymos.Replay
import Aymos.Timing
import Mathlib.Data.Finset.Option

/-!
The task states that a host reads off the trace.

The host folds the records of a trace into the task that runs and the set of those that are ready.
The fold keeps up with the tables of the kernel through every step.
-/

namespace Aymos.HostStates

open Words Allocator Scheduler Trace Decoder Validate RoundTrip RingHistory WordMem Kernel Machine
  Handlers Frames Services Switch Slots Select Control Boot Ownership EmissionLog SlotSteps Timing
  Acceptance Snapshot Replay FoldAlong

/-! ### The fold -/

/-- What the host knows of the tasks. -/
structure Host where
  running : Option ℕ
  ready : Finset ℕ
  /-- The running task has slept, waited for its period or exited. -/
  parked : Bool
  idle : Bool

/-- A user task, if any. -/
def users (task : Option ℕ) : Finset ℕ := task.toFinset.erase taskIdIdle

/-- The tasks that are ready once the running one has been set aside. -/
def Host.eligible (h : Host) : Finset ℕ := if h.parked then h.ready else h.ready ∪ users h.running

/-- One more record. -/
def hostStep (h : Host) (r : DecodedRecord) : Host :=
  match r.event with
  | .taskRelease | .taskWake | .taskYield => { h with ready := h.ready ∪ users r.task }
  | .taskSleep | .taskWaitPeriod | .taskExit =>
    { h with ready := h.ready \ r.task.toFinset, parked := h.parked || r.task == h.running }
  | .idleStart => { h with idle := true }
  | .idleStop => { h with idle := false }
  | .contextSwitch =>
    { h with running := r.related, ready := h.eligible \ r.related.toFinset, parked := false }
  | _ => h

def hostStart : Host := ⟨none, ∅, false, false⟩

/-- What the host knows after the records of a trace. -/
def host (trace : List DecodedRecord) : Host := trace.foldl hostStep hostStart

/-- **What a record says to a host** that has folded those before it. -/
structure Agrees (h : Host) (r : DecodedRecord) : Prop where
  switch : r.event = .contextSwitch → r.task = h.running ∧ r.related.isSome = true ∧
    (h.idle = true ↔ r.related = some taskIdIdle)
  idleStart : r.event = .idleStart → h.idle = false
  idleStop : r.event = .idleStop → h.idle = true
  dispatch : r.event = .taskSelect → (selectDetails r).purpose = some .dispatch →
    ∀ i, i ∈ h.eligible ↔ (selectDetails r).readyMask.testBit i = true

/-! ### Records as they are emitted -/

/-- A record as the host sees it, but for its tick and number. -/
def view (input : TraceInput) : DecodedRecord := decodedInput 0 0 input

def stepInput (h : Host) (input : TraceInput) : Host := hostStep h (view input)

def AgreesInput (h : Host) (input : TraceInput) : Prop := Agrees h (view input)

variable {h : Host} {input : TraceInput} {inputs inputs' : List TraceInput} {i : ℕ}

/-- The fold looks neither at the ticks nor at the numbers of the records. -/
lemma fold_batch (tick n : ℕ) :
    (decodedBatch tick n inputs).foldl hostStep h = inputs.foldl stepInput h := by
  induction inputs generalizing h n with
  | nil => rfl
  | cons input inputs ih =>
    rw [decodedBatch_cons, List.foldl_cons, List.foldl_cons, ih]
    rfl

lemma along_batch (tick n : ℕ) : Along hostStep Agrees h (decodedBatch tick n inputs) ↔
    Along stepInput AgreesInput h inputs := by
  induction inputs generalizing h n with
  | nil => exact Iff.rfl
  | cons input inputs ih =>
    rw [decodedBatch_cons, Along, Along, ih]
    refine and_congr ⟨fun ha => ?_, fun ha => ?_⟩ Iff.rfl
    · exact ⟨ha.switch, ha.idleStart, ha.idleStop, ha.dispatch⟩
    · exact ⟨ha.switch, ha.idleStart, ha.idleStop, ha.dispatch⟩

/-- A record that the ring takes is one of an event. -/
lemma record_of_valid (hv : InputValid input) :
    ∃ event, input = record event input.task input.related input.value0 input.value1 input.value2 := by
  obtain ⟨event, -, hcode⟩ := eventOfCode_valid hv.1
  have hflags := hv.2
  refine ⟨event, ?_⟩
  cases input
  simp only [record] at hcode hflags ⊢
  rw [hcode, hflags]

/-- The events that the host leaves aside. -/
def Aside (event : TraceEvent) : Prop :=
  event ∉ [TraceEvent.taskRelease, .taskWake, .taskYield, .taskSleep, .taskWaitPeriod, .taskExit,
    .idleStart, .idleStop, .contextSwitch]

instance (event : TraceEvent) : Decidable (Aside event) := inferInstanceAs (Decidable (_ ∉ _))

lemma hostStep_aside {r : DecodedRecord} (ha : Aside r.event) : hostStep h r = h := by
  unfold hostStep
  generalize r.event = event at ha
  cases event <;> first | rfl | exact absurd (by decide) ha

/-- A record that the host leaves aside. -/
lemma agrees_aside {r : DecodedRecord} (ha : Aside r.event) (hs : r.event ≠ .taskSelect) :
    Agrees h r := by
  refine ⟨fun he => ?_, fun he => ?_, fun he => ?_, fun he => absurd he hs⟩
  all_goals
    rw [he] at ha
    exact absurd (by decide) ha

/-- Records that the host leaves aside. -/
lemma along_aside (hall : ∀ r ∈ inputs, Aside (view r).event ∧ (view r).event ≠ .taskSelect) :
    Along stepInput AgreesInput h inputs ∧ inputs.foldl stepInput h = h := by
  refine ⟨along_of_forall fun h r hr => agrees_aside (hall r hr).1 (hall r hr).2, ?_⟩
  induction inputs with
  | nil => rfl
  | cons r inputs ih =>
    rw [List.foldl_cons, stepInput, hostStep_aside (hall r List.mem_cons_self).1]
    exact ih fun r' hr' => hall r' (List.mem_cons_of_mem _ hr')

/-! ### One slot -/

/-- A record makes its task ready or not. -/
def tellsReady (ready : Bool) (input : TraceInput) : Bool :=
  match (view input).event with
  | .taskRelease | .taskWake | .taskYield => true
  | .taskSleep | .taskWaitPeriod | .taskExit => false
  | _ => ready

/-- A record of a task that leaves the processor of its own accord. -/
def tellsParked (parked : Bool) (input : TraceInput) : Bool :=
  match (view input).event with
  | .taskSleep | .taskWaitPeriod | .taskExit => true
  | _ => parked

@[simp] lemma view_event (event : TraceEvent) (task related v0 v1 v2 : ℕ) :
    (view (record event task related v0 v1 v2)).event = event := decodedInput_event ..

lemma view_event_ne {event other : TraceEvent} {task related v0 v1 v2 : ℕ} (hne : event ≠ other) :
    (view (record event task related v0 v1 v2)).event ≠ other := by
  rw [view_event]
  exact hne

@[simp] lemma view_task (event : TraceEvent) (task related v0 v1 v2 : ℕ) :
    (view (record event task related v0 v1 v2)).task = optionalTask task := rfl

@[simp] lemma view_related (event : TraceEvent) (task related v0 v1 v2 : ℕ) :
    (view (record event task related v0 v1 v2)).related = optionalTask related := rfl

lemma optionalTask_eq_some {task : ℕ} (hi : i ∈ userSlots) :
    optionalTask task = some i ↔ task = i := by
  rw [optionalTask]
  split
  · next h =>
    refine iff_of_false (by simp) fun hti => ?_
    have hlt := userSlot_lt hi
    rw [← hti, h] at hlt
    exact absurd hlt (by decide)
  · rw [Option.some.injEq]

lemma mem_users (hi : i ∈ userSlots) {task : Option ℕ} : i ∈ users task ↔ task = some i := by
  rw [users, Finset.mem_erase, Option.mem_toFinset, Option.mem_def]
  exact and_iff_right (userSlot_ne_idle hi).symm

lemma concerns_iff {event : TraceEvent} {task related v0 v1 v2 : ℕ} :
    concerns i (record event task related v0 v1 v2) = true ↔ task = i ∧ event ∈ lifecycle := by
  have hc : (lifecycle.map TraceEvent.code).contains event.code = true ↔ event ∈ lifecycle := by
    cases event <;> decide
  rw [concerns, Bool.and_eq_true, beq_iff_eq]
  exact and_congr_right fun _ => hc

/-- What a record does to the readiness of slot `i`. -/
lemma ready_step (hv : InputValid input) (hi : i ∈ userSlots)
    (hne : (view input).event ≠ .contextSwitch) :
    decide (i ∈ (stepInput h input).ready) =
      if concerns i input then tellsReady (decide (i ∈ h.ready)) input
      else decide (i ∈ h.ready) := by
  obtain ⟨event, he⟩ := record_of_valid hv
  rw [he] at hne ⊢
  rw [view_event] at hne
  generalize input.task = task, input.related = related, input.value0 = v0, input.value1 = v1,
    input.value2 = v2
  simp only [concerns_iff]
  have htask : optionalTask task = some i ↔ task = i := optionalTask_eq_some hi
  have hself : optionalTask i = some i := (optionalTask_eq_some hi).mpr rfl
  cases event <;> simp only [stepInput, hostStep, tellsReady, view_event, view_task, lifecycle] <;>
    first | exact absurd rfl hne | skip
  all_goals by_cases hti : task = i <;> simp [hti, htask, hself, mem_users hi]

/-- The records of a step that is no switch, by what they do to the readiness of slot `i`. -/
lemma ready_fold (hi : i ∈ userSlots)
    (hall : ∀ r ∈ inputs, InputValid r ∧ (view r).event ≠ .contextSwitch) :
    decide (i ∈ (inputs.foldl stepInput h).ready) =
      (inputs.filter (concerns i)).foldl tellsReady (decide (i ∈ h.ready)) := by
  induction inputs generalizing h with
  | nil => rfl
  | cons r inputs ih =>
    have hr := hall r List.mem_cons_self
    rw [List.foldl_cons, ih fun r' hr' => hall r' (List.mem_cons_of_mem _ hr'),
      ready_step hr.1 hi hr.2, List.filter_cons]
    split <;> rfl

/-- Nor does such a step change the running task. -/
lemma running_step {r : DecodedRecord} (hne : r.event ≠ .contextSwitch) :
    (hostStep h r).running = h.running := by
  unfold hostStep
  generalize r.event = event at hne
  cases event <;> first | rfl | exact absurd rfl hne

lemma idle_step (hne : (view input).event ≠ .idleStart ∧ (view input).event ≠ .idleStop) :
    (stepInput h input).idle = h.idle := by
  unfold stepInput hostStep
  generalize (view input).event = event at hne
  cases event <;> first | rfl | exact absurd rfl hne.1 | exact absurd rfl hne.2

/-- What a record does to the mark of the running task. -/
lemma parked_step (hv : InputValid input) (hi : i ∈ userSlots) (hrun : h.running = some i)
    (hne : (view input).event ≠ .contextSwitch) :
    (stepInput h input).parked =
      if concerns i input then tellsParked h.parked input else h.parked := by
  obtain ⟨event, he⟩ := record_of_valid hv
  rw [he] at hne ⊢
  rw [view_event] at hne
  generalize input.task = task, input.related = related, input.value0 = v0, input.value1 = v1,
    input.value2 = v2
  simp only [concerns_iff]
  have htask : optionalTask task = some i ↔ task = i := optionalTask_eq_some hi
  have hself : optionalTask i = some i := (optionalTask_eq_some hi).mpr rfl
  cases event <;>
    simp only [stepInput, hostStep, tellsParked, view_event, view_task, lifecycle, hrun] <;>
    first | exact absurd rfl hne | skip
  all_goals by_cases hti : task = i <;> simp [hti, htask, hself]

lemma parked_fold (hi : i ∈ userSlots) (hrun : h.running = some i)
    (hall : ∀ r ∈ inputs, InputValid r ∧ (view r).event ≠ .contextSwitch) :
    (inputs.foldl stepInput h).parked =
      (inputs.filter (concerns i)).foldl tellsParked h.parked := by
  induction inputs generalizing h with
  | nil => rfl
  | cons r inputs ih =>
    have hr := hall r List.mem_cons_self
    have hnext : (stepInput h r).running = some i := (running_step hr.2).trans hrun
    rw [List.foldl_cons, ih hnext fun r' hr' => hall r' (List.mem_cons_of_mem _ hr'),
      parked_step hr.1 hi hrun hr.2, List.filter_cons]
    split <;> rfl

/-- Ready tasks are user tasks. -/
lemma slots_step (hs : ∀ j ∈ h.ready, j ∈ userSlots) (hv : InputValid input)
    (hslot : (view input).event ∈ [TraceEvent.taskRelease, .taskWake, .taskYield] →
      input.task = taskIdIdle ∨ input.task ∈ userSlots)
    (hne : (view input).event ≠ .contextSwitch) : ∀ j ∈ (stepInput h input).ready, j ∈ userSlots := by
  obtain ⟨event, he⟩ := record_of_valid hv
  rw [he] at hne hslot ⊢
  simp only [view_event] at hne hslot
  generalize input.related = related, input.value0 = v0, input.value1 = v1, input.value2 = v2
  have hadd : (input.task = taskIdIdle ∨ input.task ∈ userSlots) →
      ∀ j ∈ h.ready ∪ users (optionalTask input.task), j ∈ userSlots := fun ht j hj => by
    rcases Finset.mem_union.mp hj with hj | hj
    · exact hs j hj
    · rw [users, Finset.mem_erase, Option.mem_toFinset, Option.mem_def, optionalTask] at hj
      obtain ⟨hne, hj⟩ := hj
      split at hj
      · cases hj
      · rw [Option.some.injEq] at hj
        rw [← hj] at hne ⊢
        exact ht.resolve_left hne
  have hdrop : ∀ j ∈ h.ready \ (optionalTask input.task).toFinset, j ∈ userSlots := fun j hj =>
    hs j (Finset.mem_sdiff.mp hj).1
  cases event <;> first | exact hs | exact hdrop | exact absurd rfl hne |
    exact hadd (hslot (by decide))

/-! ### One slot through a step -/

/-- What the host knows of a slot, which is current or not. -/
def Tracks (current : Prop) (s : TaskState) (ready parked : Bool) : Prop :=
  (current → ((ready || !parked) = true ↔ s = .ready ∨ s = .running)) ∧
    (¬current → (ready = true ↔ s = .ready))

variable {now now' : ℕ} {t t' : SchedTask} {l : Label} {records : List TraceInput} {current : Prop}
  {ready parked : Bool}

/-- A task that is made ready. -/
lemma tracks_ready {parked : Bool} : Tracks current .ready true parked :=
  ⟨fun _ => by simp, fun _ => by simp⟩

/-- A task that leaves the processor of its own accord. -/
lemma tracks_parked {s : TaskState} (hs : s ≠ .ready ∧ s ≠ .running) :
    Tracks current s false true :=
  ⟨fun _ => by simp [hs], fun _ => by simp [hs]⟩

/-- The records of a tick. -/
lemma tells_tick (now i : ℕ) (t : SchedTask) (ready parked : Bool) :
    (tickBatches now i t).flatten.foldl tellsReady ready =
        (ready || ticksRelease now t || ticksWake now t) ∧
      (tickBatches now i t).flatten.foldl tellsParked parked = parked := by
  rw [tickBatches]
  cases ticksMiss now t <;> cases ticksSkip now t <;> cases ticksRelease now t <;>
    cases ticksWake now t <;>
    simp [tellsReady, tellsParked, deadlineRecord, skipRecord]

/-- A tick makes a slot ready exactly when it says so. -/
lemma state_tick (hslot : SlotInv now t) (hx : tickExhausts (now + 1) t = false) :
    (tickTask (now + 1) t).state =
        (if ticksRelease (now + 1) t || ticksWake (now + 1) t then .ready else t.state) ∧
      (t.state = .running → ticksRelease (now + 1) t = false ∧ ticksWake (now + 1) t = false) := by
  by_cases hw : t.state = .waitingRelease
  · obtain ⟨hwake, htick, hrel, -⟩ := waiting_due hslot hx hw
    refine ⟨?_, fun hr => absurd (hw.symm.trans hr) (by decide)⟩
    rw [htick, hwake]
    split at hrel
    · rw [(Prod.mk.inj hrel).1, (Prod.mk.inj hrel).2]
      rfl
    · rw [(Prod.mk.inj hrel).1, (Prod.mk.inj hrel).2]
      rfl
  · obtain ⟨hrel, -, hwake⟩ := sleeping_due hslot hw
    rw [hrel]
    split at hwake
    · next hs =>
      rw [(Prod.mk.inj hwake).1, (Prod.mk.inj hwake).2]
      exact ⟨rfl, fun hr => absurd (hs.1.symm.trans hr) (by decide)⟩
    · rw [(Prod.mk.inj hwake).1, (Prod.mk.inj hwake).2]
      exact ⟨(skipped_sameJob (n := now + 1)).state, fun _ => ⟨rfl, rfl⟩⟩

lemma Tracks.tick (h : Tracks current t.state ready parked) (hslot : SlotInv now t)
    (hx : tickExhausts (now + 1) t = false) :
    Tracks current (tickTask (now + 1) t).state
      ((tickBatches (now + 1) i t).flatten.foldl tellsReady ready)
      ((tickBatches (now + 1) i t).flatten.foldl tellsParked parked) := by
  obtain ⟨hready, hparked⟩ := tells_tick (now + 1) i t ready parked
  rw [hready, hparked, (state_tick hslot hx).1, Bool.or_assoc]
  split
  · next hr =>
    rw [hr, Bool.or_true]
    exact tracks_ready
  · next hr =>
    rw [Bool.not_eq_true] at hr
    rw [hr, Bool.or_false]
    exact h

/-- The records of the completion of a job. -/
lemma tells_outcome {event : TraceEvent} (he : event = .taskWaitPeriod ∨ event = .taskExit)
    (ready parked : Bool) {v0 v1 v2 related : ℕ} :
    (outcomeRecords i t t' ++ [record event i related v0 v1 v2]).foldl tellsReady ready = false ∧
      (outcomeRecords i t t' ++ [record event i related v0 v1 v2]).foldl tellsParked parked =
        true := by
  rw [List.foldl_append, List.foldl_append]
  rcases he with rfl | rfl <;> simp [tellsReady, tellsParked]

/-- **The host keeps track of a slot** through every step but the switch. -/
lemma Tracks.step (h : Tracks current t.state ready parked) (hslot : SlotInv now t)
    (hrun : t.state = .running → current) (hl : l ≠ .pendCommit)
    (hstep : SlotStep i now t l now' t' records) :
    Tracks current t'.state (records.foldl tellsReady ready) (records.foldl tellsParked parked) := by
  cases hstep with
  | same => exact h
  | ticked hx => exact h.tick hslot hx
  | preempted hx hst =>
    have hcur := hrun hst
    obtain ⟨hr, hw⟩ := (state_tick hslot hx).2 hst
    obtain ⟨hready, hparked⟩ := tells_tick (now + 1) i t ready parked
    rw [hready, hparked, hr, hw, Bool.or_false, Bool.or_false]
    refine ⟨fun _ => iff_of_true ?_ (Or.inl rfl), fun hno => absurd hcur hno⟩
    exact (h.1 hcur).mpr (Or.inr hst)
  | retired => exact absurd rfl hl
  | resumed => exact absurd rfl hl
  | reclaimed => exact absurd rfl hl
  | cleared hd =>
    rw [hd] at h
    exact h
  | @created config t' related hd hconf =>
    rw [hd] at h
    rcases configured_state hconf with hs | hs
    · rw [hs, if_pos rfl]
      have hfold : [record .taskCreate i related t'.kind.code t'.priority TaskState.ready.code,
          deadlineRecord .taskRelease i t'].foldl tellsReady ready = true := by
        simp [tellsReady, deadlineRecord]
      exact hfold ▸ tracks_ready
    · rw [hs, if_neg (by decide)]
      refine ⟨fun hc => (h.1 hc).trans ?_, fun hc => (h.2 hc).trans ?_⟩
      · simp
      · simp
  | yielded => exact tracks_ready
  | slept hsleep =>
    obtain ⟨-, rfl⟩ := osSchedSleep_eq_true.mp hsleep
    exact tracks_parked (by simp)
  | waited hwait =>
    obtain ⟨-, rfl⟩ := osSchedWaitNextPeriod_eq_true.mp hwait
    obtain ⟨hready, hparked⟩ := tells_outcome (Or.inl rfl) ready parked
    rw [hready, hparked]
    exact tracks_parked (by simp)
  | exited hdone =>
    obtain ⟨-, rfl⟩ := osSchedCompleteJob_eq_true.mp hdone
    obtain ⟨hready, hparked⟩ := tells_outcome (Or.inr rfl) ready parked
    rw [hready, hparked]
    exact tracks_parked (by simp)

end Aymos.HostStates
