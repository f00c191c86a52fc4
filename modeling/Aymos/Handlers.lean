import Aymos.Machine
import Aymos.Select

/-!
What each handler does when it does not stop.

A handler that returns is described by the conditions under which it does and the state it
leaves, in which every field not named is the one it found. The records a handler emits are
collected into one list of batches, all stamped with the clock of the state it leaves.
-/

namespace Aymos.Handlers

open Words Allocator Scheduler Trace WordMem Kernel Machine Select

/-! ### Stopping and going on -/

@[simp] lemma ok_bind {α β : Type} (a : α) (f : α → Except Stop β) :
    (Except.ok a >>= f) = f a := rfl

@[simp] lemma error_bind {α β : Type} (e : Stop) (f : α → Except Stop β) :
    (Except.error e >>= f) = .error e := rfl

/-- A sequence returns when both its parts do. -/
lemma bind_eq_ok {α β : Type} {x : Except Stop α} {f : α → Except Stop β} {b : β} :
    (x >>= f) = .ok b ↔ ∃ a, x = .ok a ∧ f a = .ok b := by
  cases x with
  | error e => simp
  | ok a => simp

lemma map_eq_ok {α β : Type} {x : Except Stop α} {f : α → β} {b : β} :
    x.map f = .ok b ↔ ∃ a, x = .ok a ∧ f a = b := by
  cases x with
  | error e => simp [Except.map]
  | ok a => simp [Except.map]

/-- A guarded panic does not happen. -/
lemma ite_error_eq_ok {α : Type} {p : Prop} [Decidable p] {e : Stop} {x : Except Stop α} {b : α} :
    (if p then .error e else x) = .ok b ↔ ¬p ∧ x = .ok b := by
  split <;> simp [*]

/-! ### Emissions -/

/-- Batches of records pushed one after the other. -/
def emitAll (ring : TraceRing) (tick : ℕ) (batches : List (List TraceInput)) : TraceRing :=
  batches.foldl
    (fun ring batch => (osTraceRingPushBatch (osTraceRingReportOverflow ring tick).1 tick batch).1)
    ring

@[simp] lemma emitAll_nil (ring : TraceRing) (tick : ℕ) : emitAll ring tick [] = ring := rfl

lemma emitAll_append (ring : TraceRing) (tick : ℕ) (xs ys : List (List TraceInput)) :
    emitAll ring tick (xs ++ ys) = emitAll (emitAll ring tick xs) tick ys := by
  simp [emitAll]

/-- The kernel after it has emitted batches at its clock. -/
def emit (k : KernelState) (batches : List (List TraceInput)) : KernelState :=
  { k with traceRing := emitAll k.traceRing k.monotonicTicks batches }

@[simp] lemma emit_nil (k : KernelState) : emit k [] = k := rfl

@[simp] lemma emit_emit (k : KernelState) (xs ys : List (List TraceInput)) :
    emit (emit k xs) ys = emit k (xs ++ ys) := by
  simp [emit, emitAll_append]

section EmitFields

variable (k : KernelState) (bs : List (List TraceInput))

@[simp] lemma emit_tasks : (emit k bs).tasks = k.tasks := rfl
@[simp] lemma emit_schedules : (emit k bs).schedules = k.schedules := rfl
@[simp] lemma emit_currentTask : (emit k bs).currentTask = k.currentTask := rfl
@[simp] lemma emit_yieldExcludedTask : (emit k bs).yieldExcludedTask = k.yieldExcludedTask := rfl
@[simp] lemma emit_pendingSwitchCause :
    (emit k bs).pendingSwitchCause = k.pendingSwitchCause := rfl
@[simp] lemma emit_pendingPreemptSources :
    (emit k bs).pendingPreemptSources = k.pendingPreemptSources := rfl
@[simp] lemma emit_monotonicTicks : (emit k bs).monotonicTicks = k.monotonicTicks := rfl
@[simp] lemma emit_memoryAllocator : (emit k bs).memoryAllocator = k.memoryAllocator := rfl
@[simp] lemma emit_running : (emit k bs).running = k.running := rfl
@[simp] lemma emit_initialized : (emit k bs).initialized = k.initialized := rfl
@[simp] lemma emit_hasActiveContext : (emit k bs).hasActiveContext = k.hasActiveContext := rfl
@[simp] lemma emit_ram : (emit k bs).ram = k.ram := rfl
@[simp] lemma emit_cpu : (emit k bs).cpu = k.cpu := rfl
@[simp] lemma emit_mode : (emit k bs).mode = k.mode := rfl

end EmitFields

/-- The input of a single record. -/
def record (event : TraceEvent) (task related value0 value1 value2 : ℕ) : TraceInput :=
  ⟨event.code, 0, task, related, value0, value1, value2⟩

/-- The record that carries the deadline and the sequence number of a slot's job. -/
def deadlineRecord (event : TraceEvent) (id : ℕ) (task : SchedTask) : TraceInput :=
  record event id traceTaskInvalid (u32 task.absoluteDeadlineOrder)
    (u32 (task.absoluteDeadlineOrder / 2 ^ 32)) task.jobSequence

lemma traceEmit_eq (k : KernelState) (event : TraceEvent) (task related v0 v1 v2 : ℕ) :
    traceEmit k event task related v0 v1 v2 = emit k [[record event task related v0 v1 v2]] := rfl

lemma traceDeadline_eq (k : KernelState) (event : TraceEvent) (id : ℕ) :
    traceDeadline k event id = emit k [[deadlineRecord event id (k.schedules id)]] := rfl

lemma traceEmitSelection_eq {k : KernelState} {selected incumbent excluded : ℕ}
    {purpose : SelectPurpose} (h : selected < osTaskCount) :
    traceEmitSelection k selected incumbent excluded purpose =
      emit k [selectionInputs k.schedules osTaskCount selected incumbent excluded purpose] := by
  have hguard : ¬(osTaskCount = 0 ∨ osTaskCount > maxUserTasks + 1 ∨ selected ≥ osTaskCount) := by
    unfold osTaskCount at h ⊢
    omega
  rw [traceEmitSelection, osTraceEmitSelection, if_neg hguard]
  rfl

/-! ### Slots -/

@[simp] lemma setSchedule_schedules (k : KernelState) (id : ℕ) (t : SchedTask) :
    (setSchedule k id t).schedules = Function.update k.schedules id t := rfl

@[simp] lemma setSchedule_monotonicTicks (k : KernelState) (id : ℕ) (t : SchedTask) :
    (setSchedule k id t).monotonicTicks = k.monotonicTicks := rfl

@[simp] lemma setSchedule_setSchedule (k : KernelState) (id : ℕ) (t t' : SchedTask) :
    setSchedule (setSchedule k id t) id t' = setSchedule k id t' := by
  simp [setSchedule]

@[simp] lemma setSchedule_emit (k : KernelState) (bs : List (List TraceInput)) (id : ℕ)
    (t : SchedTask) : setSchedule (emit k bs) id t = emit (setSchedule k id t) bs := rfl

/-- A record with its state changed. -/
@[simps]
def inState (t : SchedTask) (s : TaskState) : SchedTask := { t with state := s }

@[simp] lemma inState_inState (t : SchedTask) (s s' : TaskState) :
    inState (inState t s) s' = inState t s' := rfl

lemma inState_self (t : SchedTask) : inState t t.state = t := rfl

lemma osSchedTransition_snd {t : SchedTask} {expected next : TaskState} :
    (osSchedTransition t expected next).2 = true ↔ t.state = expected ∧ expected ≠ next := by
  unfold osSchedTransition
  split
  · simp only [Bool.false_eq_true, false_iff]
    tauto
  · simp only [true_iff]
    tauto

lemma osSchedTransition_fst {t : SchedTask} {expected next : TaskState}
    (h : (osSchedTransition t expected next).2 = true) :
    (osSchedTransition t expected next).1 = inState t next := by
  unfold osSchedTransition at h ⊢
  split <;> simp_all [inState]

/-- **`transition_task`**. -/
lemma transitionTask_eq_ok {k k' : KernelState} {id : ℕ} {expected next : TaskState}
    {reason : String} :
    transitionTask k id expected next reason = .ok k' ↔
      id < osTaskCount ∧ (k.schedules id).state = expected ∧ expected ≠ next ∧
        k' = setSchedule k id (inState (k.schedules id) next) := by
  rw [transitionTask, ite_error_eq_ok, not_or, not_le, Bool.not_eq_true', Bool.not_eq_false,
    osSchedTransition_snd, Except.ok.injEq]
  constructor
  · rintro ⟨⟨hid, hs⟩, rfl⟩
    exact ⟨hid, hs.1, hs.2, by rw [osSchedTransition_fst (osSchedTransition_snd.mpr hs)]⟩
  · rintro ⟨hid, hs, hne, rfl⟩
    exact ⟨⟨hid, hs, hne⟩, by rw [osSchedTransition_fst (osSchedTransition_snd.mpr ⟨hs, hne⟩)]⟩

/-! ### The tick -/

/-- The record of a slot through the stages of one tick. -/
def accounted (t : SchedTask) : SchedTask := osSchedAccountRunningTick t
def checked (now : ℕ) (t : SchedTask) : SchedTask :=
  (osSchedRecordDeadlineMiss (accounted t) now).1
def skipped (now : ℕ) (t : SchedTask) : SchedTask :=
  (osSchedRecordActiveRelease (checked now t) now).1
def released (now : ℕ) (t : SchedTask) : SchedTask := (osSchedReleaseDue (skipped now t) now).1

/-- **One slot's tick.** -/
def tickTask (now : ℕ) (t : SchedTask) : SchedTask := (osSchedWakeDue (released now t) now).1

/-- The events a tick takes in a slot. -/
def ticksMiss (now : ℕ) (t : SchedTask) : Bool := (osSchedRecordDeadlineMiss (accounted t) now).2
def ticksSkip (now : ℕ) (t : SchedTask) : Bool :=
  (osSchedRecordActiveRelease (checked now t) now).2
def ticksRelease (now : ℕ) (t : SchedTask) : Bool := (osSchedReleaseDue (skipped now t) now).2
def ticksWake (now : ℕ) (t : SchedTask) : Bool := (osSchedWakeDue (released now t) now).2

def tickReady (now : ℕ) (t : SchedTask) : Bool := ticksRelease now t || ticksWake now t

/-- The slot's time range is exhausted at one of the two points where the tick looks. -/
def tickExhausts (now : ℕ) (t : SchedTask) : Bool :=
  (skipped now t).timeRangeExhausted || (released now t).timeRangeExhausted

/-- The record of a skipped release. -/
def skipRecord (id : ℕ) (t : SchedTask) : TraceInput :=
  record .taskReleaseSkipped id traceTaskInvalid (u32 (t.nextReleaseOrder - t.periodTicks))
    (u32 ((t.nextReleaseOrder - t.periodTicks) / 2 ^ 32)) t.missedReleaseCount

def tickBatches (now id : ℕ) (t : SchedTask) : List (List TraceInput) :=
  (if ticksMiss now t then [[deadlineRecord .deadlineMiss id (checked now t)]] else []) ++
  (if ticksSkip now t then [[skipRecord id (skipped now t)]] else []) ++
  (if ticksRelease now t then [[deadlineRecord .taskRelease id (released now t)]] else []) ++
  (if ticksWake now t then [[deadlineRecord .taskWake id (tickTask now t)]] else [])

/-- Emitting in one branch only. -/
lemma ite_emit (k : KernelState) (p : Prop) [Decidable p] (b : List TraceInput) :
    (if p then emit k [b] else k) = emit k (if p then [b] else []) := by
  split <;> rfl

/-- **One slot of the tick's loop.** -/
lemma tickSlot_eq (k : KernelState) (id : ℕ) :
    tickSlot k id =
      if tickExhausts k.monotonicTicks (k.schedules id) then .error (.panic "TASK_TIME_RANGE")
      else .ok (emit (setSchedule k id (tickTask k.monotonicTicks (k.schedules id)))
        (tickBatches k.monotonicTicks id (k.schedules id)),
        tickReady k.monotonicTicks (k.schedules id)) := by
  obtain ⟨now, hnow⟩ : ∃ now, now = k.monotonicTicks := ⟨_, rfl⟩
  obtain ⟨t, ht⟩ : ∃ t, t = k.schedules id := ⟨_, rfl⟩
  rcases h1 : osSchedRecordDeadlineMiss (accounted t) now with ⟨t1, b1⟩
  rcases h2 : osSchedRecordActiveRelease t1 now with ⟨t2, b2⟩
  rcases h3 : osSchedReleaseDue t2 now with ⟨t3, b3⟩
  rcases h4 : osSchedWakeDue t3 now with ⟨t4, b4⟩
  have e1 : checked now t = t1 := by simp [checked, h1]
  have e2 : skipped now t = t2 := by simp [skipped, e1, h2]
  have e3 : released now t = t3 := by simp [released, e2, h3]
  have e4 : tickTask now t = t4 := by simp [tickTask, e3, h4]
  have f1 : ticksMiss now t = b1 := by simp [ticksMiss, h1]
  have f2 : ticksSkip now t = b2 := by simp [ticksSkip, e1, h2]
  have f3 : ticksRelease now t = b3 := by simp [ticksRelease, e2, h3]
  have f4 : ticksWake now t = b4 := by simp [ticksWake, e3, h4]
  rw [accounted] at h1
  rw [← hnow, ← ht]
  simp only [tickExhausts, tickReady, tickBatches, e1, e2, e3, e4, f1, f2, f3, f4]
  simp only [tickSlot, ← hnow, ← ht, setSchedule_schedules, Function.update_self, h1,
    setSchedule_setSchedule, traceDeadline_eq, traceEmit_eq, ite_emit, emit_schedules,
    setSchedule_emit, h2, h3, h4]
  simp only [emit_emit, ← skipRecord.eq_1]
  cases t2.timeRangeExhausted <;> rfl

/-- The user slots, in the order the loops visit them. -/
def userSlots : List ℕ := List.range' 1 maxUserTasks

lemma mem_userSlots {i : ℕ} : i ∈ userSlots ↔ 1 ≤ i ∧ i < osTaskCount := by
  rw [userSlots, List.mem_range'_1]
  unfold osTaskCount
  omega

lemma userSlots_nodup : userSlots.Nodup := List.nodup_range'

/-- The table after a tick has visited some slots. -/
def tickSchedules (now : ℕ) (schedules : ℕ → SchedTask) (ids : List ℕ) (i : ℕ) : SchedTask :=
  if i ∈ ids then tickTask now (schedules i) else schedules i

/-- The batches of a tick. -/
def tickAllBatches (now : ℕ) (schedules : ℕ → SchedTask) (ids : List ℕ) : List (List TraceInput) :=
  ids.flatMap fun i => tickBatches now i (schedules i)

def anyExhausts (now : ℕ) (schedules : ℕ → SchedTask) (ids : List ℕ) : Bool :=
  ids.any fun i => tickExhausts now (schedules i)

def anyReady (now : ℕ) (schedules : ℕ → SchedTask) (ids : List ℕ) : Bool :=
  ids.any fun i => tickReady now (schedules i)

/-- What a tick does to the slots still to be visited depends on these slots only. -/
lemma tick_congr {now : ℕ} {s s' : ℕ → SchedTask} {ids : List ℕ} (h : ∀ i ∈ ids, s i = s' i) :
    tickAllBatches now s ids = tickAllBatches now s' ids ∧
      anyExhausts now s ids = anyExhausts now s' ids ∧ anyReady now s ids = anyReady now s' ids := by
  induction ids with
  | nil => exact ⟨rfl, rfl, rfl⟩
  | cons id ids ih =>
    obtain ⟨h1, h2, h3⟩ := ih fun i hi => h i (by simp [hi])
    simp only [tickAllBatches, anyExhausts, anyReady, List.flatMap_cons, List.any_cons,
      h id (by simp)] at h1 h2 h3 ⊢
    rw [h1, h2, h3]
    exact ⟨rfl, rfl, rfl⟩

/-- **The tick's loop** over distinct slots. -/
lemma tickSlots_eq {ids : List ℕ} (hnd : ids.Nodup) (k : KernelState) (ready : Bool) :
    tickSlots k ready ids =
      if anyExhausts k.monotonicTicks k.schedules ids then .error (.panic "TASK_TIME_RANGE")
      else .ok (emit { k with schedules := tickSchedules k.monotonicTicks k.schedules ids }
        (tickAllBatches k.monotonicTicks k.schedules ids),
        ready || anyReady k.monotonicTicks k.schedules ids) := by
  induction ids generalizing k ready with
  | nil =>
    have : tickSchedules k.monotonicTicks k.schedules [] = k.schedules := by
      funext i
      simp [tickSchedules]
    simp [tickSlots, this, anyExhausts, anyReady, tickAllBatches]
  | cons id ids ih =>
    obtain ⟨hnot, hnd⟩ := List.nodup_cons.mp hnd
    obtain ⟨t, ht⟩ : ∃ t, t = tickTask k.monotonicTicks (k.schedules id) := ⟨_, rfl⟩
    -- the slots still to be visited are as they were
    have hrest : ∀ i ∈ ids, Function.update k.schedules id t i = k.schedules i := fun i hi =>
      Function.update_of_ne (fun heq => hnot (by rwa [← heq])) _ _
    have htable : tickSchedules k.monotonicTicks (Function.update k.schedules id t) ids =
        tickSchedules k.monotonicTicks k.schedules (id :: ids) := by
      funext i
      by_cases hi : i ∈ ids
      · simp [tickSchedules, hi, hrest i hi]
      · by_cases hid : i = id
        · subst hid; simp [tickSchedules, hi, ht]
        · simp [tickSchedules, hi, hid]
    obtain ⟨hb, hx, hr⟩ := @tick_congr k.monotonicTicks _ _ _ hrest
    have hstep := ih hnd (emit (setSchedule k id t) (tickBatches k.monotonicTicks id (k.schedules id)))
      (ready || tickReady k.monotonicTicks (k.schedules id))
    simp only [emit_monotonicTicks, emit_schedules, setSchedule_schedules,
      setSchedule_monotonicTicks, hb, hx, hr, htable] at hstep
    rw [tickSlots, tickSlot_eq, ← ht]
    by_cases hexh : tickExhausts k.monotonicTicks (k.schedules id) = true
    · simp [anyExhausts, hexh]
    · rw [if_neg hexh, ok_bind]
      simp only [hstep]
      simp only [anyExhausts, anyReady, tickAllBatches, List.any_cons, List.flatMap_cons,
        Bool.not_eq_true _ |>.mp hexh, Bool.false_or, Bool.or_assoc]
      congr 3
      simp [emit, setSchedule, emitAll_append]

/-- The cause a set of preemption sources gives a switch. -/
def requestCause (sources : ℕ) : ℕ :=
  if sources = preemptSourceSystick then switchSystickPreempt
  else if sources = preemptSourceRuntimeCreate then switchRuntimeCreate
  else switchCoalescedPreempt

/-- The kernel after a preemption request was recorded. -/
def recorded (k : KernelState) (source : ℕ) : KernelState :=
  { k with
    pendingPreemptSources := k.pendingPreemptSources ||| source
    pendingSwitchCause := requestCause (k.pendingPreemptSources ||| source) }

lemma sources_or {sources source : ℕ} (h : sources ≤ 3)
    (hs : source = preemptSourceSystick ∨ source = preemptSourceRuntimeCreate) :
    sources ||| source = 1 ∨ sources ||| source = 2 ∨ sources ||| source = 3 := by
  have : ∀ a < 4, ∀ b < 3, b = 1 ∨ b = 2 → a ||| b = 1 ∨ a ||| b = 2 ∨ a ||| b = 3 := by decide
  unfold preemptSourceSystick preemptSourceRuntimeCreate at hs
  exact this sources (by omega) source (by omega) hs

/-- **`record_preemption_request`** on known sources. -/
lemma recordPreemptionRequest_eq {k : KernelState} {source : ℕ}
    (hs : source = preemptSourceSystick ∨ source = preemptSourceRuntimeCreate)
    (hsrc : k.pendingPreemptSources ≤ 3) :
    recordPreemptionRequest k source = .ok (recorded k source) := by
  have hguard : ¬(source ≠ preemptSourceSystick ∧ source ≠ preemptSourceRuntimeCreate) := by tauto
  rw [recordPreemptionRequest, if_neg hguard]
  simp only [recorded, requestCause]
  rcases sources_or hsrc hs with h | h | h <;> rw [h] <;> rfl

lemma ne_invalid_of_lt {n : ℕ} (h : n < osTaskCount) : n ≠ taskIdInvalid := by
  rintro rfl
  exact absurd h (by decide)

/-- What the handlers rely on from each other before anything else: the table carries its
indices, the sources are known ones, and the current task is a slot or none. -/
structure WellIndexed (k : KernelState) : Prop where
  id : ∀ i < osTaskCount, (k.schedules i).id = i
  sources : k.pendingPreemptSources ≤ 3
  current : k.currentTask < osTaskCount ∨ k.currentTask = taskIdInvalid

lemma WellIndexed.select_lt {k : KernelState} (hk : WellIndexed k) {excluded : ℕ}
    (h : osSchedSelect k.schedules osTaskCount excluded ≠ taskIdInvalid) :
    osSchedSelect k.schedules osTaskCount excluded < osTaskCount :=
  osSchedSelect_lt (by decide) (by decide) hk.id h

/-- The candidate of a tick's probe. -/
def probeCandidate (schedules : ℕ → SchedTask) : ℕ :=
  osSchedSelect schedules osTaskCount taskIdInvalid

/-- The probe of a tick finds a task to preempt for. -/
def probeHits (schedules : ℕ → SchedTask) (current : ℕ) : Bool :=
  current != taskIdInvalid && (schedules current).state == .running &&
    probeCandidate schedules != taskIdInvalid && probeCandidate schedules != taskIdIdle &&
    osSchedOutranks (schedules (probeCandidate schedules)) (schedules current)

/-- The kernel after the probe has preempted the running task. -/
def preempted (k : KernelState) : KernelState :=
  emit (requestPendsv (setSchedule (recorded k preemptSourceSystick) k.currentTask
      (inState (k.schedules k.currentTask) .ready)))
    [selectionInputs k.schedules osTaskCount (probeCandidate k.schedules) k.currentTask
      taskIdInvalid .systickProbe]

/-- **The tick's probe**. -/
lemma tickProbe_eq {k : KernelState} (hk : WellIndexed k) (ready : Bool) :
    tickProbe k ready =
      .ok (if ready && probeHits k.schedules k.currentTask then preempted k else k) := by
  cases ready with
  | false => simp [tickProbe]
  | true =>
    simp only [tickProbe, ← probeCandidate.eq_1, Bool.true_and]
    by_cases hcur : k.currentTask ≠ taskIdInvalid ∧ (k.schedules k.currentTask).state = .running
    · rw [if_pos ⟨trivial, hcur⟩]
      by_cases hc : probeCandidate k.schedules ≠ taskIdInvalid ∧
          probeCandidate k.schedules ≠ taskIdIdle ∧
          osSchedOutranks (k.schedules (probeCandidate k.schedules)) (k.schedules k.currentTask)
      · have hlt : probeCandidate k.schedules < osTaskCount := hk.select_lt hc.1
        have hcurlt : k.currentTask < osTaskCount := by
          rcases hk.current with h | h
          · exact h
          · exact absurd h hcur.1
        have hhit : probeHits k.schedules k.currentTask = true := by
          simp [probeHits, hcur.1, hcur.2, hc.1, hc.2.1, hc.2.2]
        rw [if_pos hc, hhit, if_pos rfl, traceEmitSelection_eq hlt,
          recordPreemptionRequest_eq (Or.inl rfl), ok_bind]
        · exact bind_eq_ok.mpr
            ⟨_, transitionTask_eq_ok.mpr ⟨hcurlt, hcur.2, by decide, rfl⟩, rfl⟩
        · exact hk.sources
      · have hmiss : probeHits k.schedules k.currentTask = false := by
          rw [← Bool.not_eq_true]
          intro h
          simp only [probeHits, Bool.and_eq_true, bne_iff_ne, ne_eq, beq_iff_eq] at h
          exact hc ⟨h.1.1.2, h.1.2, h.2⟩
        rw [hmiss, if_neg hc]
        rfl
    · have hmiss : probeHits k.schedules k.currentTask = false := by
        rw [← Bool.not_eq_true]
        intro h
        simp only [probeHits, Bool.and_eq_true, bne_iff_ne, ne_eq, beq_iff_eq] at h
        exact hcur ⟨h.1.1.1.1, h.1.1.1.2⟩
      rw [if_neg (by tauto), hmiss]
      rfl

@[simp] lemma tickTask_id (now : ℕ) (t : SchedTask) : (tickTask now t).id = t.id := by
  simp [tickTask, released, skipped, checked, accounted]

/-- The kernel after a tick, before its probe. -/
def ticked (k : KernelState) : KernelState :=
  emit { k with
    monotonicTicks := k.monotonicTicks + 1
    schedules := tickSchedules (k.monotonicTicks + 1) k.schedules userSlots }
    (tickAllBatches (k.monotonicTicks + 1) k.schedules userSlots)

/-- The tick preempts the running task. -/
def tickPreempts (k : KernelState) : Bool :=
  anyReady (k.monotonicTicks + 1) k.schedules userSlots &&
    probeHits (ticked k).schedules k.currentTask

lemma WellIndexed.ticked {k : KernelState} (hk : WellIndexed k) : WellIndexed (ticked k) where
  id i hi := by
    have : (Handlers.ticked k).schedules i = k.schedules i ∨
        (Handlers.ticked k).schedules i = tickTask (k.monotonicTicks + 1) (k.schedules i) := by
      simp only [Handlers.ticked, emit_schedules, tickSchedules]
      split <;> simp
    rcases this with h | h <;> rw [h] <;> simpa using hk.id i hi
  sources := hk.sources
  current := hk.current

/-- **`os_kernel_tick`**. -/
theorem osKernelTick_eq {k : KernelState} (hk : WellIndexed k) :
    osKernelTick k =
      if !k.running then .ok k
      else if k.monotonicTicks = uint64Max then .error (.panic "TICK_RANGE")
      else if anyExhausts (k.monotonicTicks + 1) k.schedules userSlots then
        .error (.panic "TASK_TIME_RANGE")
      else .ok (if tickPreempts k then preempted (ticked k) else ticked k) := by
  rw [osKernelTick]
  split
  · rfl
  · split
    · rfl
    · simp only [← userSlots.eq_1]
      rw [tickSlots_eq userSlots_nodup]
      simp only
      split
      · rfl
      · rw [ok_bind, Bool.false_or]
        exact tickProbe_eq hk.ticked _

end Aymos.Handlers
