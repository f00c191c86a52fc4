import Aymos.Frames

/-!
What the calls of the kernel's interface do when the kernel does not stop.

Each supervisor service acts on the running task. A creation either changes nothing, or puts
a slot back in its reset form, or fills a free slot and requests a switch when the new task
outranks its creator.
-/

namespace Aymos.Services

open Words Allocator Scheduler Trace WordMem Kernel Machine Handlers Frames

/-! ### Supervisor services -/

lemma svcFromTask_iff {k : KernelState} {exc : ℕ} :
    svcFromTask k exc = true ↔ exc = excReturnThreadPsp ∧ k.currentTask ≠ taskIdInvalid ∧
      (k.schedules k.currentTask).state = .running := by
  simp [svcFromTask, and_assoc]

/-- The record of the running task. -/
def currentSchedule (k : KernelState) : SchedTask := k.schedules k.currentTask

/-- The kernel after `os_yield`'s service. -/
def yielded (k : KernelState) : KernelState :=
  emit { setSchedule k k.currentTask (inState (currentSchedule k) .ready) with
    yieldExcludedTask := k.currentTask, pendingSwitchCause := switchYield }
    [[record .taskYield k.currentTask traceTaskInvalid 0 0 0]]

lemma osSvcYield_eq_ok {k k' : KernelState} {exc : ℕ} :
    osSvcYield k exc = .ok k' ↔
      svcFromTask k exc = true ∧ k.currentTask < osTaskCount ∧ k' = yielded k := by
  rw [osSvcYield, ite_error_eq_ok, Bool.not_eq_true', Bool.not_eq_false]
  simp only [bind_eq_ok, transitionTask_eq_ok, Except.ok.injEq]
  constructor
  · rintro ⟨hfrom, _, ⟨hlt, _, _, rfl⟩, rfl⟩
    exact ⟨hfrom, hlt, rfl⟩
  · rintro ⟨hfrom, hlt, rfl⟩
    exact ⟨hfrom, _, ⟨hlt, (svcFromTask_iff.mp hfrom).2.2, by decide, rfl⟩, rfl⟩

/-- The kernel after `os_sleep`'s service. -/
def slept (k : KernelState) (ticks : ℕ) : KernelState :=
  let task := (osSchedSleep (currentSchedule k) k.monotonicTicks ticks).1
  emit { setSchedule k k.currentTask task with pendingSwitchCause := switchSleep }
    [[record .taskSleep k.currentTask traceTaskInvalid (u32 task.wakeOrder)
      (u32 (task.wakeOrder / 2 ^ 32)) ticks]]

lemma osSvcSleep_eq_ok {k k' : KernelState} {exc ticks : ℕ} :
    osSvcSleep k exc ticks = .ok k' ↔
      svcFromTask k exc = true ∧ 0 < ticks ∧ ticks ≤ maxSleepTicks ∧
        (osSchedSleep (currentSchedule k) k.monotonicTicks ticks).2 = true ∧ k' = slept k ticks := by
  rw [osSvcSleep, ite_error_eq_ok, slept, currentSchedule]
  rcases osSchedSleep (k.schedules k.currentTask) k.monotonicTicks ticks with ⟨task, _ | _⟩
  · simp
  · simp only [Except.ok.injEq, not_or, Bool.not_eq_true', Bool.not_eq_false, not_lt, true_and]
    constructor
    · rintro ⟨⟨hfrom, hpos, hle⟩, rfl⟩
      exact ⟨hfrom, Nat.pos_of_ne_zero hpos, hle, rfl⟩
    · rintro ⟨hfrom, hpos, hle, rfl⟩
      exact ⟨⟨hfrom, by omega, hle⟩, rfl⟩

/-- The batches that report the outcome of a completed job. -/
def outcomeBatches (missBefore : Bool) (id : ℕ) (task : SchedTask) : List (List TraceInput) :=
  if !missBefore && task.deadlineMissLatched then [[deadlineRecord .deadlineMiss id task]]
  else if !task.deadlineMissLatched then [[deadlineRecord .deadlineMet id task]]
  else []

lemma traceOutcome_eq (k : KernelState) (missBefore : Bool) (id : ℕ) :
    traceOutcome k missBefore id = emit k (outcomeBatches missBefore id (k.schedules id)) := by
  rw [traceOutcome, outcomeBatches]
  cases missBefore <;> cases (k.schedules id).deadlineMissLatched <;> rfl

/-- The kernel after `os_task_exit`'s service. -/
def exited (k : KernelState) : KernelState :=
  let task := (osSchedCompleteJob (currentSchedule k) k.monotonicTicks).1
  emit { setSchedule k k.currentTask (inState task .exiting) with
    pendingSwitchCause := switchExit }
    (outcomeBatches (currentSchedule k).deadlineMissLatched k.currentTask task ++
      [[record .taskExit k.currentTask traceTaskInvalid task.completedJobCount
        task.deadlineMissCount 0]])

lemma osSvcExit_eq_ok {k k' : KernelState} {exc : ℕ} :
    osSvcExit k exc = .ok k' ↔
      svcFromTask k exc = true ∧ k.currentTask ≠ taskIdIdle ∧ k.currentTask < osTaskCount ∧
        (osSchedCompleteJob (currentSchedule k) k.monotonicTicks).2 = true ∧
        (osSchedCompleteJob (currentSchedule k) k.monotonicTicks).1.state = .running ∧
        k' = exited k := by
  rw [osSvcExit, ite_error_eq_ok, exited, currentSchedule]
  rcases osSchedCompleteJob (k.schedules k.currentTask) k.monotonicTicks with ⟨task, _ | _⟩
  · simp
  · simp only [traceOutcome_eq, bind_eq_ok, transitionTask_eq_ok, Except.ok.injEq, not_or,
      Bool.not_eq_true', Bool.not_eq_false, emit_schedules, emit_currentTask,
      setSchedule_schedules, true_and]
    have hcur : (setSchedule k k.currentTask task).currentTask = k.currentTask := rfl
    rw [hcur, Function.update_self]
    constructor
    · rintro ⟨⟨hfrom, hidle⟩, _, ⟨hlt, hrun, _, rfl⟩, rfl⟩
      refine ⟨hfrom, hidle, hlt, hrun, ?_⟩
      simp [traceEmit_eq, emit, setSchedule, emitAll_append]
    · rintro ⟨hfrom, hidle, hlt, hrun, rfl⟩
      refine ⟨⟨hfrom, hidle⟩, _, ⟨hlt, hrun, by decide, rfl⟩, ?_⟩
      simp [traceEmit_eq, emit, setSchedule, emitAll_append]

/-- The kernel after `os_wait_next_period`'s service. -/
def waited (k : KernelState) : KernelState :=
  let task := (osSchedWaitNextPeriod (currentSchedule k) k.monotonicTicks).1
  emit { setSchedule k k.currentTask task with pendingSwitchCause := switchWaitPeriod }
    (outcomeBatches (currentSchedule k).deadlineMissLatched k.currentTask task ++
      [[record .taskWaitPeriod k.currentTask traceTaskInvalid (u32 task.nextReleaseOrder)
        (u32 (task.nextReleaseOrder / 2 ^ 32)) 0]])

lemma osSvcWaitNextPeriod_eq_ok {k k' : KernelState} {exc : ℕ} :
    osSvcWaitNextPeriod k exc = .ok k' ↔
      svcFromTask k exc = true ∧ k.currentTask ≠ taskIdIdle ∧
        (osSchedWaitNextPeriod (currentSchedule k) k.monotonicTicks).2 = true ∧ k' = waited k := by
  rw [osSvcWaitNextPeriod, ite_error_eq_ok, waited, currentSchedule]
  rcases osSchedWaitNextPeriod (k.schedules k.currentTask) k.monotonicTicks with ⟨task, _ | _⟩
  · simp
  · simp only [traceOutcome_eq, Except.ok.injEq, not_or, Bool.not_eq_true', Bool.not_eq_false,
      true_and]
    constructor
    · rintro ⟨⟨hfrom, hidle⟩, rfl⟩
      refine ⟨hfrom, hidle, ?_⟩
      simp [traceEmit_eq, emit, setSchedule, emitAll_append]
    · rintro ⟨hfrom, hidle, rfl⟩
      refine ⟨⟨hfrom, hidle⟩, ?_⟩
      simp [traceEmit_eq, emit, setSchedule, emitAll_append]

lemma osSvcStart_eq_ok {k k' : KernelState} {exc : ℕ} :
    osSvcStart k exc = .ok k' ↔ exc = excReturnThreadMsp ∧ k.currentTask = taskIdInvalid ∧
      k.hasActiveContext = false ∧ k' = k := by
  rw [osSvcStart, ite_error_eq_ok]
  simp only [not_or, not_not, Bool.not_eq_true, Except.ok.injEq, and_assoc, eq_comm (a := k)]

/-! ### Checks -/

/-- What `verify_state` checks: before the start no task runs, and once a context is active the
current task runs alone. -/
def Verified (k : KernelState) : Prop :=
  (k.running = false → runningTasks k = []) ∧
    (k.running = true → k.hasActiveContext = true → runningTasks k = [k.currentTask])

lemma singleton_iff {xs : List ℕ} {x d : ℕ} :
    xs = [x] ↔ xs.length = 1 ∧ xs.getLast?.getD d = x := by
  constructor
  · rintro rfl
    exact ⟨rfl, rfl⟩
  · rintro ⟨hlen, hlast⟩
    obtain ⟨y, rfl⟩ := List.length_eq_one_iff.mp hlen
    simpa using hlast

/-- **`verify_state`**. -/
lemma verifyState_eq_ok {k : KernelState} {reason : String} {u : Unit} :
    verifyState k reason = .ok u ↔ Verified k := by
  rw [verifyState, ite_error_eq_ok, Verified, singleton_iff (d := taskIdInvalid),
    ← List.length_eq_zero_iff]
  cases k.running <;> cases k.hasActiveContext <;> simp

lemma mem_runningTasks {k : KernelState} {i : ℕ} :
    i ∈ runningTasks k ↔ i < osTaskCount ∧ (k.schedules i).state = .running := by
  simp [runningTasks]

lemma runningTasks_nodup (k : KernelState) : (runningTasks k).Nodup :=
  List.nodup_range.filter _

lemma runningTasks_eq_nil {k : KernelState} :
    runningTasks k = [] ↔ ∀ i < osTaskCount, (k.schedules i).state ≠ .running := by
  simp [runningTasks]

lemma runningTasks_eq_singleton {k : KernelState} {c : ℕ} :
    runningTasks k = [c] ↔ c < osTaskCount ∧ (k.schedules c).state = .running ∧
      ∀ i < osTaskCount, (k.schedules i).state = .running → i = c := by
  constructor
  · intro h
    have hmem : ∀ i, i < osTaskCount ∧ (k.schedules i).state = .running ↔ i = c := fun i => by
      rw [← mem_runningTasks, h, List.mem_singleton]
    exact ⟨((hmem c).mpr rfl).1, ((hmem c).mpr rfl).2, fun i hi hs => (hmem i).mp ⟨hi, hs⟩⟩
  · rintro ⟨hlt, hrun, honly⟩
    have hsub : ∀ i ∈ runningTasks k, i = c := fun i hi =>
      honly i (mem_runningTasks.mp hi).1 (mem_runningTasks.mp hi).2
    have hmem : c ∈ runningTasks k := mem_runningTasks.mpr ⟨hlt, hrun⟩
    have hrep := List.eq_replicate_of_mem hsub
    have hnd := runningTasks_nodup k
    rw [hrep, List.nodup_replicate] at hnd
    have hpos := List.length_pos_of_mem hmem
    rw [hrep, show (runningTasks k).length = 1 by omega]
    rfl

/-! ### Creation -/

variable (img : Image)

/-- The stack of a slot. -/
def stackLow (i : ℕ) : ℕ := img.stacksBase + i * maxStackSize

/-- The kernel with an initial frame written. -/
def framed (k : KernelState) (frame argument : ℕ) : KernelState :=
  { k with ram := writeWords k.ram frame (initialFrame img argument) }

lemma buildInitialFrame_eq {k : KernelState} {i n : ℕ}
    (hlow : (k.tasks i).stackLow = stackLow img i)
    (hhigh : (k.tasks i).stackHigh = stackLow img i + n) (hsize : minStackSize ≤ n)
    (h8 : n % 8 = 0) :
    buildInitialFrame img k i =
      .ok (framed img k (stackLow img i + n - initialFrameBytes) (k.tasks i).argument,
        stackLow img i + n - initialFrameBytes) := by
  have hpos := img.stacks_pos
  have halign := img.stacks_aligned
  rw [buildInitialFrame]
  simp only [hlow, hhigh]
  rw [if_neg]
  · rfl
  · unfold stackLow minStackSize initialFrameBytes initialFrameWords maxStackSize at *
    omega

/-- The kernel with a new task in a slot, its stack prepared. -/
def placed (k : KernelState) (config : TaskConfig) (i : ℕ) (t : SchedTask) : KernelState :=
  let frame := stackLow img i + config.stackSize - initialFrameBytes
  { k with
    tasks := Function.update k.tasks i
      { entry := config.entry
        argument := config.argument
        savedPsp := frame
        stackLow := stackLow img i
        stackHigh := stackLow img i + config.stackSize
        stackClaimed := true
        started := (k.tasks i).started }
    schedules := Function.update k.schedules i t
    ram := writeWords k.ram frame (initialFrame img config.argument) }

/-- The new task is to preempt its creator. -/
def createPreempts (k : KernelState) (i : ℕ) : Bool :=
  k.running && (k.schedules i).state == .ready &&
    osSchedOutranks (k.schedules i) (k.schedules k.currentTask)

def createBatches (k : KernelState) (i : ℕ) : List (List TraceInput) :=
  [[record .taskCreate i (traceTask (if k.running then k.currentTask else taskIdInvalid))
    (k.schedules i).kind.code (k.schedules i).priority (k.schedules i).state.code]] ++
  (if (k.schedules i).state = .ready then [[deadlineRecord .taskRelease i (k.schedules i)]]
    else []) ++
  (if createPreempts k i then
    [selectionInputs k.schedules osTaskCount i k.currentTask taskIdInvalid .runtimeCreateProbe]
    else [])

/-- The kernel after a creation, from the kernel with the slot filled. -/
def created (k : KernelState) (i : ℕ) : KernelState :=
  emit (if createPreempts k i then requestPendsv (recorded k preemptSourceRuntimeCreate) else k)
    (createBatches k i)

lemma freeSlot_some {k : KernelState} {i : ℕ} (h : freeSlot k = some i) :
    1 ≤ i ∧ i < osTaskCount ∧ (k.schedules i).state = .dormant ∧
      (k.tasks i).stackClaimed = false := by
  have hp := List.find?_some h
  have hm := mem_userSlots.mp (List.mem_of_find?_eq_some h)
  simp only [Bool.and_eq_true, decide_eq_true_eq, Bool.not_eq_true'] at hp
  exact ⟨hm.1, hm.2, hp.1, hp.2⟩

/-- **`os_task_create`**. -/
lemma osTaskCreate_eq {k : KernelState} (hk : WellIndexed k) (config : TaskConfig) :
    osTaskCreate img k config =
      if createRefused k config then .ok (k, none)
      else
        match freeSlot k with
        | none => .ok (k, none)
        | some i =>
          match osSchedTaskConfigure (k.schedules i) config.timing k.monotonicTicks with
          | (_, false) => .ok (resetTask (claimSlot img k i config) i, none)
          | (t, true) =>
            verifyState (created (placed img k config i t) i) "CREATE" >>= fun _ =>
              .ok (created (placed img k config i t) i, some i) := by
  rw [osTaskCreate]
  split
  · rfl
  · next hrefused =>
    rcases hslot : freeSlot k with _ | i
    · rfl
    · simp only
      obtain ⟨-, hlt, -, -⟩ := freeSlot_some hslot
      have hsched : (claimSlot img k i config).schedules i = k.schedules i := rfl
      have hticks : (claimSlot img k i config).monotonicTicks = k.monotonicTicks := rfl
      rw [hsched, hticks]
      rcases osSchedTaskConfigure (k.schedules i) config.timing k.monotonicTicks with ⟨t, _ | _⟩
      · rfl
      · have hsize : minStackSize ≤ config.stackSize ∧ config.stackSize % 8 = 0 := by
          simp only [createRefused, Bool.or_eq_true, decide_eq_true_eq, bne_iff_ne, not_or,
            not_lt, not_not] at hrefused
          omega
        simp only
        rw [buildInitialFrame_eq img (i := i) (n := config.stackSize)
          (by simp [claimSlot, setTask, setSchedule, stackLow])
          (by simp [claimSlot, setTask, setSchedule, stackLow]) hsize.1 hsize.2, ok_bind]
        have hplaced : setTask (framed img (setSchedule (claimSlot img k i config) i t)
            (stackLow img i + config.stackSize - initialFrameBytes)
            ((setSchedule (claimSlot img k i config) i t).tasks i).argument) i
            { (framed img (setSchedule (claimSlot img k i config) i t)
              (stackLow img i + config.stackSize - initialFrameBytes)
              ((setSchedule (claimSlot img k i config) i t).tasks i).argument).tasks i with
              savedPsp := stackLow img i + config.stackSize - initialFrameBytes } =
            placed img k config i t := by
          simp [setTask, framed, setSchedule, claimSlot, placed, stackLow]
        simp only [hplaced]
        have hsrc : (placed img k config i t).pendingPreemptSources ≤ 3 := hk.sources
        generalize placed img k config i t = p at hsrc
        generalize hq : traceEmit p .taskCreate i _ _ _ _ = q
        simp only [traceDeadline_eq, ite_emit]
        obtain ⟨r, hr⟩ : ∃ r, r = emit q (if (q.schedules i).state = .ready then
          [[deadlineRecord .taskRelease i (q.schedules i)]] else []) := ⟨_, rfl⟩
        rw [← hr]
        have hpre : (r.running = true ∧ (r.schedules i).state = .ready ∧
            osSchedOutranks (r.schedules i) (r.schedules r.currentTask) = true) ↔
              createPreempts p i = true := by
          rw [hr, ← hq]
          simp [createPreempts, and_assoc, traceEmit_eq]
        have hrp : r = emit p ([[record .taskCreate i
            (traceTask (if p.running then p.currentTask else taskIdInvalid))
            (p.schedules i).kind.code (p.schedules i).priority (p.schedules i).state.code]] ++
            if (p.schedules i).state = .ready then [[deadlineRecord .taskRelease i (p.schedules i)]]
            else []) := by
          rw [hr, ← hq, traceEmit_eq, emit_emit]
          rfl
        simp only [hpre]
        by_cases hcp : createPreempts p i = true
        · have hnext : requestPendsv (recorded (traceEmitSelection r i r.currentTask taskIdInvalid
              .runtimeCreateProbe) preemptSourceRuntimeCreate) = created p i := by
            rw [traceEmitSelection_eq hlt, hrp, emit_emit, created, if_pos hcp, createBatches,
              if_pos hcp]
            rfl
          rw [if_pos hcp, recordPreemptionRequest_eq (Or.inr rfl)]
          · rw [ok_bind, ok_bind, hnext]
          · rw [traceEmitSelection_eq hlt, hrp]
            exact hsrc
        · rw [if_neg hcp, created, if_neg hcp, createBatches, if_neg hcp, List.append_nil, hrp]
          rfl

lemma callerIsRunningTask_iff {k : KernelState} :
    callerIsRunningTask k = true ↔ k.running = true ∧ k.currentTask < osTaskCount ∧
      (k.schedules k.currentTask).state = .running ∧ k.hasActiveContext = true := by
  simp [callerIsRunningTask, and_assoc]

/-- A request that creation looks for a slot for. -/
lemma createRefused_eq_false {k : KernelState} {config : TaskConfig} :
    createRefused k config = false ↔
      k.initialized = true ∧ config.entry ≠ 0 ∧ minStackSize ≤ config.stackSize ∧
        config.stackSize ≤ maxStackSize ∧ config.stackSize % 8 = 0 ∧
        osSchedConfigValid config.timing = true ∧ k.mode = .thread ∧
        (k.running = true → callerIsRunningTask k = true ∧ k.currentTask ≠ taskIdIdle) := by
  simp only [createRefused, Bool.or_eq_false_iff, Bool.not_eq_false', beq_eq_false_iff_ne, ne_eq,
    decide_eq_false_iff_not, not_lt, bne_eq_false_iff_eq, and_assoc]
  cases k.running <;> simp

/-- **The cases of a creation.** -/
theorem osTaskCreate_cases {k k' : KernelState} {config : TaskConfig} {r : Option ℕ}
    (hk : WellIndexed k) (h : osTaskCreate img k config = .ok (k', r)) :
    k' = k ∨ (∃ i, freeSlot k = some i ∧ k' = resetTask (claimSlot img k i config) i) ∨
      ∃ i t, createRefused k config = false ∧ freeSlot k = some i ∧
        osSchedTaskConfigure (k.schedules i) config.timing k.monotonicTicks = (t, true) ∧
        k' = created (placed img k config i t) i := by
  rw [osTaskCreate_eq img hk] at h
  split at h
  · left
    cases h
    rfl
  · next hrefused =>
    split at h
    · left
      cases h
      rfl
    · next i hslot =>
      right
      split at h
      · left
        cases h
        exact ⟨i, hslot, rfl⟩
      · next t hconf =>
        right
        obtain ⟨_, _, h⟩ := bind_eq_ok.mp h
        cases h
        exact ⟨i, t, by simpa using hrefused, hslot, hconf, rfl⟩

/-! ### Start and memory calls -/

/-- The kernel after `os_kernel_start` and before its `svc`. -/
def kernelStarted (k : KernelState) : KernelState :=
  emit { k with running := true, pendingSwitchCause := switchStart }
    [[record .kernelStart traceTaskInvalid traceTaskInvalid 0 osTaskCount 0]]

lemma osKernelStart_eq_ok {k k' : KernelState} :
    osKernelStart k = .ok k' ↔
      k.initialized = true ∧ k.running = false ∧ k' = kernelStarted k := by
  rw [osKernelStart, ite_error_eq_ok]
  simp only [not_or, Bool.not_eq_true', Bool.not_eq_false, Bool.not_eq_true, Except.ok.injEq,
    and_assoc, eq_comm (b := k')]
  rfl

/-- A memory call that the kernel does not turn away. -/
def memoryCallValid (k : KernelState) : Prop :=
  k.mode = .thread ∧ callerIsRunningTask k = true ∧ k.currentTask ≠ taskIdIdle

instance (k : KernelState) : Decidable (memoryCallValid k) := inferInstanceAs (Decidable (_ ∧ _))

/-- The kernel after an allocation. -/
def allocated (k : KernelState) (heap : Heap) (size result : ℕ) : KernelState :=
  emit { k with memoryAllocator := heap }
    [[record .alloc k.currentTask traceTaskInvalid (u32 size) (tracePointerOffset img result)
      (if result ≠ 0 then 1 else 0)]]

lemma osMemoryAlloc_eq (k : KernelState) (size : ℕ) :
    osMemoryAlloc img k size =
      if memoryCallValid k then
        match osAllocatorAlloc .arm32 k.memoryAllocator size k.currentTask with
        | none => .error .diverges
        | some (heap, result) => .ok (allocated img k heap size result, result)
      else .ok (k, 0) := by
  rw [osMemoryAlloc]
  by_cases h : memoryCallValid k
  · have hg : ¬(k.mode ≠ .thread ∨ (!callerIsRunningTask k) = true ∨ k.currentTask = taskIdIdle) := by
      simp [h.1, h.2.1, h.2.2]
    rw [if_neg hg, if_pos h]
    rfl
  · rw [if_neg h, if_pos]
    simpa only [memoryCallValid, Classical.not_and_iff_not_or_not, Bool.not_eq_true, ne_eq,
      not_not, Bool.not_eq_true'] using h

/-- The kernel after a release. -/
def freed (k : KernelState) (heap : Heap) (pointer : ℕ) (result : Bool) : KernelState :=
  emit { k with memoryAllocator := heap }
    [[record .free k.currentTask traceTaskInvalid (tracePointerOffset img pointer) 1
      (if result then 1 else 0)]]

lemma osMemoryFree_eq (k : KernelState) (pointer : ℕ) :
    osMemoryFree img k pointer =
      if memoryCallValid k then
        match osAllocatorFree .arm32 k.memoryAllocator pointer k.currentTask with
        | none => .error .diverges
        | some (heap, result) => .ok (freed img k heap pointer result, result)
      else .ok (k, false) := by
  rw [osMemoryFree]
  by_cases h : memoryCallValid k
  · have hg : ¬(k.mode ≠ .thread ∨ (!callerIsRunningTask k) = true ∨ k.currentTask = taskIdIdle) := by
      simp [h.1, h.2.1, h.2.2]
    rw [if_neg hg, if_pos h]
    rfl
  · rw [if_neg h, if_pos]
    simpa only [memoryCallValid, Classical.not_and_iff_not_or_not, Bool.not_eq_true, ne_eq,
      not_not, Bool.not_eq_true'] using h

/-- **A memory call** of a running user task goes to the allocator; any other leaves the kernel
alone. -/
lemma osMemoryAlloc_cases {k : KernelState} {size : ℕ} {r : KernelState × ℕ}
    (h : osMemoryAlloc img k size = .ok r) : r.1 = k ∨ memoryCallValid k ∧
      ∃ heap result, osAllocatorAlloc .arm32 k.memoryAllocator size k.currentTask =
        some (heap, result) ∧ r.1 = allocated img k heap size result := by
  rw [osMemoryAlloc_eq] at h
  split at h
  · next hvalid =>
    split at h
    · cases h
    · next heap result hrun =>
      obtain rfl := Except.ok.inj h
      exact Or.inr ⟨hvalid, heap, result, hrun, rfl⟩
  · obtain rfl := Except.ok.inj h
    exact Or.inl rfl

lemma osMemoryFree_cases {k : KernelState} {pointer : ℕ} {r : KernelState × Bool}
    (h : osMemoryFree img k pointer = .ok r) : r.1 = k ∨ memoryCallValid k ∧
      ∃ heap result, osAllocatorFree .arm32 k.memoryAllocator pointer k.currentTask =
        some (heap, result) ∧ r.1 = freed img k heap pointer result := by
  rw [osMemoryFree_eq] at h
  split at h
  · next hvalid =>
    split at h
    · cases h
    · next heap result hrun =>
      obtain rfl := Except.ok.inj h
      exact Or.inr ⟨hvalid, heap, result, hrun, rfl⟩
  · obtain rfl := Except.ok.inj h
    exact Or.inl rfl

/-! ### Giving up the processor -/

/-- The calls with which a task gives up the processor. -/
def Relinquishes (l : Label) : Prop :=
  l = .yield ∨ (∃ ticks, l = .sleep ticks) ∨ l = .waitNextPeriod ∨ l = .taskExit

/-- **Such a call** is refused without a change or is a supervisor call. -/
lemma relinquish_cases {k k' : KernelState} {l : Label} (hl : Relinquishes l)
    (h : exec img k l = .ok k') : k' = k ∨ ∃ service r0,
      (service = 1 ∨ service = 2 ∨ service = 3 ∨ service = 4) ∧
        supervisorCall img k service r0 = .ok k' := by
  rcases hl with rfl | ⟨ticks, rfl⟩ | rfl | rfl
  · simp only [exec, osYield, ite_error_eq_ok] at h
    exact Or.inr ⟨_, _, Or.inl rfl, h.2⟩
  · simp only [exec, osSleep] at h
    split at h
    · exact Or.inl (Except.ok.inj h).symm
    · exact Or.inr ⟨_, _, Or.inr (Or.inl rfl), h⟩
  · simp only [exec, osWaitNextPeriod] at h
    split at h
    · exact Or.inl (Except.ok.inj h).symm
    · exact Or.inr ⟨_, _, Or.inr (Or.inr (Or.inr rfl)), h⟩
  · simp only [exec, osTaskExit, ite_error_eq_ok] at h
    exact Or.inr ⟨_, _, Or.inr (Or.inr (Or.inl rfl)), h.2⟩

end Aymos.Services
