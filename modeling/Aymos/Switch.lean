import Aymos.Services

/-!
What a context switch does when the kernel does not stop.

The commit of `PendSV_Handler` saves the outgoing context, makes a running outgoing task ready
or reclaims an exiting one, and then dispatches the task it selects.
-/

namespace Aymos.Switch

open Words Allocator Scheduler Trace WordMem Kernel Machine Handlers Frames Services

/-! ### Reclaiming -/

def releaseBatches (id released : ℕ) : List (List TraceInput) :=
  if released ≠ 0 then [[record .ownerRelease id traceTaskInvalid (u32 released) id 1]] else []

/-- The kernel after the reclaim of a slot. -/
def reclaimed (k : KernelState) (id : ℕ) (heap : Heap) (released : ℕ) : KernelState :=
  emit { resetTask k id with
    memoryAllocator := heap
    lastReclaimed := id
    reclaimCounter := u32 (k.reclaimCounter + 1) }
    (releaseBatches id released)

/-- **`reclaim_exiting_task`**. -/
lemma reclaimExitingTask_eq_ok {k k' : KernelState} {id : ℕ} :
    reclaimExitingTask k id = .ok k' ↔
      (id ≠ taskIdIdle ∧ id < osTaskCount ∧ (k.schedules id).state = .exiting ∧
        (k.tasks id).stackClaimed = true) ∧
      osAllocatorValidate .arm32 k.memoryAllocator = true ∧
      ∃ heap released, osAllocatorReleaseOwner .arm32 k.memoryAllocator id = some (heap, released) ∧
        osAllocatorValidate .arm32 heap = true ∧ k' = reclaimed k id heap released := by
  rw [reclaimExitingTask, ite_error_eq_ok, ite_error_eq_ok]
  have hguard : (¬(id = taskIdIdle ∨ id ≥ osTaskCount ∨ (k.schedules id).state ≠ .exiting ∨
      (!(k.tasks id).stackClaimed) = true)) ↔ (id ≠ taskIdIdle ∧ id < osTaskCount ∧
        (k.schedules id).state = .exiting ∧ (k.tasks id).stackClaimed = true) := by
    simp
  rw [hguard, Bool.not_eq_true', Bool.not_eq_false]
  refine and_congr_right fun hvalid => and_congr_right fun _ => ?_
  rcases osAllocatorReleaseOwner .arm32 k.memoryAllocator id with _ | ⟨heap, released⟩
  · simp
  · simp only [Option.some.injEq, Prod.mk.injEq, traceEmit_eq, ite_emit]
    rw [ite_error_eq_ok, Bool.not_eq_true', Bool.not_eq_false]
    simp only [emit_memoryAllocator, bind_eq_ok, transitionTask_eq_ok, Except.ok.injEq]
    constructor
    · rintro ⟨hv, _, ⟨_, _, _, rfl⟩, rfl⟩
      refine ⟨heap, released, ⟨rfl, rfl⟩, hv, ?_⟩
      simp [reclaimed, releaseBatches, resetTask, setSchedule, setTask, emit]
    · rintro ⟨_, _, ⟨rfl, rfl⟩, hv, rfl⟩
      refine ⟨hv, _, ⟨hvalid.2.1, hvalid.2.2.1, by decide, rfl⟩, ?_⟩
      simp [reclaimed, releaseBatches, resetTask, setSchedule, setTask, emit]

/-! ### The outgoing task -/

/-- The kernel with the context of the current task saved. -/
def saved (k : KernelState) (psp : ℕ) : KernelState :=
  setTask k k.currentTask { k.tasks k.currentTask with savedPsp := psp }

lemma saveOutgoing_eq_ok {k k' : KernelState} {psp : ℕ} :
    saveOutgoing k psp = .ok k' ↔
      (k.hasActiveContext = true ∧ k.currentTask ≠ taskIdInvalid ∧
        validSavedPsp k k.currentTask psp = true ∧ k' = saved k psp) ∨
      (k.hasActiveContext = false ∧ psp = 0 ∧ k.currentTask = taskIdInvalid ∧ k' = k) := by
  rw [saveOutgoing]
  cases hact : k.hasActiveContext
  · simp only [Bool.false_eq_true, if_false, ite_error_eq_ok, false_and, false_or, true_and,
      not_or, not_not, Except.ok.injEq, and_assoc, eq_comm (a := k)]
  · simp only [if_true, ite_error_eq_ok, not_or, Bool.not_eq_true', Bool.not_eq_false, true_and,
      Bool.true_eq_false, false_and, or_false, Except.ok.injEq, and_assoc, eq_comm (b := k')]
    rfl

/-- The kernel with the running task made ready. -/
def readied (k : KernelState) : KernelState :=
  setSchedule k k.currentTask (inState (currentSchedule k) .ready)

/-- The kernel after the outgoing task has left the processor. -/
inductive Retired (k : KernelState) : KernelState → Prop
  /-- Nothing was running, or the task has gone to sleep, yielded or been preempted. -/
  | stay : k.currentTask = taskIdInvalid ∨ ((k.schedules k.currentTask).state ≠ .running ∧
      (k.schedules k.currentTask).state ≠ .exiting) → Retired k k
  | ready : k.currentTask < osTaskCount → (k.schedules k.currentTask).state = .running →
    Retired k (readied k)
  | reclaim {k' : KernelState} : k.currentTask ≠ taskIdInvalid →
    (k.schedules k.currentTask).state = .exiting →
    reclaimExitingTask k k.currentTask = .ok k' → Retired k k'

lemma retireOutgoing_eq_ok {k k' : KernelState} : retireOutgoing k = .ok k' ↔ Retired k k' := by
  have hbind : retireOutgoing k =
      (if k.currentTask ≠ taskIdInvalid ∧ (k.schedules k.currentTask).state = .running then
        transitionTask k k.currentTask .running .ready "PEND_READY" else .ok k) >>= fun k₁ =>
      if k.currentTask ≠ taskIdInvalid ∧ (k₁.schedules k.currentTask).state = .exiting then
        reclaimExitingTask k₁ k.currentTask else .ok k₁ := by
    rw [retireOutgoing]
    split <;> rfl
  rw [hbind, bind_eq_ok]
  constructor
  · rintro ⟨k₁, h₁, h₂⟩
    by_cases hrun : k.currentTask ≠ taskIdInvalid ∧ (k.schedules k.currentTask).state = .running
    · rw [if_pos hrun, transitionTask_eq_ok] at h₁
      obtain ⟨hlt, hs, -, rfl⟩ := h₁
      rw [if_neg (by simp), Except.ok.injEq] at h₂
      exact h₂ ▸ .ready hlt hs
    · rw [if_neg hrun, Except.ok.injEq] at h₁
      subst h₁
      by_cases hex : k.currentTask ≠ taskIdInvalid ∧ (k.schedules k.currentTask).state = .exiting
      · rw [if_pos hex] at h₂
        exact .reclaim hex.1 hex.2 h₂
      · rw [if_neg hex, Except.ok.injEq] at h₂
        exact h₂ ▸ .stay (by tauto)
  · rintro (hstay | ⟨hlt, hs⟩ | ⟨hne, hs, hrec⟩)
    · exact ⟨k, if_neg (by tauto), if_neg (by tauto)⟩
    · have hne : k.currentTask ≠ taskIdInvalid := ne_invalid_of_lt hlt
      refine ⟨readied k, ?_, if_neg (by simp [readied])⟩
      rw [if_pos ⟨hne, hs⟩]
      exact transitionTask_eq_ok.mpr ⟨hlt, hs, by decide, rfl⟩
    · exact ⟨k, if_neg (by simp [hs]), by rw [if_pos ⟨hne, hs⟩]; exact hrec⟩

/-! ### The incoming task -/

/-- The records of a switch from `outgoing` to `next`, after those of the selection. -/
def switchBatches (outgoing next sources cause : ℕ) (outgoingState : TaskState) :
    List (List TraceInput) :=
  (if outgoing = taskIdIdle ∧ next ≠ taskIdIdle then [[record .idleStop taskIdIdle next 0 0 0]]
    else []) ++
  (if next = taskIdIdle ∧ outgoing ≠ taskIdIdle then
    [[record .idleStart taskIdIdle (traceTask outgoing) 0 0 0]] else []) ++
  (if sources ≠ 0 then [[record .taskPreempt outgoing next sources 0 0]] else []) ++
  [[record .contextSwitch (traceTask outgoing) next cause outgoingState.code 0]]

lemma traceSwitch_eq_ok {k k' : KernelState} {outgoing next sources : ℕ} {s : TaskState} :
    traceSwitch k outgoing next sources s = .ok k' ↔
      (sources ≠ 0 → outgoing ≠ taskIdInvalid ∧ outgoing ≠ next) ∧
        k' = emit k (switchBatches outgoing next sources k.pendingSwitchCause s) := by
  rw [traceSwitch, switchBatches]
  simp only [traceEmit_eq, ite_emit]
  by_cases hs : sources ≠ 0
  · simp only [hs, if_true, true_imp_iff, ne_eq, not_false_eq_true]
    by_cases hp : outgoing = taskIdInvalid ∨ outgoing = next
    · simp only [hp, if_true, error_bind, reduceCtorEq, false_iff]
      tauto
    · obtain ⟨h1, h2⟩ := not_or.mp hp
      simp only [h1, h2, or_self, if_false, ok_bind, Except.ok.injEq, not_false_eq_true, true_and,
        emit_emit, List.append_assoc, eq_comm (b := k')]
      rfl
  · simp only [hs, if_false, ok_bind, Except.ok.injEq, false_imp_iff, true_and, emit_emit,
      List.append_assoc, List.append_nil, eq_comm (b := k')]
    rfl

/-- The next task starts for the first time. -/
def firstStart (k : KernelState) (next : ℕ) : Bool := next != taskIdIdle && !(k.tasks next).started

/-- The kernel after the dispatch of `next`. -/
def dispatched (k : KernelState) (outgoing sources next : ℕ) (outgoingState : TaskState) :
    KernelState :=
  emit { k with
    schedules := Function.update k.schedules next (inState (k.schedules next) .running)
    tasks := if firstStart k next then Function.update k.tasks next
      { k.tasks next with started := true } else k.tasks
    currentTask := next
    hasActiveContext := true
    yieldExcludedTask := taskIdInvalid
    pendingSwitchCause := 0
    pendingPreemptSources := 0 }
    ([selectionInputs k.schedules osTaskCount next outgoing k.yieldExcludedTask .dispatch] ++
      switchBatches outgoing next sources k.pendingSwitchCause outgoingState ++
      if firstStart k next then [[deadlineRecord .taskStart next (k.schedules next)]] else [])

lemma dispatched_savedPsp (k : KernelState) (outgoing sources next : ℕ) (s : TaskState) (i : ℕ) :
    ((dispatched k outgoing sources next s).tasks i).savedPsp = (k.tasks i).savedPsp := by
  simp only [dispatched, emit_tasks]
  split
  · by_cases hi : i = next
    · subst hi
      simp
    · simp [hi]
  · rfl

lemma validSavedPsp_lt {k : KernelState} {id psp : ℕ} (h : validSavedPsp k id psp = true) :
    id < osTaskCount := by
  by_contra hge
  rw [validSavedPsp, if_pos (Or.inl (not_lt.mp hge))] at h
  cases h

/-- The start of a task that has not run before is recorded. -/
lemma traceFirstStart_eq (k : KernelState) (next : ℕ) :
    (if next ≠ taskIdIdle ∧ !(k.tasks next).started then
      traceDeadline (setTask k next { k.tasks next with started := true }) .taskStart next else k) =
    emit { k with
      tasks := if firstStart k next then Function.update k.tasks next
        { k.tasks next with started := true } else k.tasks }
      (if firstStart k next then [[deadlineRecord .taskStart next (k.schedules next)]] else []) := by
  have hiff : (next ≠ taskIdIdle ∧ (!(k.tasks next).started) = true) ↔ firstStart k next = true := by
    simp [firstStart]
  simp only [hiff]
  split <;> rfl

/-- **From the selection to the end of `os_pendsv_switch`.** -/
lemma dispatchNext_eq_ok {k k' : KernelState} {outgoing sources psp : ℕ} {s : TaskState} :
    dispatchNext k outgoing sources s = .ok (k', psp) ↔
      ((k.schedules (chooseNext k)).state = .ready ∧
        validSavedPsp k (chooseNext k) (k.tasks (chooseNext k)).savedPsp = true) ∧
      (sources ≠ 0 → outgoing ≠ taskIdInvalid ∧ outgoing ≠ chooseNext k) ∧
      Verified k' ∧ k' = dispatched k outgoing sources (chooseNext k) s ∧
      psp = (k.tasks (chooseNext k)).savedPsp := by
  obtain ⟨next, hnext⟩ : ∃ next, next = chooseNext k := ⟨_, rfl⟩
  simp only [dispatchNext, ← hnext]
  by_cases hg : (k.schedules next).state = .ready ∧
      validSavedPsp k next (k.tasks next).savedPsp = true
  · have hlt := validSavedPsp_lt hg.2
    have hguard : ¬((k.schedules next).state ≠ .ready ∨ (!validSavedPsp
        { k with yieldExcludedTask := taskIdInvalid } next (k.tasks next).savedPsp) = true) := by
      have : validSavedPsp { k with yieldExcludedTask := taskIdInvalid } next
        (k.tasks next).savedPsp = true := hg.2
      simp [hg.1, this]
    obtain ⟨k₁, hk₁⟩ : ∃ k₁, k₁ = emit { k with yieldExcludedTask := taskIdInvalid }
      [selectionInputs k.schedules osTaskCount next outgoing k.yieldExcludedTask .dispatch] :=
      ⟨_, rfl⟩
    have htr : transitionTask k₁ next .ready .running "SELECT_RUNNING" =
        .ok (setSchedule k₁ next (inState (k.schedules next) .running)) := by
      rw [hk₁]
      exact transitionTask_eq_ok.mpr ⟨hlt, hg.1, by decide, rfl⟩
    rw [if_neg hguard, traceEmitSelection_eq hlt, ← hk₁, htr, ok_bind]
    obtain ⟨k₂, hk₂⟩ : ∃ k₂ : KernelState, k₂ =
      { setSchedule k₁ next (inState (k.schedules next) .running) with
        currentTask := next, hasActiveContext := true } := ⟨_, rfl⟩
    have hfinal : ∀ k₃, k₃ = { emit k₂ (switchBatches outgoing next sources k₂.pendingSwitchCause s)
        with pendingSwitchCause := 0, pendingPreemptSources := 0 } →
        (if next ≠ taskIdIdle ∧ !(k₃.tasks next).started then
          traceDeadline (setTask k₃ next { k₃.tasks next with started := true }) .taskStart next
          else k₃) = dispatched k outgoing sources next s := by
      rintro k₃ rfl
      have hfirst : ∀ k', k'.tasks = k.tasks → firstStart k' next = firstStart k next := by
        intro k' h
        rw [firstStart, firstStart, h]
      rw [traceFirstStart_eq, hfirst _ (by rw [hk₂, hk₁]; rfl), hk₂, hk₁, dispatched,
        ← emit_emit, ← emit_emit]
      have hrec : deadlineRecord .taskStart next (Function.update k.schedules next
          (inState (k.schedules next) .running) next) =
            deadlineRecord .taskStart next (k.schedules next) := by
        rw [Function.update_self]
        rfl
      rw [← hrec]
      rfl
    have hsched : k₂.pendingSwitchCause = k.pendingSwitchCause := by rw [hk₂, hk₁]; rfl
    rw [← hk₂]
    simp only [bind_eq_ok, traceSwitch_eq_ok, verifyState_eq_ok, Except.ok.injEq, Prod.mk.injEq,
      hg, true_and]
    constructor
    · rintro ⟨_, ⟨hsrc, rfl⟩, _, hver, hk', rfl⟩
      have hk'd := hk'.symm.trans (hfinal _ rfl)
      have hpsp := congrArg (fun k => (k.tasks next).savedPsp) (hfinal _ rfl)
      rw [dispatched_savedPsp] at hpsp
      exact ⟨hsrc, hk' ▸ hver, hk'd, hpsp⟩
    · rintro ⟨hsrc, hver, rfl, rfl⟩
      have hpsp := congrArg (fun k => (k.tasks next).savedPsp) (hfinal _ rfl)
      rw [dispatched_savedPsp] at hpsp
      exact ⟨_, ⟨hsrc, rfl⟩, (), (congrArg Verified (hfinal _ rfl)).mpr hver, hfinal _ rfl, hpsp⟩
  · have hguard : (k.schedules next).state ≠ .ready ∨ (!validSavedPsp
        { k with yieldExcludedTask := taskIdInvalid } next (k.tasks next).savedPsp) = true := by
      rcases Classical.not_and_iff_not_or_not.mp hg with h | h
      · exact Or.inl h
      · exact Or.inr (by rw [Bool.not_eq_true', ← Bool.not_eq_true]; exact h)
    rw [if_pos hguard]
    simp only [reduceCtorEq, false_iff]
    tauto

/-! ### The commit of `PendSV_Handler` -/

/-- The state of the outgoing task that a switch reports. -/
def outgoingState (k : KernelState) : TaskState :=
  if k.currentTask ≠ taskIdInvalid then (k.schedules k.currentTask).state else .dormant

lemma osPendsvSwitch_eq_ok {k k' : KernelState} {saved next : ℕ} :
    osPendsvSwitch k saved = .ok (k', next) ↔
      ∃ k₁ k₂, saveOutgoing k saved = .ok k₁ ∧ Retired k₁ k₂ ∧
        dispatchNext k₂ k.currentTask k.pendingPreemptSources (outgoingState k) = .ok (k', next) := by
  rw [osPendsvSwitch]
  simp only [bind_eq_ok, retireOutgoing_eq_ok, ← outgoingState.eq_1]
  constructor
  · rintro ⟨k₁, h₁, k₂, h₂, h₃⟩
    exact ⟨k₁, k₂, h₁, h₂, h₃⟩
  · rintro ⟨k₁, k₂, h₁, h₂, h₃⟩
    exact ⟨k₁, h₁, k₂, h₂, h₃⟩

/-- The context pointer under which the outgoing context is saved. -/
def contextPointer (k : KernelState) : ℕ := if k.hasActiveContext then k.cpu.psp - 32 else 0

/-- The kernel with the registers of the outgoing task on its stack. -/
def stored (k : KernelState) : KernelState :=
  { k with ram :=
      if k.hasActiveContext then writeWords k.ram (contextPointer k) k.cpu.callee.words else k.ram }

/-- The kernel with the registers of the incoming task in the processor. -/
def loaded (k : KernelState) (next : ℕ) : KernelState :=
  { k with
    mode := .pendsvExit
    cpu := { k.cpu with callee := Callee.load k.ram next, psp := next + 32, spsel := true } }

/-- **The commit** of a context switch. -/
theorem pendsvCommit_eq_ok {k k' : KernelState} :
    pendsvCommit k = .ok k' ↔
      ∃ k₁ k₂ k₃ next, saveOutgoing (stored k) (contextPointer k) = .ok k₁ ∧ Retired k₁ k₂ ∧
        dispatchNext k₂ k.currentTask k.pendingPreemptSources (outgoingState k) = .ok (k₃, next) ∧
        next ≠ 0 ∧ k' = loaded k₃ next := by
  have hcommit : pendsvCommit k = osPendsvSwitch (stored k) (contextPointer k) >>= fun r =>
      if r.2 = 0 then .error (.panic "ARCH_PSP") else .ok (loaded r.1 r.2) := rfl
  rw [hcommit]
  simp only [bind_eq_ok, Prod.exists, osPendsvSwitch_eq_ok, ite_error_eq_ok, Except.ok.injEq]
  constructor
  · rintro ⟨k₃, next, ⟨k₁, k₂, h₁, h₂, h₃⟩, hne, rfl⟩
    exact ⟨k₁, k₂, k₃, next, h₁, h₂, h₃, hne, rfl⟩
  · rintro ⟨k₁, k₂, k₃, next, h₁, h₂, h₃, hne, rfl⟩
    exact ⟨k₃, next, ⟨k₁, k₂, h₁, h₂, h₃⟩, hne, rfl⟩

end Aymos.Switch
