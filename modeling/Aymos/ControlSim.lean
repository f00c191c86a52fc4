import Aymos.Control

/-!
The kernel simulates its control.

Every step of the machine is a step of the control, and appends the batches of that step to the
trace ring at the clock it leaves.
-/

namespace Aymos.Control

open Words Allocator Scheduler Trace WordMem Kernel Machine Handlers Frames Services Switch

variable (img : Image)

/-- The batches a step has appended to the ring. -/
def Emits (k k' : KernelState) (bs : List (List TraceInput)) : Prop :=
  k'.traceRing = emitAll k.traceRing k'.monotonicTicks bs

/-- A step of the kernel that is a step of its control. -/
def Simulates (k : KernelState) (l : Label) (k' : KernelState) : Prop :=
  ∃ bs, CtlStep (ctl k) l (ctl k') bs ∧ Emits k k' bs

/-! ### What the control does not see -/

@[simp] lemma ctl_emit (k : KernelState) (bs : List (List TraceInput)) :
    ctl (emit k bs) = ctl k := rfl

@[simp] lemma ctl_entered (k : KernelState) : ctl (entered img k) = ctl k := rfl

@[simp] lemma ctl_leaveException (k : KernelState) (frame : ℕ) :
    ctl (leaveException k frame) = ctl k := rfl

@[simp] lemma leaveException_traceRing (k : KernelState) (frame : ℕ) :
    (leaveException k frame).traceRing = k.traceRing := rfl

@[simp] lemma leaveException_monotonicTicks (k : KernelState) (frame : ℕ) :
    (leaveException k frame).monotonicTicks = k.monotonicTicks := rfl

lemma executing_of_executes {k : KernelState} (h : executes k = true) : executing (ctl k) := by
  simp only [executes, Bool.and_eq_true, decide_eq_true_eq, Bool.not_eq_true',
    Bool.and_eq_false_iff, Bool.not_eq_false'] at h
  refine ⟨h.1, fun hp => ?_⟩
  rcases h.2 with h2 | h2
  · rw [show k.cpu.pendsv = true from hp] at h2
    cases h2
  · exact h2

lemma executes_of_atUser {k : KernelState} (h : atUser img k = true) : executes k = true := by
  simp only [atUser, Bool.and_eq_true] at h
  exact h.1

variable {k k' : KernelState} {l : Label}

/-- A step that changes neither the control nor the ring. -/
lemma simulates_quiet (hq : Control.quiet l = true) (hctl : ctl k' = ctl k)
    (hring : k'.traceRing = k.traceRing) : Simulates k l k' :=
  ⟨[], hctl ▸ .quiet hq, by rw [Emits, hring, emitAll_nil]⟩

/-! ### The tick -/

lemma sysTick_eq_ok : sysTick img k = .ok k' ↔
    (k.mode = .thread ∧ ∃ k₁, osKernelTick (entered img k) = .ok k₁ ∧
      k' = leaveException k₁ (frameAt (threadSp img k))) ∨
    (k.mode ≠ .thread ∧ osKernelTick k = .ok k') := by
  rw [sysTick]
  by_cases hm : k.mode = .thread
  · rw [if_pos hm]
    simp only [enterException_eq, bind_eq_ok, Except.ok.injEq, hm, true_and, ne_eq,
      not_true_eq_false, false_and, or_false, eq_comm (a := leaveException _ _)]
  · rw [if_neg hm]
    simp [hm]

lemma osKernelTick_simulates (hk : WellIndexed k) (hmask : k.cpu.primask = false)
    (h : osKernelTick k = .ok k') : Simulates k .tick k' := by
  rw [osKernelTick_eq hk] at h
  split at h
  · next hrun =>
    have hrun : k.running = false := by simpa using hrun
    rw [Except.ok.injEq] at h
    subst h
    exact ⟨[], .bootTick hrun hmask, by rw [Emits, emitAll_nil]⟩
  · next hrun =>
    have hrun : k.running = true := by simpa using hrun
    rw [ite_error_eq_ok, ite_error_eq_ok] at h
    obtain ⟨hmax, hexh, h⟩ := h
    have hexh : anyExhausts (k.monotonicTicks + 1) k.schedules userSlots = false := by
      simpa using hexh
    rw [Except.ok.injEq] at h
    subst h
    split
    · next hpre =>
      refine ⟨_, .tickPreempt hrun hmask hmax hexh hpre, ?_⟩
      change emitAll (emitAll _ _ _) _ _ = _
      rw [emitAll_append]
      rfl
    · next hpre =>
      have hpre : tickPreempts k = false := by simpa using hpre
      exact ⟨_, .tick hrun hmask hmax hexh hpre, rfl⟩

lemma sysTick_simulates (hk : WellIndexed k) (hmask : k.cpu.primask = false)
    (h : sysTick img k = .ok k') : Simulates k .tick k' := by
  rcases (sysTick_eq_ok img).mp h with ⟨-, k₁, h₁, rfl⟩ | ⟨-, h⟩
  · exact @osKernelTick_simulates (entered img k) k₁
      ⟨hk.id, hk.sources, hk.current⟩ hmask h₁
  · exact osKernelTick_simulates hk hmask h

/-! ### Creation -/

lemma update_field {α β : Type} (f : α → β) (g : ℕ → α) (i : ℕ) (x : α) :
    (fun j => f (Function.update g i x j)) = Function.update (fun j => f (g j)) i (f x) :=
  Function.comp_update f g i x

lemma ctl_resetTask (k : KernelState) (i : ℕ) : ctl (resetTask k i) = cleared (ctl k) i := by
  simp only [ctl, resetTask, Kernel.setTask, setSchedule, cleared, update_field Tcb.stackClaimed,
    update_field Tcb.started]
  rfl

lemma ctl_claimSlot (k : KernelState) (config : TaskConfig) (i : ℕ) :
    cleared (ctl (claimSlot img k i config)) i = cleared (ctl k) i := by
  simp only [ctl, claimSlot, Kernel.setTask, cleared, update_field Tcb.stackClaimed,
    update_field Tcb.started, Function.update_idem]

lemma ctl_placed (k : KernelState) (config : TaskConfig) (i : ℕ) (t : SchedTask) :
    ctl (placed img k config i t) = filled (ctl k) i t := by
  simp only [ctl, placed, filled, update_field Tcb.stackClaimed, update_field Tcb.started,
    Function.update_eq_self]

lemma ctl_created (k : KernelState) (i : ℕ) : ctl (created k i) = announced (ctl k) i := by
  have hhits : createHits (ctl k) i = createPreempts k i := rfl
  rw [created, announced, hhits, ctl_emit]
  split <;> rfl

/-- A creation that fills a slot. -/
lemma created_simulates (hex : executes k = true) {config : TaskConfig} {i : ℕ} {t : SchedTask}
    (href : createRefused k config = false) (hslot : freeSlot k = some i)
    (hconf : osSchedTaskConfigure (k.schedules i) config.timing k.monotonicTicks = (t, true)) :
    CtlStep (ctl k) (.create config) (ctl (created (placed img k config i t) i))
        (creationBatches (filled (ctl k) i t) i) ∧
      Emits k (created (placed img k config i t) i) (creationBatches (filled (ctl k) i t) i) := by
  obtain ⟨h1, hlt, hd, hc⟩ := freeSlot_some hslot
  obtain ⟨-, -, -, -, -, -, hmode, hcaller⟩ := createRefused_eq_false.mp href
  refine ⟨?_, ?_⟩
  · rw [ctl_created, ctl_placed]
    refine .create (executing_of_executes hex) (fun hrun => ?_) h1 hlt hd hc hconf
    obtain ⟨hcall, hidle⟩ := hcaller hrun
    obtain ⟨-, hcur, hs, hact⟩ := callerIsRunningTask_iff.mp hcall
    exact ⟨hmode, hrun, hcur, hs, hact, hidle⟩
  · rw [← ctl_placed img k config i t]
    rw [Emits, created]
    split <;> rfl

lemma osTaskCreate_simulates (hk : WellIndexed k) (hex : executes k = true) {config : TaskConfig}
    {r : Option ℕ} (h : osTaskCreate img k config = .ok (k', r)) :
    Simulates k (.create config) k' := by
  rcases osTaskCreate_cases img hk h with rfl | ⟨i, hslot, rfl⟩ | ⟨i, t, href, hslot, hconf, rfl⟩
  · exact simulates_quiet rfl rfl rfl
  · obtain ⟨h1, hlt, hd, hc⟩ := freeSlot_some hslot
    refine ⟨[], ?_, by rw [Emits, emitAll_nil]; rfl⟩
    rw [ctl_resetTask, ctl_claimSlot]
    exact .createFails h1 hlt hd hc
  · exact ⟨_, created_simulates img hex href hslot hconf⟩

/-! ### Supervisor calls -/

/-- What a service does to the control is what the call does, but for the switch it requests. -/
lemma supervisorCall_simulates {service r0 : ℕ} (hn : service < 5)
    (h : supervisorCall img k service r0 = .ok k')
    (hserv : ∀ k₁, k.cpu.primask = false →
      runService (svcEntry img k service r0) service (excReturn k) r0 = .ok k₁ →
        ∃ bs, CtlStep (ctl k) l { ctl k₁ with pendsv := true } bs ∧ Emits k k₁ bs) :
    Simulates k l k' := by
  obtain ⟨hmask, -, k₁, hrun, rfl⟩ := (supervisorCall_eq_ok img hn).mp h
  exact hserv k₁ hmask hrun

lemma current_lt (hk : WellIndexed k) (h : k.currentTask ≠ taskIdInvalid) :
    k.currentTask < osTaskCount :=
  hk.current.resolve_right h

lemma supervisorCalls_of {exc : ℕ} (hk : WellIndexed k) (hex : executes k = true)
    (hmask : k.cpu.primask = false) (h : svcFromTask k exc = true) : supervisorCalls (ctl k) := by
  obtain ⟨-, hne, hs⟩ := svcFromTask_iff.mp h
  exact ⟨executing_of_executes hex, hmask, current_lt hk hne, hs⟩

lemma osYield_simulates (hk : WellIndexed k) (hex : executes k = true)
    (h : osYield img k = .ok k') : Simulates k .yield k' := by
  rw [osYield, ite_error_eq_ok] at h
  refine supervisorCall_simulates img (by decide) h.2 fun k₁ hmask hrun => ?_
  obtain ⟨hfrom, -, rfl⟩ := osSvcYield_eq_ok.mp hrun
  exact ⟨_, .yield (@supervisorCalls_of _ (excReturn k) hk hex hmask hfrom), rfl⟩

lemma osSleep_simulates (hk : WellIndexed k) (hex : executes k = true) {ticks : ℕ}
    (h : osSleep img k ticks = .ok k') : Simulates k (.sleep ticks) k' := by
  rw [osSleep] at h
  split at h
  · rw [Except.ok.injEq] at h
    exact simulates_quiet rfl (by rw [h]) (by rw [h])
  · refine supervisorCall_simulates img (by decide) h fun k₁ hmask hrun => ?_
    obtain ⟨hfrom, -, -, hok, rfl⟩ := osSvcSleep_eq_ok.mp hrun
    exact ⟨_, .sleep (@supervisorCalls_of _ (excReturn k) hk hex hmask hfrom)
      (Prod.ext rfl hok), rfl⟩

lemma osWaitNextPeriod_simulates (hk : WellIndexed k) (hex : executes k = true)
    (h : osWaitNextPeriod img k = .ok k') : Simulates k .waitNextPeriod k' := by
  rw [osWaitNextPeriod] at h
  split at h
  · rw [Except.ok.injEq] at h
    exact simulates_quiet rfl (by rw [h]) (by rw [h])
  · refine supervisorCall_simulates img (by decide) h fun k₁ hmask hrun => ?_
    obtain ⟨hfrom, hidle, hok, rfl⟩ := osSvcWaitNextPeriod_eq_ok.mp hrun
    exact ⟨_, .waitNextPeriod (@supervisorCalls_of _ (excReturn k) hk hex hmask hfrom) hidle
      (Prod.ext rfl hok), rfl⟩

lemma osTaskExit_simulates (hk : WellIndexed k) (hex : executes k = true)
    (h : osTaskExit img k = .ok k') : Simulates k .taskExit k' := by
  rw [osTaskExit, ite_error_eq_ok] at h
  refine supervisorCall_simulates img (by decide) h.2 fun k₁ hmask hrun => ?_
  obtain ⟨hfrom, hidle, -, hok, -, rfl⟩ := osSvcExit_eq_ok.mp hrun
  exact ⟨_, .taskExit (@supervisorCalls_of _ (excReturn k) hk hex hmask hfrom) hidle
    (Prod.ext rfl hok), rfl⟩

/-! ### Start and memory calls -/

lemma kernelStart_simulates (hex : executes k = true) (h : exec img k .kernelStart = .ok k') :
    Simulates k .kernelStart k' := by
  obtain ⟨k₁, h₁, h₂⟩ := bind_eq_ok.mp h
  obtain ⟨-, hrun, rfl⟩ := osKernelStart_eq_ok.mp h₁
  rw [Except.ok.injEq] at h₂
  subst h₂
  exact ⟨_, .kernelStart (executing_of_executes hex) hrun, rfl⟩

lemma startSvc_simulates (hex : executes k = true) (h : exec img k .startSvc = .ok k') :
    Simulates k .startSvc k' := by
  refine supervisorCall_simulates img (by decide) h fun k₁ hmask hrun => ?_
  obtain ⟨-, hcur, hact, rfl⟩ := osSvcStart_eq_ok.mp hrun
  exact ⟨_, .startSvc (executing_of_executes hex) hmask hcur hact, rfl⟩

lemma osMemoryAlloc_simulates {size r : ℕ} (h : osMemoryAlloc img k size = .ok (k', r)) :
    Simulates k (.alloc size) k' := by
  rcases osMemoryAlloc_cases img h with rfl | ⟨-, heap, result, -, rfl⟩
  · exact simulates_quiet rfl rfl rfl
  · exact ⟨_, .memory rfl ⟨_, _, _, _, _, _, Or.inl rfl, rfl⟩, rfl⟩

lemma osMemoryFree_simulates {pointer : ℕ} {r : Bool}
    (h : osMemoryFree img k pointer = .ok (k', r)) : Simulates k (.free pointer) k' := by
  rcases osMemoryFree_cases img h with rfl | ⟨-, heap, result, -, rfl⟩
  · exact simulates_quiet rfl rfl rfl
  · exact ⟨_, .memory rfl ⟨_, _, _, _, _, _, Or.inr rfl, rfl⟩, rfl⟩

/-! ### The commit -/

lemma ctl_saved (k : KernelState) (psp : ℕ) : ctl (saved k psp) = ctl k := by
  simp only [ctl, saved, Kernel.setTask, update_field Tcb.stackClaimed, update_field Tcb.started,
    Function.update_eq_self]

/-- Saving the outgoing context changes neither the control nor the ring nor the heap. -/
lemma saveOutgoing_ctl {psp : ℕ} (h : saveOutgoing k psp = .ok k') :
    ctl k' = ctl k ∧ k'.traceRing = k.traceRing ∧ k'.memoryAllocator = k.memoryAllocator ∧
      (k.hasActiveContext = true ↔ k.currentTask ≠ taskIdInvalid) := by
  rcases saveOutgoing_eq_ok.mp h with ⟨hact, hcur, -, rfl⟩ | ⟨hact, -, hcur, rfl⟩
  · exact ⟨ctl_saved k psp, rfl, rfl, by simp [hact, hcur]⟩
  · exact ⟨rfl, rfl, rfl, by simp [hact, hcur]⟩

/-- The task that a switch leaves is exiting. -/
def Exits (k : KernelState) : Prop :=
  k.currentTask ≠ taskIdInvalid ∧ (k.schedules k.currentTask).state = .exiting

/-- The batches of the reclaim in a commit, if there is one. -/
def Freed (k : KernelState) (freed : List (List TraceInput)) : Prop :=
  (¬Exits k ∧ freed = []) ∨ Exits k ∧ ∃ heap released,
    osAllocatorReleaseOwner .arm32 k.memoryAllocator k.currentTask = some (heap, released) ∧
      freed = releaseBatches k.currentTask released

/-- What the outgoing task leaves behind. -/
lemma retired_ctl (h : Retired k k') :
    ctl k' = retired (ctl k) ∧ k'.monotonicTicks = k.monotonicTicks ∧
      ∃ freed, Freed k freed ∧ Emits k k' freed := by
  have hret : retired (ctl k) =
      if k.currentTask = taskIdInvalid then ctl k
      else if (k.schedules k.currentTask).state = .running then
        setTask (ctl k) k.currentTask (inState (k.schedules k.currentTask) .ready)
      else if (k.schedules k.currentTask).state = .exiting then cleared (ctl k) k.currentTask
      else ctl k := rfl
  rw [hret]
  rcases h with hstay | ⟨hlt, hs⟩ | ⟨hne, hs, hrec⟩
  · refine ⟨?_, rfl, [], Or.inl ⟨fun hx => ?_, rfl⟩, by rw [Emits, emitAll_nil]⟩
    · rcases hstay with hcur | ⟨hr, he⟩
      · rw [if_pos hcur]
      · rw [if_neg hr, if_neg he, ite_self]
    · rcases hstay with hcur | ⟨-, he⟩
      · exact hx.1 hcur
      · exact he hx.2
  · have hne : k.currentTask ≠ taskIdInvalid := ne_invalid_of_lt hlt
    refine ⟨?_, rfl, [], Or.inl ⟨fun hx => ?_, rfl⟩, by rw [Emits, emitAll_nil]; rfl⟩
    · rw [if_neg hne, if_pos hs]
      rfl
    · exact absurd (hs.symm.trans hx.2) (by decide)
  · obtain ⟨-, -, heap, released, hrel, -, rfl⟩ := reclaimExitingTask_eq_ok.mp hrec
    refine ⟨?_, rfl, _, Or.inr ⟨⟨hne, hs⟩, heap, released, hrel, rfl⟩, rfl⟩
    rw [if_neg hne, if_neg (by simp [hs]), if_pos hs, ← ctl_resetTask]
    rfl

lemma ctl_dispatched (k : KernelState) (outgoing sources n : ℕ) (s : TaskState) :
    { ctl (dispatched k outgoing sources n s) with mode := .pendsvExit } = resumed (ctl k) n := by
  have hclaimed : (fun i => ((dispatched k outgoing sources n s).tasks i).stackClaimed) =
      fun i => (k.tasks i).stackClaimed := by
    funext i
    simp only [dispatched, emit_tasks]
    split
    · by_cases hi : i = n
      · subst hi
        simp
      · simp [hi]
    · rfl
  have hstarted : (fun i => ((dispatched k outgoing sources n s).tasks i).started) =
      if n ≠ taskIdIdle then Function.update (fun i => (k.tasks i).started) n true
      else fun i => (k.tasks i).started := by
    funext i
    simp only [dispatched, emit_tasks, firstStart, Bool.and_eq_true, bne_iff_ne,
      Bool.not_eq_true']
    by_cases hidle : n = taskIdIdle
    · simp [hidle]
    · by_cases hi : i = n
      · subst hi
        cases hst : (k.tasks i).started <;> simp [hidle, hst]
      · cases hst : (k.tasks n).started <;> simp [hidle, hi]
  simp only [ctl, resumed, hclaimed, hstarted]
  rfl

/-- **A commit is one of the control**, with the batches of its reclaim and of its dispatch. -/
lemma pendsvCommit_emits (hmode : k.mode = .pendsvEntry) (h : pendsvCommit k = .ok k') :
    ∃ freed, Freed k freed ∧
      CtlStep (ctl k) .pendCommit (ctl k') (commitBatches (ctl k) (retired (ctl k)) freed) ∧
      Emits k k' (commitBatches (ctl k) (retired (ctl k)) freed) := by
  obtain ⟨k₁, k₂, k₃, psp, hsave, hretire, hdispatch, -, rfl⟩ := pendsvCommit_eq_ok.mp h
  obtain ⟨hctl₁, hring₁, hheap₁, hact⟩ := saveOutgoing_ctl hsave
  obtain ⟨hctl₂, hticks₂, freed, hfreed, hring₂⟩ := retired_ctl hretire
  obtain ⟨⟨hready, hvalid⟩, hsources, hver, rfl, -⟩ := dispatchNext_eq_ok.mp hdispatch
  have hctl₁ : ctl k₁ = ctl k := hctl₁
  have hchoose : chooseNext k₂ = next (retired (ctl k)) := by
    rw [← hctl₁, ← hctl₂]
    rfl
  have hlt := validSavedPsp_lt hvalid
  have hr : retired (ctl k) = ctl k₂ := by rw [← hctl₁, hctl₂]
  have hrunning : k₂.running = true := by
    rw [← Bool.not_eq_false]
    intro hrun
    have hnil := runningTasks_eq_nil.mp (hver.1 hrun) _ hlt
    simp [dispatched] at hnil
  have hcur : k₁.currentTask = k.currentTask := congrArg Ctl.current hctl₁
  have hsch : k₁.schedules = k.schedules := congrArg Ctl.schedules hctl₁
  rw [Freed, Exits, hcur, hheap₁, hsch] at hfreed
  refine ⟨freed, hfreed, ?_, ?_⟩
  · have hafter : ctl (loaded (dispatched k₂ k.currentTask k.pendingPreemptSources (chooseNext k₂)
        (outgoingState k)) psp) = resumed (retired (ctl k)) (next (retired (ctl k))) := by
      rw [hr, ← ctl_dispatched, ← hr, ← hchoose]
      rfl
    have hrun : (ctl k).running = true := by
      rw [← retired_running, hr]
      exact hrunning
    rw [hafter]
    have hbatches := hfreed.imp And.right fun hexits => by
      obtain ⟨-, -, released, -, he⟩ := hexits
      exact Exists.intro released he
    refine .pendCommit hmode rfl (hchoose ▸ hlt) ?_ ?_ hact hrun hbatches
    · rw [← hchoose, hr]
      exact hready
    · rw [← hchoose]
      exact hsources
  · have hcommit : commitBatches (ctl k) (retired (ctl k)) freed =
        freed ++ ([selectionInputs k₂.schedules osTaskCount (chooseNext k₂) k.currentTask
          k₂.yieldExcludedTask .dispatch] ++
        switchBatches k.currentTask (chooseNext k₂) k.pendingPreemptSources
          k₂.pendingSwitchCause (outgoingState k) ++
        if firstStart k₂ (chooseNext k₂) then
          [[deadlineRecord .taskStart (chooseNext k₂) (k₂.schedules (chooseNext k₂))]] else []) := by
      have hfirst : firstStart k₂ (chooseNext k₂) = true ↔
          chooseNext k₂ ≠ taskIdIdle ∧ (ctl k₂).started (chooseNext k₂) = false := by
        simp [firstStart, ctl]
      rw [commitBatches, ← hchoose, hr]
      exact congrArg (freed ++ ·) (congrArg (_ ++ ·) (if_congr hfirst.symm rfl rfl))
    have hticks : k₂.monotonicTicks = k.monotonicTicks := hticks₂.trans (congrArg Ctl.ticks hctl₁)
    rw [Emits, hcommit, emitAll_append]
    change emitAll k₂.traceRing k₂.monotonicTicks _ = emitAll (emitAll k.traceRing k₂.monotonicTicks _) k₂.monotonicTicks _
    rw [hring₂, hring₁]
    rfl

lemma pendsvCommit_simulates (hmode : k.mode = .pendsvEntry) (h : pendsvCommit k = .ok k') :
    Simulates k .pendCommit k' := by
  obtain ⟨freed, -, hctl, hring⟩ := pendsvCommit_emits hmode h
  exact ⟨_, hctl, hring⟩

/-! ### Every step -/

/-- **The kernel simulates its control.** -/
theorem control_step (hk : WellIndexed k) (h : Step img k l k') : Simulates k l k' := by
  obtain ⟨hen, hexec⟩ := h
  cases l with
  | tick => exact sysTick_simulates img hk (by simpa [enabled] using hen) hexec
  | pendEnter =>
    simp only [enabled, Bool.and_eq_true, decide_eq_true_eq, Bool.not_eq_true'] at hen
    cases hexec
    exact ⟨_, .pendEnter hen.1.1 hen.1.2 hen.2, rfl⟩
  | pendCommit => exact pendsvCommit_simulates (by simpa [enabled] using hen) hexec
  | pendReturn =>
    simp only [enabled, decide_eq_true_eq] at hen
    cases hexec
    exact ⟨_, .pendReturn hen, rfl⟩
  | kernelStart => exact kernelStart_simulates img (executes_of_atUser img hen) hexec
  | startSvc =>
    simp only [enabled, Bool.and_eq_true] at hen
    exact startSvc_simulates img hen.1 hexec
  | trampoline =>
    simp only [exec, taskEntryTrampoline, ite_error_eq_ok, Except.ok.injEq] at hexec
    obtain ⟨-, rfl⟩ := hexec
    exact simulates_quiet rfl rfl rfl
  | fallThrough =>
    simp only [exec, fallThrough] at hexec
    split_ifs at hexec
  | create config =>
    simp only [enabled, Bool.and_eq_true] at hen
    obtain ⟨⟨_, r⟩, h, rfl⟩ := map_eq_ok.mp hexec
    exact osTaskCreate_simulates img hk (executes_of_atUser img hen.1) h
  | yield => exact osYield_simulates img hk (executes_of_atUser img hen) hexec
  | sleep ticks => exact osSleep_simulates img hk (executes_of_atUser img hen) hexec
  | waitNextPeriod => exact osWaitNextPeriod_simulates img hk (executes_of_atUser img hen) hexec
  | taskExit => exact osTaskExit_simulates img hk (executes_of_atUser img hen) hexec
  | alloc size =>
    obtain ⟨⟨_, r⟩, h, rfl⟩ := map_eq_ok.mp hexec
    exact osMemoryAlloc_simulates img h
  | free pointer =>
    obtain ⟨⟨_, r⟩, h, rfl⟩ := map_eq_ok.mp hexec
    exact osMemoryFree_simulates img h
  | compute callee hw psp =>
    cases hexec
    exact simulates_quiet rfl rfl rfl
  | stackWrite addr value =>
    cases hexec
    exact simulates_quiet rfl rfl rfl
  | heapWrite addr value =>
    cases hexec
    exact simulates_quiet rfl rfl rfl
  | primask masked =>
    cases hexec
    exact ⟨_, .primask masked (executing_of_executes (executes_of_atUser img hen)), rfl⟩

end Aymos.Control
