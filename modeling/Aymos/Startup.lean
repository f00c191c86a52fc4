import Aymos.Safety

/-!
The first steps of a run.

A small image, the run that creates a task before the start, and the run from the start to the
first dispatch. They show that what is assumed of runs can be met.
-/

namespace Aymos.Startup

open Words Allocator Scheduler Trace WordMem Kernel Machine Handlers Frames Services Switch Slots
  Control Boot Ownership Stacks Safety

/-- An image with its stacks, heap and main stack one after the other from the start of SRAM. -/
def sampleImage : Image where
  stacksBase := 0x20000000
  heapStart := 0x20002000
  heapEnd := 0x20004000
  mspLimit := 0x20004000
  mspTop := 0x20005000
  bootMsp := 0x20004F00
  taskEntryTrampoline := 0x08001000
  taskReturnGuard := 0x08001010
  idleEntry := 0x08001020
  svcReturn n := 0x08002002 + 16 * n
  opcode a := 0xDF00 + (a - 0x08002000) / 16
  stacks_pos := by decide
  stacks_aligned := by decide
  stacks_below := by decide
  heap_aligned := by decide
  heap_room := by decide
  heap_below := by decide
  boot_room := by decide
  boot_aligned := by decide
  boot_below := by decide
  top_fits := by decide
  svc_even := by decide
  svc_flash := by decide
  svc_opcode := by decide
  points := by decide
  idle_pos := by decide

/-- An address in the application. -/
def sampleEntry : ℕ := 0x08003000

lemma sampleEntry_user : isUserPc sampleImage sampleEntry = true := by decide

/-- A periodic task that is released at once. -/
def samplePeriodic : TaskConfig :=
  { entry := sampleEntry
    argument := 0
    stackSize := 512
    timing :=
      { kind := .periodic
        initialReleaseDelayTicks := 0
        periodTicks := 10
        relativeDeadlineTicks := 8
        executionBudgetTicks := 3
        priority := 1 } }

variable {img : Image} {k : KernelState} {labels : List Label}

/-- The application before it does anything. -/
lemma reaches_booted {P : KernelState → Label → Prop} {pc : ℕ} (hpc : isUserPc img pc = true)
    (m : ByteMem.Mem) (ram : Ram) : Reaches img P [] (booted img m ram pc) :=
  ⟨m, ram, pc, _, hpc, osKernelInit_powerOn img m ram pc, .nil⟩

/-! ### A creation before the start -/

lemma freeSlot_booted (m : ByteMem.Mem) (ram : Ram) (pc : ℕ) :
    freeSlot (booted img m ram pc) = some 1 := rfl

/-- **A task created before the start** takes the first user slot. -/
theorem first_create {P : KernelState → Label → Prop} {pc : ℕ} {config : TaskConfig}
    {t : SchedTask} (hpc : isUserPc img pc = true) (hentry : isUserPc img config.entry = true)
    (hpos : config.entry ≠ 0) (hmin : minStackSize ≤ config.stackSize)
    (hmax : config.stackSize ≤ maxStackSize) (h8 : config.stackSize % 8 = 0)
    (hvalid : osSchedConfigValid config.timing = true)
    (hconf : osSchedTaskConfigure (osSchedTaskReset 1) config.timing 0 = (t, true))
    (hP : ∀ k, k.running = false → P k (.create config)) (m : ByteMem.Mem) (ram : Ram) :
    ∃ k', Reaches img P [.create config] k' ∧
      ctl k' = filled (ctl (booted img m ram pc)) 1 t ∧
      Emits (booted img m ram pc) k' (creationBatches (filled (ctl (booted img m ram pc)) 1 t) 1) ∧
      atUser img k' = true ∧ k'.cpu.primask = false := by
  obtain ⟨k, hk⟩ : ∃ k, k = booted img m ram pc := ⟨_, rfl⟩
  have hwell : WellIndexed k := by
    rw [hk]
    exact ControlInv.wellIndexed (booted_inv img m ram pc)
  have href : createRefused k config = false := by
    rw [createRefused_eq_false, hk]
    exact ⟨rfl, hpos, hmin, hmax, h8, hvalid, rfl, fun hr => by cases hr⟩
  have hnot : k.running = false := by
    rw [hk]
    rfl
  have hslot : freeSlot k = some 1 := by rw [hk]; exact freeSlot_booted m ram pc
  have hconf' : osSchedTaskConfigure (k.schedules 1) config.timing k.monotonicTicks = (t, true) := by
    rw [hk]
    exact hconf
  have hpre : createPreempts (placed img k config 1 t) 1 = false := by
    rw [hk]
    rfl
  have hver : Verified (created (placed img k config 1 t) 1) := by
    have ht : t.state ≠ .running := by
      rcases configured_state hconf with hst | hst <;> simp [hst]
    have hrun : (created (placed img k config 1 t) 1).running = false := by
      rw [created, hpre, hk]
      rfl
    refine ⟨fun _ => runningTasks_eq_nil.mpr fun i _ hs => ?_, fun hr => by rw [hrun] at hr; cases hr⟩
    rw [created, hpre, hk] at hs
    by_cases hi : i = 1
    · subst hi
      simp only [Bool.false_eq_true, if_false, emit_schedules, placed, Function.update_self] at hs
      exact ht hs
    · simp only [Bool.false_eq_true, if_false, emit_schedules, placed, ne_eq, hi, not_false_eq_true,
        Function.update_of_ne, booted, bootSchedules] at hs
      split_ifs at hs <;> simp [osSchedTaskReset] at hs
  have hexec : osTaskCreate img k config = .ok (created (placed img k config 1 t) 1, some 1) := by
    have hcheck : verifyState (created (placed img k config 1 t) 1) "CREATE" = .ok () :=
      verifyState_eq_ok.mpr hver
    rw [osTaskCreate_eq img hwell, href, hslot]
    simp only [Bool.false_eq_true, if_false, hconf', hcheck, ok_bind]
  have hen : enabled img k (.create config) = true := by
    rw [hk]
    simp [enabled, atUser, executes, booted, powerOn, hpc, hentry]
  have hctl : ctl (created (placed img k config 1 t) 1) = filled (ctl k) 1 t := by
    rw [created, hpre, ← ctl_placed img k config 1 t]
    rfl
  rw [← hk]
  refine ⟨_, (hk ▸ reaches_booted hpc m ram).step (hP k hnot) ⟨hen, map_eq_ok.mpr ⟨_, hexec, rfl⟩⟩, hctl,
    ?_, ?_, ?_⟩
  · rw [← ctl_placed img k config 1 t, Emits, created, hpre]
    rfl
  · rw [created, hpre, hk]
    simp [atUser, executes, placed, booted, powerOn, hpc]
  · rw [created, hpre, hk]
    rfl

/-- The record of the sample task after its creation. -/
def sampleTask : SchedTask := (osSchedTaskConfigure (osSchedTaskReset 1) samplePeriodic.timing 0).1

/-- A run that creates the sample task. -/
theorem sample_create {P : KernelState → Label → Prop}
    (hP : ∀ k, k.running = false → P k (.create samplePeriodic)) (m : ByteMem.Mem) (ram : Ram) :
    ∃ k', Reaches sampleImage P [.create samplePeriodic] k' ∧
      ctl k' = filled (ctl (booted sampleImage m ram sampleEntry)) 1 sampleTask ∧
      Emits (booted sampleImage m ram sampleEntry) k'
        (creationBatches (filled (ctl (booted sampleImage m ram sampleEntry)) 1 sampleTask) 1) ∧
      atUser sampleImage k' = true ∧ k'.cpu.primask = false :=
  first_create sampleEntry_user sampleEntry_user (by decide) (by decide) (by decide) (by decide)
    (by decide) (by decide) hP m ram

/-! ### The start -/

/-- The labels from the start to the commit of the first dispatch, the last one first. -/
def startLabels : List Label := [.pendCommit, .pendEnter, .startSvc, .kernelStart]

/-- The control once the first switch has been requested and taken. -/
def startedCtl (c : Ctl) : Ctl :=
  { c with running := true, cause := switchStart, pendsv := false, mode := .pendsvEntry }

/-- Once started, the boot thread gets to its `svc`. -/
lemma enabled_startSvc (hinv : SafeInv img k) (hex : executing (ctl k)) (hrun : k.running = true)
    (hact : k.hasActiveContext = false) (hpend : k.cpu.pendsv = false) :
    enabled img k .startSvc = true := by
  have hm : k.mode = .thread := hex.1
  have hpc : k.cpu.hw.pc = img.svcReturn 0 - 2 := by
    rcases (hinv.stack.boot hact).phase with ⟨hno, -⟩ | ⟨-, -, hm' | ⟨-, ⟨-, hpc⟩ | ⟨hp, -⟩⟩⟩
    · exact absurd (hrun.symm.trans hno) (by decide)
    · exact absurd (hm.symm.trans hm') (by decide)
    · exact hpc
    · exact absurd (hpend.symm.trans hp) (by decide)
  simp [enabled, executes, hm, hpend, hpc]

/-- **From the start to the first dispatch.** -/
theorem first_commit (h : Reaches img Disciplined labels k) (hat : atUser img k = true)
    (hrun : k.running = false) (hmask : k.cpu.primask = false) :
    ∃ k', Reaches img Disciplined (startLabels ++ labels) k' ∧
      ctl k' = resumed (startedCtl (ctl k)) (next (startedCtl (ctl k))) := by
  have hinv := safeInv_of_reaches h
  obtain ⟨hm, -, hcase⟩ := hinv.kernelInv.user hat
  obtain ⟨hact, -, hpend⟩ := hcase.resolve_left fun hx => by simp [hrun] at hx
  have hcur : k.currentTask = taskIdInvalid := by
    by_contra hne
    exact absurd ((hinv.control.active.mpr hne).symm.trans hact) (by decide)
  -- `os_kernel_start`
  obtain ⟨k₁, h₁, -⟩ := hinv.progress (l := .kernelStart) hat ⟨hrun, hmask⟩
  have hs₁ : Step img k .kernelStart k₁ := ⟨hat, h₁⟩
  have hr₁ := h.step (l := .kernelStart) ⟨hrun, hmask⟩ hs₁
  obtain ⟨bs₁, hc₁, -⟩ := control_step img (ControlInv.wellIndexed hinv.control) hs₁
  have hctl₁ : ctl k₁ = { ctl k with running := true, cause := switchStart } := by
    generalize ctl k₁ = c₁ at hc₁
    cases hc₁ with
    | quiet hq => cases hq
    | memory hq => cases hq
    | kernelStart => rfl
  have hinv₁ := safeInv_of_reaches hr₁
  -- its `svc`
  have hact₁ : k₁.hasActiveContext = false := (congrArg Ctl.active hctl₁).trans hact
  have hm₁ : k₁.mode = .thread := (congrArg Ctl.mode hctl₁).trans hm
  have hpend₁ : k₁.cpu.pendsv = false := (congrArg Ctl.pendsv hctl₁).trans hpend
  have hrun₁ : k₁.running = true := congrArg Ctl.running hctl₁
  have hmask₁ : k₁.cpu.primask = false := (congrArg Ctl.masked hctl₁).trans hmask
  have hen₁ : enabled img k₁ .startSvc = true :=
    enabled_startSvc hinv₁ ⟨hm₁, fun hp => absurd (hp.symm.trans hpend₁) (by decide)⟩ hrun₁ hact₁ hpend₁
  obtain ⟨k₂, h₂, -⟩ := hinv₁.progress hen₁ trivial
  have hr₂ := hr₁.step (l := .startSvc) trivial ⟨hen₁, h₂⟩
  obtain ⟨bs₂, hc₂, -⟩ := control_step img (ControlInv.wellIndexed hinv₁.control) ⟨hen₁, h₂⟩
  have hctl₂ : ctl k₂ = { ctl k₁ with pendsv := true } := by
    generalize ctl k₂ = c₂ at hc₂
    cases hc₂ with
    | quiet hq => cases hq
    | memory hq => cases hq
    | startSvc => rfl
  have hinv₂ := safeInv_of_reaches hr₂
  -- `PendSV_Handler` is entered
  have hen₂ : enabled img k₂ .pendEnter = true := by
    have hm₂ : k₂.mode = .thread := (congrArg Ctl.mode hctl₂).trans hm₁
    have hpend₂ : k₂.cpu.pendsv = true := congrArg Ctl.pendsv hctl₂
    have hmask₂ : k₂.cpu.primask = false := (congrArg Ctl.masked hctl₂).trans hmask₁
    simp [enabled, hm₂, hpend₂, hmask₂]
  obtain ⟨k₃, h₃, -⟩ := hinv₂.progress hen₂ trivial
  have hr₃ := hr₂.step (l := .pendEnter) trivial ⟨hen₂, h₃⟩
  have hctl₃ : ctl k₃ = startedCtl (ctl k) := by
    cases h₃
    have : ctl (pendsvEnter img k₂) = { ctl k₂ with mode := .pendsvEntry, pendsv := false } := rfl
    rw [this, hctl₂, hctl₁]
    rfl
  have hinv₃ := safeInv_of_reaches hr₃
  -- and commits
  have hen₃ : enabled img k₃ .pendCommit = true := by
    have : k₃.mode = .pendsvEntry := congrArg Ctl.mode hctl₃
    simp [enabled, this]
  obtain ⟨k₄, h₄, -⟩ := hinv₃.progress hen₃ trivial
  refine ⟨k₄, hr₃.step (l := .pendCommit) trivial ⟨hen₃, h₄⟩, ?_⟩
  obtain ⟨bs₄, hc₄, -⟩ := control_step img (ControlInv.wellIndexed hinv₃.control) ⟨hen₃, h₄⟩
  have hret : retired (ctl k₃) = ctl k₃ := by
    rw [retired, if_pos]
    rw [hctl₃]
    exact hcur
  generalize ctl k₄ = c₄ at hc₄
  cases hc₄ with
  | quiet hq => cases hq
  | memory hq => cases hq
  | pendCommit _ hn => rw [hn, hret, hctl₃]

/-- **From a commit to the thread of the task dispatched.** -/
lemma first_return (h : Reaches img Disciplined labels k) (hm : k.mode = .pendsvExit) :
    ∃ k', Reaches img Disciplined (.pendReturn :: labels) k' ∧
      ctl k' = { ctl k with mode := .thread } := by
  have hen : enabled img k .pendReturn = true := by simp [enabled, hm]
  exact ⟨_, h.step (l := .pendReturn) trivial ⟨hen, rfl⟩, rfl⟩

end Aymos.Startup
