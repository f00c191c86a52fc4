import Aymos.Stacks

/-!
Runs of the kernel are safe.

As long as user tasks keep to the interface, no step stops: every check that a handler makes has
been established by the handlers before it. The task whose thread executes is the current one and
the only one that runs.
-/

namespace Aymos.Safety

open Words Allocator Scheduler Trace WordMem Kernel Machine Handlers Frames Services Switch Slots
  Control Boot Ownership Stacks

variable (img : Image)

/-- The thread of a user task. -/
def userTask (k : KernelState) : Prop := k.running = true ∧ k.currentTask ≠ taskIdIdle

/-- What the application keeps to: the clock stays in range, the kernel is started once, supervisor
calls are made by user tasks and with interrupts enabled. -/
def Disciplined (k : KernelState) : Label → Prop
  | .tick => k.monotonicTicks + 1 < 2 ^ 63
  | .kernelStart => k.running = false ∧ k.cpu.primask = false
  | .yield | .taskExit => userTask k ∧ k.cpu.primask = false
  | .sleep ticks => userTask k ∧ (0 < ticks → ticks ≤ maxSleepTicks → k.cpu.primask = false)
  | .waitNextPeriod =>
    userTask k ∧ ((k.schedules k.currentTask).kind = .periodic → k.cpu.primask = false)
  | _ => True

/-- **The invariant of the kernel.** -/
structure SafeInv (k : KernelState) : Prop where
  control : ControlInv (ctl k)
  heap : HeapOwned k
  stack : StackInv img k
  clock : k.monotonicTicks < 2 ^ 63

/-- What is kept however far the clock has come. -/
structure KernelInv (k : KernelState) : Prop where
  control : ControlInv (ctl k)
  heap : HeapOwned k
  stack : StackInv img k

variable {img} {k k' : KernelState} {l : Label}

lemma SafeInv.kernelInv (h : SafeInv img k) : KernelInv img k := ⟨h.control, h.heap, h.stack⟩

/-! ### Threads -/

/-- **The task whose thread executes runs.** -/
lemma runs_of_executes (hc : ControlInv (ctl k)) (hact : k.hasActiveContext = true)
    (hex : executes k = true) : (k.schedules k.currentTask).state = .running := by
  obtain ⟨hm, hp⟩ := executing_of_executes hex
  refine hc.runner hact ?_
  cases hpend : k.cpu.pendsv with
  | false =>
    left
    refine ⟨hpend, ?_⟩
    rw [hm]
    decide
  | true => exact Or.inr (hp hpend)

/-- A thread in the application is a task that runs, or boots. -/
lemma KernelInv.user (h : KernelInv img k) (hat : atUser img k = true) :
    k.mode = .thread ∧ isUserPc img k.cpu.hw.pc = true ∧
      ((k.hasActiveContext = true ∧ k.running = true ∧ k.currentTask < osTaskCount ∧
          (k.schedules k.currentTask).state = .running) ∨
        (k.hasActiveContext = false ∧ k.running = false ∧ k.cpu.pendsv = false)) := by
  simp only [atUser, Bool.and_eq_true] at hat
  obtain ⟨hex, hpc⟩ := hat
  obtain ⟨hm, hp⟩ := executing_of_executes hex
  refine ⟨hm, hpc, ?_⟩
  cases hact : k.hasActiveContext with
  | true =>
    exact Or.inl ⟨rfl, h.control.started hact, h.stack.current_lt hact,
      runs_of_executes h.control hact hex⟩
  | false =>
    have hpoint : ∀ n ∈ [img.svcReturn 0 - 2, img.svcReturn 0], k.cpu.hw.pc ≠ n := by
      rintro n hn rfl
      simp only [isUserPc, Bool.not_eq_true', List.contains_eq_mem, decide_eq_false_iff_not] at hpc
      simp only [List.mem_cons, List.not_mem_nil, or_false] at hn hpc
      tauto
    rcases (h.stack.boot hact).phase with ⟨hrun, -, hpend, -⟩ | ⟨-, -, hm' | ⟨-, ⟨-, hpc'⟩ | ⟨-, hpc'⟩⟩⟩
    · exact Or.inr ⟨rfl, hrun, hpend⟩
    · rw [show k.mode = .thread from hm] at hm'
      cases hm'
    · exact absurd hpc' (hpoint _ (by simp))
    · exact absurd hpc' (hpoint _ (by simp))

/-! ### The tick -/

lemma tick_ok (hc : ControlInv (ctl k)) (hclock : k.monotonicTicks + 1 < 2 ^ 63) :
    ∃ k', osKernelTick k = .ok k' := by
  have hmax : k.monotonicTicks ≠ uint64Max := by
    unfold uint64Max
    omega
  have hexh : anyExhausts (k.monotonicTicks + 1) k.schedules userSlots = false := by
    refine List.any_eq_false.mpr fun i hi => ?_
    rw [Bool.not_eq_true]
    exact (hc.table.slots i hi).not_exhausts hclock
  rw [osKernelTick_eq (ControlInv.wellIndexed hc), hexh]
  simp only [Bool.false_eq_true, if_false, if_neg hmax]
  split <;> exact ⟨_, rfl⟩

/-- **A tick** leaves the threads where they are. -/
lemma KernelInv.ticked (h : KernelInv img k) (hs : Step img k .tick k') : StackInv img k' := by
  have hstack := h.stack
  have hwell := ControlInv.wellIndexed h.control
  obtain ⟨bs, hctl, -⟩ := control_step img hwell hs
  -- what the control sees of the step
  have hexit : k.hasActiveContext = true → (k.schedules k.currentTask).state = .exiting →
      (k'.schedules k.currentTask).state = .exiting := hctl.exiting h.control (by decide)
  have hpend : k.hasActiveContext = false → k'.cpu.pendsv = k.cpu.pendsv :=
    hctl.tick_pendsv h.control
  rcases (sysTick_eq_ok img).mp hs.exec with ⟨hm, k₁, h₁, rfl⟩ | ⟨hm, hk'⟩
  · have hret : Returned img k (leaveException k₁ (frameAt (threadSp img k))) k.cpu.hw :=
      hstack.returned hm rfl
        (osKernelTick_untouched (ControlInv.wellIndexed (k := entered img k) h.control) h₁)
    refine hret.stackInv hstack hm (fun hact => ?_) (fun hact => ?_)
    · obtain ⟨-, -, -, hth⟩ := hstack.thread hm
      exact (hth hact).2.2.2.mono (hexit hact)
    · have hb := hstack.boot hact
      have hp := hpend hact
      generalize leaveException k₁ (frameAt (threadSp img k)) = k₂ at hret hp
      refine ⟨fun _ => ?_, ?_⟩
      · rw [hret.cpu]
        exact hb.thread hm
      · rw [hret.running, hret.mode, hret.cpu, hp]
        exact hb.phase
  · have u := osKernelTick_untouched hwell hk'
    have hcpu : k'.cpu.psp = k.cpu.psp ∧ k'.cpu.spsel = k.cpu.spsel ∧ k'.cpu.hw = k.cpu.hw ∧
        k'.cpu.primask = k.cpu.primask := by
      rw [u.cpu]
      exact ⟨rfl, rfl, rfl, rfl⟩
    obtain ⟨hpsp, hspsel, hhw, hmask⟩ := hcpu
    exact
      { toParked := hstack.toParked.congr u.initialized u.tasks u.active u.current
          fun _ _ _ _ x _ _ => congrFun u.ram x
        spsel := by rw [hspsel, u.active]; exact hstack.spsel
        current_lt := fun hact => by rw [u.current]; exact hstack.current_lt (u.active ▸ hact)
        live := fun hact => by
          obtain ⟨hclaim, hl⟩ := hstack.live (u.active ▸ hact)
          rw [if_neg hm] at hl
          rw [Live, u.tasks, u.current, if_neg (by rwa [u.mode]), u.ram, hpsp]
          exact ⟨hclaim, hl.mono (hexit (u.active ▸ hact))⟩
        boot := fun hact => by
          have hb := hstack.boot (u.active ▸ hact)
          have hp := hpend (u.active ▸ hact)
          refine ⟨fun hm' => absurd (u.mode ▸ hm') hm, ?_⟩
          rw [u.running, u.mode, hmask, hhw, hp]
          exact hb.phase }

lemma KernelInv.tick (h : KernelInv img k) (hen : enabled img k .tick = true)
    (hclock : k.monotonicTicks + 1 < 2 ^ 63) : ∃ k', sysTick img k = .ok k' ∧ StackInv img k' := by
  have hexec : ∃ k', sysTick img k = .ok k' := by
    by_cases hm : k.mode = .thread
    · obtain ⟨k₁, h₁⟩ := tick_ok (k := entered img k) h.control hclock
      exact ⟨_, (sysTick_eq_ok img).mpr (Or.inl ⟨hm, k₁, h₁, rfl⟩)⟩
    · obtain ⟨k', hk'⟩ := tick_ok h.control hclock
      exact ⟨k', (sysTick_eq_ok img).mpr (Or.inr ⟨hm, hk'⟩)⟩
  obtain ⟨k', hk'⟩ := hexec
  exact ⟨k', hk', h.ticked ⟨hen, hk'⟩⟩

/-! ### Supervisor calls -/

/-- The frame of a supervisor call is always one the handler accepts. -/
lemma svcFrameValid (h : StackInv img k) (hm : k.mode = .thread) :
    SvcFrameValid img k := by
  obtain ⟨hx, -, -, hth⟩ := h.thread hm
  obtain ⟨hbit, hmod⟩ := threadXpsr_iff.mp hx
  have hstacked : (stackedXpsr (threadSp img k) k.cpu.hw.xpsr).testBit 24 = true ∧
      stackedXpsr (threadSp img k) k.cpu.hw.xpsr % 512 = 0 := by
    rw [Nat.testBit_eq_decide_div_mod_eq, decide_eq_true_eq] at hbit ⊢
    unfold stackedXpsr
    split <;> omega
  refine ⟨?_, hstacked⟩
  have htop := img.top_fits
  have hroom := img.heap_room
  have hbelow := img.heap_below
  have hboot := img.boot_room
  have hbelow' := img.boot_below
  rw [validSvcFrame, excReturn, h.spsel]
  cases hact : k.hasActiveContext with
  | true =>
    obtain ⟨hsp, hclaim, hb, -⟩ := hth hact
    have hlt := h.current_lt hact
    have hcl := h.claimed _ hlt hclaim
    obtain ⟨hpos, -, hheap⟩ := hcl.stack_below hlt
    obtain ⟨h8, hlow, hhigh, -⟩ := hb.frameAt
    have htop' := hb.2.2
    rw [hsp]
    have hend : (frameAt k.cpu.psp + 32) % Target.modulus .arm32 = frameAt k.cpu.psp + 32 :=
      Nat.mod_eq_of_lt (by omega)
    simp only [hend, if_true]
    rw [if_neg (by rw [not_or, not_or, not_or]; refine ⟨by omega, by omega, by decide, by omega⟩),
      if_neg (by decide)]
    simp only [Bool.and_eq_true, decide_eq_true_eq, bne_iff_ne]
    exact ⟨⟨ne_invalid_of_lt hlt, by omega⟩, by omega⟩
  | false =>
    have hsp : threadSp img k = img.bootMsp := by rw [threadSp, h.spsel, hact]; rfl
    obtain ⟨-, -, hlow, hhigh, h8⟩ := booted_sp img
    rw [hsp]
    have hend : (frameAt img.bootMsp + 32) % Target.modulus .arm32 = frameAt img.bootMsp + 32 :=
      Nat.mod_eq_of_lt (by omega)
    simp only [hend, Bool.false_eq_true, if_false]
    rw [if_neg (by rw [not_or, not_or, not_or]; refine ⟨by omega, by omega, by decide, by omega⟩),
      if_pos trivial]
    simp only [Bool.and_eq_true, decide_eq_true_eq]
    omega

/-- **A supervisor call whose service does not stop** returns to its caller. -/
lemma supervisorCall_returns (h : StackInv img k) (hm : k.mode = .thread) (hmask : k.cpu.primask = false) {service r0 : ℕ} (hn : service < 5)
    {k₁ : KernelState}
    (hrun : runService (svcEntry img k service r0) service (excReturn k) r0 = .ok k₁) :
    ∃ k', supervisorCall img k service r0 = .ok k' ∧
      Returned img k k' { k.cpu.hw with r0 := r0, pc := img.svcReturn service } ∧
      k'.schedules = k₁.schedules ∧ k'.cpu.pendsv = true := by
  refine ⟨_, (supervisorCall_eq_ok img hn).mpr ⟨hmask, svcFrameValid h hm, k₁, hrun, rfl⟩, ?_,
    rfl, rfl⟩
  have u := runService_untouched hrun
  exact h.returned hm rfl
    ⟨u.tasks, u.memory, u.ram, u.initialized, u.running, u.current, u.active, u.mode,
      by change ({ k₁.cpu with pendsv := true } : Cpu) = _; rw [u.cpu]; rfl⟩

/-- A user task with interrupts enabled in a state from which it can call. -/
lemma KernelInv.caller (h : KernelInv img k) (hat : atUser img k = true) (hu : userTask k) :
    k.mode = .thread ∧ k.hasActiveContext = true ∧ k.currentTask < osTaskCount ∧
      k.currentTask ∈ userSlots ∧ (k.schedules k.currentTask).state = .running ∧
      (k.schedules k.currentTask).jobActive = true ∧
      svcFromTask k (excReturn k) = true := by
  obtain ⟨hm, -, hcase⟩ := h.user hat
  rcases hcase with ⟨hact, -, hlt, hrun⟩ | ⟨-, hr, -⟩
  · have hslot := userSlot_of_ne_idle hlt hu.2
    have hjob : (k.schedules k.currentTask).jobActive = true :=
      (h.control.table.slots _ hslot).active.mpr (Or.inr (Or.inl hrun))
    refine ⟨hm, hact, hlt, hslot, hrun, hjob, svcFromTask_iff.mpr ⟨?_, ne_invalid_of_lt hlt, hrun⟩⟩
    rw [excReturn, h.stack.spsel, hact, if_pos rfl]
  · exact absurd (hu.1.symm.trans hr) (by decide)

/-- The points of the kernel's own code are not the user's. -/
lemma isUserPc_of_kernel {pc : ℕ} (h : pc ∈ [img.taskEntryTrampoline, img.taskReturnGuard,
    img.svcReturn 0 - 2, img.svcReturn 0, img.svcReturn 3]) : isUserPc img pc = false := by
  rw [isUserPc, List.contains_iff_mem.mpr h]
  rfl

/-- The returns of the other services and the idle task's entry are. -/
lemma isUserPc_of_user {pc : ℕ} (h : pc ∈ [img.svcReturn 1, img.svcReturn 2, img.svcReturn 4,
    img.idleEntry]) : isUserPc img pc = true := by
  have hp : ([img.taskEntryTrampoline, img.taskReturnGuard, img.svcReturn 0 - 2, img.svcReturn 0,
      img.svcReturn 3] ++ [img.svcReturn 1, img.svcReturn 2, img.svcReturn 4,
      img.idleEntry]).Nodup := img.points
  rw [isUserPc, Bool.not_eq_true', ← Bool.not_eq_true, List.contains_iff_mem]
  exact fun hk => (List.nodup_append.mp hp).2.2 pc hk pc h rfl

lemma svcReturn_user {n : ℕ} (hn : n = 1 ∨ n = 2 ∨ n = 4) : isUserPc img (img.svcReturn n) = true := by
  refine isUserPc_of_user ?_
  rcases hn with rfl | rfl | rfl <;> simp

/-- **A call by a user task** goes on behind its `svc`, or waits there for the switch. -/
lemma KernelInv.call (h : KernelInv img k) (hat : atUser img k = true) (hu : userTask k)
    (hmask : k.cpu.primask = false) {service r0 : ℕ} (hn : service < 5) {k₁ : KernelState}
    (hrun : runService (svcEntry img k service r0) service (excReturn k) r0 = .ok k₁)
    (hpc : (service = 1 ∨ service = 2 ∨ service = 4) ∨
      (service = 3 ∧ (k₁.schedules k.currentTask).state = .exiting)) :
    ∃ k', supervisorCall img k service r0 = .ok k' ∧ StackInv img k' := by
  obtain ⟨hm, hact, -⟩ := h.caller hat hu
  obtain ⟨k', hk', hret, hsched, -⟩ := supervisorCall_returns h.stack hm hmask hn hrun
  refine ⟨k', hk', hret.stackInv h.stack hm (fun _ => ?_)
    fun hf => absurd (hact.symm.trans hf) (by decide)⟩
  refine ⟨(h.stack.thread hm).1, ?_⟩
  rcases hpc with hs | ⟨rfl, hexit⟩
  · exact Or.inl (svcReturn_user hs)
  · exact Or.inr (Or.inr ⟨by rw [hsched]; exact hexit, rfl⟩)

lemma KernelInv.yield (h : KernelInv img k) (hat : atUser img k = true) (hu : userTask k)
    (hmask : k.cpu.primask = false) : ∃ k', osYield img k = .ok k' ∧ StackInv img k' := by
  obtain ⟨-, -, hlt, -, -, -, hfrom⟩ := h.caller hat hu
  rw [osYield, if_neg (by simp [hu.1, ne_invalid_of_lt hlt])]
  exact h.call hat hu hmask (by decide) (osSvcYield_eq_ok.mpr ⟨hfrom, hlt, rfl⟩) (Or.inl (Or.inl rfl))

lemma SafeInv.sleep (h : SafeInv img k) (hat : atUser img k = true) {ticks : ℕ}
    (hu : userTask k) (hmask : 0 < ticks → ticks ≤ maxSleepTicks → k.cpu.primask = false) :
    ∃ k', osSleep img k ticks = .ok k' ∧ StackInv img k' := by
  obtain ⟨-, -, hlt, -, hrun, hjob, hfrom⟩ := h.kernelInv.caller hat hu
  rw [osSleep]
  split
  · exact ⟨k, rfl, h.stack⟩
  · next hg =>
    simp only [not_or, not_lt] at hg
    obtain ⟨-, -, hpos, hle⟩ := hg
    have hpos := Nat.pos_of_ne_zero hpos
    have hclock := h.clock
    have hfit : k.monotonicTicks ≤ uint64Max - ticks := by
      unfold maxSleepTicks maxTimeInterval int32Max at hle
      unfold uint64Max
      omega
    have hok := osSchedSleep_eq_true.mpr ⟨⟨hrun, hjob, hpos, hle, hfit⟩, rfl⟩
    exact h.kernelInv.call hat hu (hmask hpos hle) (by decide)
      (osSvcSleep_eq_ok.mpr ⟨hfrom, hpos, hle, congrArg Prod.snd hok, rfl⟩)
      (Or.inl (Or.inr (Or.inl rfl)))

lemma KernelInv.waitNextPeriod (h : KernelInv img k) (hat : atUser img k = true) (hu : userTask k)
    (hmask : (k.schedules k.currentTask).kind = .periodic → k.cpu.primask = false) :
    ∃ k', osWaitNextPeriod img k = .ok k' ∧ StackInv img k' := by
  obtain ⟨-, -, hlt, -, hrun, hjob, hfrom⟩ := h.caller hat hu
  rw [osWaitNextPeriod]
  split
  · exact ⟨k, rfl, h.stack⟩
  · next hg =>
    simp only [not_or, not_not] at hg
    have hok := (osSchedWaitNextPeriod_eq_true (n := k.monotonicTicks)).mpr
      ⟨⟨hg.2.2, hrun, hjob⟩, rfl⟩
    exact h.call hat hu (hmask hg.2.2) (by decide)
      (osSvcWaitNextPeriod_eq_ok.mpr ⟨hfrom, hu.2, congrArg Prod.snd hok, rfl⟩)
      (Or.inl (Or.inr (Or.inr rfl)))

lemma KernelInv.taskExit (h : KernelInv img k) (hat : atUser img k = true) (hu : userTask k)
    (hmask : k.cpu.primask = false) : ∃ k', osTaskExit img k = .ok k' ∧ StackInv img k' := by
  obtain ⟨-, -, hlt, hslot, hrun, hjob, hfrom⟩ := h.caller hat hu
  rw [osTaskExit, if_neg (by simp [hu.1, hu.2, ne_invalid_of_lt hlt])]
  have hok := (osSchedCompleteJob_eq_true (n := k.monotonicTicks)).mpr ⟨⟨hrun, hjob⟩, rfl⟩
  have hdone : (osSchedCompleteJob (k.schedules k.currentTask) k.monotonicTicks).1.state =
      .running := by
    have hslot := h.control.table.slots _ hslot
    have hmiss : osSchedRecordDeadlineMiss (k.schedules k.currentTask) k.monotonicTicks = _ :=
      hslot.recordDeadlineMiss hjob
    rw [hok, hmiss]
    exact hrun
  refine h.call hat hu hmask (by decide)
    (osSvcExit_eq_ok.mpr ⟨hfrom, hu.2, hlt, congrArg Prod.snd hok, hdone, rfl⟩) (Or.inr ⟨rfl, ?_⟩)
  simp [exited, svcEntry]

/-! ### The start -/

/-- The kernel's own points in thread mode are no application code, and apart from each other. -/
lemma points_apart (img : Image) : isUserPc img (img.svcReturn 0 - 2) = false ∧
    isUserPc img img.taskEntryTrampoline = false ∧ isUserPc img (img.svcReturn 0) = false ∧
    isUserPc img (img.svcReturn 3) = false ∧ isUserPc img img.taskReturnGuard = false ∧
    isUserPc img img.idleEntry = true := by
  refine ⟨isUserPc_of_kernel ?_, isUserPc_of_kernel ?_, isUserPc_of_kernel ?_,
    isUserPc_of_kernel ?_, isUserPc_of_kernel ?_, isUserPc_of_user ?_⟩ <;> simp

/-- A thread that executes at a point of the kernel's own code is the boot thread before its `svc`,
or a task at its entry. -/
lemma KernelInv.point (h : KernelInv img k) (hex : executes k = true)
    (hpc : isUserPc img k.cpu.hw.pc = false) :
    (k.hasActiveContext = false ∧ k.running = true ∧ k.cpu.primask = false ∧
        k.cpu.hw.pc = img.svcReturn 0 - 2) ∨
      (k.hasActiveContext = true ∧ k.cpu.hw.pc = img.taskEntryTrampoline ∧
        k.cpu.hw.r0 = (k.tasks k.currentTask).argument) := by
  obtain ⟨hm, hp⟩ := executing_of_executes hex
  have hm : k.mode = .thread := hm
  cases hact : k.hasActiveContext with
  | true =>
    obtain ⟨-, -, -, hth⟩ := h.stack.thread hm
    obtain ⟨-, -, -, -, hr⟩ := hth hact
    rcases hr with hr | ⟨hr, harg⟩ | ⟨hexit, -⟩
    · rw [hr] at hpc
      cases hpc
    · exact Or.inr ⟨rfl, hr, harg⟩
    · rw [runs_of_executes h.control hact hex] at hexit
      cases hexit
  | false =>
    rcases (h.stack.boot hact).phase with
      ⟨-, -, -, hpc'⟩ | ⟨hrun, hmask, hm' | ⟨-, ⟨-, hpc'⟩ | ⟨hpend, -⟩⟩⟩
    · rw [hpc'] at hpc
      cases hpc
    · rw [hm] at hm'
      cases hm'
    · exact Or.inl ⟨rfl, hrun, hmask, hpc'⟩
    · exact absurd ((hp hpend).symm.trans hmask) (by decide)

lemma KernelInv.kernelStart (h : KernelInv img k) (hat : atUser img k = true)
    (hrun : k.running = false) (hmask : k.cpu.primask = false) :
    ∃ k', exec img k .kernelStart = .ok k' ∧ StackInv img k' := by
  obtain ⟨hm, -, hcase⟩ := h.user hat
  obtain ⟨hact, -, hpend⟩ := hcase.resolve_left fun hx => by simp [hrun] at hx
  have hb := h.stack.boot hact
  refine ⟨_, bind_eq_ok.mpr ⟨_, osKernelStart_eq_ok.mpr ⟨h.stack.initialized, hrun, rfl⟩, rfl⟩, ?_⟩
  exact
    { toParked := h.stack.toParked.congr rfl rfl rfl rfl fun _ _ _ _ _ _ _ => rfl
      spsel := h.stack.spsel
      current_lt := h.stack.current_lt
      live := fun ha => absurd (ha.symm.trans hact) (by decide)
      boot := fun _ => ⟨fun _ => hb.thread hm,
        Or.inr ⟨rfl, hmask, Or.inr ⟨hm, Or.inl ⟨hpend, rfl⟩⟩⟩⟩ }

lemma KernelInv.startSvc (h : KernelInv img k) (hen : enabled img k .startSvc = true) :
    ∃ k', exec img k .startSvc = .ok k' ∧ StackInv img k' := by
  simp only [enabled, Bool.and_eq_true, beq_iff_eq] at hen
  obtain ⟨hex, hpc⟩ := hen
  have hm : k.mode = .thread := (executing_of_executes hex).1
  rcases h.point hex (by rw [hpc]; exact (points_apart img).1) with
    ⟨hact, hrun, hmask, -⟩ | ⟨-, hpc', -⟩
  · have hcur : k.currentTask = taskIdInvalid := by
      by_contra hne
      exact absurd ((h.control.active.mpr hne).symm.trans hact) (by decide)
    have hserv : runService (svcEntry img k svcStart k.cpu.hw.r0) svcStart (excReturn k) k.cpu.hw.r0 =
        .ok (svcEntry img k svcStart k.cpu.hw.r0) := by
      refine osSvcStart_eq_ok.mpr ⟨?_, hcur, hact, rfl⟩
      rw [excReturn, h.stack.spsel, hact]
      rfl
    obtain ⟨k', hk', hret, -, hpend⟩ :=
      supervisorCall_returns h.stack hm hmask (by decide) hserv
    refine ⟨k', hk', hret.stackInv h.stack hm (fun ha => absurd (ha.symm.trans hact) (by decide))
      fun _ => ⟨fun _ => ?_, Or.inr ⟨hret.running.trans hrun, ?_, Or.inr ⟨hret.mode.trans hm,
        Or.inr ⟨hpend, ?_⟩⟩⟩⟩⟩
    · rw [hret.cpu]
      exact (h.stack.thread hm).1
    · rw [hret.cpu]
      exact hmask
    · rw [hret.cpu]
      rfl
  · have hp := img.points
    simp only [List.nodup_cons, List.mem_cons, not_or] at hp
    exact absurd (hpc'.symm.trans hpc) hp.1.2.1

lemma KernelInv.trampoline (h : KernelInv img k) (hen : enabled img k .trampoline = true) :
    ∃ k', taskEntryTrampoline k = .ok k' ∧ StackInv img k' := by
  simp only [enabled, Bool.and_eq_true, beq_iff_eq] at hen
  obtain ⟨hex, hpc⟩ := hen
  have hm : k.mode = .thread := (executing_of_executes hex).1
  rcases h.point hex (by rw [hpc]; exact (points_apart img).2.1) with
    ⟨-, -, -, hpc'⟩ | ⟨hact, -, harg⟩
  · have hp := img.points
    simp only [List.nodup_cons, List.mem_cons, not_or] at hp
    exact absurd (hpc.symm.trans hpc') hp.1.2.1
  · obtain ⟨hx, -, -, hth⟩ := h.stack.thread hm
    obtain ⟨-, hclaim, hb, -⟩ := hth hact
    have hlt := h.stack.current_lt hact
    have hcl := h.stack.claimed _ hlt hclaim
    have hg : ¬(k.currentTask = taskIdInvalid ∨ (k.schedules k.currentTask).state ≠ .running ∨
        (k.tasks k.currentTask).entry = 0 ∨
        (k.tasks k.currentTask).argument ≠ k.cpu.hw.r0) := by
      simp [ne_invalid_of_lt hlt, runs_of_executes h.control hact hex, hcl.entry_ne, harg]
    refine ⟨_, if_neg hg, ?_⟩
    exact
      { toParked := h.stack.toParked.congr rfl rfl rfl rfl fun _ _ _ _ _ _ _ => rfl
        spsel := h.stack.spsel
        current_lt := h.stack.current_lt
        live := fun _ => ⟨hclaim, by
          rw [if_pos hm]
          exact ⟨hb, hx, Or.inl hcl.entry⟩⟩
        boot := fun ha => absurd (hact.symm.trans ha) (by decide) }

/-! ### Creation -/

/-- A free slot is filled, or put back in its reset form. -/
lemma stack_filled (h : StackInv img k) (hm : k.mode = .thread) {i : ℕ} (hi : i ∈ userSlots)
    (hfree : (k.tasks i).stackClaimed = false) {t : Tcb}
    (hinit : k'.initialized = k.initialized) (htasks : k'.tasks = Function.update k.tasks i t)
    (hact : k'.hasActiveContext = k.hasActiveContext) (hcur : k'.currentTask = k.currentTask)
    (hmode : k'.mode = k.mode) (hrun : k'.running = k.running)
    (hcpu : k'.cpu = { k.cpu with pendsv := k'.cpu.pendsv })
    (hram : ∀ x, x < stackLow img i ∨ stackLow img i + maxStackSize ≤ x → k'.ram x = k.ram x)
    (hsched : ∀ j, j ≠ i → k'.schedules j = k.schedules j)
    (ht : t.stackClaimed = true →
      Claimed img t i ∧ Stacked img t False k'.ram (t.savedPsp + 32))
    (hpend : k.hasActiveContext = false → k'.cpu.pendsv = k.cpu.pendsv) : StackInv img k' where
  initialized := hinit.trans h.initialized
  idle := by
    rw [htasks, Function.update_of_ne (userSlot_ne_idle hi)]
    exact h.idle
  claimed j hj := by
    rw [htasks]
    by_cases hji : j = i
    · subst hji
      simp only [Function.update_self]
      exact fun hc => (ht hc).1
    · rw [Function.update_of_ne hji]
      exact h.claimed j hj
  saved j hj := by
    rw [htasks, hact, hcur]
    by_cases hji : j = i
    · subst hji
      simp only [Function.update_self]
      exact fun hc _ => (ht hc).2
    · rw [Function.update_of_ne hji]
      intro hc hn
      have hst := h.saved j hj hc hn
      have hcl := h.claimed j hj hc
      have := hst.low
      have := hst.frame_high
      have := hcl.low
      have := hcl.high
      refine hst.congr fun x h1 h2 => hram x ?_
      unfold stackLow maxStackSize at *
      omega
  spsel := by rw [hcpu, hact]; exact h.spsel
  current_lt ha := by rw [hcur]; exact h.current_lt (hact ▸ ha)
  live ha := by
    obtain ⟨hc, hl⟩ := h.live (hact ▸ ha)
    have hne : k.currentTask ≠ i := fun heq => by
      rw [heq, hfree] at hc
      cases hc
    rw [if_pos hm] at hl
    rw [Live, if_pos (hmode.trans hm), hcur, htasks, Function.update_of_ne hne, hsched _ hne, hcpu]
    exact ⟨hc, hl⟩
  boot ha := by
    have hb := h.boot (hact ▸ ha)
    have hp := hpend (hact ▸ ha)
    refine ⟨fun _ => ?_, ?_⟩
    · rw [hcpu]
      exact hb.thread hm
    · rw [hrun, hmode, hcpu, hp]
      exact hb.phase

/-- The exception frame among the words of `build_initial_frame`. -/
lemma load_initial (ram : Ram) (frame argument : ℕ) :
    HwFrame.load (writeWords ram frame (initialFrame img argument)) (frame + 32) =
      ⟨argument, 0, 0, 0, 0, img.taskReturnGuard, img.taskEntryTrampoline, xpsrThumb⟩ := by
  simp only [HwFrame.load, initialFrame, writeWords, Function.update_apply, HwFrame.mk.injEq]
  simp
  refine ⟨fun hx => absurd hx (by omega), fun hx => absurd hx (by omega),
    fun hx => absurd hx (by omega)⟩

/-- The context a task is created with. -/
lemma stacked_initial {t : Tcb} (ram : Ram) {i size : ℕ} (hlow : t.stackLow = stackLow img i)
    (hhigh : t.stackHigh = stackLow img i + size) (hsize : minStackSize ≤ size) (h8 : size % 8 = 0) :
    Stacked img t False (writeWords ram (stackLow img i + size - initialFrameBytes)
      (initialFrame img t.argument)) (stackLow img i + size - initialFrameBytes + 32) := by
  have hbase := img.stacks_aligned
  obtain ⟨frame, hframe⟩ : ∃ frame, frame = stackLow img i + size - initialFrameBytes := ⟨_, rfl⟩
  have hpop : popFrame (writeWords ram frame (initialFrame img t.argument)) (frame + 32) =
      (⟨t.argument, 0, 0, 0, 0, img.taskReturnGuard, img.taskEntryTrampoline, xpsrThumb⟩,
        frame + 64) := by
    simp only [popFrame, load_initial]
    rw [if_neg (by decide)]
  rw [← hframe]
  unfold minStackSize at hsize
  unfold initialFrameBytes initialFrameWords at hframe
  refine ⟨?_, ?_, ?_, ?_⟩
  · unfold stackLow maxStackSize at hframe
    omega
  · rw [hlow]
    omega
  · rw [hpop, hhigh]
    simp only
    omega
  · rw [hpop]
    exact ⟨show threadXpsr xpsrThumb = true by decide, Or.inr (Or.inl ⟨rfl, rfl⟩)⟩

/-- A creation that succeeds, from the kernel with the slot filled. -/
lemma created_untouched (p : KernelState) (i : ℕ) :
    Untouched p (created p i) ∧ (created p i).schedules = p.schedules := by
  rw [created]
  split <;> exact ⟨⟨rfl, rfl, rfl, rfl, rfl, rfl, rfl, rfl, rfl⟩, rfl⟩

/-- Where a creation is not refused, the checks of the kernel hold. -/
lemma verified_of_caller (hc : ControlInv (ctl k))
    (hcaller : k.running = true → callerIsRunningTask k = true) : Verified k := by
  have hruns : ∀ i < osTaskCount, (k.schedules i).state = .running → i = k.currentTask := hc.runs
  rw [Verified, runningTasks_eq_nil, runningTasks_eq_singleton]
  refine ⟨fun hr i hi hs => ?_, fun hr _ => ?_⟩
  · have hlt : k.currentTask < osTaskCount := hruns i hi hs ▸ hi
    have hact : k.hasActiveContext = true := hc.active.mpr (ne_invalid_of_lt hlt)
    exact absurd ((hc.started hact).symm.trans hr) (by decide)
  · obtain ⟨-, hlt, hs, -⟩ := callerIsRunningTask_iff.mp (hcaller hr)
    exact ⟨hlt, hs, hruns⟩

/-- Filling a free slot starts no task. -/
lemma created_verified (h : Verified k) {config : TaskConfig} {i : ℕ} {t : SchedTask}
    (hd : (k.schedules i).state = .dormant) (ht : t.state ≠ .running) :
    Verified (created (placed img k config i t) i) := by
  obtain ⟨u, hsched⟩ := created_untouched (placed img k config i t) i
  have hcur : (created (placed img k config i t) i).currentTask = k.currentTask := u.current
  have hrun : (created (placed img k config i t) i).running = k.running := u.running
  have hact : (created (placed img k config i t) i).hasActiveContext = k.hasActiveContext := u.active
  have hold : ∀ j, ((placed img k config i t).schedules j).state = .running ↔
      (k.schedules j).state = .running := by
    intro j
    by_cases hji : j = i
    · subst hji
      simp [placed, ht, hd]
    · simp [placed, hji]
  rw [Verified, runningTasks_eq_nil, runningTasks_eq_singleton] at h ⊢
  rw [hsched, hcur, hrun, hact]
  simp only [hold, ne_eq]
  exact h

lemma stack_created (h : StackInv img k) (hm : k.mode = .thread) {config : TaskConfig} {i : ℕ}
    {t : SchedTask} (hi : i ∈ userSlots) (hfree : (k.tasks i).stackClaimed = false)
    (hpos : config.entry ≠ 0) (huser : isUserPc img config.entry = true)
    (hmin : minStackSize ≤ config.stackSize) (hmax : config.stackSize ≤ maxStackSize)
    (h8 : config.stackSize % 8 = 0) (hrun : k.hasActiveContext = false → k.running = false) :
    StackInv img (Services.created (placed img k config i t) i) := by
  obtain ⟨u, hsched⟩ := created_untouched (placed img k config i t) i
  have hbase := img.stacks_aligned
  refine stack_filled h hm hi hfree u.initialized u.tasks u.active u.current u.mode u.running u.cpu
    (fun x hx => ?_) (fun j hj => ?_) (fun _ => ⟨⟨rfl, ?_, ?_, ?_, huser, hpos⟩, ?_⟩) (fun hact => ?_)
  · rw [u.ram]
    refine writeWords_apply ?_
    simp only [initialFrame, List.length_cons, List.length_nil]
    unfold minStackSize maxStackSize initialFrameBytes initialFrameWords at *
    omega
  · rw [hsched]
    exact Function.update_of_ne hj _ _
  · change stackLow img i + minStackSize ≤ stackLow img i + config.stackSize
    omega
  · change stackLow img i + config.stackSize ≤ stackLow img i + maxStackSize
    omega
  · change (stackLow img i + config.stackSize) % 8 = 0
    unfold stackLow maxStackSize
    omega
  · rw [u.ram]
    exact stacked_initial (t := ⟨config.entry, config.argument, _, stackLow img i,
      stackLow img i + config.stackSize, true, (k.tasks i).started⟩) k.ram rfl rfl hmin h8
  · have hno : createPreempts (placed img k config i t) i = false := by
      rw [createPreempts, show (placed img k config i t).running = false from hrun hact]
      rfl
    rw [Services.created, hno]
    rfl

lemma KernelInv.create (h : KernelInv img k) {config : TaskConfig}
    (hen : enabled img k (.create config) = true) :
    ∃ k', exec img k (.create config) = .ok k' ∧ StackInv img k' := by
  simp only [enabled, Bool.and_eq_true, Bool.or_eq_true, beq_iff_eq] at hen
  obtain ⟨hat, hentry⟩ := hen
  obtain ⟨hm, -, hcase⟩ := h.user hat
  have hexec : ∀ r, osTaskCreate img k config = .ok r → exec img k (.create config) = .ok r.1 :=
    fun r hr => map_eq_ok.mpr ⟨r, hr, rfl⟩
  have heq := osTaskCreate_eq img (ControlInv.wellIndexed h.control) config
  split at heq
  · exact ⟨k, hexec _ heq, h.stack⟩
  · next href =>
    rw [Bool.not_eq_true, createRefused_eq_false] at href
    obtain ⟨-, hpos, hmin, hmax, h8, -, -, hcaller⟩ := href
    split at heq
    · exact ⟨k, hexec _ heq, h.stack⟩
    · next i hslot =>
      obtain ⟨h1, hlt, hd, hfree⟩ := freeSlot_some hslot
      have hi := mem_userSlots.mpr ⟨h1, hlt⟩
      split at heq
      · refine ⟨_, hexec _ heq, stack_filled h.stack hm hi hfree (t := Tcb.zero) rfl ?_ rfl rfl rfl
          rfl rfl (fun _ _ => rfl) (fun j hj => Function.update_of_ne hj _ _) (fun hc => by cases hc)
          fun _ => rfl⟩
        simp [resetTask, claimSlot, Kernel.setTask, setSchedule]
      · next t hconf =>
        have ht : t.state ≠ .running := by
          rcases configured_state hconf with hst | hst <;> simp [hst]
        have hver : Verified (created (placed img k config i t) i) :=
          created_verified (verified_of_caller h.control fun hr => (hcaller hr).1) hd ht
        have hcheck : verifyState (created (placed img k config i t) i) "CREATE" = .ok () :=
          verifyState_eq_ok.mpr hver
        rw [hcheck, ok_bind] at heq
        refine ⟨_, hexec _ heq, stack_created h.stack hm hi hfree hpos (hentry.resolve_left hpos) hmin hmax
          h8 fun hact => ?_⟩
        rcases hcase with ⟨ha, -⟩ | ⟨-, hrun, -⟩
        · exact absurd (ha.symm.trans hact) (by decide)
        · exact hrun

/-! ### Other thread instructions -/

/-- A step that leaves the processor and the stacks alone. -/
lemma stack_kept (h : StackInv img k) (htasks : k'.tasks = k.tasks) (hram : k'.ram = k.ram)
    (hsched : k'.schedules = k.schedules) (hinit : k'.initialized = k.initialized)
    (hact : k'.hasActiveContext = k.hasActiveContext) (hcur : k'.currentTask = k.currentTask)
    (hrun : k'.running = k.running) (hmode : k'.mode = k.mode) (hcpu : k'.cpu = k.cpu) :
    StackInv img k' where
  toParked := h.toParked.congr hinit htasks hact hcur fun _ _ _ _ x _ _ => congrFun hram x
  spsel := by rw [hcpu, hact]; exact h.spsel
  current_lt ha := by rw [hcur]; exact h.current_lt (hact ▸ ha)
  live ha := by
    have hl := h.live (hact ▸ ha)
    rw [Live, htasks, hcur, hsched, hram, hmode, hcpu]
    exact hl
  boot ha := by
    have hb := h.boot (hact ▸ ha)
    refine ⟨fun hm => ?_, ?_⟩
    · rw [hcpu]
      exact hb.thread (hmode ▸ hm)
    · rw [hrun, hmode, hcpu]
      exact hb.phase

lemma KernelInv.compute (h : KernelInv img k) {callee : Callee} {hw : HwFrame} {psp : ℕ}
    (hen : enabled img k (.compute callee hw psp) = true) :
    StackInv img { k with cpu := { k.cpu with callee := callee, hw := hw, psp := psp } } := by
  simp only [enabled, Bool.and_eq_true] at hen
  obtain ⟨⟨⟨hat, hpc⟩, hx⟩, hpsp⟩ := hen
  obtain ⟨hm, -, hcase⟩ := h.user hat
  exact
    { toParked := h.stack.toParked.congr rfl rfl rfl rfl fun _ _ _ _ _ _ _ => rfl
      spsel := h.stack.spsel
      current_lt := h.stack.current_lt
      live := fun hact => by
        have hact : k.hasActiveContext = true := hact
        rw [h.stack.spsel, hact, if_pos rfl] at hpsp
        refine ⟨(h.stack.live hact).1, ?_⟩
        rw [if_pos hm]
        exact ⟨pspInBounds_iff.mp hpsp, hx, Or.inl hpc⟩
      boot := fun hact => by
        rcases hcase with ⟨ha, -⟩ | ⟨-, hrun, hpend⟩
        · exact absurd (ha.symm.trans hact) (by decide)
        · exact ⟨fun _ => hx, Or.inl ⟨hrun, hm, hpend, hpc⟩⟩ }

lemma KernelInv.stackWrite (h : KernelInv img k) {addr value : ℕ}
    (hen : enabled img k (.stackWrite addr value) = true) :
    StackInv img { k with ram := Function.update k.ram addr value } := by
  simp only [enabled, Bool.and_eq_true, beq_iff_eq, decide_eq_true_eq] at hen
  obtain ⟨⟨⟨⟨hat, hspsel⟩, -⟩, hlow⟩, hhigh⟩ := hen
  obtain ⟨hm, -, -⟩ := h.user hat
  have hact : k.hasActiveContext = true := h.stack.spsel ▸ hspsel
  have hlt := h.stack.current_lt hact
  obtain ⟨hclaim, hl⟩ := h.stack.live hact
  have hcl := h.stack.claimed _ hlt hclaim
  rw [if_pos hm] at hl
  exact
    { toParked := h.stack.toParked.congr rfl rfl rfl rfl fun i hi hci hn x h1 h2 => by
        refine Function.update_of_ne (fun heq => ?_) _ _
        have hne : k.currentTask ≠ i := fun hx => hn ⟨hact, hx.symm⟩
        rcases hcl.apart hci hne h1 h2 with hx | hx <;> omega
      spsel := h.stack.spsel
      current_lt := h.stack.current_lt
      live := fun _ => ⟨hclaim, by rw [if_pos hm]; exact hl⟩
      boot := fun ha => absurd (hact.symm.trans ha) (by decide) }

lemma KernelInv.primask (h : KernelInv img k) {masked : Bool} (hat : atUser img k = true) :
    StackInv img { k with cpu := { k.cpu with primask := masked } } := by
  obtain ⟨hm, hpc, hcase⟩ := h.user hat
  exact
    { toParked := h.stack.toParked.congr rfl rfl rfl rfl fun _ _ _ _ _ _ _ => rfl
      spsel := h.stack.spsel
      current_lt := h.stack.current_lt
      live := h.stack.live
      boot := fun hact => by
        rcases hcase with ⟨ha, -⟩ | ⟨-, hrun, hpend⟩
        · exact absurd (ha.symm.trans hact) (by decide)
        · exact ⟨(h.stack.boot hact).thread, Or.inl ⟨hrun, hm, hpend, hpc⟩⟩ }

/-! ### Memory calls -/

lemma KernelInv.alloc (h : KernelInv img k) (size : ℕ) :
    ∃ k', exec img k (.alloc size) = .ok k' ∧ StackInv img k' := by
  have hexec : ∀ r, osMemoryAlloc img k size = .ok r → exec img k (.alloc size) = .ok r.1 :=
    fun r hr => map_eq_ok.mpr ⟨r, hr, rfl⟩
  have heq := osMemoryAlloc_eq img k size
  split at heq
  · next hvalid =>
    obtain ⟨bs, hi, -⟩ := h.heap
    obtain ⟨heap, r, hrun⟩ :=
      HeapCalls.alloc_returns hi size (owner_le (memoryCallValid.slot hvalid).1)
    rw [hrun] at heq
    exact ⟨_, hexec _ heq, stack_kept h.stack rfl rfl rfl rfl rfl rfl rfl rfl rfl⟩
  · exact ⟨k, hexec _ heq, h.stack⟩

lemma KernelInv.free (h : KernelInv img k) (pointer : ℕ) :
    ∃ k', exec img k (.free pointer) = .ok k' ∧ StackInv img k' := by
  have hexec : ∀ r, osMemoryFree img k pointer = .ok r → exec img k (.free pointer) = .ok r.1 :=
    fun r hr => map_eq_ok.mpr ⟨r, hr, rfl⟩
  have heq := osMemoryFree_eq img k pointer
  split at heq
  · obtain ⟨bs, hi, -⟩ := h.heap
    obtain ⟨heap, r, hrun⟩ := HeapCalls.free_returns hi pointer k.currentTask
    rw [hrun] at heq
    exact ⟨_, hexec _ heq, stack_kept h.stack rfl rfl rfl rfl rfl rfl rfl rfl rfl⟩
  · exact ⟨k, hexec _ heq, h.stack⟩

/-! ### Steps that do not stop -/

/-- A supervisor call that does not stop. -/
lemma KernelInv.supervised (h : KernelInv img k) (hm : k.mode = .thread) {service r0 : ℕ}
    (hn : service < 5) (hk' : supervisorCall img k service r0 = .ok k') :
    Returned img k k' { k.cpu.hw with r0 := r0, pc := img.svcReturn service } ∧
      ∃ k₁, runService (svcEntry img k service r0) service (excReturn k) r0 = .ok k₁ ∧
        k'.schedules = k₁.schedules := by
  obtain ⟨hmask, -, k₁, hrun, -⟩ := (supervisorCall_eq_ok img hn).mp hk'
  obtain ⟨k'', hk'', hret, hsched, -⟩ := supervisorCall_returns h.stack hm hmask hn hrun
  obtain rfl : k' = k'' := Except.ok.inj (hk'.symm.trans hk'')
  exact ⟨hret, k₁, hrun, hsched⟩

/-- The services that tasks call. -/
lemma KernelInv.served (h : KernelInv img k) (hm : k.mode = .thread) {service r0 : ℕ}
    (hn : service = 1 ∨ service = 2 ∨ service = 3 ∨ service = 4)
    (hk' : supervisorCall img k service r0 = .ok k') : StackInv img k' := by
  obtain ⟨hret, k₁, hrun, hsched⟩ := h.supervised hm (by omega) hk'
  have hfrom : svcFromTask (svcEntry img k service r0) (excReturn k) = true := by
    rcases hn with rfl | rfl | rfl | rfl
    · exact (osSvcYield_eq_ok.mp hrun).1
    · exact (osSvcSleep_eq_ok.mp hrun).1
    · exact (osSvcExit_eq_ok.mp hrun).1
    · exact (osSvcWaitNextPeriod_eq_ok.mp hrun).1
  have hact : k.hasActiveContext = true := by
    have hexc := (svcFromTask_iff.mp hfrom).1
    rw [← h.stack.spsel, ← Bool.not_eq_false]
    intro hspsel
    rw [excReturn, hspsel] at hexc
    cases hexc
  refine hret.stackInv h.stack hm (fun _ => ⟨(h.stack.thread hm).1, ?_⟩)
    fun hf => absurd (hact.symm.trans hf) (by decide)
  rcases hn with rfl | rfl | rfl | rfl
  · exact Or.inl (svcReturn_user (Or.inl rfl))
  · exact Or.inl (svcReturn_user (Or.inr (Or.inl rfl)))
  · refine Or.inr (Or.inr ⟨?_, rfl⟩)
    rw [hsched, (osSvcExit_eq_ok.mp hrun).2.2.2.2.2]
    simp [exited, svcEntry]
  · exact Or.inl (svcReturn_user (Or.inr (Or.inr rfl)))

/-- **A step that does not stop** keeps the stacks, if it does not start the kernel with interrupts
masked. -/
lemma KernelInv.stack_step (h : KernelInv img k) (hstart : l = .kernelStart → k.cpu.primask = false)
    (hs : Step img k l k') : StackInv img k' := by
  obtain ⟨hen, hexec⟩ := hs
  have hsame : (∃ k'', exec img k l = .ok k'' ∧ StackInv img k'') → StackInv img k' := by
    rintro ⟨k'', hk'', hstack⟩
    obtain rfl : k' = k'' := Except.ok.inj (hexec.symm.trans hk'')
    exact hstack
  have hcalled : k.mode = .thread → Relinquishes l → StackInv img k' := fun hm hl => by
    rcases relinquish_cases img hl hexec with rfl | ⟨service, r0, hn, hcall⟩
    · exact h.stack
    · exact h.served hm hn hcall
  cases l with
  | tick => exact h.ticked ⟨hen, hexec⟩
  | pendEnter => exact hsame ⟨_, rfl, h.stack.pendsvEnter hen⟩
  | pendCommit => exact hsame (h.stack.commit h.control h.heap (by simpa [enabled] using hen))
  | pendReturn => exact hsame ⟨_, rfl, h.stack.pendsvReturn hen⟩
  | kernelStart =>
    obtain ⟨k₁, h₁, -⟩ := bind_eq_ok.mp hexec
    exact hsame (h.kernelStart hen (osKernelStart_eq_ok.mp h₁).2.1 (hstart rfl))
  | startSvc => exact hsame (h.startSvc hen)
  | trampoline => exact hsame (h.trampoline hen)
  | fallThrough =>
    simp only [exec, fallThrough] at hexec
    split at hexec
    · cases hexec
    split at hexec <;> cases hexec
  | create config => exact hsame (h.create hen)
  | yield => exact hcalled (h.user hen).1 (Or.inl rfl)
  | sleep ticks => exact hcalled (h.user hen).1 (Or.inr (Or.inl ⟨ticks, rfl⟩))
  | waitNextPeriod => exact hcalled (h.user hen).1 (Or.inr (Or.inr (Or.inl rfl)))
  | taskExit => exact hcalled (h.user hen).1 (Or.inr (Or.inr (Or.inr rfl)))
  | alloc size => exact hsame (h.alloc size)
  | free pointer => exact hsame (h.free pointer)
  | compute callee hw psp => exact hsame ⟨_, rfl, h.compute hen⟩
  | stackWrite addr value => exact hsame ⟨_, rfl, h.stackWrite hen⟩
  | heapWrite addr value =>
    exact hsame ⟨_, rfl, stack_kept h.stack rfl rfl rfl rfl rfl rfl rfl rfl rfl⟩
  | primask masked => exact hsame ⟨_, rfl, h.primask hen⟩

/-- **A step that does not stop** keeps the kernel's invariant. -/
theorem KernelInv.step (h : KernelInv img k) (hstart : l = .kernelStart → k.cpu.primask = false)
    (hs : Step img k l k') : KernelInv img k' := by
  obtain ⟨bs, hctl, -⟩ := control_step img (ControlInv.wellIndexed h.control) hs
  exact ⟨h.control.step hctl, h.heap.step h.control hs, h.stack_step hstart hs⟩

/-! ### Every step -/

/-- **No step of a disciplined run stops.** -/
theorem SafeInv.progress (h : SafeInv img k) (hen : enabled img k l = true) (hd : Disciplined k l) :
    ∃ k', exec img k l = .ok k' ∧ StackInv img k' := by
  cases l with
  | tick => exact h.kernelInv.tick hen hd
  | pendEnter => exact ⟨_, rfl, h.stack.pendsvEnter hen⟩
  | pendCommit =>
    exact h.stack.commit h.control h.heap (by simpa [enabled] using hen)
  | pendReturn => exact ⟨_, rfl, h.stack.pendsvReturn hen⟩
  | kernelStart => exact h.kernelInv.kernelStart hen hd.1 hd.2
  | startSvc => exact h.kernelInv.startSvc hen
  | trampoline => exact h.kernelInv.trampoline hen
  | fallThrough =>
    -- no thread gets to one of these points
    simp only [enabled, Bool.and_eq_true, List.contains_eq_mem, decide_eq_true_eq, List.mem_cons,
      List.not_mem_nil, or_false] at hen
    obtain ⟨hex, hpc⟩ := hen
    obtain ⟨-, -, h0, h3, hguard, -⟩ := points_apart img
    have hp := img.points
    simp only [List.nodup_cons, List.mem_cons, List.not_mem_nil, or_false, not_or] at hp
    have hno : isUserPc img k.cpu.hw.pc = false := by
      rcases hpc with hpc | hpc | hpc <;> rw [hpc] <;> assumption
    rcases h.kernelInv.point hex hno with ⟨-, -, -, hpc'⟩ | ⟨-, hpc', -⟩ <;> rw [hpc'] at hpc <;> tauto
  | create config => exact h.kernelInv.create hen
  | yield => exact h.kernelInv.yield hen hd.1 hd.2
  | sleep ticks => exact h.sleep hen hd.1 hd.2
  | waitNextPeriod => exact h.kernelInv.waitNextPeriod hen hd.1 hd.2
  | taskExit => exact h.kernelInv.taskExit hen hd.1 hd.2
  | alloc size => exact h.kernelInv.alloc size
  | free pointer => exact h.kernelInv.free pointer
  | compute callee hw psp => exact ⟨_, rfl, h.kernelInv.compute hen⟩
  | stackWrite addr value => exact ⟨_, rfl, h.kernelInv.stackWrite hen⟩
  | heapWrite addr value =>
    exact ⟨_, rfl, stack_kept h.stack rfl rfl rfl rfl rfl rfl rfl rfl rfl⟩
  | primask masked => exact ⟨_, rfl, h.kernelInv.primask hen⟩

/-- **The invariant is kept.** -/
theorem SafeInv.step (h : SafeInv img k) (hd : Disciplined k l) (hs : Step img k l k') :
    SafeInv img k' := by
  obtain ⟨bs, hctl, -⟩ := control_step img (ControlInv.wellIndexed h.control) hs
  have hinv := h.kernelInv.step (fun hl => by subst hl; exact hd.2) hs
  refine ⟨hinv.control, hinv.heap, hinv.stack, ?_⟩
  rcases hctl.clock with hc | ⟨rfl, hc⟩
  · exact lt_of_eq_of_lt hc h.clock
  · exact lt_of_eq_of_lt hc hd

lemma booted_stack (m : ByteMem.Mem) (ram : Ram) {pc : ℕ} (hpc : isUserPc img pc = true) :
    StackInv img (booted img m ram pc) where
  initialized := rfl
  idle := by simp [booted, idleTcb]
  claimed i hi hc := by
    by_cases hidle : i = taskIdIdle
    · subst hidle
      have halign := img.stacks_aligned
      simp only [booted, Function.update_self, idleTcb]
      refine ⟨rfl, ?_, le_rfl, ?_, (points_apart img).2.2.2.2.2, Nat.pos_iff_ne_zero.mp img.idle_pos⟩
      · exact Nat.add_le_add_left (by decide) _
      · unfold stackLow maxStackSize
        simp only
        omega
    · simp [booted, hidle, Tcb.zero] at hc
  saved i hi hc _ := by
    by_cases hidle : i = taskIdIdle
    · subst hidle
      simp only [booted, Function.update_self]
      exact stacked_initial (t := idleTcb img) ram rfl rfl (by decide) (by decide)
    · simp [booted, hidle, Tcb.zero] at hc
  spsel := rfl
  current_lt h := by cases h
  live h := by cases h
  boot _ := ⟨fun _ => show threadXpsr xpsrThumb = true by decide, Or.inl ⟨rfl, rfl, rfl, hpc⟩⟩

/-- **The invariant holds in every state a disciplined run reaches.** -/
theorem safeInv_of_reaches {labels : List Label} (h : Reaches img Disciplined labels k) :
    SafeInv img k := by
  refine h.induction (Q := fun _ k => SafeInv img k) (fun m ram pc hpc => ?_)
    fun labels k l k' _ ih hd hs => ih.step hd hs
  exact ⟨booted_inv img m ram pc, heapOwned_booted img m ram pc, booted_stack m ram hpc,
    show 0 < 2 ^ 63 by decide⟩

end Aymos.Safety
