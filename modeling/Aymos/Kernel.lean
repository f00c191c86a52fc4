import Aymos.Allocator
import Aymos.Trace
import Aymos.WordMem

/-!
The kernel of `kernel/src/kernel.c`.

`KernelState` holds the file's static variables, the trace ring, the memory of the task stacks and
the processor state the kernel depends on. A handler returns the kernel it leaves, or the
reason it panics with. `Image` holds what the linker settles.
-/

namespace Aymos.Kernel

open Words Allocator Scheduler Trace WordMem

def osTaskCount : ℕ := maxUserTasks + 1
def minStackSize : ℕ := 256
def maxStackSize : ℕ := 1024
def maxSleepTicks : ℕ := maxTimeInterval
def initialFrameWords : ℕ := 16
def initialFrameBytes : ℕ := initialFrameWords * 4
def xpsrThumb : ℕ := 2 ^ 24
def excReturnThreadMsp : ℕ := 0xFFFFFFF9
def excReturnThreadPsp : ℕ := 0xFFFFFFFD
def svcStart : ℕ := 0
def svcYield : ℕ := 1
def svcSleep : ℕ := 2
def svcExit : ℕ := 3
def svcWaitNextPeriod : ℕ := 4
def switchStart : ℕ := 1
def switchYield : ℕ := 2
def switchSleep : ℕ := 3
def switchExit : ℕ := 4
def switchWaitPeriod : ℕ := 5
def switchSystickPreempt : ℕ := 6
def switchRuntimeCreate : ℕ := 7
def switchCoalescedPreempt : ℕ := 8
def preemptSourceSystick : ℕ := 1
def preemptSourceRuntimeCreate : ℕ := 2
def flashStart : ℕ := 0x08000000
def flashEnd : ℕ := 0x08080000

/-- Why the kernel does not return: a panic with its reason, or a loop without end. -/
inductive Stop
  | panic (reason : String)
  | diverges
  deriving DecidableEq, Repr

/-- The linked image: where its sections and its code lie. -/
structure Image where
  stacksBase : ℕ
  heapStart : ℕ
  heapEnd : ℕ
  mspLimit : ℕ
  mspTop : ℕ
  /-- The main stack pointer of the thread that starts the kernel. -/
  bootMsp : ℕ
  taskEntryTrampoline : ℕ
  taskReturnGuard : ℕ
  idleEntry : ℕ
  /-- The address after the `svc` instruction of each service. -/
  svcReturn : ℕ → ℕ
  /-- The halfword at an address in flash. -/
  opcode : ℕ → ℕ
  stacks_pos : 0 < stacksBase
  stacks_aligned : stacksBase % 8 = 0
  stacks_below : stacksBase + osTaskCount * maxStackSize ≤ heapStart
  heap_aligned : heapStart % 8 = 0 ∧ heapEnd % 8 = 0
  heap_room : heapStart + Target.headerSize .arm32 + 8 ≤ heapEnd
  heap_below : heapEnd ≤ mspLimit
  boot_room : mspLimit + 40 ≤ bootMsp
  boot_aligned : bootMsp % 4 = 0
  boot_below : bootMsp ≤ mspTop
  top_fits : mspTop < Target.modulus .arm32
  svc_even : ∀ n < 5, svcReturn n % 2 = 0
  svc_flash : ∀ n < 5, flashStart + 2 ≤ svcReturn n ∧ svcReturn n < flashEnd
  svc_opcode : ∀ n < 5, opcode (svcReturn n - 2) = 0xDF00 + n
  /-- The points of the kernel's own code in thread mode are told apart from each other and
  from the returns of the other services. -/
  points : [taskEntryTrampoline, taskReturnGuard, svcReturn 0 - 2, svcReturn 0, svcReturn 3,
    svcReturn 1, svcReturn 2, svcReturn 4, idleEntry].Nodup
  idle_pos : 0 < idleEntry

/-- `os_tcb_t`. -/
structure Tcb where
  entry : ℕ
  argument : ℕ
  savedPsp : ℕ
  stackLow : ℕ
  stackHigh : ℕ
  stackClaimed : Bool
  started : Bool
  deriving DecidableEq, Repr

def Tcb.zero : Tcb := ⟨0, 0, 0, 0, 0, false, false⟩

/-- `os_task_config_t`. -/
structure TaskConfig where
  entry : ℕ
  argument : ℕ
  stackSize : ℕ
  timing : TaskTimingConfig
  deriving DecidableEq, Repr

/-- The registers `PendSV_Handler` saves. -/
structure Callee where
  r4 : ℕ
  r5 : ℕ
  r6 : ℕ
  r7 : ℕ
  r8 : ℕ
  r9 : ℕ
  r10 : ℕ
  r11 : ℕ
  deriving DecidableEq, Repr

def Callee.words (c : Callee) : List ℕ := [c.r4, c.r5, c.r6, c.r7, c.r8, c.r9, c.r10, c.r11]

def Callee.load (m : Ram) (a : ℕ) : Callee :=
  ⟨m a, m (a + 4), m (a + 8), m (a + 12), m (a + 16), m (a + 20), m (a + 24), m (a + 28)⟩

/-- The registers the processor saves on exception entry. -/
structure HwFrame where
  r0 : ℕ
  r1 : ℕ
  r2 : ℕ
  r3 : ℕ
  r12 : ℕ
  lr : ℕ
  pc : ℕ
  xpsr : ℕ
  deriving DecidableEq, Repr

def HwFrame.words (f : HwFrame) : List ℕ := [f.r0, f.r1, f.r2, f.r3, f.r12, f.lr, f.pc, f.xpsr]

def HwFrame.load (m : Ram) (a : ℕ) : HwFrame :=
  ⟨m a, m (a + 4), m (a + 8), m (a + 12), m (a + 16), m (a + 20), m (a + 24), m (a + 28)⟩

/-- The processor: interrupt mask, the PendSV pending bit, the stack pointer thread mode
uses, and the registers of the interrupted or running thread. -/
structure Cpu where
  primask : Bool
  pendsv : Bool
  spsel : Bool
  psp : ℕ
  callee : Callee
  hw : HwFrame
  deriving DecidableEq, Repr

/-- What the processor executes: a thread, `PendSV_Handler` before its `cpsid i`, or
`PendSV_Handler` after its `msr primask`. -/
inductive Mode
  | thread
  | pendsvEntry
  | pendsvExit
  deriving DecidableEq, Repr

structure KernelState where
  tasks : ℕ → Tcb
  schedules : ℕ → SchedTask
  currentTask : ℕ
  yieldExcludedTask : ℕ
  pendingSwitchCause : ℕ
  pendingPreemptSources : ℕ
  monotonicTicks : ℕ
  reclaimCounter : ℕ
  lastReclaimed : ℕ
  memoryAllocator : Heap
  initialized : Bool
  running : Bool
  /-- `os_arch_has_active_context`. -/
  hasActiveContext : Bool
  traceRing : TraceRing
  ram : Ram
  cpu : Cpu
  mode : Mode

variable (img : Image)

/-! ### Helpers -/

def traceTask (id : ℕ) : ℕ := if id = taskIdInvalid then traceTaskInvalid else id

def traceEmit (k : KernelState) (event : TraceEvent) (task related value0 value1 value2 : ℕ) :
    KernelState :=
  { k with traceRing :=
      osTraceEmit k.traceRing k.monotonicTicks event task related value0 value1 value2 }

def traceEmitSelection (k : KernelState) (selected incumbent excluded : ℕ) (purpose : SelectPurpose) :
    KernelState :=
  let ring := osTraceEmitSelection k.traceRing k.monotonicTicks k.schedules osTaskCount selected
    incumbent excluded purpose
  { k with traceRing := ring }

def traceDeadline (k : KernelState) (event : TraceEvent) (id : ℕ) : KernelState :=
  let deadline := (k.schedules id).absoluteDeadlineOrder
  traceEmit k event id traceTaskInvalid (u32 deadline) (u32 (deadline / 2 ^ 32))
    (k.schedules id).jobSequence

def tracePointerOffset (pointer : ℕ) : ℕ :=
  if pointer = 0 then uint32Max
  else if pointer < img.heapStart ∨ pointer ≥ img.heapEnd then uint32Max
  else u32 (pointer - img.heapStart)

def setSchedule (k : KernelState) (id : ℕ) (task : SchedTask) : KernelState :=
  { k with schedules := Function.update k.schedules id task }

def setTask (k : KernelState) (id : ℕ) (task : Tcb) : KernelState :=
  { k with tasks := Function.update k.tasks id task }

def resetTask (k : KernelState) (id : ℕ) : KernelState :=
  setSchedule (setTask k id Tcb.zero) id (osSchedTaskReset id)

def transitionTask (k : KernelState) (id : ℕ) (expected next : TaskState) (reason : String) :
    Except Stop KernelState :=
  if id ≥ osTaskCount ∨ !(osSchedTransition (k.schedules id) expected next).2 then
    .error (.panic reason)
  else .ok (setSchedule k id (osSchedTransition (k.schedules id) expected next).1)

/-- The sixteen words of the frame a task starts from. -/
def initialFrame (argument : ℕ) : List ℕ :=
  [0, 0, 0, 0, 0, 0, 0, 0, argument, 0, 0, 0, 0, img.taskReturnGuard, img.taskEntryTrampoline,
    xpsrThumb]

def buildInitialFrame (k : KernelState) (id : ℕ) : Except Stop (KernelState × ℕ) :=
  let task := k.tasks id
  if task.stackLow = 0 ∨ task.stackHigh = 0 ∨ task.stackLow % 8 ≠ 0 ∨ task.stackHigh % 8 ≠ 0 ∨
      task.stackHigh - task.stackLow < initialFrameBytes then .error (.panic "STACK_LAYOUT")
  else
    let frame := task.stackHigh - initialFrameBytes
    .ok ({ k with ram := writeWords k.ram frame (initialFrame img task.argument) }, frame)

def requestPendsv (k : KernelState) : KernelState := { k with cpu := { k.cpu with pendsv := true } }

def runningTasks (k : KernelState) : List ℕ :=
  (List.range osTaskCount).filter fun id => (k.schedules id).state = .running

def verifyState (k : KernelState) (reason : String) : Except Stop Unit :=
  let runningCount := (runningTasks k).length
  let runningId := (runningTasks k).getLast?.getD taskIdInvalid
  if (!k.running ∧ runningCount ≠ 0) ∨
      (k.running ∧ k.hasActiveContext ∧ (runningCount ≠ 1 ∨ runningId ≠ k.currentTask)) then
    .error (.panic reason)
  else .ok ()

def callerIsRunningTask (k : KernelState) : Bool :=
  k.running && k.currentTask < osTaskCount && (k.schedules k.currentTask).state == .running &&
    k.hasActiveContext

def recordPreemptionRequest (k : KernelState) (source : ℕ) : Except Stop KernelState :=
  if source ≠ preemptSourceSystick ∧ source ≠ preemptSourceRuntimeCreate then
    .error (.panic "PREEMPT_SOURCE")
  else
    let sources := k.pendingPreemptSources ||| source
    let k := { k with pendingPreemptSources := sources }
    if sources = preemptSourceSystick then
      .ok { k with pendingSwitchCause := switchSystickPreempt }
    else if sources = preemptSourceRuntimeCreate then
      .ok { k with pendingSwitchCause := switchRuntimeCreate }
    else if sources = preemptSourceSystick ||| preemptSourceRuntimeCreate then
      .ok { k with pendingSwitchCause := switchCoalescedPreempt }
    else .error (.panic "PREEMPT_MASK")

def validSavedPsp (k : KernelState) (id psp : ℕ) : Bool :=
  let low := (k.tasks id).stackLow
  let high := (k.tasks id).stackHigh
  if id ≥ osTaskCount ∨ psp = 0 ∨ low = 0 ∨ high = 0 then false
  else high ≥ low && high - low ≥ initialFrameBytes && psp % 8 == 0 && low ≤ psp &&
    psp ≤ high - initialFrameBytes

/-! ### Initialisation and creation -/

/-- The statics at reset, over whatever the memory holds. -/
def powerOn (m : ByteMem.Mem) (ram : Ram) (pc : ℕ) : KernelState :=
  { tasks := fun _ => Tcb.zero
    schedules := fun _ => osSchedTaskReset 0
    currentTask := taskIdInvalid
    yieldExcludedTask := taskIdInvalid
    pendingSwitchCause := 0
    pendingPreemptSources := 0
    monotonicTicks := 0
    reclaimCounter := 0
    lastReclaimed := taskIdInvalid
    memoryAllocator := ⟨OsAllocator.zero, m⟩
    initialized := false
    running := false
    hasActiveContext := false
    traceRing := ⟨fun _ => TraceRecord.zero, 0, 0, 0, 0, 0, 0, 0, 0, 0, false, false⟩
    ram := ram
    cpu := ⟨false, false, false, 0, ⟨0, 0, 0, 0, 0, 0, 0, 0⟩, ⟨0, 0, 0, 0, 0, 0, pc, xpsrThumb⟩⟩
    mode := .thread }

def osKernelInit (k : KernelState) : Except Stop KernelState :=
  if k.initialized ∨ k.running then .ok k
  else do
    let k := (List.range osTaskCount).foldl resetTask k
    let k := setTask k taskIdIdle { k.tasks taskIdIdle with entry := img.idleEntry, argument := 0 }
    let k ← transitionTask k taskIdIdle .dormant .ready "IDLE_READY"
    let k := setTask k taskIdIdle { k.tasks taskIdIdle with
      stackClaimed := true
      stackLow := img.stacksBase + taskIdIdle * maxStackSize
      stackHigh := img.stacksBase + taskIdIdle * maxStackSize + maxStackSize }
    let (k, frame) ← buildInitialFrame img k taskIdIdle
    let k := setTask k taskIdIdle { k.tasks taskIdIdle with savedPsp := frame }
    let k := { k with
      monotonicTicks := 0
      reclaimCounter := 0
      lastReclaimed := taskIdInvalid
      currentTask := taskIdInvalid
      yieldExcludedTask := taskIdInvalid
      pendingSwitchCause := 0
      pendingPreemptSources := 0
      hasActiveContext := false }
    match osTraceRingInit traceCapacity with
    | none => .error (.panic "TRACE_INIT")
    | some ring =>
      let k := { k with traceRing := ring }
      if img.heapEnd ≤ img.heapStart then .error (.panic "HEAP_INIT")
      else
        let (heap, ok) := osAllocatorInit .arm32 k.memoryAllocator.mem img.heapStart
          (img.heapEnd - img.heapStart)
        if !ok then .error (.panic "HEAP_INIT")
        else
          let k := { k with memoryAllocator := heap, initialized := true }
          verifyState k "INIT"
          .ok k

/-- Whether `os_task_create` refuses before it looks for a slot. -/
def createRefused (k : KernelState) (config : TaskConfig) : Bool :=
  !k.initialized || config.entry == 0 || config.stackSize < minStackSize ||
    config.stackSize > maxStackSize || config.stackSize % 8 != 0 ||
    !osSchedConfigValid config.timing || k.mode != .thread ||
    (k.running && (!callerIsRunningTask k || k.currentTask == taskIdIdle))

/-- The first dormant user slot whose stack is not claimed. -/
def freeSlot (k : KernelState) : Option ℕ :=
  (List.range' 1 maxUserTasks).find? fun candidate =>
    (k.schedules candidate).state = .dormant && !(k.tasks candidate).stackClaimed

/-- The slot of a new task with its entry, argument and stack. -/
def claimSlot (k : KernelState) (id : ℕ) (config : TaskConfig) : KernelState :=
  setTask k id { k.tasks id with
    entry := config.entry
    argument := config.argument
    stackClaimed := true
    stackLow := img.stacksBase + id * maxStackSize
    stackHigh := img.stacksBase + id * maxStackSize + config.stackSize }

/-- The kernel and the identifier of the task created, if one was. -/
def osTaskCreate (k : KernelState) (config : TaskConfig) : Except Stop (KernelState × Option ℕ) :=
  if createRefused k config then .ok (k, none)
  else
    match freeSlot k with
    | none => .ok (k, none)
    | some id =>
      let k := claimSlot img k id config
      match osSchedTaskConfigure (k.schedules id) config.timing k.monotonicTicks with
      | (_, false) => .ok (resetTask k id, none)
      | (task, true) => do
        let k := setSchedule k id task
        let (k, frame) ← buildInitialFrame img k id
        let k := setTask k id { k.tasks id with savedPsp := frame }
        let creator := if k.running then k.currentTask else taskIdInvalid
        let k := traceEmit k .taskCreate id (traceTask creator) (k.schedules id).kind.code
          (k.schedules id).priority (k.schedules id).state.code
        let k := if (k.schedules id).state = .ready then traceDeadline k .taskRelease id else k
        let k ←
          if k.running ∧ (k.schedules id).state = .ready ∧
              osSchedOutranks (k.schedules id) (k.schedules k.currentTask) then do
            let k := traceEmitSelection k id k.currentTask taskIdInvalid .runtimeCreateProbe
            let k ← recordPreemptionRequest k preemptSourceRuntimeCreate
            .ok (requestPendsv k)
          else .ok k
        verifyState k "CREATE"
        .ok (k, some id)

/-- `os_kernel_start` up to its `svc`. -/
def osKernelStart (k : KernelState) : Except Stop KernelState :=
  if !k.initialized ∨ k.running then .error (.panic "START_STATE")
  else
    let k := { k with running := true, pendingSwitchCause := switchStart }
    .ok (traceEmit k .kernelStart traceTaskInvalid traceTaskInvalid 0 osTaskCount 0)

/-! ### Memory calls -/

/-- The kernel and the pointer returned. -/
def osMemoryAlloc (k : KernelState) (size : ℕ) : Except Stop (KernelState × ℕ) :=
  if k.mode ≠ .thread ∨ !callerIsRunningTask k ∨ k.currentTask = taskIdIdle then .ok (k, 0)
  else
    match osAllocatorAlloc .arm32 k.memoryAllocator size k.currentTask with
    | none => .error .diverges
    | some (heap, result) =>
      let k := { k with memoryAllocator := heap }
      .ok (traceEmit k .alloc k.currentTask traceTaskInvalid (u32 size)
        (tracePointerOffset img result) (if result ≠ 0 then 1 else 0), result)

/-- The kernel and the result. -/
def osMemoryFree (k : KernelState) (pointer : ℕ) : Except Stop (KernelState × Bool) :=
  if k.mode ≠ .thread ∨ !callerIsRunningTask k ∨ k.currentTask = taskIdIdle then .ok (k, false)
  else
    match osAllocatorFree .arm32 k.memoryAllocator pointer k.currentTask with
    | none => .error .diverges
    | some (heap, result) =>
      let k := { k with memoryAllocator := heap }
      .ok (traceEmit k .free k.currentTask traceTaskInvalid (tracePointerOffset img pointer) 1
        (if result then 1 else 0), result)

/-! ### Supervisor calls -/

def validSvcFrame (k : KernelState) (frame excReturn : ℕ) : Bool :=
  let frameEnd := (frame + 32) % Target.modulus .arm32
  if frame = 0 ∨ frame % 8 ≠ 0 ∨
      (excReturn ≠ excReturnThreadMsp ∧ excReturn ≠ excReturnThreadPsp) ∨ frameEnd < frame then
    false
  else if excReturn = excReturnThreadMsp then img.mspLimit ≤ frame && frameEnd ≤ img.mspTop
  else
    k.currentTask != taskIdInvalid && (k.tasks k.currentTask).stackLow ≤ frame &&
      frameEnd ≤ (k.tasks k.currentTask).stackHigh

def decodeSvc (k : KernelState) (frame excReturn : ℕ) : Except Stop ℕ :=
  let xpsr := k.ram (frame + 28)
  let returnPc := k.ram (frame + 24)
  if !validSvcFrame img k frame excReturn ∨ !xpsr.testBit 24 ∨ xpsr % 512 ≠ 0 then
    .error (.panic "SVC_FRAME")
  else if returnPc % 2 = 1 ∨ returnPc < flashStart + 2 ∨ returnPc ≥ flashEnd then
    .error (.panic "SVC_PC")
  else if img.opcode (returnPc - 2) / 256 ≠ 0xDF then .error (.panic "SVC_OPCODE")
  else .ok (img.opcode (returnPc - 2) % 256)

/-- The check the task services share. -/
def svcFromTask (k : KernelState) (excReturn : ℕ) : Bool :=
  excReturn == excReturnThreadPsp && k.currentTask != taskIdInvalid &&
    (k.schedules k.currentTask).state == .running

def osSvcStart (k : KernelState) (excReturn : ℕ) : Except Stop KernelState :=
  if excReturn ≠ excReturnThreadMsp ∨ k.currentTask ≠ taskIdInvalid ∨ k.hasActiveContext then
    .error (.panic "SVC_START")
  else .ok k

def osSvcYield (k : KernelState) (excReturn : ℕ) : Except Stop KernelState :=
  if !svcFromTask k excReturn then .error (.panic "SVC_YIELD")
  else do
    let k ← transitionTask k k.currentTask .running .ready "YIELD_READY"
    let k := { k with yieldExcludedTask := k.currentTask, pendingSwitchCause := switchYield }
    .ok (traceEmit k .taskYield k.currentTask traceTaskInvalid 0 0 0)

def osSvcSleep (k : KernelState) (excReturn sleepTicks : ℕ) : Except Stop KernelState :=
  if !svcFromTask k excReturn ∨ sleepTicks = 0 ∨ sleepTicks > maxSleepTicks then
    .error (.panic "SVC_SLEEP")
  else
    match osSchedSleep (k.schedules k.currentTask) k.monotonicTicks sleepTicks with
    | (_, false) => .error (.panic "TASK_SLEEP")
    | (task, true) =>
      let k := setSchedule k k.currentTask task
      let k := traceEmit k .taskSleep k.currentTask traceTaskInvalid (u32 task.wakeOrder)
        (u32 (task.wakeOrder / 2 ^ 32)) sleepTicks
      .ok { k with pendingSwitchCause := switchSleep }

/-- The deadline outcome recorded when a job completes. -/
def traceOutcome (k : KernelState) (missBefore : Bool) (id : ℕ) : KernelState :=
  if !missBefore ∧ (k.schedules id).deadlineMissLatched then traceDeadline k .deadlineMiss id
  else if !(k.schedules id).deadlineMissLatched then traceDeadline k .deadlineMet id
  else k

def osSvcExit (k : KernelState) (excReturn : ℕ) : Except Stop KernelState :=
  if !svcFromTask k excReturn ∨ k.currentTask = taskIdIdle then .error (.panic "SVC_EXIT")
  else
    let missBefore := (k.schedules k.currentTask).deadlineMissLatched
    match osSchedCompleteJob (k.schedules k.currentTask) k.monotonicTicks with
    | (_, false) => .error (.panic "EXIT_COMPLETE")
    | (task, true) => do
      let k := setSchedule k k.currentTask task
      let k := traceOutcome k missBefore k.currentTask
      let k ← transitionTask k k.currentTask .running .exiting "TASK_EXIT"
      let k := traceEmit k .taskExit k.currentTask traceTaskInvalid
        (k.schedules k.currentTask).completedJobCount
        (k.schedules k.currentTask).deadlineMissCount 0
      .ok { k with pendingSwitchCause := switchExit }

def osSvcWaitNextPeriod (k : KernelState) (excReturn : ℕ) : Except Stop KernelState :=
  if !svcFromTask k excReturn ∨ k.currentTask = taskIdIdle then .error (.panic "SVC_PERIOD")
  else
    let missBefore := (k.schedules k.currentTask).deadlineMissLatched
    match osSchedWaitNextPeriod (k.schedules k.currentTask) k.monotonicTicks with
    | (_, false) => .error (.panic "SVC_PERIOD")
    | (task, true) =>
      let k := setSchedule k k.currentTask task
      let k := traceOutcome k missBefore k.currentTask
      let k := traceEmit k .taskWaitPeriod k.currentTask traceTaskInvalid
        (u32 task.nextReleaseOrder) (u32 (task.nextReleaseOrder / 2 ^ 32)) 0
      .ok { k with pendingSwitchCause := switchWaitPeriod }

def osSvcDispatch (k : KernelState) (frame excReturn : ℕ) : Except Stop KernelState := do
  let service ← decodeSvc img k frame excReturn
  let k ←
    if service = svcStart then osSvcStart k excReturn
    else if service = svcYield then osSvcYield k excReturn
    else if service = svcSleep then osSvcSleep k excReturn (k.ram frame)
    else if service = svcExit then osSvcExit k excReturn
    else if service = svcWaitNextPeriod then osSvcWaitNextPeriod k excReturn
    else .error (.panic "SVC_NUMBER")
  .ok (requestPendsv k)

/-! ### The context switch -/

def reclaimExitingTask (k : KernelState) (id : ℕ) : Except Stop KernelState :=
  if id = taskIdIdle ∨ id ≥ osTaskCount ∨ (k.schedules id).state ≠ .exiting ∨
      !(k.tasks id).stackClaimed then .error (.panic "RECLAIM")
  else if !osAllocatorValidate .arm32 k.memoryAllocator then .error (.panic "HEAP_RECLAIM")
  else
    match osAllocatorReleaseOwner .arm32 k.memoryAllocator id with
    | none => .error .diverges
    | some (heap, released) => do
      let k := { k with memoryAllocator := heap }
      let k :=
        if released ≠ 0 then
          traceEmit k .ownerRelease id traceTaskInvalid (u32 released) id 1
        else k
      if !osAllocatorValidate .arm32 k.memoryAllocator then .error (.panic "HEAP_RELEASE")
      else
        let k ← transitionTask k id .exiting .dormant "RECLAIM_STATE"
        let k := resetTask k id
        .ok { k with lastReclaimed := id, reclaimCounter := u32 (k.reclaimCounter + 1) }

/-- Stores the context pointer of the outgoing task. -/
def saveOutgoing (k : KernelState) (savedPsp : ℕ) : Except Stop KernelState :=
  if k.hasActiveContext then
    if k.currentTask = taskIdInvalid ∨ !validSavedPsp k k.currentTask savedPsp then
      .error (.panic "SAVE_PSP")
    else .ok (setTask k k.currentTask { k.tasks k.currentTask with savedPsp := savedPsp })
  else if savedPsp ≠ 0 ∨ k.currentTask ≠ taskIdInvalid then .error (.panic "FIRST_PSP")
  else .ok k

/-- Makes a running outgoing task ready, and reclaims an exiting one. -/
def retireOutgoing (k : KernelState) : Except Stop KernelState := do
  let outgoing := k.currentTask
  let k ←
    if outgoing ≠ taskIdInvalid ∧ (k.schedules outgoing).state = .running then
      transitionTask k outgoing .running .ready "PEND_READY"
    else .ok k
  if outgoing ≠ taskIdInvalid ∧ (k.schedules outgoing).state = .exiting then
    reclaimExitingTask k outgoing
  else .ok k

/-- The records of a committed switch that depend on idle and on a preemption. -/
def traceSwitch (k : KernelState) (outgoing next preemptSources : ℕ) (outgoingState : TaskState) :
    Except Stop KernelState := do
  let k :=
    if outgoing = taskIdIdle ∧ next ≠ taskIdIdle then
      traceEmit k .idleStop taskIdIdle next 0 0 0
    else k
  let k :=
    if next = taskIdIdle ∧ outgoing ≠ taskIdIdle then
      traceEmit k .idleStart taskIdIdle (traceTask outgoing) 0 0 0
    else k
  let k ←
    if preemptSources ≠ 0 then
      if outgoing = taskIdInvalid ∨ outgoing = next then .error (.panic "PREEMPT_COMMIT")
      else .ok (traceEmit k .taskPreempt outgoing next preemptSources 0 0)
    else .ok k
  .ok (traceEmit k .contextSwitch (traceTask outgoing) next k.pendingSwitchCause
    outgoingState.code 0)

/-- The task a switch resumes. -/
def chooseNext (k : KernelState) : ℕ :=
  let next := osSchedSelect k.schedules osTaskCount k.yieldExcludedTask
  if next = taskIdInvalid then taskIdIdle else next

/-- From the selection of the next task to the end of `os_pendsv_switch`. -/
def dispatchNext (k : KernelState) (outgoing preemptSources : ℕ) (outgoingState : TaskState) :
    Except Stop (KernelState × ℕ) := do
  let excluded := k.yieldExcludedTask
  let next := chooseNext k
  let k := { k with yieldExcludedTask := taskIdInvalid }
  if (k.schedules next).state ≠ .ready ∨ !validSavedPsp k next (k.tasks next).savedPsp then
    .error (.panic "NEXT_TASK")
  else
    let k := traceEmitSelection k next outgoing excluded .dispatch
    let k ← transitionTask k next .ready .running "SELECT_RUNNING"
    let k := { k with currentTask := next, hasActiveContext := true }
    let k ← traceSwitch k outgoing next preemptSources outgoingState
    let k := { k with pendingSwitchCause := 0, pendingPreemptSources := 0 }
    let k :=
      if next ≠ taskIdIdle ∧ !(k.tasks next).started then
        traceDeadline (setTask k next { k.tasks next with started := true }) .taskStart next
      else k
    verifyState k "SWITCH"
    .ok (k, (k.tasks next).savedPsp)

/-- The kernel and the context pointer of the task to resume. -/
def osPendsvSwitch (k : KernelState) (savedPsp : ℕ) : Except Stop (KernelState × ℕ) := do
  let outgoing := k.currentTask
  let preemptSources := k.pendingPreemptSources
  let outgoingState :=
    if outgoing ≠ taskIdInvalid then (k.schedules outgoing).state else .dormant
  let k ← saveOutgoing k savedPsp
  let k ← retireOutgoing k
  dispatchNext k outgoing preemptSources outgoingState

/-! ### The tick -/

/-- What the tick does to one slot: the kernel, and whether the slot became ready. -/
def tickSlot (k : KernelState) (id : ℕ) : Except Stop (KernelState × Bool) :=
  let now := k.monotonicTicks
  let k := setSchedule k id (osSchedAccountRunningTick (k.schedules id))
  let (task, missed) := osSchedRecordDeadlineMiss (k.schedules id) now
  let k := setSchedule k id task
  let k := if missed then traceDeadline k .deadlineMiss id else k
  let (task, skipped) := osSchedRecordActiveRelease (k.schedules id) now
  let k := setSchedule k id task
  let k :=
    if skipped then
      let missedRelease := task.nextReleaseOrder - task.periodTicks
      traceEmit k .taskReleaseSkipped id traceTaskInvalid (u32 missedRelease)
        (u32 (missedRelease / 2 ^ 32)) task.missedReleaseCount
    else k
  if (k.schedules id).timeRangeExhausted then .error (.panic "TASK_TIME_RANGE")
  else
    let (task, released) := osSchedReleaseDue (k.schedules id) now
    let k := setSchedule k id task
    let k := if released then traceDeadline k .taskRelease id else k
    if (k.schedules id).timeRangeExhausted then .error (.panic "TASK_TIME_RANGE")
    else
      let (task, woken) := osSchedWakeDue (k.schedules id) now
      let k := setSchedule k id task
      let k := if woken then traceDeadline k .taskWake id else k
      .ok (k, released || woken)

/-- The loop of `os_kernel_tick` over the slots still to be visited. -/
def tickSlots (k : KernelState) (madeReady : Bool) : List ℕ → Except Stop (KernelState × Bool)
  | [] => .ok (k, madeReady)
  | id :: ids => do
    let (k, ready) ← tickSlot k id
    tickSlots k (madeReady || ready) ids

/-- The probe at the end of a tick. -/
def tickProbe (k : KernelState) (madeReady : Bool) : Except Stop KernelState :=
  if madeReady ∧ k.currentTask ≠ taskIdInvalid ∧
      (k.schedules k.currentTask).state = .running then
    let candidate := osSchedSelect k.schedules osTaskCount taskIdInvalid
    if candidate ≠ taskIdInvalid ∧ candidate ≠ taskIdIdle ∧
        osSchedOutranks (k.schedules candidate) (k.schedules k.currentTask) then do
      let k := traceEmitSelection k candidate k.currentTask taskIdInvalid .systickProbe
      let k ← recordPreemptionRequest k preemptSourceSystick
      let k ← transitionTask k k.currentTask .running .ready "PREEMPT_READY"
      .ok (requestPendsv k)
    else .ok k
  else .ok k

def osKernelTick (k : KernelState) : Except Stop KernelState :=
  if !k.running then .ok k
  else if k.monotonicTicks = uint64Max then .error (.panic "TICK_RANGE")
  else do
    let k := { k with monotonicTicks := k.monotonicTicks + 1 }
    let (k, madeReady) ← tickSlots k false (List.range' 1 maxUserTasks)
    tickProbe k madeReady

end Aymos.Kernel
