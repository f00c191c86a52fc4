import Aymos.Kernel
import Aymos.HeapRun

/-!
The kernel on its processor: which steps can happen, and what each does.

A thread runs on the process stack of the current task, or on the main stack before the first
dispatch. An exception taken from a thread pushes the caller-saved registers on that stack
and its return pops them. `PendSV_Handler` is split at the points where SysTick can still
preempt it. PendSV is the least urgent exception, so it is taken from threads only; no thread
instruction executes while PendSV is pending with interrupts enabled.
-/

namespace Aymos.Machine

open Words Allocator Scheduler Trace WordMem Kernel

/-- What can happen next. -/
inductive Label
  /-- SysTick. -/
  | tick
  /-- `PendSV_Handler` is entered, runs from `cpsid i` to `msr primask`, and returns. -/
  | pendEnter
  | pendCommit
  | pendReturn
  /-- The boot thread calls `os_kernel_start`, and reaches its `svc`. -/
  | kernelStart
  | startSvc
  /-- A task enters through `task_entry_trampoline`. -/
  | trampoline
  /-- A thread goes on at a point that the source expects no thread to reach. -/
  | fallThrough
  /-- The calls of the kernel's interface. -/
  | create (config : TaskConfig)
  | yield
  | sleep (ticks : ℕ)
  | waitNextPeriod
  | taskExit
  | alloc (size : ℕ)
  | free (pointer : ℕ)
  /-- Other thread instructions: on registers, on the thread's stack, on the heap and on
  PRIMASK. -/
  | compute (callee : Callee) (hw : HwFrame) (psp : ℕ)
  | stackWrite (addr value : ℕ)
  | heapWrite (addr : ℕ) (value : UInt8)
  | primask (masked : Bool)
  deriving DecidableEq, Repr

variable (img : Image)

/-- Application code: no point of the kernel's own code in thread mode. -/
def isUserPc (pc : ℕ) : Bool :=
  !([img.taskEntryTrampoline, img.taskReturnGuard, img.svcReturn 0 - 2, img.svcReturn 0,
    img.svcReturn 3].contains pc)

/-- Thread instructions execute. -/
def executes (k : KernelState) : Bool := k.mode = .thread && !(k.cpu.pendsv && !k.cpu.primask)

/-- A thread is at an instruction of the application or of idle. -/
def atUser (k : KernelState) : Bool := executes k && isUserPc img k.cpu.hw.pc

/-- A stack pointer with room below it, in the bounds of a task's stack, for the frame of an
exception and the registers a switch saves. -/
def pspInBounds (k : KernelState) (id psp : ℕ) : Bool :=
  psp % 4 = 0 && (k.tasks id).stackLow + initialFrameBytes + psp % 8 ≤ psp &&
    psp ≤ (k.tasks id).stackHigh

/-- The status register of a thread: Thumb state, no exception. -/
def threadXpsr (xpsr : ℕ) : Bool := xpsr.testBit 24 && xpsr % 1024 == 0

def enabled (k : KernelState) : Label → Bool
  | .tick => !k.cpu.primask
  | .pendEnter => k.mode = .thread && k.cpu.pendsv && !k.cpu.primask
  | .pendCommit => k.mode = .pendsvEntry
  | .pendReturn => k.mode = .pendsvExit
  | .startSvc => executes k && k.cpu.hw.pc == img.svcReturn 0 - 2
  | .trampoline => executes k && k.cpu.hw.pc == img.taskEntryTrampoline
  | .fallThrough =>
    executes k && [img.taskReturnGuard, img.svcReturn 0, img.svcReturn 3].contains k.cpu.hw.pc
  | .create config => atUser img k && (config.entry == 0 || isUserPc img config.entry)
  | .compute _ hw psp =>
    atUser img k && isUserPc img hw.pc && threadXpsr hw.xpsr &&
      if k.cpu.spsel then pspInBounds k k.currentTask psp else psp == k.cpu.psp
  | .stackWrite addr _ =>
    atUser img k && k.cpu.spsel && addr % 4 == 0 && (k.tasks k.currentTask).stackLow ≤ addr &&
      addr < (k.tasks k.currentTask).stackHigh
  | .heapWrite addr _ =>
    atUser img k && (HeapRun.blocks .arm32 k.memoryAllocator).all fun b =>
      addr < b.addr || b.addr + Target.headerSize .arm32 ≤ addr
  | _ => atUser img k

/-! ### Exceptions -/

/-- The stack pointer of the thread. -/
def threadSp (k : KernelState) : ℕ := if k.cpu.spsel then k.cpu.psp else img.bootMsp

/-- Exception entry from a thread: the frame is aligned to eight bytes, which bit 9 of the
stacked status register remembers. -/
def pushFrame (ram : Ram) (sp : ℕ) (hw : HwFrame) : Ram × ℕ :=
  let frame := sp - sp % 8 - 32
  (writeWords ram frame { hw with xpsr := hw.xpsr + if sp % 8 = 4 then 512 else 0 }.words, frame)

/-- Exception return to a thread. -/
def popFrame (ram : Ram) (frame : ℕ) : HwFrame × ℕ :=
  let hw := HwFrame.load ram frame
  if hw.xpsr.testBit 9 then ({ hw with xpsr := hw.xpsr - 512 }, frame + 36) else (hw, frame + 32)

def enterException (k : KernelState) : KernelState × ℕ :=
  let (ram, frame) := pushFrame k.ram (threadSp img k) k.cpu.hw
  ({ k with ram := ram, cpu := { k.cpu with psp := if k.cpu.spsel then frame else k.cpu.psp } },
    frame)

def leaveException (k : KernelState) (frame : ℕ) : KernelState :=
  let (hw, sp) := popFrame k.ram frame
  { k with cpu := { k.cpu with hw := hw, psp := if k.cpu.spsel then sp else k.cpu.psp } }

/-- An `svc` instruction, with its handler and return. -/
def supervisorCall (k : KernelState) (service r0 : ℕ) : Except Stop KernelState :=
  if k.cpu.primask then .error (.panic "HARDFAULT")
  else do
    let hw := { k.cpu.hw with r0 := r0, pc := img.svcReturn service }
    let (k, frame) := enterException img { k with cpu := { k.cpu with hw := hw } }
    let k ← osSvcDispatch img k frame
      (if k.cpu.spsel then excReturnThreadPsp else excReturnThreadMsp)
    .ok (leaveException k frame)

/-- SysTick. In `PendSV_Handler` its frame goes to the main stack, which nothing reads. -/
def sysTick (k : KernelState) : Except Stop KernelState :=
  if k.mode = .thread then do
    let (k, frame) := enterException img k
    let k ← osKernelTick k
    .ok (leaveException k frame)
  else osKernelTick k

/-! ### `PendSV_Handler` -/

def pendsvEnter (k : KernelState) : KernelState :=
  let k := (enterException img k).1
  { k with mode := .pendsvEntry, cpu := { k.cpu with pendsv := false } }

def pendsvCommit (k : KernelState) : Except Stop KernelState := do
  let saved := if k.hasActiveContext then k.cpu.psp - 32 else 0
  let ram := if k.hasActiveContext then writeWords k.ram saved k.cpu.callee.words else k.ram
  let (k, next) ← osPendsvSwitch { k with ram := ram } saved
  if next = 0 then .error (.panic "ARCH_PSP")
  else
    let callee := Callee.load k.ram next
    .ok { k with
      mode := .pendsvExit
      cpu := { k.cpu with callee := callee, psp := next + 32, spsel := true } }

def pendsvReturn (k : KernelState) : KernelState :=
  { leaveException k k.cpu.psp with mode := .thread }

/-! ### Thread code of the kernel -/

def taskEntryTrampoline (k : KernelState) : Except Stop KernelState :=
  let task := k.tasks k.currentTask
  if k.currentTask = taskIdInvalid ∨ (k.schedules k.currentTask).state ≠ .running ∨
      task.entry = 0 ∨ task.argument ≠ k.cpu.hw.r0 then .error (.panic "TRAMPOLINE")
  else .ok { k with cpu := { k.cpu with hw := { k.cpu.hw with pc := task.entry } } }

def fallThrough (k : KernelState) : Except Stop KernelState :=
  if k.cpu.hw.pc = img.svcReturn 0 then .error (.panic "START_RETURN")
  else if k.cpu.hw.pc = img.svcReturn 3 then .error (.panic "EXIT_RETURN")
  else .error (.panic "TASK_RETURN")

def osYield (k : KernelState) : Except Stop KernelState :=
  if !k.running ∨ k.currentTask = taskIdInvalid then .error (.panic "YIELD_STATE")
  else supervisorCall img k svcYield k.cpu.hw.r0

def osSleep (k : KernelState) (sleepTicks : ℕ) : Except Stop KernelState :=
  if !k.running ∨ k.currentTask = taskIdInvalid ∨ sleepTicks = 0 ∨ sleepTicks > maxSleepTicks then
    .ok k
  else supervisorCall img k svcSleep sleepTicks

def osWaitNextPeriod (k : KernelState) : Except Stop KernelState :=
  if !k.running ∨ k.currentTask = taskIdInvalid ∨
      (k.schedules k.currentTask).kind ≠ .periodic then .ok k
  else supervisorCall img k svcWaitNextPeriod k.cpu.hw.r0

def osTaskExit (k : KernelState) : Except Stop KernelState :=
  if !k.running ∨ k.currentTask = taskIdInvalid ∨ k.currentTask = taskIdIdle then
    .error (.panic "EXIT_STATE")
  else supervisorCall img k svcExit k.cpu.hw.r0

/-! ### Steps and runs -/

def exec (k : KernelState) : Label → Except Stop KernelState
  | .tick => sysTick img k
  | .pendEnter => .ok (pendsvEnter img k)
  | .pendCommit => pendsvCommit k
  | .pendReturn => .ok (pendsvReturn k)
  | .kernelStart => do
    let k ← osKernelStart k
    .ok { k with cpu := { k.cpu with hw := { k.cpu.hw with pc := img.svcReturn 0 - 2 } } }
  | .startSvc => supervisorCall img k svcStart k.cpu.hw.r0
  | .trampoline => taskEntryTrampoline k
  | .fallThrough => fallThrough img k
  | .create config => (osTaskCreate img k config).map Prod.fst
  | .yield => osYield img k
  | .sleep ticks => osSleep img k ticks
  | .waitNextPeriod => osWaitNextPeriod img k
  | .taskExit => osTaskExit img k
  | .alloc size => (osMemoryAlloc img k size).map Prod.fst
  | .free pointer => (osMemoryFree img k pointer).map Prod.fst
  | .compute callee hw psp => .ok { k with cpu := { k.cpu with callee := callee, hw := hw, psp := psp } }
  | .stackWrite addr value => .ok { k with ram := Function.update k.ram addr value }
  | .heapWrite addr value =>
    let heap := { k.memoryAllocator with mem := Function.update k.memoryAllocator.mem addr value }
    .ok { k with memoryAllocator := heap }
  | .primask masked => .ok { k with cpu := { k.cpu with primask := masked } }

/-- A step that can happen and in which the kernel does not stop. -/
structure Step (k : KernelState) (l : Label) (k' : KernelState) : Prop where
  enabled : enabled img k l = true
  exec : exec img k l = .ok k'

/-- The states reached by steps that all meet `P`, with their labels, the last one first. -/
inductive Run (P : KernelState → Label → Prop) (k : KernelState) : List Label → KernelState → Prop
  | nil : Run P k [] k
  | step {labels : List Label} {k' k'' : KernelState} {l : Label} :
    Run P k labels k' → P k' l → Step img k' l k'' → Run P k (l :: labels) k''

end Aymos.Machine
