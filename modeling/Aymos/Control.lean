import Aymos.Switch

/-!
The control of the kernel: what scheduling depends on.

`Ctl` is the kernel without its stacks, registers, heap and trace ring. `CtlStep` says
what each step of the machine can do to it and which batches of records the step emits. Whatever
is proved of runs of `CtlStep` holds of the kernel by `control_step`.
-/

namespace Aymos.Control

open Words Allocator Scheduler Trace WordMem Kernel Machine Handlers Frames Services Switch

/-- The state that scheduling depends on. -/
structure Ctl where
  schedules : ℕ → SchedTask
  claimed : ℕ → Bool
  started : ℕ → Bool
  current : ℕ
  excluded : ℕ
  cause : ℕ
  sources : ℕ
  ticks : ℕ
  running : Bool
  active : Bool
  pendsv : Bool
  masked : Bool
  mode : Mode

/-- The control of a kernel. -/
def ctl (k : KernelState) : Ctl :=
  { schedules := k.schedules
    claimed := fun i => (k.tasks i).stackClaimed
    started := fun i => (k.tasks i).started
    current := k.currentTask
    excluded := k.yieldExcludedTask
    cause := k.pendingSwitchCause
    sources := k.pendingPreemptSources
    ticks := k.monotonicTicks
    running := k.running
    active := k.hasActiveContext
    pendsv := k.cpu.pendsv
    masked := k.cpu.primask
    mode := k.mode }

variable (c : Ctl)

/-- A thread can execute. -/
def executing : Prop := c.mode = .thread ∧ (c.pendsv = true → c.masked = true)

/-- The record of the current task. -/
def incumbent : SchedTask := c.schedules c.current

def setTask (i : ℕ) (t : SchedTask) : Ctl :=
  { c with schedules := Function.update c.schedules i t }

/-- A preemption request from a source. -/
def request (source : ℕ) : Ctl :=
  { c with sources := c.sources ||| source, cause := requestCause (c.sources ||| source) }

def ticked : Ctl :=
  { c with
    ticks := c.ticks + 1
    schedules := tickSchedules (c.ticks + 1) c.schedules userSlots }

/-- The tick preempts the running task. -/
def tickHits : Bool :=
  anyReady (c.ticks + 1) c.schedules userSlots && probeHits (ticked c).schedules c.current

/-- The running task is made ready and a switch is requested. -/
def preempt : Ctl :=
  { setTask (request c preemptSourceSystick) c.current (inState (incumbent c) .ready) with
    pendsv := true }

def cleared (i : ℕ) : Ctl :=
  { c with
    schedules := Function.update c.schedules i (osSchedTaskReset i)
    claimed := Function.update c.claimed i false
    started := Function.update c.started i false }

def filled (i : ℕ) (t : SchedTask) : Ctl :=
  { c with
    schedules := Function.update c.schedules i t
    claimed := Function.update c.claimed i true }

/-- The new task in slot `i` is to preempt its creator. -/
def createHits (i : ℕ) : Bool :=
  c.running && (c.schedules i).state == .ready &&
    osSchedOutranks (c.schedules i) (c.schedules c.current)

/-- A request of a creation in slot `i`, when the new task is to preempt. -/
def announced (i : ℕ) : Ctl :=
  if createHits c i then { request c preemptSourceRuntimeCreate with pendsv := true } else c

/-- A running task in thread mode, not idle. -/
def userCalls : Prop :=
  c.mode = .thread ∧ c.running = true ∧ c.current < osTaskCount ∧ (incumbent c).state = .running ∧
    c.active = true ∧ c.current ≠ taskIdIdle

/-- A supervisor call is accepted from the running task. -/
def supervisorCalls : Prop :=
  executing c ∧ c.masked = false ∧ c.current < osTaskCount ∧ (incumbent c).state = .running

/-- The control after a supervisor call that leaves the task as `t`. -/
def called (cause : ℕ) (t : SchedTask) : Ctl :=
  { setTask c c.current t with cause := cause, pendsv := true }

/-- The outgoing task has left the processor. -/
def retired : Ctl :=
  if c.current = taskIdInvalid then c
  else if (incumbent c).state = .running then setTask c c.current (inState (incumbent c) .ready)
  else if (incumbent c).state = .exiting then cleared c c.current
  else c

section RetiredFields

@[simp] lemma retired_current : (retired c).current = c.current := by
  unfold retired; split_ifs <;> rfl
@[simp] lemma retired_excluded : (retired c).excluded = c.excluded := by
  unfold retired; split_ifs <;> rfl
@[simp] lemma retired_cause : (retired c).cause = c.cause := by
  unfold retired; split_ifs <;> rfl
@[simp] lemma retired_sources : (retired c).sources = c.sources := by
  unfold retired; split_ifs <;> rfl
@[simp] lemma retired_ticks : (retired c).ticks = c.ticks := by
  unfold retired; split_ifs <;> rfl
@[simp] lemma retired_running : (retired c).running = c.running := by
  unfold retired; split_ifs <;> rfl
@[simp] lemma retired_pendsv : (retired c).pendsv = c.pendsv := by
  unfold retired; split_ifs <;> rfl
@[simp] lemma retired_masked : (retired c).masked = c.masked := by
  unfold retired; split_ifs <;> rfl

end RetiredFields

/-- The task a switch resumes. -/
def next : ℕ :=
  let n := osSchedSelect c.schedules osTaskCount c.excluded
  if n = taskIdInvalid then taskIdIdle else n

def resumed (n : ℕ) : Ctl :=
  { c with
    schedules := Function.update c.schedules n (inState (c.schedules n) .running)
    started := if n ≠ taskIdIdle then Function.update c.started n true else c.started
    current := n
    active := true
    excluded := taskIdInvalid
    cause := 0
    sources := 0
    mode := .pendsvExit }

/-- The state of the outgoing task. -/
def outgoing : TaskState :=
  if c.current ≠ taskIdInvalid then (incumbent c).state else .dormant

/-- The records of a commit that dispatches from the control `r` with the outgoing task gone. -/
def commitBatches (r : Ctl) (freed : List (List TraceInput)) : List (List TraceInput) :=
  freed ++ ([selectionInputs r.schedules osTaskCount (next r) c.current r.excluded .dispatch] ++
    switchBatches c.current (next r) c.sources r.cause (outgoing c) ++
    if next r ≠ taskIdIdle ∧ r.started (next r) = false then
      [[deadlineRecord .taskStart (next r) (r.schedules (next r))]] else [])

/-- The records of a creation in slot `i`. -/
def creationBatches (i : ℕ) : List (List TraceInput) :=
  [[record .taskCreate i (traceTask (if c.running then c.current else taskIdInvalid))
    (c.schedules i).kind.code (c.schedules i).priority (c.schedules i).state.code]] ++
  (if (c.schedules i).state = .ready then [[deadlineRecord .taskRelease i (c.schedules i)]]
    else []) ++
  (if createHits c i then
    [selectionInputs c.schedules osTaskCount i c.current taskIdInvalid .runtimeCreateProbe] else [])

/-- A label that can leave the control alone. -/
def quiet : Label → Bool
  | .compute .. | .stackWrite .. | .heapWrite .. | .trampoline | .create _ | .sleep _
  | .waitNextPeriod | .alloc _ | .free _ => true
  | _ => false

/-- The record of a memory call. -/
def memoryRecord (b : List TraceInput) : Prop :=
  ∃ event task related v0 v1 v2, (event = .alloc ∨ event = .free) ∧
    b = [record event task related v0 v1 v2]

/-- The steps of the control, with the batches of records they emit. -/
inductive CtlStep : Label → Ctl → List (List TraceInput) → Prop
  | quiet {l : Label} : quiet l = true → CtlStep l c []
  | memory {l : Label} {b : List TraceInput} : Control.quiet l = true → memoryRecord b →
    CtlStep l c [b]
  | primask (masked : Bool) : executing c →
    CtlStep (.primask masked) { c with masked := masked } []
  | bootTick : c.running = false → c.masked = false → CtlStep .tick c []
  | tick : c.running = true → c.masked = false → c.ticks ≠ uint64Max →
    anyExhausts (c.ticks + 1) c.schedules userSlots = false → tickHits c = false →
    CtlStep .tick (ticked c) (tickAllBatches (c.ticks + 1) c.schedules userSlots)
  | tickPreempt : c.running = true → c.masked = false → c.ticks ≠ uint64Max →
    anyExhausts (c.ticks + 1) c.schedules userSlots = false → tickHits c = true →
    CtlStep .tick (preempt (ticked c))
      (tickAllBatches (c.ticks + 1) c.schedules userSlots ++
        [selectionInputs (ticked c).schedules osTaskCount (probeCandidate (ticked c).schedules)
          c.current taskIdInvalid .systickProbe])
  | pendEnter : c.mode = .thread → c.pendsv = true → c.masked = false →
    CtlStep .pendEnter { c with mode := .pendsvEntry, pendsv := false } []
  | pendCommit {n : ℕ} {freed : List (List TraceInput)} : c.mode = .pendsvEntry →
    n = next (retired c) → n < osTaskCount → ((retired c).schedules n).state = .ready →
    (c.sources ≠ 0 → c.current ≠ taskIdInvalid ∧ c.current ≠ n) →
    (c.active = true ↔ c.current ≠ taskIdInvalid) → c.running = true →
    (freed = [] ∨ ∃ released, freed = releaseBatches c.current released) →
    CtlStep .pendCommit (resumed (retired c) n) (commitBatches c (retired c) freed)
  | pendReturn : c.mode = .pendsvExit → CtlStep .pendReturn { c with mode := .thread } []
  | kernelStart : executing c → c.running = false →
    CtlStep .kernelStart { c with running := true, cause := switchStart }
      [[record .kernelStart traceTaskInvalid traceTaskInvalid 0 osTaskCount 0]]
  | startSvc : executing c → c.masked = false → c.current = taskIdInvalid → c.active = false →
    CtlStep .startSvc { c with pendsv := true } []
  | createFails {config : TaskConfig} {i : ℕ} : 1 ≤ i → i < osTaskCount →
    (c.schedules i).state = .dormant → c.claimed i = false →
    CtlStep (.create config) (cleared c i) []
  | create {config : TaskConfig} {i : ℕ} {t : SchedTask} : executing c →
    (c.running = true → userCalls c) → 1 ≤ i → i < osTaskCount →
    (c.schedules i).state = .dormant → c.claimed i = false →
    osSchedTaskConfigure (c.schedules i) config.timing c.ticks = (t, true) →
    CtlStep (.create config) (announced (filled c i t) i) (creationBatches (filled c i t) i)
  | yield : supervisorCalls c →
    CtlStep .yield
      { called c switchYield (inState (incumbent c) .ready) with excluded := c.current }
      [[record .taskYield c.current traceTaskInvalid 0 0 0]]
  | sleep {ticks : ℕ} {t : SchedTask} : supervisorCalls c →
    osSchedSleep (incumbent c) c.ticks ticks = (t, true) →
    CtlStep (.sleep ticks) (called c switchSleep t)
      [[record .taskSleep c.current traceTaskInvalid (u32 t.wakeOrder)
        (u32 (t.wakeOrder / 2 ^ 32)) ticks]]
  | waitNextPeriod {t : SchedTask} : supervisorCalls c → c.current ≠ taskIdIdle →
    osSchedWaitNextPeriod (incumbent c) c.ticks = (t, true) →
    CtlStep .waitNextPeriod (called c switchWaitPeriod t)
      (outcomeBatches (incumbent c).deadlineMissLatched c.current t ++
        [[record .taskWaitPeriod c.current traceTaskInvalid (u32 t.nextReleaseOrder)
          (u32 (t.nextReleaseOrder / 2 ^ 32)) 0]])
  | taskExit {t : SchedTask} : supervisorCalls c → c.current ≠ taskIdIdle →
    osSchedCompleteJob (incumbent c) c.ticks = (t, true) →
    CtlStep .taskExit (called c switchExit (inState t .exiting))
      (outcomeBatches (incumbent c).deadlineMissLatched c.current t ++
        [[record .taskExit c.current traceTaskInvalid t.completedJobCount t.deadlineMissCount 0]])

/-- What holds of a commit. -/
structure Commits (c' : Ctl) (bs : List (List TraceInput)) : Prop where
  mode : c.mode = .pendsvEntry
  running : c.running = true
  next_lt : next (retired c) < osTaskCount
  next_ready : ((retired c).schedules (next (retired c))).state = .ready
  preempts : c.sources ≠ 0 → c.current ≠ taskIdInvalid ∧ c.current ≠ next (retired c)
  after : c' = resumed (retired c) (next (retired c))
  batches : ∃ freed, (freed = [] ∨ ∃ released, freed = releaseBatches c.current released) ∧
    bs = commitBatches c (retired c) freed

variable {c}

lemma commit_inv {c' : Ctl} {bs : List (List TraceInput)} (h : CtlStep c .pendCommit c' bs) :
    Commits c c' bs := by
  cases h with
  | quiet hq => cases hq
  | memory hq => cases hq
  | pendCommit hm hn hlt hready hsrc _ hrun hfreed =>
    subst hn
    exact ⟨hm, hrun, hlt, hready, hsrc, rfl, _, hfreed, rfl⟩

end Aymos.Control
