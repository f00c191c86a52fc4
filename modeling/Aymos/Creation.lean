import Aymos.Startup

/-!
The creation of a task.

`osTaskCreateCall` is the call with its pointers and its interrupt mask. Every slot that is free is
in the form the reset gives it, in every state reached: so a call that returns 0 has undone what it
did, and a call that returns 1 has filled one slot and nothing else.
-/

namespace Aymos.Creation

open Words Allocator Scheduler Trace WordMem Kernel Machine Handlers Frames Services Switch Slots
  Control Boot Ownership Stacks Safety Startup

variable (img : Image)

/-! ### The call -/

def setPrimask (k : KernelState) (masked : Bool) : KernelState :=
  { k with cpu := { k.cpu with primask := masked } }

/-- What a call returns to: the kernel, the word under `created_id` and the result. -/
structure Reply where
  kernel : KernelState
  createdId : Option ℕ
  result : ℕ

/-- `os_task_create`, with `none` for a null pointer. `served` is the kernel that the mask finds: `k`
itself, or what the interrupts between the first check and the mask have left. -/
def osTaskCreateCall (k served : KernelState) (config : Option TaskConfig)
    (createdId : Option ℕ) : Except Stop Reply :=
  match config, createdId with
  | some config, some _ =>
    if createRefused k config then .ok ⟨k, createdId, 0⟩
    else
      let savedPrimask := served.cpu.primask
      let k := setPrimask served true
      if k.running ∧ (!callerIsRunningTask k ∨ k.currentTask = taskIdIdle) then
        .ok ⟨setPrimask k savedPrimask, createdId, 0⟩
      else
        match freeSlot k with
        | none => .ok ⟨setPrimask k savedPrimask, createdId, 0⟩
        | some id =>
          let k := claimSlot img k id config
          match osSchedTaskConfigure (k.schedules id) config.timing k.monotonicTicks with
          | (task, false) =>
            .ok ⟨setPrimask (resetTask (setSchedule k id task) id) savedPrimask, createdId, 0⟩
          | (task, true) => do
            let k := setSchedule k id task
            let (k, frame) ← buildInitialFrame img k id
            let k := setTask k id { k.tasks id with savedPsp := frame }
            let creator := if k.running then k.currentTask else taskIdInvalid
            let k := traceEmit k .taskCreate id (traceTask creator) (k.schedules id).kind.code
              (k.schedules id).priority (k.schedules id).state.code
            let k := if (k.schedules id).state = .ready then traceDeadline k .taskRelease id else k
            let k ←
              if k.running ∧ (k.schedules id).state = .ready ∧
                  osSchedOutranks (k.schedules id) (k.schedules k.currentTask) then do
                let k := traceEmitSelection k id k.currentTask taskIdInvalid .runtimeCreateProbe
                let k ← recordPreemptionRequest k preemptSourceRuntimeCreate
                .ok (requestPendsv k)
              else .ok k
            verifyState k "CREATE"
            .ok ⟨setPrimask k savedPrimask, some id, 1⟩
  | _, _ => .ok ⟨k, createdId, 0⟩

/-- The first check turns the call away. -/
def turnedAway (k : KernelState) (config : Option TaskConfig) (createdId : Option ℕ) : Bool :=
  match config, createdId with
  | some config, some _ => createRefused k config
  | _, _ => true

variable {img} {k k' served : KernelState} {l : Label} {i : ℕ} {config : TaskConfig}

lemma turnedAway_eq_false {request : Option TaskConfig} {createdId : Option ℕ}
    (h : turnedAway k request createdId = false) :
    ∃ config word, request = some config ∧ createdId = some word ∧
      createRefused k config = false := by
  cases request with
  | none => cases h
  | some config =>
    cases createdId with
    | none => cases h
    | some word => exact ⟨config, word, rfl, rfl, h⟩

lemma osTaskCreateCall_turnedAway {request : Option TaskConfig} {createdId : Option ℕ}
    (h : turnedAway k request createdId = true) :
    osTaskCreateCall img k served request createdId = .ok ⟨k, createdId, 0⟩ := by
  cases request with
  | none => rfl
  | some config =>
    cases createdId with
    | none => rfl
    | some word => exact if_pos h

/-- What the masked part makes of the result of `osTaskCreate`. -/
def reply (createdId : Option ℕ) (primask : Bool) (r : KernelState × Option ℕ) : Reply :=
  ⟨setPrimask r.1 primask, r.2.or createdId, if r.2.isSome then 1 else 0⟩

lemma map_bind {α β γ : Type} (x : Except Stop α) (f : α → Except Stop β) (g : β → γ) :
    (x >>= f).map g = x >>= fun a => (f a).map g := by
  cases x <;> rfl

/-- **The masked part** is `osTaskCreate`, with the mask put back. -/
lemma osTaskCreateCall_eq {word : ℕ} (hk : createRefused k config = false)
    (hserved : createRefused served config = false) :
    osTaskCreateCall img k served (some config) (some word) =
      (osTaskCreate img (setPrimask served true) config).map
        (reply (some word) served.cpu.primask) := by
  have hcaller : ¬((setPrimask served true).running = true ∧
      ((!callerIsRunningTask (setPrimask served true)) = true ∨
        (setPrimask served true).currentTask = taskIdIdle)) := by
    have := (createRefused_eq_false.mp hserved).2.2.2.2.2.2.2
    simp only [setPrimask, Bool.not_eq_true', not_and, not_or, Bool.not_eq_false]
    exact this
  have hm : createRefused (setPrimask served true) config = false := hserved
  rw [osTaskCreateCall, osTaskCreate, hk, hm]
  simp only [Bool.false_eq_true, if_false]
  rw [if_neg hcaller]
  cases freeSlot (setPrimask served true) with
  | none => rfl
  | some id =>
    simp only
    rcases osSchedTaskConfigure ((claimSlot img (setPrimask served true) id config).schedules id)
      config.timing (claimSlot img (setPrimask served true) id config).monotonicTicks with
      ⟨task, _ | _⟩
    · simp [Except.map, reply, resetTask, setSchedule, Kernel.setTask]
    · simp only [map_bind]
      refine congrArg _ (funext fun x => ?_)
      -- the traces of the creation and of the release leave a kernel `q`
      generalize (Kernel.setTask x.1 id _) = p
      generalize traceEmit p _ _ _ _ _ _ = q
      generalize (if (q.schedules id).state = .ready then traceDeadline q .taskRelease id else q) = q
      split
      · simp only [map_bind]
        rfl
      · simp only [map_bind]
        rfl

/-! ### Free slots are in reset form -/

/-- The task slots as `reset_task` leaves them, where no stack is claimed. -/
structure Vacated (k : KernelState) : Prop where
  initialized : k.initialized = true
  zero : ∀ i, (k.tasks i).stackClaimed = false → k.tasks i = Tcb.zero

lemma vacated_booted (m : ByteMem.Mem) (ram : Ram) (pc : ℕ) : Vacated (booted img m ram pc) where
  initialized := rfl
  zero i hfree := by
    by_cases hi : i = taskIdIdle
    · subst hi
      simp [booted, idleTcb] at hfree
    · simp [booted, hi]

/-- A slot that `reset_task` has cleared has no valid stack. -/
lemma validSavedPsp_zero {psp : ℕ} (hzero : k.tasks i = Tcb.zero) :
    validSavedPsp k i psp = false := by
  simp [validSavedPsp, hzero, Tcb.zero]

/-- A slot with a valid stack is written, and stays claimed. -/
lemma zero_write {t : Tcb} {psp : ℕ} (h : ∀ i, (k.tasks i).stackClaimed = false → k.tasks i = Tcb.zero)
    (hvalid : validSavedPsp k i psp = true) (ht : t.stackClaimed = (k.tasks i).stackClaimed) :
    ∀ j, (Function.update k.tasks i t j).stackClaimed = false →
      Function.update k.tasks i t j = Tcb.zero := by
  intro j hfree
  by_cases hj : j = i
  · subst hj
    rw [Function.update_self, ht] at hfree
    rw [validSavedPsp_zero (h j hfree)] at hvalid
    cases hvalid
  · rw [Function.update_of_ne hj] at hfree ⊢
    exact h j hfree

lemma zero_clear (h : ∀ j, (k.tasks j).stackClaimed = false → k.tasks j = Tcb.zero) :
    ∀ j, (Function.update k.tasks i Tcb.zero j).stackClaimed = false →
      Function.update k.tasks i Tcb.zero j = Tcb.zero := by
  intro j hfree
  by_cases hj : j = i
  · subst hj
    exact Function.update_self ..
  · rw [Function.update_of_ne hj] at hfree ⊢
    exact h j hfree

lemma Vacated.commit (h : Vacated k) (hs : pendsvCommit k = .ok k') : Vacated k' := by
  obtain ⟨k₁, k₂, k₃, n, hsave, hret, hdispatch, -, rfl⟩ := pendsvCommit_eq_ok.mp hs
  obtain ⟨⟨-, hvalid⟩, -, -, rfl, rfl⟩ := dispatchNext_eq_ok.mp hdispatch
  -- the outgoing context is saved under a valid pointer only
  have h₁ : Vacated k₁ := by
    rcases saveOutgoing_eq_ok.mp hsave with ⟨-, -, hpsp, rfl⟩ | ⟨-, -, -, rfl⟩
    · exact ⟨h.initialized, zero_write (k := stored k) h.zero hpsp rfl⟩
    · exact ⟨h.initialized, h.zero⟩
  have h₂ : Vacated k₂ := by
    cases hret with
    | stay => exact h₁
    | ready => exact ⟨h₁.initialized, h₁.zero⟩
    | reclaim _ _ hrec =>
      obtain ⟨-, -, heap, released, -, -, rfl⟩ := reclaimExitingTask_eq_ok.mp hrec
      exact ⟨h₁.initialized, zero_clear h₁.zero⟩
  refine ⟨h₂.initialized, ?_⟩
  simp only [loaded, dispatched, emit_tasks]
  split
  · exact zero_write h₂.zero hvalid rfl
  · exact h₂.zero

lemma Vacated.create (hk : WellIndexed k) (h : Vacated k) {r : Option ℕ}
    (hs : osTaskCreate img k config = .ok (k', r)) : Vacated k' := by
  rcases osTaskCreate_cases img hk hs with rfl | ⟨i, -, rfl⟩ | ⟨i, t, -, -, -, rfl⟩
  · exact h
  · refine ⟨h.initialized, ?_⟩
    simpa [resetTask, claimSlot, setSchedule, Kernel.setTask] using zero_clear h.zero
  · obtain ⟨u, -⟩ := created_untouched (placed img k config i t) i
    refine ⟨u.initialized.trans h.initialized, fun j hfree => ?_⟩
    rw [u.tasks] at hfree ⊢
    by_cases hj : j = i
    · subst hj
      simp [placed] at hfree
    · simp only [placed, ne_eq, hj, not_false_eq_true, Function.update_of_ne] at hfree ⊢
      exact h.zero j hfree

lemma Vacated.step (hk : WellIndexed k) (h : Vacated k) (hs : Step img k l k') : Vacated k' := by
  by_cases hcommit : l = .pendCommit
  · subst hcommit
    exact h.commit hs.exec
  by_cases hcreate : ∃ config, l = .create config
  · obtain ⟨config, rfl⟩ := hcreate
    obtain ⟨⟨k₁, r⟩, hcall, rfl⟩ := map_eq_ok.mp hs.exec
    exact h.create hk hcall
  · obtain ⟨htasks, hinit, -⟩ := step_holders img hk hs hcommit fun config hl => hcreate ⟨config, hl⟩
    refine ⟨hinit.trans h.initialized, ?_⟩
    rw [htasks]
    exact h.zero

/-- **A slot whose stack is not claimed is in reset form** in every state reached. -/
theorem vacated_of_reaches {P : KernelState → Label → Prop} {labels : List Label}
    (h : Reaches img P labels k) : Vacated k :=
  h.induction (Q := fun _ k => Vacated k) (fun m ram pc _ => vacated_booted m ram pc)
    fun _ _ _ _ hr ih _ hs => ih.step (ControlInv.wellIndexed hr.control) hs

/-- A dormant user slot whose stack is not claimed. -/
def Vacant (k : KernelState) (i : ℕ) : Prop :=
  i ∈ userSlots ∧ (k.schedules i).state = .dormant ∧ (k.tasks i).stackClaimed = false

/-- The search finds the lowest-numbered one. -/
lemma freeSlot_least (h : freeSlot k = some i) : IsLeast {j | Vacant k j} i := by
  obtain ⟨h1, hlt, hd, hfree⟩ := freeSlot_some h
  refine ⟨⟨mem_userSlots.mpr ⟨h1, hlt⟩, hd, hfree⟩, fun j hj => ?_⟩
  obtain ⟨hu, hdj, hfreej⟩ := hj
  by_contra hlt
  obtain ⟨-, -, hbefore⟩ := List.find?_range'_eq_some.mp h
  have hno := hbefore j (mem_userSlots.mp hu).1 (not_le.mp hlt)
  simp [hdj, hfreej] at hno

/-- **The reset undoes the claim** of a slot in reset form. -/
lemma resetTask_claimed (htask : k.tasks i = Tcb.zero) (hsched : k.schedules i = osSchedTaskReset i) :
    resetTask (claimSlot img k i config) i = k := by
  have htasks : Function.update k.tasks i Tcb.zero = k.tasks := by
    rw [← htask, Function.update_eq_self]
  have hscheds : Function.update k.schedules i (osSchedTaskReset i) = k.schedules := by
    rw [← hsched, Function.update_eq_self]
  simp only [resetTask, claimSlot, setSchedule, Kernel.setTask, Function.update_idem, htasks, hscheds]

/-! ### A creation that succeeds -/

/-- The new task is ready and goes before its creator. -/
def Outranks (k k' : KernelState) (i : ℕ) : Prop :=
  k.running = true ∧ (k'.schedules i).state = .ready ∧
    osSchedOutranks (k'.schedules i) (k.schedules k.currentTask) = true

instance : Decidable (Outranks k k' i) := inferInstanceAs (Decidable (_ ∧ _ ∧ _))

variable (img) in
/-- **What a creation does**: slot `i` holds the whole configuration over an initial frame, the rest
of the tables and of the stacks is as it was, and a switch is requested for a task that outranks
its creator. -/
structure Creates (k k' : KernelState) (config : TaskConfig) (i : ℕ) : Prop where
  slot : IsLeast {j | Vacant k j} i
  task : k'.tasks i =
    { entry := config.entry
      argument := config.argument
      savedPsp := stackLow img i + config.stackSize - initialFrameBytes
      stackLow := stackLow img i
      stackHigh := stackLow img i + config.stackSize
      stackClaimed := true
      started := false }
  schedule : k'.schedules i =
    if config.timing.initialReleaseDelayTicks = 0 then startJob (armed i config.timing k.monotonicTicks)
    else armed i config.timing k.monotonicTicks
  frame : validSavedPsp k' i (k'.tasks i).savedPsp = true ∧
    readWords k'.ram (k'.tasks i).savedPsp initialFrameWords = initialFrame img config.argument
  tasks : ∀ j ≠ i, k'.tasks j = k.tasks j
  schedules : ∀ j ≠ i, k'.schedules j = k.schedules j
  ram : ∀ x, x < (k'.tasks i).savedPsp ∨ (k'.tasks i).stackHigh ≤ x → k'.ram x = k.ram x
  pendsv : k'.cpu.pendsv = true ↔ k.cpu.pendsv = true ∨ Outranks k k' i
  cpu : k'.cpu = { k.cpu with pendsv := k'.cpu.pendsv }
  sources : k'.pendingPreemptSources = if Outranks k k' i then
    k.pendingPreemptSources ||| preemptSourceRuntimeCreate else k.pendingPreemptSources
  cause : ¬Outranks k k' i → k'.pendingSwitchCause = k.pendingSwitchCause
  rest : k' = { k with
    tasks := k'.tasks
    schedules := k'.schedules
    pendingSwitchCause := k'.pendingSwitchCause
    pendingPreemptSources := k'.pendingPreemptSources
    traceRing := k'.traceRing
    ram := k'.ram
    cpu := k'.cpu }

lemma placed_task (img : Image) (k : KernelState) (config : TaskConfig) (i : ℕ) (t : SchedTask) :
    (placed img k config i t).tasks i =
      { entry := config.entry
        argument := config.argument
        savedPsp := stackLow img i + config.stackSize - initialFrameBytes
        stackLow := stackLow img i
        stackHigh := stackLow img i + config.stackSize
        stackClaimed := true
        started := (k.tasks i).started } := Function.update_self ..

/-- The initial frame is a valid context of its task. -/
lemma placed_frame (h1 : minStackSize ≤ config.stackSize) (h8 : config.stackSize % 8 = 0)
    (hi : i < osTaskCount) {t : SchedTask} :
    validSavedPsp (placed img k config i t) i ((placed img k config i t).tasks i).savedPsp = true := by
  have hpos := img.stacks_pos
  have halign := img.stacks_aligned
  rw [validSavedPsp, placed_task]
  simp only
  unfold stackLow minStackSize maxStackSize initialFrameBytes initialFrameWords at *
  rw [if_neg (by omega)]
  simp only [Bool.and_eq_true, decide_eq_true_eq, beq_iff_eq]
  omega

/-- The new task preempts its creator, which keeps its own slot, exactly when it outranks it. -/
lemma createPreempts_placed {t : SchedTask} (hd : (k.schedules i).state = .dormant)
    (hcaller : k.running = true → callerIsRunningTask k = true) :
    createPreempts (placed img k config i t) i = true ↔
      Outranks k (created (placed img k config i t) i) i := by
  obtain ⟨p, hp⟩ : ∃ p, p = placed img k config i t := ⟨_, rfl⟩
  have hother : k.currentTask ≠ i → p.schedules k.currentTask = k.schedules k.currentTask :=
    fun hne => by
      rw [hp]
      exact Function.update_of_ne hne _ _
  have hrun : p.running = k.running := by rw [hp]; rfl
  have hcur : p.currentTask = k.currentTask := by rw [hp]; rfl
  rw [← hp]
  simp only [createPreempts, Outranks, (created_untouched p i).2, hrun, hcur, Bool.and_eq_true,
    beq_iff_eq, and_assoc]
  refine and_congr_right fun hr => and_congr_right fun _ => ?_
  rw [hother fun heq => ?_]
  obtain ⟨-, -, hs, -⟩ := callerIsRunningTask_iff.mp (hcaller hr)
  rw [heq, hd] at hs
  cases hs

lemma creates_created (hrefused : createRefused k config = false) (hslot : freeSlot k = some i)
    (htask : k.tasks i = Tcb.zero) (hsched : k.schedules i = osSchedTaskReset i) {t : SchedTask}
    (hconf : osSchedTaskConfigure (k.schedules i) config.timing k.monotonicTicks = (t, true)) :
    Creates img k (created (placed img k config i t) i) config i := by
  obtain ⟨-, hlt, hd, -⟩ := freeSlot_some hslot
  obtain ⟨-, -, hmin, -, h8, -, -, hcaller⟩ := createRefused_eq_false.mp hrefused
  obtain ⟨p, hp⟩ : ∃ p, p = placed img k config i t := ⟨_, rfl⟩
  obtain ⟨u, hscheds⟩ := created_untouched p i
  have hti : p.schedules i = t := by rw [hp]; exact Function.update_self ..
  have hother : ∀ j ≠ i, p.schedules j = k.schedules j := fun j hj => by
    rw [hp]
    exact Function.update_of_ne hj _ _
  have houtranks : createPreempts p i = true ↔ Outranks k (created p i) i := by
    rw [hp]
    exact createPreempts_placed hd fun hr => (hcaller hr).1
  have hfields : (created p i).pendingPreemptSources = (if createPreempts p i then
        k.pendingPreemptSources ||| preemptSourceRuntimeCreate else k.pendingPreemptSources) ∧
      ((created p i).cpu.pendsv = (createPreempts p i || k.cpu.pendsv)) ∧
      (createPreempts p i = false → (created p i).pendingSwitchCause = k.pendingSwitchCause) := by
    rw [created]
    cases createPreempts p i <;> simp [hp, placed, requestPendsv, recorded]
  rw [← hp]
  have hsaved : ((created p i).tasks i) = p.tasks i := by rw [u.tasks]
  have hptask : p.tasks i =
      { entry := config.entry
        argument := config.argument
        savedPsp := stackLow img i + config.stackSize - initialFrameBytes
        stackLow := stackLow img i
        stackHigh := stackLow img i + config.stackSize
        stackClaimed := true
        started := false } := by
    rw [hp, placed_task, htask]
    rfl
  have hram : p.ram = writeWords k.ram (stackLow img i + config.stackSize - initialFrameBytes)
      (initialFrame img config.argument) := by rw [hp]; rfl
  refine
    { slot := freeSlot_least hslot
      task := hsaved.trans hptask
      schedule := ?_
      frame := ⟨?_, ?_⟩
      tasks := fun j hj => ?_
      schedules := fun j hj => by rw [hscheds]; exact hother j hj
      ram := fun x hx => ?_
      pendsv := ?_
      cpu := ?_
      sources := ?_
      cause := fun hno => hfields.2.2 ?_
      rest := ?_ }
  · obtain ⟨-, -, -, ht⟩ := osSchedTaskConfigure_eq_true hconf
    rw [hscheds, hti, ht, hsched]
    rfl
  · have hvalid : validSavedPsp (placed img k config i t) i _ = true :=
      placed_frame hmin h8 hlt
    rw [← hp] at hvalid
    rw [validSavedPsp, u.tasks]
    exact hvalid
  · rw [hsaved, u.ram, hptask, hram]
    exact readWords_writeWords k.ram _ (initialFrame img config.argument)
  · rw [u.tasks, hp]
    exact Function.update_of_ne hj _ _
  · rw [hsaved, hptask] at hx
    rw [u.ram, hram]
    refine writeWords_apply (hx.imp_right fun hx => ?_)
    simp only [initialFrame, List.length_cons, List.length_nil]
    unfold minStackSize initialFrameBytes initialFrameWords at *
    simp only at hx
    omega
  · rw [hfields.2.1, ← houtranks, Bool.or_eq_true, or_comm]
  · rw [u.cpu, hp]
    rfl
  · rw [hfields.1]
    exact if_congr houtranks rfl rfl
  · rw [← houtranks, Bool.not_eq_true] at hno
    exact hno
  · rw [created, hp]
    split <;> rfl

/-! ### Every call -/

/-- The kernel at another time. -/
def clocked (now : ℕ) (k : KernelState) : KernelState := { k with monotonicTicks := now }

variable (img) in
/-- The kernel at power-on and in every state reached after `os_kernel_init`. -/
def Reachable (P : KernelState → Label → Prop) (k : KernelState) : Prop :=
  (∃ m ram pc, k = powerOn m ram pc) ∨ ∃ labels, Reaches img P labels k

/-- What the interrupts between the first check and the mask leave to the thread that they return
to. Where none comes, they leave the kernel itself. -/
structure Resumes (k served : KernelState) : Prop where
  initialized : k.initialized = true → served.initialized = true
  mode : k.mode = .thread → served.mode = .thread

/-- The call where the recheck under the mask turns it away. -/
lemma osTaskCreateCall_rechecked {word : ℕ} (hk : createRefused k config = false)
    (hrecheck : served.running = true ∧
      (callerIsRunningTask served = false ∨ served.currentTask = taskIdIdle)) :
    osTaskCreateCall img k served (some config) (some word) = .ok ⟨served, some word, 0⟩ := by
  have hm : (setPrimask served true).running = true ∧
      ((!callerIsRunningTask (setPrimask served true)) = true ∨
        (setPrimask served true).currentTask = taskIdIdle) :=
    ⟨hrecheck.1, hrecheck.2.imp_left fun hc => (Bool.not_eq_true' _).mpr hc⟩
  rw [osTaskCreateCall, hk]
  simp only [Bool.false_eq_true, if_false]
  rw [if_pos hm]
  rfl

/-- `osTaskCreate` from a kernel whose free slots are in reset form. -/
lemma create_outcome (hwell : WellIndexed k) (hver : Verified k)
    (hrefused : createRefused k config = false)
    (hreset : ∀ i, Vacant k i → k.tasks i = Tcb.zero ∧ k.schedules i = osSchedTaskReset i) :
    osTaskCreate img k config = .ok (k, none) ∨
      ∃ i k', osTaskCreate img k config = .ok (k', some i) ∧ Creates img k k' config i := by
  rw [osTaskCreate_eq img hwell, hrefused]
  simp only [Bool.false_eq_true, if_false]
  cases hslot : freeSlot k with
  | none => exact Or.inl rfl
  | some i =>
    obtain ⟨htask, hsched⟩ := hreset i (freeSlot_least hslot).1
    simp only
    split
    · left
      rw [resetTask_claimed htask hsched]
    · next t hconf =>
      right
      have ht : t.state ≠ .running := by
        rcases configured_state hconf with hst | hst <;> simp [hst]
      have hcheck : verifyState (created (placed img k config i t) i) "CREATE" = .ok () :=
        verifyState_eq_ok.mpr (created_verified hver (freeSlot_least hslot).1.2.1 ht)
      exact ⟨i, _, by rw [hcheck, ok_bind], creates_created hrefused hslot htask hsched hconf⟩

/-- What was created under the mask is created where the mask is put back. -/
lemma Creates.unmask (h : Creates img (setPrimask k true) k' config i) :
    Creates img k (setPrimask k' k.cpu.primask) config i where
  slot := h.slot
  task := h.task
  schedule := h.schedule
  frame := h.frame
  tasks := h.tasks
  schedules := h.schedules
  ram := h.ram
  pendsv := h.pendsv
  cpu := by
    have hcpu := h.cpu
    simp only [setPrimask] at hcpu ⊢
    rw [hcpu]
  sources := h.sources
  cause := h.cause
  rest := by
    have hrest := h.rest
    simp only [setPrimask] at hrest ⊢
    rw [hrest]

/-- **A creation is all or nothing**, from every state reached and at every time: where it returns
0, the kernel, its stacks, its trace and the word under `created_id` are as they were; where it
returns 1, it has filled the lowest free slot, and nothing else, and the word names it. -/
theorem create_all_or_nothing {P : KernelState → Label → Prop} (h : Reachable img P served)
    (now : ℕ) (hk : Resumes k (clocked now served)) (request : Option TaskConfig)
    (createdId : Option ℕ) :
    ∃ r, osTaskCreateCall img k (clocked now served) request createdId = .ok r ∧
      (r.result = 0 → r.createdId = createdId ∧
        r.kernel = if turnedAway k request createdId then k else clocked now served) ∧
      (r.result ≠ 0 → r.result = 1 ∧ ∃ config i, request = some config ∧ r.createdId = some i ∧
        Creates img (clocked now served) r.kernel config i) := by
  cases haway : turnedAway k request createdId with
  | true =>
    exact ⟨_, osTaskCreateCall_turnedAway haway, fun _ => ⟨rfl, rfl⟩, fun h => absurd rfl h⟩
  | false =>
    obtain ⟨config, word, rfl, rfl, hrefused⟩ := turnedAway_eq_false haway
    obtain ⟨hinit, hentry, hmin, hmax, h8, hvalid, hmode, -⟩ := createRefused_eq_false.mp hrefused
    rcases h with ⟨m, ram, pc, rfl⟩ | ⟨labels, h⟩
    · cases hk.initialized hinit
    obtain ⟨base, hbase⟩ : ∃ base, base = clocked now served := ⟨_, rfl⟩
    rw [← hbase] at hk ⊢
    by_cases hrecheck : base.running = true ∧
        (callerIsRunningTask base = false ∨ base.currentTask = taskIdIdle)
    · exact ⟨_, osTaskCreateCall_rechecked hrefused hrecheck, fun _ => ⟨rfl, rfl⟩,
        fun h => absurd rfl h⟩
    have hcaller : base.running = true →
        callerIsRunningTask base = true ∧ base.currentTask ≠ taskIdIdle := by
      intro hr
      simpa [hr] using hrecheck
    have hserved : createRefused base config = false :=
      createRefused_eq_false.mpr ⟨hk.initialized hinit, hentry, hmin, hmax, h8, hvalid,
        hk.mode hmode, hcaller⟩
    have hc := h.control
    have hv := vacated_of_reaches h
    -- the clock and the mask matter to none of the three
    have hwell : WellIndexed (setPrimask base true) := by
      rw [hbase]
      exact ⟨hc.table.id, hc.sources, hc.current⟩
    have hver : Verified (setPrimask base true) := by
      have hfound : Verified served := verified_of_caller hc fun hr => by
        rw [hbase] at hcaller
        exact (hcaller hr).1
      rw [hbase]
      exact hfound
    have hreset : ∀ i, Vacant (setPrimask base true) i →
        (setPrimask base true).tasks i = Tcb.zero ∧
          (setPrimask base true).schedules i = osSchedTaskReset i := by
      rw [hbase]
      exact fun i hi => ⟨hv.zero i hi.2.2, hc.table.reset i hi.1 hi.2.1⟩
    rw [osTaskCreateCall_eq hrefused hserved]
    rcases create_outcome hwell hver hserved hreset with hnone | ⟨i, k', hsome, hcreates⟩
    · rw [hnone]
      exact ⟨_, rfl, fun _ => ⟨rfl, rfl⟩, fun h => absurd rfl h⟩
    · rw [hsome]
      exact ⟨_, rfl, fun h => absurd h Nat.one_ne_zero,
        fun _ => ⟨rfl, config, i, rfl, rfl, hcreates.unmask⟩⟩

/-- The kernel after `os_kernel_init`, late in the range of the clock. -/
def lateBoot : KernelState :=
  clocked (2 ^ 63) (booted sampleImage (fun _ => 0) (fun _ => 0) sampleEntry)

/-- The sample task is created in it. -/
theorem create_all_or_nothing_late : ∃ r i,
    osTaskCreateCall sampleImage lateBoot lateBoot (some samplePeriodic) (some 0) = .ok r ∧
      r.result = 1 ∧ r.createdId = some i ∧ Creates sampleImage lateBoot r.kernel samplePeriodic i := by
  have hres : (osTaskCreateCall sampleImage lateBoot lateBoot (some samplePeriodic) (some 0)).map
      Reply.result = .ok 1 := rfl
  obtain ⟨r, hr, -, hone⟩ := create_all_or_nothing (P := fun _ _ => True)
    (Or.inr ⟨[], reaches_booted sampleEntry_user (fun _ => 0) (fun _ => 0)⟩) (2 ^ 63) ⟨id, id⟩
    (some samplePeriodic) (some 0)
  have hne : r.result ≠ 0 := by
    rw [lateBoot, hr] at hres
    exact Except.ok.inj hres ▸ Nat.one_ne_zero
  obtain ⟨hresult, config, i, hconfig, hword, hcreates⟩ := hone hne
  obtain rfl := Option.some.inj hconfig
  exact ⟨r, i, hr, hresult, hword, hcreates⟩

end Aymos.Creation
