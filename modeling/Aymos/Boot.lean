import Aymos.ControlInv

/-!
The kernel that `os_kernel_init` leaves.

From power-on the initialisation succeeds, with every user slot free, idle ready on its own stack and
the whole arena one free block.
-/

namespace Aymos.Boot

open Words ByteMem Allocator HeapRepr HeapCalls Tiling Scheduler Trace WordMem Kernel Machine Handlers
  Frames Services Switch Slots Control

variable (img : Image)

/-- Where the context of idle starts. -/
def idleFrame : ℕ := stackLow img taskIdIdle + maxStackSize - initialFrameBytes

def idleTcb : Tcb :=
  { entry := img.idleEntry
    argument := 0
    savedPsp := idleFrame img
    stackLow := stackLow img taskIdIdle
    stackHigh := stackLow img taskIdIdle + maxStackSize
    stackClaimed := true
    started := false }

def freshRing : TraceRing :=
  ⟨fun _ => TraceRecord.zero, traceCapacity, 0, 0, 0, 0, 0, 0, 0, 0, true, false⟩

/-- The table after the initialisation. -/
def bootSchedules (i : ℕ) : SchedTask :=
  if i = taskIdIdle then inState (osSchedTaskReset taskIdIdle) .ready
  else if i < osTaskCount then osSchedTaskReset i else osSchedTaskReset 0

/-- The kernel after `os_kernel_init`. -/
def booted (m : Mem) (ram : Ram) (pc : ℕ) : KernelState :=
  { powerOn m ram pc with
    tasks := Function.update (fun _ => Tcb.zero) taskIdIdle (idleTcb img)
    schedules := bootSchedules
    memoryAllocator := freshHeap .arm32 m img.heapStart img.heapEnd
    initialized := true
    traceRing := freshRing
    ram := writeWords ram (idleFrame img) (initialFrame img 0) }

lemma bootHeap (m : Mem) :
    osAllocatorInit .arm32 m img.heapStart (img.heapEnd - img.heapStart) =
      (freshHeap .arm32 m img.heapStart img.heapEnd, true) := by
  have h1 := img.stacks_pos
  have h2 := img.stacks_below
  have h3 := img.heap_below
  have h4 := img.boot_room
  have h5 := img.boot_below
  have h6 := img.top_fits
  exact osAllocatorInit_aligned (by omega) img.heap_aligned.1 img.heap_aligned.2 img.heap_room
    (by omega)

/-- The reset of every slot, from power-on. -/
lemma resetTasks_powerOn (m : Mem) (ram : Ram) (pc : ℕ) :
    (List.range osTaskCount).foldl resetTask (powerOn m ram pc) =
      { powerOn m ram pc with
        schedules := fun i => if i < osTaskCount then osSchedTaskReset i else osSchedTaskReset 0 } := by
  have hzero : ∀ i, Function.update (fun _ : ℕ => Tcb.zero) i Tcb.zero = fun _ => Tcb.zero :=
    fun i => Function.update_eq_self i _
  have hlist : List.range osTaskCount = [0, 1, 2, 3, 4] := rfl
  rw [hlist]
  simp only [List.foldl_cons, List.foldl_nil, resetTask, Kernel.setTask, setSchedule, powerOn, hzero,
    KernelState.mk.injEq, and_true, true_and]
  funext i
  simp only [Function.update_apply]
  split_ifs <;> first | rfl | (subst_vars; rfl) | (exfalso; unfold osTaskCount maxUserTasks at *; omega)

/-- **`os_kernel_init` succeeds** from power-on. -/
theorem osKernelInit_powerOn (m : Mem) (ram : Ram) (pc : ℕ) :
    osKernelInit img (powerOn m ram pc) = .ok (booted img m ram pc) := by
  have hroom : ¬img.heapEnd ≤ img.heapStart := by
    have := img.heap_room
    omega
  have hver : verifyState (booted img m ram pc) "INIT" = .ok () := by
    refine verifyState_eq_ok.mpr ⟨fun _ => runningTasks_eq_nil.mpr fun i _ => ?_, fun h => ?_⟩
    · simp only [booted, bootSchedules]
      split_ifs <;> simp [osSchedTaskReset]
    · cases h
  have hsched : Function.update (fun i => if i < osTaskCount then osSchedTaskReset i
      else osSchedTaskReset 0) taskIdIdle (inState (osSchedTaskReset taskIdIdle) .ready) =
        bootSchedules := by
    funext i
    by_cases hi : i = taskIdIdle
    · subst hi; simp [bootSchedules]
    · simp [bootSchedules, hi]
  rw [osKernelInit, if_neg (by simp [powerOn]), resetTasks_powerOn]
  -- idle is made ready
  refine bind_eq_ok.mpr ⟨{ powerOn m ram pc with
    tasks := Function.update (fun _ => Tcb.zero) taskIdIdle { Tcb.zero with entry := img.idleEntry }
    schedules := bootSchedules }, transitionTask_eq_ok.mpr ⟨by decide, rfl, by decide, ?_⟩, ?_⟩
  · rw [← hsched]
    rfl
  -- its stack is prepared
  refine bind_eq_ok.mpr ⟨_, buildInitialFrame_eq img (n := maxStackSize) rfl rfl (by decide)
    (by decide), ?_⟩
  simp only [show osTraceRingInit traceCapacity = some freshRing from rfl]
  rw [if_neg hroom]
  have hheap : osAllocatorInit .arm32 (powerOn m ram pc).memoryAllocator.mem img.heapStart
      (img.heapEnd - img.heapStart) = _ := bootHeap img m
  simp only [framed, Kernel.setTask, hheap, Bool.not_true, Bool.false_eq_true, if_false,
    Function.update_idem, Function.update_self]
  exact bind_eq_ok.mpr ⟨(), hver, rfl⟩

/-- The control invariant holds at boot. -/
lemma booted_inv (m : Mem) (ram : Ram) (pc : ℕ) : ControlInv (ctl (booted img m ram pc)) := by
  have huser : ∀ i ∈ userSlots, bootSchedules i = osSchedTaskReset i := fun i hi => by
    rw [bootSchedules, if_neg (userSlot_ne_idle hi).symm, if_pos (mem_userSlots.mp hi).2]
  have hstate : ∀ i, (bootSchedules i).state = .dormant ∨ (bootSchedules i).state = .ready := by
    intro i
    simp only [bootSchedules]
    split_ifs <;> simp [osSchedTaskReset]
  exact
    { sources := Nat.zero_le _
      current := Or.inr rfl
      active := by simp [ctl, booted, powerOn]
      started := fun h => by cases h
      runs := fun i _ hs => by
        rcases hstate i with h | h <;> exact absurd (h.symm.trans hs) (by decide)
      exits := fun i _ hs => by
        rcases hstate i with h | h <;> exact absurd (h.symm.trans hs) (by decide)
      masked := fun _ => rfl
      runner := fun h => by cases h
      request := fun h => absurd rfl h
      exclusion := fun h => absurd rfl h
      table :=
        { id := fun i hi => by
            change (bootSchedules i).id = i
            rw [bootSchedules]
            split_ifs with h
            · subst h; rfl
            · rfl
          slots := fun i hi => by
            change SlotInv 0 (bootSchedules i)
            rw [huser i hi]
            exact slotInv_reset 0 i
          idle := ⟨rfl, Or.inl rfl⟩
          free := fun i hi => by
            change (bootSchedules i).state = .dormant ↔
              (Function.update (fun _ => Tcb.zero) taskIdIdle (idleTcb img) i).stackClaimed = false
            rw [huser i hi, Function.update_of_ne (userSlot_ne_idle hi).symm]
            simp [osSchedTaskReset, Tcb.zero]
          reset := fun i hi _ => huser i hi } }

lemma ControlInv.wellIndexed {k : KernelState} (h : ControlInv (ctl k)) : WellIndexed k :=
  ⟨h.table.id, h.sources, h.current⟩

/-- The states reached from `os_kernel_init` by steps that all meet `P`, with their labels, the last
one first. The boot thread is in the application, over whatever the memory holds. -/
def Reaches (P : KernelState → Label → Prop) (labels : List Label) (k : KernelState) : Prop :=
  ∃ m ram pc k₀, isUserPc img pc = true ∧ osKernelInit img (powerOn m ram pc) = .ok k₀ ∧
    Run img P k₀ labels k

variable {img} in
/-- What holds at boot and is kept by every step holds in every state reached. -/
theorem Reaches.induction {P : KernelState → Label → Prop} {Q : List Label → KernelState → Prop}
    {labels : List Label} {k : KernelState} (h : Reaches img P labels k)
    (hboot : ∀ m ram pc, isUserPc img pc = true → Q [] (booted img m ram pc))
    (hstep : ∀ labels k l k', Reaches img P labels k → Q labels k → P k l → Step img k l k' →
      Q (l :: labels) k') : Q labels k := by
  obtain ⟨m, ram, pc, k₀, hpc, hinit, hrun⟩ := h
  have hinit' := hinit
  rw [osKernelInit_powerOn, Except.ok.injEq] at hinit'
  subst hinit'
  induction hrun with
  | nil => exact hboot m ram pc hpc
  | step hrun hp hs ih => exact hstep _ _ _ _ ⟨m, ram, pc, _, hpc, hinit, hrun⟩ ih hp hs

variable {img} in
lemma Reaches.step {P : KernelState → Label → Prop} {labels : List Label} {k k' : KernelState}
    {l : Label} (h : Reaches img P labels k) (hp : P k l) (hs : Step img k l k') :
    Reaches img P (l :: labels) k' := by
  obtain ⟨m, ram, pc, k₀, hpc, hinit, hrun⟩ := h
  exact ⟨m, ram, pc, k₀, hpc, hinit, .step hrun hp hs⟩

variable {img} in
/-- **The control invariant holds in every state reached.** -/
theorem Reaches.control {P : KernelState → Label → Prop} {labels : List Label} {k : KernelState}
    (h : Reaches img P labels k) : ControlInv (ctl k) := by
  refine h.induction (Q := fun _ k => ControlInv (ctl k)) (fun m ram pc _ => booted_inv img m ram pc)
    fun labels k l k' _ ih _ hs => ?_
  obtain ⟨bs, hctl, -⟩ := control_step img (ControlInv.wellIndexed ih) hs
  exact ih.step hctl

end Aymos.Boot
