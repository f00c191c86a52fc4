import Aymos.KernelHeap
import Aymos.Script

/-!
Safety of runs, and who owns the heap along them.
-/

namespace Aymos.RunSafety

open Words ByteMem Allocator HeapRepr HeapBlocks Tiling Scheduler Trace WordMem Kernel Machine
  Handlers Frames Services Switch Slots Control Boot Ownership EmissionLog Stacks Safety Startup
  Scenario Script KernelHeap

variable {img : Image} {k k' : KernelState}

/-! ### Safety -/

/-- After a commit exactly one task runs. -/
lemma committed_runs (hc : ControlInv (ctl k)) (hs : Step img k .pendCommit k') :
    runningTasks k' = [k'.currentTask] := by
  obtain ⟨k₁, k₂, k₃, next, -, -, hdisp, -, rfl⟩ := pendsvCommit_eq_ok.mp hs.exec
  obtain ⟨-, -, hver, rfl, -⟩ := dispatchNext_eq_ok.mp hdisp
  obtain ⟨bs, hctl, -⟩ := control_step img (ControlInv.wellIndexed hc) hs
  exact hver.2 ((hc.step hctl).started rfl) rfl

/-- **Runs of the kernel are safe**: nothing panics, at most one task runs and it is the current
one, a thread that executes on a task's stack is that of the running task, and after every commit
exactly one task runs. -/
theorem kernel_run_safety {labels : List Label} (h : Reaches img Disciplined labels k) :
    (∀ m ram pc, ∃ k₀, osKernelInit img (powerOn m ram pc) = .ok k₀) ∧
      (∀ l, enabled img k l = true → Disciplined k l → ∃ k', exec img k l = .ok k') ∧
      (∀ i < osTaskCount, (k.schedules i).state = .running → i = k.currentTask) ∧
      (executes k = true → k.cpu.spsel = true →
        InBounds (k.tasks k.currentTask) k.cpu.psp ∧
        (k.schedules k.currentTask).state = .running ∧
        ∀ i < osTaskCount, (k.tasks i).stackClaimed = true → InBounds (k.tasks i) k.cpu.psp →
          i = k.currentTask) ∧
      (∀ rest, labels = .pendCommit :: rest → runningTasks k = [k.currentTask]) := by
  have hinv := safeInv_of_reaches h
  refine ⟨fun m ram pc => ⟨_, osKernelInit_powerOn img m ram pc⟩, fun l hen hd => ?_,
    hinv.control.runs, fun hex hspsel => ?_, ?_⟩
  · obtain ⟨k', hexec, -⟩ := hinv.progress hen hd
    exact ⟨k', hexec⟩
  · have hact : k.hasActiveContext = true := hinv.stack.spsel ▸ hspsel
    obtain ⟨hclaim, hl⟩ := hinv.stack.live hact
    rw [if_pos (show k.mode = .thread from (executing_of_executes hex).1)] at hl
    refine ⟨hl.1, runs_of_executes hinv.control hact hex, fun i hi hci hb => ?_⟩
    by_contra hne
    have hcl := hinv.stack.claimed _ (hinv.stack.current_lt hact) hclaim
    have h1 := hb.2.1
    have h2 := hb.2.2
    have h3 := hl.1.2.1
    have h4 := hl.1.2.2
    unfold initialFrameBytes initialFrameWords at h1 h3
    rcases hcl.apart (hinv.stack.claimed i hi hci) (Ne.symm hne) (x := k.cpu.psp - 1) (by omega)
      (by omega) with hx | hx <;> omega
  · refine h.induction (Q := fun labels k => ∀ rest, labels = .pendCommit :: rest →
      runningTasks k = [k.currentTask]) (fun _ _ _ _ _ hx => by cases hx) ?_
    intro labels k l k' hr _ _ hs rest heq
    rw [List.cons.injEq] at heq
    obtain ⟨rfl, -⟩ := heq
    exact committed_runs hr.control hs

/-- A tick releases a task that goes before the running one, up to the switch. -/
def preemption : List Act :=
  [.create (oneShot 0 100), .create (oneShot 1 10)] ++ start ++ [.tick, .pendEnter]

/-- The commit of a preemption, and the first instruction of the task that preempts. -/
theorem kernel_run_safety_preempted : ∃ labels k k',
    Reaches sampleImage Disciplined (.pendCommit :: labels) k ∧ k.currentTask = 2 ∧
      (k.schedules 1).state = .ready ∧ runningTasks k = [2] ∧
    Reaches sampleImage Disciplined (.pendReturn :: .pendCommit :: labels) k' ∧
      executes k' = true ∧ InBounds (k'.tasks 2) k'.cpu.psp ∧
      ∀ l, enabled sampleImage k' l = true → Disciplined k' l →
        ∃ k'', exec sampleImage k' l = .ok k'' := by
  obtain ⟨labels, k₀, k, log, bs, hr, hd, hs, -, hview⟩ := @step_of_script .pendCommit preemption _
    (fun _ c => ((c.current, c.mode), (c.schedules 1).state, c.active, c.pendsv))
    ((2, .pendsvExit), .ready, true, false) (by decide +kernel)
  simp only [Prod.mk.injEq] at hview
  obtain ⟨⟨hcurrent, hmode⟩, hready, hact, hpend⟩ := hview
  have hreach := hr.reaches.step hd hs
  obtain ⟨k', hreach', hctl⟩ := first_return hreach hmode
  have hcurrent : k.currentTask = 2 := hcurrent
  have hcurrent' : k'.currentTask = 2 := (congrArg Ctl.current hctl).trans hcurrent
  have hmode' : k'.mode = .thread := congrArg Ctl.mode hctl
  have hpend' : k'.cpu.pendsv = false := (congrArg Ctl.pendsv hctl).trans hpend
  have hact' : k'.hasActiveContext = true := (congrArg Ctl.active hctl).trans hact
  have hex : executes k' = true := by simp [executes, hmode', hpend']
  obtain ⟨-, -, -, -, hone⟩ := kernel_run_safety hreach
  obtain ⟨-, hgo, -, hthread, -⟩ := kernel_run_safety hreach'
  obtain ⟨hbounds, -⟩ := hthread hex ((safeInv_of_reaches hreach').stack.spsel.trans hact')
  rw [hcurrent'] at hbounds
  exact ⟨labels, k, k', hreach, hcurrent, hready, hcurrent ▸ hone _ rfl, hreach', hex, hbounds, hgo⟩

/-! ### Ownership -/

/-- A creation that succeeds takes a free slot. -/
lemma osTaskCreate_some {config : TaskConfig} {i : ℕ} (hk : WellIndexed k)
    (h : osTaskCreate img k config = .ok (k', some i)) : freeSlot k = some i := by
  rw [osTaskCreate_eq img hk] at h
  split at h
  · cases h
  · split at h
    · cases h
    · next j hslot =>
      split at h
      · cases h
      · obtain ⟨-, -, h⟩ := bind_eq_ok.mp h
        cases h
        exact hslot

/-- **Ownership across slot reuse**: every block in use belongs to an occupied user slot, a new
occupant owns nothing, and the reclaim of an exiting task takes its blocks and leaves those of the
others, with their bytes, as they are. -/
theorem heap_ownership {P : KernelState → Label → Prop} {labels : List Label}
    (h : Reaches img P labels k) :
    (∀ b ∈ HeapRun.blocks .arm32 k.memoryAllocator, ∀ o, b.owner = some o →
        o ∈ userSlots ∧ (k.schedules o).state ≠ .dormant) ∧
      (∀ config k' i, enabled img k (.create config) = true →
        osTaskCreate img k config = .ok (k', some i) →
          ∀ b ∈ HeapRun.blocks .arm32 k'.memoryAllocator, b.owner ≠ some i) ∧
      (∀ k', Step img k .pendCommit k' → Exits k →
        (∀ b o, b.owner = some o → (b ∈ HeapRun.blocks .arm32 k'.memoryAllocator ↔
          b ∈ HeapRun.blocks .arm32 k.memoryAllocator ∧ o ≠ k.currentTask)) ∧
        ∀ b ∈ HeapRun.blocks .arm32 k'.memoryAllocator, b.owner ≠ none →
          ∀ x, b.addr + Target.headerSize .arm32 ≤ x →
            x < b.addr + Target.headerSize .arm32 + b.capacity →
              k'.memoryAllocator.mem x = k.memoryAllocator.mem x) := by
  have hc := h.control
  have hheap : HeapOwned k := by
    refine h.induction (Q := fun _ k => HeapOwned k) (fun m ram pc _ => heapOwned_booted img m ram pc)
      fun labels k l k' hr ih _ hs => ih.step hr.control hs
  obtain ⟨bs, hi, hown⟩ := hheap
  rw [HeapRun.blocks_eq hi]
  refine ⟨hown, fun config k' i hen hcreate b hb ho => ?_, fun k' hs hexit => ?_⟩
  · have hwell := ControlInv.wellIndexed hc
    have hs : Step img k (.create config) k' := ⟨hen, map_eq_ok.mpr ⟨_, hcreate, rfl⟩⟩
    rw [memory_frame img hwell hs rfl, HeapRun.blocks_eq hi] at hb
    exact (hown b hb i ho).2 (freeSlot_some (osTaskCreate_some hwell hcreate)).2.2.1
  · obtain ⟨bs', hi', hblocks, hmem⟩ := reclaim_blocks hi hs.exec hexit
    rw [HeapRun.blocks_eq hi']
    refine ⟨hblocks, fun b hb ho x h1 h2 => hmem x ?_⟩
    obtain ⟨o, ho⟩ := Option.ne_none_iff_exists'.mp ho
    exact outside_of_payload hi.tiles ((hblocks b o ho).mp hb).1 h1 h2

/-- A task allocates a block and exits, and the commit reclaims it. -/
theorem heap_ownership_reclaimed : ∃ labels k b labels' more k' k'',
    Reaches sampleImage Disciplined labels k ∧
      b ∈ HeapRun.blocks .arm32 k.memoryAllocator ∧ b.owner = some 1 ∧
      (k.schedules 1).state ≠ .dormant ∧
    Run sampleImage Disciplined k more k' ∧ Reaches sampleImage Disciplined labels' k' ∧
      b ∈ HeapRun.blocks .arm32 k'.memoryAllocator ∧ Exits k' ∧
    Step sampleImage k' .pendCommit k'' ∧ b ∉ HeapRun.blocks .arm32 k''.memoryAllocator := by
  obtain ⟨labels, k, b, labels', more, k', hr, -, hb, hown, hr', hrun, hctl, hmem⟩ := holder_exits
  have hcurrent : k'.currentTask = 1 := congrArg Ctl.current hctl
  have hexits : Exits k' := by
    have hslot : k'.schedules 1 = leaving.schedules 1 := congrArg (fun c => c.schedules 1) hctl
    rw [Exits, hcurrent, hslot]
    decide
  have hen : enabled sampleImage k' .pendCommit = true := by
    have hm : k'.mode = .pendsvEntry := congrArg Ctl.mode hctl
    simp [enabled, hm]
  obtain ⟨k'', hexec, -⟩ := (safeInv_of_reaches hr').progress hen trivial
  have hs : Step sampleImage k' .pendCommit k'' := ⟨hen, hexec⟩
  obtain ⟨howned, -⟩ := heap_ownership hr
  obtain ⟨-, -, hreclaim⟩ := heap_ownership hr'
  obtain ⟨hleft, -⟩ := hreclaim k'' hs hexits
  refine ⟨labels, k, b, labels', more, k', k'', hr, hb, hown, (howned b hb 1 hown).2, hrun, hr',
    hmem ▸ hb, hexits, hs, fun hb'' => ?_⟩
  exact ((hleft b 1 hown).mp hb'').2 hcurrent.symm

end Aymos.RunSafety
