import Aymos.Startup

/-!
The contexts of the tasks across switches.

The context of a task that is not on the processor lies under its context pointer. No step but the
task's own writes there, so that a switch puts back on the processor what was last taken off it, or
what the task was created with.
-/

namespace Aymos.Contexts

open Words Allocator Scheduler Trace WordMem Kernel Machine Handlers Frames Services Switch Control
  Boot Ownership Stacks Safety Startup

variable (img : Image)

/-- What a switch moves between the processor and a stack: the registers that `PendSV_Handler`
saves, the process stack pointer, and the exception frame at it. -/
structure Context where
  callee : Callee
  psp : ℕ
  frame : HwFrame

/-- The context of the thread that `PendSV_Handler` has interrupted, or goes back to. -/
def onProcessor (k : KernelState) : Context :=
  ⟨k.cpu.callee, k.cpu.psp, HwFrame.load k.ram k.cpu.psp⟩

/-- The context under a context pointer. -/
def contextAt (ram : Ram) (saved : ℕ) : Context :=
  ⟨Callee.load ram saved, saved + 32, HwFrame.load ram (saved + 32)⟩

/-- The context that a task of slot `i` starts from. -/
def firstContext (argument stackSize i : ℕ) : Context :=
  { callee := ⟨0, 0, 0, 0, 0, 0, 0, 0⟩
    psp := stackLow img i + stackSize - 32
    frame :=
      { r0 := argument
        r1 := 0
        r2 := 0
        r3 := 0
        r12 := 0
        lr := img.taskReturnGuard
        pc := img.taskEntryTrampoline
        xpsr := xpsrThumb } }

/-- The context of each slot when its task was last switched out, or the one it was created with
if it has not been. -/
def noteContexts (contexts : ℕ → Context) (k k' : KernelState) : Label → ℕ → Context
  | .pendCommit =>
    if k.hasActiveContext then Function.update contexts k.currentTask (onProcessor k) else contexts
  | .create config => fun i =>
    if (k'.tasks i).stackClaimed && !(k.tasks i).stackClaimed then
      firstContext img config.argument config.stackSize i
    else contexts i
  | _ => contexts

/-- The states that any steps reach from boot, with the contexts that have been noted. -/
inductive Noted : KernelState → (ℕ → Context) → Prop
  | boot {m : ByteMem.Mem} {ram : Ram} {pc : ℕ} {k : KernelState} : isUserPc img pc = true →
    osKernelInit img (powerOn m ram pc) = .ok k → Noted k (firstContext img 0 maxStackSize)
  | step {k k' : KernelState} {contexts : ℕ → Context} {l : Label} : Noted k contexts →
    Step img k l k' → Noted k' (noteContexts img contexts k k' l)

variable {img} {k k' : KernelState} {contexts : ℕ → Context} {l : Label}

/-! ### Contexts in memory -/

lemma contextAt_congr {ram ram' : Ram} {saved : ℕ}
    (h : ∀ x, saved ≤ x → x < saved + 64 → ram' x = ram x) :
    contextAt ram' saved = contextAt ram saved := by
  have hcallee : Callee.load ram' saved = Callee.load ram saved := by
    simp only [Callee.load, h saved (by omega) (by omega), h (saved + 4) (by omega) (by omega),
      h (saved + 8) (by omega) (by omega), h (saved + 12) (by omega) (by omega),
      h (saved + 16) (by omega) (by omega), h (saved + 20) (by omega) (by omega),
      h (saved + 24) (by omega) (by omega), h (saved + 28) (by omega) (by omega)]
  have hframe : HwFrame.load ram' (saved + 32) = HwFrame.load ram (saved + 32) :=
    load_congr fun x h1 h2 => h x (by omega) (by omega)
  rw [contextAt, contextAt, hcallee, hframe]

/-- The sixteen words of `build_initial_frame`. -/
lemma contextAt_initial (ram : Ram) (frame argument : ℕ) :
    contextAt (writeWords ram frame (initialFrame img argument)) frame =
      ⟨⟨0, 0, 0, 0, 0, 0, 0, 0⟩, frame + 32,
        ⟨argument, 0, 0, 0, 0, img.taskReturnGuard, img.taskEntryTrampoline, xpsrThumb⟩⟩ := by
  have hcallee : Callee.load (writeWords ram frame (initialFrame img argument)) frame =
      ⟨0, 0, 0, 0, 0, 0, 0, 0⟩ := by
    simp [Callee.load, initialFrame, writeWords]
  rw [contextAt, hcallee, load_initial]

/-- A stack holds the context of its task. -/
lemma contextAt_kept {i : ℕ} {ram' : Ram} (h : KernelInv img k) (hi : i < osTaskCount)
    (hclaim : (k.tasks i).stackClaimed = true)
    (hoff : ¬(k.hasActiveContext = true ∧ i = k.currentTask))
    (hram : ∀ x, (k.tasks i).stackLow ≤ x → x < (k.tasks i).stackHigh → ram' x = k.ram x) :
    contextAt ram' (k.tasks i).savedPsp = contextAt k.ram (k.tasks i).savedPsp := by
  have hst := h.stack.saved i hi hclaim hoff
  have hlow := hst.low
  have hhigh := hst.frame_high
  exact contextAt_congr fun x h1 h2 => hram x (by omega) (by omega)

/-! ### Steps without a switch -/

variable (img) in
/-- No task leaves the processor, none is created, and the stacks of the others are left alone. -/
structure Aside (k k' : KernelState) : Prop where
  tasks : k'.tasks = k.tasks
  active : k'.hasActiveContext = k.hasActiveContext
  current : k'.currentTask = k.currentTask
  ram : ∀ i < osTaskCount, (k.tasks i).stackClaimed = true →
    ¬(k.hasActiveContext = true ∧ i = k.currentTask) →
      ∀ x, (k.tasks i).stackLow ≤ x → x < (k.tasks i).stackHigh → k'.ram x = k.ram x

lemma Aside.of_ram (htasks : k'.tasks = k.tasks) (hactive : k'.hasActiveContext = k.hasActiveContext)
    (hcurrent : k'.currentTask = k.currentTask) (hram : k'.ram = k.ram) : Aside k k' :=
  ⟨htasks, hactive, hcurrent, fun _ _ _ _ x _ _ => congrFun hram x⟩

lemma Aside.of_returned {hw : HwFrame} (h : KernelInv img k) (r : Returned img k k' hw) :
    Aside k k' :=
  ⟨r.tasks, r.active, r.current, fun i hi hclaim => r.ram i hi (h.stack.claimed i hi hclaim)⟩

/-- **A step that neither switches nor creates** leaves the other tasks' contexts alone. -/
lemma step_aside (h : KernelInv img k) (hs : Step img k l k') (hcommit : l ≠ .pendCommit)
    (hcreate : ∀ config, l ≠ .create config) : Aside k k' := by
  obtain ⟨hen, hexec⟩ := hs
  have hcalled : k.mode = .thread → Relinquishes l → Aside k k' := fun hm hl => by
    rcases relinquish_cases img hl hexec with rfl | ⟨service, r0, hn, hcall⟩
    · exact .of_ram rfl rfl rfl rfl
    · exact .of_returned h (h.supervised hm (by omega) hcall).1
  cases l with
  | tick =>
    rcases (sysTick_eq_ok img).mp hexec with ⟨hm, k₁, h₁, rfl⟩ | ⟨-, hk'⟩
    · exact .of_returned h (h.stack.returned hm rfl
        (osKernelTick_untouched (ControlInv.wellIndexed (k := entered img k) h.control) h₁))
    · have u := osKernelTick_untouched (ControlInv.wellIndexed h.control) hk'
      exact .of_ram u.tasks u.active u.current u.ram
  | pendEnter =>
    obtain rfl := Except.ok.inj hexec
    simp only [enabled, Bool.and_eq_true, decide_eq_true_eq] at hen
    have hram : (pendsvEnter img k).ram = (entered img k).ram := rfl
    refine ⟨rfl, rfl, rfl, fun i hi hclaim hoff x h1 h2 => ?_⟩
    rw [hram]
    exact entered_ram_apply
      (h.stack.frame_apart hen.1.1 hi (h.stack.claimed i hi hclaim) hoff h1 h2)
  | pendCommit => exact absurd rfl hcommit
  | pendReturn =>
    obtain rfl := Except.ok.inj hexec
    exact .of_ram rfl rfl rfl rfl
  | kernelStart =>
    obtain ⟨k₁, h₁, hk'⟩ := bind_eq_ok.mp hexec
    obtain ⟨-, -, rfl⟩ := osKernelStart_eq_ok.mp h₁
    obtain rfl := Except.ok.inj hk'
    exact .of_ram rfl rfl rfl rfl
  | startSvc =>
    simp only [enabled, Bool.and_eq_true] at hen
    have hm : k.mode = .thread := (executing_of_executes hen.1).1
    exact .of_returned h (h.supervised hm (by decide) hexec).1
  | trampoline =>
    simp only [exec, taskEntryTrampoline, ite_error_eq_ok, Except.ok.injEq] at hexec
    obtain ⟨-, rfl⟩ := hexec
    exact .of_ram rfl rfl rfl rfl
  | fallThrough =>
    simp only [exec, fallThrough] at hexec
    split at hexec
    · cases hexec
    split at hexec <;> cases hexec
  | create config => exact absurd rfl (hcreate config)
  | yield => exact hcalled (h.user hen).1 (Or.inl rfl)
  | sleep ticks => exact hcalled (h.user hen).1 (Or.inr (Or.inl ⟨ticks, rfl⟩))
  | waitNextPeriod => exact hcalled (h.user hen).1 (Or.inr (Or.inr (Or.inl rfl)))
  | taskExit => exact hcalled (h.user hen).1 (Or.inr (Or.inr (Or.inr rfl)))
  | alloc size =>
    obtain ⟨r, hr, rfl⟩ := map_eq_ok.mp hexec
    rcases osMemoryAlloc_cases img hr with heq | ⟨-, heap, result, -, heq⟩
    · rw [heq]
      exact .of_ram rfl rfl rfl rfl
    · rw [heq]
      exact .of_ram rfl rfl rfl rfl
  | free pointer =>
    obtain ⟨r, hr, rfl⟩ := map_eq_ok.mp hexec
    rcases osMemoryFree_cases img hr with heq | ⟨-, heap, result, -, heq⟩
    · rw [heq]
      exact .of_ram rfl rfl rfl rfl
    · rw [heq]
      exact .of_ram rfl rfl rfl rfl
  | compute callee hw psp =>
    obtain rfl := Except.ok.inj hexec
    exact .of_ram rfl rfl rfl rfl
  | stackWrite addr value =>
    obtain rfl := Except.ok.inj hexec
    simp only [enabled, Bool.and_eq_true, beq_iff_eq, decide_eq_true_eq] at hen
    obtain ⟨⟨⟨⟨hat, hspsel⟩, -⟩, hlow⟩, hhigh⟩ := hen
    have hact : k.hasActiveContext = true := h.stack.spsel ▸ hspsel
    have hcl := h.stack.claimed _ (h.stack.current_lt hact) (h.stack.live hact).1
    refine ⟨rfl, rfl, rfl, fun i hi hclaim hoff x h1 h2 => Function.update_of_ne (fun heq => ?_) _ _⟩
    have hne : k.currentTask ≠ i := fun hx => hoff ⟨hact, hx.symm⟩
    rcases hcl.apart (h.stack.claimed i hi hclaim) hne h1 h2 with hx | hx <;> omega
  | heapWrite addr value =>
    obtain rfl := Except.ok.inj hexec
    exact .of_ram rfl rfl rfl rfl
  | primask masked =>
    obtain rfl := Except.ok.inj hexec
    exact .of_ram rfl rfl rfl rfl

/-! ### The commit -/

/-- The registers of the outgoing task go to its own stack. -/
lemma stored_ram (h : KernelInv img k) (hm : k.mode = .pendsvEntry) {i : ℕ} (hi : i < osTaskCount)
    (hclaim : (k.tasks i).stackClaimed = true)
    (hoff : ¬(k.hasActiveContext = true ∧ i = k.currentTask)) {x : ℕ}
    (h1 : (k.tasks i).stackLow ≤ x) (h2 : x < (k.tasks i).stackHigh) :
    (stored k).ram x = k.ram x := by
  cases hact : k.hasActiveContext with
  | false => rw [stored, if_neg (by simp [hact])]
  | true =>
    obtain ⟨hcur, hl⟩ := h.stack.live hact
    rw [if_neg (by rw [hm]; decide)] at hl
    have hcl := h.stack.claimed _ (h.stack.current_lt hact) hcur
    have hlow := hl.low
    have hhigh := hl.frame_high
    have hne : k.currentTask ≠ i := fun hx => hoff ⟨hact, hx.symm⟩
    simp only [stored, contextPointer, hact, if_true]
    refine writeWords_apply ?_
    rw [callee_words_length]
    rcases hcl.apart (h.stack.claimed i hi hclaim) hne h1 h2 with hx | hx <;> omega

/-- What is saved is what was on the processor. -/
lemma contextAt_stored (h : KernelInv img k) (hm : k.mode = .pendsvEntry)
    (hact : k.hasActiveContext = true) :
    contextAt (stored k).ram (contextPointer k) = onProcessor k := by
  obtain ⟨-, hl⟩ := h.stack.live hact
  rw [if_neg (by rw [hm]; decide)] at hl
  have hlow := hl.low
  have hptr : contextPointer k = k.cpu.psp - 32 := by simp [contextPointer, hact]
  have hback : contextPointer k + 32 = k.cpu.psp := by omega
  have hcallee : Callee.load (stored k).ram (contextPointer k) = k.cpu.callee := by
    simp only [stored, hact, if_true, callee_load_words]
  have hframe : HwFrame.load (stored k).ram k.cpu.psp = HwFrame.load k.ram k.cpu.psp := by
    refine load_congr fun x h1 _ => ?_
    simp only [stored, hact, if_true]
    refine writeWords_apply (Or.inr ?_)
    rw [callee_words_length]
    omega
  rw [contextAt, hcallee, hback, hframe]
  rfl

/-- The outgoing task that keeps its slot keeps its context pointer. -/
lemma retired_kept (h : Retired k k') :
    k'.ram = k.ram ∧ ∀ i, (k'.tasks i).stackClaimed = true → k'.tasks i = k.tasks i := by
  cases h with
  | stay => exact ⟨rfl, fun _ _ => rfl⟩
  | ready => exact ⟨rfl, fun _ _ => rfl⟩
  | reclaim _ _ hrec =>
    obtain ⟨-, -, heap, released, -, -, rfl⟩ := reclaimExitingTask_eq_ok.mp hrec
    refine ⟨rfl, fun i hclaim => ?_⟩
    have htasks : (reclaimed k k.currentTask heap released).tasks =
        Function.update k.tasks k.currentTask Tcb.zero := rfl
    rw [htasks] at hclaim ⊢
    by_cases hi : i = k.currentTask
    · subst hi
      rw [Function.update_self] at hclaim
      cases hclaim
    · exact Function.update_of_ne hi _ _

/-- **A commit** loads the context under the pointer of the incoming task, and changes the pointer
of the outgoing task only. -/
lemma commit_saved (hs : Step img k .pendCommit k') :
    onProcessor k' = contextAt k'.ram (k'.tasks k'.currentTask).savedPsp ∧
      k'.ram = (stored k).ram ∧
      ∀ i < osTaskCount, (k'.tasks i).stackClaimed = true →
        (k.tasks i).stackClaimed = true ∧
          (k'.tasks i).savedPsp = if k.hasActiveContext = true ∧ i = k.currentTask then
            contextPointer k else (k.tasks i).savedPsp := by
  obtain ⟨k₁, k₂, k₃, n, hsave, hret, hdispatch, -, rfl⟩ := pendsvCommit_eq_ok.mp hs.exec
  obtain ⟨-, -, -, rfl, rfl⟩ := dispatchNext_eq_ok.mp hdispatch
  obtain ⟨hram, htasks⟩ := retired_kept hret
  have hfirst : k₁.ram = (stored k).ram ∧ ∀ i, (k₁.tasks i).stackClaimed = (k.tasks i).stackClaimed ∧
      (k₁.tasks i).savedPsp = if k.hasActiveContext = true ∧ i = k.currentTask then
        contextPointer k else (k.tasks i).savedPsp := by
    rcases saveOutgoing_eq_ok.mp hsave with ⟨hact, -, -, rfl⟩ | ⟨hact, -, -, rfl⟩
    · refine ⟨rfl, fun i => ?_⟩
      have hact : k.hasActiveContext = true := hact
      by_cases hi : i = k.currentTask
      · subst hi
        simp [saved, stored, Kernel.setTask, hact]
      · simp [saved, stored, Kernel.setTask, hi]
    · have hact : k.hasActiveContext = false := hact
      exact ⟨rfl, fun i => ⟨rfl, by simp [hact, stored]⟩⟩
  refine ⟨?_, hram.trans hfirst.1, fun i _ hclaim => ?_⟩
  · have hpsp := dispatched_savedPsp k₂ k.currentTask k.pendingPreemptSources (chooseNext k₂)
      (outgoingState k) (chooseNext k₂)
    rw [← hpsp]
    rfl
  · obtain ⟨b, hb⟩ := dispatched_task k₂ k.currentTask k.pendingPreemptSources (chooseNext k₂)
      (outgoingState k) i
    have htask : (loaded (dispatched k₂ k.currentTask k.pendingPreemptSources (chooseNext k₂)
        (outgoingState k)) (k₂.tasks (chooseNext k₂)).savedPsp).tasks i =
          { k₂.tasks i with started := b } := hb
    rw [htask] at hclaim ⊢
    have hsame := htasks i hclaim
    obtain ⟨hclaimed, hsaved⟩ := hfirst.2 i
    refine ⟨?_, ?_⟩
    · rw [← hclaimed, ← hsame]
      exact hclaim
    · rw [← hsaved, ← hsame]

/-! ### Creation -/

/-- **A creation** builds the frame of the new task, and writes on no other task's stack. -/
lemma create_context (h : KernelInv img k) {config : TaskConfig}
    (hs : Step img k (.create config) k') :
    k'.hasActiveContext = k.hasActiveContext ∧ k'.currentTask = k.currentTask ∧
      (∀ i < osTaskCount, (k.tasks i).stackClaimed = true → k'.tasks i = k.tasks i ∧
        ∀ x, (k.tasks i).stackLow ≤ x → x < (k.tasks i).stackHigh → k'.ram x = k.ram x) ∧
      ∀ i < osTaskCount, (k.tasks i).stackClaimed = false → (k'.tasks i).stackClaimed = true →
        contextAt k'.ram (k'.tasks i).savedPsp =
          firstContext img config.argument config.stackSize i := by
  obtain ⟨⟨k₁, r⟩, hcreate, rfl⟩ := map_eq_ok.mp hs.exec
  have hsame : (∀ i < osTaskCount, (k.tasks i).stackClaimed = true → k.tasks i = k.tasks i ∧
      ∀ x, (k.tasks i).stackLow ≤ x → x < (k.tasks i).stackHigh → k.ram x = k.ram x) :=
    fun _ _ _ => ⟨rfl, fun _ _ _ => rfl⟩
  rcases osTaskCreate_cases img (ControlInv.wellIndexed h.control) hcreate with
    rfl | ⟨i, hslot, rfl⟩ | ⟨i, t, hrefused, hslot, hconf, rfl⟩
  · refine ⟨rfl, rfl, hsame, fun i _ hfree hclaim => ?_⟩
    exact absurd (hfree.symm.trans hclaim) (by decide)
  · obtain ⟨-, -, -, hfree⟩ := freeSlot_some hslot
    have hother : ∀ j, j ≠ i → (resetTask (claimSlot img k i config) i).tasks j = k.tasks j := by
      intro j hj
      simp [resetTask, claimSlot, Kernel.setTask, setSchedule, hj]
    refine ⟨rfl, rfl, fun j _ hclaim => ⟨hother j fun hj => ?_, fun _ _ _ => rfl⟩,
      fun j _ hunclaimed hclaim => ?_⟩
    · rw [hj, hfree] at hclaim
      cases hclaim
    · by_cases hj : j = i
      · subst hj
        simp [resetTask, Kernel.setTask, setSchedule, Tcb.zero] at hclaim
      · rw [hother j hj, hunclaimed] at hclaim
        cases hclaim
  · obtain ⟨-, -, -, hfree⟩ := freeSlot_some hslot
    obtain ⟨-, -, hmin, hmax, -⟩ := createRefused_eq_false.mp hrefused
    obtain ⟨u, -⟩ := created_untouched (placed img k config i t) i
    have hother : ∀ j, j ≠ i → (created (placed img k config i t) i).tasks j = k.tasks j := by
      intro j hj
      rw [u.tasks]
      exact Function.update_of_ne hj _ _
    refine ⟨u.active, u.current, fun j hlt hclaim => ?_, fun j _ hunclaimed hclaim => ?_⟩
    · have hj : j ≠ i := by
        rintro rfl
        rw [hfree] at hclaim
        cases hclaim
      refine ⟨hother j hj, fun x h1 h2 => ?_⟩
      have hcl := h.stack.claimed j hlt hclaim
      have hlow := hcl.low
      have hhigh := hcl.high
      rw [u.ram]
      refine writeWords_apply ?_
      simp only [initialFrame, List.length_cons, List.length_nil]
      -- the frame lies in the part of the memory that belongs to the new slot
      unfold stackLow minStackSize maxStackSize initialFrameBytes initialFrameWords at *
      omega
    · have hj : j = i := by
        by_contra hj
        rw [hother j hj, hunclaimed] at hclaim
        cases hclaim
      subst hj
      have hsaved : ((created (placed img k config j t) j).tasks j).savedPsp =
          stackLow img j + config.stackSize - initialFrameBytes := by
        rw [u.tasks]
        simp [placed]
      have hpsp : stackLow img j + config.stackSize - initialFrameBytes + 32 =
          stackLow img j + config.stackSize - 32 := by
        unfold minStackSize initialFrameBytes initialFrameWords at *
        omega
      rw [hsaved, u.ram]
      refine (contextAt_initial k.ram _ config.argument).trans ?_
      rw [hpsp]
      rfl

/-! ### Runs -/

variable (img) in
/-- Every context that is not on the processor lies under its task's pointer as it was noted. -/
def Kept (k : KernelState) (contexts : ℕ → Context) : Prop :=
  ∀ i < osTaskCount, (k.tasks i).stackClaimed = true →
    ¬(k.hasActiveContext = true ∧ i = k.currentTask) →
      contextAt k.ram (k.tasks i).savedPsp = contexts i

/-- **A commit** leaves every context as it is noted, that of the incoming task included. -/
lemma commit_contexts (h : KernelInv img k) (hkept : Kept k contexts)
    (hs : Step img k .pendCommit k') {i : ℕ} (hi : i < osTaskCount)
    (hclaim : (k'.tasks i).stackClaimed = true) :
    contextAt k'.ram (k'.tasks i).savedPsp = noteContexts img contexts k k' .pendCommit i := by
  have hm : k.mode = .pendsvEntry := by simpa [enabled] using hs.enabled
  obtain ⟨-, hram, hall⟩ := commit_saved hs
  obtain ⟨hclaimed, hsaved⟩ := hall i hi hclaim
  rw [hram, hsaved]
  simp only [noteContexts]
  by_cases hon : k.hasActiveContext = true ∧ i = k.currentTask
  · obtain ⟨hact, rfl⟩ := hon
    rw [if_pos ⟨hact, rfl⟩, if_pos hact, Function.update_self, contextAt_stored h hm hact]
  · rw [if_neg hon, contextAt_kept h hi hclaimed hon fun x => stored_ram h hm hi hclaimed hon,
      hkept i hi hclaimed hon]
    split
    · next hact => rw [Function.update_of_ne fun heq => hon ⟨hact, heq⟩]
    · rfl

/-- **One step** keeps the contexts. -/
lemma Kept.step (h : KernelInv img k) (hkept : Kept k contexts) (hs : Step img k l k') :
    Kept k' (noteContexts img contexts k k' l) := by
  by_cases hcommit : l = .pendCommit
  · subst hcommit
    exact fun i hi hclaim _ => commit_contexts h hkept hs hi hclaim
  by_cases hcreate : ∃ config, l = .create config
  · obtain ⟨config, rfl⟩ := hcreate
    obtain ⟨hact, hcur, hold, hnew⟩ := create_context h hs
    intro i hi hclaim hoff
    rw [hact, hcur] at hoff
    simp only [noteContexts, hclaim, Bool.true_and, Bool.not_eq_true']
    cases hclaimed : (k.tasks i).stackClaimed with
    | true =>
      obtain ⟨htask, hram⟩ := hold i hi hclaimed
      rw [if_neg (by decide), htask, contextAt_kept h hi hclaimed hoff hram,
        hkept i hi hclaimed hoff]
    | false => rw [if_pos rfl, hnew i hi hclaimed hclaim]
  · have haside := step_aside h hs hcommit fun config hl => hcreate ⟨config, hl⟩
    have hnote : noteContexts img contexts k k' l = contexts := by
      cases l <;> first | rfl | exact absurd rfl hcommit | exact absurd ⟨_, rfl⟩ hcreate
    intro i hi hclaim hoff
    rw [haside.active, haside.current] at hoff
    rw [haside.tasks] at hclaim ⊢
    rw [hnote, contextAt_kept h hi hclaim hoff (haside.ram i hi hclaim hoff),
      hkept i hi hclaim hoff]

lemma kept_booted (m : ByteMem.Mem) (ram : Ram) (pc : ℕ) :
    Kept (booted img m ram pc) (firstContext img 0 maxStackSize) := by
  intro i _ hclaim _
  by_cases hidle : i = taskIdIdle
  · subst hidle
    have hpsp : idleFrame img + 32 = stackLow img taskIdIdle + maxStackSize - 32 := by
      unfold idleFrame maxStackSize initialFrameBytes initialFrameWords
      omega
    simp only [booted, Function.update_self, idleTcb]
    refine (contextAt_initial ram (idleFrame img) 0).trans ?_
    rw [hpsp]
    rfl
  · simp [booted, hidle, Tcb.zero] at hclaim

/-- A kernel that is started with interrupts masked stops at its `svc`. -/
lemma stuck_of_masked (hs : Step img k .kernelStart k') (hmask : k.cpu.primask = true) :
    ∀ l k'', ¬Step img k' l k'' := by
  obtain ⟨hen, hexec⟩ := hs
  simp only [enabled, atUser, Bool.and_eq_true] at hen
  obtain ⟨hm, hmask, hpc⟩ : k'.mode = .thread ∧ k'.cpu.primask = true ∧
      k'.cpu.hw.pc = img.svcReturn 0 - 2 := by
    obtain ⟨k₁, h₁, hk'⟩ := bind_eq_ok.mp hexec
    obtain ⟨-, -, rfl⟩ := osKernelStart_eq_ok.mp h₁
    obtain rfl := Except.ok.inj hk'
    exact ⟨(executing_of_executes hen.1).1, hmask, rfl⟩
  have huser : atUser img k' = false := by
    rw [atUser, hpc, (points_apart img).1, Bool.and_false]
  have hp := img.points
  simp only [List.nodup_cons, List.mem_cons, List.not_mem_nil, or_false, not_or] at hp
  rintro l k'' ⟨hen', hexec'⟩
  cases l with
  | startSvc =>
    rw [exec, supervisorCall, if_pos hmask] at hexec'
    cases hexec'
  | trampoline =>
    simp only [enabled, Bool.and_eq_true, beq_iff_eq, hpc] at hen'
    exact hp.1.2.1 hen'.2.symm
  | fallThrough =>
    simp only [enabled, Bool.and_eq_true, List.contains_eq_mem, decide_eq_true_eq, List.mem_cons,
      List.not_mem_nil, or_false, hpc] at hen'
    tauto
  | _ => simp [enabled, huser, hm, hmask] at hen'

/-- **What holds in every state that is reached**, unless nothing can follow it. -/
theorem noted_inv (h : Noted img k contexts) :
    KernelInv img k ∧ Kept k contexts ∨ ∀ l k', ¬Step img k l k' := by
  induction h with
  | @boot m ram pc k hpc hinit =>
    rw [osKernelInit_powerOn, Except.ok.injEq] at hinit
    subst hinit
    exact Or.inl ⟨⟨booted_inv img m ram pc, heapOwned_booted img m ram pc, booted_stack m ram hpc⟩,
      kept_booted m ram pc⟩
  | @step k k' contexts l hrun hs ih =>
    rcases ih with ⟨hinv, hkept⟩ | hstuck
    · by_cases hmask : l = .kernelStart ∧ k.cpu.primask = true
      · obtain ⟨rfl, hmask⟩ := hmask
        exact Or.inr (stuck_of_masked hs hmask)
      · have hstart : l = .kernelStart → k.cpu.primask = false := fun hl =>
          Bool.not_eq_true _ ▸ fun hp => hmask ⟨hl, hp⟩
        exact Or.inl ⟨hinv.step hstart hs, hkept.step hinv hs⟩
    · exact absurd hs (hstuck l k')

/-- **Contexts are isolated.** Whatever steps have been taken, a commit resumes a task with the
registers, the stack pointer and the exception frame that it was last switched out with, or was
created with if it has not run; and neither a commit nor a creation writes on the stack of a task
other than the one that leaves the processor. -/
theorem contexts_isolated (h : Noted img k contexts) :
    (∀ k', Step img k .pendCommit k' →
      onProcessor k' = noteContexts img contexts k k' .pendCommit k'.currentTask) ∧
    ∀ l k', (l = .pendCommit ∨ ∃ config, l = .create config) → Step img k l k' →
      ∀ i < osTaskCount, (k.tasks i).stackClaimed = true →
        ¬(l = .pendCommit ∧ k.hasActiveContext = true ∧ i = k.currentTask) →
          ∀ x, (k.tasks i).stackLow ≤ x → x < (k.tasks i).stackHigh → k'.ram x = k.ram x := by
  rcases noted_inv h with ⟨hinv, hkept⟩ | hstuck
  · refine ⟨fun k' hs => ?_, ?_⟩
    · have hinv' := hinv.step (fun hl => by cases hl) hs
      have hact : k'.hasActiveContext = true := by
        obtain ⟨k₁, k₂, k₃, n, -, -, hdispatch, -, rfl⟩ := pendsvCommit_eq_ok.mp hs.exec
        obtain ⟨-, -, -, rfl, -⟩ := dispatchNext_eq_ok.mp hdispatch
        rfl
      rw [(commit_saved hs).1]
      exact commit_contexts hinv hkept hs (hinv'.stack.current_lt hact)
        (hinv'.stack.live hact).1
    · rintro l k' (rfl | ⟨config, rfl⟩) hs i hi hclaim hoff x h1 h2
      · have hm : k.mode = .pendsvEntry := by simpa [enabled] using hs.enabled
        rw [(commit_saved hs).2.1]
        exact stored_ram hinv hm hi hclaim (fun hon => hoff ⟨rfl, hon⟩) h1 h2
      · exact ((create_context hinv hs).2.2.1 i hi hclaim).2 x h1 h2
  · exact ⟨fun k' hs => absurd hs (hstuck _ k'), fun l k' _ hs => absurd hs (hstuck l k')⟩

lemma noted_of_reaches {P : KernelState → Label → Prop} {labels : List Label}
    (h : Reaches img P labels k) : ∃ contexts, Noted img k contexts := by
  obtain ⟨m, ram, pc, k₀, hpc, hinit, hrun⟩ := h
  induction hrun with
  | nil => exact ⟨_, .boot hpc hinit⟩
  | step _ _ hs ih =>
    obtain ⟨contexts, hnoted⟩ := ih
    exact ⟨_, .step hnoted hs⟩

/-- The first dispatch of a task that the boot thread has created. -/
theorem contexts_isolated_start : ∃ k contexts k', Noted sampleImage k contexts ∧
    Step sampleImage k .pendCommit k' ∧
      onProcessor k' = noteContexts sampleImage contexts k k' .pendCommit k'.currentTask := by
  obtain ⟨k, hr, hctl, -, hat, hmask⟩ :=
    sample_create (P := Disciplined) (fun _ _ => trivial) (fun _ => 0) (fun _ => 0)
  have hrun : k.running = false := congrArg Ctl.running hctl
  obtain ⟨k', ⟨m, ram, pc, k₀, hpc, hinit, hrun'⟩, -⟩ := first_commit hr hat hrun hmask
  cases hrun' with
  | step hbefore _ hs =>
    obtain ⟨contexts, hnoted⟩ := noted_of_reaches ⟨m, ram, pc, k₀, hpc, hinit, hbefore⟩
    exact ⟨_, contexts, k', hnoted, hs, (contexts_isolated hnoted).1 k' hs⟩

end Aymos.Contexts
