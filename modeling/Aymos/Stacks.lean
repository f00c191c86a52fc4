import Aymos.Ownership

/-!
The stacks of the tasks.

A claimed slot has a stack of its own. The context of a task that is not on the processor lies on
that stack and can be resumed; the task on the processor has room left for an exception frame and
for the registers a switch saves. Before the first dispatch the boot thread uses the main stack.
-/

namespace Aymos.Stacks

open Words Allocator Scheduler Trace WordMem Kernel Machine Handlers Frames Services Switch Control
  Ownership

variable (img : Image)

/-! ### Stacked contexts -/

/-- What a claimed slot was given. -/
structure Claimed (t : Tcb) (i : ℕ) : Prop where
  low : t.stackLow = stackLow img i
  room : t.stackLow + minStackSize ≤ t.stackHigh
  high : t.stackHigh ≤ t.stackLow + maxStackSize
  aligned : t.stackHigh % 8 = 0
  entry : isUserPc img t.entry = true
  entry_ne : t.entry ≠ 0

/-- Registers with which a thread of `t` goes on. A task that is `leaving` stands behind the `svc`
of its exit. -/
def Resumable (t : Tcb) (leaving : Prop) (hw : HwFrame) : Prop :=
  threadXpsr hw.xpsr = true ∧
    (isUserPc img hw.pc = true ∨
      (hw.pc = img.taskEntryTrampoline ∧ hw.r0 = t.argument) ∨ (leaving ∧ hw.pc = img.svcReturn 3))

/-- An exception frame on the stack of `t`. -/
structure Stacked (t : Tcb) (leaving : Prop) (ram : Ram) (frame : ℕ) : Prop where
  aligned : frame % 8 = 0
  low : t.stackLow + 32 ≤ frame
  high : (popFrame ram frame).2 ≤ t.stackHigh
  resumable : Resumable img t leaving (popFrame ram frame).1

/-- The stack pointer of the thread of `t` has room below it. -/
def InBounds (t : Tcb) (psp : ℕ) : Prop :=
  psp % 4 = 0 ∧ t.stackLow + initialFrameBytes + psp % 8 ≤ psp ∧ psp ≤ t.stackHigh

variable {img} {k k' : KernelState} {t : Tcb} {leaving : Prop} {ram ram' : Ram} {frame : ℕ}

lemma pspInBounds_iff {i psp : ℕ} : pspInBounds k i psp = true ↔ InBounds (k.tasks i) psp := by
  simp [pspInBounds, InBounds, and_assoc]

lemma Resumable.mono {leaving' : Prop} {hw : HwFrame} (h : Resumable img t leaving hw)
    (hl : leaving → leaving') : Resumable img t leaving' hw :=
  ⟨h.1, h.2.imp_right (Or.imp_right (And.imp_left hl))⟩

lemma Stacked.mono {leaving' : Prop} (h : Stacked img t leaving ram frame)
    (hl : leaving → leaving') : Stacked img t leaving' ram frame :=
  ⟨h.aligned, h.low, h.high, h.resumable.mono hl⟩

lemma popFrame_snd (ram : Ram) (frame : ℕ) :
    (popFrame ram frame).2 = frame + 32 ∨ (popFrame ram frame).2 = frame + 36 := by
  rw [popFrame]
  split
  · exact Or.inr rfl
  · exact Or.inl rfl

lemma Stacked.frame_high (h : Stacked img t leaving ram frame) : frame + 32 ≤ t.stackHigh := by
  have := h.high
  rcases popFrame_snd ram frame with hs | hs <;> omega

/-- A frame depends on the stack it lies on. -/
lemma Stacked.congr (h : Stacked img t leaving ram frame)
    (hram : ∀ x, frame ≤ x → x < frame + 32 → ram' x = ram x) :
    Stacked img t leaving ram' frame := by
  have hpop : popFrame ram' frame = popFrame ram frame := by
    simp only [popFrame, load_congr hram]
  exact ⟨h.aligned, h.low, hpop ▸ h.high, hpop ▸ h.resumable⟩

/-- Exception return from a stacked frame. -/
lemma Stacked.inBounds (h : Stacked img t leaving ram frame) :
    InBounds t (popFrame ram frame).2 := by
  have h1 := h.aligned
  have h2 := h.low
  have h3 := h.high
  unfold InBounds initialFrameBytes initialFrameWords
  rcases popFrame_snd ram frame with hs | hs <;> rw [hs] at h3 ⊢ <;> omega

lemma InBounds.frameAt (h : InBounds t frame) :
    frameAt frame % 8 = 0 ∧ t.stackLow + 32 ≤ Frames.frameAt frame ∧
      Frames.frameAt frame + 32 ≤ frame ∧ 32 + frame % 8 ≤ frame := by
  obtain ⟨h1, h2, h3⟩ := h
  unfold initialFrameBytes initialFrameWords at h2
  unfold Frames.frameAt
  omega

lemma threadXpsr_iff {x : ℕ} : threadXpsr x = true ↔ x.testBit 24 = true ∧ x % 1024 = 0 := by
  simp [threadXpsr]

/-- Exception entry of a thread leaves a frame it can go on from. -/
lemma stacked_of_push {sp : ℕ} {hw : HwFrame} (hb : InBounds t sp) (hr : Resumable img t leaving hw)
    (hload : HwFrame.load ram (Frames.frameAt sp) = { hw with xpsr := stackedXpsr sp hw.xpsr }) :
    Stacked img t leaving ram (Frames.frameAt sp) := by
  obtain ⟨h1, h2, -, h4⟩ := hb.frameAt
  have hpop := popFrame_load (threadXpsr_iff.mp hr.1).2 hb.1 h4 hload
  refine ⟨h1, h2, ?_, ?_⟩
  · rw [hpop]
    exact hb.2.2
  · rw [hpop]
    exact hr

/-- The stacks of two slots lie apart. -/
lemma Claimed.apart {t u : Tcb} {i j x : ℕ} (ht : Claimed img t i) (hu : Claimed img u j)
    (hij : i ≠ j) (h1 : u.stackLow ≤ x) (h2 : x < u.stackHigh) :
    x < t.stackLow ∨ t.stackHigh ≤ x := by
  have := ht.low
  have := ht.high
  have := hu.low
  have := hu.high
  unfold stackLow maxStackSize at *
  omega

lemma Claimed.stack_below (ht : Claimed img t i) (hi : i < osTaskCount) :
    0 < t.stackLow ∧ t.stackLow % 8 = 0 ∧ t.stackHigh ≤ img.heapStart := by
  have := ht.low
  have := ht.high
  have := img.stacks_pos
  have := img.stacks_aligned
  have := img.stacks_below
  unfold stackLow maxStackSize osTaskCount maxUserTasks at *
  omega

/-- Neither depends on whether the task has been started. -/
lemma Claimed.restarted (ht : Claimed img t i) (b : Bool) : Claimed img { t with started := b } i :=
  ⟨ht.low, ht.room, ht.high, ht.aligned, ht.entry, ht.entry_ne⟩

lemma Stacked.restarted (h : Stacked img t leaving ram frame) (b : Bool) :
    Stacked img { t with started := b } leaving ram frame :=
  ⟨h.aligned, h.low, h.high, h.resumable⟩

/-! ### The invariant -/

/-- The task on the processor: its thread, or its frame while `PendSV_Handler` runs. -/
def Live (img : Image) (k : KernelState) : Prop :=
  (k.tasks k.currentTask).stackClaimed = true ∧
  if k.mode = .thread then
    InBounds (k.tasks k.currentTask) k.cpu.psp ∧
      Resumable img (k.tasks k.currentTask) ((k.schedules k.currentTask).state = .exiting) k.cpu.hw
  else
    Stacked img (k.tasks k.currentTask) ((k.schedules k.currentTask).state = .exiting) k.ram k.cpu.psp

/-- The boot thread: in the application, before the `svc` of the start, or behind it for good. -/
structure Booting (img : Image) (k : KernelState) : Prop where
  thread : k.mode = .thread → threadXpsr k.cpu.hw.xpsr = true
  phase : (k.running = false ∧ k.mode = .thread ∧ k.cpu.pendsv = false ∧
      isUserPc img k.cpu.hw.pc = true) ∨
    (k.running = true ∧ k.cpu.primask = false ∧ (k.mode = .pendsvEntry ∨ (k.mode = .thread ∧
      ((k.cpu.pendsv = false ∧ k.cpu.hw.pc = img.svcReturn 0 - 2) ∨
        (k.cpu.pendsv = true ∧ k.cpu.hw.pc = img.svcReturn 0)))))

/-- The contexts of the tasks that are not on the processor. -/
structure Parked (img : Image) (k : KernelState) : Prop where
  initialized : k.initialized = true
  idle : (k.tasks taskIdIdle).stackClaimed = true
  claimed : ∀ i < osTaskCount, (k.tasks i).stackClaimed = true → Claimed img (k.tasks i) i
  saved : ∀ i < osTaskCount, (k.tasks i).stackClaimed = true →
    ¬(k.hasActiveContext = true ∧ i = k.currentTask) →
      Stacked img (k.tasks i) False k.ram ((k.tasks i).savedPsp + 32)

structure StackInv (img : Image) (k : KernelState) : Prop extends Parked img k where
  spsel : k.cpu.spsel = k.hasActiveContext
  current_lt : k.hasActiveContext = true → k.currentTask < osTaskCount
  live : k.hasActiveContext = true → Live img k
  boot : k.hasActiveContext = false → Booting img k

/-- Nothing happens to the stacks of the tasks that are not on the processor. -/
lemma Parked.congr (h : Parked img k) (hinit : k'.initialized = k.initialized)
    (htasks : k'.tasks = k.tasks) (hact : k'.hasActiveContext = k.hasActiveContext)
    (hcur : k'.currentTask = k.currentTask)
    (hram : ∀ i < osTaskCount, Claimed img (k.tasks i) i →
      ¬(k.hasActiveContext = true ∧ i = k.currentTask) →
        ∀ x, (k.tasks i).stackLow ≤ x → x < (k.tasks i).stackHigh → k'.ram x = k.ram x) :
    Parked img k' where
  initialized := hinit.trans h.initialized
  idle := by rw [htasks]; exact h.idle
  claimed i hi hc := by
    rw [htasks] at hc ⊢
    exact h.claimed i hi hc
  saved i hi hc hn := by
    rw [htasks] at hc ⊢
    rw [hact, hcur] at hn
    have hst := h.saved i hi hc hn
    have hlow := hst.low
    have hhigh := hst.frame_high
    exact hst.congr fun x h1 h2 =>
      hram i hi (h.claimed i hi hc) hn x (by omega) (by omega)

/-! ### Exceptions taken from a thread -/

lemma entered_ram_apply {x : ℕ} (hx : x < frameAt (threadSp img k) ∨
    frameAt (threadSp img k) + 32 ≤ x) : (entered img k).ram x = k.ram x :=
  writeWords_apply hx

lemma booted_sp (img : Image) : img.bootMsp % 4 = 0 ∧ 40 ≤ img.bootMsp ∧
    img.mspLimit ≤ frameAt img.bootMsp ∧ frameAt img.bootMsp + 32 ≤ img.bootMsp ∧
    frameAt img.bootMsp % 8 = 0 := by
  have := img.boot_room
  have := img.boot_aligned
  unfold frameAt
  omega

/-- The thread and where its exception frame goes. -/
lemma StackInv.thread (h : StackInv img k) (hm : k.mode = .thread) :
    threadXpsr k.cpu.hw.xpsr = true ∧ threadSp img k % 4 = 0 ∧
      32 + threadSp img k % 8 ≤ threadSp img k ∧
      (k.hasActiveContext = true → threadSp img k = k.cpu.psp ∧
        (k.tasks k.currentTask).stackClaimed = true ∧
        InBounds (k.tasks k.currentTask) k.cpu.psp ∧
        Resumable img (k.tasks k.currentTask) ((k.schedules k.currentTask).state = .exiting)
          k.cpu.hw) := by
  cases hact : k.hasActiveContext with
  | true =>
    obtain ⟨hc, hl⟩ := h.live hact
    rw [if_pos hm] at hl
    have hsp : threadSp img k = k.cpu.psp := by rw [threadSp, h.spsel, hact]; rfl
    rw [hsp]
    exact ⟨hl.2.1, hl.1.1, hl.1.frameAt.2.2.2, fun _ => ⟨rfl, hc, hl⟩⟩
  | false =>
    have hsp : threadSp img k = img.bootMsp := by rw [threadSp, h.spsel, hact]; rfl
    have := booted_sp img
    rw [hsp]
    exact ⟨(h.boot hact).thread hm, this.1, by omega, fun hx => by cases hx⟩

/-- An exception frame lies on the stack of the task on the processor, or on the main stack. -/
lemma StackInv.frame_apart (h : StackInv img k) (hm : k.mode = .thread) {i : ℕ}
    (hi : i < osTaskCount) (hcl : Claimed img (k.tasks i) i)
    (hn : ¬(k.hasActiveContext = true ∧ i = k.currentTask)) {x : ℕ}
    (h1 : (k.tasks i).stackLow ≤ x) (h2 : x < (k.tasks i).stackHigh) :
    x < frameAt (threadSp img k) ∨ frameAt (threadSp img k) + 32 ≤ x := by
  obtain ⟨-, -, -, hlive⟩ := h.thread hm
  cases hact : k.hasActiveContext with
  | true =>
    obtain ⟨hsp, hc, hb, -⟩ := hlive hact
    have hcur := h.current_lt hact
    have hf := hb.frameAt
    have := hb.2.2
    rw [hsp]
    rcases (h.claimed _ hcur hc).apart hcl (fun heq => hn ⟨hact, heq.symm⟩) h1 h2 with hx | hx <;>
      omega
  | false =>
    have hsp : threadSp img k = img.bootMsp := by rw [threadSp, h.spsel, hact]; rfl
    have := booted_sp img
    have := hcl.stack_below hi
    have := img.heap_below
    have := img.heap_room
    rw [hsp]
    omega

/-- The kernel back in the thread after an exception, which may have pended PendSV. -/
structure Returned (img : Image) (k k' : KernelState) (hw : HwFrame) : Prop where
  initialized : k'.initialized = k.initialized
  tasks : k'.tasks = k.tasks
  active : k'.hasActiveContext = k.hasActiveContext
  current : k'.currentTask = k.currentTask
  running : k'.running = k.running
  mode : k'.mode = k.mode
  cpu : k'.cpu = { k.cpu with hw := hw, pendsv := k'.cpu.pendsv }
  ram : ∀ i < osTaskCount, Claimed img (k.tasks i) i →
    ¬(k.hasActiveContext = true ∧ i = k.currentTask) →
      ∀ x, (k.tasks i).stackLow ≤ x → x < (k.tasks i).stackHigh → k'.ram x = k.ram x

lemma Returned.stackInv {hw : HwFrame} (h : StackInv img k) (hm : k.mode = .thread)
    (r : Returned img k k' hw)
    (hlive : k.hasActiveContext = true → Resumable img (k.tasks k.currentTask)
      ((k'.schedules k.currentTask).state = .exiting) hw)
    (hboot : k.hasActiveContext = false → Booting img k') : StackInv img k' where
  toParked := h.toParked.congr r.initialized r.tasks r.active r.current r.ram
  spsel := by rw [r.cpu, r.active]; exact h.spsel
  current_lt ha := by rw [r.current]; exact h.current_lt (r.active ▸ ha)
  live ha := by
    have hact := r.active ▸ ha
    obtain ⟨-, -, -, hth⟩ := h.thread hm
    obtain ⟨-, hc, hb, -⟩ := hth hact
    refine ⟨by rw [r.tasks, r.current]; exact hc, ?_⟩
    rw [if_pos (r.mode.trans hm), r.tasks, r.current, r.cpu]
    exact ⟨hb, hlive hact⟩
  boot ha := hboot (r.active ▸ ha)

/-- **The return from a handler that was entered from a thread**, whose stacked registers are those
of the thread but for `r0` and the program counter. -/
lemma StackInv.returned (h : StackInv img k) (hm : k.mode = .thread) {hw : HwFrame}
    {k₁ : KernelState} (hx : hw.xpsr = k.cpu.hw.xpsr)
    (u : Untouched (entered img { k with cpu := { k.cpu with hw := hw } }) k₁) :
    Returned img k (leaveException k₁ (frameAt (threadSp img k))) hw := by
  obtain ⟨hxpsr, hsp4, hroom, -⟩ := h.thread hm
  have hload : HwFrame.load k₁.ram (frameAt (threadSp img k)) =
      { hw with xpsr := stackedXpsr (threadSp img k) hw.xpsr } := by
    rw [u.ram]
    exact load_entered img { k with cpu := { k.cpu with hw := hw } }
  have hpop := popFrame_load (hx ▸ (threadXpsr_iff.mp hxpsr).2) hsp4 hroom hload
  have hleave : leaveException k₁ (frameAt (threadSp img k)) = { k₁ with cpu := { k₁.cpu with
      hw := hw, psp := if k₁.cpu.spsel then threadSp img k else k₁.cpu.psp } } := by
    rw [leaveException, hpop]
  have hcpu : ({ k₁.cpu with
      hw := hw, psp := if k₁.cpu.spsel then threadSp img k else k₁.cpu.psp } : Cpu) =
        { k.cpu with hw := hw, pendsv := k₁.cpu.pendsv } := by
    rw [u.cpu]
    simp only [entered, enterException, threadSp]
    cases k.cpu.spsel <;> rfl
  rw [hleave, hcpu]
  refine ⟨u.initialized, u.tasks, u.active, u.current, u.running, u.mode, rfl, ?_⟩
  intro i hi hcl hn x h1 h2
  change k₁.ram x = _
  rw [u.ram]
  exact entered_ram_apply (k := { k with cpu := { k.cpu with hw := hw } })
    (h.frame_apart hm hi hcl hn h1 h2)

/-! ### `PendSV_Handler` -/

lemma StackInv.pendsvEnter (h : StackInv img k) (hen : enabled img k .pendEnter = true) :
    StackInv img (pendsvEnter img k) := by
  simp only [enabled, Bool.and_eq_true, decide_eq_true_eq, Bool.not_eq_true'] at hen
  obtain ⟨⟨hm, hp⟩, hmask⟩ := hen
  have hram : (Machine.pendsvEnter img k).ram = (entered img k).ram := rfl
  exact
    { toParked := h.toParked.congr rfl rfl rfl rfl fun i hi hcl hn x h1 h2 => by
        rw [hram]
        exact entered_ram_apply (h.frame_apart hm hi hcl hn h1 h2)
      spsel := h.spsel
      current_lt := h.current_lt
      live := fun hact => by
        obtain ⟨-, -, -, hth⟩ := h.thread hm
        obtain ⟨hsp, hc, hb, hr⟩ := hth hact
        have hpsp : (Machine.pendsvEnter img k).cpu.psp = frameAt k.cpu.psp := by
          rw [← hsp]
          change (if k.cpu.spsel then frameAt (threadSp img k) else k.cpu.psp) = _
          rw [h.spsel, show k.hasActiveContext = true from hact, if_pos rfl]
        refine ⟨hc, ?_⟩
        rw [if_neg (show (Machine.pendsvEnter img k).mode ≠ .thread from Mode.noConfusion), hpsp]
        refine stacked_of_push hb hr ?_
        rw [← hsp, hram]
        exact load_entered img k
      boot := fun hact => by
        refine ⟨Mode.noConfusion, Or.inr ?_⟩
        rcases (h.boot hact).phase with ⟨-, -, hp', -⟩ | ⟨hrun, hmask', -⟩
        · rw [hp] at hp'
          cases hp'
        · exact ⟨hrun, hmask', Or.inl rfl⟩ }

lemma StackInv.pendsvReturn (h : StackInv img k) (hen : enabled img k .pendReturn = true) :
    StackInv img (pendsvReturn k) := by
  simp only [enabled, decide_eq_true_eq] at hen
  have hact : k.hasActiveContext = true := by
    rw [← Bool.not_eq_false]
    intro hact
    rcases (h.boot hact).phase with ⟨-, hm, -⟩ | ⟨-, -, hm | ⟨hm, -⟩⟩ <;> rw [hen] at hm <;> cases hm
  obtain ⟨hc, hl⟩ := h.live hact
  rw [if_neg (by rw [hen]; decide)] at hl
  have hpsp : (Machine.pendsvReturn k).cpu.psp = (popFrame k.ram k.cpu.psp).2 := by
    change (if k.cpu.spsel then (popFrame k.ram k.cpu.psp).2 else k.cpu.psp) = _
    rw [h.spsel, hact, if_pos rfl]
  exact
    { toParked := h.toParked.congr rfl rfl rfl rfl fun _ _ _ _ _ _ _ => rfl
      spsel := h.spsel
      current_lt := h.current_lt
      live := fun _ => by
        refine ⟨hc, ?_⟩
        rw [if_pos (show (Machine.pendsvReturn k).mode = .thread from rfl), hpsp]
        exact ⟨hl.inBounds, hl.resumable⟩
      boot := fun hb => absurd (hact.symm.trans hb) (by decide) }

/-! ### The commit -/

/-- The contexts of all tasks, with that of the current task saved. -/
structure AllParked (img : Image) (k : KernelState) : Prop where
  initialized : k.initialized = true
  idle : (k.tasks taskIdIdle).stackClaimed = true
  claimed : ∀ i < osTaskCount, (k.tasks i).stackClaimed = true → Claimed img (k.tasks i) i
  saved : ∀ i < osTaskCount, (k.tasks i).stackClaimed = true →
    Stacked img (k.tasks i) (i = k.currentTask ∧ (k.schedules i).state = .exiting) k.ram
      ((k.tasks i).savedPsp + 32)

/-- A saved context is one that `os_pendsv_switch` accepts. -/
lemma Claimed.validSavedPsp {i psp : ℕ} (hcl : Claimed img (k.tasks i) i) (hi : i < osTaskCount)
    (hst : Stacked img (k.tasks i) leaving ram (psp + 32)) : validSavedPsp k i psp = true := by
  obtain ⟨hpos, h8, -⟩ := hcl.stack_below hi
  have h1 := hst.aligned
  have h2 := hst.low
  have h3 := hst.frame_high
  rw [Kernel.validSavedPsp, if_neg (by omega)]
  unfold initialFrameBytes initialFrameWords
  simp only [Bool.and_eq_true, decide_eq_true_eq, beq_iff_eq, ge_iff_le]
  omega

/-- **Saving the outgoing context.** -/
lemma StackInv.saveOutgoing (hc : ControlInv (ctl k)) (h : StackInv img k)
    (hm : k.mode = .pendsvEntry) :
    ∃ k₁, saveOutgoing (stored k) (contextPointer k) = .ok k₁ ∧ ctl k₁ = ctl k ∧
      k₁.memoryAllocator = k.memoryAllocator ∧ AllParked img k₁ := by
  cases hact : k.hasActiveContext with
  | false =>
    have hcur : k.currentTask = taskIdInvalid := by
      by_contra hne
      exact absurd ((hc.active.mpr hne).symm.trans hact) (by decide)
    have hstored : stored k = k := by
      rw [stored, if_neg (by simp [hact])]
    refine ⟨k, ?_, rfl, rfl, h.initialized, h.idle, h.claimed, fun i hi hcl => ?_⟩
    · rw [hstored]
      exact saveOutgoing_eq_ok.mpr (Or.inr ⟨hact, by simp [contextPointer, hact], hcur, rfl⟩)
    · exact (h.saved i hi hcl (by simp [hact])).mono False.elim
  | true =>
    obtain ⟨hclaim, hl⟩ := h.live hact
    rw [if_neg (by rw [hm]; decide)] at hl
    have hlt := h.current_lt hact
    have hcl := h.claimed _ hlt hclaim
    have hlow := hl.low
    have hhigh := hl.frame_high
    have hptr : contextPointer k = k.cpu.psp - 32 := by simp [contextPointer, hact]
    have hback : contextPointer k + 32 = k.cpu.psp := by omega
    have hram : ∀ x, x < k.cpu.psp - 32 ∨ k.cpu.psp ≤ x → (stored k).ram x = k.ram x := by
      intro x hx
      simp only [stored, hact, if_true]
      refine writeWords_apply ?_
      rw [callee_words_length]
      omega
    have hframe : Stacked img (k.tasks k.currentTask)
        ((k.schedules k.currentTask).state = .exiting) (stored k).ram (contextPointer k + 32) := by
      rw [hback]
      exact hl.congr fun x h1 _ => hram x (Or.inr h1)
    have hctl : ctl (saved (stored k) (contextPointer k)) = ctl k := by
      simp only [ctl, saved, stored, Kernel.setTask, update_field Tcb.stackClaimed,
        update_field Tcb.started, Function.update_eq_self]
    refine ⟨saved (stored k) (contextPointer k), saveOutgoing_eq_ok.mpr (Or.inl ⟨hact,
      ne_invalid_of_lt hlt, Claimed.validSavedPsp (k := stored k) hcl hlt hframe, rfl⟩), hctl, rfl,
      h.initialized, ?_, fun i hi => ?_, fun i hi => ?_⟩
    · by_cases hi : taskIdIdle = k.currentTask
      · simp [saved, Kernel.setTask, stored, hi, hclaim]
      · simpa [saved, Kernel.setTask, stored, hi] using h.idle
    · by_cases hic : i = k.currentTask
      · subst hic
        intro _
        simp only [saved, Kernel.setTask, stored, Function.update_self]
        exact ⟨hcl.low, hcl.room, hcl.high, hcl.aligned, hcl.entry, hcl.entry_ne⟩
      · simpa [saved, Kernel.setTask, stored, hic] using h.claimed i hi
    · by_cases hic : i = k.currentTask
      · subst hic
        intro _
        simp only [saved, Kernel.setTask, stored, Function.update_self, true_and]
        exact ⟨hframe.aligned, hframe.low, hframe.high, hframe.resumable⟩
      · intro hci
        have hci : (k.tasks i).stackClaimed = true := by
          simpa [saved, Kernel.setTask, stored, hic] using hci
        have hst := h.saved i hi hci (fun hx => hic hx.2)
        have hsl := hst.low
        have hsh := hst.frame_high
        have htask : ((saved (stored k) (contextPointer k)).tasks i) = k.tasks i := by
          simp [saved, Kernel.setTask, stored, hic]
        rw [htask]
        refine (hst.mono False.elim).congr fun x h1 h2 => hram x ?_
        rcases hcl.apart (h.claimed i hi hci) (Ne.symm hic) (x := x) (by omega) (by omega) with hx | hx <;>
          omega

/-- **The outgoing task leaves the processor.** -/
lemma AllParked.retire (hc : ControlInv (ctl k)) (hheap : HeapOwned k) (h : AllParked img k) :
    ∃ k₁, Retired k k₁ ∧ AllParked img k₁ := by
  by_cases hcur : k.currentTask = taskIdInvalid
  · exact ⟨k, .stay (Or.inl hcur), h⟩
  have hlt : k.currentTask < osTaskCount := hc.current_lt hcur
  by_cases hrun : (k.schedules k.currentTask).state = .running
  · refine ⟨readied k, .ready hlt hrun, h.initialized, h.idle, h.claimed, fun i hi hci => ?_⟩
    refine (h.saved i hi hci).mono fun ⟨hic, hexit⟩ => ?_
    subst hic
    rw [hrun] at hexit
    cases hexit
  by_cases hexit : (k.schedules k.currentTask).state = .exiting
  · -- its slot is reclaimed
    have hu : k.currentTask ∈ userSlots := hc.exiting_user hcur hexit
    have hbusy : (k.schedules k.currentTask).state ≠ .dormant := by simp [hexit]
    have hclaim : (k.tasks k.currentTask).stackClaimed = true := hc.table.claimed_of_busy hu hbusy
    obtain ⟨bs, hi, -⟩ := hheap
    obtain ⟨heap, hrel, hinv, -⟩ := HeapCalls.releaseOwner_spec hi k.currentTask
    have hrec := reclaimExitingTask_eq_ok.mpr ⟨⟨(userSlot_ne_idle hu).symm, hlt, hexit, hclaim⟩,
      hi.valid, heap, _, hrel, hinv.valid, rfl⟩
    have hother : ∀ i, i ≠ k.currentTask →
        (resetTask k k.currentTask).tasks i = k.tasks i ∧
          (resetTask k k.currentTask).schedules i = k.schedules i := fun i hi =>
      ⟨Function.update_of_ne hi _ _, Function.update_of_ne hi _ _⟩
    have hself : ((resetTask k k.currentTask).tasks k.currentTask).stackClaimed = false := by
      simp [resetTask, Kernel.setTask, setSchedule, Tcb.zero]
    -- a slot that still claims its stack is another task's, and untouched
    have hkept : ∀ i, ((reclaimed k k.currentTask heap
          (HeapOps.heldBy k.currentTask bs)).tasks i).stackClaimed = true →
        i ≠ k.currentTask ∧ (reclaimed k k.currentTask heap
          (HeapOps.heldBy k.currentTask bs)).tasks i = k.tasks i := fun i hci => by
      have hne : i ≠ k.currentTask := fun heq => by
        rw [heq] at hci
        exact absurd (hself.symm.trans hci) (by decide)
      exact ⟨hne, (hother i hne).1⟩
    refine ⟨_, .reclaim hcur hexit hrec, h.initialized, ?_, fun i hi hci => ?_, fun i hi hci => ?_⟩
    · exact (congrArg Tcb.stackClaimed (hother _ (userSlot_ne_idle hu)).1).trans h.idle
    · obtain ⟨hne, hti⟩ := hkept i hci
      rw [hti] at hci ⊢
      exact h.claimed i hi hci
    · obtain ⟨hne, hti⟩ := hkept i hci
      rw [hti] at hci ⊢
      exact (h.saved i hi hci).mono fun ⟨hic, _⟩ => absurd hic hne
  · exact ⟨k, .stay (Or.inr ⟨hrun, hexit⟩), h⟩

/-- The stack of a task that has been started. -/
lemma dispatched_task (k : KernelState) (outgoing sources n : ℕ) (s : TaskState) (i : ℕ) :
    ∃ b, (Switch.dispatched k outgoing sources n s).tasks i = { k.tasks i with started := b } := by
  simp only [Switch.dispatched, emit_tasks]
  split
  · by_cases hin : i = n
    · subst hin
      exact ⟨true, by simp⟩
    · exact ⟨(k.tasks i).started, by simp [hin]⟩
  · exact ⟨(k.tasks i).started, rfl⟩

/-- The context of a task that is ready can be loaded. -/
lemma AllParked.incoming {now n : ℕ} (h : AllParked img k) (hlt : n < osTaskCount)
    (htable : TableInv now k.schedules fun i => (k.tasks i).stackClaimed)
    (hready : (k.schedules n).state = .ready) :
    (k.tasks n).stackClaimed = true ∧ validSavedPsp k n (k.tasks n).savedPsp = true ∧
      (k.tasks n).savedPsp ≠ 0 := by
  have hclaim : (k.tasks n).stackClaimed = true := by
    by_cases hidle : n = taskIdIdle
    · rw [hidle]
      exact h.idle
    · exact htable.claimed_of_busy (userSlot_of_ne_idle hlt hidle) (by simp [hready])
  have hcl := h.claimed n hlt hclaim
  have hst : Stacked img (k.tasks n) False k.ram ((k.tasks n).savedPsp + 32) :=
    (h.saved n hlt hclaim).mono fun hx => by simp [hready] at hx
  have hlow := hst.low
  have hstack := (hcl.stack_below hlt).1
  exact ⟨hclaim, hcl.validSavedPsp hlt hst, by omega⟩

/-- The incoming task is the only one that runs. -/
lemma verified_dispatched {outgoing sources n : ℕ} {s : TaskState} (hrun : k.running = true)
    (hlt : n < osTaskCount) (hstill : ∀ i < osTaskCount, (k.schedules i).state ≠ .running) :
    Verified (Switch.dispatched k outgoing sources n s) := by
  refine ⟨fun hf => absurd (hrun.symm.trans hf) (by decide), fun _ _ => ?_⟩
  refine runningTasks_eq_singleton.mpr ⟨hlt, by simp [Switch.dispatched], fun i hi hs => ?_⟩
  by_contra hne
  have hsame : (Switch.dispatched k outgoing sources n s).schedules i = k.schedules i :=
    Function.update_of_ne hne _ _
  rw [hsame] at hs
  exact hstill i hi hs

/-- **The incoming task on the processor**: every other context stays parked. -/
lemma AllParked.dispatch {outgoing sources n : ℕ} {s : TaskState} (h : AllParked img k)
    (hlt : n < osTaskCount) (hclaim : (k.tasks n).stackClaimed = true)
    (hstay : ∀ i < osTaskCount, (k.schedules i).state ≠ .exiting) :
    StackInv img (loaded (Switch.dispatched k outgoing sources n s) (k.tasks n).savedPsp) := by
  have htask := dispatched_task k outgoing sources n s
  obtain ⟨k', hk'⟩ : ∃ k', k' = Switch.dispatched k outgoing sources n s := ⟨_, rfl⟩
  have hcur : k'.currentTask = n := by rw [hk']; rfl
  have hram : k'.ram = k.ram := by rw [hk']; rfl
  have hinit : k'.initialized = k.initialized := by rw [hk']; rfl
  have hact : k'.hasActiveContext = true := by rw [hk']; rfl
  rw [← hk'] at htask ⊢
  have hclaimed : ∀ i < osTaskCount, (k'.tasks i).stackClaimed = true →
      Claimed img (k'.tasks i) i := fun i hi hci => by
    obtain ⟨b, hb⟩ := htask i
    rw [hb] at hci ⊢
    exact (h.claimed i hi hci).restarted b
  have hsaved : ∀ i < osTaskCount, (k'.tasks i).stackClaimed = true →
      Stacked img (k'.tasks i) False k'.ram ((k'.tasks i).savedPsp + 32) := fun i hi hci => by
    obtain ⟨b, hb⟩ := htask i
    rw [hb] at hci ⊢
    rw [hram]
    exact ((h.saved i hi hci).mono fun hx => hstay i hi hx.2).restarted b
  have hclaim' : (k'.tasks n).stackClaimed = true := by
    obtain ⟨b, hb⟩ := htask n
    rw [hb]
    exact hclaim
  have hpsp : (k'.tasks n).savedPsp = (k.tasks n).savedPsp := by
    obtain ⟨b, hb⟩ := htask n
    rw [hb]
  have hidle : (k'.tasks taskIdIdle).stackClaimed = true := by
    obtain ⟨b, hb⟩ := htask taskIdIdle
    rw [hb]
    exact h.idle
  exact
    { initialized := hinit.trans h.initialized
      idle := hidle
      claimed := hclaimed
      saved := fun i hi hci _ => hsaved i hi hci
      spsel := hact.symm
      current_lt := fun _ => hcur ▸ hlt
      live := fun _ => by
        change (k'.tasks k'.currentTask).stackClaimed = true ∧ Stacked img (k'.tasks k'.currentTask)
          ((k'.schedules k'.currentTask).state = .exiting) k'.ram ((k.tasks n).savedPsp + 32)
        rw [hcur, ← hpsp]
        exact ⟨hclaim', (hsaved _ hlt hclaim').mono False.elim⟩
      boot := fun hb => absurd (hact.symm.trans hb) (by decide) }

/-- **The commit of a switch never stops**, and resumes a task on its own stack. -/
theorem StackInv.commit (hc : ControlInv (ctl k)) (hheap : HeapOwned k) (h : StackInv img k)
    (hm : k.mode = .pendsvEntry) : ∃ k', pendsvCommit k = .ok k' ∧ StackInv img k' := by
  have hrun : k.running = true := by
    cases hact : k.hasActiveContext with
    | true => exact hc.started hact
    | false =>
      rcases (h.boot hact).phase with ⟨-, hm', -⟩ | ⟨hrun, -⟩
      · rw [hm] at hm'
        cases hm'
      · exact hrun
  obtain ⟨k₁, hsave, hctl₁, hmem₁, hpark₁⟩ := h.saveOutgoing hc hm
  have hheap₁ : HeapOwned k₁ := by
    obtain ⟨bs, hi, hown⟩ := hheap
    have hs : k₁.schedules = k.schedules := congrArg Ctl.schedules hctl₁
    exact ⟨bs, hmem₁ ▸ hi, fun b hb o ho => by rw [hs]; exact hown b hb o ho⟩
  obtain ⟨k₂, hret, hpark₂⟩ := hpark₁.retire (hctl₁ ▸ hc) hheap₁
  have hctl₂ : ctl k₂ = retired (ctl k) := by rw [← hctl₁]; exact (retired_ctl hret).1
  -- the task that is chosen is the one the control chooses
  have hnext : chooseNext k₂ = next (retired (ctl k)) := by rw [← hctl₂]; rfl
  have hsched : k₂.schedules = (retired (ctl k)).schedules := congrArg Ctl.schedules hctl₂
  have htable : TableInv k.monotonicTicks k₂.schedules fun i => (k₂.tasks i).stackClaimed := by
    have htable := hc.retired_table
    rw [← hctl₂] at htable
    exact htable
  have hlt : chooseNext k₂ < osTaskCount := hnext ▸ hc.next_ready.1
  have hready : (k₂.schedules (chooseNext k₂)).state = .ready := by
    rw [hsched, hnext]
    exact hc.next_ready.2
  have hstate : ∀ i < osTaskCount, (k₂.schedules i).state ≠ .running ∧
      (k₂.schedules i).state ≠ .exiting := fun i hi => by
    rw [hsched]
    exact hc.retired_state hi
  obtain ⟨hclaim, hvalid, hpos⟩ := hpark₂.incoming hlt htable hready
  have hsources : k.pendingPreemptSources ≠ 0 → k.currentTask ≠ taskIdInvalid ∧
      k.currentTask ≠ chooseNext k₂ := fun hs => by
    obtain ⟨-, -, hact, -⟩ := hc.request hs
    exact ⟨hc.active.mp hact, fun heq => hc.next_ne_current hs (hnext ▸ heq.symm)⟩
  have hrun₂ : k₂.running = true := by
    have hsame : (ctl k₂).running = (ctl k).running := by rw [hctl₂, retired_running]
    exact hsame.trans hrun
  have hverified : Verified (Switch.dispatched k₂ k.currentTask k.pendingPreemptSources
      (chooseNext k₂) (Switch.outgoingState k)) :=
    verified_dispatched hrun₂ hlt fun i hi => (hstate i hi).1
  exact ⟨_, pendsvCommit_eq_ok.mpr ⟨k₁, k₂, _, _, hsave, hret, dispatchNext_eq_ok.mpr
    ⟨⟨hready, hvalid⟩, hsources, hverified, rfl, rfl⟩, hpos, rfl⟩,
    hpark₂.dispatch hlt hclaim fun i hi => (hstate i hi).2⟩

end Aymos.Stacks
