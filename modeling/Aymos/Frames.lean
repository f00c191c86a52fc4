import Aymos.Handlers

/-!
Exception frames.

Exception entry and return undo each other when the interrupted thread's status register has
bit 9 clear. A supervisor call is decoded from the frame its own entry has pushed, so the
handler runs the service that was called.
-/

namespace Aymos.Frames

open Words Allocator Scheduler Trace WordMem Kernel Machine Handlers

/-! ### Blocks of registers in memory -/

/-- Reading a stored frame back. -/
@[simp] lemma load_words (m : Ram) (a : ℕ) (f : HwFrame) :
    HwFrame.load (writeWords m a f.words) a = f := by
  simp [HwFrame.load, HwFrame.words, writeWords]

@[simp] lemma callee_load_words (m : Ram) (a : ℕ) (c : Callee) :
    Callee.load (writeWords m a c.words) a = c := by
  simp [Callee.load, Callee.words, writeWords]

@[simp] lemma words_length (f : HwFrame) : f.words.length = 8 := rfl

@[simp] lemma callee_words_length (c : Callee) : c.words.length = 8 := rfl

lemma load_congr {m m' : Ram} {a : ℕ} (h : ∀ x, a ≤ x → x < a + 32 → m x = m' x) :
    HwFrame.load m a = HwFrame.load m' a := by
  simp only [HwFrame.load, h a (by omega) (by omega), h (a + 4) (by omega) (by omega),
    h (a + 8) (by omega) (by omega), h (a + 12) (by omega) (by omega),
    h (a + 16) (by omega) (by omega), h (a + 20) (by omega) (by omega),
    h (a + 24) (by omega) (by omega), h (a + 28) (by omega) (by omega)]

/-! ### Entry and return -/

/-- Where the frame of an exception goes. -/
def frameAt (sp : ℕ) : ℕ := sp - sp % 8 - 32

/-- The status register that is stacked. -/
def stackedXpsr (sp xpsr : ℕ) : ℕ := xpsr + if sp % 8 = 4 then 512 else 0

lemma testBit_nine (x : ℕ) : x.testBit 9 = decide (x / 512 % 2 = 1) := by
  rw [Nat.testBit_eq_decide_div_mod_eq]

/-- **Exception return undoes exception entry.** -/
lemma popFrame_load {ram : Ram} {sp : ℕ} {hw : HwFrame} (hx : hw.xpsr % 1024 = 0)
    (hsp : sp % 4 = 0) (hroom : 32 + sp % 8 ≤ sp)
    (hload : HwFrame.load ram (frameAt sp) = { hw with xpsr := stackedXpsr sp hw.xpsr }) :
    popFrame ram (frameAt sp) = (hw, sp) := by
  simp only [popFrame, hload, testBit_nine, decide_eq_true_eq, stackedXpsr]
  by_cases h8 : sp % 8 = 4
  · rw [if_pos h8, if_pos (by omega), Nat.add_sub_cancel, frameAt,
      show sp - sp % 8 - 32 + 36 = sp by omega]
  · rw [if_neg h8, Nat.add_zero, if_neg (by omega), frameAt,
      show sp - sp % 8 - 32 + 32 = sp by omega]

variable (img : Image)

/-- The kernel when an exception has been taken from a thread. -/
def entered (k : KernelState) : KernelState := (enterException img k).1

lemma enterException_eq (k : KernelState) :
    enterException img k = (entered img k, frameAt (threadSp img k)) := rfl

section EnteredFields

variable (k : KernelState)

@[simp] lemma entered_tasks : (entered img k).tasks = k.tasks := rfl
@[simp] lemma entered_schedules : (entered img k).schedules = k.schedules := rfl
@[simp] lemma entered_currentTask : (entered img k).currentTask = k.currentTask := rfl
@[simp] lemma entered_pendingPreemptSources :
    (entered img k).pendingPreemptSources = k.pendingPreemptSources := rfl
@[simp] lemma entered_monotonicTicks : (entered img k).monotonicTicks = k.monotonicTicks := rfl
@[simp] lemma entered_running : (entered img k).running = k.running := rfl
@[simp] lemma entered_hasActiveContext : (entered img k).hasActiveContext = k.hasActiveContext := rfl
@[simp] lemma entered_spsel : (entered img k).cpu.spsel = k.cpu.spsel := rfl

end EnteredFields

/-- What the stack holds on entry. -/
lemma load_entered (k : KernelState) :
    HwFrame.load (entered img k).ram (frameAt (threadSp img k)) =
      { k.cpu.hw with xpsr := stackedXpsr (threadSp img k) k.cpu.hw.xpsr } :=
  load_words ..

/-! ### Supervisor calls -/

/-- The kernel at the entry of the handler of an `svc`. -/
def svcEntry (k : KernelState) (service r0 : ℕ) : KernelState :=
  entered img { k with
    cpu := { k.cpu with hw := { k.cpu.hw with r0 := r0, pc := img.svcReturn service } } }

/-- The `EXC_RETURN` value the handler gets. -/
def excReturn (k : KernelState) : ℕ := if k.cpu.spsel then excReturnThreadPsp else excReturnThreadMsp

/-- The frame of the call is one the handler accepts. -/
def SvcFrameValid (k : KernelState) : Prop :=
  validSvcFrame img k (frameAt (threadSp img k)) (excReturn k) = true ∧
    (stackedXpsr (threadSp img k) k.cpu.hw.xpsr).testBit 24 = true ∧
    stackedXpsr (threadSp img k) k.cpu.hw.xpsr % 512 = 0

/-- The service the handler runs. -/
def runService (k : KernelState) (service excReturn r0 : ℕ) : Except Stop KernelState :=
  if service = svcStart then osSvcStart k excReturn
  else if service = svcYield then osSvcYield k excReturn
  else if service = svcSleep then osSvcSleep k excReturn r0
  else if service = svcExit then osSvcExit k excReturn
  else if service = svcWaitNextPeriod then osSvcWaitNextPeriod k excReturn
  else .error (.panic "SVC_NUMBER")

lemma decodeSvc_eq_ok {k : KernelState} {frame exc service n : ℕ} (hn : service < 5)
    (hpc : k.ram (frame + 24) = img.svcReturn service) :
    decodeSvc img k frame exc = .ok n ↔
      validSvcFrame img k frame exc = true ∧ (k.ram (frame + 28)).testBit 24 = true ∧
        k.ram (frame + 28) % 512 = 0 ∧ n = service := by
  have heven := img.svc_even service hn
  have hflash := img.svc_flash service hn
  have hop := img.svc_opcode service hn
  have hpcok : ¬(img.svcReturn service % 2 = 1 ∨ img.svcReturn service < flashStart + 2 ∨
      img.svcReturn service ≥ flashEnd) := by omega
  have hcode : ¬img.opcode (img.svcReturn service - 2) / 256 ≠ 0xDF := by omega
  rw [decodeSvc, hpc]
  simp only [ite_error_eq_ok, hpcok, hcode, not_false_iff, true_and, not_or, ne_eq, not_not,
    Bool.not_eq_true', Bool.not_eq_false, Except.ok.injEq]
  rw [show img.opcode (img.svcReturn service - 2) % 256 = service by omega]
  constructor
  · rintro ⟨⟨h1, h2, h3⟩, rfl⟩
    exact ⟨h1, h2, h3, rfl⟩
  · rintro ⟨h1, h2, h3, rfl⟩
    exact ⟨⟨h1, h2, h3⟩, rfl⟩

lemma osSvcDispatch_eq (k : KernelState) (frame exc : ℕ) :
    osSvcDispatch img k frame exc =
      decodeSvc img k frame exc >>= fun n =>
        runService k n exc (k.ram frame) >>= fun k₁ => .ok (requestPendsv k₁) := by
  rw [osSvcDispatch]
  congr 1
  funext n
  simp only [runService]
  split_ifs <;> rfl

/-- **A supervisor call** runs the service that was called. -/
theorem supervisorCall_eq_ok {k k' : KernelState} {service r0 : ℕ} (hn : service < 5) :
    supervisorCall img k service r0 = .ok k' ↔
      k.cpu.primask = false ∧ SvcFrameValid img k ∧
        ∃ k₁, runService (svcEntry img k service r0) service (excReturn k) r0 = .ok k₁ ∧
          k' = leaveException (requestPendsv k₁) (frameAt (threadSp img k)) := by
  have hload := load_entered img { k with
    cpu := { k.cpu with hw := { k.cpu.hw with r0 := r0, pc := img.svcReturn service } } }
  have hpc : (svcEntry img k service r0).ram (frameAt (threadSp img k) + 24) =
      img.svcReturn service := congrArg HwFrame.pc hload
  have hxpsr : (svcEntry img k service r0).ram (frameAt (threadSp img k) + 28) =
      stackedXpsr (threadSp img k) k.cpu.hw.xpsr := congrArg HwFrame.xpsr hload
  have hr0 : (svcEntry img k service r0).ram (frameAt (threadSp img k)) = r0 :=
    congrArg HwFrame.r0 hload
  obtain ⟨entry, hentry⟩ : ∃ entry, entry = svcEntry img k service r0 := ⟨_, rfl⟩
  have hcall : supervisorCall img k service r0 =
      if k.cpu.primask then .error (.panic "HARDFAULT")
      else (osSvcDispatch img entry (frameAt (threadSp img k)) (excReturn k)) >>= fun k₁ =>
        .ok (leaveException k₁ (frameAt (threadSp img k))) := by
    rw [hentry]
    rfl
  rw [hcall, ite_error_eq_ok, osSvcDispatch_eq, Bool.not_eq_true]
  simp only [bind_eq_ok, hentry, hr0, decodeSvc_eq_ok img hn hpc, hxpsr, Except.ok.injEq]
  constructor
  · rintro ⟨hmask, _, ⟨_, ⟨hvalid, hbit, hmod, rfl⟩, k₁, hrun, rfl⟩, rfl⟩
    exact ⟨hmask, ⟨hvalid, hbit, hmod⟩, k₁, hrun, rfl⟩
  · rintro ⟨hmask, ⟨hvalid, hbit, hmod⟩, k₁, hrun, rfl⟩
    exact ⟨hmask, _, ⟨_, ⟨hvalid, hbit, hmod, rfl⟩, k₁, hrun, rfl⟩, rfl⟩

end Aymos.Frames
