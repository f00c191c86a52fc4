import Aymos.EmissionLog
import Aymos.Startup

/-!
Runs of the sample image, by their control.

A stage is a control that a disciplined run without memory calls reaches, with the log of that run.
A run that is there goes on by every step that the control allows, so that longer runs are put
together from facts about closed controls.
-/

namespace Aymos.Scenario

open Words Allocator HeapRepr HeapOps HeapCalls Scheduler Trace WordMem Kernel Machine Handlers Frames
  Services Switch Slots Control Boot Ownership EmissionLog Stacks Safety Startup

variable {c c' : Ctl} {log : Log} {k k₁ : KernelState} {l : Label} {bs : List (List TraceInput)}
  {labels labels₁ : List Label}

/-- Nobody owns a block of the heap. -/
def Unowned (k : KernelState) : Prop :=
  ∃ bs, HeapInv .arm32 k.memoryAllocator bs ∧ ∀ b ∈ bs, b.owner = none

/-- A control that a disciplined run reaches, with nobody owning a block. -/
def Stage (c : Ctl) (log : Log) : Prop :=
  ∃ labels k, Logged sampleImage Disciplined labels k log ∧ ctl k = c ∧ Unowned k

/-- The control after `os_kernel_init`. -/
def bootCtl : Ctl := ctl (booted sampleImage (fun _ => 0) (fun _ => 0) sampleEntry)

lemma unowned_booted (m : ByteMem.Mem) (ram : Ram) (pc : ℕ) :
    Unowned (booted sampleImage m ram pc) := by
  obtain ⟨bs, hi, hown⟩ := heapOwned_booted sampleImage m ram pc
  refine ⟨bs, hi, fun b hb => Option.eq_none_iff_forall_ne_some.mpr fun o ho => ?_⟩
  obtain ⟨hu, hlive⟩ := hown b hb o ho
  have hdormant : ∀ o ∈ userSlots, (bootSchedules o).state = .dormant := by decide
  exact hlive (hdormant o hu)

lemma stage_boot : Stage bootCtl [] := ⟨[], _, .boot sampleEntry_user, rfl, unowned_booted _ _ _⟩

/-- **Nobody owns a block** as long as nobody asks for one. -/
lemma Unowned.step (h : Unowned k) (hc : ControlInv (ctl k)) (hs : Step sampleImage k l k')
    (hl : reachesHeap l = true → l = .pendCommit) : Unowned k' := by
  obtain ⟨bs, hi, hnone⟩ := h
  cases hreach : reachesHeap l with
  | false =>
    refine ⟨bs, ?_, hnone⟩
    rw [memory_frame sampleImage (ControlInv.wellIndexed hc) hs hreach]
    exact hi
  | true =>
    obtain rfl := hl hreach
    by_cases hexits : Exits k
    · obtain ⟨bs', hi', hblocks, -⟩ := reclaim_blocks hi hs.exec hexits
      refine ⟨bs', hi', fun b hb => Option.eq_none_iff_forall_ne_some.mpr fun o ho => ?_⟩
      have hno := hnone b ((hblocks b o ho).mp hb).1
      rw [hno] at ho
      cases ho
    · refine ⟨bs, ?_, hnone⟩
      rw [commit_memory hs.exec hexits]
      exact hi

/-- A run has not gone on, or only by the entry of a task. -/
def Settles (labels : List Label) (k : KernelState) (labels₁ : List Label) (k₁ : KernelState) :
    Prop :=
  (labels₁ = labels ∧ k₁ = k) ∨ (labels₁ = .trampoline :: labels ∧
    Step sampleImage k .trampoline k₁ ∧ Emitted k .trampoline k₁ [])

lemma Settles.unowned (h : Settles labels k labels₁ k₁) (hc : ControlInv (ctl k))
    (hnone : Unowned k) : Unowned k₁ := by
  rcases h with ⟨-, rfl⟩ | ⟨-, hs, -⟩
  · exact hnone
  · exact hnone.step hc hs nofun

/-- **Every run** to the control `c` goes on by the step `l` to the control `c'`. -/
def Goes (c : Ctl) (log : Log) (l : Label) (c' : Ctl) (bs : List (List TraceInput)) : Prop :=
  ∀ labels k, Logged sampleImage Disciplined labels k log → ctl k = c →
    (l = .pendCommit → Unowned k) →
    ∃ labels₁ k₁ k', Settles labels k labels₁ k₁ ∧ Logged sampleImage Disciplined labels₁ k₁ log ∧
      ctl k₁ = c ∧ Disciplined k₁ l ∧ Step sampleImage k₁ l k' ∧ Emitted k₁ l k' bs ∧ ctl k' = c' ∧
      (Unowned k → Unowned k')

/-- A stage from which a step has been taken. -/
lemma Stage.step (h : Stage c log) (hg : Goes c log l c' bs) :
    ∃ labels k k', Logged sampleImage Disciplined labels k log ∧ ctl k = c ∧ Disciplined k l ∧
      Step sampleImage k l k' ∧ Emitted k l k' bs ∧ ctl k' = c' ∧ Unowned k' := by
  obtain ⟨labels, k, hr, hctl, hnone⟩ := h
  obtain ⟨labels₁, k₁, k', -, hr₁, hctl₁, hd, hs, he, hctl', hkeeps⟩ :=
    hg labels k hr hctl fun _ => hnone
  exact ⟨labels₁, k₁, k', hr₁, hctl₁, hd, hs, he, hctl', hkeeps hnone⟩

/-- **One more step.** -/
lemma Stage.go (h : Stage c log) (hg : Goes c log l c' bs) :
    Stage c' (log ++ entries c'.ticks bs) := by
  obtain ⟨labels, k, k', hr, -, hd, hs, he, rfl, hnone⟩ := h.step hg
  exact ⟨_, k', hr.step hd hs he, rfl, hnone⟩

/-- One more step, which emits nothing. -/
lemma Stage.pass (h : Stage c log) (hg : Goes c log l c' []) : Stage c' log := by
  rw [← List.append_nil log]
  exact h.go hg

/-- The step from a state. -/
lemma take (hsettles : Settles labels k labels₁ k₁)
    (hr : Logged sampleImage Disciplined labels k log)
    (hr₁ : Logged sampleImage Disciplined labels₁ k₁ log)
    (hen : enabled sampleImage k₁ l = true) (hd : Disciplined k₁ l)
    (hl : reachesHeap l = true → l = .pendCommit)
    (hto : ∀ k' bs', Step sampleImage k₁ l k' → Emitted k₁ l k' bs' → ctl k' = c' ∧ bs' = bs) :
    ∃ labels₂ k₂ k', Settles labels k labels₂ k₂ ∧ Logged sampleImage Disciplined labels₂ k₂ log ∧
      ctl k₂ = ctl k₁ ∧ Disciplined k₂ l ∧ Step sampleImage k₂ l k' ∧ Emitted k₂ l k' bs ∧
      ctl k' = c' ∧ (Unowned k → Unowned k') := by
  have hinv := safeInv_of_reaches hr₁.reaches
  obtain ⟨k', hexec, -⟩ := hinv.progress hen hd
  obtain ⟨bs', he⟩ := emitted_of_step hinv.control ⟨hen, hexec⟩
  obtain ⟨rfl, rfl⟩ := hto k' bs' ⟨hen, hexec⟩ he
  exact ⟨labels₁, k₁, k', hsettles, hr₁, rfl, hd, ⟨hen, hexec⟩, he, rfl, fun hnone =>
    (hsettles.unowned hr.reaches.control hnone).step hinv.control ⟨hen, hexec⟩ hl⟩

/-! ### Exceptions -/

lemma Goes.tick (hrun : c.running = true) (hmask : c.masked = false)
    (hclock : c.ticks + 1 < 2 ^ 63) (hit : tickHits c = false) :
    Goes c log .tick (ticked c) (tickAllBatches (c.ticks + 1) c.schedules userSlots) := by
  rintro labels k hr rfl hnone
  refine take (.inl ⟨rfl, rfl⟩) hr hr ?_ hclock nofun fun k' bs' _ he => ?_
  · have hmask : k.cpu.primask = false := hmask
    simp [enabled, hmask]
  · have hctl := he.control
    generalize ctl k' = c' at hctl
    cases hctl with
    | quiet hq => cases hq
    | memory hq => cases hq
    | bootTick hno => exact absurd (hrun.symm.trans hno) (by decide)
    | tick => exact ⟨rfl, rfl⟩
    | tickPreempt _ _ _ _ hhit => exact absurd (hhit.symm.trans hit) (by decide)

lemma Goes.tickPreempt (hrun : c.running = true) (hmask : c.masked = false)
    (hclock : c.ticks + 1 < 2 ^ 63) (hit : tickHits c = true) :
    Goes c log .tick (preempt (ticked c))
      (tickAllBatches (c.ticks + 1) c.schedules userSlots ++
        [selectionInputs (ticked c).schedules osTaskCount (probeCandidate (ticked c).schedules)
          c.current taskIdInvalid .systickProbe]) := by
  rintro labels k hr rfl hnone
  refine take (.inl ⟨rfl, rfl⟩) hr hr ?_ hclock nofun fun k' bs' _ he => ?_
  · have hmask : k.cpu.primask = false := hmask
    simp [enabled, hmask]
  · have hctl := he.control
    generalize ctl k' = c' at hctl
    cases hctl with
    | quiet hq => cases hq
    | memory hq => cases hq
    | bootTick hno => exact absurd (hrun.symm.trans hno) (by decide)
    | tick _ _ _ _ hno => exact absurd (hit.symm.trans hno) (by decide)
    | tickPreempt => exact ⟨rfl, rfl⟩

lemma Goes.pendEnter (hm : c.mode = .thread) (hp : c.pendsv = true) (hmask : c.masked = false) :
    Goes c log .pendEnter { c with mode := .pendsvEntry, pendsv := false } [] := by
  rintro labels k hr rfl hnone
  refine take (.inl ⟨rfl, rfl⟩) hr hr ?_ trivial nofun fun k' bs' _ he => ?_
  · have hm : k.mode = .thread := hm
    have hp : k.cpu.pendsv = true := hp
    have hmask : k.cpu.primask = false := hmask
    simp [enabled, hm, hp, hmask]
  · have hctl := he.control
    generalize ctl k' = c' at hctl
    cases hctl with
    | quiet hq => cases hq
    | memory hq => cases hq
    | pendEnter => exact ⟨rfl, rfl⟩

/-- A commit, with the reclaim of an exiting task that owns nothing. -/
lemma Goes.pendCommit (hm : c.mode = .pendsvEntry) :
    Goes c log .pendCommit (resumed (retired c) (next (retired c)))
      (commitBatches c (retired c) []) := by
  rintro labels k hr rfl hnone
  refine take (l := .pendCommit) (.inl ⟨rfl, rfl⟩) hr hr ?_ trivial (fun _ => rfl)
    fun k' bs' _ he => ?_
  · have hm : k.mode = .pendsvEntry := hm
    simp [enabled, hm]
  · obtain ⟨freed, hfreed, rfl⟩ := he.commit rfl
    have hnothing : freed = [] := by
      rcases hfreed with ⟨-, rfl⟩ | ⟨-, heap, released, hrelease, rfl⟩
      · rfl
      · obtain ⟨bs, hi, hnone⟩ := hnone rfl
        obtain ⟨heap', hspec, -⟩ := releaseOwner_spec hi k.currentTask
        have hzero : heldBy k.currentTask bs = 0 := List.countP_eq_zero.mpr fun b hb => by
          simp [hnone b hb]
        rw [hspec, hzero, Option.some.injEq, Prod.mk.injEq] at hrelease
        rw [← hrelease.2]
        rfl
    subst hnothing
    exact ⟨(commit_inv he.control).after, rfl⟩

lemma Goes.pendReturn (hm : c.mode = .pendsvExit) :
    Goes c log .pendReturn { c with mode := .thread } [] := by
  rintro labels k hr rfl hnone
  refine take (.inl ⟨rfl, rfl⟩) hr hr ?_ trivial nofun fun k' bs' _ he => ?_
  · have hm : k.mode = .pendsvExit := hm
    simp [enabled, hm]
  · have hctl := he.control
    generalize ctl k' = c' at hctl
    cases hctl with
    | quiet hq => cases hq
    | memory hq => cases hq
    | pendReturn => exact ⟨rfl, rfl⟩

/-! ### Threads -/

lemma executes_of_executing (h : executing (ctl k)) : executes k = true := by
  obtain ⟨hm, hp⟩ := h
  have hm : k.mode = .thread := hm
  have hp : k.cpu.pendsv = true → k.cpu.primask = true := hp
  cases hpend : k.cpu.pendsv with
  | false => simp [executes, hm, hpend]
  | true => simp [executes, hm, hp hpend]

/-- **A thread that executes** gets to the application, if it is not yet there. -/
lemma settle (hr : Logged sampleImage Disciplined labels k log) (hex : executing (ctl k))
    (hact : (ctl k).running = true → (ctl k).active = true) :
    ∃ labels₁ k₁, Settles labels k labels₁ k₁ ∧ Logged sampleImage Disciplined labels₁ k₁ log ∧
      ctl k₁ = ctl k ∧ atUser sampleImage k₁ = true := by
  have hinv := safeInv_of_reaches hr.reaches
  have hexk := executes_of_executing hex
  cases hpc : isUserPc sampleImage k.cpu.hw.pc with
  | true => exact ⟨labels, k, .inl ⟨rfl, rfl⟩, hr, rfl, by simp [atUser, hexk, hpc]⟩
  | false =>
    rcases hinv.kernelInv.point hexk hpc with ⟨hno, hrun, -, -⟩ | ⟨hyes, hentry, -⟩
    · exact absurd ((hact hrun).symm.trans hno) (by decide)
    · -- the task is at its entry
      have hen : enabled sampleImage k .trampoline = true := by simp [enabled, hexk, hentry]
      obtain ⟨k', hexec, -⟩ := hinv.progress hen trivial
      have hlt := hinv.stack.current_lt hyes
      have huser := (hinv.stack.claimed _ hlt (hinv.stack.live hyes).1).entry
      have hexec' := hexec
      simp only [exec, taskEntryTrampoline, ite_error_eq_ok, Except.ok.injEq] at hexec
      obtain ⟨-, rfl⟩ := hexec
      have he : Emitted k .trampoline { k with cpu.hw.pc := (k.tasks k.currentTask).entry } [] :=
        ⟨.quiet rfl, by rw [Emits, emitAll_nil], fun hl => by cases hl⟩
      have hstep := hr.step (l := .trampoline) trivial ⟨hen, hexec'⟩ he
      rw [show entries _ [] = [] from rfl, List.append_nil] at hstep
      refine ⟨_, _, .inr ⟨rfl, ⟨hen, hexec'⟩, he⟩, hstep, rfl, ?_⟩
      rw [atUser, Bool.and_eq_true]
      exact ⟨hexk, huser⟩

lemma Goes.primask (hex : executing c) (hact : c.running = true → c.active = true)
    (masked : Bool) : Goes c log (.primask masked) { c with masked := masked } [] := by
  rintro labels k hr rfl hnone
  obtain ⟨labels₁, k₁, hset, hr₁, hctl, hat⟩ := settle hr hex hact
  rw [← hctl]
  refine take hset hr hr₁ hat trivial nofun fun k' bs' _ he => ?_
  have hctl := he.control
  generalize ctl k' = c' at hctl
  cases hctl with
  | quiet hq => cases hq
  | memory hq => cases hq
  | primask => exact ⟨rfl, rfl⟩

lemma Goes.yield (hex : executing c) (hcaller : userCalls c) (hmask : c.masked = false) :
    Goes c log .yield
      { called c switchYield (inState (incumbent c) .ready) with excluded := c.current }
      [[record .taskYield c.current traceTaskInvalid 0 0 0]] := by
  rintro labels k hr rfl hnone
  obtain ⟨labels₁, k₁, hset, hr₁, hctl, hat⟩ := settle hr hex fun _ => hcaller.2.2.2.2.1
  rw [← hctl] at hcaller hmask ⊢
  obtain ⟨-, hrun, -, -, -, hidle⟩ := hcaller
  refine take hset hr hr₁ hat ⟨⟨hrun, hidle⟩, hmask⟩ nofun fun k' bs' _ he => ?_
  have hctl := he.control
  generalize ctl k' = c' at hctl
  cases hctl with
  | quiet hq => cases hq
  | memory hq => cases hq
  | yield => exact ⟨rfl, rfl⟩

/-- A supervisor call that is accepted requests a switch. -/
lemma supervisorCall_pends {img : Image} {k k' : KernelState} {service r0 : ℕ} (hn : service < 5)
    (h : supervisorCall img k service r0 = .ok k') : (ctl k').pendsv = true := by
  obtain ⟨-, -, k₁, -, rfl⟩ := (supervisorCall_eq_ok img hn).mp h
  rfl

lemma pendsv_of_executing (hex : executing c) (hmask : c.masked = false) : c.pendsv = false :=
  Bool.eq_false_iff.mpr fun hp => absurd ((hex.2 hp).symm.trans hmask) (by decide)

lemma Goes.sleep (hex : executing c) (hcaller : userCalls c) (hmask : c.masked = false) {ticks : ℕ}
    (hpos : 0 < ticks) (hmax : ticks ≤ maxSleepTicks) {t : SchedTask}
    (hsleep : osSchedSleep (incumbent c) c.ticks ticks = (t, true)) :
    Goes c log (.sleep ticks) (called c switchSleep t)
      [[record .taskSleep c.current traceTaskInvalid (u32 t.wakeOrder) (u32 (t.wakeOrder / 2 ^ 32))
        ticks]] := by
  rintro labels k hr rfl hnone
  obtain ⟨labels₁, k₁, hset, hr₁, hctl, hat⟩ := settle hr hex fun _ => hcaller.2.2.2.2.1
  rw [← hctl] at hex hcaller hmask hsleep ⊢
  have hidle := pendsv_of_executing hex hmask
  obtain ⟨-, hrun, hlt, -, -, huser⟩ := hcaller
  have hrun : k₁.running = true := hrun
  have hlt : k₁.currentTask < osTaskCount := hlt
  have hvalid : k₁.currentTask ≠ taskIdInvalid := ne_invalid_of_lt hlt
  refine take hset hr hr₁ hat ⟨⟨hrun, huser⟩, fun _ _ => hmask⟩ nofun fun k' bs' hs he => ?_
  have hpends : (ctl k').pendsv = true := by
    have hexec := hs.exec
    rw [exec, osSleep, if_neg] at hexec
    · exact supervisorCall_pends (by decide) hexec
    · simp only [hrun, hvalid, Bool.not_true, Bool.false_eq_true, false_or]
      omega
  have hctl := he.control
  generalize ctl k' = c' at hctl hpends
  cases hctl with
  | quiet => exact absurd (hpends.symm.trans hidle) (by decide)
  | memory _ _ => exact absurd (hpends.symm.trans hidle) (by decide)
  | sleep _ ht =>
    obtain ⟨rfl, -⟩ := Prod.mk.inj (ht.symm.trans hsleep)
    exact ⟨rfl, rfl⟩

lemma Goes.waitNextPeriod (hex : executing c) (hcaller : userCalls c) (hmask : c.masked = false)
    (hkind : (incumbent c).kind = .periodic) {t : SchedTask}
    (hwait : osSchedWaitNextPeriod (incumbent c) c.ticks = (t, true)) :
    Goes c log .waitNextPeriod (called c switchWaitPeriod t)
      (outcomeBatches (incumbent c).deadlineMissLatched c.current t ++
        [[record .taskWaitPeriod c.current traceTaskInvalid (u32 t.nextReleaseOrder)
          (u32 (t.nextReleaseOrder / 2 ^ 32)) 0]]) := by
  rintro labels k hr rfl hnone
  obtain ⟨labels₁, k₁, hset, hr₁, hctl, hat⟩ := settle hr hex fun _ => hcaller.2.2.2.2.1
  rw [← hctl] at hex hcaller hmask hkind hwait ⊢
  have hidle := pendsv_of_executing hex hmask
  obtain ⟨-, hrun, hlt, -, -, huser⟩ := hcaller
  have hrun : k₁.running = true := hrun
  have hlt : k₁.currentTask < osTaskCount := hlt
  have hvalid : k₁.currentTask ≠ taskIdInvalid := ne_invalid_of_lt hlt
  have hkind : (k₁.schedules k₁.currentTask).kind = .periodic := hkind
  refine take hset hr hr₁ hat ⟨⟨hrun, huser⟩, fun _ => hmask⟩ nofun fun k' bs' hs he => ?_
  have hpends : (ctl k').pendsv = true := by
    have hexec := hs.exec
    rw [exec, osWaitNextPeriod, if_neg] at hexec
    · exact supervisorCall_pends (by decide) hexec
    · simp [hrun, hkind, hvalid]
  have hctl := he.control
  generalize ctl k' = c' at hctl hpends
  cases hctl with
  | quiet => exact absurd (hpends.symm.trans hidle) (by decide)
  | memory _ _ => exact absurd (hpends.symm.trans hidle) (by decide)
  | waitNextPeriod _ _ ht =>
    obtain ⟨rfl, -⟩ := Prod.mk.inj (ht.symm.trans hwait)
    exact ⟨rfl, rfl⟩

lemma Goes.taskExit (hex : executing c) (hcaller : userCalls c) (hmask : c.masked = false)
    {t : SchedTask} (hjob : osSchedCompleteJob (incumbent c) c.ticks = (t, true)) :
    Goes c log .taskExit (called c switchExit (inState t .exiting))
      (outcomeBatches (incumbent c).deadlineMissLatched c.current t ++
        [[record .taskExit c.current traceTaskInvalid t.completedJobCount t.deadlineMissCount
          0]]) := by
  rintro labels k hr rfl hnone
  obtain ⟨labels₁, k₁, hset, hr₁, hctl, hat⟩ := settle hr hex fun _ => hcaller.2.2.2.2.1
  rw [← hctl] at hcaller hmask hjob ⊢
  obtain ⟨-, hrun, -, -, -, huser⟩ := hcaller
  refine take hset hr hr₁ hat ⟨⟨hrun, huser⟩, hmask⟩ nofun fun k' bs' _ he => ?_
  have hctl := he.control
  generalize ctl k' = c' at hctl
  cases hctl with
  | quiet hq => cases hq
  | memory hq => cases hq
  | taskExit _ _ ht =>
    obtain ⟨rfl, -⟩ := Prod.mk.inj (ht.symm.trans hjob)
    exact ⟨rfl, rfl⟩

lemma Goes.kernelStart (hex : executing c) (hrun : c.running = false) (hmask : c.masked = false) :
    Goes c log .kernelStart { c with running := true, cause := switchStart }
      [[record .kernelStart traceTaskInvalid traceTaskInvalid 0 osTaskCount 0]] := by
  rintro labels k hr rfl hnone
  obtain ⟨labels₁, k₁, hset, hr₁, hctl, hat⟩ := settle hr hex fun hr =>
    absurd (hr.symm.trans hrun) (by decide)
  rw [← hctl] at hrun hmask ⊢
  refine take hset hr hr₁ hat ⟨hrun, hmask⟩ nofun fun k' bs' _ he => ?_
  have hctl := he.control
  generalize ctl k' = c' at hctl
  cases hctl with
  | quiet hq => cases hq
  | memory hq => cases hq
  | kernelStart => exact ⟨rfl, rfl⟩

lemma Goes.startSvc (hex : executing c) (hrun : c.running = true) (hact : c.active = false)
    (hpend : c.pendsv = false) : Goes c log .startSvc { c with pendsv := true } [] := by
  rintro labels k hr rfl hnone
  have hinv := safeInv_of_reaches hr.reaches
  refine take (.inl ⟨rfl, rfl⟩) hr hr ?_ trivial nofun fun k' bs' _ he => ?_
  · exact enabled_startSvc hinv hex hrun hact hpend
  · have hctl := he.control
    generalize ctl k' = c' at hctl
    cases hctl with
    | quiet hq => cases hq
    | memory hq => cases hq
    | startSvc => exact ⟨rfl, rfl⟩

/-- The slot a creation takes. -/
def slotOf (c : Ctl) : Option ℕ :=
  (List.range' 1 maxUserTasks).find? fun i => (c.schedules i).state = .dormant && !c.claimed i

/-- A task of the sample image with a timing of its own. -/
def sampleConfig (timing : TaskTimingConfig) : TaskConfig :=
  { entry := sampleEntry
    argument := 0
    stackSize := 512
    timing := timing }

/-- The control after a creation in slot `i` with a timing of its own. -/
def createIn (c : Ctl) (i : ℕ) (timing : TaskTimingConfig) : Ctl :=
  filled c i (osSchedTaskConfigure (c.schedules i) timing c.ticks).1

/-- **A creation** by a thread that executes. -/
lemma Goes.create (timing : TaskTimingConfig) {i : ℕ} (hex : executing c)
    (hcaller : c.running = true → userCalls c) (hvalid : osSchedConfigValid timing = true)
    (hslot : slotOf c = some i)
    (hconf : (osSchedTaskConfigure (c.schedules i) timing c.ticks).2 = true) :
    Goes c log (.create (sampleConfig timing)) (announced (createIn c i timing) i)
      (creationBatches (createIn c i timing) i) := by
  rintro labels k hr rfl hnone
  obtain ⟨labels₁, k₁, hset, hr₁, hctl, hat⟩ := settle hr hex fun hr => (hcaller hr).2.2.2.2.1
  rw [← hctl] at hex hcaller hslot hconf ⊢
  obtain ⟨t, ht⟩ : ∃ t, t = (osSchedTaskConfigure (k₁.schedules i) timing k₁.monotonicTicks).1 :=
    ⟨_, rfl⟩
  have hinv := safeInv_of_reaches hr₁.reaches
  have hentry : sampleEntry ≠ 0 := by decide
  have hsize : minStackSize ≤ 512 ∧ 512 ≤ maxStackSize ∧ 512 % 8 = 0 := by decide
  have href : createRefused k₁ (sampleConfig timing) = false := by
    refine createRefused_eq_false.mpr ⟨hinv.stack.initialized, hentry, hsize.1, hsize.2.1,
      hsize.2.2, hvalid, hex.1, fun hrun => ?_⟩
    obtain ⟨-, -, hlt, hs, hact, hidle⟩ := hcaller hrun
    exact ⟨callerIsRunningTask_iff.mpr ⟨hrun, hlt, hs, hact⟩, hidle⟩
  have hslot : freeSlot k₁ = some i := hslot
  have hconf : osSchedTaskConfigure (k₁.schedules i) (sampleConfig timing).timing
      k₁.monotonicTicks = (t, true) := Prod.ext ht.symm hconf
  have hen : enabled sampleImage k₁ (.create (sampleConfig timing)) = true := by
    simp [enabled, hat, sampleConfig, sampleEntry_user]
  obtain ⟨k', hexec, -⟩ := hinv.progress hen trivial
  have hexec' := hexec
  obtain ⟨⟨k₂, r⟩, hcreate, rfl⟩ := map_eq_ok.mp hexec
  rw [osTaskCreate_eq sampleImage (ControlInv.wellIndexed hinv.control), href, hslot] at hcreate
  simp only [Bool.false_eq_true, if_false] at hcreate
  rw [hconf] at hcreate
  obtain ⟨-, -, hcreate⟩ := bind_eq_ok.mp hcreate
  cases hcreate
  obtain ⟨hsim, hring⟩ := created_simulates sampleImage (executes_of_executing hex) href hslot hconf
  have hctl' : ctl (created (placed sampleImage k₁ (sampleConfig timing) i t) i) =
      announced (filled (ctl k₁) i t) i := by
    rw [ctl_created, ctl_placed sampleImage]
  rw [createIn, show (osSchedTaskConfigure ((ctl k₁).schedules i) timing (ctl k₁).ticks).1 = t from
    ht.symm]
  exact ⟨labels₁, k₁, _, hset, hr₁, rfl, trivial, ⟨hen, hexec'⟩,
    ⟨hsim, hring, fun hl => by cases hl⟩, hctl', fun hnone =>
      (hset.unowned hr.reaches.control hnone).step hinv.control ⟨hen, hexec'⟩
        fun hl => by cases hl⟩

/-! ### From the boot to a running task -/

lemma entries_append (tick : ℕ) (bs bs' : List (List TraceInput)) :
    entries tick (bs ++ bs') = entries tick bs ++ entries tick bs' := by
  simp [entries]

/-- The control when the first task has been dispatched. -/
def launched (c : Ctl) : Ctl :=
  { resumed (startedCtl c) (next (startedCtl c)) with mode := .thread }

/-- The batches from the start to the first dispatch. -/
def launchBatches (c : Ctl) : List (List TraceInput) :=
  [[record .kernelStart traceTaskInvalid traceTaskInvalid 0 osTaskCount 0]] ++
    commitBatches (startedCtl c) (startedCtl c) []

/-- **The start**, up to the first task. -/
lemma Stage.launch (h : Stage c log) (hex : executing c) (hrun : c.running = false)
    (hmask : c.masked = false) (hact : c.active = false) (hpend : c.pendsv = false)
    (hcur : c.current = taskIdInvalid) :
    Stage (launched c) (log ++ entries c.ticks (launchBatches c)) := by
  have hstart := h.go (.kernelStart hex hrun hmask)
  have hsvc := hstart.pass (.startSvc hex rfl hact hpend)
  have hentry : Stage (startedCtl c) _ := hsvc.pass (.pendEnter hex.1 rfl hmask)
  have hret : retired (startedCtl c) = startedCtl c := if_pos hcur
  have hcommit := hentry.go (.pendCommit rfl)
  rw [hret] at hcommit
  have hreturn := hcommit.pass (.pendReturn rfl)
  rw [launchBatches, entries_append, ← List.append_assoc]
  exact hreturn

/-- A one-shot task. -/
def oneShot (delay deadline : ℕ) : TaskTimingConfig :=
  { kind := .oneShot
    initialReleaseDelayTicks := delay
    periodTicks := 0
    relativeDeadlineTicks := deadline
    executionBudgetTicks := 1
    priority := 0 }

/-- Boot with one task. -/
def soloCtl (timing : TaskTimingConfig) : Ctl := announced (createIn bootCtl 1 timing) 1

def soloLog (timing : TaskTimingConfig) : Log :=
  entries 0 (creationBatches (createIn bootCtl 1 timing) 1)

/-- **A single task** before its first instruction. -/
lemma stage_solo (timing : TaskTimingConfig) (hvalid : osSchedConfigValid timing = true)
    (hconf : (osSchedTaskConfigure (osSchedTaskReset 1) timing 0).2 = true) :
    Stage (soloCtl timing) (soloLog timing) :=
  stage_boot.go (.create timing ⟨rfl, fun h => nomatch h⟩ (fun h => nomatch h) hvalid rfl hconf)

/-- **A single task** up to its first instruction. -/
lemma stage_launched (timing : TaskTimingConfig) (hvalid : osSchedConfigValid timing = true)
    (hconf : (osSchedTaskConfigure (osSchedTaskReset 1) timing 0).2 = true) :
    Stage (launched (soloCtl timing)) (soloLog timing ++
      entries (soloCtl timing).ticks (launchBatches (soloCtl timing))) :=
  (stage_solo timing hvalid hconf).launch ⟨rfl, fun h => nomatch h⟩ rfl rfl rfl rfl rfl

end Aymos.Scenario
