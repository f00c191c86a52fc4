import Aymos.Boot

/-!
The kernel's heap and who owns its blocks.

Each call of the allocator by the kernel keeps the allocator's invariant, and an owner
appears on a block only when the running task allocates it. An owner's slot is left only by the
switch that releases the owner's blocks.
-/

namespace Aymos.Ownership

open Words ByteMem Allocator HeapRepr HeapBlocks HeapOps HeapCalls Tiling Scheduler Trace WordMem
  Kernel Machine Handlers Frames Services Switch Slots Control Boot

/-! ### The owners after a call -/

section Calls

variable {T : Target} {h h' : Heap} {bs : List Blk}

/-- Every owner on the chain `bs'` was there before, or is `owner`. -/
def OwnersWithin (bs bs' : List Blk) (owner : ℕ) : Prop :=
  ∀ b ∈ bs', ∀ o, b.owner = some o → b ∈ bs ∨ o = owner

lemma alloc_owners (hi : HeapInv T h bs) {size owner r : ℕ} (ho : owner ≤ uint16Max)
    (hrun : osAllocatorAlloc T h size owner = some (h', r)) :
    ∃ bs', HeapInv T h' bs' ∧ OwnersWithin bs bs' owner := by
  rcases alloc_cases hi size ho with hfail | ⟨pre, b, post, n, rfl, hfree, hlt, hn, hfit, hok⟩
  · rw [hfail, Option.some.injEq, Prod.mk.injEq] at hrun
    obtain ⟨rfl, rfl⟩ := hrun
    exact ⟨bs, heapInv_of_ctl hi rfl rfl rfl rfl, fun b hb _ _ => Or.inl hb⟩
  · rw [hok, Option.some.injEq, Prod.mk.injEq] at hrun
    obtain ⟨rfl, rfl⟩ := hrun
    obtain ⟨hn8, hn'⟩ := alignUpSize_mod hn
    obtain ⟨hinv, -, -⟩ := takeBlock_spec hi hfree hn8 hn' hfit hlt
    refine ⟨_, hinv, fun d hd o hdo => ?_⟩
    rw [List.mem_append, List.mem_append] at hd
    rcases hd with hd | hd | hd
    · exact Or.inl (by simp [hd])
    · right
      rw [carve] at hd
      split_ifs at hd
      all_goals simp only [List.mem_cons, List.not_mem_nil, or_false] at hd
      · rcases hd with rfl | rfl
        · exact (Option.some.inj hdo).symm
        · cases hdo
      · subst hd
        exact (Option.some.inj hdo).symm
    · exact Or.inl (by simp [hd])

lemma free_owners (hi : HeapInv T h bs) {pointer owner : ℕ} {r : Bool}
    (hrun : osAllocatorFree T h pointer owner = some (h', r)) :
    ∃ bs', HeapInv T h' bs' ∧ OwnersWithin bs bs' owner := by
  rcases free_cases hi pointer owner with ⟨-, hnull⟩ | ⟨-, hbad⟩ | ⟨pre, b, post, rfl, hown, rfl⟩
  · rw [hnull, Option.some.injEq, Prod.mk.injEq] at hrun
    obtain ⟨rfl, rfl⟩ := hrun
    exact ⟨bs, hi, fun b hb _ _ => Or.inl hb⟩
  · rw [hbad, Option.some.injEq, Prod.mk.injEq] at hrun
    obtain ⟨rfl, rfl⟩ := hrun
    exact ⟨bs, heapInv_of_ctl hi rfl rfl rfl rfl, fun b hb _ _ => Or.inl hb⟩
  · obtain ⟨h₁, hacc, hinv, -, -⟩ := free_accepted hi hown
    rw [hacc, Option.some.injEq, Prod.mk.injEq] at hrun
    obtain ⟨rfl, rfl⟩ := hrun
    refine ⟨_, hinv, fun d hd o hdo => Or.inl ?_⟩
    have hd' := mem_of_coalesce hd (by simp [hdo])
    simp only [List.mem_append, List.mem_cons] at hd' ⊢
    rcases hd' with hd' | rfl | hd'
    · exact Or.inl hd'
    · cases hdo
    · exact Or.inr (Or.inr hd')

/-- **What the release of an owner leaves**: the blocks of the others, as they were. -/
lemma releaseOwner_owners (hi : HeapInv T h bs) {owner released : ℕ}
    (hrun : osAllocatorReleaseOwner T h owner = some (h', released)) :
    ∃ bs', HeapInv T h' bs' ∧
      (∀ b o, b.owner = some o → (b ∈ bs' ↔ b ∈ bs ∧ o ≠ owner)) ∧
      ∀ x, Outside T.headerSize bs x → h'.mem x = h.mem x := by
  obtain ⟨h₁, hrel, hinv, -, hmem, -⟩ := releaseOwner_spec hi owner
  rw [hrel, Option.some.injEq, Prod.mk.injEq] at hrun
  obtain ⟨rfl, rfl⟩ := hrun
  refine ⟨_, hinv, fun b o hbo => ⟨fun hb => ?_, fun ⟨hb, hne⟩ => ?_⟩, hmem⟩
  · obtain ⟨c, hc, hcb⟩ := List.mem_map.mp (mem_of_coalesce hb (by simp [hbo]))
    rw [surrender] at hcb
    split_ifs at hcb with hco
    · rw [← hcb] at hbo
      cases hbo
    · subst hcb
      exact ⟨hc, fun heq => hco (by rw [hbo, heq])⟩
  · refine mem_coalesce (List.mem_map.mpr ⟨b, hb, ?_⟩) (by simp [hbo])
    rw [surrender, if_neg (by rw [hbo, Option.some.injEq]; exact hne)]

end Calls

/-! ### What the handlers leave untouched -/

variable (img : Image) {k k' : KernelState} {l : Label}

/-- Everything but the schedule, the requests and the trace is as it was. -/
structure Untouched (k k' : KernelState) : Prop where
  tasks : k'.tasks = k.tasks
  memory : k'.memoryAllocator = k.memoryAllocator
  ram : k'.ram = k.ram
  initialized : k'.initialized = k.initialized
  running : k'.running = k.running
  current : k'.currentTask = k.currentTask
  active : k'.hasActiveContext = k.hasActiveContext
  mode : k'.mode = k.mode
  cpu : k'.cpu = { k.cpu with pendsv := k'.cpu.pendsv }

lemma osKernelTick_untouched (hk : WellIndexed k) (h : osKernelTick k = .ok k') :
    Untouched k k' := by
  rw [osKernelTick_eq hk] at h
  split at h
  · cases h
    exact ⟨rfl, rfl, rfl, rfl, rfl, rfl, rfl, rfl, rfl⟩
  · rw [ite_error_eq_ok, ite_error_eq_ok, Except.ok.injEq] at h
    obtain ⟨-, -, rfl⟩ := h
    split <;> exact ⟨rfl, rfl, rfl, rfl, rfl, rfl, rfl, rfl, rfl⟩

lemma runService_untouched {service exc r0 : ℕ} (h : runService k service exc r0 = .ok k') :
    Untouched k k' := by
  rw [runService] at h
  split_ifs at h
  · obtain ⟨-, -, -, rfl⟩ := osSvcStart_eq_ok.mp h
    exact ⟨rfl, rfl, rfl, rfl, rfl, rfl, rfl, rfl, rfl⟩
  · obtain ⟨-, -, rfl⟩ := osSvcYield_eq_ok.mp h
    exact ⟨rfl, rfl, rfl, rfl, rfl, rfl, rfl, rfl, rfl⟩
  · obtain ⟨-, -, -, -, rfl⟩ := osSvcSleep_eq_ok.mp h
    exact ⟨rfl, rfl, rfl, rfl, rfl, rfl, rfl, rfl, rfl⟩
  · obtain ⟨-, -, -, -, -, rfl⟩ := osSvcExit_eq_ok.mp h
    exact ⟨rfl, rfl, rfl, rfl, rfl, rfl, rfl, rfl, rfl⟩
  · obtain ⟨-, -, -, rfl⟩ := osSvcWaitNextPeriod_eq_ok.mp h
    exact ⟨rfl, rfl, rfl, rfl, rfl, rfl, rfl, rfl, rfl⟩

/-- What the tasks' slots, the heap and the initialisation have in common with another kernel's. -/
structure SameHolders (k k' : KernelState) : Prop where
  tasks : k'.tasks = k.tasks
  initialized : k'.initialized = k.initialized
  memory : k'.memoryAllocator = k.memoryAllocator

lemma Untouched.holders (u : Untouched k k') : SameHolders k k' := ⟨u.tasks, u.initialized, u.memory⟩

lemma supervisorCall_holders {service r0 : ℕ} (hn : service < 5)
    (h : supervisorCall img k service r0 = .ok k') : SameHolders k k' := by
  obtain ⟨-, -, k₁, hrun, rfl⟩ := (supervisorCall_eq_ok img hn).mp h
  have u := runService_untouched hrun
  exact ⟨u.tasks, u.initialized, u.memory⟩

/-- A commit up to the dispatch. -/
lemma pendsvCommit_retired (h : pendsvCommit k = .ok k') :
    ∃ k₁ k₂, k₁.memoryAllocator = k.memoryAllocator ∧ k₁.schedules = k.schedules ∧
      k₁.currentTask = k.currentTask ∧ Retired k₁ k₂ ∧
      k'.memoryAllocator = k₂.memoryAllocator := by
  obtain ⟨k₁, k₂, k₃, next, hsave, hret, hdisp, -, rfl⟩ := pendsvCommit_eq_ok.mp h
  obtain ⟨-, -, -, rfl, -⟩ := dispatchNext_eq_ok.mp hdisp
  refine ⟨k₁, k₂, ?_, ?_, ?_, hret, rfl⟩ <;>
    rcases saveOutgoing_eq_ok.mp hsave with ⟨-, -, -, rfl⟩ | ⟨-, -, -, rfl⟩ <;> rfl

/-- A switch from a task that stays leaves the heap alone. -/
lemma commit_memory (h : pendsvCommit k = .ok k') (hs : ¬Exits k) :
    k'.memoryAllocator = k.memoryAllocator := by
  obtain ⟨k₁, k₂, hmem, hsched, hcur, hret, hk'⟩ := pendsvCommit_retired h
  rcases hret with _ | _ | ⟨hne, he, -⟩
  · exact hk'.trans hmem
  · exact hk'.trans hmem
  · rw [hcur, hsched] at he
    exact absurd ⟨hcur ▸ hne, he⟩ hs

/-- The labels that can change the heap. -/
def reachesHeap : Label → Bool
  | .alloc _ | .free _ | .heapWrite _ _ | .pendCommit => true
  | _ => false

/-- A step that neither switches nor creates changes the slots of no task. -/
lemma step_holders (hk : WellIndexed k) (h : Step img k l k') (hcommit : l ≠ .pendCommit)
    (hcreate : ∀ config, l ≠ .create config) :
    k'.tasks = k.tasks ∧ k'.initialized = k.initialized ∧
      (reachesHeap l = false → k'.memoryAllocator = k.memoryAllocator) := by
  have hall : ∀ {k₁}, SameHolders k k₁ → k₁.tasks = k.tasks ∧ k₁.initialized = k.initialized ∧
      (reachesHeap l = false → k₁.memoryAllocator = k.memoryAllocator) :=
    fun s => ⟨s.tasks, s.initialized, fun _ => s.memory⟩
  obtain ⟨hen, hexec⟩ := h
  have hcalled : Relinquishes l → k'.tasks = k.tasks ∧ k'.initialized = k.initialized ∧
      (reachesHeap l = false → k'.memoryAllocator = k.memoryAllocator) := fun hl => by
    rcases relinquish_cases img hl hexec with rfl | ⟨service, r0, hn, hcall⟩
    · exact hall ⟨rfl, rfl, rfl⟩
    · exact hall (supervisorCall_holders img (by omega) hcall)
  cases l with
  | tick =>
    rcases (sysTick_eq_ok img).mp hexec with ⟨-, k₁, h₁, rfl⟩ | ⟨-, h⟩
    · have u := osKernelTick_untouched (k := entered img k) ⟨hk.id, hk.sources, hk.current⟩ h₁
      exact hall ⟨u.tasks, u.initialized, u.memory⟩
    · exact hall (osKernelTick_untouched hk h).holders
  | pendEnter => cases hexec; exact hall ⟨rfl, rfl, rfl⟩
  | pendCommit => exact absurd rfl hcommit
  | pendReturn => cases hexec; exact hall ⟨rfl, rfl, rfl⟩
  | kernelStart =>
    obtain ⟨k₁, h₁, h₂⟩ := bind_eq_ok.mp hexec
    obtain ⟨-, -, rfl⟩ := osKernelStart_eq_ok.mp h₁
    cases h₂
    exact hall ⟨rfl, rfl, rfl⟩
  | startSvc => exact hall (supervisorCall_holders img (by decide) hexec)
  | trampoline =>
    simp only [exec, taskEntryTrampoline, ite_error_eq_ok, Except.ok.injEq] at hexec
    obtain ⟨-, rfl⟩ := hexec
    exact hall ⟨rfl, rfl, rfl⟩
  | fallThrough =>
    simp only [exec, fallThrough] at hexec
    split_ifs at hexec
  | create config => exact absurd rfl (hcreate config)
  | yield => exact hcalled (Or.inl rfl)
  | sleep ticks => exact hcalled (Or.inr (Or.inl ⟨ticks, rfl⟩))
  | waitNextPeriod => exact hcalled (Or.inr (Or.inr (Or.inl rfl)))
  | taskExit => exact hcalled (Or.inr (Or.inr (Or.inr rfl)))
  | alloc size =>
    obtain ⟨r, hr, rfl⟩ := map_eq_ok.mp hexec
    rcases osMemoryAlloc_cases img hr with heq | ⟨-, heap, result, -, heq⟩
    · rw [heq]
      exact hall ⟨rfl, rfl, rfl⟩
    · rw [heq]
      exact ⟨rfl, rfl, fun hl => by cases hl⟩
  | free pointer =>
    obtain ⟨r, hr, rfl⟩ := map_eq_ok.mp hexec
    rcases osMemoryFree_cases img hr with heq | ⟨-, heap, result, -, heq⟩
    · rw [heq]
      exact hall ⟨rfl, rfl, rfl⟩
    · rw [heq]
      exact ⟨rfl, rfl, fun hl => by cases hl⟩
  | compute callee hw psp => cases hexec; exact hall ⟨rfl, rfl, rfl⟩
  | stackWrite addr value => cases hexec; exact hall ⟨rfl, rfl, rfl⟩
  | heapWrite addr value => cases hexec; exact ⟨rfl, rfl, fun hl => by cases hl⟩
  | primask masked => cases hexec; exact hall ⟨rfl, rfl, rfl⟩

/-- A step that does not reach the heap leaves it as it was. -/
lemma memory_frame (hk : WellIndexed k) (h : Step img k l k') (hl : reachesHeap l = false) :
    k'.memoryAllocator = k.memoryAllocator := by
  cases l with
  | pendCommit => cases hl
  | create config =>
    obtain ⟨⟨_, r⟩, hcall, rfl⟩ := map_eq_ok.mp h.exec
    rcases osTaskCreate_cases img hk hcall with rfl | ⟨i, -, rfl⟩ | ⟨i, t, -, -, -, rfl⟩
    · rfl
    · rfl
    · rw [created]
      split <;> rfl
  | _ => exact (step_holders img hk h (by simp) (by simp)).2.2 hl

/-! ### Owners are occupied slots -/

/-- Every block that is in use belongs to an occupied user slot. -/
def HeapOwned (k : KernelState) : Prop :=
  ∃ bs, HeapInv .arm32 k.memoryAllocator bs ∧ ∀ b ∈ bs, ∀ o, b.owner = some o →
    o ∈ userSlots ∧ (k.schedules o).state ≠ .dormant

lemma heapOwned_booted (m : Mem) (ram : Ram) (pc : ℕ) : HeapOwned (booted img m ram pc) := by
  have h1 := img.stacks_pos
  have h2 := img.stacks_below
  have h3 := img.heap_below
  have h4 := img.boot_room
  have h5 := img.boot_below
  have h6 := img.top_fits
  have hinv : HeapInv .arm32 (freshHeap .arm32 m img.heapStart img.heapEnd) _ :=
    freshHeap_inv (by omega) img.heap_aligned.1 img.heap_aligned.2 img.heap_room (by omega)
  refine ⟨_, hinv, fun b hb o ho => ?_⟩
  rw [List.mem_singleton] at hb
  subst hb
  cases ho

/-- A memory call that is not turned away is made by an occupied user slot. -/
lemma memoryCallValid.slot (h : memoryCallValid k) :
    k.currentTask ∈ userSlots ∧ (k.schedules k.currentTask).state ≠ .dormant := by
  obtain ⟨-, hcall, hidle⟩ := h
  obtain ⟨-, hlt, hrun, -⟩ := callerIsRunningTask_iff.mp hcall
  exact ⟨userSlot_of_ne_idle hlt hidle, by rw [hrun]; decide⟩

lemma owner_le {i : ℕ} (hi : i ∈ userSlots) : i ≤ uint16Max := by
  have := (mem_userSlots.mp hi).2
  unfold osTaskCount maxUserTasks at this
  unfold uint16Max
  omega

/-- **The reclaim of an exiting task** takes its blocks and nothing else. -/
lemma reclaim_blocks {bs : List Blk} (hi : HeapInv .arm32 k.memoryAllocator bs)
    (h : pendsvCommit k = .ok k') (hs : Exits k) :
    ∃ bs', HeapInv .arm32 k'.memoryAllocator bs' ∧
      (∀ b o, b.owner = some o → (b ∈ bs' ↔ b ∈ bs ∧ o ≠ k.currentTask)) ∧
      ∀ x, Outside (Target.headerSize .arm32) bs x →
        k'.memoryAllocator.mem x = k.memoryAllocator.mem x := by
  obtain ⟨k₁, k₂, hmem, hsched, hcur, hret, hk'⟩ := pendsvCommit_retired h
  rw [hk']
  rcases hret with hstay | ⟨-, hrun⟩ | ⟨-, -, hrec⟩
  · rw [hcur, hsched] at hstay
    exact absurd hs.2 (hstay.resolve_left hs.1).2
  · rw [hcur, hsched, hs.2] at hrun
    cases hrun
  · obtain ⟨-, -, heap, released, hrel, -, rfl⟩ := reclaimExitingTask_eq_ok.mp hrec
    rw [hmem, hcur] at hrel
    exact releaseOwner_owners hi hrel

/-- **Owners stay occupied slots.** -/
theorem HeapOwned.step {img : Image} (hc : ControlInv (ctl k)) (h : HeapOwned k) (hstep : Step img k l k') :
    HeapOwned k' := by
  obtain ⟨bs, hi, hown⟩ := h
  have hwell := ControlInv.wellIndexed hc
  obtain ⟨batches, hctl, -⟩ := control_step img hwell hstep
  have hocc : ∀ o ∈ userSlots, (k.schedules o).state ≠ .dormant →
      (k'.schedules o).state ≠ .dormant ∨
        (l = .pendCommit ∧ o = k.currentTask ∧ Exits k) := by
    intro o ho hn
    rcases hctl.occupied hc ho hn with hn' | ⟨hl, rfl, hs⟩
    · exact Or.inl hn'
    · exact Or.inr ⟨hl, rfl, ne_invalid_of_lt (mem_userSlots.mp ho).2, hs⟩
  -- where no slot is reclaimed, it is enough that new owners are occupied slots
  have hkeep : ∀ bs', HeapInv .arm32 k'.memoryAllocator bs' →
      (∀ b ∈ bs', ∀ o, b.owner = some o → o ∈ userSlots ∧ (k.schedules o).state ≠ .dormant) →
      (l = .pendCommit → ¬Exits k) → HeapOwned k' := by
    refine fun bs' hi' hown' hne => ⟨bs', hi', fun b hb o ho => ?_⟩
    obtain ⟨hu, hn⟩ := hown' b hb o ho
    exact ⟨hu, (hocc o hu hn).resolve_right fun hx => hne hx.1 hx.2.2⟩
  by_cases hreach : reachesHeap l = false
  · rw [← memory_frame img hwell hstep hreach] at hi
    exact hkeep bs hi hown fun hl => by rw [hl] at hreach; cases hreach
  cases l with
  | alloc size =>
    obtain ⟨⟨_, r⟩, hcall, rfl⟩ := map_eq_ok.mp hstep.exec
    rcases osMemoryAlloc_cases img hcall with rfl | ⟨hvalid, heap, result, hrun, rfl⟩
    · exact hkeep bs hi hown (fun hl => by cases hl)
    · obtain ⟨hu, hn⟩ := memoryCallValid.slot hvalid
      obtain ⟨bs', hi', hw⟩ := alloc_owners hi (owner_le hu) hrun
      refine hkeep bs' hi' (fun b hb o ho => ?_) (fun hl => by cases hl)
      rcases hw b hb o ho with hb | rfl
      · exact hown b hb o ho
      · exact ⟨hu, hn⟩
  | free pointer =>
    obtain ⟨⟨_, r⟩, hcall, rfl⟩ := map_eq_ok.mp hstep.exec
    rcases osMemoryFree_cases img hcall with rfl | ⟨hvalid, heap, result, hrun, rfl⟩
    · exact hkeep bs hi hown (fun hl => by cases hl)
    · obtain ⟨hu, hn⟩ := memoryCallValid.slot hvalid
      obtain ⟨bs', hi', hw⟩ := free_owners hi hrun
      refine hkeep bs' hi' (fun b hb o ho => ?_) (fun hl => by cases hl)
      rcases hw b hb o ho with hb | rfl
      · exact hown b hb o ho
      · exact ⟨hu, hn⟩
  | heapWrite addr value =>
    have hen := hstep.enabled
    simp only [enabled, HeapRun.blocks_eq hi, Bool.and_eq_true, List.all_eq_true, Bool.or_eq_true,
      decide_eq_true_eq] at hen
    cases hstep.exec
    refine hkeep bs (HeapRun.heapInv_congr hi fun x hx => ?_) hown (fun hl => by cases hl)
    refine Function.update_of_ne (fun heq => hx fun b hb => ?_) _ _
    exact heq ▸ hen.2 b hb
  | pendCommit =>
    by_cases hexit : Exits k
    · obtain ⟨bs', hi', hblocks, -⟩ := reclaim_blocks hi hstep.exec hexit
      refine ⟨bs', hi', fun b hb o ho => ?_⟩
      obtain ⟨hb, hne⟩ := (hblocks b o ho).mp hb
      obtain ⟨hu, hn⟩ := hown b hb o ho
      exact ⟨hu, (hocc o hu hn).resolve_right fun hx => hne hx.2.1⟩
    · rw [← commit_memory hstep.exec hexit] at hi
      exact hkeep bs hi hown fun _ => hexit
  | _ => exact absurd rfl hreach

end Aymos.Ownership
